import ReputationFirewall.Scripts.Checksums
import ReputationFirewall.Xdp.Grammar

set_option autoImplicit false

namespace ReputationFirewall.Scripts

open BigEndian Xdp

def ethernetHeader (macs : Octets 12) : List UInt8 := macs.toList ++ [0x08, 0x00]

def Transport.ports : Transport → Option (BitVec 16 × BitVec 16)
  | .tcpSyn srcPort dstPort _ => some (srcPort, dstPort)
  | .udp srcPort dstPort => some (srcPort, dstPort)
  | .icmpEcho .. => none
  | .other _ => none

namespace TestPacket

variable (packet : TestPacket) (check : BitVec 16)

section Header

def fixedHeader : Octets 20 := readUnaligned 20 (packet.header check) 0

theorem toList_fixedHeader : (packet.fixedHeader check).toList = packet.header check := by
  have length : (packet.header check).length = 20 := packet.length_header check
  have whole := @toList_readUnaligned 20 (packet.header check) 0 (by omega)
  rwa [List.drop_of_length_le (by omega), List.append_nil, List.drop_zero] at whole

theorem srcAddr_fixedHeader : (Ipv4Header.decode (packet.fixedHeader check)).srcAddr = packet.srcIp := by
  let before := headerFront packet.transport.protocol packet.id (BitVec.ofNat 16 packet.totalLen) ++ u16Bytes check
  have place : 0 + 12 = before.length + 0 := by simp [before]
  simp only [Ipv4Header.decode, fixedHeader, slice_readUnaligned]
  rw [place, header, headerBytes, readUnaligned_append]
  exact readUnaligned_toList packet.srcIp _

theorem dstAddr_fixedHeader : (Ipv4Header.decode (packet.fixedHeader check)).dstAddr = packet.dstIp := by
  let before := headerFront packet.transport.protocol packet.id (BitVec.ofNat 16 packet.totalLen) ++ u16Bytes check ++
    packet.srcIp.toList
  have place : 0 + 16 = before.length + 0 := by simp [before]
  have split : packet.header check = before ++ (packet.dstIp.toList ++ []) := by
    simp [header, headerBytes, before]
  simp only [Ipv4Header.decode, fixedHeader, slice_readUnaligned]
  rw [place, split, readUnaligned_append]
  exact readUnaligned_toList packet.dstIp _

theorem vhl_fixedHeader : (Ipv4Header.decode (packet.fixedHeader check)).vhl = 0x45 := by
  simp only [Ipv4Header.decode, fixedHeader, readUnaligned_get]
  rfl

theorem protocol_fixedHeader :
    (Ipv4Header.decode (packet.fixedHeader check)).protocol = packet.transport.protocol := by
  simp only [Ipv4Header.decode, fixedHeader, readUnaligned_get]
  simp [header, headerBytes, headerFront, u16Bytes]

end Header

section Frames

variable (headerCheck : BitVec 16)

theorem version_fixedHeader : (Ipv4Header.decode (packet.fixedHeader headerCheck)).vhl >>> 4 = 4 := by
  rw [vhl_fixedHeader]
  decide

theorem ihl_fixedHeader : 20 + ([] : List UInt8).length = (Ipv4Header.decode (packet.fixedHeader headerCheck)).ihl := by
  rw [Ipv4Header.ihl, vhl_fixedHeader]
  decide

def ipFrame (macs : Octets 12) : IpFrame where
  macs := macs
  tags := []
  few := by decide
  header := .ipv4 (packet.fixedHeader headerCheck) [] (packet.version_fixedHeader headerCheck)
    (packet.ihl_fixedHeader headerCheck)
  payload := packet.segment check

variable (macs : Octets 12)

theorem bytes_ipFrame :
    (packet.ipFrame check headerCheck macs).bytes =
      ethernetHeader macs ++ (packet.header headerCheck ++ packet.segment check) := by
  have etherType : (toBeBytes ethPIp : Octets 2).toList = [0x08, 0x00] := by decide
  simp only [IpFrame.bytes, IpFrame.tagBytes, IpFrame.etherBytes, IpHeader.etherType, IpHeader.bytes, ipFrame,
    ethernetHeader, toList_fixedHeader, etherType, List.flatMap_nil, List.nil_append, List.append_nil, List.append_assoc]

theorem srcIp_ipFrame : (packet.ipFrame check headerCheck macs).packet.srcIp = padded packet.srcIp := by
  simp only [IpFrame.packet, ipFrame, IpHeader.srcIp, srcAddr_fixedHeader]

theorem dstIp_ipFrame : (packet.ipFrame check headerCheck macs).packet.dstIp = padded packet.dstIp := by
  simp only [IpFrame.packet, ipFrame, IpHeader.dstIp, dstAddr_fixedHeader]

theorem protocol_ipFrame :
    (packet.ipFrame check headerCheck macs).header.protocol = packet.transport.protocol := by
  simp only [ipFrame, IpHeader.protocol, protocol_fixedHeader]

theorem l4Offset_ipFrame : (packet.ipFrame check headerCheck macs).l4Offset = 34 := by
  simp [IpFrame.l4Offset, ipFrame, IpHeader.bytes]

theorem carriesPorts {ports : BitVec 16 × BitVec 16} (given : packet.transport.ports = some ports) :
    (packet.transport.protocol = protoTcp ∨ packet.transport.protocol = protoUdp) ∧
      ∃ rest, packet.segment check =
        (toBeBytes ports.1 : Octets 2).toList ++ ((toBeBytes ports.2 : Octets 2).toList ++ rest) := by
  unfold segment
  cases kind : packet.transport with
  | tcpSyn srcPort dstPort seq =>
      rw [kind, Transport.ports, Option.some.injEq] at given
      subst given
      refine ⟨.inl rfl, ?_⟩
      simp only [segmentBytes, tcpFront, List.append_assoc, u16Bytes]
      exact ⟨_, rfl⟩
  | udp srcPort dstPort =>
      rw [kind, Transport.ports, Option.some.injEq] at given
      subst given
      refine ⟨.inr rfl, ?_⟩
      simp only [segmentBytes, udpFront, List.append_assoc, u16Bytes]
      exact ⟨_, rfl⟩
  | icmpEcho => rw [kind] at given; cases given
  | other => rw [kind] at given; cases given

theorem ports_ipFrame {ports : BitVec 16 × BitVec 16} (given : packet.transport.ports = some ports) :
    (packet.ipFrame check headerCheck macs).ports = ports := by
  obtain ⟨protocol, rest, front⟩ := packet.carriesPorts check given
  have payload : (packet.ipFrame check headerCheck macs).payload =
      (toBeBytes ports.1 : Octets 2).toList ++ ((toBeBytes ports.2 : Octets 2).toList ++ rest) := front
  have long : 4 ≤ (packet.ipFrame check headerCheck macs).payload.length := by
    rw [payload]
    simp
    omega
  have first : readUnaligned 2 (packet.ipFrame check headerCheck macs).payload 0 = toBeBytes ports.1 := by
    rw [payload]
    exact readUnaligned_toList _ _
  have second : readUnaligned 2 (packet.ipFrame check headerCheck macs).payload 2 = toBeBytes ports.2 := by
    have behind := readUnaligned_append 2 (toBeBytes ports.1 : Octets 2).toList
      ((toBeBytes ports.2 : Octets 2).toList ++ rest) 0
    rw [Vector.length_toList] at behind
    rw [payload]
    exact behind.trans (readUnaligned_toList _ _)
  rw [IpFrame.ports, if_pos ⟨packet.protocol_ipFrame check headerCheck macs ▸ protocol, long⟩, first, second,
    @fromBeBytes_toBeBytes 2 ports.1, @fromBeBytes_toBeBytes 2 ports.2]

end Frames

end TestPacket

theorem test_traffic_classified (packet : TestPacket) (macs : Octets 12) (buf : List UInt8)
    (short : packet.totalLen ≤ 1500) (room : packet.totalLen ≤ buf.length) :
    ∃ bytes parsed, packet.written buf = some bytes ∧ bytes.length = packet.totalLen ∧
      classifyPacket (ethernetHeader macs ++ bytes) = some parsed ∧ parsed.ipVersion = 4 ∧
      parsed.srcIp = padded packet.srcIp ∧ parsed.dstIp = padded packet.dstIp ∧
      parsed.protocol = packet.transport.protocol ∧ parsed.l4Offset = 34 ∧
      ∀ ports, packet.transport.ports = some ports → (parsed.srcPort, parsed.dstPort) = ports := by
  obtain ⟨headerCheck, headed, -⟩ := packet.header_verifies
  obtain ⟨check, summed, -⟩ := packet.segment_verifies short
  have classified := (packet.ipFrame check headerCheck macs).classified
  rw [packet.bytes_ipFrame] at classified
  refine ⟨_, _, TestPacket.written_eq short room summed headed, ?_, classified, rfl, ?_, ?_, ?_, ?_, ?_⟩
  · rw [List.length_append, packet.length_header, packet.length_segment, TestPacket.totalLen]
  · exact packet.srcIp_ipFrame check headerCheck macs
  · exact packet.dstIp_ipFrame check headerCheck macs
  · exact packet.protocol_ipFrame check headerCheck macs
  · exact packet.l4Offset_ipFrame check headerCheck macs
  · intro ports given
    have same := packet.ports_ipFrame check headerCheck macs given
    simp only [IpFrame.packet, same]

theorem odd_udp_packet_classified :
    ∃ bytes parsed, oddUdpPacket.written (List.replicate 64 0) = some bytes ∧ bytes.length = 31 ∧
      classifyPacket (ethernetHeader (Vector.replicate 12 0xff) ++ bytes) = some parsed ∧ parsed.ipVersion = 4 ∧
      parsed.srcIp = padded oddUdpPacket.srcIp ∧ parsed.dstIp = padded oddUdpPacket.dstIp ∧
      parsed.protocol = ipprotoUdp ∧ parsed.l4Offset = 34 ∧
      ∀ ports, some (49152, 53) = some ports → (parsed.srcPort, parsed.dstPort) = ports :=
  test_traffic_classified oddUdpPacket (Vector.replicate 12 0xff) (List.replicate 64 0) (by decide) (by decide)

end ReputationFirewall.Scripts
