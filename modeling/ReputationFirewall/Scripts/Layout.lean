import ReputationFirewall.Scripts.Packet

set_option autoImplicit false

namespace ReputationFirewall.Scripts

open BigEndian Buffers

@[simp] theorem length_u16Bytes (number : BitVec 16) : (u16Bytes number).length = 2 := Vector.length_toList

@[simp] theorem length_u32Bytes (number : BitVec 32) : (u32Bytes number).length = 4 := Vector.length_toList

section Payloads

variable {B : Type} {buf payload : List UInt8} {start offset stop : Nat} (rest : List UInt8 → Option B)

theorem setByte_first {byte : UInt8} (inside : start + 1 ≤ buf.length) :
    (setByte buf start byte).bind rest = rest (overwrite buf start [byte]) :=
  copy_first rest rfl inside

theorem setByte_next {done : List UInt8} {byte : UInt8} (begins : start + done.length = offset)
    (inside : offset + 1 ≤ buf.length) :
    (setByte (overwrite buf start done) offset byte).bind rest = rest (overwrite buf start (done ++ [byte])) :=
  copy_next rest begins rfl inside

-- Without a payload nothing is copied, which is what copying no bytes would do.
theorem copyPayload_first (ends : start + payload.length = stop) (inside : stop ≤ buf.length) :
    (copyPayload buf start stop payload).bind rest = rest (overwrite buf start payload) := by
  cases payload with
  | nil => simp [copyPayload, overwrite]
  | cons byte more => exact copy_first rest ends inside

theorem copyPayload_next {done : List UInt8} (begins : start + done.length = offset)
    (ends : offset + payload.length = stop) (inside : stop ≤ buf.length) :
    (copyPayload (overwrite buf start done) offset stop payload).bind rest =
      rest (overwrite buf start (done ++ payload)) := by
  cases payload with
  | nil => simp [copyPayload]
  | cons byte more => exact copy_next rest begins ends inside

theorem assertRoom_bind {totalLen : Nat} (next : Unit → Option B) (room : totalLen ≤ buf.length) :
    (assertRoom buf totalLen).bind next = next () := by
  rw [assertRoom, if_pos room, Option.bind_some]

end Payloads

section Headers

variable (srcIp dstIp : Octets 4) (proto : UInt8) (identification totalLen : BitVec 16)

def headerFront : List UInt8 :=
  [0x45] ++ [0x00] ++ u16Bytes totalLen ++ u16Bytes identification ++ u16Bytes 0x4000 ++ [64] ++ [proto]

def headerBytes (check : BitVec 16) : List UInt8 :=
  headerFront proto identification totalLen ++ u16Bytes check ++ (srcIp.toList ++ dstIp.toList)

@[simp] theorem length_headerFront : (headerFront proto identification totalLen).length = 10 := by
  simp [headerFront]

@[simp] theorem length_headerBytes (check : BitVec 16) :
    (headerBytes srcIp dstIp proto identification totalLen check).length = 20 := by
  simp [headerBytes]

theorem writeIpv4Header_written {buf : List UInt8} {payloadLen : Nat} {check : BitVec 16} (room : 20 ≤ buf.length)
    (summed : internetChecksum (headerBytes srcIp dstIp proto identification (BitVec.ofNat 16 (20 + payloadLen)) 0) =
      some check) :
    writeIpv4Header buf srcIp dstIp proto identification payloadLen =
      some (overwrite buf 0 (headerBytes srcIp dstIp proto identification (BitVec.ofNat 16 (20 + payloadLen)) check),
        20) := by
  have written : headerFront proto identification (BitVec.ofNat 16 (20 + payloadLen)) ++ [0, 0] ++ srcIp.toList ++
      dstIp.toList = headerBytes srcIp dstIp proto identification (BitVec.ofNat 16 (20 + payloadLen)) 0 := by
    simp only [headerBytes, List.append_assoc]
    rfl
  simp only [writeIpv4Header, ipv4HeaderLen, Option.bind_eq_bind]
  rw [setByte_first _ (by omega), setByte_next _ (by simp) (by omega),
    copy_next _ (by simp) (by simp) (by omega), copy_next _ (by simp) (by simp) (by omega),
    copy_next _ (by simp) (by simp) (by omega), setByte_next _ (by simp) (by omega),
    setByte_next _ (by simp) (by omega), ← headerFront,
    copy_next _ (by simp) (by simp) (by omega), copy_next _ (by simp) (by simp) (by omega),
    copy_next _ (by simp) (by simp) (by omega), written,
    readSlice_overwrite _ (by simp) room, Option.bind_some, summed, Option.bind_some, headerBytes,
    copy_middle _ (by simp) (by simp) (by simp) (by simpa using room), ← headerBytes]
  rfl

end Headers

section Segments

def segmentBytes (front back : List UInt8) (check : BitVec 16) : List UInt8 := front ++ u16Bytes check ++ back

@[simp] theorem length_segmentBytes (front back : List UInt8) (check : BitVec 16) :
    (segmentBytes front back check).length = front.length + 2 + back.length := by
  rw [segmentBytes, List.length_append, List.length_append, length_u16Bytes]

def tcpFront (srcPort dstPort : BitVec 16) (seq : BitVec 32) : List UInt8 :=
  u16Bytes srcPort ++ u16Bytes dstPort ++ u32Bytes seq ++ u32Bytes 0 ++ [0x50] ++ [0x02] ++ u16Bytes 64240

def udpFront (srcPort dstPort udpLen : BitVec 16) : List UInt8 :=
  u16Bytes srcPort ++ u16Bytes dstPort ++ u16Bytes udpLen

def icmpFront : List UInt8 := [8] ++ [0]

@[simp] theorem length_tcpFront (srcPort dstPort : BitVec 16) (seq : BitVec 32) :
    (tcpFront srcPort dstPort seq).length = 16 := by
  simp [tcpFront]

@[simp] theorem length_udpFront (srcPort dstPort udpLen : BitVec 16) :
    (udpFront srcPort dstPort udpLen).length = 6 := by
  simp [udpFront]

variable {srcIp dstIp : Octets 4} {id : BitVec 16} {buf payload : List UInt8} {check headerCheck : BitVec 16}

theorem sealed_written {front back : List UInt8} {proto : UInt8} {offset stop l4Len total : Nat}
    (checksum : List UInt8 → Option (BitVec 16)) (room : 20 + (front.length + 2 + back.length) ≤ buf.length)
    (place : 20 + front.length = offset) (ends : offset + 2 = stop)
    (size : 20 + (front.length + 2 + back.length) = total)
    (summed : checksum (segmentBytes front back 0) = some check)
    (headed : internetChecksum (headerBytes srcIp dstIp proto id (BitVec.ofNat 16 (20 + l4Len)) 0) =
      some headerCheck) :
    ((readSlice (overwrite buf 20 (segmentBytes front back 0)) 20 total).bind fun data =>
      (checksum data).bind fun csum =>
        (copyFromSlice (overwrite buf 20 (segmentBytes front back 0)) offset stop (u16Bytes csum)).bind fun buf =>
          (writeIpv4Header buf srcIp dstIp proto id l4Len).bind fun written => some (written.1, total)) =
      some (overwrite (overwrite buf 20 (segmentBytes front back check)) 0
        (headerBytes srcIp dstIp proto id (BitVec.ofNat 16 (20 + l4Len)) headerCheck), total) := by
  have length : (overwrite buf 20 (segmentBytes front back check)).length = buf.length :=
    length_overwrite (by simpa using room)
  rw [readSlice_overwrite _ (by simpa using size) (by omega), Option.bind_some, summed, Option.bind_some, segmentBytes,
    copy_middle _ place (by simp) (by simpa using ends) (by simpa [Nat.add_assoc] using room),
    ← segmentBytes, writeIpv4Header_written srcIp dstIp proto id (by omega) headed, Option.bind_some]

theorem buildIpv4TcpSyn_written {srcPort dstPort : BitVec 16} {seq : BitVec 32} (room : 40 + payload.length ≤ buf.length)
    (summed : l4Checksum srcIp dstIp ipprotoTcp (segmentBytes (tcpFront srcPort dstPort seq) ([0, 0] ++ payload) 0) =
      some check)
    (headed : internetChecksum (headerBytes srcIp dstIp ipprotoTcp id (BitVec.ofNat 16 (20 + (20 + payload.length))) 0) =
      some headerCheck) :
    buildIpv4TcpSyn buf srcIp dstIp srcPort dstPort seq id payload =
      some (overwrite (overwrite buf 20 (segmentBytes (tcpFront srcPort dstPort seq) ([0, 0] ++ payload) check)) 0
        (headerBytes srcIp dstIp ipprotoTcp id (BitVec.ofNat 16 (20 + (20 + payload.length))) headerCheck),
          20 + (20 + payload.length)) := by
  have written : tcpFront srcPort dstPort seq ++ [0, 0] ++ [0, 0] ++ payload =
      segmentBytes (tcpFront srcPort dstPort seq) ([0, 0] ++ payload) 0 := by
    simp only [segmentBytes, List.append_assoc]
    rfl
  simp only [buildIpv4TcpSyn, ipv4HeaderLen, tcpHeaderLen, Option.bind_eq_bind, Option.pure_def]
  rw [assertRoom_bind _ (by omega), copy_first _ (by simp) (by omega),
    copy_next _ (by simp) (by simp) (by omega), copy_next _ (by simp) (by simp) (by omega),
    copy_next _ (by simp) (by simp) (by omega), setByte_next _ (by simp) (by omega),
    setByte_next _ (by simp) (by omega), copy_next _ (by simp) (by simp) (by omega),
    ← tcpFront, copy_next _ (by simp) (by simp) (by omega),
    copy_next _ (by simp) (by simp) (by omega),
    copyPayload_next _ (by simp) (by omega) (by omega), written]
  have size : (tcpFront srcPort dstPort seq).length + 2 + ([0, 0] ++ payload).length = 20 + payload.length := by
    simp
    omega
  exact sealed_written (l4Checksum srcIp dstIp ipprotoTcp) (by omega) (by rw [length_tcpFront]) rfl (by rw [size]) summed
    headed

theorem buildIpv4Udp_written {srcPort dstPort udpLen : BitVec 16} (whole : udpLen.toNat = 8 + payload.length)
    (room : 28 + payload.length ≤ buf.length)
    (summed : l4Checksum srcIp dstIp ipprotoUdp (segmentBytes (udpFront srcPort dstPort udpLen) payload 0) = some check)
    (headed : internetChecksum (headerBytes srcIp dstIp ipprotoUdp id (BitVec.ofNat 16 (20 + (8 + payload.length))) 0) =
      some headerCheck) :
    buildIpv4Udp buf srcIp dstIp srcPort dstPort id payload =
      some (overwrite (overwrite buf 20 (segmentBytes (udpFront srcPort dstPort udpLen) payload check)) 0
        (headerBytes srcIp dstIp ipprotoUdp id (BitVec.ofNat 16 (20 + (8 + payload.length))) headerCheck),
          20 + (8 + payload.length)) := by
  have truncated : BitVec.ofNat 16 (8 + payload.length) = udpLen := by
    rw [← whole, BitVec.ofNat_toNat, BitVec.setWidth_eq]
  have written : udpFront srcPort dstPort udpLen ++ [0, 0] ++ payload =
      segmentBytes (udpFront srcPort dstPort udpLen) payload 0 := rfl
  simp only [buildIpv4Udp, ipv4HeaderLen, udpHeaderLen, Option.bind_eq_bind, Option.pure_def, truncated, whole]
  rw [assertRoom_bind _ (by omega), copy_first _ (by simp) (by omega),
    copy_next _ (by simp) (by simp) (by omega), copy_next _ (by simp) (by simp) (by omega),
    ← udpFront, copy_next _ (by simp) (by simp) (by omega),
    copyPayload_next _ (by simp) (by omega) (by omega), written]
  have size : (udpFront srcPort dstPort udpLen).length + 2 + payload.length = 8 + payload.length := by
    rw [length_udpFront]
  exact sealed_written (l4Checksum srcIp dstIp ipprotoUdp) (by omega) (by rw [length_udpFront]) rfl (by rw [size]) summed
    headed

theorem buildIpv4IcmpEcho_written {ident seq : BitVec 16} (room : 28 + payload.length ≤ buf.length)
    (summed : internetChecksum (segmentBytes icmpFront (u16Bytes ident ++ u16Bytes seq ++ payload) 0) = some check)
    (headed : internetChecksum (headerBytes srcIp dstIp ipprotoIcmp id (BitVec.ofNat 16 (20 + (8 + payload.length))) 0) =
      some headerCheck) :
    buildIpv4IcmpEcho buf srcIp dstIp ident seq id payload =
      some (overwrite (overwrite buf 20 (segmentBytes icmpFront (u16Bytes ident ++ u16Bytes seq ++ payload) check)) 0
        (headerBytes srcIp dstIp ipprotoIcmp id (BitVec.ofNat 16 (20 + (8 + payload.length))) headerCheck),
          20 + (8 + payload.length)) := by
  have written : icmpFront ++ [0, 0] ++ u16Bytes ident ++ u16Bytes seq ++ payload =
      segmentBytes icmpFront (u16Bytes ident ++ u16Bytes seq ++ payload) 0 := by
    simp only [segmentBytes, List.append_assoc]
    rfl
  simp only [buildIpv4IcmpEcho, ipv4HeaderLen, icmpHeaderLen, Option.bind_eq_bind, Option.pure_def]
  rw [assertRoom_bind _ (by omega), setByte_first _ (by omega),
    setByte_next _ (by simp) (by omega), ← icmpFront,
    copy_next _ (by simp [icmpFront]) (by simp) (by omega),
    copy_next _ (by simp [icmpFront]) (by simp) (by omega),
    copy_next _ (by simp [icmpFront]) (by simp) (by omega),
    copyPayload_next _ (by simp [icmpFront]) (by omega) (by omega), written]
  have size : icmpFront.length + 2 + (u16Bytes ident ++ u16Bytes seq ++ payload).length = 8 + payload.length := by
    simp [icmpFront]
    omega
  exact sealed_written internetChecksum (by omega) rfl rfl (by rw [size]) summed headed

theorem buildIpv4Other_written {proto : UInt8} (room : 20 + payload.length ≤ buf.length)
    (headed : internetChecksum (headerBytes srcIp dstIp proto id (BitVec.ofNat 16 (20 + payload.length)) 0) =
      some headerCheck) :
    buildIpv4Other buf srcIp dstIp proto id payload =
      some (overwrite (overwrite buf 20 payload) 0
        (headerBytes srcIp dstIp proto id (BitVec.ofNat 16 (20 + payload.length)) headerCheck), 20 + payload.length) := by
  have length : (overwrite buf 20 payload).length = buf.length := length_overwrite room
  simp only [buildIpv4Other, ipv4HeaderLen, Option.bind_eq_bind, Option.pure_def]
  rw [assertRoom_bind _ room, copyPayload_first _ rfl room,
    writeIpv4Header_written srcIp dstIp proto id (by omega) headed, Option.bind_some]

end Segments

section TestPackets

inductive Transport where
  | tcpSyn (srcPort dstPort : BitVec 16) (seq : BitVec 32)
  | udp (srcPort dstPort : BitVec 16)
  | icmpEcho (ident seq : BitVec 16)
  | other (proto : UInt8)

structure TestPacket where
  transport : Transport
  srcIp : Octets 4
  dstIp : Octets 4
  id : BitVec 16
  payload : List UInt8

def Transport.headerLen : Transport → Nat
  | .tcpSyn .. => tcpHeaderLen
  | .udp .. => udpHeaderLen
  | .icmpEcho .. => icmpHeaderLen
  | .other _ => 0

def Transport.protocol : Transport → UInt8
  | .tcpSyn .. => ipprotoTcp
  | .udp .. => ipprotoUdp
  | .icmpEcho .. => ipprotoIcmp
  | .other proto => proto

namespace TestPacket

variable (packet : TestPacket)

def build (buf : List UInt8) : Option (List UInt8 × Nat) :=
  match packet.transport with
  | .tcpSyn srcPort dstPort seq =>
      buildIpv4TcpSyn buf packet.srcIp packet.dstIp srcPort dstPort seq packet.id packet.payload
  | .udp srcPort dstPort => buildIpv4Udp buf packet.srcIp packet.dstIp srcPort dstPort packet.id packet.payload
  | .icmpEcho ident seq => buildIpv4IcmpEcho buf packet.srcIp packet.dstIp ident seq packet.id packet.payload
  | .other proto => buildIpv4Other buf packet.srcIp packet.dstIp proto packet.id packet.payload

def written (buf : List UInt8) : Option (List UInt8) := (packet.build buf).map fun built => built.1.take built.2

def totalLen : Nat := ipv4HeaderLen + (packet.transport.headerLen + packet.payload.length)

def header (check : BitVec 16) : List UInt8 :=
  headerBytes packet.srcIp packet.dstIp packet.transport.protocol packet.id (BitVec.ofNat 16 packet.totalLen) check

def segment (check : BitVec 16) : List UInt8 :=
  match packet.transport with
  | .tcpSyn srcPort dstPort seq => segmentBytes (tcpFront srcPort dstPort seq) ([0, 0] ++ packet.payload) check
  | .udp srcPort dstPort =>
      segmentBytes (udpFront srcPort dstPort (BitVec.ofNat 16 (udpHeaderLen + packet.payload.length))) packet.payload check
  | .icmpEcho ident seq => segmentBytes icmpFront (u16Bytes ident ++ u16Bytes seq ++ packet.payload) check
  | .other _ => packet.payload

def segmentChecksum : Option (BitVec 16) :=
  match packet.transport with
  | .tcpSyn .. | .udp .. =>
      l4Checksum packet.srcIp packet.dstIp packet.transport.protocol (packet.segment 0)
  | .icmpEcho .. => internetChecksum (packet.segment 0)
  | .other _ => some 0

theorem length_header (check : BitVec 16) : (packet.header check).length = ipv4HeaderLen := length_headerBytes ..

theorem length_segment (check : BitVec 16) :
    (packet.segment check).length = packet.transport.headerLen + packet.payload.length := by
  unfold segment
  cases packet.transport with
  | tcpSyn srcPort dstPort seq =>
      simp [Transport.headerLen, tcpHeaderLen]
      omega
  | udp srcPort dstPort => simp [Transport.headerLen, udpHeaderLen]
  | icmpEcho ident seq =>
      simp [Transport.headerLen, icmpHeaderLen, icmpFront]
      omega
  | other proto => simp [Transport.headerLen]

variable {packet} {buf : List UInt8} {check headerCheck : BitVec 16}

theorem build_written (short : packet.totalLen ≤ 1500) (room : packet.totalLen ≤ buf.length)
    (summed : packet.segmentChecksum = some check) (headed : internetChecksum (packet.header 0) = some headerCheck) :
    packet.build buf =
      some (overwrite (overwrite buf 20 (packet.segment check)) 0 (packet.header headerCheck), packet.totalLen) := by
  obtain ⟨transport, srcIp, dstIp, id, payload⟩ := packet
  cases transport with
  | tcpSyn srcPort dstPort seq =>
      have size : 20 + (20 + payload.length) ≤ buf.length := room
      have fits : 40 + payload.length ≤ buf.length := by omega
      exact buildIpv4TcpSyn_written fits summed headed
  | udp srcPort dstPort =>
      have size : 20 + (8 + payload.length) ≤ buf.length := room
      have fits : 28 + payload.length ≤ buf.length := by omega
      have small : 20 + (8 + payload.length) ≤ 1500 := short
      have whole : (BitVec.ofNat 16 (8 + payload.length)).toNat = 8 + payload.length := by
        rw [BitVec.toNat_ofNat, Nat.mod_eq_of_lt (by omega)]
      exact buildIpv4Udp_written whole fits summed headed
  | icmpEcho ident seq =>
      have size : 20 + (8 + payload.length) ≤ buf.length := room
      have fits : 28 + payload.length ≤ buf.length := by omega
      exact buildIpv4IcmpEcho_written fits summed headed
  | other proto =>
      have bare : 0 + payload.length = payload.length := Nat.zero_add _
      simp only [totalLen, ipv4HeaderLen, Transport.headerLen, bare, header] at room headed ⊢
      exact buildIpv4Other_written room headed

theorem written_eq (short : packet.totalLen ≤ 1500) (room : packet.totalLen ≤ buf.length)
    (summed : packet.segmentChecksum = some check) (headed : internetChecksum (packet.header 0) = some headerCheck) :
    packet.written buf = some (packet.header headerCheck ++ packet.segment check) := by
  have length : (packet.header headerCheck).length = 20 := packet.length_header headerCheck
  have size : packet.totalLen = 20 + (packet.segment check).length := by rw [length_segment]; rfl
  have front := take_overwrite_front (packet.header headerCheck) (packet.segment check) (length ▸ size ▸ room)
  rw [length, ← size] at front
  rw [written, build_written short room summed headed, Option.map_some, front]

end TestPacket

end TestPackets

end ReputationFirewall.Scripts
