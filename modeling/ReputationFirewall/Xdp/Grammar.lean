import ReputationFirewall.Xdp.ReferenceParser

set_option autoImplicit false

namespace ReputationFirewall.Xdp

open BigEndian

section Frames

structure VlanTag where
  tpid : Octets 2
  tci : Octets 2
  vlan : isVlan (fromBeBytes tpid) = true

def VlanTag.bytes (tag : VlanTag) : List UInt8 := tag.tpid.toList ++ tag.tci.toList

inductive IpHeader where
  | ipv4 (fixed : Octets 20) (options : List UInt8) (version : (Ipv4Header.decode fixed).vhl >>> 4 = 4)
      (whole : 20 + options.length = (Ipv4Header.decode fixed).ihl)
  | ipv6 (fixed : Octets 40) (version : (Ipv6Header.decode fixed).vtcFl.get 0 >>> 4 = 6)

namespace IpHeader

def etherType : IpHeader → BitVec 16
  | .ipv4 .. => ethPIp
  | .ipv6 .. => ethPIpv6

def bytes : IpHeader → List UInt8
  | .ipv4 fixed options _ _ => fixed.toList ++ options
  | .ipv6 fixed _ => fixed.toList

def ipVersion : IpHeader → UInt8
  | .ipv4 .. => 4
  | .ipv6 .. => 6

def srcIp : IpHeader → Octets 16
  | .ipv4 fixed _ _ _ => padded (Ipv4Header.decode fixed).srcAddr
  | .ipv6 fixed _ => (Ipv6Header.decode fixed).srcAddr

def dstIp : IpHeader → Octets 16
  | .ipv4 fixed _ _ _ => padded (Ipv4Header.decode fixed).dstAddr
  | .ipv6 fixed _ => (Ipv6Header.decode fixed).dstAddr

def protocol : IpHeader → UInt8
  | .ipv4 fixed _ _ _ => (Ipv4Header.decode fixed).protocol
  | .ipv6 fixed _ => (Ipv6Header.decode fixed).nextHeader

end IpHeader

-- Seen from the parser, each tag's protocol ends the header before it: 14 bytes, then 4 for each tag.
structure IpFrame where
  macs : Octets 12
  tags : List VlanTag
  few : tags.length ≤ 2
  header : IpHeader
  payload : List UInt8

namespace IpFrame

variable (frame : IpFrame)

def tagBytes (tags : List VlanTag) : List UInt8 := tags.flatMap VlanTag.bytes

def etherBytes (header : IpHeader) : Octets 2 := toBeBytes header.etherType

def bytes : Frame :=
  frame.macs.toList ++ (tagBytes frame.tags ++ ((etherBytes frame.header).toList ++ (frame.header.bytes ++ frame.payload)))

def ports : BitVec 16 × BitVec 16 :=
  if (frame.header.protocol = protoTcp ∨ frame.header.protocol = protoUdp) ∧ 4 ≤ frame.payload.length then
    (fromBeBytes (readUnaligned 2 frame.payload 0), fromBeBytes (readUnaligned 2 frame.payload 2))
  else (0, 0)

def l4Offset : Nat := 14 + 4 * frame.tags.length + frame.header.bytes.length

def packet : ParsedPacket where
  ipVersion := frame.header.ipVersion
  srcIp := frame.header.srcIp
  dstIp := frame.header.dstIp
  protocol := frame.header.protocol
  srcPort := frame.ports.1
  dstPort := frame.ports.2
  packetLen := frame.bytes.length
  l4Offset := frame.l4Offset

end IpFrame

end Frames

section Written

theorem length_tagBytes (tags : List VlanTag) : (IpFrame.tagBytes tags).length = 4 * tags.length := by
  induction tags with
  | nil => rfl
  | cons tag rest ih =>
      have own : tag.bytes.length = 4 := by simp [VlanTag.bytes]
      rw [IpFrame.tagBytes, List.flatMap_cons, List.length_append, own, ← IpFrame.tagBytes, ih, List.length_cons]
      omega

theorem readUnaligned_tag (tags : List VlanTag) (rest : Frame) (index : Nat) (inside : index < tags.length) :
    readUnaligned 2 (IpFrame.tagBytes tags ++ rest) (4 * index) = tags[index].tpid := by
  induction tags generalizing index with
  | nil => exact absurd inside (Nat.not_lt_zero _)
  | cons tag others ih =>
      rw [IpFrame.tagBytes, List.flatMap_cons, List.append_assoc, ← IpFrame.tagBytes]
      cases index with
      | zero =>
          rw [VlanTag.bytes, List.append_assoc]
          exact readUnaligned_toList _ _
      | succ index =>
          have own : tag.bytes.length = 4 := by simp [VlanTag.bytes]
          have next : 4 * (index + 1) = tag.bytes.length + 4 * index := by omega
          rw [next, readUnaligned_append]
          exact ih index (by simpa using inside)

variable (frame : IpFrame)

theorem IpFrame.read_tag (index : Nat) (inside : index < frame.tags.length) :
    readUnaligned 2 frame.bytes (12 + 4 * index) = frame.tags[index].tpid := by
  have before : 12 + 4 * index = frame.macs.toList.length + 4 * index := by simp
  rw [IpFrame.bytes, before, readUnaligned_append]
  exact readUnaligned_tag frame.tags _ index inside

theorem IpFrame.read_etherType :
    readUnaligned 2 frame.bytes (12 + 4 * frame.tags.length) = etherBytes frame.header := by
  have before : 12 + 4 * frame.tags.length = (frame.macs.toList ++ tagBytes frame.tags).length + 0 := by
    simp [length_tagBytes]
  rw [IpFrame.bytes, before, ← List.append_assoc, readUnaligned_append]
  exact readUnaligned_toList _ _

theorem IpFrame.read_behind (size offset : Nat) :
    readUnaligned size frame.bytes (l3Offset frame.tags.length + offset) =
      readUnaligned size (frame.header.bytes ++ frame.payload) offset := by
  have before : l3Offset frame.tags.length =
      (frame.macs.toList ++ (tagBytes frame.tags ++ (etherBytes frame.header).toList)).length := by
    simp only [l3Offset, ethHdrLen, List.length_append, Vector.length_toList, length_tagBytes]
    omega
  have whole : frame.bytes = frame.macs.toList ++ (tagBytes frame.tags ++ (etherBytes frame.header).toList) ++
      (frame.header.bytes ++ frame.payload) := by
    simp only [IpFrame.bytes, List.append_assoc]
  rw [whole, before, readUnaligned_append]

theorem IpFrame.announces : Announces frame.bytes frame.tags.length frame.header.etherType := by
  constructor
  · intro tag below
    rw [etherTypeAt, frame.read_tag tag below]
    exact frame.tags[tag].vlan
  · rw [etherTypeAt, frame.read_etherType]
    exact @fromBeBytes_toBeBytes 2 frame.header.etherType

theorem IpFrame.length_bytes :
    frame.bytes.length = l3Offset frame.tags.length + frame.header.bytes.length + frame.payload.length := by
  simp only [IpFrame.bytes, List.length_append, Vector.length_toList, length_tagBytes, l3Offset, ethHdrLen]
  omega

theorem IpFrame.portsAt_eq :
    portsAt frame.bytes (l3Offset frame.tags.length + frame.header.bytes.length) frame.header.protocol = frame.ports := by
  have behind (offset : Nat) : readUnaligned 2 frame.bytes
      (l3Offset frame.tags.length + frame.header.bytes.length + offset) = readUnaligned 2 frame.payload offset := by
    rw [Nat.add_assoc, frame.read_behind, readUnaligned_append]
  have room : l3Offset frame.tags.length + frame.header.bytes.length + 4 ≤ frame.bytes.length ↔
      4 ≤ frame.payload.length := by
    rw [frame.length_bytes]
    omega
  have first := behind 0
  rw [Nat.add_zero] at first
  simp only [portsAt, IpFrame.ports, room, first, behind]

variable {frame}

theorem ipVersionAt_ipv4 (data : Frame) (offset : Nat) :
    ipVersionAt data offset = (ipv4HeaderAt data offset).vhl >>> 4 := by
  rw [ipv4HeaderAt, Ipv4Header.decode, readUnaligned_get]
  rfl

theorem ipVersionAt_ipv6 (data : Frame) (offset : Nat) :
    ipVersionAt data offset = (ipv6HeaderAt data offset).vtcFl.get 0 >>> 4 := by
  rw [ipv6HeaderAt, Ipv6Header.decode, slice_readUnaligned, readUnaligned_get]
  rfl

theorem IpFrame.classified_ipv4 {fixed : Octets 20} {options : List UInt8}
    {version : (Ipv4Header.decode fixed).vhl >>> 4 = 4}
    {whole : 20 + options.length = (Ipv4Header.decode fixed).ihl}
    (carried : frame.header = .ipv4 fixed options version whole) : classifyPacket frame.bytes = some frame.packet := by
  have read : readUnaligned 20 frame.bytes (l3Offset frame.tags.length) = fixed := by
    refine (frame.read_behind 20 0).trans ?_
    rw [carried, IpHeader.bytes, List.append_assoc]
    exact readUnaligned_toList _ _
  have header : ipv4HeaderAt frame.bytes (l3Offset frame.tags.length) = Ipv4Header.decode fixed :=
    congrArg Ipv4Header.decode read
  have size : frame.header.bytes.length = (Ipv4Header.decode fixed).ihl := by
    rw [carried, IpHeader.bytes, List.length_append, Vector.length_toList, whole]
  have announced := frame.announces
  have length := frame.length_bytes
  have ports := frame.portsAt_eq
  rw [size] at length ports
  rw [carried] at announced
  have carries : CarriesIpv4 frame.bytes frame.tags.length := by
    refine ⟨announced, ?_, ?_, ?_⟩
    · omega
    · rw [header]
      omega
    · rw [header]
      omega
  have versionAt : ipVersionAt frame.bytes (l3Offset frame.tags.length) = 4 := by
    rw [ipVersionAt_ipv4, header, version]
  rw [classifyPacket_ipv4 frame.few carries versionAt, ipv4Packet, IpFrame.packet, IpFrame.l4Offset, header, size,
    ← ports, carried]
  rfl

theorem IpFrame.classified_ipv6 {fixed : Octets 40} {version : (Ipv6Header.decode fixed).vtcFl.get 0 >>> 4 = 6}
    (carried : frame.header = .ipv6 fixed version) : classifyPacket frame.bytes = some frame.packet := by
  have read : readUnaligned 40 frame.bytes (l3Offset frame.tags.length) = fixed := by
    refine (frame.read_behind 40 0).trans ?_
    rw [carried, IpHeader.bytes]
    exact readUnaligned_toList _ _
  have header : ipv6HeaderAt frame.bytes (l3Offset frame.tags.length) = Ipv6Header.decode fixed :=
    congrArg Ipv6Header.decode read
  have size : frame.header.bytes.length = 40 := by
    rw [carried, IpHeader.bytes, Vector.length_toList]
  have announced := frame.announces
  have length := frame.length_bytes
  have ports := frame.portsAt_eq
  rw [size] at length ports
  rw [carried] at announced
  have carries : CarriesIpv6 frame.bytes frame.tags.length := ⟨announced, by omega⟩
  have versionAt : ipVersionAt frame.bytes (l3Offset frame.tags.length) = 6 := by
    rw [ipVersionAt_ipv6, header, version]
  rw [classifyPacket_ipv6 frame.few carries versionAt, ipv6Packet, IpFrame.packet, IpFrame.l4Offset, header, size,
    ← ports, carried]
  rfl

theorem IpFrame.classified (frame : IpFrame) : classifyPacket frame.bytes = some frame.packet := by
  cases carried : frame.header with
  | ipv4 => exact frame.classified_ipv4 carried
  | ipv6 => exact frame.classified_ipv6 carried

end Written

section Read

variable {data : Frame} {tags : Nat}

def tagsOf (data : Frame) (tags : Nat)
    (vlan : ∀ tag, tag < tags → isVlan (etherTypeAt data (12 + 4 * tag)) = true) : List VlanTag :=
  List.ofFn fun tag : Fin tags =>
    ⟨readUnaligned 2 data (12 + 4 * tag.val), readUnaligned 2 data (14 + 4 * tag.val), vlan tag.val tag.isLt⟩

theorem tagBytes_tagsOf (vlan : ∀ tag, tag < tags → isVlan (etherTypeAt data (12 + 4 * tag)) = true)
    (room : 12 + 4 * tags ≤ data.length) :
    IpFrame.tagBytes (tagsOf data tags vlan) ++ data.drop (12 + 4 * tags) = data.drop 12 := by
  induction tags with
  | zero => rfl
  | succ tags ih =>
      have split : tagsOf data (tags + 1) vlan =
          tagsOf data tags (fun tag below => vlan tag (by omega)) ++
            [⟨readUnaligned 2 data (12 + 4 * tags), readUnaligned 2 data (14 + 4 * tags), vlan tags (by omega)⟩] :=
        List.ofFn_succ_last
      have tci := @toList_readUnaligned 2 data (14 + 4 * tags) (by omega)
      have tpid := @toList_readUnaligned 2 data (12 + 4 * tags) (by omega)
      rw [show 12 + 4 * tags + 2 = 14 + 4 * tags by omega, ← tci] at tpid
      rw [split, IpFrame.tagBytes, List.flatMap_append, List.flatMap_singleton, List.append_assoc, VlanTag.bytes,
        List.append_assoc, show 12 + 4 * (tags + 1) = 14 + 4 * tags + 2 by omega]
      exact (congrArg _ tpid).trans (ih _ (by omega))

theorem length_tagsOf (vlan : ∀ tag, tag < tags → isVlan (etherTypeAt data (12 + 4 * tag)) = true) :
    (tagsOf data tags vlan).length = tags := List.length_ofFn

theorem frame_split {header : IpHeader} (announced : Announces data tags header.etherType)
    (room : l3Offset tags ≤ data.length) :
    (readUnaligned 12 data 0).toList ++ (IpFrame.tagBytes (tagsOf data tags announced.1) ++
      ((IpFrame.etherBytes header).toList ++ data.drop (l3Offset tags))) = data := by
  simp only [l3Offset, ethHdrLen] at room
  have own : IpFrame.etherBytes header = readUnaligned 2 data (12 + 4 * tags) := by
    rw [IpFrame.etherBytes, ← announced.2]
    exact @toBeBytes_fromBeBytes 2 _
  have number := @toList_readUnaligned 2 data (12 + 4 * tags) (by omega)
  have macs := @toList_readUnaligned 12 data 0 (by omega)
  have next : l3Offset tags = 12 + 4 * tags + 2 := by
    simp only [l3Offset, ethHdrLen]
    omega
  rw [own, next, number, tagBytes_tagsOf announced.1 (by omega)]
  exact macs

theorem exists_ipv4Frame (few : tags ≤ 2) (carries : CarriesIpv4 data tags)
    (version : ipVersionAt data (l3Offset tags) = 4) : ∃ frame : IpFrame, frame.bytes = data := by
  obtain ⟨announced, room, long, fits⟩ := carries
  rw [ipVersionAt_ipv4, ipv4HeaderAt] at version
  have options : (data.drop (l3Offset tags + 20)).length = data.length - (l3Offset tags + 20) := List.length_drop
  refine ⟨⟨readUnaligned 12 data 0, tagsOf data tags announced.1, ?_,
    .ipv4 (readUnaligned 20 data (l3Offset tags))
      ((data.drop (l3Offset tags + 20)).take ((ipv4HeaderAt data (l3Offset tags)).ihl - 20)) version ?_,
    data.drop (l3Offset tags + (ipv4HeaderAt data (l3Offset tags)).ihl)⟩, ?_⟩
  · rwa [length_tagsOf]
  · rw [List.length_take, options, ← ipv4HeaderAt]
    omega
  · have behind : data.drop (l3Offset tags + (ipv4HeaderAt data (l3Offset tags)).ihl) =
        (data.drop (l3Offset tags + 20)).drop ((ipv4HeaderAt data (l3Offset tags)).ihl - 20) := by
      rw [List.drop_drop]
      congr 1
      omega
    rw [IpFrame.bytes, IpHeader.bytes, List.append_assoc, behind, List.take_append_drop, toList_readUnaligned room]
    exact frame_split announced (by omega)

theorem exists_ipv6Frame (few : tags ≤ 2) (carries : CarriesIpv6 data tags)
    (version : ipVersionAt data (l3Offset tags) = 6) : ∃ frame : IpFrame, frame.bytes = data := by
  obtain ⟨announced, room⟩ := carries
  rw [ipVersionAt_ipv6, ipv6HeaderAt] at version
  refine ⟨⟨readUnaligned 12 data 0, tagsOf data tags announced.1, ?_,
    .ipv6 (readUnaligned 40 data (l3Offset tags)) version, data.drop (l3Offset tags + 40)⟩, ?_⟩
  · rwa [length_tagsOf]
  · rw [IpFrame.bytes, IpHeader.bytes, toList_readUnaligned room]
    exact frame_split announced (by omega)

theorem exists_frame {packet : ParsedPacket} (accepted : classifyPacket data = some packet) :
    ∃ frame : IpFrame, frame.bytes = data := by
  obtain ⟨tags, few, ⟨carries, version⟩ | ⟨carries, version⟩⟩ := classifyPacket_cases accepted
  · exact exists_ipv4Frame few carries version
  · exact exists_ipv6Frame few carries version

end Read

section Guarded

inductive Rejection where
  | malformed
  | outside
  deriving DecidableEq

namespace Guarded

def readUnaligned (size : Nat) (data : Frame) (offset : Nat) : Except Rejection (Octets size) :=
  if offset + size ≤ data.length then .ok (Xdp.readUnaligned size data offset) else .error .outside

def stripVlanTags : Nat → Frame → BitVec 16 → Nat → Except Rejection (Nat × BitVec 16)
  | 0, _, etherType, offset => .ok (offset, etherType)
  | rounds + 1, data, etherType, offset => do
      if isVlan etherType then
        if !checkBounds data.length offset 4 then
          throw .malformed
        let vlanBytes ← readUnaligned 2 data (offset + 2)
        stripVlanTags rounds data (fromBeBytes vlanBytes) (offset + 4)
      else return (offset, etherType)

def parseEthernet (data : Frame) : Except Rejection (EthernetHeader × Nat × BitVec 16) := do
  if !checkBounds data.length 0 ethHdrLen then
    throw .malformed
  let ethHdr := EthernetHeader.decode (← readUnaligned 14 data 0)
  let (offset, etherType) ← stripVlanTags 2 data (fromBeBytes ethHdr.etherType) ethHdrLen
  return (ethHdr, offset, etherType)

def parseIpv4 (data : Frame) (offset : Nat) : Except Rejection (Ipv4Header × Nat) := do
  if !checkBounds data.length offset ipv4MinHdrLen then
    throw .malformed
  let ipHdr := Ipv4Header.decode (← readUnaligned 20 data offset)
  if ipHdr.vhl >>> 4 ≠ 4 then
    throw .malformed
  if ipHdr.ihl < ipv4MinHdrLen then
    throw .malformed
  if !checkBounds data.length offset ipHdr.ihl then
    throw .malformed
  return (ipHdr, offset + ipHdr.ihl)

def parseIpv6 (data : Frame) (offset : Nat) : Except Rejection (Ipv6Header × Nat) := do
  if !checkBounds data.length offset ipv6HdrLen then
    throw .malformed
  let ipHdr := Ipv6Header.decode (← readUnaligned 40 data offset)
  if ipHdr.version ≠ 6 then
    throw .malformed
  return (ipHdr, offset + ipv6HdrLen)

def extractTransportPorts (data : Frame) (l4Offset : Nat) (protocol : UInt8) :
    Except Rejection (BitVec 16 × BitVec 16) := do
  if protocol = protoTcp ∨ protocol = protoUdp then
    if checkBounds data.length l4Offset 4 then
      let ports := TransportPorts.decode (← readUnaligned 4 data l4Offset)
      return (fromBeBytes ports.srcPort, fromBeBytes ports.dstPort)
  return (0, 0)

def classifyPacket (data : Frame) : Except Rejection ParsedPacket := do
  let (_, l3Offset, etherType) ← parseEthernet data
  if etherType = ethPIp then
    let (ipHdr, l4Offset) ← parseIpv4 data l3Offset
    let (srcPort, dstPort) ← extractTransportPorts data l4Offset ipHdr.protocol
    return { ipVersion := 4, srcIp := padded ipHdr.srcAddr, dstIp := padded ipHdr.dstAddr
             protocol := ipHdr.protocol, srcPort, dstPort, packetLen := data.length, l4Offset }
  else if etherType = ethPIpv6 then
    let (ipHdr, l4Offset) ← parseIpv6 data l3Offset
    let (srcPort, dstPort) ← extractTransportPorts data l4Offset ipHdr.nextHeader
    return { ipVersion := 6, srcIp := ipHdr.srcAddr, dstIp := ipHdr.dstAddr
             protocol := ipHdr.nextHeader, srcPort, dstPort, packetLen := data.length, l4Offset }
  else throw .malformed

def orMalformed {α : Type} (result : Option α) : Except Rejection α := result.elim (.error .malformed) .ok

theorem checkBounds_inside {totalLen offset needed : Nat} (checked : checkBounds totalLen offset needed = true) :
    offset + needed ≤ totalLen := by
  rw [checkBounds] at checked
  split_ifs at checked with small
  exact of_decide_eq_true checked

theorem readUnaligned_inside {size : Nat} {data : Frame} {offset : Nat} (inside : offset + size ≤ data.length) :
    readUnaligned size data offset = .ok (Xdp.readUnaligned size data offset) :=
  if_pos inside

theorem stripVlanTags_eq (rounds : Nat) (data : Frame) (etherType : BitVec 16) (offset : Nat) :
    stripVlanTags rounds data etherType offset = orMalformed (Xdp.stripVlanTags rounds data etherType offset) := by
  induction rounds generalizing etherType offset with
  | zero => rfl
  | succ rounds ih =>
      rw [stripVlanTags, Xdp.stripVlanTags]
      cases isVlan etherType with
      | false => rfl
      | true =>
          cases checked : checkBounds data.length offset 4 with
          | false => rfl
          | true =>
              have inside := checkBounds_inside checked
              rw [@readUnaligned_inside 2 data (offset + 2) (by omega)]
              exact ih _ _

theorem parseEthernet_eq (data : Frame) : parseEthernet data = orMalformed (Xdp.parseEthernet data) := by
  rw [parseEthernet, Xdp.parseEthernet]
  cases checked : checkBounds data.length 0 ethHdrLen with
  | false => rfl
  | true =>
      rw [@readUnaligned_inside 14 data 0 (checkBounds_inside checked)]
      simp only [Bool.not_true, Bool.false_eq_true, if_false, bind, Except.bind, pure, Except.pure, stripVlanTags_eq]
      cases Xdp.stripVlanTags 2 data (fromBeBytes (EthernetHeader.decode (Xdp.readUnaligned 14 data 0)).etherType)
        ethHdrLen <;> rfl

theorem parseIpv4_eq (data : Frame) (offset : Nat) :
    parseIpv4 data offset = orMalformed (Xdp.parseIpv4 data offset) := by
  rw [parseIpv4, Xdp.parseIpv4]
  cases checked : checkBounds data.length offset ipv4MinHdrLen with
  | false => rfl
  | true =>
      rw [@readUnaligned_inside 20 data offset (checkBounds_inside checked)]
      simp only [Bool.not_true, Bool.false_eq_true, if_false, bind, Except.bind, pure, Except.pure]
      split_ifs <;> rfl

theorem parseIpv6_eq (data : Frame) (offset : Nat) :
    parseIpv6 data offset = orMalformed (Xdp.parseIpv6 data offset) := by
  rw [parseIpv6, Xdp.parseIpv6]
  cases checked : checkBounds data.length offset ipv6HdrLen with
  | false => rfl
  | true =>
      rw [@readUnaligned_inside 40 data offset (checkBounds_inside checked)]
      simp only [Bool.not_true, Bool.false_eq_true, if_false, bind, Except.bind, pure, Except.pure]
      split_ifs <;> rfl

theorem extractTransportPorts_eq (data : Frame) (l4Offset : Nat) (protocol : UInt8) :
    extractTransportPorts data l4Offset protocol = .ok (Xdp.extractTransportPorts data l4Offset protocol) := by
  rw [extractTransportPorts, Xdp.extractTransportPorts]
  split_ifs with transport checked
  · rw [@readUnaligned_inside 4 data l4Offset (checkBounds_inside checked)]
    rfl
  · rfl
  · rfl

theorem classifyPacket_eq (data : Frame) : classifyPacket data = orMalformed (Xdp.classifyPacket data) := by
  rw [classifyPacket, Xdp.classifyPacket, parseEthernet_eq]
  cases Xdp.parseEthernet data with
  | none => rfl
  | some result =>
      obtain ⟨header, l3Offset, etherType⟩ := result
      simp only [orMalformed, Option.elim, bind, Except.bind, pure, Except.pure, parseIpv4_eq, parseIpv6_eq,
        extractTransportPorts_eq]
      split_ifs with four six
      · cases Xdp.parseIpv4 data l3Offset <;> rfl
      · cases Xdp.parseIpv6 data l3Offset <;> rfl
      · rfl

end Guarded

end Guarded

section Results

theorem reference_packet_grammar (data : Frame) :
    (∀ packet, classifyPacket data = some packet ↔ ∃ frame : IpFrame, frame.bytes = data ∧ frame.packet = packet) ∧
      (∀ packet, Guarded.classifyPacket data = .ok packet ↔ classifyPacket data = some packet) ∧
      Guarded.classifyPacket data ≠ .error .outside := by
  refine ⟨fun packet => ⟨fun accepted => ?_, ?_⟩, fun packet => ?_, ?_⟩
  · obtain ⟨frame, rfl⟩ := exists_frame accepted
    exact ⟨frame, rfl, Option.some.inj (frame.classified.symm.trans accepted)⟩
  · rintro ⟨frame, rfl, rfl⟩
    exact frame.classified
  · rw [Guarded.classifyPacket_eq]
    cases classifyPacket data <;> simp [Guarded.orMalformed]
  · rw [Guarded.classifyPacket_eq]
    cases classifyPacket data <;> simp [Guarded.orMalformed]

end Results

end ReputationFirewall.Xdp
