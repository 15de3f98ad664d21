import ReputationFirewall.Xdp.Headers

set_option autoImplicit false

namespace ReputationFirewall.Xdp

open BigEndian

structure ParsedPacket where
  ipVersion : UInt8
  srcIp : Octets 16
  dstIp : Octets 16
  protocol : UInt8
  srcPort : BitVec 16
  dstPort : BitVec 16
  packetLen : Nat
  l4Offset : Nat
  deriving DecidableEq

-- The sum of two usize values is checked, so an overflow counts as out of bounds.
def checkBounds (totalLen offset needed : Nat) : Bool :=
  if offset + needed < 2 ^ 64 then decide (offset + needed ≤ totalLen) else false

def stripVlanTags : Nat → Frame → BitVec 16 → Nat → Option (Nat × BitVec 16)
  | 0, _, etherType, offset => some (offset, etherType)
  | rounds + 1, data, etherType, offset =>
      if isVlan etherType then
        if !checkBounds data.length offset 4 then none
        else stripVlanTags rounds data
          (fromBeBytes #v[data.getD (offset + 2) 0, data.getD (offset + 3) 0]) (offset + 4)
      else some (offset, etherType)

def parseEthernet (data : Frame) : Option (EthernetHeader × Nat × BitVec 16) :=
  if !checkBounds data.length 0 ethHdrLen then none
  else
    let ethHdr := EthernetHeader.decode (readUnaligned 14 data 0)
    (stripVlanTags 2 data (fromBeBytes ethHdr.etherType) ethHdrLen).map fun (offset, etherType) =>
      (ethHdr, offset, etherType)

def parseIpv4 (data : Frame) (offset : Nat) : Option (Ipv4Header × Nat) :=
  if !checkBounds data.length offset ipv4MinHdrLen then none
  else
    let ipHdr := Ipv4Header.decode (readUnaligned 20 data offset)
    if ipHdr.vhl >>> 4 ≠ 4 then none
    else if ipHdr.ihl < ipv4MinHdrLen then none
    else if !checkBounds data.length offset ipHdr.ihl then none
    else some (ipHdr, offset + ipHdr.ihl)

-- The version is in the first four bits of the big-endian word `vtcFl`.
def Ipv6Header.version (header : Ipv6Header) : BitVec 8 :=
  BitVec.setWidth 8 (fromBeBytes header.vtcFl >>> 28)

def parseIpv6 (data : Frame) (offset : Nat) : Option (Ipv6Header × Nat) :=
  if !checkBounds data.length offset ipv6HdrLen then none
  else
    let ipHdr := Ipv6Header.decode (readUnaligned 40 data offset)
    if ipHdr.version ≠ 6 then none
    else some (ipHdr, offset + ipv6HdrLen)

def extractTransportPorts (data : Frame) (l4Offset : Nat) (protocol : UInt8) :
    BitVec 16 × BitVec 16 :=
  if protocol = protoTcp ∨ protocol = protoUdp then
    if checkBounds data.length l4Offset 4 then
      let ports := TransportPorts.decode (readUnaligned 4 data l4Offset)
      (fromBeBytes ports.srcPort, fromBeBytes ports.dstPort)
    else (0, 0)
  else (0, 0)

def classifyPacket (data : Frame) : Option ParsedPacket :=
  match parseEthernet data with
  | none => none
  | some (_, l3Offset, etherType) =>
      if etherType = ethPIp then
        match parseIpv4 data l3Offset with
        | none => none
        | some (ipHdr, l4Offset) =>
            let ports := extractTransportPorts data l4Offset ipHdr.protocol
            some { ipVersion := 4, srcIp := padded ipHdr.srcAddr, dstIp := padded ipHdr.dstAddr
                   protocol := ipHdr.protocol, srcPort := ports.1, dstPort := ports.2
                   packetLen := data.length, l4Offset }
      else if etherType = ethPIpv6 then
        match parseIpv6 data l3Offset with
        | none => none
        | some (ipHdr, l4Offset) =>
            let ports := extractTransportPorts data l4Offset ipHdr.nextHeader
            some { ipVersion := 6, srcIp := ipHdr.srcAddr, dstIp := ipHdr.dstAddr
                   protocol := ipHdr.nextHeader, srcPort := ports.1, dstPort := ports.2
                   packetLen := data.length, l4Offset }
      else none

def ipVersionAt (data : Frame) (offset : Nat) : UInt8 := data.getD offset 0 >>> 4

theorem checkBounds_eq {totalLen offset needed : Nat} (small : offset + needed < 2 ^ 64) :
    checkBounds totalLen offset needed = decide (offset + needed ≤ totalLen) := by
  rw [checkBounds, if_pos small]

theorem ihl_lt (header : Ipv4Header) : header.ihl < 64 := by
  have nibble : (header.vhl &&& 0x0F).toNat ≤ 15 := by
    rw [UInt8.toNat_and]
    exact Nat.and_le_right
  simp only [Ipv4Header.ihl]
  omega

theorem inner_etherType (data : Frame) (seen : Nat) :
    fromBeBytes (#v[data.getD (l3Offset seen + 2) 0, data.getD (l3Offset seen + 3) 0] : Octets 2) =
      etherTypeAt data (12 + 4 * (seen + 1)) := by
  have next : 12 + 4 * (seen + 1) = l3Offset seen + 2 := by
    simp only [l3Offset, ethHdrLen]
    omega
  rw [next]
  rfl

-- `seen` tags have been stripped; the invariant is that all of them were VLAN tags.
theorem stripVlanTags_sound (rounds seen : Nat) {data : Frame} {offset : Nat} {etherType : BitVec 16}
    (tagged : ∀ tag, tag < seen → isVlan (etherTypeAt data (12 + 4 * tag)) = true)
    (stripped : stripVlanTags rounds data (etherTypeAt data (12 + 4 * seen)) (l3Offset seen) =
      some (offset, etherType)) :
    ∃ tags, tags ≤ seen + rounds ∧ Announces data tags etherType ∧ offset = l3Offset tags := by
  induction rounds generalizing seen with
  | zero =>
      obtain ⟨rfl, rfl⟩ : l3Offset seen = offset ∧ etherTypeAt data (12 + 4 * seen) = etherType := by
        simpa [stripVlanTags] using stripped
      exact ⟨seen, le_rfl, ⟨tagged, rfl⟩, rfl⟩
  | succ rounds ih =>
      rw [stripVlanTags] at stripped
      split_ifs at stripped with tag out
      · have further (index : Nat) (below : index < seen + 1) :
            isVlan (etherTypeAt data (12 + 4 * index)) = true := by
          obtain earlier | rfl : index < seen ∨ index = seen := by omega
          · exact tagged index earlier
          · exact tag
        rw [inner_etherType] at stripped
        obtain ⟨tags, few, announced, same⟩ := ih (seen + 1) further stripped
        exact ⟨tags, by omega, announced, same⟩
      · obtain ⟨rfl, rfl⟩ : l3Offset seen = offset ∧ etherTypeAt data (12 + 4 * seen) = etherType := by
          simpa using stripped
        exact ⟨seen, by omega, ⟨tagged, rfl⟩, rfl⟩

theorem stripVlanTags_complete {rounds seen tags : Nat} {data : Frame} {etherType : BitVec 16}
    (announced : Announces data tags etherType) (untagged : isVlan etherType = false)
    (room : l3Offset tags ≤ data.length) (few : tags ≤ 2) (reached : seen ≤ tags)
    (left : tags ≤ seen + rounds) :
    stripVlanTags rounds data (etherTypeAt data (12 + 4 * seen)) (l3Offset seen) =
      some (l3Offset tags, etherType) := by
  induction rounds generalizing seen with
  | zero =>
      obtain rfl : seen = tags := by omega
      rw [stripVlanTags, announced.2]
  | succ rounds ih =>
      rw [stripVlanTags]
      by_cases last : seen = tags
      · subst last
        rw [announced.2, if_neg (by simp [untagged])]
      · have inside : l3Offset seen + 4 ≤ data.length := by
          simp only [l3Offset, ethHdrLen] at room ⊢
          omega
        have small : l3Offset seen + 4 < 2 ^ 64 := by
          simp only [l3Offset, ethHdrLen]
          omega
        rw [if_pos (announced.1 seen (by omega)), checkBounds_eq small, inner_etherType,
          decide_eq_true inside]
        have rest : stripVlanTags rounds data (etherTypeAt data (12 + 4 * (seen + 1)))
            (l3Offset (seen + 1)) = some (l3Offset tags, etherType) := ih (by omega) (by omega)
        exact rest

theorem parseEthernet_sound {data : Frame} {header : EthernetHeader} {offset : Nat}
    {etherType : BitVec 16} (parsed : parseEthernet data = some (header, offset, etherType)) :
    ∃ tags, tags ≤ 2 ∧ Announces data tags etherType ∧ offset = l3Offset tags := by
  rw [parseEthernet] at parsed
  split_ifs at parsed with short
  obtain ⟨⟨reached, type⟩, stripped, same⟩ := Option.map_eq_some_iff.mp parsed
  obtain ⟨-, rfl, rfl⟩ : EthernetHeader.decode (readUnaligned 14 data 0) = header ∧ reached = offset ∧
      type = etherType := by simpa using same
  have start : fromBeBytes (EthernetHeader.decode (readUnaligned 14 data 0)).etherType =
      etherTypeAt data (12 + 4 * 0) := by simp [EthernetHeader.decode, etherTypeAt]
  rw [start] at stripped
  obtain ⟨tags, few, announced, same⟩ := stripVlanTags_sound 2 0 (by simp) stripped
  exact ⟨tags, by omega, announced, same⟩

theorem parseEthernet_complete {data : Frame} {tags : Nat} {etherType : BitVec 16}
    (announced : Announces data tags etherType) (untagged : isVlan etherType = false)
    (room : l3Offset tags ≤ data.length) (few : tags ≤ 2) :
    parseEthernet data =
      some (EthernetHeader.decode (readUnaligned 14 data 0), l3Offset tags, etherType) := by
  have whole : 14 ≤ data.length := by
    simp only [l3Offset, ethHdrLen] at room
    omega
  have start : fromBeBytes (EthernetHeader.decode (readUnaligned 14 data 0)).etherType =
      etherTypeAt data (12 + 4 * 0) := by simp [EthernetHeader.decode, etherTypeAt]
  have stripped := stripVlanTags_complete announced untagged room few (Nat.zero_le _)
    (show tags ≤ 0 + 2 by omega)
  rw [parseEthernet, checkBounds_eq (by decide)]
  simp only [ethHdrLen, Nat.zero_add, whole, decide_true, Bool.not_true, Bool.false_eq_true, if_false, start]
  exact congrArg _ stripped

theorem vtcFl_version (data : Frame) (offset : Nat) :
    (ipv6HeaderAt data offset).version = 6#8 ↔ ipVersionAt data offset = 6 := by
  have first : ((ipv6HeaderAt data offset).version).toNat = (data.getD offset 0).toNat / 16 := by
    have bytes : (ipv6HeaderAt data offset).vtcFl = readUnaligned 4 data offset := by
      simp [ipv6HeaderAt, Ipv6Header.decode]
    have digits : value (readUnaligned 4 data offset).toList = (((data.getD offset 0).toNat * 256 +
        (data.getD (offset + 1) 0).toNat) * 256 + (data.getD (offset + 2) 0).toNat) * 256 +
          (data.getD (offset + 3) 0).toNat := by
      rw [value, readUnaligned, Vector.toList_ofFn]
      simp [List.ofFn_succ]
    have high := (data.getD offset 0).toNat_lt
    have second := (data.getD (offset + 1) 0).toNat_lt
    have third := (data.getD (offset + 2) 0).toNat_lt
    have fourth := (data.getD (offset + 3) 0).toNat_lt
    rw [Ipv6Header.version, bytes, BitVec.toNat_setWidth, BitVec.toNat_ushiftRight,
      fromBeBytes_toNat, digits, Nat.shiftRight_eq_div_pow]
    omega
  rw [← BitVec.toNat_inj, first, ipVersionAt, ← UInt8.toNat_inj, UInt8.toNat_shiftRight]
  simp [Nat.shiftRight_eq_div_pow]

theorem ipv4HeaderAt_vhl (data : Frame) (offset : Nat) :
    (ipv4HeaderAt data offset).vhl = data.getD offset 0 := by
  rw [ipv4HeaderAt, Ipv4Header.decode, readUnaligned_get]
  rfl

theorem parseIpv4_eq (data : Frame) {offset : Nat} (small : offset ≤ 22) :
    parseIpv4 data offset =
      if offset + 20 ≤ data.length ∧ 20 ≤ (ipv4HeaderAt data offset).ihl ∧
          offset + (ipv4HeaderAt data offset).ihl ≤ data.length ∧ ipVersionAt data offset = 4 then
        some (ipv4HeaderAt data offset, offset + (ipv4HeaderAt data offset).ihl)
      else none := by
  have version : (ipv4HeaderAt data offset).vhl >>> 4 = ipVersionAt data offset := by
    rw [ipVersionAt, ipv4HeaderAt_vhl]
  have bound := ihl_lt (ipv4HeaderAt data offset)
  have minimum : checkBounds data.length offset ipv4MinHdrLen = decide (offset + 20 ≤ data.length) :=
    checkBounds_eq (by simp only [ipv4MinHdrLen]; omega)
  have whole : checkBounds data.length offset (ipv4HeaderAt data offset).ihl =
      decide (offset + (ipv4HeaderAt data offset).ihl ≤ data.length) := checkBounds_eq (by omega)
  change (if !checkBounds data.length offset ipv4MinHdrLen then none
    else if (ipv4HeaderAt data offset).vhl >>> 4 ≠ 4 then none
    else if (ipv4HeaderAt data offset).ihl < ipv4MinHdrLen then none
    else if !checkBounds data.length offset (ipv4HeaderAt data offset).ihl then none
    else some (ipv4HeaderAt data offset, offset + (ipv4HeaderAt data offset).ihl)) = _
  rw [minimum, whole, version]
  by_cases room : offset + 20 ≤ data.length <;> by_cases four : ipVersionAt data offset = 4 <;>
    by_cases long : 20 ≤ (ipv4HeaderAt data offset).ihl <;>
    by_cases fits : offset + (ipv4HeaderAt data offset).ihl ≤ data.length <;>
    simp [room, four, long, fits, ipv4MinHdrLen, Nat.not_le.mp]

theorem parseIpv6_eq (data : Frame) {offset : Nat} (small : offset ≤ 22) :
    parseIpv6 data offset =
      if offset + 40 ≤ data.length ∧ ipVersionAt data offset = 6 then
        some (ipv6HeaderAt data offset, offset + 40)
      else none := by
  have whole : checkBounds data.length offset ipv6HdrLen = decide (offset + 40 ≤ data.length) :=
    checkBounds_eq (by simp only [ipv6HdrLen]; omega)
  change (if !checkBounds data.length offset ipv6HdrLen then none
    else if (ipv6HeaderAt data offset).version ≠ 6 then none
    else some (ipv6HeaderAt data offset, offset + ipv6HdrLen)) = _
  rw [whole]
  by_cases room : offset + 40 ≤ data.length <;> by_cases six : ipVersionAt data offset = 6 <;>
    simp [room, six, vtcFl_version, ipv6HdrLen]

theorem extractTransportPorts_eq (data : Frame) {offset : Nat} (small : offset < 2 ^ 63)
    (protocol : UInt8) : extractTransportPorts data offset protocol = portsAt data offset protocol := by
  have room : checkBounds data.length offset 4 = decide (offset + 4 ≤ data.length) :=
    checkBounds_eq (by omega)
  by_cases transport : protocol = protoTcp ∨ protocol = protoUdp <;>
    by_cases fits : offset + 4 ≤ data.length <;>
    simp [extractTransportPorts, portsAt, room, transport, fits, TransportPorts.decode]

def ipv4Packet (data : Frame) (offset : Nat) : ParsedPacket :=
  let header := ipv4HeaderAt data offset
  let ports := portsAt data (offset + header.ihl) header.protocol
  { ipVersion := 4, srcIp := padded header.srcAddr, dstIp := padded header.dstAddr
    protocol := header.protocol, srcPort := ports.1, dstPort := ports.2
    packetLen := data.length, l4Offset := offset + header.ihl }

def ipv6Packet (data : Frame) (offset : Nat) : ParsedPacket :=
  let header := ipv6HeaderAt data offset
  let ports := portsAt data (offset + 40) header.nextHeader
  { ipVersion := 6, srcIp := header.srcAddr, dstIp := header.dstAddr
    protocol := header.nextHeader, srcPort := ports.1, dstPort := ports.2
    packetLen := data.length, l4Offset := offset + 40 }

theorem l3Offset_le {tags : Nat} (few : tags ≤ 2) : l3Offset tags ≤ 22 := by
  simp only [l3Offset, ethHdrLen]
  omega

theorem classifyPacket_ipv4 {data : Frame} {tags : Nat} (few : tags ≤ 2)
    (carries : CarriesIpv4 data tags) (version : ipVersionAt data (l3Offset tags) = 4) :
    classifyPacket data = some (ipv4Packet data (l3Offset tags)) := by
  obtain ⟨announced, room, long, fits⟩ := carries
  have near := l3Offset_le few
  have bound := ihl_lt (ipv4HeaderAt data (l3Offset tags))
  rw [classifyPacket, parseEthernet_complete announced (by decide) (by omega) few]
  simp only [if_true, parseIpv4_eq data near, room, long, fits, version, and_self]
  rw [extractTransportPorts_eq data (by omega)]
  rfl

theorem classifyPacket_ipv6 {data : Frame} {tags : Nat} (few : tags ≤ 2)
    (carries : CarriesIpv6 data tags) (version : ipVersionAt data (l3Offset tags) = 6) :
    classifyPacket data = some (ipv6Packet data (l3Offset tags)) := by
  obtain ⟨announced, room⟩ := carries
  have near := l3Offset_le few
  have other : ethPIpv6 ≠ ethPIp := by decide
  rw [classifyPacket, parseEthernet_complete announced (by decide) (by omega) few]
  simp only [if_true, other, if_false, parseIpv6_eq data near, room, version, and_self]
  rw [extractTransportPorts_eq data (by omega)]
  rfl

theorem classifyPacket_cases {data : Frame} {packet : ParsedPacket}
    (accepted : classifyPacket data = some packet) :
    ∃ tags, tags ≤ 2 ∧
      (CarriesIpv4 data tags ∧ ipVersionAt data (l3Offset tags) = 4 ∨
        CarriesIpv6 data tags ∧ ipVersionAt data (l3Offset tags) = 6) := by
  rw [classifyPacket] at accepted
  cases parsed : parseEthernet data with
  | none => simp [parsed] at accepted
  | some result =>
      obtain ⟨header, offset, etherType⟩ := result
      obtain ⟨tags, few, announced, rfl⟩ := parseEthernet_sound parsed
      have near := l3Offset_le few
      simp only [parsed, parseIpv4_eq data near, parseIpv6_eq data near] at accepted
      refine ⟨tags, few, ?_⟩
      by_cases four : etherType = ethPIp
      · rw [if_pos four] at accepted
        split_ifs at accepted with fits
        exact Or.inl ⟨⟨four ▸ announced, fits.1, fits.2.1, fits.2.2.1⟩, fits.2.2.2⟩
      · rw [if_neg four] at accepted
        split_ifs at accepted with six fits
        exact Or.inr ⟨⟨six ▸ announced, fits.1⟩, fits.2⟩

end ReputationFirewall.Xdp
