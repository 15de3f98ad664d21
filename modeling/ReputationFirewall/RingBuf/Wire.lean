import ReputationFirewall.RingBuf.Consumer
import ReputationFirewall.Shared.LittleEndian

set_option autoImplicit false

namespace ReputationFirewall

open BigEndian LittleEndian NetAddr

namespace PacketLogEvent

def encode (event : PacketLogEvent) : Octets 64 :=
  (toLeBytes event.timestampNs : Octets 8) ++ event.srcIp ++ event.dstIp ++ (toLeBytes event.ruleId : Octets 4) ++
    (toLeBytes event.packetLen : Octets 4) ++ (toLeBytes event.ifindex : Octets 4) ++
    (toLeBytes event.srcPort : Octets 2) ++ (toLeBytes event.dstPort : Octets 2) ++
    ipv4Octets event.protocol event.ipVersion event.action event.matchType ++ event.pad

-- The offsets of `#[repr(C)]`.
def decode (bytes : Octets 64) : PacketLogEvent :=
  let octets : Octets 4 := slice bytes 56 4 (by decide)
  { timestampNs := fromLeBytes (slice bytes 0 8 (by decide))
    srcIp := slice bytes 8 16 (by decide)
    dstIp := slice bytes 24 16 (by decide)
    ruleId := fromLeBytes (slice bytes 40 4 (by decide))
    packetLen := fromLeBytes (slice bytes 44 4 (by decide))
    ifindex := fromLeBytes (slice bytes 48 4 (by decide))
    srcPort := fromLeBytes (slice bytes 52 2 (by decide))
    dstPort := fromLeBytes (slice bytes 54 2 (by decide))
    protocol := octets.get 0
    ipVersion := octets.get 1
    action := octets.get 2
    matchType := octets.get 3
    pad := slice bytes 60 4 (by decide) }

theorem decode_encode (event : PacketLogEvent) : decode (encode event) = event := by
  simp (disch := omega) only [decode, encode, slice_append_left, slice_last, slice_whole, fromLeBytes_toLeBytes]
  rfl

theorem ipv4Octets_get (octets : Octets 4) :
    ipv4Octets (octets.get 0) (octets.get 1) (octets.get 2) (octets.get 3) = octets := by
  apply Vector.ext
  intro i inside
  interval_cases i <;> rfl

theorem encode_decode (bytes : Octets 64) : encode (decode bytes) = bytes := by
  simp (disch := omega) only [decode, encode, toLeBytes_fromLeBytes, ipv4Octets_get, slice_join]
  exact slice_whole bytes (by decide)

-- An item of another size is malformed.
def ofItem (item : List UInt8) : Option PacketLogEvent :=
  if sized : item.length = 64 then some (decode ⟨item.toArray, by simpa using sized⟩) else none

def item (event : PacketLogEvent) : List UInt8 := event.encode.toList

theorem ofItem_item (event : PacketLogEvent) : ofItem event.item = some event := by
  have sized : event.item.length = 64 := Vector.length_toList
  have bytes : (⟨event.item.toArray, by simpa using sized⟩ : Octets 64) = event.encode := by
    apply Vector.toList_inj.mp
    simp [item, Vector.toList]
  rw [ofItem, dif_pos sized, bytes, decode_encode]

theorem ofItem_eq_none_iff (bytes : List UInt8) : ofItem bytes = none ↔ bytes.length ≠ 64 := by
  unfold ofItem
  split_ifs with sized <;> simp [sized]

theorem wire_format_exact (bytes : List UInt8) :
    (ofItem bytes = none ↔ bytes.length ≠ 64) ∧ ∀ event, ofItem bytes = some event ↔ bytes = event.item := by
  refine ⟨ofItem_eq_none_iff bytes, fun event => ?_⟩
  constructor
  · intro read
    unfold ofItem at read
    split_ifs at read with sized
    rw [← Option.some.inj read, item, encode_decode]
    simp [Vector.toList]
  · rintro rfl
    exact ofItem_item event

end PacketLogEvent

end ReputationFirewall
