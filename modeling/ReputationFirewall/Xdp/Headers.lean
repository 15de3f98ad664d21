import ReputationFirewall.Common

set_option autoImplicit false

namespace ReputationFirewall.Xdp

open BigEndian

abbrev Frame := List UInt8

def ethPIp : BitVec 16 := 0x0800
def ethPIpv6 : BitVec 16 := 0x86DD
def ethP8021q : BitVec 16 := 0x8100
def ethP8021ad : BitVec 16 := 0x88A8

def ethHdrLen : Nat := 14
def ipv4MinHdrLen : Nat := 20
def ipv6HdrLen : Nat := 40

-- Bytes behind the frame read as zero here; every caller checks its bounds first.
def readUnaligned (size : Nat) (data : Frame) (offset : Nat) : Octets size :=
  Vector.ofFn fun i => data.getD (offset + i.val) 0

@[simp] theorem readUnaligned_get (size : Nat) (data : Frame) (offset : Nat) (i : Fin size) :
    (readUnaligned size data offset).get i = data.getD (offset + i.val) 0 :=
  Vector.getElem_ofFn i.isLt

@[simp] theorem slice_readUnaligned (n : Nat) (data : Frame) (offset start size : Nat)
    (fits : start + size ≤ n) :
    slice (readUnaligned n data offset) start size fits =
      readUnaligned size data (offset + start) := by
  simp only [slice, readUnaligned_get]
  simp only [readUnaligned, Nat.add_assoc]

theorem readUnaligned_append (size : Nat) (left right : Frame) (offset : Nat) :
    readUnaligned size (left ++ right) (left.length + offset) = readUnaligned size right offset := by
  apply Vector.ext
  intro i small
  simp only [readUnaligned, Vector.getElem_ofFn, List.getD_eq_getElem?_getD]
  rw [List.getElem?_append_right (by omega), show left.length + offset + i - left.length = offset + i by omega]

theorem readUnaligned_toList {size : Nat} (bytes : Octets size) (rest : Frame) :
    readUnaligned size (bytes.toList ++ rest) 0 = bytes := by
  apply Vector.ext
  intro i small
  simp only [readUnaligned, Vector.getElem_ofFn, List.getD_eq_getElem?_getD, Nat.zero_add]
  rw [List.getElem?_append_left (by simpa using small)]
  simp [small]

theorem toList_readUnaligned {size : Nat} {data : Frame} {offset : Nat} (inside : offset + size ≤ data.length) :
    (readUnaligned size data offset).toList ++ data.drop (offset + size) = data.drop offset := by
  have bytes : (readUnaligned size data offset).toList = (data.drop offset).take size := by
    apply List.ext_getElem
    · simp only [Vector.length_toList, List.length_take, List.length_drop]
      omega
    · intro i small _
      rw [Vector.length_toList] at small
      have within : offset + i < data.length := by omega
      simp [readUnaligned, List.getD_eq_getElem?_getD, within]
  rw [bytes, ← List.drop_drop, List.take_append_drop]

structure EthernetHeader where
  dstMac : Octets 6
  srcMac : Octets 6
  etherType : Octets 2
  deriving DecidableEq

def EthernetHeader.decode (bytes : Octets 14) : EthernetHeader :=
  { dstMac := slice bytes 0 6 (by decide)
    srcMac := slice bytes 6 6 (by decide)
    etherType := slice bytes 12 2 (by decide) }

structure Ipv4Header where
  vhl : UInt8
  tos : UInt8
  totLen : Octets 2
  id : Octets 2
  fragOff : Octets 2
  ttl : UInt8
  protocol : UInt8
  check : Octets 2
  srcAddr : Octets 4
  dstAddr : Octets 4
  deriving DecidableEq

def Ipv4Header.decode (bytes : Octets 20) : Ipv4Header :=
  { vhl := bytes.get 0
    tos := bytes.get 1
    totLen := slice bytes 2 2 (by decide)
    id := slice bytes 4 2 (by decide)
    fragOff := slice bytes 6 2 (by decide)
    ttl := bytes.get 8
    protocol := bytes.get 9
    check := slice bytes 10 2 (by decide)
    srcAddr := slice bytes 12 4 (by decide)
    dstAddr := slice bytes 16 4 (by decide) }

structure Ipv6Header where
  vtcFl : Octets 4
  payloadLen : Octets 2
  nextHeader : UInt8
  hopLimit : UInt8
  srcAddr : Octets 16
  dstAddr : Octets 16
  deriving DecidableEq

def Ipv6Header.decode (bytes : Octets 40) : Ipv6Header :=
  { vtcFl := slice bytes 0 4 (by decide)
    payloadLen := slice bytes 4 2 (by decide)
    nextHeader := bytes.get 6
    hopLimit := bytes.get 7
    srcAddr := slice bytes 8 16 (by decide)
    dstAddr := slice bytes 24 16 (by decide) }

structure TransportPorts where
  srcPort : Octets 2
  dstPort : Octets 2
  deriving DecidableEq

def TransportPorts.decode (bytes : Octets 4) : TransportPorts :=
  { srcPort := slice bytes 0 2 (by decide), dstPort := slice bytes 2 2 (by decide) }

-- The header length field counts 32-bit words.
def Ipv4Header.ihl (header : Ipv4Header) : Nat := (header.vhl &&& 0x0F).toNat * 4

def isVlan (etherType : BitVec 16) : Bool := etherType == ethP8021q || etherType == ethP8021ad

def etherTypeAt (data : Frame) (offset : Nat) : BitVec 16 := fromBeBytes (readUnaligned 2 data offset)

def ipv4HeaderAt (data : Frame) (offset : Nat) : Ipv4Header :=
  Ipv4Header.decode (readUnaligned 20 data offset)

def ipv6HeaderAt (data : Frame) (offset : Nat) : Ipv6Header :=
  Ipv6Header.decode (readUnaligned 40 data offset)

def l3Offset (tags : Nat) : Nat := ethHdrLen + 4 * tags

def Announces (frame : Frame) (tags : Nat) (etherType : BitVec 16) : Prop :=
  (∀ tag, tag < tags → isVlan (etherTypeAt frame (12 + 4 * tag)) = true) ∧
    etherTypeAt frame (12 + 4 * tags) = etherType

def CarriesIpv4 (frame : Frame) (tags : Nat) : Prop :=
  Announces frame tags ethPIp ∧ l3Offset tags + 20 ≤ frame.length ∧
    20 ≤ (ipv4HeaderAt frame (l3Offset tags)).ihl ∧
      l3Offset tags + (ipv4HeaderAt frame (l3Offset tags)).ihl ≤ frame.length

def CarriesIpv6 (frame : Frame) (tags : Nat) : Prop :=
  Announces frame tags ethPIpv6 ∧ l3Offset tags + 40 ≤ frame.length

theorem Announces.unique {frame : Frame} {tags others : Nat} {etherType other : BitVec 16}
    (first : Announces frame tags etherType) (second : Announces frame others other)
    (untagged : isVlan etherType = false) (untaggedOther : isVlan other = false) :
    tags = others ∧ etherType = other := by
  have order (few many : Nat) (inner outer : BitVec 16) (left : Announces frame few inner)
      (right : Announces frame many outer) (plain : isVlan inner = false) : many ≤ few := by
    by_contra more
    have tag := right.1 few (by omega)
    rw [left.2, plain] at tag
    exact absurd tag (by decide)
  have same : tags = others :=
    Nat.le_antisymm (order _ _ _ _ second first untaggedOther) (order _ _ _ _ first second untagged)
  subst same
  exact ⟨rfl, first.2.symm.trans second.2⟩

def portsAt (data : Frame) (offset : Nat) (protocol : UInt8) : BitVec 16 × BitVec 16 :=
  if (protocol = protoTcp ∨ protocol = protoUdp) ∧ offset + 4 ≤ data.length then
    (fromBeBytes (readUnaligned 2 data offset), fromBeBytes (readUnaligned 2 data (offset + 2)))
  else (0, 0)

def padded (addr : Octets 4) : Octets 16 := addr ++ (Vector.replicate 12 0 : Octets 12)

end ReputationFirewall.Xdp
