import ReputationFirewall.Shared.Buffers
import ReputationFirewall.Xdp.Headers

set_option autoImplicit false

namespace ReputationFirewall.Scripts

open BigEndian Buffers

def ipprotoIcmp : UInt8 := 1
def ipprotoTcp : UInt8 := 6
def ipprotoUdp : UInt8 := 17

def ipv4HeaderLen : Nat := 20
def tcpHeaderLen : Nat := 20
def udpHeaderLen : Nat := 8
def icmpHeaderLen : Nat := 8

def octetPair (high low : UInt8) : Octets 2 := #v[high, low]

def u16Bytes (number : BitVec 16) : List UInt8 := (toBeBytes number : Octets 2).toList

def u32Bytes (number : BitVec 32) : List UInt8 := (toBeBytes number : Octets 4).toList

section Checksums

-- A call that panics, on an assertion, an index or an overflow, gives nothing.
def addU32 (sum word : BitVec 32) : Option (BitVec 32) :=
  if sum.toNat + word.toNat < 2 ^ 32 then some (sum + word) else none

def beWord (high low : UInt8) : BitVec 32 := (fromBeBytes (octetPair high low)).setWidth 32

def sumWords : BitVec 32 → List UInt8 → Option (BitVec 32)
  | sum, [] => some sum
  | sum, [last] => addU32 sum (beWord last 0)
  | sum, high :: low :: rest => (addU32 sum (beWord high low)).bind fun sum => sumWords sum rest

def carryRound (sum : BitVec 32) : Option (BitVec 32) := addU32 (sum &&& 0xffff) (sum >>> 16)

theorem addU32_toNat {sum word next : BitVec 32} (added : addU32 sum word = some next) :
    next.toNat = sum.toNat + word.toNat := by
  simp only [addU32, Option.ite_none_right_eq_some, Option.some.injEq] at added
  obtain ⟨small, rfl⟩ := added
  rw [BitVec.toNat_add, Nat.mod_eq_of_lt small]

theorem lowHalf_toNat (sum : BitVec 32) : (sum &&& 0xffff).toNat = sum.toNat % 65536 := by
  rw [BitVec.toNat_and]
  exact Nat.and_two_pow_sub_one_eq_mod sum.toNat 16

theorem highHalf_toNat (sum : BitVec 32) : (sum >>> 16).toNat = sum.toNat / 65536 := by
  rw [BitVec.toNat_ushiftRight, Nat.shiftRight_eq_div_pow]

theorem carries_iff (sum : BitVec 32) : 0 < sum >>> 16 ↔ 65536 ≤ sum.toNat := by
  rw [BitVec.lt_def, highHalf_toNat]
  exact ⟨fun high => by simp at high; omega, fun large => by simp; omega⟩

theorem carryRound_toNat {sum next : BitVec 32} (round : carryRound sum = some next) :
    next.toNat = sum.toNat % 65536 + sum.toNat / 65536 := by
  rw [addU32_toNat round, lowHalf_toNat, highHalf_toNat]

-- The round's result is attached to the round for the recursion, which ends because it is smaller.
def foldCarries (sum : BitVec 32) : Option (BitVec 32) :=
  if _ : 0 < sum >>> 16 then (carryRound sum).attach.bind fun next => foldCarries next.val else some sum
termination_by sum.toNat
decreasing_by
  have value := carryRound_toNat next.property
  have large := (carries_iff sum).mp ‹_›
  omega

theorem foldCarries_eq (sum : BitVec 32) :
    foldCarries sum = if 0 < sum >>> 16 then (carryRound sum).bind foldCarries else some sum := by
  rw [foldCarries]
  cases round : carryRound sum with
  | none => simp
  | some next => simp

def internetChecksum (data : List UInt8) : Option (BitVec 16) := do
  let sum ← sumWords 0 data
  let sum ← foldCarries sum
  return ~~~(sum.setWidth 16)

def pseudoHeaderSum (src dst : Octets 4) (proto : UInt8) (l4Len : BitVec 16) : Option (BitVec 32) := do
  let sum ← addU32 0 (beWord (src.get 0) (src.get 1))
  let sum ← addU32 sum (beWord (src.get 2) (src.get 3))
  let sum ← addU32 sum (beWord (dst.get 0) (dst.get 1))
  let sum ← addU32 sum (beWord (dst.get 2) (dst.get 3))
  let sum ← addU32 sum (BitVec.ofNat 32 proto.toNat)
  addU32 sum (l4Len.setWidth 32)

def l4Checksum (src dst : Octets 4) (proto : UInt8) (l4Data : List UInt8) : Option (BitVec 16) := do
  let sum ← pseudoHeaderSum src dst proto (BitVec.ofNat 16 l4Data.length)
  let sum ← sumWords sum l4Data
  let sum ← foldCarries sum
  let res := ~~~(sum.setWidth 16)
  return if res = 0 ∧ proto = ipprotoUdp then 0xffff else res

end Checksums

section Builders

def assertRoom (buf : List UInt8) (totalLen : Nat) : Option Unit := if buf.length ≥ totalLen then some () else none

def setByte (buf : List UInt8) (index : Nat) (byte : UInt8) : Option (List UInt8) :=
  copyFromSlice buf index (index + 1) [byte]

def copyPayload (buf : List UInt8) (start stop : Nat) (payload : List UInt8) : Option (List UInt8) :=
  if payload.isEmpty then some buf else copyFromSlice buf start stop payload

def writeIpv4Header (buf : List UInt8) (srcIp dstIp : Octets 4) (proto : UInt8) (identification : BitVec 16)
    (payloadLen : Nat) : Option (List UInt8 × Nat) := do
  let totalLen := BitVec.ofNat 16 (ipv4HeaderLen + payloadLen)
  let buf ← setByte buf 0 0x45
  let buf ← setByte buf 1 0x00
  let buf ← copyFromSlice buf 2 4 (u16Bytes totalLen)
  let buf ← copyFromSlice buf 4 6 (u16Bytes identification)
  let buf ← copyFromSlice buf 6 8 (u16Bytes 0x4000)
  let buf ← setByte buf 8 64
  let buf ← setByte buf 9 proto
  let buf ← copyFromSlice buf 10 12 [0, 0]
  let buf ← copyFromSlice buf 12 16 srcIp.toList
  let buf ← copyFromSlice buf 16 20 dstIp.toList
  let csum ← internetChecksum (← readSlice buf 0 ipv4HeaderLen)
  let buf ← copyFromSlice buf 10 12 (u16Bytes csum)
  return (buf, ipv4HeaderLen)

def buildIpv4TcpSyn (buf : List UInt8) (srcIp dstIp : Octets 4) (srcPort dstPort : BitVec 16) (seq : BitVec 32)
    (id : BitVec 16) (payload : List UInt8) : Option (List UInt8 × Nat) := do
  let l4Len := tcpHeaderLen + payload.length
  let totalLen := ipv4HeaderLen + l4Len
  assertRoom buf totalLen
  let tcpStart := ipv4HeaderLen
  let buf ← copyFromSlice buf tcpStart (tcpStart + 2) (u16Bytes srcPort)
  let buf ← copyFromSlice buf (tcpStart + 2) (tcpStart + 4) (u16Bytes dstPort)
  let buf ← copyFromSlice buf (tcpStart + 4) (tcpStart + 8) (u32Bytes seq)
  let buf ← copyFromSlice buf (tcpStart + 8) (tcpStart + 12) (u32Bytes 0)
  let buf ← setByte buf (tcpStart + 12) 0x50
  let buf ← setByte buf (tcpStart + 13) 0x02
  let buf ← copyFromSlice buf (tcpStart + 14) (tcpStart + 16) (u16Bytes 64240)
  let buf ← copyFromSlice buf (tcpStart + 16) (tcpStart + 18) [0, 0]
  let buf ← copyFromSlice buf (tcpStart + 18) (tcpStart + 20) [0, 0]
  let buf ← copyPayload buf (tcpStart + 20) totalLen payload
  let csum ← l4Checksum srcIp dstIp ipprotoTcp (← readSlice buf tcpStart totalLen)
  let buf ← copyFromSlice buf (tcpStart + 16) (tcpStart + 18) (u16Bytes csum)
  let (buf, _) ← writeIpv4Header buf srcIp dstIp ipprotoTcp id l4Len
  return (buf, totalLen)

-- The length is truncated to 16 bits before the total length is computed from it.
def buildIpv4Udp (buf : List UInt8) (srcIp dstIp : Octets 4) (srcPort dstPort id : BitVec 16) (payload : List UInt8) :
    Option (List UInt8 × Nat) := do
  let udpLen := BitVec.ofNat 16 (udpHeaderLen + payload.length)
  let totalLen := ipv4HeaderLen + udpLen.toNat
  assertRoom buf totalLen
  let udpStart := ipv4HeaderLen
  let buf ← copyFromSlice buf udpStart (udpStart + 2) (u16Bytes srcPort)
  let buf ← copyFromSlice buf (udpStart + 2) (udpStart + 4) (u16Bytes dstPort)
  let buf ← copyFromSlice buf (udpStart + 4) (udpStart + 6) (u16Bytes udpLen)
  let buf ← copyFromSlice buf (udpStart + 6) (udpStart + 8) [0, 0]
  let buf ← copyPayload buf (udpStart + 8) totalLen payload
  let csum ← l4Checksum srcIp dstIp ipprotoUdp (← readSlice buf udpStart totalLen)
  let buf ← copyFromSlice buf (udpStart + 6) (udpStart + 8) (u16Bytes csum)
  let (buf, _) ← writeIpv4Header buf srcIp dstIp ipprotoUdp id udpLen.toNat
  return (buf, totalLen)

def buildIpv4IcmpEcho (buf : List UInt8) (srcIp dstIp : Octets 4) (ident seq id : BitVec 16) (payload : List UInt8) :
    Option (List UInt8 × Nat) := do
  let icmpLen := icmpHeaderLen + payload.length
  let totalLen := ipv4HeaderLen + icmpLen
  assertRoom buf totalLen
  let icmpStart := ipv4HeaderLen
  let buf ← setByte buf icmpStart 8
  let buf ← setByte buf (icmpStart + 1) 0
  let buf ← copyFromSlice buf (icmpStart + 2) (icmpStart + 4) [0, 0]
  let buf ← copyFromSlice buf (icmpStart + 4) (icmpStart + 6) (u16Bytes ident)
  let buf ← copyFromSlice buf (icmpStart + 6) (icmpStart + 8) (u16Bytes seq)
  let buf ← copyPayload buf (icmpStart + 8) totalLen payload
  let csum ← internetChecksum (← readSlice buf icmpStart totalLen)
  let buf ← copyFromSlice buf (icmpStart + 2) (icmpStart + 4) (u16Bytes csum)
  let (buf, _) ← writeIpv4Header buf srcIp dstIp ipprotoIcmp id icmpLen
  return (buf, totalLen)

def buildIpv4Other (buf : List UInt8) (srcIp dstIp : Octets 4) (proto : UInt8) (id : BitVec 16) (payload : List UInt8) :
    Option (List UInt8 × Nat) := do
  let totalLen := ipv4HeaderLen + payload.length
  assertRoom buf totalLen
  let buf ← copyPayload buf ipv4HeaderLen totalLen payload
  let (buf, _) ← writeIpv4Header buf srcIp dstIp proto id payload.length
  return (buf, totalLen)

end Builders

end ReputationFirewall.Scripts
