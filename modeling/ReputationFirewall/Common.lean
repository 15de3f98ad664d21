import ReputationFirewall.Shared.BigEndian

set_option autoImplicit false

namespace ReputationFirewall

open BigEndian

def actionAccept : UInt8 := 0
def actionDrop : UInt8 := 1

def matchExactHash : UInt8 := 1
def matchLpmTrie : UInt8 := 2

def protoTcp : UInt8 := 6
def protoUdp : UInt8 := 17

structure RuleValue where
  ruleId : BitVec 32
  action : UInt8
  flags : UInt8
  pad : Octets 2
  deriving DecidableEq

def RuleValue.drop (ruleId : BitVec 32) : RuleValue :=
  { ruleId, action := actionDrop, flags := 0, pad := #v[0, 0] }

def RuleValue.accept (ruleId : BitVec 32) : RuleValue :=
  { ruleId, action := actionAccept, flags := 0, pad := #v[0, 0] }

def githubRanges : List (Nat × Octets 4) :=
  [(20, #v[140, 82, 112, 0]), (22, #v[192, 30, 252, 0]), (22, #v[185, 199, 108, 0]),
   (20, #v[143, 55, 64, 0]), (32, #v[20, 201, 28, 151]), (32, #v[20, 205, 243, 166]),
   (23, #v[4, 237, 22, 0])]

inductive FirewallError where
  | io
  | parseError (line : Nat) (reason : List Char)
  | cache (message : List Char)
  | config (message : List Char)
  deriving DecidableEq

structure PacketLogEvent where
  timestampNs : BitVec 64
  srcIp : Octets 16
  dstIp : Octets 16
  ruleId : BitVec 32
  packetLen : BitVec 32
  ifindex : BitVec 32
  srcPort : BitVec 16
  dstPort : BitVec 16
  protocol : UInt8
  ipVersion : UInt8
  action : UInt8
  matchType : UInt8
  pad : Octets 4
  deriving DecidableEq

structure FirewallStats where
  rxPackets : BitVec 64
  rxBytes : BitVec 64
  droppedPackets : BitVec 64
  droppedBytes : BitVec 64
  acceptedPackets : BitVec 64
  acceptedBytes : BitVec 64
  ringbufEvents : BitVec 64
  ringbufDrops : BitVec 64
  deriving DecidableEq

end ReputationFirewall
