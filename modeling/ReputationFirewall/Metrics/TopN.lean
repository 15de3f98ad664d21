import Mathlib.Data.BitVec
import ReputationFirewall.Shared.CounterVec
import ReputationFirewall.Shared.NetAddr
import ReputationFirewall.Shared.Ranking
import ReputationFirewall.Shared.Runs

set_option autoImplicit false

namespace ReputationFirewall.Metrics

open BigEndian CounterVec KeyedStore NetAddr

section Statistics

inductive BlockedProtocol where
  | tcp
  | udp
  | icmp
  | icmpv6
  | other
  deriving DecidableEq

namespace BlockedProtocol

def asStr : BlockedProtocol → List Char
  | .tcp => "tcp".toList
  | .udp => "udp".toList
  | .icmp => "icmp".toList
  | .icmpv6 => "icmpv6".toList
  | .other => "other".toList

def fromU8 (proto : UInt8) : BlockedProtocol :=
  if proto = 6 then .tcp else if proto = 17 then .udp else if proto = 1 then .icmp
  else if proto = 58 then .icmpv6 else .other

def all : List BlockedProtocol := [.tcp, .udp, .icmp, .icmpv6, .other]

theorem mem_all (protocol : BlockedProtocol) : protocol ∈ all := by
  cases protocol <;> decide

theorem asStr_injective : Function.Injective asStr := by
  intro first second same
  cases first <;> cases second <;> first | rfl | exact absurd same (by decide)

end BlockedProtocol

structure BlockedIpStats where
  ip : IpAddr
  totalPackets : BitVec 64
  totalBytes : BitVec 64
  tcpPackets : BitVec 64
  udpPackets : BitVec 64
  icmpPackets : BitVec 64
  icmpv6Packets : BitVec 64
  otherPackets : BitVec 64
  tcpBytes : BitVec 64
  udpBytes : BitVec 64
  icmpBytes : BitVec 64
  icmpv6Bytes : BitVec 64
  otherBytes : BitVec 64
  deriving DecidableEq

namespace BlockedIpStats

def new (ip : IpAddr) : BlockedIpStats := ⟨ip, 0, 0, 0, 0, 0, 0, 0, 0, 0, 0, 0, 0⟩

def recordPacket (stats : BlockedIpStats) (protocol : BlockedProtocol) (bytes : BitVec 64) : BlockedIpStats :=
  let stats := { stats with
    totalPackets := stats.totalPackets + 1
    totalBytes := stats.totalBytes + bytes }
  match protocol with
  | .tcp => { stats with tcpPackets := stats.tcpPackets + 1, tcpBytes := stats.tcpBytes + bytes }
  | .udp => { stats with udpPackets := stats.udpPackets + 1, udpBytes := stats.udpBytes + bytes }
  | .icmp => { stats with icmpPackets := stats.icmpPackets + 1, icmpBytes := stats.icmpBytes + bytes }
  | .icmpv6 => { stats with icmpv6Packets := stats.icmpv6Packets + 1, icmpv6Bytes := stats.icmpv6Bytes + bytes }
  | .other => { stats with otherPackets := stats.otherPackets + 1, otherBytes := stats.otherBytes + bytes }

def packetsForProtocol (stats : BlockedIpStats) : BlockedProtocol → BitVec 64
  | .tcp => stats.tcpPackets
  | .udp => stats.udpPackets
  | .icmp => stats.icmpPackets
  | .icmpv6 => stats.icmpv6Packets
  | .other => stats.otherPackets

def bytesForProtocol (stats : BlockedIpStats) : BlockedProtocol → BitVec 64
  | .tcp => stats.tcpBytes
  | .udp => stats.udpBytes
  | .icmp => stats.icmpBytes
  | .icmpv6 => stats.icmpv6Bytes
  | .other => stats.otherBytes

@[simp] theorem recordPacket_ip (stats : BlockedIpStats) (protocol : BlockedProtocol) (bytes : BitVec 64) :
    (stats.recordPacket protocol bytes).ip = stats.ip := by
  cases protocol <;> rfl

structure AddsUp (stats : BlockedIpStats) : Prop where
  packets : (BlockedProtocol.all.map stats.packetsForProtocol).sum = stats.totalPackets
  bytes : (BlockedProtocol.all.map stats.bytesForProtocol).sum = stats.totalBytes

theorem addsUp_new (ip : IpAddr) : (new ip).AddsUp := ⟨rfl, rfl⟩

theorem AddsUp.recordPacket {stats : BlockedIpStats} (addsUp : stats.AddsUp) (protocol : BlockedProtocol)
    (bytes : BitVec 64) : (stats.recordPacket protocol bytes).AddsUp := by
  obtain ⟨packets, length⟩ := addsUp
  simp only [BlockedProtocol.all, List.map_cons, List.map_nil, List.sum_cons, List.sum_nil, packetsForProtocol,
    bytesForProtocol] at packets length
  constructor <;> cases protocol <;>
    simp only [BlockedProtocol.all, List.map_cons, List.map_nil, List.sum_cons, List.sum_nil, packetsForProtocol,
      bytesForProtocol, BlockedIpStats.recordPacket, ← packets, ← length] <;> ac_rfl

end BlockedIpStats

end Statistics

section Tracker

inductive RankingCriterion where
  | packets
  | bytes
  deriving DecidableEq

def ipOrder : IpAddr → Nat ×ₗ Nat
  | .v4 octets => toLex (4, (fromBeBytes octets).toNat)
  | .v6 octets => toLex (6, (fromBeBytes octets).toNat)

def rank (criterion : RankingCriterion) (stats : BlockedIpStats) : Natᵒᵈ ×ₗ Natᵒᵈ ×ₗ Nat ×ₗ Nat :=
  let packets := OrderDual.toDual stats.totalPackets.toNat
  let bytes := OrderDual.toDual stats.totalBytes.toNat
  match criterion with
  | .packets => toLex (packets, toLex (bytes, ipOrder stats.ip))
  | .bytes => toLex (bytes, toLex (packets, ipOrder stats.ip))

def compareIps : IpAddr → IpAddr → Ordering
  | .v4 left, .v4 right => compare (fromBeBytes left).toNat (fromBeBytes right).toNat
  | .v4 _, .v6 _ => .lt
  | .v6 _, .v4 _ => .gt
  | .v6 left, .v6 right => compare (fromBeBytes left).toNat (fromBeBytes right).toNat

def compareEntries (criterion : RankingCriterion) (a b : BlockedIpStats) : Ordering :=
  match criterion with
  | .packets =>
      (compare b.totalPackets.toNat a.totalPackets.toNat).then
        ((compare b.totalBytes.toNat a.totalBytes.toNat).then (compareIps a.ip b.ip))
  | .bytes =>
      (compare b.totalBytes.toNat a.totalBytes.toNat).then
        ((compare b.totalPackets.toNat a.totalPackets.toNat).then (compareIps a.ip b.ip))

def sortEntries (criterion : RankingCriterion) (entries : List BlockedIpStats) : List BlockedIpStats :=
  entries.mergeSort fun a b => (compareEntries criterion a b).isLE

theorem ipOrder_injective : Function.Injective ipOrder := by
  intro first second same
  have parts := Prod.ext_iff.mp (toLex.injective same)
  cases first <;> cases second
  · exact congrArg IpAddr.v4 (fromBeBytes_injective (BitVec.toNat_inj.mp parts.2))
  · exact absurd (show 4 = 6 from parts.1) (by decide)
  · exact absurd (show 6 = 4 from parts.1) (by decide)
  · exact congrArg IpAddr.v6 (fromBeBytes_injective (BitVec.toNat_inj.mp parts.2))

theorem rank_ip {criterion : RankingCriterion} {first second : BlockedIpStats}
    (same : rank criterion first = rank criterion second) : first.ip = second.ip := by
  cases criterion <;>
    exact ipOrder_injective (Prod.ext_iff.mp (toLex.injective (Prod.ext_iff.mp (toLex.injective same)).2)).2

theorem compareIps_eq (left right : IpAddr) : compareIps left right = compare (ipOrder left) (ipOrder right) := by
  rw [Prod.Lex.compare_def]
  cases left <;> cases right <;> rfl

theorem compareEntries_eq (criterion : RankingCriterion) (a b : BlockedIpStats) :
    compareEntries criterion a b = compare (rank criterion a) (rank criterion b) := by
  cases criterion <;>
    simp only [compareEntries, rank, compareIps_eq, Prod.Lex.compare_def, compareLex, compareOn, ofLex_toLex] <;> rfl

variable {Label : Type}

structure BlockedIpTopN (Label : Type) where
  capacity : Nat
  criterion : RankingCriterion
  stats : Store IpAddr BlockedIpStats
  currentlyExported : Finset Label
  lastExportedPackets : Store (Label × List Char) (BitVec 64)
  lastExportedBytes : Store (Label × List Char) (BitVec 64)
  lastExportedTotalPackets : Store Label (BitVec 64)
  lastExportedTotalBytes : Store Label (BitVec 64)
  maxTrackedIps : Nat

namespace BlockedIpTopN

def new (capacity : Nat) (criterion : RankingCriterion) : BlockedIpTopN Label :=
  ⟨capacity, criterion, ∅, ∅, ∅, ∅, ∅, ∅, 10000⟩

def trackedCount (tracker : BlockedIpTopN Label) : Nat := tracker.stats.keys.length

-- All ranks differ, so the order in which the map is read does not matter.
def best (tracker : BlockedIpTopN Label) (count : Nat) : List BlockedIpStats :=
  Ranking.top (rank tracker.criterion) count (values tracker.stats)

def readBest (order : HashOrder IpAddr) (tracker : BlockedIpTopN Label) (count : Nat) : List BlockedIpStats :=
  (sortEntries tracker.criterion ((order.iterate tracker.stats).map Prod.snd)).take count

def topNStats (tracker : BlockedIpTopN Label) : List BlockedIpStats := tracker.best tracker.capacity

def readTopNStats (order : HashOrder IpAddr) (tracker : BlockedIpTopN Label) : List BlockedIpStats :=
  tracker.readBest order tracker.capacity

def pruneLowVolumeEntries (tracker : BlockedIpTopN Label) : BlockedIpTopN Label :=
  let retained := (tracker.best (tracker.maxTrackedIps / 2)).map BlockedIpStats.ip
  { tracker with stats := retain tracker.stats fun ip => ip ∈ retained }

def tally (tracker : BlockedIpTopN Label) (ip : IpAddr) (protocol : BlockedProtocol) (bytes : BitVec 64) :
    BlockedIpTopN Label :=
  let stats := (tracker.stats.lookup ip).getD (.new ip)
  { tracker with stats := tracker.stats.insert ip (stats.recordPacket protocol bytes) }

def recordEvent (tracker : BlockedIpTopN Label) (ip : IpAddr) (protocol : BlockedProtocol) (bytes : BitVec 64) :
    BlockedIpTopN Label :=
  let tracker := tracker.tally ip protocol bytes
  if tracker.trackedCount > tracker.maxTrackedIps then tracker.pruneLowVolumeEntries else tracker

def setCriterion (tracker : BlockedIpTopN Label) (criterion : RankingCriterion) : BlockedIpTopN Label :=
  { tracker with criterion }

end BlockedIpTopN

end Tracker

section Export

variable {Label : Type} [DecidableEq Label]

structure TopNVectors (Label : Type) where
  packets : Counters (Label × List Char) 64
  bytes : Counters (Label × List Char) 64
  totalPackets : Counters Label 64
  totalBytes : Counters Label 64
  topCount : Int

def TopNVectors.empty : TopNVectors Label := ⟨∅, ∅, ∅, ∅, 0⟩

structure Exports (Label : Type) where
  packets : Channel (Label × List Char) 64
  bytes : Channel (Label × List Char) 64
  totalPackets : Channel Label 64
  totalBytes : Channel Label 64

def exportsOf (tracker : BlockedIpTopN Label) (vectors : TopNVectors Label) : Exports Label where
  packets := ⟨tracker.lastExportedPackets, vectors.packets⟩
  bytes := ⟨tracker.lastExportedBytes, vectors.bytes⟩
  totalPackets := ⟨tracker.lastExportedTotalPackets, vectors.totalPackets⟩
  totalBytes := ⟨tracker.lastExportedTotalBytes, vectors.totalBytes⟩

namespace Exports

def evictProtocol (oldIp : Label) (exports : Exports Label) (protocol : BlockedProtocol) : Exports Label :=
  { exports with
    packets := exports.packets.withdraw (oldIp, protocol.asStr)
    bytes := exports.bytes.withdraw (oldIp, protocol.asStr) }

def evict (exports : Exports Label) (oldIp : Label) : Exports Label :=
  let exports := BlockedProtocol.all.foldl (evictProtocol oldIp) exports
  { exports with
    totalPackets := exports.totalPackets.withdraw oldIp
    totalBytes := exports.totalBytes.withdraw oldIp }

def updateProtocol (stat : BlockedIpStats) (ipStr : Label) (exports : Exports Label) (protocol : BlockedProtocol) :
    Exports Label :=
  { exports with
    packets := exports.packets.push (ipStr, protocol.asStr) (stat.packetsForProtocol protocol)
    bytes := exports.bytes.push (ipStr, protocol.asStr) (stat.bytesForProtocol protocol) }

def update (display : IpAddr → Label) (exports : Exports Label) (stat : BlockedIpStats) : Exports Label :=
  let ipStr := display stat.ip
  let exports := BlockedProtocol.all.foldl (updateProtocol stat ipStr) exports
  { exports with
    totalPackets := exports.totalPackets.push ipStr stat.totalPackets
    totalBytes := exports.totalBytes.push ipStr stat.totalBytes }

end Exports

structure TopNState (Label : Type) where
  tracker : BlockedIpTopN Label
  vectors : TopNVectors Label

namespace TopNState

variable (display : IpAddr → Label)

def newTopIps (tracker : BlockedIpTopN Label) : Finset Label :=
  (tracker.topNStats.map fun stat => display stat.ip).toFinset

def synchronized (order : HashOrder Label) (state : TopNState Label) : Exports Label :=
  let evictedIps := order.list (state.tracker.currentlyExported \ newTopIps display state.tracker)
  state.tracker.topNStats.foldl (Exports.update display)
    (evictedIps.foldl Exports.evict (exportsOf state.tracker state.vectors))

def syncToMetrics (order : HashOrder Label) (state : TopNState Label) : TopNState Label :=
  let exports := synchronized display order state
  let newTopIps := newTopIps display state.tracker
  { tracker := { state.tracker with
      currentlyExported := newTopIps
      lastExportedPackets := exports.packets.lastExported
      lastExportedBytes := exports.bytes.lastExported
      lastExportedTotalPackets := exports.totalPackets.lastExported
      lastExportedTotalBytes := exports.totalBytes.lastExported }
    vectors := {
      packets := exports.packets.series
      bytes := exports.bytes.series
      totalPackets := exports.totalPackets.series
      totalBytes := exports.totalBytes.series
      -- `new_top_ips.len() as i64`
      topCount := (BitVec.ofNat 64 newTopIps.card).toInt } }

end TopNState

end Export

end ReputationFirewall.Metrics
