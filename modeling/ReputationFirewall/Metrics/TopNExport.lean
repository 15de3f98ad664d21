import ReputationFirewall.Metrics.TopN

set_option autoImplicit false

namespace ReputationFirewall.Metrics

open CounterVec KeyedStore NetAddr Runs

section Tracked

variable {Label : Type} {tracker : BlockedIpTopN Label}

def BlockedIpTopN.Keyed (tracker : BlockedIpTopN Label) : Prop :=
  ∀ ip stat, tracker.stats.lookup ip = some stat → stat.ip = ip

theorem BlockedIpTopN.Keyed.ips_nodup (keyed : tracker.Keyed) :
    ((values tracker.stats).map BlockedIpStats.ip).Nodup := by
  rw [map_values keyed]
  exact AList.keys_nodup _

theorem BlockedIpTopN.Keyed.ranks_nodup (keyed : tracker.Keyed) :
    ((values tracker.stats).map (rank tracker.criterion)).Nodup := by
  have ips := keyed.ips_nodup
  rw [List.Nodup, List.pairwise_map] at ips ⊢
  exact ips.imp fun differ same => differ (rank_ip same)

theorem BlockedIpTopN.Keyed.best_eq (keyed : tracker.Keyed) {reading : List BlockedIpStats}
    (perm : reading.Perm (values tracker.stats)) (count : Nat) :
    Ranking.top (rank tracker.criterion) count reading = tracker.best count := by
  have differ := (perm.map (rank tracker.criterion)).nodup_iff.mpr keyed.ranks_nodup
  rw [BlockedIpTopN.best, Ranking.top, Ranking.top, Ranking.sorted_eq_of_perm _ perm]
  intro first listed second other same
  exact List.inj_on_of_nodup_map differ listed other same

structure Tracked (tracker : BlockedIpTopN Label) : Prop where
  entries : ∀ ip stat, tracker.stats.lookup ip = some stat → stat.ip = ip ∧ stat.AddsUp
  bounded : tracker.trackedCount ≤ tracker.maxTrackedIps
  limit : tracker.maxTrackedIps = 10000

theorem Tracked.keyed (tracked : Tracked tracker) : tracker.Keyed :=
  fun ip stat found => (tracked.entries ip stat found).1

theorem tally_lookup (tracker : BlockedIpTopN Label) (ip : IpAddr) (protocol : BlockedProtocol) (bytes : BitVec 64) :
    (tracker.tally ip protocol bytes).stats.lookup ip =
      some (((tracker.stats.lookup ip).getD (.new ip)).recordPacket protocol bytes) :=
  AList.lookup_insert _

theorem tally_lookup_ne {ip other : IpAddr} (differ : other ≠ ip) (tracker : BlockedIpTopN Label)
    (protocol : BlockedProtocol) (bytes : BitVec 64) :
    (tracker.tally ip protocol bytes).stats.lookup other = tracker.stats.lookup other :=
  AList.lookup_insert_ne differ

theorem tally_cases {ip other : IpAddr} {protocol : BlockedProtocol} {bytes : BitVec 64} {stat : BlockedIpStats}
    (found : (tracker.tally ip protocol bytes).stats.lookup other = some stat) :
    (∃ earlier, earlier = (tracker.stats.lookup ip).getD (.new ip) ∧
      (earlier = .new other ∨ tracker.stats.lookup other = some earlier) ∧ other = ip ∧
      stat = earlier.recordPacket protocol bytes) ∨
    tracker.stats.lookup other = some stat := by
  by_cases same : other = ip
  · subst same
    rw [tally_lookup] at found
    refine .inl ⟨_, rfl, ?_, rfl, (Option.some.inj found).symm⟩
    cases tracker.stats.lookup other with
    | none => exact .inl rfl
    | some earlier => exact .inr rfl
  · rw [tally_lookup_ne same] at found
    exact .inr found

theorem Tracked.tally_entries (tracked : Tracked tracker) (ip : IpAddr) (protocol : BlockedProtocol)
    (bytes : BitVec 64) :
    ∀ other stat, (tracker.tally ip protocol bytes).stats.lookup other = some stat →
      stat.ip = other ∧ stat.AddsUp := by
  intro other stat found
  obtain ⟨earlier, -, origin, -, rfl⟩ | kept := tally_cases found
  · have before : earlier.ip = other ∧ earlier.AddsUp := by
      obtain rfl | held := origin
      · exact ⟨rfl, BlockedIpStats.addsUp_new other⟩
      · exact tracked.entries other earlier held
    exact ⟨(BlockedIpStats.recordPacket_ip _ _ _).trans before.1, before.2.recordPacket protocol bytes⟩
  · exact tracked.entries other stat kept

theorem prune_lookup {ip : IpAddr} {stat : BlockedIpStats} :
    tracker.pruneLowVolumeEntries.stats.lookup ip = some stat ↔
      tracker.stats.lookup ip = some stat ∧
        ip ∈ (tracker.best (tracker.maxTrackedIps / 2)).map BlockedIpStats.ip := by
  rw [← decide_eq_true_iff (p := ip ∈ (tracker.best (tracker.maxTrackedIps / 2)).map BlockedIpStats.ip)]
  exact lookup_retain _ _ _ _

theorem prune_trackedCount (tracker : BlockedIpTopN Label) :
    tracker.pruneLowVolumeEntries.trackedCount ≤ tracker.maxTrackedIps / 2 := by
  have kept : tracker.pruneLowVolumeEntries.stats.keys ⊆
      (tracker.best (tracker.maxTrackedIps / 2)).map BlockedIpStats.ip := by
    intro ip listed
    obtain ⟨stat, found⟩ := Option.isSome_iff_exists.mp (AList.lookup_isSome.mpr (AList.mem_keys.mpr listed))
    exact (prune_lookup.mp found).2
  calc tracker.pruneLowVolumeEntries.trackedCount
      ≤ ((tracker.best (tracker.maxTrackedIps / 2)).map BlockedIpStats.ip).length :=
        ((AList.keys_nodup _).subperm kept).length_le
    _ ≤ tracker.maxTrackedIps / 2 := by
        rw [List.length_map, BlockedIpTopN.best, Ranking.length_top]
        exact Nat.min_le_left _ _

theorem Tracked.recordEvent (tracked : Tracked tracker) (ip : IpAddr) (protocol : BlockedProtocol)
    (bytes : BitVec 64) : Tracked (tracker.recordEvent ip protocol bytes) := by
  have entries := tracked.tally_entries ip protocol bytes
  unfold BlockedIpTopN.recordEvent
  dsimp only
  split_ifs with full
  · exact ⟨fun other stat found => entries other stat (prune_lookup.mp found).1,
      (prune_trackedCount _).trans (Nat.div_le_self _ _), tracked.limit⟩
  · exact ⟨entries, Nat.le_of_not_lt full, tracked.limit⟩

theorem Tracked.topNStats_ips (tracked : Tracked tracker) : (tracker.topNStats.map BlockedIpStats.ip).Nodup :=
  Ranking.top_map_nodup tracked.keyed.ips_nodup

theorem Tracked.addsUp (tracked : Tracked tracker) {stat : BlockedIpStats} (member : stat ∈ tracker.topNStats) :
    stat.AddsUp := by
  obtain ⟨ip, found⟩ := (mem_values _ _).mp (Ranking.mem_of_mem_top member)
  exact (tracked.entries ip stat found).2

end Tracked

section Series

variable {Label : Type} [DecidableEq Label] (display : IpAddr → Label)

def protocolNames : List (List Char) := BlockedProtocol.all.map BlockedProtocol.asStr

def protocolSeries (ips : Finset Label) : Finset (Label × List Char) := ips ×ˢ protocolNames.toFinset

def protocolReadings (count : BlockedIpStats → BlockedProtocol → BitVec 64) (stat : BlockedIpStats) :
    List ((Label × List Char) × BitVec 64) :=
  BlockedProtocol.all.map fun protocol => ((display stat.ip, protocol.asStr), count stat protocol)

def totalReadings (count : BlockedIpStats → BitVec 64) (stat : BlockedIpStats) : List (Label × BitVec 64) :=
  [(display stat.ip, count stat)]

def seriesOf (ip : Label) : List (Label × List Char) :=
  BlockedProtocol.all.map fun protocol => (ip, protocol.asStr)

def evictedIps (order : HashOrder Label) (tracker : BlockedIpTopN Label) : List Label :=
  order.list (tracker.currentlyExported \ TopNState.newTopIps display tracker)

variable (order : HashOrder Label) (state : TopNState Label)

def refreshed {L : Type} [DecidableEq L] (channelOf : Exports Label → Channel L 64) (labels : Label → List L)
    (readings : BlockedIpStats → List (L × BitVec 64)) : Channel L 64 :=
  ((channelOf (exportsOf state.tracker state.vectors)).withdrawAll
    ((evictedIps display order state.tracker).flatMap labels)).pushAll (state.tracker.topNStats.flatMap readings)

theorem synchronized_channel {L : Type} [DecidableEq L] (channelOf : Exports Label → Channel L 64)
    (labels : Label → List L) (readings : BlockedIpStats → List (L × BitVec 64))
    (evicts : ∀ exports oldIp, channelOf (Exports.evict exports oldIp) =
      (channelOf exports).withdrawAll (labels oldIp))
    (updates : ∀ exports stat, channelOf (Exports.update display exports stat) =
      (channelOf exports).pushAll (readings stat)) :
    channelOf (TopNState.synchronized display order state) =
      refreshed display order state channelOf labels readings := by
  rw [TopNState.synchronized, Channel.foldl_pushAll channelOf readings updates,
    Channel.foldl_withdrawAll channelOf labels evicts]
  rfl

theorem synchronized_packets :
    (TopNState.synchronized display order state).packets =
      refreshed display order state Exports.packets seriesOf
        (protocolReadings display BlockedIpStats.packetsForProtocol) :=
  synchronized_channel display order state _ _ _ (fun _ _ => rfl) (fun _ _ => rfl)

theorem synchronized_bytes :
    (TopNState.synchronized display order state).bytes =
      refreshed display order state Exports.bytes seriesOf
        (protocolReadings display BlockedIpStats.bytesForProtocol) :=
  synchronized_channel display order state _ _ _ (fun _ _ => rfl) (fun _ _ => rfl)

theorem synchronized_totalPackets :
    (TopNState.synchronized display order state).totalPackets =
      refreshed display order state Exports.totalPackets List.singleton
        (totalReadings display BlockedIpStats.totalPackets) :=
  synchronized_channel display order state _ _ _ (fun _ _ => rfl) (fun _ _ => rfl)

theorem synchronized_totalBytes :
    (TopNState.synchronized display order state).totalBytes =
      refreshed display order state Exports.totalBytes List.singleton
        (totalReadings display BlockedIpStats.totalBytes) :=
  synchronized_channel display order state _ _ _ (fun _ _ => rfl) (fun _ _ => rfl)

end Series

section OneChannel

variable {Label L : Type} [DecidableEq Label] [DecidableEq L] (display : IpAddr → Label)

structure SeriesFamily (labels : Label → List L) (readings : BlockedIpStats → List (L × BitVec 64)) : Prop where
  read : ∀ stat, (readings stat).map Prod.fst = labels (display stat.ip)
  distinct : ∀ ip, (labels ip).Nodup
  disjoint : ∀ ip other label, label ∈ labels ip → label ∈ labels other → ip = other

def liveSeries (labels : Label → List L) (ips : Finset Label) : Finset L := ips.biUnion fun ip => (labels ip).toFinset

theorem mem_newTopIps (tracker : BlockedIpTopN Label) (ip : Label) :
    ip ∈ TopNState.newTopIps display tracker ↔ ∃ stat ∈ tracker.topNStats, display stat.ip = ip := by
  simp [TopNState.newTopIps]

theorem mem_evictedIps (order : HashOrder Label) (tracker : BlockedIpTopN Label) (ip : Label) :
    ip ∈ evictedIps display order tracker ↔
      ip ∈ tracker.currentlyExported ∧ ip ∉ TopNState.newTopIps display tracker := by
  rw [evictedIps, order.mem_list, Finset.mem_sdiff]

variable {display} {labels : Label → List L} {readings : BlockedIpStats → List (L × BitVec 64)}
  (family : SeriesFamily display labels readings)

include family

omit [DecidableEq Label] [DecidableEq L] in
theorem SeriesFamily.read_labels (stats : List BlockedIpStats) :
    (stats.flatMap readings).map Prod.fst = (stats.map fun stat => display stat.ip).flatMap labels := by
  rw [List.map_flatMap, List.flatMap_map]
  exact congrArg stats.flatMap (funext family.read)

omit [DecidableEq Label] [DecidableEq L] in
theorem SeriesFamily.nodup (injective : Function.Injective display) {stats : List BlockedIpStats}
    (distinct : (stats.map BlockedIpStats.ip).Nodup) : ((stats.flatMap readings).map Prod.fst).Nodup := by
  rw [family.read_labels, List.nodup_flatMap]
  refine ⟨fun ip _ => family.distinct ip, ?_⟩
  have ips : (stats.map fun stat => display stat.ip).Nodup := by
    have mapped := distinct.map injective
    rwa [List.map_map] at mapped
  refine ips.imp fun differ => ?_
  intro label first second
  exact differ (family.disjoint _ _ label first second)

variable (order : HashOrder Label) {state : TopNState Label} {channelOf : Exports Label → Channel L 64}

theorem SeriesFamily.refreshed_exposes
    (exposes : (channelOf (exportsOf state.tracker state.vectors)).Exposes
      (liveSeries labels state.tracker.currentlyExported)) :
    (refreshed display order state channelOf labels readings).Exposes
      (liveSeries labels (TopNState.newTopIps display state.tracker)) := by
  have live : liveSeries labels (TopNState.newTopIps display state.tracker) =
      ((state.tracker.topNStats.flatMap readings).map Prod.fst).toFinset := by
    ext label
    simp [liveSeries, family.read_labels, TopNState.newTopIps]
  rw [live]
  apply exposes.refresh
  intro label exported
  obtain ⟨ip, current, listed⟩ := Finset.mem_biUnion.mp exported
  rw [List.mem_toFinset] at listed
  by_cases stays : ip ∈ TopNState.newTopIps display state.tracker
  · right
    rw [family.read_labels]
    exact List.mem_flatMap.mpr ⟨ip, List.mem_toFinset.mp stays, listed⟩
  · left
    exact List.mem_flatMap.mpr ⟨ip, (mem_evictedIps _ _ _ _).mpr ⟨current, stays⟩, listed⟩

theorem SeriesFamily.refreshed_lookup (injective : Function.Injective display) (tracked : Tracked state.tracker)
    {stat : BlockedIpStats} (best : stat ∈ state.tracker.topNStats) {label : L} {current : BitVec 64}
    (reads : (label, current) ∈ readings stat) :
    (refreshed display order state channelOf labels readings).lastExported.lookup label =
      some (higher ((channelOf (exportsOf state.tracker state.vectors)).last label) current) := by
  have own : label ∈ labels (display stat.ip) := by
    rw [← family.read stat]
    exact List.mem_map_of_mem reads
  have kept : label ∉ (evictedIps display order state.tracker).flatMap labels := by
    intro evicted
    obtain ⟨ip, gone, listed⟩ := List.mem_flatMap.mp evicted
    obtain rfl := family.disjoint _ _ label listed own
    exact ((mem_evictedIps _ _ _ _).mp gone).2 ((mem_newTopIps _ _ _).mpr ⟨stat, best, rfl⟩)
  rw [refreshed, Channel.pushAll_lookup _ (family.nodup injective tracked.topNStats_ips)
    (List.mem_flatMap.mpr ⟨stat, best, reads⟩), Channel.last, Channel.withdrawAll_lookup, if_neg kept, Channel.last]

theorem SeriesFamily.refreshed_exact_iff (injective : Function.Injective display) (tracked : Tracked state.tracker)
    (exposes : (channelOf (exportsOf state.tracker state.vectors)).Exposes
      (liveSeries labels state.tracker.currentlyExported))
    {stat : BlockedIpStats} (best : stat ∈ state.tracker.topNStats) {label : L} {current : BitVec 64}
    (reads : (label, current) ∈ readings stat) :
    (refreshed display order state channelOf labels readings).series.lookup label = some current ↔
      value (channelOf (exportsOf state.tracker state.vectors)).series label ≤ current := by
  rw [(family.refreshed_exposes order exposes).mirrors label, family.refreshed_lookup order injective tracked best reads,
    Option.some.injEq, higher_eq_iff, exposes.mirrors.value]

end OneChannel

section Families

variable {Label : Type} (display : IpAddr → Label)

theorem protocol_family (count : BlockedIpStats → BlockedProtocol → BitVec 64) :
    SeriesFamily display seriesOf (protocolReadings display count) where
  read stat := by simp [protocolReadings, seriesOf]
  distinct ip := by
    refine List.Nodup.map ?_ (by decide)
    intro first second same
    exact BlockedProtocol.asStr_injective (congrArg Prod.snd same)
  disjoint ip other label first second := by
    obtain ⟨protocol, -, rfl⟩ := List.mem_map.mp first
    obtain ⟨_, -, same⟩ := List.mem_map.mp second
    exact (congrArg Prod.fst same).symm

theorem total_family (count : BlockedIpStats → BitVec 64) :
    SeriesFamily display List.singleton (totalReadings display count) where
  read _ := rfl
  distinct ip := List.nodup_singleton ip
  disjoint _ _ _ first second := (List.mem_singleton.mp first).symm.trans (List.mem_singleton.mp second)

theorem mem_protocolReadings (count : BlockedIpStats → BlockedProtocol → BitVec 64) (stat : BlockedIpStats)
    (protocol : BlockedProtocol) :
    ((display stat.ip, protocol.asStr), count stat protocol) ∈ protocolReadings display count stat :=
  List.mem_map.mpr ⟨protocol, protocol.mem_all, rfl⟩

variable [DecidableEq Label]

theorem liveSeries_seriesOf (ips : Finset Label) : liveSeries seriesOf ips = protocolSeries ips := by
  ext ⟨ip, name⟩
  simp [liveSeries, seriesOf, protocolSeries, protocolNames]

theorem liveSeries_singleton (ips : Finset Label) : liveSeries List.singleton ips = ips := by
  ext ip
  simp [liveSeries, List.singleton]

end Families

section Runs

variable {Label : Type} [DecidableEq Label] (display : IpAddr → Label)

inductive TopNCall (Label : Type) where
  | recordEvent (ip : IpAddr) (protocol : BlockedProtocol) (bytes : BitVec 64)
  | setCriterion (criterion : RankingCriterion)
  | syncToMetrics (order : HashOrder Label)

namespace TopNState

def start (capacity : Nat) (criterion : RankingCriterion) : TopNState Label := ⟨.new capacity criterion, .empty⟩

def step (state : TopNState Label) : TopNCall Label → TopNState Label
  | .recordEvent ip protocol bytes => { state with tracker := state.tracker.recordEvent ip protocol bytes }
  | .setCriterion criterion => { state with tracker := state.tracker.setCriterion criterion }
  | .syncToMetrics order => syncToMetrics display order state

structure Consistent (state : TopNState Label) : Prop where
  tracked : Tracked state.tracker
  packets : (exportsOf state.tracker state.vectors).packets.Exposes
    (liveSeries seriesOf state.tracker.currentlyExported)
  bytes : (exportsOf state.tracker state.vectors).bytes.Exposes
    (liveSeries seriesOf state.tracker.currentlyExported)
  totalPackets : (exportsOf state.tracker state.vectors).totalPackets.Exposes
    (liveSeries List.singleton state.tracker.currentlyExported)
  totalBytes : (exportsOf state.tracker state.vectors).totalBytes.Exposes
    (liveSeries List.singleton state.tracker.currentlyExported)

theorem consistent_start (capacity : Nat) (criterion : RankingCriterion) :
    (start capacity criterion : TopNState Label).Consistent := by
  refine ⟨⟨?_, Nat.zero_le _, rfl⟩, ?_, ?_, ?_, ?_⟩
  · intro ip stat found
    simp [start, BlockedIpTopN.new] at found
  all_goals exact ⟨fun _ => rfl, rfl⟩

omit [DecidableEq Label] in
theorem recordEvent_exports (tracker : BlockedIpTopN Label) (vectors : TopNVectors Label) (ip : IpAddr)
    (protocol : BlockedProtocol) (bytes : BitVec 64) :
    exportsOf (tracker.recordEvent ip protocol bytes) vectors = exportsOf tracker vectors ∧
      (tracker.recordEvent ip protocol bytes).currentlyExported = tracker.currentlyExported := by
  unfold BlockedIpTopN.recordEvent
  dsimp only
  split_ifs <;> exact ⟨rfl, rfl⟩

theorem Consistent.step {state : TopNState Label} (consistent : state.Consistent) (call : TopNCall Label) :
    (state.step display call).Consistent := by
  obtain ⟨tracked, packets, bytes, totalPackets, totalBytes⟩ := consistent
  cases call with
  | recordEvent ip protocol length =>
      obtain ⟨exports, exported⟩ := recordEvent_exports state.tracker state.vectors ip protocol length
      refine ⟨tracked.recordEvent ip protocol length, ?_, ?_, ?_, ?_⟩ <;>
        simpa only [TopNState.step, exports, exported]
  | setCriterion criterion => exact ⟨⟨tracked.entries, tracked.bounded, tracked.limit⟩, packets, bytes, totalPackets, totalBytes⟩
  | syncToMetrics order =>
      refine ⟨⟨tracked.entries, tracked.bounded, tracked.limit⟩, ?_, ?_, ?_, ?_⟩
      · have refreshed := (protocol_family display BlockedIpStats.packetsForProtocol).refreshed_exposes order packets
        rwa [← synchronized_packets display order] at refreshed
      · have refreshed := (protocol_family display BlockedIpStats.bytesForProtocol).refreshed_exposes order bytes
        rwa [← synchronized_bytes display order] at refreshed
      · have refreshed := (total_family display BlockedIpStats.totalPackets).refreshed_exposes order totalPackets
        rwa [← synchronized_totalPackets display order] at refreshed
      · have refreshed := (total_family display BlockedIpStats.totalBytes).refreshed_exposes order totalBytes
        rwa [← synchronized_totalBytes display order] at refreshed

theorem consistent_run (capacity : Nat) (criterion : RankingCriterion) (calls : List (TopNCall Label)) :
    (run (step display) (start capacity criterion) calls).Consistent :=
  run_invariant _ _ _ (consistent_start capacity criterion) (fun _ call consistent => consistent.step display call) calls

theorem card_newTopIps (injective : Function.Injective display) {tracker : BlockedIpTopN Label}
    (tracked : Tracked tracker) : (newTopIps display tracker).card = min tracker.capacity tracker.trackedCount := by
  have distinct : (tracker.topNStats.map fun stat => display stat.ip).Nodup := by
    have mapped := tracked.topNStats_ips.map injective
    rwa [List.map_map] at mapped
  rw [newTopIps, List.toFinset_card_of_nodup distinct, List.length_map, BlockedIpTopN.topNStats, BlockedIpTopN.best,
    Ranking.length_top, length_values, BlockedIpTopN.trackedCount]

structure Exposed (state : TopNState Label) : Prop where
  packets : keySet state.vectors.packets = protocolSeries (newTopIps display state.tracker)
  bytes : keySet state.vectors.bytes = protocolSeries (newTopIps display state.tracker)
  totalPackets : keySet state.vectors.totalPackets = newTopIps display state.tracker
  totalBytes : keySet state.vectors.totalBytes = newTopIps display state.tracker
  lastPackets : keySet state.tracker.lastExportedPackets = protocolSeries (newTopIps display state.tracker)
  lastBytes : keySet state.tracker.lastExportedBytes = protocolSeries (newTopIps display state.tracker)
  lastTotalPackets : keySet state.tracker.lastExportedTotalPackets = newTopIps display state.tracker
  lastTotalBytes : keySet state.tracker.lastExportedTotalBytes = newTopIps display state.tracker
  count : state.vectors.topCount = min state.tracker.capacity state.tracker.trackedCount

theorem Consistent.exposed_sync (injective : Function.Injective display) {state : TopNState Label}
    (consistent : state.Consistent) (order : HashOrder Label) : (syncToMetrics display order state).Exposed display := by
  obtain ⟨tracked, packets, bytes, totalPackets, totalBytes⟩ := consistent.step display (.syncToMetrics order)
  have protocols := liveSeries_seriesOf (newTopIps display state.tracker)
  have totals := liveSeries_singleton (newTopIps display state.tracker)
  refine ⟨packets.series.trans protocols, bytes.series.trans protocols, totalPackets.series.trans totals,
    totalBytes.series.trans totals, packets.recorded.trans protocols, bytes.recorded.trans protocols,
    totalPackets.recorded.trans totals, totalBytes.recorded.trans totals, ?_⟩
  have card := card_newTopIps display injective consistent.tracked
  have small : min state.tracker.capacity state.tracker.trackedCount ≤ 10000 :=
    (Nat.min_le_right _ _).trans (consistent.tracked.bounded.trans_eq consistent.tracked.limit)
  change (BitVec.ofNat 64 (newTopIps display state.tracker).card).toInt =
    ((min state.tracker.capacity state.tracker.trackedCount : Nat) : Int)
  have unwrapped : (BitVec.ofNat 64 (newTopIps display state.tracker).card).toNat =
      min state.tracker.capacity state.tracker.trackedCount := by
    rw [card, BitVec.toNat_ofNat, Nat.mod_eq_of_lt (by omega)]
  rw [BitVec.toInt_eq_toNat_of_lt (by omega), unwrapped]

theorem series_of_best_only (injective : Function.Injective display) (capacity : Nat) (criterion : RankingCriterion)
    (calls : List (TopNCall Label)) :
    StepsMeet (step display) (start capacity criterion)
      (fun state call => ∀ order, call = .syncToMetrics order → (state.step display call).Exposed display) calls := by
  intro done call _ order sync
  subst sync
  exact (consistent_run display capacity criterion done).exposed_sync display injective order

-- There is one series: the first address has it, loses it to the second and takes it back.
def overtakingCalls (order : HashOrder IpAddr) : List (TopNCall IpAddr) :=
  [.recordEvent (.v4 (ipv4Octets 198 51 100 9)) .tcp 60, .syncToMetrics order,
    .recordEvent (.v4 (ipv4Octets 198 51 100 7)) .udp 90, .recordEvent (.v4 (ipv4Octets 198 51 100 7)) .udp 90,
    .syncToMetrics order,
    .recordEvent (.v4 (ipv4Octets 198 51 100 9)) .udp 40, .recordEvent (.v4 (ipv4Octets 198 51 100 9)) .tcp 60,
    .syncToMetrics order]

theorem returning_address_exposed :
    Function.Injective (id : IpAddr → IpAddr) ∧
      (run (step id) (start 1 .packets) (overtakingCalls (HashOrder.arbitrary IpAddr))).Exposed id :=
  ⟨Function.injective_id, series_of_best_only id Function.injective_id 1 .packets
    (overtakingCalls (HashOrder.arbitrary IpAddr)) (overtakingCalls (HashOrder.arbitrary IpAddr)).dropLast _
    (List.prefix_refl _) (HashOrder.arbitrary IpAddr) rfl⟩

end TopNState

end Runs

end ReputationFirewall.Metrics
