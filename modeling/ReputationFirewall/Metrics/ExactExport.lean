import ReputationFirewall.Metrics.TopNExport

set_option autoImplicit false

namespace ReputationFirewall.Metrics

open CounterVec KeyedStore NetAddr Runs

namespace BlockedIpStats

structure NoWrap (stats : BlockedIpStats) (protocol : BlockedProtocol) (length : BitVec 64) : Prop where
  packets : (stats.packetsForProtocol protocol).toNat + 1 < 2 ^ 64
  bytes : (stats.bytesForProtocol protocol).toNat + length.toNat < 2 ^ 64
  totalPackets : stats.totalPackets.toNat + 1 < 2 ^ 64
  totalBytes : stats.totalBytes.toNat + length.toNat < 2 ^ 64

structure AtMost (stats later : BlockedIpStats) : Prop where
  packets : ∀ protocol, stats.packetsForProtocol protocol ≤ later.packetsForProtocol protocol
  bytes : ∀ protocol, stats.bytesForProtocol protocol ≤ later.bytesForProtocol protocol
  totalPackets : stats.totalPackets ≤ later.totalPackets
  totalBytes : stats.totalBytes ≤ later.totalBytes

theorem le_add {count amount : BitVec 64} (room : count.toNat + amount.toNat < 2 ^ 64) : count ≤ count + amount := by
  rw [BitVec.le_def, BitVec.toNat_add, Nat.mod_eq_of_lt room]
  exact Nat.le_add_right _ _

theorem NoWrap.atMost {stats : BlockedIpStats} {protocol : BlockedProtocol} {bytes : BitVec 64}
    (noWrap : stats.NoWrap protocol bytes) : stats.AtMost (stats.recordPacket protocol bytes) := by
  obtain ⟨packets, length, totalPackets, totalBytes⟩ := noWrap
  have counted : stats.packetsForProtocol protocol ≤ stats.packetsForProtocol protocol + 1 := le_add packets
  have summed : stats.bytesForProtocol protocol ≤ stats.bytesForProtocol protocol + bytes := le_add length
  have allCounted : stats.totalPackets ≤ stats.totalPackets + 1 := le_add totalPackets
  have allSummed : stats.totalBytes ≤ stats.totalBytes + bytes := le_add totalBytes
  refine ⟨fun each => ?_, fun each => ?_, ?_, ?_⟩
  · cases protocol <;> cases each <;> first | exact counted | exact BitVec.le_refl _
  · cases protocol <;> cases each <;> first | exact summed | exact BitVec.le_refl _
  · cases protocol <;> exact allCounted
  · cases protocol <;> exact allSummed

end BlockedIpStats

namespace TopNState

section Exactness

variable {Label : Type} [DecidableEq Label] (display : IpAddr → Label)

structure ExportsExactly (state : TopNState Label) (stat : BlockedIpStats) : Prop where
  packets : ∀ protocol, state.vectors.packets.lookup (display stat.ip, BlockedProtocol.asStr protocol) =
    some (stat.packetsForProtocol protocol)
  bytes : ∀ protocol, state.vectors.bytes.lookup (display stat.ip, BlockedProtocol.asStr protocol) =
    some (stat.bytesForProtocol protocol)
  totalPackets : state.vectors.totalPackets.lookup (display stat.ip) = some stat.totalPackets
  totalBytes : state.vectors.totalBytes.lookup (display stat.ip) = some stat.totalBytes
  packetSum : (BlockedProtocol.all.map fun protocol =>
    value state.vectors.packets (display stat.ip, protocol.asStr)).sum =
      value state.vectors.totalPackets (display stat.ip)
  byteSum : (BlockedProtocol.all.map fun protocol =>
    value state.vectors.bytes (display stat.ip, protocol.asStr)).sum =
      value state.vectors.totalBytes (display stat.ip)

structure NoneAbove (state : TopNState Label) (stat : BlockedIpStats) : Prop where
  packets : ∀ protocol, value state.vectors.packets (display stat.ip, BlockedProtocol.asStr protocol) ≤
    stat.packetsForProtocol protocol
  bytes : ∀ protocol, value state.vectors.bytes (display stat.ip, BlockedProtocol.asStr protocol) ≤
    stat.bytesForProtocol protocol
  totalPackets : value state.vectors.totalPackets (display stat.ip) ≤ stat.totalPackets
  totalBytes : value state.vectors.totalBytes (display stat.ip) ≤ stat.totalBytes

theorem Consistent.exact_iff (injective : Function.Injective display) {state : TopNState Label}
    (consistent : state.Consistent) (order : HashOrder Label) {stat : BlockedIpStats}
    (best : stat ∈ state.tracker.topNStats) :
    ExportsExactly display (syncToMetrics display order state) stat ↔ NoneAbove display state stat := by
  have tracked := consistent.tracked
  have packets (protocol : BlockedProtocol) :=
    (protocol_family display BlockedIpStats.packetsForProtocol).refreshed_exact_iff order injective tracked
      consistent.packets best (mem_protocolReadings display _ stat protocol)
  have bytes (protocol : BlockedProtocol) :=
    (protocol_family display BlockedIpStats.bytesForProtocol).refreshed_exact_iff order injective tracked
      consistent.bytes best (mem_protocolReadings display _ stat protocol)
  have totalPackets :=
    (total_family display BlockedIpStats.totalPackets).refreshed_exact_iff order injective tracked
      consistent.totalPackets best (List.mem_singleton_self _)
  have totalBytes :=
    (total_family display BlockedIpStats.totalBytes).refreshed_exact_iff order injective tracked
      consistent.totalBytes best (List.mem_singleton_self _)
  simp only [← synchronized_packets] at packets
  simp only [← synchronized_bytes] at bytes
  rw [← synchronized_totalPackets] at totalPackets
  rw [← synchronized_totalBytes] at totalBytes
  constructor
  · intro exact
    exact ⟨fun protocol => (packets protocol).mp (exact.packets protocol),
      fun protocol => (bytes protocol).mp (exact.bytes protocol),
      totalPackets.mp exact.totalPackets, totalBytes.mp exact.totalBytes⟩
  · intro below
    have eachPackets protocol := (packets protocol).mpr (below.packets protocol)
    have eachBytes protocol := (bytes protocol).mpr (below.bytes protocol)
    have allPackets := totalPackets.mpr below.totalPackets
    have allBytes := totalBytes.mpr below.totalBytes
    refine ⟨eachPackets, eachBytes, allPackets, allBytes, ?_, ?_⟩
    · simp only [value, syncToMetrics, eachPackets, allPackets, Option.getD_some]
      exact (tracked.addsUp best).packets
    · simp only [value, syncToMetrics, eachBytes, allBytes, Option.getD_some]
      exact (tracked.addsUp best).bytes

theorem Consistent.sync_packets (injective : Function.Injective display) {state : TopNState Label}
    (consistent : state.Consistent) (order : HashOrder Label) {stat : BlockedIpStats}
    (best : stat ∈ state.tracker.topNStats) (protocol : BlockedProtocol) :
    (syncToMetrics display order state).vectors.packets.lookup (display stat.ip, protocol.asStr) =
      some (higher (value state.vectors.packets (display stat.ip, protocol.asStr))
        (stat.packetsForProtocol protocol)) := by
  have family := protocol_family display BlockedIpStats.packetsForProtocol
  have synced : (syncToMetrics display order state).vectors.packets =
      (refreshed display order state Exports.packets seriesOf
        (protocolReadings display BlockedIpStats.packetsForProtocol)).series :=
    congrArg Channel.series (synchronized_packets display order state)
  rw [synced, (family.refreshed_exposes order consistent.packets).mirrors, family.refreshed_lookup order injective
    consistent.tracked best (mem_protocolReadings display _ stat protocol), ← consistent.packets.mirrors.value]
  rfl

theorem top_n_export_exact_iff (injective : Function.Injective display) (capacity : Nat)
    (criterion : RankingCriterion) (calls : List (TopNCall Label)) :
    StepsMeet (step display) (start capacity criterion)
        (fun state call => ∀ order, call = .syncToMetrics order →
          ∀ stat ∈ (state.step display call).tracker.topNStats, ExportsExactly display (state.step display call) stat)
        calls ↔
      StepsMeet (step display) (start capacity criterion)
        (fun state call => ∀ order, call = .syncToMetrics order →
          ∀ stat ∈ state.tracker.topNStats, NoneAbove display state stat) calls := by
  refine forall_congr' fun done => forall_congr' fun call => forall_congr' fun _ => forall_congr' fun order =>
    forall_congr' fun sync => ?_
  subst sync
  have consistent := consistent_run display capacity criterion done
  exact forall_congr' fun stat => forall_congr' fun best => consistent.exact_iff display injective order best

end Exactness

section Kept

variable {Label : Type} [DecidableEq Label] (display : IpAddr → Label)

def KeepsCounts (state : TopNState Label) : TopNCall Label → Prop
  | .recordEvent ip protocol bytes =>
      ((state.tracker.stats.lookup ip).getD (.new ip)).NoWrap protocol bytes ∧
        ∀ other, display other ∈ state.tracker.currentlyExported → other ∈ state.tracker.stats →
          other ∈ (state.tracker.recordEvent ip protocol bytes).stats
  | .setCriterion _ | .syncToMetrics _ => True

structure Remembered (state : TopNState Label) : Prop where
  below : ∀ ip stat, state.tracker.stats.lookup ip = some stat → NoneAbove display state stat
  tracked : ∀ label ∈ state.tracker.currentlyExported, ∃ ip ∈ state.tracker.stats, display ip = label

variable {display} {state : TopNState Label}

theorem NoneAbove.later {stat later : BlockedIpStats} (below : NoneAbove display state stat) (same : later.ip = stat.ip)
    (grown : stat.AtMost later) : NoneAbove display state later := by
  constructor <;> rw [same]
  · exact fun protocol => BitVec.le_trans (below.packets protocol) (grown.packets protocol)
  · exact fun protocol => BitVec.le_trans (below.bytes protocol) (grown.bytes protocol)
  · exact BitVec.le_trans below.totalPackets grown.totalPackets
  · exact BitVec.le_trans below.totalBytes grown.totalBytes

theorem NoneAbove.frame {other : TopNState Label} {stat : BlockedIpStats} (below : NoneAbove display state stat)
    (vectors : other.vectors = state.vectors) : NoneAbove display other stat := by
  constructor <;> rw [vectors]
  · exact below.packets
  · exact below.bytes
  · exact below.totalPackets
  · exact below.totalBytes

theorem value_absent {L : Type} [DecidableEq L] {counters : Counters L 64} {label : L} (absent : label ∉ counters)
    (count : BitVec 64) : value counters label ≤ count := by
  rw [value, AList.lookup_eq_none.mpr absent]
  exact BitVec.le_def.mpr (Nat.zero_le _)

theorem Consistent.unexported (consistent : state.Consistent) {stat : BlockedIpStats}
    (absent : display stat.ip ∉ state.tracker.currentlyExported) : NoneAbove display state stat := by
  have protocols (name : List Char) : (display stat.ip, name) ∉ protocolSeries state.tracker.currentlyExported := by
    simp [protocolSeries, absent]
  have packets := consistent.packets.series.trans (liveSeries_seriesOf _)
  have bytes := consistent.bytes.series.trans (liveSeries_seriesOf _)
  have totalPackets := consistent.totalPackets.series.trans (liveSeries_singleton _)
  have totalBytes := consistent.totalBytes.series.trans (liveSeries_singleton _)
  refine ⟨fun protocol => value_absent ?_ _, fun protocol => value_absent ?_ _, value_absent ?_ _, value_absent ?_ _⟩
  · exact fun live => protocols _ (packets ▸ (mem_keySet _ _).mpr live)
  · exact fun live => protocols _ (bytes ▸ (mem_keySet _ _).mpr live)
  · exact fun live => absent (totalPackets ▸ (mem_keySet _ _).mpr live)
  · exact fun live => absent (totalBytes ▸ (mem_keySet _ _).mpr live)

theorem Remembered.recordEvent (injective : Function.Injective display) (consistent : state.Consistent)
    (remembered : Remembered display state) {ip : IpAddr} {protocol : BlockedProtocol} {bytes : BitVec 64}
    (keeps : KeepsCounts display state (.recordEvent ip protocol bytes)) :
    Remembered display (state.step display (.recordEvent ip protocol bytes)) := by
  obtain ⟨noWrap, kept⟩ := keeps
  have exported := (recordEvent_exports state.tracker state.vectors ip protocol bytes).2
  constructor
  · intro other stat found
    have tallied : (state.tracker.tally ip protocol bytes).stats.lookup other = some stat := by
      simp only [step, BlockedIpTopN.recordEvent] at found
      split_ifs at found
      · exact (prune_lookup.mp found).1
      · exact found
    have below : NoneAbove display state stat := by
      by_cases own : other = ip
      · subst own
        rw [tally_lookup] at tallied
        obtain rfl := Option.some.inj tallied
        cases held : state.tracker.stats.lookup other with
        | some earlier =>
            rw [held] at noWrap
            exact (remembered.below other earlier held).later (BlockedIpStats.recordPacket_ip _ _ _) noWrap.atMost
        | none =>
            refine consistent.unexported fun live => ?_
            obtain ⟨tracked, present, same⟩ := remembered.tracked _ live
            have here : tracked = other := (injective same).trans (BlockedIpStats.recordPacket_ip _ _ _)
            exact AList.lookup_eq_none.mp held (here ▸ present)
      · rw [tally_lookup_ne own] at tallied
        exact remembered.below other stat tallied
    exact below.frame rfl
  · intro label live
    have before : label ∈ state.tracker.currentlyExported := exported ▸ live
    obtain ⟨other, present, rfl⟩ := remembered.tracked label before
    exact ⟨other, kept other before present, rfl⟩

theorem Remembered.sync (injective : Function.Injective display) (consistent : state.Consistent)
    (remembered : Remembered display state) (order : HashOrder Label) :
    Remembered display (state.step display (.syncToMetrics order)) := by
  constructor
  · intro ip stat found
    have held : state.tracker.stats.lookup ip = some stat := found
    by_cases best : stat ∈ state.tracker.topNStats
    · have exact := (consistent.exact_iff display injective order best).mpr (remembered.below ip stat held)
      have equal {L : Type} [DecidableEq L] {counters : Counters L 64} {label : L} {count : BitVec 64}
          (set : counters.lookup label = some count) : value counters label ≤ count := by
        rw [value, set]
        exact BitVec.le_refl _
      exact ⟨fun protocol => equal (exact.packets protocol), fun protocol => equal (exact.bytes protocol),
        equal exact.totalPackets, equal exact.totalBytes⟩
    · refine (consistent.step display (.syncToMetrics order)).unexported fun live => best ?_
      obtain ⟨other, chosen, same⟩ := (mem_newTopIps display state.tracker _).mp live
      obtain ⟨key, stored⟩ := (mem_values _ _).mp (Ranking.mem_of_mem_top chosen)
      have keyed := consistent.tracked.keyed
      have here : key = ip := by
        rw [← keyed key other stored, ← keyed ip stat held]
        exact injective same
      rw [here, held] at stored
      exact Option.some.inj stored ▸ chosen
  · intro label live
    obtain ⟨stat, chosen, rfl⟩ := (mem_newTopIps display state.tracker label).mp live
    obtain ⟨ip, stored⟩ := (mem_values _ _).mp (Ranking.mem_of_mem_top chosen)
    refine ⟨ip, AList.lookup_isSome.mp (by simp [step, syncToMetrics, stored]), ?_⟩
    rw [consistent.tracked.keyed ip stat stored]

theorem remembered_run (injective : Function.Injective display) (capacity : Nat) (criterion : RankingCriterion)
    {calls : List (TopNCall Label)}
    (kept : StepsMeet (step display) (start capacity criterion) (KeepsCounts display) calls) :
    Remembered display (run (step display) (start capacity criterion) calls) := by
  induction calls using List.reverseRecOn with
  | nil => exact ⟨fun ip stat found => by simp [start, BlockedIpTopN.new] at found, by simp [start, BlockedIpTopN.new]⟩
  | append_singleton calls call ih =>
      rw [stepsMeet_concat] at kept
      have before := ih kept.1
      have consistent := consistent_run display capacity criterion calls
      rw [run_concat]
      cases call with
      | recordEvent ip protocol bytes => exact before.recordEvent injective consistent kept.2
      | setCriterion criterion => exact ⟨fun ip stat found => (before.below ip stat found).frame rfl, before.tracked⟩
      | syncToMetrics order => exact before.sync injective consistent order

theorem noneAbove_of_keeps (injective : Function.Injective display) (capacity : Nat) (criterion : RankingCriterion)
    {calls : List (TopNCall Label)}
    (kept : StepsMeet (step display) (start capacity criterion) (KeepsCounts display) calls) :
    StepsMeet (step display) (start capacity criterion)
      (fun state call => ∀ order, call = .syncToMetrics order →
        ∀ stat ∈ state.tracker.topNStats, NoneAbove display state stat) calls := by
  intro done call inside order _ stat best
  have earlier : done <+: calls := (List.prefix_append _ _).trans inside
  have remembered := @remembered_run _ _ _ injective capacity criterion done
    fun first next within => kept first next (within.trans earlier)
  obtain ⟨ip, stored⟩ := (mem_values _ _).mp (Ranking.mem_of_mem_top best)
  exact remembered.below ip stat stored

omit [DecidableEq Label] in
theorem keepsCounts_of_room {ip : IpAddr} {protocol : BlockedProtocol} {bytes : BitVec 64}
    (noWrap : ((state.tracker.stats.lookup ip).getD (.new ip)).NoWrap protocol bytes)
    (room : (state.tracker.tally ip protocol bytes).trackedCount ≤ state.tracker.maxTrackedIps) :
    KeepsCounts display state (.recordEvent ip protocol bytes) := by
  refine ⟨noWrap, fun other _ present => ?_⟩
  have recorded : state.tracker.recordEvent ip protocol bytes = state.tracker.tally ip protocol bytes :=
    if_neg (Nat.not_lt.mpr room)
  rw [recorded]
  exact AList.mem_insert _ |>.mpr (Or.inr present)

end Kept

section Forgotten

theorem returning_address_exact :
    Function.Injective (id : IpAddr → IpAddr) ∧
      StepsMeet (step id) (start 1 .packets)
        (fun state call => ∀ order, call = .syncToMetrics order →
          ∀ stat ∈ (state.step id call).tracker.topNStats, ExportsExactly id (state.step id call) stat)
        (overtakingCalls (HashOrder.arbitrary IpAddr)) := by
  refine ⟨Function.injective_id, (top_n_export_exact_iff id Function.injective_id 1 .packets _).mpr ?_⟩
  refine noneAbove_of_keeps Function.injective_id 1 .packets ?_
  simp only [overtakingCalls, stepsMeet_cons, stepsMeet_nil, and_true]
  refine ⟨?_, trivial, ?_, ?_, trivial, ?_, ?_, trivial⟩ <;>
    exact keepsCounts_of_room ⟨by decide +kernel, by decide +kernel, by decide +kernel, by decide +kernel⟩
      (by decide +kernel)

def hostAt (index : Nat) : IpAddr := .v4 (BigEndian.toBeBytes (BitVec.ofNat 32 (0x0A000000 + index)))

def crowd (count : Nat) : List IpAddr := (List.range count).map hostAt

theorem hostAt_injOn {first second : Nat} (small : first ≤ 10000) (other : second ≤ 10000)
    (same : hostAt first = hostAt second) : first = second := by
  have octets := congrArg BigEndian.fromBeBytes (IpAddr.v4.inj same)
  rw [BigEndian.fromBeBytes_toBeBytes, BigEndian.fromBeBytes_toBeBytes, ← BitVec.toNat_inj, BitVec.toNat_ofNat,
    BitVec.toNat_ofNat] at octets
  omega

theorem crowd_succ (count : Nat) : crowd (count + 1) = crowd count ++ [hostAt count] := by
  rw [crowd, List.range_succ, List.map_append]
  rfl

theorem crowd_nodup {count : Nat} (small : count ≤ 10001) : (crowd count).Nodup := by
  refine List.Nodup.map_on ?_ List.nodup_range
  intro first listed second other
  rw [List.mem_range] at listed other
  exact hostAt_injOn (by omega) (by omega)

theorem mem_crowd {count index : Nat} (small : count ≤ 10000) (inside : index ≤ 10000) :
    hostAt index ∈ crowd count ↔ index < count := by
  rw [crowd, List.mem_map]
  constructor
  · intro listed
    obtain ⟨other, below, same⟩ := listed
    rw [List.mem_range] at below
    rwa [← hostAt_injOn (by omega) inside same]
  · intro below
    exact ⟨index, List.mem_range.mpr below, rfl⟩

def visitor (ip : IpAddr) : BlockedIpStats := (BlockedIpStats.new ip).recordPacket .tcp 2

def visits (ips : List IpAddr) : List (IpAddr × BlockedIpStats) := ips.map fun ip => (ip, visitor ip)

variable {Label : Type} {tracker : BlockedIpTopN Label}

theorem tally_visitor {ip : IpAddr} (fresh : ip ∉ tracker.stats) :
    tracker.tally ip .tcp 2 = { tracker with stats := tracker.stats.insert ip (visitor ip) } := by
  rw [BlockedIpTopN.tally, AList.lookup_eq_none.mpr fresh]
  rfl

theorem trackedCount_insert {ip : IpAddr} (fresh : ip ∉ tracker.stats) (stat : BlockedIpStats) :
    ({ tracker with stats := tracker.stats.insert ip stat } : BlockedIpTopN Label).trackedCount =
      tracker.trackedCount + 1 := by
  rw [BlockedIpTopN.trackedCount, AList.keys_insert, List.erase_of_not_mem (fresh ∘ AList.mem_keys.mpr)]
  rfl

theorem record_visitors (ips : List IpAddr) (tracker : BlockedIpTopN Label) (distinct : ips.Nodup)
    (fresh : ∀ ip ∈ ips, ip ∉ tracker.stats) (room : tracker.trackedCount + ips.length ≤ tracker.maxTrackedIps) :
    ips.foldl (fun tracker ip => tracker.recordEvent ip .tcp 2) tracker =
        { tracker with stats := insertAll tracker.stats (visits ips) } ∧
      (insertAll tracker.stats (visits ips)).keys.length = tracker.trackedCount + ips.length := by
  induction ips generalizing tracker with
  | nil => exact ⟨rfl, rfl⟩
  | cons ip rest ih =>
      rw [List.nodup_cons] at distinct
      have first := fresh ip List.mem_cons_self
      have counted := trackedCount_insert first (visitor ip)
      have recorded : tracker.recordEvent ip .tcp 2 =
          { tracker with stats := tracker.stats.insert ip (visitor ip) } := by
        rw [BlockedIpTopN.recordEvent, tally_visitor first]
        dsimp only
        rw [counted, if_neg]
        simp only [List.length_cons] at room
        omega
      rw [List.foldl_cons, recorded]
      have later := ih { tracker with stats := tracker.stats.insert ip (visitor ip) } distinct.2
        (by
          intro other listed
          rw [AList.mem_insert, not_or]
          exact ⟨fun same => distinct.1 (same ▸ listed), fresh other (List.mem_cons_of_mem _ listed)⟩)
        (by
          rw [counted, Nat.add_right_comm, Nat.add_assoc]
          exact room)
      rw [counted] at later
      refine ⟨later.1, later.2.trans ?_⟩
      rw [List.length_cons]
      omega

def returning : IpAddr := hostAt 10000

def firstVisit : BlockedIpStats := (BlockedIpStats.new returning).recordPacket .tcp 1

theorem visitor_outranks (ip : IpAddr) : rank .packets (visitor ip) < rank .packets firstVisit := by
  refine Prod.Lex.lt_iff.mpr (Or.inr ⟨rfl, Prod.Lex.lt_iff.mpr (Or.inl ?_)⟩)
  exact (by decide : OrderDual.toDual 2 < OrderDual.toDual 1)

structure Crowded (count : Nat) (stats : Store IpAddr BlockedIpStats) : Prop where
  visiting : ∀ ip ∈ crowd count, stats.lookup ip = some (visitor ip)
  others : ∀ ip stat, stats.lookup ip = some stat → ip ∉ crowd count → stat = firstVisit

variable {count : Nat} (small : count ≤ 10000)

include small

theorem crowded_insertAll : Crowded count (insertAll (AList.singleton returning firstVisit) (visits (crowd count))) := by
  have names : (visits (crowd count)).map Prod.fst = crowd count := by simp [visits, Function.comp_def]
  constructor
  · intro ip listed
    refine lookup_insertAll_nodup _ ?_ (List.mem_map_of_mem listed)
    rw [names]
    exact crowd_nodup (by omega)
  · intro ip stat found unlisted
    rw [lookup_insertAll_absent _ _ _ (by rwa [names])] at found
    have entry := AList.mem_lookup_iff.mp (Option.mem_def.mpr found)
    rw [AList.singleton_entries, List.mem_singleton] at entry
    cases entry
    rfl

theorem Crowded.outranked {stats : Store IpAddr BlockedIpStats} (full : Crowded count stats) :
    count ≤ (values stats).countP fun other => rank .packets other < rank .packets firstVisit := by
  have listed : (crowd count).map visitor ⊆
      (values stats).filter fun other => rank .packets other < rank .packets firstVisit := by
    intro stat member
    obtain ⟨ip, inside, rfl⟩ := List.mem_map.mp member
    rw [List.mem_filter, decide_eq_true_iff]
    exact ⟨(mem_values _ _).mpr ⟨ip, full.visiting ip inside⟩, visitor_outranks ip⟩
  have distinct : ((crowd count).map visitor).Nodup :=
    (crowd_nodup (by omega)).map fun _ _ same => congrArg BlockedIpStats.ip same
  have length := (distinct.subperm listed).length_le
  rw [List.length_map, crowd, List.length_map, List.length_range] at length
  rwa [List.countP_eq_length_filter]

theorem Crowded.prune (criterion : tracker.criterion = .packets) (limit : tracker.maxTrackedIps ≤ count)
    (full : Crowded count tracker.stats) : returning ∉ tracker.pruneLowVolumeEntries.stats := by
  intro kept
  obtain ⟨stat, found⟩ := Option.isSome_iff_exists.mp (AList.lookup_isSome.mpr kept)
  obtain ⟨best, member, same⟩ := List.mem_map.mp (prune_lookup.mp found).2
  obtain ⟨key, stored⟩ := (mem_values _ _).mp (Ranking.mem_of_mem_top member)
  have first : best = firstVisit := by
    by_cases listed : key ∈ crowd count
    · rw [full.visiting key listed] at stored
      obtain rfl := Option.some.inj stored
      have here : returning ∈ crowd count := same ▸ listed
      have below := (mem_crowd small (Nat.le_refl _)).mp here
      omega
    · exact full.others key best stored listed
  rw [first, BlockedIpTopN.best, criterion] at member
  refine Ranking.not_mem_top ?_ member
  exact (Nat.div_le_self _ 2).trans (limit.trans (full.outranked small))

theorem crowded_out (positive : 0 < count) (criterion : tracker.criterion = .packets)
    (limit : tracker.maxTrackedIps = count) (alone : tracker.stats = AList.singleton returning firstVisit) :
    ∃ stats : Store IpAddr BlockedIpStats,
      (crowd count).foldl (fun tracker ip => tracker.recordEvent ip .tcp 2) tracker = { tracker with stats } ∧
        returning ∉ stats ∧ stats.keys.length ≤ count / 2 := by
  obtain ⟨before, rfl⟩ := Nat.exists_eq_add_of_lt positive
  rw [Nat.zero_add] at limit small ⊢
  have single : tracker.trackedCount = 1 := by simp [BlockedIpTopN.trackedCount, alone]
  have fresh : ∀ index < before + 1, hostAt index ∉ tracker.stats := by
    intro index below present
    rw [alone, AList.mem_keys, AList.keys_singleton, List.mem_singleton] at present
    have same := hostAt_injOn (by omega) (Nat.le_refl _) present
    omega
  obtain ⟨filled, length⟩ := record_visitors (crowd before) tracker (crowd_nodup (by omega))
    (by
      intro ip listed
      obtain ⟨index, below, rfl⟩ := List.mem_map.mp listed
      exact fresh index (by rw [List.mem_range] at below; omega))
    (by simp [single, limit, crowd, Nat.add_comm])
  have last : hostAt before ∉ insertAll tracker.stats (visits (crowd before)) := by
    rw [mem_insertAll, not_or]
    refine ⟨?_, fresh before (by omega)⟩
    simpa [visits, Function.comp_def] using
      (@mem_crowd before before (by omega) (by omega)).not.mpr (Nat.lt_irrefl before)
  let filledUp : BlockedIpTopN Label := { tracker with stats := insertAll tracker.stats (visits (crowd before)) }
  let full : BlockedIpTopN Label :=
    { tracker with stats := filledUp.stats.insert (hostAt before) (visitor (hostAt before)) }
  have everyone : Crowded (before + 1) full.stats := by
    have added : full.stats = insertAll (AList.singleton returning firstVisit) (visits (crowd (before + 1))) := by
      rw [crowd_succ]
      simp [full, filledUp, visits, insertAll, alone]
    rw [added]
    exact crowded_insertAll small
  have exceeds : full.trackedCount > full.maxTrackedIps := by
    have counted : full.trackedCount = filledUp.trackedCount + 1 := trackedCount_insert last _
    have filledCount : filledUp.trackedCount = 1 + before := by
      rw [← single]
      exact length.trans (by simp [crowd])
    have limited : full.maxTrackedIps = before + 1 := limit
    omega
  have recorded : filledUp.recordEvent (hostAt before) .tcp 2 = full.pruneLowVolumeEntries := by
    rw [BlockedIpTopN.recordEvent, tally_visitor last]
    exact if_pos exceeds
  refine ⟨full.pruneLowVolumeEntries.stats, ?_, everyone.prune small criterion (Nat.le_of_eq limit), ?_⟩
  · rw [crowd_succ, List.foldl_append, filled, List.foldl_cons, List.foldl_nil]
    exact recorded
  · have pruned := prune_trackedCount full
    have limited : full.maxTrackedIps = before + 1 := limit
    rwa [limited] at pruned

omit small

-- Seen with TCP and exported, pruned in favour of the crowd, seen again with UDP only.
def returningCalls (order : HashOrder IpAddr) : List (TopNCall IpAddr) :=
  [.recordEvent returning .tcp 1, .syncToMetrics order] ++
    (crowd 10000).map (fun ip => .recordEvent ip .tcp 2) ++ [.recordEvent returning .udp 1]

theorem run_visitors (ips : List IpAddr) (state : TopNState IpAddr) :
    run (step id) state (ips.map fun ip => .recordEvent ip .tcp 2) =
      ⟨ips.foldl (fun tracker ip => tracker.recordEvent ip .tcp 2) state.tracker, state.vectors⟩ := by
  induction ips generalizing state with
  | nil => rfl
  | cons ip rest ih => exact ih _

theorem mem_topNStats_of_fits (fits : tracker.trackedCount ≤ tracker.capacity) {ip : IpAddr} {stat : BlockedIpStats}
    (found : tracker.stats.lookup ip = some stat) : stat ∈ tracker.topNStats := by
  refine (Ranking.mem_top_of_length_le ?_ stat).mpr ((mem_values _ _).mpr ⟨ip, found⟩)
  rwa [length_values]

theorem first_tracker :
    (run (step id) (start 10000 .packets : TopNState IpAddr) [.recordEvent returning .tcp 1]).tracker =
      { BlockedIpTopN.new 10000 .packets with stats := AList.singleton returning firstVisit } := rfl

theorem first_export (order : HashOrder IpAddr) :
    value (run (step id) (start 10000 .packets) [.recordEvent returning .tcp 1, .syncToMetrics order]).vectors.packets
      (returning, BlockedProtocol.tcp.asStr) = 1 := by
  have consistent := consistent_run (id : IpAddr → IpAddr) 10000 .packets [.recordEvent returning .tcp 1]
  have found : (AList.singleton returning firstVisit : Store IpAddr BlockedIpStats).lookup returning = some firstVisit := by
    rw [← AList.insert_empty, AList.lookup_insert]
  have best : firstVisit ∈
      (run (step id) (start 10000 .packets : TopNState IpAddr) [.recordEvent returning .tcp 1]).tracker.topNStats := by
    rw [first_tracker]
    exact mem_topNStats_of_fits (by decide) found
  exact congrArg (Option.getD · 0) (consistent.sync_packets id Function.injective_id order best .tcp)

theorem forgotten_counts_exported :
    let order := HashOrder.arbitrary IpAddr
    let final := run (step id) (start 10000 .packets) (returningCalls order ++ [.syncToMetrics order])
    ∃ stat ∈ final.tracker.topNStats, stat.ip = returning ∧ stat.packetsForProtocol .tcp = 0 ∧
      final.vectors.packets.lookup (returning, BlockedProtocol.tcp.asStr) = some 1 := by
  intro order final
  let exported := run (step id) (start 10000 .packets) [.recordEvent returning .tcp 1, .syncToMetrics order]
  have alone : exported.tracker.stats = AList.singleton returning firstVisit := rfl
  obtain ⟨stats, crowdedOut, absent, few⟩ := crowded_out (Nat.le_refl 10000) (by decide) rfl rfl alone
  let second : BlockedIpStats := (BlockedIpStats.new returning).recordPacket .udp 1
  let tracker : BlockedIpTopN IpAddr := { exported.tracker with stats := stats.insert returning second }
  have count : tracker.trackedCount = stats.keys.length + 1 :=
    @trackedCount_insert IpAddr { exported.tracker with stats } returning absent second
  have returned : run (step id) (start 10000 .packets) (returningCalls order) = ⟨tracker, exported.vectors⟩ := by
    rw [returningCalls, run_concat, run_append, run_visitors, crowdedOut, step, BlockedIpTopN.recordEvent,
      BlockedIpTopN.tally, AList.lookup_eq_none.mpr absent]
    refine congrArg (TopNState.mk · exported.vectors) (if_neg ?_)
    change ¬ tracker.trackedCount > 10000
    omega
  have found : tracker.stats.lookup returning = some second := AList.lookup_insert _
  have best : second ∈ tracker.topNStats := by
    refine mem_topNStats_of_fits ?_ found
    change tracker.trackedCount ≤ 10000
    omega
  have consistent := consistent_run (id : IpAddr → IpAddr) 10000 .packets (returningCalls order)
  rw [returned] at consistent
  have synced : final = syncToMetrics id order ⟨tracker, exported.vectors⟩ := by
    rw [← returned]
    exact run_concat _ _ _ _
  rw [synced]
  refine ⟨second, best, rfl, rfl, (consistent.sync_packets id Function.injective_id order best .tcp).trans ?_⟩
  change some (higher (value exported.vectors.packets (returning, BlockedProtocol.tcp.asStr)) 0) = some 1
  rw [first_export order]
  rfl

end Forgotten

end TopNState

end ReputationFirewall.Metrics
