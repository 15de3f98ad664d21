import ReputationFirewall.Metrics.TopNExport

set_option autoImplicit false

namespace ReputationFirewall.Metrics

open KeyedStore NetAddr Runs

section Selection

variable {Label : Type} {tracker : BlockedIpTopN Label}

theorem sortEntries_eq (criterion : RankingCriterion) (entries : List BlockedIpStats) :
    sortEntries criterion entries = Ranking.sorted (rank criterion) entries := by
  have lower (a b : BlockedIpStats) : (compareEntries criterion a b).isLE = decide (rank criterion a ≤ rank criterion b) := by
    rw [compareEntries_eq, Bool.eq_iff_iff, Ordering.isLE_iff_ne_gt, decide_eq_true_iff]
    exact compare_le_iff_le
  simp only [sortEntries, Ranking.sorted, lower]

theorem compareEntries_lt (criterion : RankingCriterion) (a b : BlockedIpStats) :
    compareEntries criterion a b = .lt ↔ rank criterion a < rank criterion b := by
  rw [compareEntries_eq]
  exact compare_lt_iff_lt

theorem BlockedIpTopN.Keyed.readBest_eq (keyed : tracker.Keyed) (order : HashOrder IpAddr) (count : Nat) :
    tracker.readBest order count = tracker.best count := by
  rw [BlockedIpTopN.readBest, sortEntries_eq]
  exact keyed.best_eq (order.iterate_perm tracker.stats) count

structure Selects (tracker : BlockedIpTopN Label) (chosen : List BlockedIpStats) : Prop where
  length : chosen.length = min tracker.capacity tracker.trackedCount
  distinct : (chosen.map BlockedIpStats.ip).Nodup
  tracked : ∀ stat ∈ chosen, tracker.stats.lookup stat.ip = some stat
  ordered : chosen.Pairwise fun better worse => compareEntries tracker.criterion better worse = .lt
  others : ∀ ip stat, tracker.stats.lookup ip = some stat → ip ∉ chosen.map BlockedIpStats.ip →
    ∀ better ∈ chosen, compareEntries tracker.criterion better stat = .lt

theorem BlockedIpTopN.Keyed.selects (keyed : tracker.Keyed) : Selects tracker tracker.topNStats where
  length := by
    rw [BlockedIpTopN.topNStats, BlockedIpTopN.best, Ranking.length_top, length_values, BlockedIpTopN.trackedCount]
  distinct := Ranking.top_map_nodup keyed.ips_nodup
  tracked stat chosen := by
    obtain ⟨ip, found⟩ := (mem_values _ _).mp (Ranking.mem_of_mem_top chosen)
    rwa [keyed ip stat found]
  ordered := by
    simp only [compareEntries_lt]
    exact Ranking.pairwise_top_lt keyed.ranks_nodup
  others ip stat found left better chosen := by
    rw [compareEntries_lt]
    refine Ranking.top_lt_of_not_mem keyed.ranks_nodup ((mem_values _ _).mpr ⟨ip, found⟩) ?_ chosen
    intro member
    exact left (List.mem_map.mpr ⟨stat, member, keyed ip stat found⟩)

theorem top_n_selection (Label : Type) [DecidableEq Label] :
    (∀ (display : IpAddr → Label) capacity criterion calls,
      (run (TopNState.step display) (TopNState.start capacity criterion) calls).tracker.Keyed) ∧
    ∀ tracker : BlockedIpTopN Label, tracker.Keyed → ∀ order : HashOrder IpAddr,
      Selects tracker (tracker.readTopNStats order) ∧
        ∀ other : HashOrder IpAddr, tracker.readTopNStats other = tracker.readTopNStats order := by
  refine ⟨fun display capacity criterion calls => ?_, fun tracker keyed order => ?_⟩
  · exact (TopNState.consistent_run display capacity criterion calls).tracked.keyed
  · have read (order : HashOrder IpAddr) : tracker.readTopNStats order = tracker.topNStats :=
      keyed.readBest_eq order tracker.capacity
    refine ⟨?_, fun other => (read other).trans (read order).symm⟩
    rw [read]
    exact keyed.selects

def tiedCalls : List (TopNCall IpAddr) :=
  [.recordEvent (.v4 (ipv4Octets 198 51 100 9)) .udp 80, .recordEvent (.v4 (ipv4Octets 198 51 100 8)) .tcp 80,
    .recordEvent (.v4 (ipv4Octets 198 51 100 7)) .udp 100, .recordEvent (.v4 (ipv4Octets 198 51 100 6)) .icmp 64]

theorem tied_addresses_selected :
    let tracker := (run (TopNState.step id) (TopNState.start 2 .bytes) tiedCalls).tracker
    let chosen := BlockedIpTopN.readTopNStats (HashOrder.arbitrary IpAddr) tracker
    tracker.trackedCount = 4 ∧ chosen.length = 2 ∧ Selects tracker chosen := by
  intro tracker chosen
  have selects : Selects tracker chosen :=
    ((top_n_selection IpAddr).2 tracker ((top_n_selection IpAddr).1 id 2 .bytes tiedCalls)
      (HashOrder.arbitrary IpAddr)).1
  exact ⟨by decide +kernel, selects.length.trans (by decide +kernel), selects⟩

end Selection

section Pruning

variable {Label : Type} {tracker : BlockedIpTopN Label}

theorem BlockedIpTopN.Keyed.tally (keyed : tracker.Keyed) (ip : IpAddr) (protocol : BlockedProtocol)
    (bytes : BitVec 64) : (tracker.tally ip protocol bytes).Keyed := by
  intro other stat found
  obtain ⟨earlier, -, rfl | held, -, rfl⟩ | kept := tally_cases found
  · exact BlockedIpStats.recordPacket_ip _ _ _
  · rw [BlockedIpStats.recordPacket_ip]
    exact keyed other earlier held
  · exact keyed other stat kept

theorem BlockedIpTopN.Keyed.prune (keyed : tracker.Keyed) : tracker.pruneLowVolumeEntries.Keyed :=
  fun ip stat found => keyed ip stat (prune_lookup.mp found).1

theorem BlockedIpTopN.Keyed.prune_values (keyed : tracker.Keyed) :
    (tracker.best (tracker.maxTrackedIps / 2)).Perm (values tracker.pruneLowVolumeEntries.stats) := by
  have chosen := @Ranking.top_map_nodup _ _ _ (rank tracker.criterion) (tracker.maxTrackedIps / 2) _ _ _ keyed.ips_nodup
  refine (List.perm_ext_iff_of_nodup (List.Nodup.of_map _ chosen)
    (List.Nodup.of_map _ keyed.prune.ips_nodup)).mpr fun stat => ?_
  rw [mem_values]
  constructor
  · intro member
    obtain ⟨ip, found⟩ := (mem_values _ _).mp (Ranking.mem_of_mem_top member)
    exact ⟨ip, prune_lookup.mpr ⟨found, List.mem_map.mpr ⟨stat, member, keyed ip stat found⟩⟩⟩
  · rintro ⟨ip, kept⟩
    obtain ⟨found, listed⟩ := prune_lookup.mp kept
    obtain ⟨other, member, same⟩ := List.mem_map.mp listed
    obtain ⟨own, otherFound⟩ := (mem_values _ _).mp (Ranking.mem_of_mem_top member)
    rw [← keyed own other otherFound, same, found] at otherFound
    rwa [Option.some.inj otherFound]

theorem BlockedIpTopN.Keyed.prune_topNStats (keyed : tracker.Keyed) (fits : tracker.capacity ≤ tracker.maxTrackedIps / 2) :
    tracker.pruneLowVolumeEntries.topNStats = tracker.topNStats := by
  rw [BlockedIpTopN.topNStats, ← keyed.prune.best_eq keyed.prune_values]
  exact Ranking.top_top fits

end Pruning

section Accounting

structure BlockedIpStats.AddsUpExactly (stats : BlockedIpStats) : Prop where
  packets : (BlockedProtocol.all.map fun protocol => (stats.packetsForProtocol protocol).toNat).sum =
    stats.totalPackets.toNat
  bytes : (BlockedProtocol.all.map fun protocol => (stats.bytesForProtocol protocol).toNat).sum =
    stats.totalBytes.toNat

def BlockedIpStats.HasRoom (stats : BlockedIpStats) (bytes : BitVec 64) : Prop :=
  stats.totalPackets.toNat + 1 < 2 ^ 64 ∧ stats.totalBytes.toNat + bytes.toNat < 2 ^ 64

theorem BlockedIpStats.recordPacket_totals {stats : BlockedIpStats} {bytes : BitVec 64} (room : stats.HasRoom bytes)
    (protocol : BlockedProtocol) :
    (stats.recordPacket protocol bytes).totalPackets.toNat = stats.totalPackets.toNat + 1 ∧
      (stats.recordPacket protocol bytes).totalBytes.toNat = stats.totalBytes.toNat + bytes.toNat := by
  have packets : (stats.totalPackets + 1).toNat = stats.totalPackets.toNat + 1 := by
    rw [BitVec.toNat_add]
    exact Nat.mod_eq_of_lt room.1
  have length : (stats.totalBytes + bytes).toNat = stats.totalBytes.toNat + bytes.toNat := by
    rw [BitVec.toNat_add]
    exact Nat.mod_eq_of_lt room.2
  cases protocol <;> exact ⟨packets, length⟩

theorem BlockedIpStats.AddsUpExactly.recordPacket {stats : BlockedIpStats} (addsUp : stats.AddsUpExactly)
    {bytes : BitVec 64} (room : stats.HasRoom bytes) (protocol : BlockedProtocol) :
    (stats.recordPacket protocol bytes).AddsUpExactly := by
  obtain ⟨packets, length⟩ := addsUp
  obtain ⟨totalPackets, totalBytes⟩ := recordPacket_totals room protocol
  obtain ⟨packetRoom, byteRoom⟩ := room
  simp only [BlockedProtocol.all, List.map_cons, List.map_nil, List.sum_cons, List.sum_nil, packetsForProtocol,
    bytesForProtocol] at packets length
  constructor
  · have one : (1 : BitVec 64).toNat = 1 := rfl
    rw [totalPackets]
    cases protocol <;>
      simp only [BlockedProtocol.all, List.map_cons, List.map_nil, List.sum_cons, List.sum_nil, packetsForProtocol,
        BlockedIpStats.recordPacket, BitVec.toNat_add, one] <;> omega
  · rw [totalBytes]
    cases protocol <;>
      simp only [BlockedProtocol.all, List.map_cons, List.map_nil, List.sum_cons, List.sum_nil, bytesForProtocol,
        BlockedIpStats.recordPacket, BitVec.toNat_add] <;> omega

inductive TrackerCall where
  | recordEvent (ip : IpAddr) (protocol : BlockedProtocol) (bytes : BitVec 64)
  | setCriterion (criterion : RankingCriterion)

variable {Label : Type}

namespace BlockedIpTopN

def limited (capacity : Nat) (criterion : RankingCriterion) (maxTrackedIps : Nat) : BlockedIpTopN Label :=
  { new capacity criterion with maxTrackedIps }

def step (tracker : BlockedIpTopN Label) : TrackerCall → BlockedIpTopN Label
  | .recordEvent ip protocol bytes => tracker.recordEvent ip protocol bytes
  | .setCriterion criterion => tracker.setCriterion criterion

def HasRoom (tracker : BlockedIpTopN Label) : TrackerCall → Prop
  | .recordEvent ip _ bytes => ((tracker.stats.lookup ip).getD (.new ip)).HasRoom bytes
  | .setCriterion _ => True

end BlockedIpTopN

def recorded (weight : BitVec 64 → Nat) (ip : IpAddr) : List TrackerCall → Nat
  | [] => 0
  | .recordEvent source _ bytes :: rest => (if source = ip then weight bytes else 0) + recorded weight ip rest
  | .setCriterion _ :: rest => recorded weight ip rest

def recordedPackets (ip : IpAddr) (calls : List TrackerCall) : Nat := recorded (fun _ => 1) ip calls

def recordedBytes (ip : IpAddr) (calls : List TrackerCall) : Nat := recorded BitVec.toNat ip calls

theorem recorded_append (weight : BitVec 64 → Nat) (ip : IpAddr) (first second : List TrackerCall) :
    recorded weight ip (first ++ second) = recorded weight ip first + recorded weight ip second := by
  induction first with
  | nil => exact (Nat.zero_add _).symm
  | cons call rest ih =>
      cases call with
      | recordEvent source protocol bytes => rw [List.cons_append, recorded, recorded, ih, Nat.add_assoc]
      | setCriterion criterion => rw [List.cons_append, recorded, recorded, ih]

structure Accounts (calls : List TrackerCall) (ip : IpAddr) (stat : BlockedIpStats) : Prop where
  own : stat.ip = ip
  addsUp : stat.AddsUpExactly
  packets : stat.totalPackets.toNat ≤ recordedPackets ip calls
  bytes : stat.totalBytes.toNat ≤ recordedBytes ip calls

structure Accounted (calls : List TrackerCall) (tracker : BlockedIpTopN Label) : Prop where
  bounded : tracker.trackedCount ≤ tracker.maxTrackedIps
  stats : ∀ ip stat, tracker.stats.lookup ip = some stat → Accounts calls ip stat

variable {calls : List TrackerCall} {ip : IpAddr} {stat : BlockedIpStats} {tracker : BlockedIpTopN Label}

theorem Accounts.fresh (calls : List TrackerCall) (ip : IpAddr) : Accounts calls ip (.new ip) :=
  ⟨rfl, ⟨rfl, rfl⟩, Nat.zero_le _, Nat.zero_le _⟩

theorem Accounts.later (accounts : Accounts calls ip stat) (more : List TrackerCall) : Accounts (calls ++ more) ip stat where
  own := accounts.own
  addsUp := accounts.addsUp
  packets := by
    rw [recordedPackets, recorded_append]
    exact accounts.packets.trans (Nat.le_add_right _ _)
  bytes := by
    rw [recordedBytes, recorded_append]
    exact accounts.bytes.trans (Nat.le_add_right _ _)

theorem Accounts.recordPacket (accounts : Accounts calls ip stat) {bytes : BitVec 64} (room : stat.HasRoom bytes)
    (protocol : BlockedProtocol) :
    Accounts (calls ++ [.recordEvent ip protocol bytes]) ip (stat.recordPacket protocol bytes) := by
  obtain ⟨totalPackets, totalBytes⟩ := BlockedIpStats.recordPacket_totals room protocol
  obtain ⟨own, addsUp, packets, length⟩ := accounts
  refine ⟨(BlockedIpStats.recordPacket_ip _ _ _).trans own, addsUp.recordPacket room protocol, ?_, ?_⟩
  · rw [totalPackets, recordedPackets, recorded_append, recorded, if_pos rfl]
    exact Nat.add_le_add_right packets 1
  · rw [totalBytes, recordedBytes, recorded_append, recorded, if_pos rfl]
    exact Nat.add_le_add_right length bytes.toNat

theorem Accounted.keyed (accounted : Accounted calls tracker) : tracker.Keyed :=
  fun ip stat found => (accounted.stats ip stat found).own

theorem Accounted.tally (accounted : Accounted calls tracker) {protocol : BlockedProtocol} {bytes : BitVec 64}
    (room : tracker.HasRoom (.recordEvent ip protocol bytes)) {other : IpAddr} {stat : BlockedIpStats}
    (found : (tracker.tally ip protocol bytes).stats.lookup other = some stat) :
    Accounts (calls ++ [.recordEvent ip protocol bytes]) other stat := by
  obtain ⟨earlier, current, origin, rfl, rfl⟩ | kept := tally_cases found
  · have before : Accounts calls other earlier := by
      obtain rfl | held := origin
      · exact .fresh calls other
      · exact accounted.stats other earlier held
    exact before.recordPacket (current ▸ room) protocol
  · exact (accounted.stats other stat kept).later _

theorem Accounted.step (accounted : Accounted calls tracker) {call : TrackerCall} (room : tracker.HasRoom call) :
    Accounted (calls ++ [call]) (tracker.step call) := by
  cases call with
  | setCriterion criterion =>
      exact ⟨accounted.bounded, fun ip stat found => (accounted.stats ip stat found).later _⟩
  | recordEvent ip protocol bytes =>
      rw [BlockedIpTopN.step, BlockedIpTopN.recordEvent]
      split_ifs with full
      · exact ⟨(prune_trackedCount _).trans (Nat.div_le_self _ _),
          fun other stat found => accounted.tally room (prune_lookup.mp found).1⟩
      · exact ⟨Nat.le_of_not_lt full, fun other stat found => accounted.tally room found⟩

theorem step_fixed (tracker : BlockedIpTopN Label) (call : TrackerCall) :
    (tracker.step call).capacity = tracker.capacity ∧ (tracker.step call).maxTrackedIps = tracker.maxTrackedIps := by
  cases call with
  | setCriterion criterion => exact ⟨rfl, rfl⟩
  | recordEvent ip protocol bytes =>
      rw [BlockedIpTopN.step, BlockedIpTopN.recordEvent]
      split_ifs <;> exact ⟨rfl, rfl⟩

variable (Label) in
def trackerAfter (capacity : Nat) (criterion : RankingCriterion) (maxTrackedIps : Nat) (calls : List TrackerCall) :
    BlockedIpTopN Label :=
  run BlockedIpTopN.step (.limited capacity criterion maxTrackedIps) calls

variable {capacity : Nat} {criterion : RankingCriterion} {maxTrackedIps : Nat}

theorem trackerAfter_fixed (calls : List TrackerCall) :
    (trackerAfter Label capacity criterion maxTrackedIps calls).capacity = capacity ∧
      (trackerAfter Label capacity criterion maxTrackedIps calls).maxTrackedIps = maxTrackedIps := by
  refine run_invariant BlockedIpTopN.step
    (fun tracker => tracker.capacity = capacity ∧ tracker.maxTrackedIps = maxTrackedIps) _ ⟨rfl, rfl⟩ ?_ calls
  intro tracker call fixed
  rwa [(step_fixed tracker call).1, (step_fixed tracker call).2]

theorem trackerAfter_accounted
    (room : StepsMeet BlockedIpTopN.step (.limited capacity criterion maxTrackedIps : BlockedIpTopN Label)
      BlockedIpTopN.HasRoom calls) :
    Accounted calls (trackerAfter Label capacity criterion maxTrackedIps calls) := by
  induction calls using List.reverseRecOn with
  | nil =>
      refine ⟨Nat.zero_le _, fun ip stat found => ?_⟩
      rw [trackerAfter, run_nil, BlockedIpTopN.limited, BlockedIpTopN.new, AList.lookup_empty] at found
      exact absurd found (Option.some_ne_none stat).symm
  | append_singleton calls call ih =>
      rw [stepsMeet_concat] at room
      rw [trackerAfter, run_concat]
      exact (ih room.1).step room.2

theorem bounded_tracking
    (room : StepsMeet BlockedIpTopN.step (.limited capacity criterion maxTrackedIps : BlockedIpTopN Label)
      BlockedIpTopN.HasRoom calls) :
    (∀ done, done <+: calls →
      (trackerAfter Label capacity criterion maxTrackedIps done).trackedCount ≤ maxTrackedIps ∧
      ∀ ip stat, (trackerAfter Label capacity criterion maxTrackedIps done).stats.lookup ip = some stat →
        stat.AddsUpExactly ∧ stat.totalPackets.toNat ≤ recordedPackets ip done ∧
          stat.totalBytes.toNat ≤ recordedBytes ip done) ∧
    ∀ done ip protocol bytes, done ++ [.recordEvent ip protocol bytes] <+: calls → capacity ≤ maxTrackedIps / 2 →
      ∀ full, full = (trackerAfter Label capacity criterion maxTrackedIps done).tally ip protocol bytes →
        full.trackedCount > maxTrackedIps →
          trackerAfter Label capacity criterion maxTrackedIps (done ++ [.recordEvent ip protocol bytes]) =
              full.pruneLowVolumeEntries ∧
            ∀ order later : HashOrder IpAddr,
              full.pruneLowVolumeEntries.readTopNStats later = full.readTopNStats order := by
  have accounted done (inside : done <+: calls) : Accounted done (trackerAfter Label capacity criterion maxTrackedIps done) :=
    trackerAfter_accounted fun first call earlier => room first call (earlier.trans inside)
  constructor
  · intro done inside
    obtain ⟨bounded, stats⟩ := accounted done inside
    rw [(trackerAfter_fixed done).2] at bounded
    exact ⟨bounded, fun ip stat found => ⟨(stats ip stat found).addsUp, (stats ip stat found).packets,
      (stats ip stat found).bytes⟩⟩
  · intro done ip protocol bytes inside fits full tallied exceeds
    obtain ⟨sameCapacity, sameLimit⟩ := @trackerAfter_fixed Label capacity criterion maxTrackedIps done
    have keyed : full.Keyed := by
      rw [tallied]
      exact (accounted done ((List.prefix_append _ _).trans inside)).keyed.tally ip protocol bytes
    constructor
    · rw [trackerAfter, run_concat, BlockedIpTopN.step, BlockedIpTopN.recordEvent, ← trackerAfter, ← tallied]
      have limit : full.maxTrackedIps = maxTrackedIps := by rw [tallied]; exact sameLimit
      rw [if_pos (by rwa [limit])]
    · intro order later
      rw [BlockedIpTopN.readTopNStats, BlockedIpTopN.readTopNStats, keyed.prune.readBest_eq, keyed.readBest_eq]
      refine keyed.prune_topNStats ?_
      rw [tallied]
      exact sameCapacity.trans_le (fits.trans_eq (congrArg (· / 2) sameLimit.symm))

def threeAddresses : List TrackerCall :=
  [.recordEvent (.v4 (ipv4Octets 198 51 100 1)) .udp 80, .recordEvent (.v4 (ipv4Octets 198 51 100 2)) .icmp 64,
    .recordEvent (.v4 (ipv4Octets 198 51 100 3)) .tcp 60]

theorem third_address_prunes :
    (trackerAfter Unit 1 .packets 2 threeAddresses).trackedCount ≤ 2 ∧
      trackerAfter Unit 1 .packets 2 threeAddresses =
        ((trackerAfter Unit 1 .packets 2 (threeAddresses.take 2)).tally (.v4 (ipv4Octets 198 51 100 3)) .tcp
          60).pruneLowVolumeEntries := by
  have room : StepsMeet BlockedIpTopN.step (.limited 1 .packets 2 : BlockedIpTopN Unit) BlockedIpTopN.HasRoom threeAddresses := by
    simp only [threeAddresses, stepsMeet_cons, stepsMeet_nil, and_true]
    exact ⟨⟨by decide +kernel, by decide +kernel⟩, ⟨by decide +kernel, by decide +kernel⟩, by decide +kernel,
      by decide +kernel⟩
  obtain ⟨bounded, pruned⟩ := @bounded_tracking Unit threeAddresses 1 .packets 2 room
  refine ⟨(bounded threeAddresses (List.prefix_refl _)).1, ?_⟩
  exact (pruned (threeAddresses.take 2) _ _ _ (List.prefix_refl _) (Nat.le_refl 1) _ rfl (by decide +kernel)).1

end Accounting

end ReputationFirewall.Metrics
