import ReputationFirewall.Firehol.RuleCounts
import ReputationFirewall.Firehol.Scheduler
import ReputationFirewall.Maps.SharedKeys

set_option autoImplicit false

namespace ReputationFirewall.Metrics

open BigEndian Firehol KeyedStore Maps Runs

section Model

structure MapGauges where
  mapEntries : MapKind → Int
  rulesActive : MapKind → Int
  rulesTotal : Int

def MapGauges.zero : MapGauges := ⟨fun _ => 0, fun _ => 0, 0⟩

def total (sizes : MapKind → Nat) : Nat :=
  sizes .ipv4Exact + sizes .ipv6Exact + sizes .ipv4Lpm + sizes .ipv6Lpm

-- The sizes of collections in memory fit the `i64` of a gauge.
def MapGauges.updateMapEntries (sizes : MapKind → Nat) : MapGauges where
  mapEntries kind := sizes kind
  rulesActive kind := sizes kind
  rulesTotal := total sizes

def totalKeys (manager : MapManager) (kind : MapKind) : Nat := (keySet (manager.slot kind).map).card

structure GaugeState where
  sync : SyncState
  gauges : MapGauges

def GaugeState.start : GaugeState := ⟨⟨.new, some .new, ⟨0, 0, 0⟩⟩, .zero⟩

-- Either call holds the lock on the maps from its first write to its publication.
inductive GaugeCall (Checkout Execution : Type) where
  | static (hashing : Hashing) (rules : ParsedRuleSet)
  | firehol (env : SyncEnvironment Checkout Execution) (isStartup locked : Bool)

variable {Checkout Execution : Type} (parse : Checkout → Execution → Except (List Char) ImportedDataSet)

namespace GaugeState

def loadStatic (state : GaugeState) (hashing : Hashing) (rules : ParsedRuleSet) : GaugeState :=
  match state.sync.manager with
  | none => state
  | some manager =>
      let manager := (syncRules hashing allSucceed manager rules).1
      ⟨{ state.sync with manager := some manager }, .updateMapEntries (totalKeys manager)⟩

def execute (state : GaugeState) (env : SyncEnvironment Checkout Execution) (isStartup locked : Bool) :
    Except FirewallError FireholSyncOutcome × SyncState :=
  executeFireholSync parse { env with ok := allSucceed } isStartup locked state.sync

def gaugesAfter (gauges : MapGauges) : Except FirewallError FireholSyncOutcome → MapGauges
  | .ok (.updated report) => .updateMapEntries report.countOf
  | .ok (.upToDate _) | .ok .skippedAlreadyRunning | .error _ => gauges

def loadFirehol (state : GaugeState) (env : SyncEnvironment Checkout Execution) (isStartup locked : Bool) :
    GaugeState :=
  let (result, sync) := state.execute parse env isStartup locked
  ⟨sync, gaugesAfter state.gauges result⟩

def step (state : GaugeState) : GaugeCall Checkout Execution → GaugeState
  | .static hashing rules => state.loadStatic hashing rules
  | .firehol env isStartup locked => state.loadFirehol parse env isStartup locked

end GaugeState

end Model

section Truth

variable {Checkout Execution : Type} (parse : Checkout → Execution → Except (List Char) ImportedDataSet)

def MapGauges.Shows (gauges : MapGauges) (sizes : MapKind → Nat) : Prop :=
  (∀ kind, gauges.mapEntries kind = sizes kind) ∧ gauges.rulesTotal = total sizes

namespace GaugeState

def GaugesTrue (state : GaugeState) : Prop :=
  ∀ manager ∈ state.sync.manager, state.gauges.Shows (totalKeys manager)

def Succeeds (state : GaugeState) : GaugeCall Checkout Execution → Prop
  | .static _ _ => True
  | .firehol env isStartup locked => ∃ outcome, (state.execute parse env isStartup locked).1 = .ok outcome ∧
      outcome ≠ .skippedAlreadyRunning

def TrueAfterSuccess (state : GaugeState) (call : GaugeCall Checkout Execution) : Prop :=
  state.Succeeds parse call → (state.step parse call).GaugesTrue

end GaugeState

structure LoadsEntries (env : SyncEnvironment Checkout Execution) (isStartup : Bool) (state : SyncState)
    (status : SyncStatus) (dataset : ImportedDataSet) (entries : List FireholEntry) : Prop where
  synchronized : env.git = .ok status
  changed : state.skips status isStartup = false
  parsed : parse env.checkout env.execution = .ok dataset
  nonempty : dataset.isEmpty = false
  visited : dataset.visitEntries = .ok entries
  cleared : (if dataset.storedEntries.isSome then env.clearFault else none) = none

def Unnoticed (dataset : ImportedDataSet) (entries : List FireholEntry) : Prop :=
  dataset.registry.isEmpty = false ∧ ∀ entry ∈ entries, entry.target.isInfrastructure = true

structure SizesAgree (manager : MapManager) (dataset : ImportedDataSet) (entries : List FireholEntry) : Prop where
  unnoticed : Unnoticed dataset entries → ∀ kind key, key ∈ (manager.slot kind).map → key ∉ (manager.slot kind).firehol
  noticed : ¬ Unnoticed dataset entries → ∀ kind key, key ∈ (manager.slot kind).map → key ∉ (manager.slot kind).firehol →
    ∃ entry ∈ entries, entry.target.place = some ⟨kind, key⟩

def GaugeState.KeepsSizes (state : GaugeState) : GaugeCall Checkout Execution → Prop
  | .static _ _ => True
  | .firehol env isStartup locked => isStartup = true ∨ locked = false → ∀ manager ∈ state.sync.manager,
      ∀ status dataset entries, LoadsEntries parse env isStartup state.sync status dataset entries →
        SizesAgree manager dataset entries

end Truth

section Sizes

theorem MapGauges.updateMapEntries_shows (sizes : MapKind → Nat) : (updateMapEntries sizes).Shows sizes :=
  ⟨fun _ => rfl, rfl⟩

theorem MapGauges.Shows.shows_iff {gauges : MapGauges} {sizes : MapKind → Nat} (shows : gauges.Shows sizes)
    (others : MapKind → Nat) : gauges.Shows others ↔ ∀ kind, sizes kind = others kind := by
  constructor
  · intro same kind
    exact Int.ofNat.inj ((shows.1 kind).symm.trans (same.1 kind))
  · intro same
    obtain rfl : sizes = others := funext same
    exact shows

variable (hashing : Hashing) (manager : MapManager) (rules : ParsedRuleSet) (kind : MapKind)

theorem keySet_syncFireholRules :
    keySet ((syncFireholRules hashing allSucceed manager rules).1.slot kind).map =
      rules.keys kind ∪ (keySet (manager.slot kind).map \ (manager.slot kind).firehol) := by
  ext key
  simp [mem_syncFireholRules]

theorem keySet_syncRules :
    keySet ((syncRules hashing allSucceed manager rules).1.slot kind).map =
      rules.keys kind ∪ (keySet (manager.slot kind).map ∩ (manager.slot kind).firehol) := by
  ext key
  simp [mem_syncRules]

theorem card_eq_card_iff_of_subset {K : Type} {inner outer : Finset K} (within : inner ⊆ outer) :
    inner.card = outer.card ↔ inner = outer :=
  (Finset.card_le_card within).ge_iff_eq.symm.trans (Finset.eq_iff_card_le_of_subset within)

theorem card_keys_eq_totalKeys_iff :
    (rules.keys kind).card = totalKeys (syncFireholRules hashing allSucceed manager rules).1 kind ↔
      ∀ key, key ∈ (manager.slot kind).map → key ∉ (manager.slot kind).firehol → key ∈ rules.keys kind := by
  rw [totalKeys, keySet_syncFireholRules, card_eq_card_iff_of_subset Finset.subset_union_left, eq_comm,
    Finset.union_eq_left]
  simp [Finset.subset_iff]

variable {rules}

theorem totalKeys_eq_totalKeys_iff (empty : rules.keys kind = ∅) :
    totalKeys manager kind = totalKeys (syncFireholRules hashing allSucceed manager rules).1 kind ↔
      ∀ key, key ∈ (manager.slot kind).map → key ∉ (manager.slot kind).firehol := by
  rw [totalKeys, totalKeys, keySet_syncFireholRules, empty, Finset.empty_union, eq_comm,
    card_eq_card_iff_of_subset Finset.sdiff_subset, Finset.sdiff_eq_self_iff_disjoint, Finset.disjoint_left]
  simp

end Sizes

section Loads

section Maps

variable (sync : SyncState) (hashing : Hashing) (ok : Outcomes) (rules : ParsedRuleSet) (report : FireholSyncReport)

theorem loadIntoMaps_countOf : (sync.loadIntoMaps hashing ok rules report).1.countOf = report.countOf := by
  unfold SyncState.loadIntoMaps
  cases sync.manager <;> rfl

theorem loadIntoMaps_manager : (sync.loadIntoMaps hashing ok rules report).2.manager =
    sync.manager.map fun manager => (syncFireholRules hashing ok manager rules).1 := by
  unfold SyncState.loadIntoMaps
  cases managed : sync.manager with
  | none => exact managed
  | some manager => rfl

end Maps

variable {Checkout Execution : Type} {parse : Checkout → Execution → Except (List Char) ImportedDataSet}
  {env : SyncEnvironment Checkout Execution} {isStartup locked : Bool} {status : SyncStatus}
  {dataset : ImportedDataSet} {entries : List FireholEntry}

theorem LoadsEntries.prepares {state : SyncState}
    (loads : LoadsEntries parse env isStartup state status dataset entries) :
    Prepares parse { env with ok := allSucceed } isStartup state status dataset (prepareEntries entries).1
      (prepareEntries entries).2 where
  synchronized := loads.synchronized
  changed := loads.changed
  parsed := loads.parsed
  nonempty := loads.nonempty
  prepared := by simp only [tryPrepareRules, loads.visited]
  cleared := loads.cleared

theorem Unnoticed.keys_empty (unnoticed : Unnoticed dataset entries) (kind : MapKind) :
    (prepareEntries entries).1.keys kind = ∅ := by
  have none := (prepareEntries_total_eq_zero_iff entries).mpr unnoticed.2
  rw [← Finset.card_eq_zero, ← prepareEntries_countOf]
  unfold FireholSyncReport.totalRules at none
  cases kind <;> simp only [FireholSyncReport.countOf] <;> omega

namespace GaugeState

variable {state : GaugeState} {manager : MapManager}

theorem loadStatic_true (state : GaugeState) (hashing : Hashing) (rules : ParsedRuleSet) (before : state.GaugesTrue) :
    (state.loadStatic hashing rules).GaugesTrue := by
  unfold loadStatic
  cases state.sync.manager with
  | none => exact before
  | some manager =>
      intro after same
      obtain rfl := Option.mem_some.mp same
      exact MapGauges.updateMapEntries_shows _

theorem loadFirehol_loads (free : isStartup = true ∨ locked = false)
    (loads : LoadsEntries parse env isStartup state.sync status dataset entries) :
    (state.loadFirehol parse env isStartup locked).sync.manager = state.sync.manager.map (fun manager =>
        (syncFireholRules env.hashing allSucceed manager (prepareEntries entries).1).1) ∧
      (Unnoticed dataset entries → (state.loadFirehol parse env isStartup locked).gauges = state.gauges) ∧
      (¬ Unnoticed dataset entries → (state.loadFirehol parse env isStartup locked).gauges =
        .updateMapEntries (prepareEntries entries).2.countOf) := by
  simp only [loadFirehol, execute, executeFireholSync_free parse free, sync_loaded loads.prepares, outcomeOf_state]
  have manager := loadIntoMaps_manager state.sync.startImport env.hashing allSucceed (prepareEntries entries).1
    (prepareEntries entries).2
  have counts := loadIntoMaps_countOf state.sync.startImport env.hashing allSucceed (prepareEntries entries).1
    (prepareEntries entries).2
  have rules := loadIntoMaps_totalRules state.sync.startImport env.hashing allSucceed (prepareEntries entries).1
    (prepareEntries entries).2
  generalize state.sync.startImport.loadIntoMaps env.hashing allSucceed (prepareEntries entries).1
    (prepareEntries entries).2 = loaded at manager counts rules ⊢
  have read : loaded.1.totalRules = 0 ∧
      (loaded.2.publish dataset.clearEntries status).blocklist.hasActiveRules = true ↔ Unnoticed dataset entries := by
    rw [rules, prepareEntries_total_eq_zero_iff, publish_hasActiveRules, Bool.not_eq_true', and_comm, Unnoticed]
  refine ⟨manager, fun unnoticed => ?_, fun noticed => ?_⟩
  · rw [outcomeOf, if_pos (read.mpr unnoticed)]
    rfl
  · rw [outcomeOf, if_neg (mt read.mp noticed), ← counts]
    rfl

theorem loadFirehol_true_iff (before : state.GaugesTrue) (free : isStartup = true ∨ locked = false)
    (managed : state.sync.manager = some manager)
    (loads : LoadsEntries parse env isStartup state.sync status dataset entries) :
    (state.loadFirehol parse env isStartup locked).GaugesTrue ↔ SizesAgree manager dataset entries := by
  obtain ⟨after, unnoticed, noticed⟩ := loadFirehol_loads free loads
  simp only [GaugesTrue, after, managed, Option.map_some, Option.mem_some_iff, forall_eq']
  by_cases quiet : Unnoticed dataset entries
  · rw [unnoticed quiet, (before manager managed).shows_iff]
    simp only [totalKeys_eq_totalKeys_iff _ _ _ (quiet.keys_empty _)]
    exact ⟨fun unowned => ⟨fun _ => unowned, fun loud => absurd quiet loud⟩, fun agree => agree.unnoticed quiet⟩
  · rw [noticed quiet, (MapGauges.updateMapEntries_shows _).shows_iff]
    simp only [prepareEntries_countOf, card_keys_eq_totalKeys_iff, prepareEntries_keys]
    exact ⟨fun listed => ⟨fun silent => absurd silent quiet, fun _ => listed⟩, fun agree => agree.noticed quiet⟩

theorem loadFirehol_unloaded
    (unloaded : ¬ ((isStartup = true ∨ locked = false) ∧
      ∃ status dataset entries, LoadsEntries parse env isStartup state.sync status dataset entries)) :
    (state.loadFirehol parse env isStartup locked).sync.manager = state.sync.manager ∧
      (state.loadFirehol parse env isStartup locked).gauges = state.gauges := by
  by_cases free : isStartup = true ∨ locked = false
  · simp only [loadFirehol, execute, executeFireholSync_free parse free, outcomeOf_state]
    have case := sync_cases parse { env with ok := allSucceed } isStartup state.sync
    generalize synchronizeAndLoadInternal parse { env with ok := allSucceed } isStartup state.sync = result at case ⊢
    cases case with
    | unreachable reason unreached => exact ⟨rfl, rfl⟩
    | failed error status synchronized changed => exact ⟨rfl, rfl⟩
    | skipped status synchronized unchanged =>
        have active : state.sync.blocklist.hasActiveRules = true := by
          unfold SyncState.skips at unchanged
          cases status <;> simp_all
        rw [outcomeOf, if_pos ⟨rfl, active⟩]
        exact ⟨rfl, rfl⟩
    | loaded status dataset rules draft prepares =>
        obtain ⟨entries, visited, _, _⟩ := tryPrepareRules_ok prepares.prepared
        exact absurd ⟨free, status, dataset, entries, prepares.synchronized, prepares.changed, prepares.parsed,
          prepares.nonempty, visited, prepares.cleared⟩ unloaded
  · have busy : isStartup = false ∧ locked = true := by simpa using free
    simp [loadFirehol, execute, executeFireholSync, busy, gaugesAfter]

theorem step_true_iff (call : GaugeCall Checkout Execution) (before : state.GaugesTrue) :
    (state.step parse call).GaugesTrue ↔ state.KeepsSizes parse call := by
  cases call with
  | static hashing rules => exact iff_of_true (state.loadStatic_true hashing rules before) trivial
  | firehol env isStartup locked =>
      constructor
      · intro after free manager managed status dataset entries loads
        exact (loadFirehol_true_iff before free managed loads).mp after
      · intro keeps
        by_cases loaded : (isStartup = true ∨ locked = false) ∧
            ∃ status dataset entries, LoadsEntries parse env isStartup state.sync status dataset entries
        · obtain ⟨free, status, dataset, entries, loads⟩ := loaded
          cases managed : state.sync.manager with
          | none => simp [GaugesTrue, step, (loadFirehol_loads free loads).1, managed]
          | some manager =>
              exact (loadFirehol_true_iff before free managed loads).mpr
                (keeps free manager managed status dataset entries loads)
        · obtain ⟨manager, gauges⟩ := @loadFirehol_unloaded _ _ parse env isStartup locked state loaded
          simp only [GaugesTrue, step, manager, gauges]
          exact before

theorem loads_succeeds (free : isStartup = true ∨ locked = false)
    (loads : LoadsEntries parse env isStartup state.sync status dataset entries) :
    state.Succeeds parse (.firehol env isStartup locked) := by
  simp only [Succeeds, execute, executeFireholSync_free parse free, sync_loaded loads.prepares, outcomeOf]
  split_ifs
  · exact ⟨_, rfl, FireholSyncOutcome.noConfusion⟩
  · exact ⟨_, rfl, FireholSyncOutcome.noConfusion⟩

theorem step_true_of_failure (call : GaugeCall Checkout Execution) (before : state.GaugesTrue)
    (failed : ¬ state.Succeeds parse call) : (state.step parse call).GaugesTrue := by
  cases call with
  | static hashing rules => exact absurd trivial failed
  | firehol env isStartup locked =>
      rw [step_true_iff _ before]
      intro free manager managed status dataset entries loads
      exact absurd (loads_succeeds free loads) failed

theorem start_true : start.GaugesTrue := by
  intro manager same
  obtain rfl := Option.mem_some.mp same
  refine ⟨fun kind => ?_, rfl⟩
  cases kind <;> rfl

theorem map_gauges_true_iff (parse : Checkout → Execution → Except (List Char) ImportedDataSet)
    (calls : List (GaugeCall Checkout Execution)) :
    StepsMeet (step parse) start (TrueAfterSuccess parse) calls ↔ StepsMeet (step parse) start (KeepsSizes parse) calls := by
  rw [← holdsThroughout_iff_stepsMeet (step parse) start (fun _ => True) GaugesTrue (KeepsSizes parse) trivial
    (fun _ _ _ => trivial) start_true (fun state call _ before => step_true_iff call before)]
  constructor
  · intro meets done within
    have earlier : StepsMeet (step parse) start (TrueAfterSuccess parse) done :=
      fun before call last => meets before call (last.trans within)
    refine earlier.run_invariant GaugesTrue start_true fun state call before after => ?_
    by_cases succeeded : state.Succeeds parse call
    · exact after succeeded
    · exact step_true_of_failure call before succeeded
  · intro holds done call within _
    have after := holds (done ++ [call]) within
    rwa [run_concat] at after

theorem static_rule_uncounted :
    let before := start.loadStatic .arbitrary (oneAddress #v[192, 0, 2, 1] staticRuleBase)
    let env := hostEnvironment (.cloned "e69de29".toList 1) #v[198, 51, 100, 7]
    let after := before.loadFirehol parseHost env false false
    before.Succeeds parseHost (.firehol env false false) ∧ after.gauges.mapEntries .ipv4Exact = 1 ∧
      ∃ manager, after.sync.manager = some manager ∧ totalKeys manager .ipv4Exact = 2 := by
  intro before env after
  have loads : LoadsEntries parseHost env false before.sync (.cloned "e69de29".toList 1)
      (hostDataset #v[198, 51, 100, 7]) [⟨.exactV4 #v[198, 51, 100, 7], 1, 1, 1⟩] := ⟨rfl, rfl, rfl, rfl, rfl, rfl⟩
  obtain ⟨manager, _, noticed⟩ := loadFirehol_loads (Or.inr rfl) loads
  have rule : ¬ Unnoticed (hostDataset #v[198, 51, 100, 7]) [⟨.exactV4 #v[198, 51, 100, 7], 1, 1, 1⟩] :=
    fun unnoticed => absurd (unnoticed.2 _ (List.mem_singleton_self _)) (by decide)
  have two : totalKeys (syncFireholRules .arbitrary allSucceed
      (syncRules .arbitrary allSucceed .new (oneAddress #v[192, 0, 2, 1] staticRuleBase)).1
      (hostRules #v[198, 51, 100, 7]).1).1 .ipv4Exact = 2 := by
    rw [totalKeys, keySet_syncFireholRules, keySet_syncRules, syncRules_firehol]
    decide
  refine ⟨loads_succeeds (Or.inr rfl) loads, ?_, _, manager, two⟩
  rw [noticed rule]
  decide

end GaugeState

end Loads

end ReputationFirewall.Metrics
