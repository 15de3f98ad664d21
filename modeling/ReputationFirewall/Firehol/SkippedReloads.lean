import ReputationFirewall.Firehol.Scheduler

set_option autoImplicit false

namespace ReputationFirewall.Firehol

open BigEndian KeyedStore Maps Runs

section Model

structure SyncAttempt (Execution : Type) where
  isStartup : Bool
  git : Except (List Char) SyncStatus
  execution : Execution
  clearFault : Option FirewallError
  hashing : Hashing

variable {Checkout Execution : Type} (content : List Char → Checkout)
  (parse : Checkout → Execution → Except (List Char) ImportedDataSet)

namespace SyncAttempt

def Reports (attempt : SyncAttempt Execution) (commit : List Char) : Prop :=
  ∃ status, attempt.git = .ok status ∧ status.commitOid = commit

-- The checkout holds the commit that git reports, and the maps take every insert.
def environment (attempt : SyncAttempt Execution) : SyncEnvironment Checkout Execution where
  git := attempt.git
  checkout := content (match attempt.git with
    | .ok status => status.commitOid
    | .error _ => [])
  execution := attempt.execution
  clearFault := attempt.clearFault
  hashing := attempt.hashing
  ok := allSucceed

def sync (state : SyncState) (attempt : SyncAttempt Execution) :
    Except FirewallError FireholSyncReport × SyncState :=
  synchronizeAndLoadInternal parse (attempt.environment content) attempt.isStartup state

def step (state : SyncState) (attempt : SyncAttempt Execution) : SyncState := (attempt.sync content parse state).2

def Succeeds (state : SyncState) (attempt : SyncAttempt Execution) : Prop :=
  ∃ report, (attempt.sync content parse state).1 = .ok report

def Imports (state : SyncState) (attempt : SyncAttempt Execution) : Prop :=
  (attempt.step content parse state).effects.imports = state.effects.imports + 1

end SyncAttempt

def SyncState.initial (manager : MapManager) : SyncState := ⟨.new, some manager, ⟨0, 0, 0⟩⟩

def SyncState.BuiltFrom (state : SyncState) (commit : List Char) : Prop :=
  ∃ execution dataset rules report manager,
    parse (content commit) execution = .ok dataset ∧
      tryPrepareRules dataset.toFireholDataSet = .ok (rules, report) ∧
      state.blocklist.activeRegistry = dataset.clearEntries ∧
      state.manager = some manager ∧
      ∀ kind key, (key ∈ (manager.slot kind).firehol ↔ key ∈ rules.keys kind) ∧
        (key ∈ rules.keys kind → (manager.slot kind).map.lookup key = rules.finalValue kind key)

def RetriesFailed (manager : MapManager) (attempts : List (SyncAttempt Execution)) : Prop :=
  ∀ done failing retries later commit, done ++ failing :: (retries ++ [later]) <+: attempts →
    let before := run (SyncAttempt.step content parse) (.initial manager) done
    let failed := failing.step content parse before
    failing.Reports commit → ¬ failing.Succeeds content parse before →
    before.blocklist.lastLoadedCommit ≠ some commit →
    StepsMeet (SyncAttempt.step content parse) failed
      (fun state attempt => attempt.Reports commit → ¬ attempt.Succeeds content parse state) retries →
    later.Reports commit → later.Imports content parse (run (SyncAttempt.step content parse) failed retries)

end Model

section Steps

variable {Checkout Execution : Type} (content : List Char → Checkout)
  (parse : Checkout → Execution → Except (List Char) ImportedDataSet) (state : SyncState)
  (attempt : SyncAttempt Execution)

theorem SyncState.skips_loaded {state : SyncState} {status : SyncStatus} {isStartup : Bool}
    (skipped : state.skips status isStartup = true) :
    state.blocklist.lastLoadedCommit = some status.commitOid := by
  cases status with
  | cloned oid time => simp [SyncState.skips] at skipped
  | updated oid time => simp [SyncState.skips] at skipped
  | upToDate oid time =>
      simp only [SyncState.skips, Bool.and_eq_true, decide_eq_true_eq] at skipped
      exact skipped.1.2

theorem SyncAttempt.imports_iff :
    attempt.Imports content parse state ↔
      ∃ status, attempt.git = .ok status ∧ state.skips status attempt.isStartup = false := by
  have case := sync_cases parse (attempt.environment content) attempt.isStartup state
  unfold SyncAttempt.Imports SyncAttempt.step SyncAttempt.sync
  generalize synchronizeAndLoadInternal parse (attempt.environment content) attempt.isStartup state = result
    at case ⊢
  cases case with
  | unreachable reason unreached =>
      have failed : attempt.git = .error reason := unreached
      simp [failed]
  | failed error status synchronized changed => exact iff_of_true rfl ⟨status, synchronized, changed⟩
  | skipped status synchronized unchanged =>
      have reported : attempt.git = .ok status := synchronized
      simp [reported, unchanged]
  | loaded status dataset rules draft prepares =>
      refine iff_of_true ?_ ⟨status, prepares.synchronized, prepares.changed⟩
      simp [SyncState.publish, SyncState.startImport]

theorem SyncAttempt.succeeds_reports {state : SyncState} {attempt : SyncAttempt Execution}
    (succeeds : attempt.Succeeds content parse state) : ∃ status, attempt.git = .ok status := by
  obtain ⟨report, returned⟩ := succeeds
  cases reported : attempt.git with
  | ok status => exact ⟨status, rfl⟩
  | error reason => simp [sync, synchronizeAndLoadInternal, environment, reported] at returned

theorem SyncAttempt.step_lastLoaded {commit : List Char}
    (loaded : (attempt.step content parse state).blocklist.lastLoadedCommit = some commit) :
    state.blocklist.lastLoadedCommit = some commit ∨
      attempt.Reports commit ∧ attempt.Succeeds content parse state := by
  have case := sync_cases parse (attempt.environment content) attempt.isStartup state
  unfold SyncAttempt.Succeeds
  unfold SyncAttempt.step at loaded
  unfold SyncAttempt.sync at loaded ⊢
  generalize synchronizeAndLoadInternal parse (attempt.environment content) attempt.isStartup state = result
    at case loaded ⊢
  cases case with
  | unreachable reason unreached => exact Or.inl loaded
  | failed error status synchronized changed => exact Or.inl loaded
  | skipped status synchronized unchanged => exact Or.inl loaded
  | loaded status dataset rules draft prepares =>
      exact Or.inr ⟨⟨status, prepares.synchronized, Option.some.inj loaded⟩, _, rfl⟩

def SyncState.Current (state : SyncState) : Prop :=
  (∃ manager, state.manager = some manager) ∧
    ∀ commit, state.blocklist.lastLoadedCommit = some commit → state.BuiltFrom content parse commit

theorem SyncState.Current.step {state : SyncState} (current : state.Current content parse)
    (attempt : SyncAttempt Execution) : (attempt.step content parse state).Current content parse := by
  have case := sync_cases parse (attempt.environment content) attempt.isStartup state
  unfold SyncAttempt.step SyncAttempt.sync
  generalize synchronizeAndLoadInternal parse (attempt.environment content) attempt.isStartup state = result
    at case ⊢
  cases case with
  | unreachable reason unreached => exact current
  | failed error status synchronized changed => exact current
  | skipped status synchronized unchanged => exact current
  | loaded status dataset rules draft prepares =>
      obtain ⟨⟨manager, managed⟩, _⟩ := current
      have reported : attempt.git = .ok status := prepares.synchronized
      have parsed : parse (content status.commitOid) attempt.execution = .ok dataset := by
        simpa [SyncAttempt.environment, reported] using prepares.parsed
      have installed : (state.startImport.loadIntoMaps attempt.hashing allSucceed rules draft).2.manager =
          some (syncFireholRules attempt.hashing allSucceed manager rules).1 := by
        simp [SyncState.loadIntoMaps, SyncState.startImport, managed]
      refine ⟨⟨_, installed⟩, fun commit loaded => ?_⟩
      obtain rfl : status.commitOid = commit := Option.some.inj loaded
      refine ⟨attempt.execution, dataset, rules, draft, _, parsed, prepares.prepared, rfl, installed, ?_⟩
      intro kind key
      rw [syncFireholRules_firehol, installs_allSucceed]
      exact ⟨Iff.rfl, syncFireholRules_lookup_listed attempt.hashing manager rules kind key⟩

end Steps

section Runs

variable {Checkout Execution : Type} (content : List Char → Checkout)
  (parse : Checkout → Execution → Except (List Char) ImportedDataSet)

theorem skip_reports_loaded {state : SyncState} {attempt : SyncAttempt Execution}
    (succeeds : attempt.Succeeds content parse state) (skipped : ¬ attempt.Imports content parse state) :
    ∃ commit, state.blocklist.lastLoadedCommit = some commit ∧ attempt.Reports commit := by
  obtain ⟨status, reported⟩ := SyncAttempt.succeeds_reports content parse succeeds
  cases unchanged : state.skips status attempt.isStartup with
  | true => exact ⟨status.commitOid, SyncState.skips_loaded unchanged, status, reported, rfl⟩
  | false => exact absurd ((attempt.imports_iff content parse state).mpr ⟨status, reported, unchanged⟩) skipped

theorem imports_unless_loaded {state : SyncState} {attempt : SyncAttempt Execution} {commit : List Char}
    (reports : attempt.Reports commit) (unloaded : state.blocklist.lastLoadedCommit ≠ some commit) :
    attempt.Imports content parse state := by
  obtain ⟨status, reported, rfl⟩ := reports
  refine (attempt.imports_iff content parse state).mpr ⟨status, reported, ?_⟩
  cases unchanged : state.skips status attempt.isStartup with
  | true => exact absurd (SyncState.skips_loaded unchanged) unloaded
  | false => rfl

theorem retries_failed (manager : MapManager) (attempts : List (SyncAttempt Execution)) :
    RetriesFailed content parse manager attempts := by
  intro done failing retries later commit _ before failed _ unsuccessful unloaded meets reported
  apply imports_unless_loaded content parse reported
  apply meets.run_invariant fun state => state.blocklist.lastLoadedCommit ≠ some commit
  · intro loaded
    cases SyncAttempt.step_lastLoaded content parse before failing loaded with
    | inl earlier => exact unloaded earlier
    | inr success => exact unsuccessful success.2
  · intro state attempt absent unsuccessful loaded
    cases SyncAttempt.step_lastLoaded content parse state attempt loaded with
    | inl earlier => exact absent earlier
    | inr success => exact unsuccessful success.1 success.2

theorem reload_skips_sound (manager : MapManager) (attempts : List (SyncAttempt Execution)) :
    HoldsThroughout (SyncAttempt.step content parse) (.initial manager)
        (fun state => ∀ commit, state.blocklist.lastLoadedCommit = some commit →
          state.BuiltFrom content parse commit) attempts ∧
      StepsMeet (SyncAttempt.step content parse) (.initial manager)
        (fun state attempt => attempt.Succeeds content parse state → ¬ attempt.Imports content parse state →
          ∃ commit, state.blocklist.lastLoadedCommit = some commit ∧ attempt.Reports commit) attempts ∧
      RetriesFailed content parse manager attempts ∧
      StepsMeet (SyncAttempt.step content parse) (.initial manager)
        (fun state attempt => ∀ reason, attempt.git = .error reason → ¬ attempt.Imports content parse state)
        attempts := by
  have fresh : (SyncState.initial manager).Current content parse := by
    refine ⟨⟨manager, rfl⟩, fun commit loaded => ?_⟩
    simp [SyncState.initial, FireholBlockList.new] at loaded
  refine ⟨fun done _ => ?_, fun done attempt _ succeeds skipped => ?_,
    retries_failed content parse manager attempts, fun done attempt _ reason failed imports => ?_⟩
  · exact (run_invariant _ _ _ fresh (fun state attempt current => current.step content parse attempt) done).2
  · exact skip_reports_loaded content parse succeeds skipped
  · obtain ⟨status, synchronized, _⟩ := (attempt.imports_iff content parse _).mp imports
    rw [failed] at synchronized
    exact absurd synchronized (by simp)

end Runs

section Restored

noncomputable def readHost (octets : Octets 4) (readable : Bool) : Except (List Char) ImportedDataSet :=
  if readable then .ok (hostDataset octets) else .error "feed.netset".toList

noncomputable def hostAttempt (isStartup : Bool) (status : SyncStatus) (readable : Bool) : SyncAttempt Bool :=
  ⟨isStartup, .ok status, readable, none, .arbitrary⟩

theorem restored_commit_skipped :
    let content : List Char → Octets 4 := fun _ => #v[192, 0, 2, 1]
    let before := run (SyncAttempt.step content readHost) (.initial .new)
      [hostAttempt true (.cloned "e69de29".toList 1) true, hostAttempt false (.updated "4b825dc".toList 2) false]
    let failing := hostAttempt false (.updated "e69de29".toList 1) false
    let later := hostAttempt false (.upToDate "e69de29".toList 1) true
    let failed := failing.step content readHost before
    failing.Imports content readHost before ∧ ¬ failing.Succeeds content readHost before ∧
      ¬ later.Imports content readHost failed ∧ later.sync content readHost failed = (.ok .default, failed) := by
  intro content before failing later failed
  let loaded := (hostAttempt true (.cloned "e69de29".toList 1) true).step content readHost (.initial .new)
  have published : loaded.blocklist = ⟨(hostDataset #v[192, 0, 2, 1]).registry, some "e69de29".toList, some 1⟩ := by
    simp only [loaded, SyncAttempt.step, SyncAttempt.sync]
    rw [sync_host rfl rfl rfl rfl]
    rfl
  have attempted : failed = loaded.startImport.startImport := rfl
  have active : failed.blocklist.hasActiveRules = true := by
    simp [attempted, SyncState.startImport, FireholBlockList.hasActiveRules, published, hostDataset_registered]
  have commit : failed.blocklist.lastLoadedCommit = some "e69de29".toList := by
    simp [attempted, SyncState.startImport, published]
  have skipped : later.sync content readHost failed = (.ok .default, failed) := by
    have unchanged : failed.skips (.upToDate "e69de29".toList 1) false = true := by
      simp [SyncState.skips, commit, active]
    exact if_pos unchanged
  have idle : later.step content readHost failed = failed := by rw [SyncAttempt.step, skipped]
  refine ⟨rfl, ?_, ?_, skipped⟩
  · intro succeeds
    obtain ⟨report, returned⟩ := succeeds
    cases (show Except.error _ = Except.ok report from returned)
  · rw [SyncAttempt.Imports, idle]
    omega

end Restored

end ReputationFirewall.Firehol
