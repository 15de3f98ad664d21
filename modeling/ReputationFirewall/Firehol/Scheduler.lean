import ReputationFirewall.Firehol.BlockList
import ReputationFirewall.Firehol.Lookup
import ReputationFirewall.Shared.Runs

set_option autoImplicit false

namespace ReputationFirewall.Firehol

open BigEndian KeyedStore Maps Runs

section Model

inductive FireholSyncOutcome where
  | updated (report : FireholSyncReport)
  | upToDate (commitOid : List Char)
  | skippedAlreadyRunning
  deriving DecidableEq

variable {Checkout Execution : Type} (parse : Checkout → Execution → Except (List Char) ImportedDataSet)

-- A report without rules is taken for that of a skipped reload if there are active rules.
def outcomeOf {Outcome : Type} (unchanged : SyncState → Outcome) (updated : FireholSyncReport → Outcome) :
    Except FirewallError FireholSyncReport × SyncState → Except FirewallError Outcome × SyncState
  | (.error error, state) => (.error error, state)
  | (.ok report, state) =>
      if report.totalRules = 0 ∧ state.blocklist.hasActiveRules = true then (.ok (unchanged state), state)
      else (.ok (updated report), state)

-- `locked` says whether another synchronization holds the lock: a startup waits for it.
def executeFireholSync (env : SyncEnvironment Checkout Execution) (isStartup locked : Bool) (state : SyncState) :
    Except FirewallError FireholSyncOutcome × SyncState :=
  if !isStartup && locked then (.ok .skippedAlreadyRunning, state)
  else
    outcomeOf (fun state => .upToDate (state.blocklist.lastLoadedCommit.getD "unknown".toList)) .updated
      (synchronizeAndLoadInternal parse env isStartup state)

def reloadIfUpdated (env : SyncEnvironment Checkout Execution) (state : SyncState) :
    Except FirewallError (Option FireholSyncReport) × SyncState :=
  outcomeOf (fun _ => none) some (synchronizeAndLoadInternal parse env false state)

inductive SyncCall (Checkout Execution : Type) where
  | execute (env : SyncEnvironment Checkout Execution) (isStartup locked : Bool)
  | reload (env : SyncEnvironment Checkout Execution)

namespace SyncCall

def step (state : SyncState) : SyncCall Checkout Execution → SyncState
  | .execute env isStartup locked => (executeFireholSync parse env isStartup locked state).2
  | .reload env => (reloadIfUpdated parse env state).2

def ReportsUnchanged (state : SyncState) : SyncCall Checkout Execution → Prop
  | .execute env isStartup locked =>
      ∃ commit, (executeFireholSync parse env isStartup locked state).1 = .ok (.upToDate commit)
  | .reload env => (reloadIfUpdated parse env state).1 = .ok none

def ReportsUpdate (state : SyncState) : SyncCall Checkout Execution → Prop
  | .execute env isStartup locked =>
      ∃ report, (executeFireholSync parse env isStartup locked state).1 = .ok (.updated report)
  | .reload env => ∃ report, (reloadIfUpdated parse env state).1 = .ok (some report)

end SyncCall

end Model

section Truth

variable {Checkout Execution : Type} (parse : Checkout → Execution → Except (List Char) ImportedDataSet)

def SyncState.SameRules (before after : SyncState) : Prop :=
  after.manager = before.manager ∧ after.blocklist.activeRegistry = before.blocklist.activeRegistry

def SyncState.Rewritten (before after : SyncState) : Prop :=
  before.effects.rewrites < after.effects.rewrites ∨ before.effects.publications < after.effects.publications

@[mk_iff]
structure SyncCall.Truthful (state : SyncState) (call : SyncCall Checkout Execution) : Prop where
  unchanged : call.ReportsUnchanged parse state → state.SameRules (call.step parse state)
  update : state.Rewritten (call.step parse state) → call.ReportsUpdate parse state

structure ProvidesInfrastructure (env : SyncEnvironment Checkout Execution) (isStartup : Bool) (state : SyncState)
    (status : SyncStatus) (dataset : ImportedDataSet) (entries : List FireholEntry) : Prop where
  synchronized : env.git = .ok status
  changed : state.skips status isStartup = false
  parsed : parse env.checkout env.execution = .ok dataset
  nonempty : dataset.isEmpty = false
  registered : dataset.registry.isEmpty = false
  visited : dataset.visitEntries = .ok entries
  cleared : (if dataset.storedEntries.isSome then env.clearFault else none) = none
  infrastructure : ∀ entry ∈ entries, entry.target.isInfrastructure = true

def SyncCall.LoadsInfrastructure (state : SyncState) : SyncCall Checkout Execution → Prop
  | .execute env isStartup locked => (isStartup = true ∨ locked = false) ∧
      ∃ status dataset entries, ProvidesInfrastructure parse env isStartup state status dataset entries
  | .reload env => ∃ status dataset entries, ProvidesInfrastructure parse env false state status dataset entries

end Truth

section Calls

@[simp] theorem loadIntoMaps_totalRules (state : SyncState) (hashing : Hashing) (ok : Outcomes)
    (rules : ParsedRuleSet) (report : FireholSyncReport) :
    (state.loadIntoMaps hashing ok rules report).1.totalRules = report.totalRules := by
  unfold SyncState.loadIntoMaps
  cases state.manager <;> rfl

@[simp] theorem loadIntoMaps_publications (state : SyncState) (hashing : Hashing) (ok : Outcomes)
    (rules : ParsedRuleSet) (report : FireholSyncReport) :
    (state.loadIntoMaps hashing ok rules report).2.effects.publications = state.effects.publications := by
  unfold SyncState.loadIntoMaps
  cases state.manager <;> rfl

@[simp] theorem loadIntoMaps_imports (state : SyncState) (hashing : Hashing) (ok : Outcomes)
    (rules : ParsedRuleSet) (report : FireholSyncReport) :
    (state.loadIntoMaps hashing ok rules report).2.effects.imports = state.effects.imports := by
  unfold SyncState.loadIntoMaps
  cases state.manager <;> rfl

@[simp] theorem ImportedDataSet.clearEntries_isEmpty (dataset : ImportedDataSet) :
    dataset.clearEntries.isEmpty = dataset.registry.isEmpty := by
  unfold ImportedDataSet.clearEntries
  split_ifs <;> rfl

theorem publish_hasActiveRules (state : SyncState) (dataset : ImportedDataSet) (status : SyncStatus) :
    (state.publish dataset.clearEntries status).blocklist.hasActiveRules = !dataset.registry.isEmpty :=
  congrArg (!·) dataset.clearEntries_isEmpty

variable {Checkout Execution : Type} {parse : Checkout → Execution → Except (List Char) ImportedDataSet}
  {env : SyncEnvironment Checkout Execution} {isStartup : Bool} {state : SyncState}

theorem ProvidesInfrastructure.prepares {status : SyncStatus} {dataset : ImportedDataSet}
    {entries : List FireholEntry}
    (provides : ProvidesInfrastructure parse env isStartup state status dataset entries) :
    Prepares parse env isStartup state status dataset (prepareEntries entries).1 (prepareEntries entries).2 where
  synchronized := provides.synchronized
  changed := provides.changed
  parsed := provides.parsed
  nonempty := provides.nonempty
  prepared := by simp only [tryPrepareRules, provides.visited]
  cleared := provides.cleared

def ReadsUnchanged (result : Except FirewallError FireholSyncReport × SyncState) : Prop :=
  ∃ report, result.1 = .ok report ∧ report.totalRules = 0 ∧ result.2.blocklist.hasActiveRules = true

def ReadsUpdated (result : Except FirewallError FireholSyncReport × SyncState) : Prop :=
  ∃ report, result.1 = .ok report ∧ ¬ (report.totalRules = 0 ∧ result.2.blocklist.hasActiveRules = true)

theorem internal_truthful_iff :
    ((ReadsUnchanged (synchronizeAndLoadInternal parse env isStartup state) →
        state.SameRules (synchronizeAndLoadInternal parse env isStartup state).2) ∧
      (state.Rewritten (synchronizeAndLoadInternal parse env isStartup state).2 →
        ReadsUpdated (synchronizeAndLoadInternal parse env isStartup state))) ↔
    ¬ ∃ status dataset entries, ProvidesInfrastructure parse env isStartup state status dataset entries := by
  constructor
  · rintro ⟨_, update⟩ ⟨status, dataset, entries, provides⟩
    rw [sync_loaded provides.prepares] at update
    obtain ⟨report, result, counted⟩ := update (Or.inr (by simp [SyncState.publish, SyncState.startImport]))
    obtain rfl := Except.ok.inj result
    apply counted
    rw [loadIntoMaps_totalRules, prepareEntries_total_eq_zero_iff, publish_hasActiveRules, provides.registered]
    exact ⟨provides.infrastructure, rfl⟩
  · intro ordinary
    have case := sync_cases parse env isStartup state
    generalize synchronizeAndLoadInternal parse env isStartup state = result at case ⊢
    cases case with
    | unreachable reason unreached => exact ⟨fun _ => ⟨rfl, rfl⟩, by simp [SyncState.Rewritten]⟩
    | failed error status synchronized changed =>
        exact ⟨fun _ => ⟨rfl, rfl⟩, by simp [SyncState.Rewritten, SyncState.startImport]⟩
    | skipped status synchronized unchanged => exact ⟨fun _ => ⟨rfl, rfl⟩, by simp [SyncState.Rewritten]⟩
    | loaded status dataset rules draft prepares =>
        obtain ⟨entries, visited, _, counts⟩ := tryPrepareRules_ok prepares.prepared
        have counted : ¬ (draft.totalRules = 0 ∧ dataset.registry.isEmpty = false) := by
          rintro ⟨empty, registered⟩
          rw [counts, prepareEntries_total_eq_zero_iff] at empty
          exact ordinary ⟨status, dataset, entries, prepares.synchronized, prepares.changed, prepares.parsed,
            prepares.nonempty, registered, visited, prepares.cleared, empty⟩
        constructor
        · rintro ⟨report, same, empty, active⟩
          obtain rfl := Except.ok.inj same
          rw [loadIntoMaps_totalRules] at empty
          rw [publish_hasActiveRules, Bool.not_eq_true'] at active
          exact absurd ⟨empty, active⟩ counted
        · intro _
          refine ⟨_, rfl, ?_⟩
          rwa [loadIntoMaps_totalRules, publish_hasActiveRules, Bool.not_eq_true']

end Calls

section Outcomes

section Reading

variable {Outcome : Type} (unchanged : SyncState → Outcome) (updated : FireholSyncReport → Outcome)
  (result : Except FirewallError FireholSyncReport × SyncState)

@[simp] theorem outcomeOf_state : (outcomeOf unchanged updated result).2 = result.2 := by
  unfold outcomeOf
  split
  · rfl
  · split_ifs <;> rfl

theorem outcomeOf_ok_iff (outcome : Outcome) :
    (outcomeOf unchanged updated result).1 = .ok outcome ↔
      (ReadsUnchanged result ∧ unchanged result.2 = outcome) ∨
        ∃ report, result.1 = .ok report ∧
          ¬ (report.totalRules = 0 ∧ result.2.blocklist.hasActiveRules = true) ∧ updated report = outcome := by
  obtain ⟨reported, after⟩ := result
  cases reported with
  | error error => simp [outcomeOf, ReadsUnchanged]
  | ok report =>
      by_cases quiet : report.totalRules = 0 ∧ after.blocklist.hasActiveRules = true
      · simp [outcomeOf, ReadsUnchanged, quiet]
      · rw [outcomeOf, if_neg quiet]
        simp only [ReadsUnchanged, Except.ok.injEq, exists_eq_left', quiet, false_and, false_or, not_false_eq_true,
          true_and]

end Reading

variable {Checkout Execution : Type} (parse : Checkout → Execution → Except (List Char) ImportedDataSet)

theorem locked_truthful (env : SyncEnvironment Checkout Execution) (state : SyncState) :
    (SyncCall.execute env false true).Truthful parse state := by
  constructor
  · intro _
    exact ⟨rfl, rfl⟩
  · intro rewritten
    simp [SyncState.Rewritten, SyncCall.step, executeFireholSync] at rewritten

theorem executeFireholSync_free {isStartup locked : Bool} (free : isStartup = true ∨ locked = false)
    (env : SyncEnvironment Checkout Execution) (state : SyncState) :
    executeFireholSync parse env isStartup locked state =
      outcomeOf (fun state => .upToDate (state.blocklist.lastLoadedCommit.getD "unknown".toList)) .updated
        (synchronizeAndLoadInternal parse env isStartup state) := by
  cases free with
  | inl startup => simp [executeFireholSync, startup]
  | inr released => simp [executeFireholSync, released]

theorem call_truthful_iff (state : SyncState) (call : SyncCall Checkout Execution) :
    call.Truthful parse state ↔ ¬ call.LoadsInfrastructure parse state := by
  cases call with
  | reload env =>
      rw [SyncCall.LoadsInfrastructure, ← internal_truthful_iff]
      simp [SyncCall.truthful_iff, SyncCall.ReportsUnchanged, SyncCall.ReportsUpdate, SyncCall.step, reloadIfUpdated,
        outcomeOf_ok_iff, ReadsUpdated]
  | execute env isStartup locked =>
      by_cases free : isStartup = true ∨ locked = false
      · simp only [SyncCall.LoadsInfrastructure, free, true_and]
        rw [← internal_truthful_iff]
        simp [SyncCall.truthful_iff, SyncCall.ReportsUnchanged, SyncCall.ReportsUpdate, SyncCall.step,
          executeFireholSync_free parse free, outcomeOf_ok_iff, ReadsUpdated]
      · have busy : isStartup = false ∧ locked = true := by simpa using free
        obtain ⟨rfl, rfl⟩ := busy
        simp [SyncCall.LoadsInfrastructure, locked_truthful]

theorem outcomes_truthful_iff (state : SyncState) (calls : List (SyncCall Checkout Execution)) :
    StepsMeet (SyncCall.step parse) state (SyncCall.Truthful parse) calls ↔
      StepsMeet (SyncCall.step parse) state (fun before call => ¬ call.LoadsInfrastructure parse before) calls := by
  simp only [StepsMeet, call_truthful_iff]

end Outcomes

section Imports

variable {sizeInBytes : List Put → Nat} {orders : IndexOrders} {metadata : List FireholMetadata}
  {nextMetadataId : BitVec 32} {batches : List (List FireholEntry)} {imported : ImportedDataSet}

def KindCounts.total (counts : KindCounts) : Nat :=
  (counts.exactV4 + counts.exactV6) + (counts.lpmV4 + counts.lpmV6)

theorem KindCounts.total_count (counts : KindCounts) (entry : FireholEntry) :
    (counts.count entry).total = counts.total + 1 := by
  unfold KindCounts.count KindCounts.total
  cases entry.target <;> dsimp only <;> omega

theorem KindCounts.total_counts (counts : KindCounts) (entries : List FireholEntry) :
    (entries.foldl KindCounts.count counts).total = counts.total + entries.length := by
  induction entries generalizing counts with
  | nil => rfl
  | cons entry rest ih =>
      rw [List.foldl_cons, ih, counts.total_count, List.length_cons]
      omega

theorem imported_registry_isEmpty {storage : Storage} (nonempty : ∀ batch ∈ batches, batch ≠ [])
    (range : ∀ entry ∈ batches.flatten, entry.target.PrefixInRange)
    (registered : ∀ entry ∈ batches.flatten, Registered metadata nextMetadataId entry)
    (done : importBatches sizeInBytes storage orders metadata nextMetadataId batches = some (.ok imported)) :
    imported.registry.isEmpty = imported.isEmpty := by
  have small := imported_small nonempty done
  cases storage with
  | memory =>
      have known := importedEntries_registered metadata nextMetadataId registered
      rw [importBatches_memory sizeInBytes orders metadata nextMetadataId small] at done
      obtain rfl := Except.ok.inj (Option.some.inj done)
      rw [FireholMetadataRegistry.isEmpty, (@buildMemory_tables orders metadata nextMetadataId _ known).count]
      rfl
  | database archive limit spool =>
      obtain ⟨spooled, database, result, _, _⟩ := importBatches_database sizeInBytes orders metadata nextMetadataId
        archive limit spool nonempty range registered small
      rw [result] at done
      obtain rfl := Except.ok.inj (Option.some.inj done)
      cases spool with
      | false => rfl
      | true =>
          have total := KindCounts.total_counts ⟨0, 0, 0, 0⟩ (importedEntries batches)
          simp only [KindCounts.total, Nat.add_zero, Nat.zero_add] at total
          simp [FireholMetadataRegistry.isEmpty, cachedRegistry, ImportedDataSet.isEmpty, ImportedDataSet.totalEntries,
            keptDataset, total]

theorem hostDataset_registered (octets : Octets 4) : (hostDataset octets).registry.isEmpty = false := by
  have done : importBatches List.length .memory ⟨.arbitrary _, .arbitrary _⟩ [.new "feed.netset".toList 1] 2
      [[⟨.exactV4 octets, 0, 1, 1⟩]] = some (.ok (hostDataset octets)) :=
    importBatches_memory List.length _ _ _ (by simp)
  rw [imported_registry_isEmpty (by simp) (by simp [FireholIpTarget.PrefixInRange])
    (by simp [Registered, FireholMetadata.new]) done]
  rfl

theorem emptied_maps_reported_unchanged :
    let first := hostEnvironment (.cloned "e69de29".toList 1) #v[192, 0, 2, 1]
    let second := hostEnvironment (.updated "4b825dc".toList 2) #v[127, 0, 0, 1]
    let before := (executeFireholSync parseHost first true false ⟨.new, some .new, ⟨0, 0, 0⟩⟩).2
    let after := (executeFireholSync parseHost second false false before).2
    (executeFireholSync parseHost second false false before).1 = .ok (.upToDate "4b825dc".toList) ∧
      (∃ manager, before.manager = some manager ∧ #v[192, 0, 2, 1] ∈ manager.ipv4Exact) ∧
      (∃ manager, after.manager = some manager ∧ #v[192, 0, 2, 1] ∉ manager.ipv4Exact) ∧
      before.effects.publications < after.effects.publications := by
  intro first second before after
  let installed := (syncFireholRules .arbitrary allSucceed .new (hostRules #v[192, 0, 2, 1]).1).1
  have started : before =
      { blocklist := ⟨(hostDataset #v[192, 0, 2, 1]).registry, some "e69de29".toList, some 1⟩
        manager := some installed
        effects := ⟨1, 1, 1⟩ } := by
    simp only [before, first, executeFireholSync_free parseHost (Or.inl rfl), outcomeOf_state]
    rw [sync_host rfl rfl rfl rfl]
    rfl
  have managed : before.manager = some installed := by rw [started]
  have replaced := @sync_host _ _ parseHost second (.updated "4b825dc".toList 2) #v[127, 0, 0, 1] false before
    installed rfl rfl managed rfl
  have finished : after =
      { blocklist := ⟨(hostDataset #v[127, 0, 0, 1]).registry, some "4b825dc".toList, some 2⟩
        manager := some (syncFireholRules .arbitrary allSucceed installed (hostRules #v[127, 0, 0, 1]).1).1
        effects := ⟨2, 2, 2⟩ } := by
    simp only [after, second, executeFireholSync_free parseHost (Or.inr rfl), outcomeOf_state]
    rw [replaced, started]
    rfl
  have member : #v[192, 0, 2, 1] ∈ (hostRules #v[192, 0, 2, 1]).1.keys .ipv4Exact :=
    (ParsedRuleSet.mem_keys _ .ipv4Exact _).mpr ⟨_, hostRules_lookup (by decide)⟩
  have listed : #v[192, 0, 2, 1] ∈ installs .arbitrary allSucceed (hostRules #v[192, 0, 2, 1]).1 .ipv4Exact :=
    (installs_allSucceed _ _ .ipv4Exact _).mpr member
  refine ⟨?_, ⟨installed, by rw [started], ?_⟩, ⟨_, by rw [finished], ?_⟩, ?_⟩
  · rw [executeFireholSync_free parseHost (Or.inr rfl), outcomeOf_ok_iff]
    refine Or.inl ⟨⟨_, congrArg Prod.fst replaced, ?_, ?_⟩, ?_⟩
    · exact (prepareEntries_total_eq_zero_iff _).mpr (by decide)
    · rw [replaced]
      exact congrArg (!·) (hostDataset_registered _)
    · rw [replaced]
      rfl
  · exact (mem_syncFireholRules .arbitrary allSucceed .new _ .ipv4Exact _).mpr (Or.inl listed)
  · intro kept
    cases (mem_syncFireholRules .arbitrary allSucceed installed _ .ipv4Exact _).mp kept with
    | inl relisted =>
        have unlisted : #v[192, 0, 2, 1] ∉ (hostRules #v[127, 0, 0, 1]).1.keys .ipv4Exact := by decide
        exact unlisted ((installs_allSucceed _ _ .ipv4Exact _).mp relisted)
    | inr retained =>
        apply retained.2
        rw [syncFireholRules_firehol]
        exact listed
  · rw [started, finished]
    decide

end Imports

end ReputationFirewall.Firehol
