import ReputationFirewall.Firehol.StoredImport
import ReputationFirewall.Firehol.SyncManager

set_option autoImplicit false

namespace ReputationFirewall.Firehol

open BigEndian KeyedStore Maps NetAddr

section Model

inductive SyncStatus where
  | cloned (commitOid : List Char) (commitTime : Int)
  | updated (commitOid : List Char) (commitTime : Int)
  | upToDate (commitOid : List Char) (commitTime : Int)
  deriving DecidableEq

def SyncStatus.commitOid : SyncStatus → List Char
  | .cloned oid _ | .updated oid _ | .upToDate oid _ => oid

def SyncStatus.commitTime : SyncStatus → Int
  | .cloned _ time | .updated _ time | .upToDate _ time => time

structure FireholBlockList where
  activeRegistry : FireholMetadataRegistry
  lastLoadedCommit : Option (List Char)
  lastLoadedCommitTime : Option Int

def FireholBlockList.new : FireholBlockList := ⟨.new, none, none⟩

def FireholBlockList.hasActiveRules (blocklist : FireholBlockList) : Bool := !blocklist.activeRegistry.isEmpty

structure Effects where
  imports : Nat
  rewrites : Nat
  publications : Nat
  deriving DecidableEq

-- The effects are ghost.
structure SyncState where
  blocklist : FireholBlockList
  manager : Option MapManager
  effects : Effects

structure SyncEnvironment (Checkout Execution : Type) where
  git : Except (List Char) SyncStatus
  checkout : Checkout
  execution : Execution
  clearFault : Option FirewallError
  hashing : Hashing
  ok : Outcomes

namespace ImportedDataSet

def totalEntries (dataset : ImportedDataSet) : Nat :=
  if dataset.storedEntries.isSome then
    (dataset.counts.exactV4 + dataset.counts.exactV6) + (dataset.counts.lpmV4 + dataset.counts.lpmV6)
  else dataset.entries.length

def isEmpty (dataset : ImportedDataSet) : Bool := dataset.totalEntries = 0

-- The spool shares its database with the registry; the keys of its blocks lie below the end of the range.
def clearEntries (dataset : ImportedDataSet) : FireholMetadataRegistry :=
  if dataset.storedEntries.isSome then
    { dataset.registry with cache := dataset.registry.cache.map fun database => { database with entries := ∅ } }
  else dataset.registry

end ImportedDataSet

namespace SyncState

def startImport (state : SyncState) : SyncState :=
  { state with effects := { state.effects with imports := state.effects.imports + 1 } }

def loadIntoMaps (state : SyncState) (hashing : Hashing) (ok : Outcomes) (rules : ParsedRuleSet)
    (report : FireholSyncReport) : FireholSyncReport × SyncState :=
  match state.manager with
  | none => (report, state)
  | some manager =>
      let (manager, mapReport) := syncFireholRules hashing ok manager rules
      ({ report with mapReport },
        { state with
          manager := some manager
          effects := { state.effects with rewrites := state.effects.rewrites + 1 } })

def publish (state : SyncState) (registry : FireholMetadataRegistry) (status : SyncStatus) : SyncState :=
  { state with
    blocklist := ⟨registry, some status.commitOid, some status.commitTime⟩
    effects := { state.effects with publications := state.effects.publications + 1 } }

def skips (state : SyncState) (status : SyncStatus) (isStartup : Bool) : Bool :=
  match status with
  | .upToDate oid _ =>
      !isStartup && decide (state.blocklist.lastLoadedCommit = some oid) && state.blocklist.hasActiveRules
  | _ => false

end SyncState

variable {Checkout Execution : Type} (parse : Checkout → Execution → Except (List Char) ImportedDataSet)

def synchronizeAndLoadInternal (env : SyncEnvironment Checkout Execution) (isStartup : Bool) (state : SyncState) :
    Except FirewallError FireholSyncReport × SyncState :=
  match env.git with
  | .error reason => (.error (.config ("FireHOL Git synchronization failed: ".toList ++ reason)), state)
  | .ok status =>
      if state.skips status isStartup then (.ok .default, state)
      else
        let state := state.startImport
        match parse env.checkout env.execution with
        | .error reason => (.error (.config ("FireHOL parsing failed: ".toList ++ reason)), state)
        | .ok dataset =>
            if dataset.isEmpty then
              (.error (.config
                "FireHOL dataset validation failed: 0 entries found in repository".toList), state)
            else
              match tryPrepareRules dataset.toFireholDataSet with
              | .error error => (.error error, state)
              | .ok (rules, draft) =>
                  match if dataset.storedEntries.isSome then env.clearFault else none with
                  | some error => (.error error, state)
                  | none =>
                      let (report, state) := state.loadIntoMaps env.hashing env.ok rules draft
                      (.ok report, state.publish dataset.clearEntries status)

end Model

section Inversion

variable {Checkout Execution : Type} (parse : Checkout → Execution → Except (List Char) ImportedDataSet)
  (env : SyncEnvironment Checkout Execution) (isStartup : Bool) (state : SyncState)

structure Prepares (status : SyncStatus) (dataset : ImportedDataSet) (rules : ParsedRuleSet)
    (draft : FireholSyncReport) : Prop where
  synchronized : env.git = .ok status
  changed : state.skips status isStartup = false
  parsed : parse env.checkout env.execution = .ok dataset
  nonempty : dataset.isEmpty = false
  prepared : tryPrepareRules dataset.toFireholDataSet = .ok (rules, draft)
  cleared : (if dataset.storedEntries.isSome then env.clearFault else none) = none

inductive SyncCase : Except FirewallError FireholSyncReport × SyncState → Prop
  | unreachable (reason : List Char) (failed : env.git = .error reason) :
      SyncCase (.error (.config ("FireHOL Git synchronization failed: ".toList ++ reason)), state)
  | failed (error : FirewallError) (status : SyncStatus) (synchronized : env.git = .ok status)
      (changed : state.skips status isStartup = false) : SyncCase (.error error, state.startImport)
  | skipped (status : SyncStatus) (synchronized : env.git = .ok status)
      (unchanged : state.skips status isStartup = true) : SyncCase (.ok .default, state)
  | loaded (status : SyncStatus) (dataset : ImportedDataSet) (rules : ParsedRuleSet) (draft : FireholSyncReport)
      (prepares : Prepares parse env isStartup state status dataset rules draft) :
      SyncCase (.ok (state.startImport.loadIntoMaps env.hashing env.ok rules draft).1,
        (state.startImport.loadIntoMaps env.hashing env.ok rules draft).2.publish dataset.clearEntries status)

theorem sync_cases :
    SyncCase parse env isStartup state (synchronizeAndLoadInternal parse env isStartup state) := by
  unfold synchronizeAndLoadInternal
  cases synchronized : env.git with
  | error reason => exact .unreachable reason synchronized
  | ok status =>
      dsimp only
      by_cases skipped : state.skips status isStartup = true
      · rw [if_pos skipped]
        exact .skipped status synchronized skipped
      have changed := Bool.eq_false_of_not_eq_true skipped
      rw [if_neg skipped]
      cases parsed : parse env.checkout env.execution with
      | error reason => exact .failed _ status synchronized changed
      | ok dataset =>
          dsimp only
          by_cases empty : dataset.isEmpty = true
          · rw [if_pos empty]
            exact .failed _ status synchronized changed
          rw [if_neg empty]
          cases prepared : tryPrepareRules dataset.toFireholDataSet with
          | error error => exact .failed error status synchronized changed
          | ok result =>
              obtain ⟨rules, draft⟩ := result
              dsimp only
              cases cleared : if dataset.storedEntries.isSome then env.clearFault else none with
              | some error => exact .failed error status synchronized changed
              | none =>
                  exact .loaded status dataset rules draft
                    ⟨synchronized, changed, parsed, Bool.eq_false_of_not_eq_true empty, prepared, cleared⟩

variable {parse env isStartup state} {status : SyncStatus} {dataset : ImportedDataSet} {rules : ParsedRuleSet}
  {draft : FireholSyncReport}

theorem sync_loaded (prepares : Prepares parse env isStartup state status dataset rules draft) :
    synchronizeAndLoadInternal parse env isStartup state =
      (.ok (state.startImport.loadIntoMaps env.hashing env.ok rules draft).1,
        (state.startImport.loadIntoMaps env.hashing env.ok rules draft).2.publish dataset.clearEntries status) := by
  simp [synchronizeAndLoadInternal, prepares.synchronized, prepares.changed, prepares.parsed, prepares.nonempty,
    prepares.prepared, prepares.cleared]

end Inversion

section Atomicity

variable {Checkout Execution : Type} (parse : Checkout → Execution → Except (List Char) ImportedDataSet)

theorem failed_sync_publishes_nothing (env : SyncEnvironment Checkout Execution) (isStartup : Bool)
    (state : SyncState) {error : FirewallError}
    (failed : (synchronizeAndLoadInternal parse env isStartup state).1 = .error error) :
    (synchronizeAndLoadInternal parse env isStartup state).2.manager = state.manager ∧
      (synchronizeAndLoadInternal parse env isStartup state).2.blocklist = state.blocklist := by
  have case := sync_cases parse env isStartup state
  generalize synchronizeAndLoadInternal parse env isStartup state = result at case failed ⊢
  cases case with
  | unreachable reason unreached => exact ⟨rfl, rfl⟩
  | failed error status synchronized changed => exact ⟨rfl, rfl⟩
  | skipped status synchronized unchanged => exact ⟨rfl, rfl⟩
  | loaded status dataset rules draft prepares => simp at failed

noncomputable def hostDataset (octets : Octets 4) : ImportedDataSet :=
  buildMemory ⟨.arbitrary _, .arbitrary _⟩ [.new "feed.netset".toList 1] ⟨[⟨.exactV4 octets, 1, 1, 1⟩], none⟩
    [⟨.exactV4 octets, 1, 1, 1⟩]

noncomputable def hostEnvironment (status : SyncStatus) (octets : Octets 4) : SyncEnvironment (Octets 4) Unit where
  git := .ok status
  checkout := octets
  execution := ()
  clearFault := none
  hashing := .arbitrary
  ok := allSucceed

noncomputable def parseHost (octets : Octets 4) (_ : Unit) : Except (List Char) ImportedDataSet :=
  .ok (hostDataset octets)

theorem sync_host {Checkout Execution : Type} {parse : Checkout → Execution → Except (List Char) ImportedDataSet}
    {env : SyncEnvironment Checkout Execution} {status : SyncStatus} {octets : Octets 4} {isStartup : Bool}
    {state : SyncState} {manager : MapManager} (synchronized : env.git = .ok status)
    (parsed : parse env.checkout env.execution = .ok (hostDataset octets)) (managed : state.manager = some manager)
    (changed : state.skips status isStartup = false) :
    synchronizeAndLoadInternal parse env isStartup state =
      (.ok { (hostRules octets).2 with
          mapReport := (syncFireholRules env.hashing env.ok manager (hostRules octets).1).2 },
        { blocklist := ⟨(hostDataset octets).registry, some status.commitOid, some status.commitTime⟩
          manager := some (syncFireholRules env.hashing env.ok manager (hostRules octets).1).1
          effects := ⟨state.effects.imports + 1, state.effects.rewrites + 1, state.effects.publications + 1⟩ }) := by
  have prepares : Prepares parse env isStartup state status (hostDataset octets) (hostRules octets).1
      (hostRules octets).2 := ⟨synchronized, changed, parsed, rfl, rfl, rfl⟩
  rw [sync_loaded prepares]
  simp only [SyncState.loadIntoMaps, SyncState.startImport, managed]
  rfl

theorem unparsed_checkout_publishes_nothing :
    let octets := ipv4Octets 192 0 2 1
    let loaded := (synchronizeAndLoadInternal parseHost (hostEnvironment (.cloned "e69de29".toList 0) octets) true
      ⟨.new, some .new, ⟨0, 0, 0⟩⟩).2
    let parse : Octets 4 → Unit → Except (List Char) ImportedDataSet := fun _ _ => .error "line 3".toList
    let result := synchronizeAndLoadInternal parse (hostEnvironment (.updated "4b825dc".toList 1) octets) false loaded
    result.1 = .error (.config "FireHOL parsing failed: line 3".toList) ∧
      result.2.manager = some (syncFireholRules .arbitrary allSucceed .new (hostRules octets).1).1 ∧
      result.2.blocklist = ⟨(hostDataset octets).registry, some "e69de29".toList, some 0⟩ := by
  intro octets loaded parse result
  have published : loaded = ⟨⟨(hostDataset octets).registry, some "e69de29".toList, some 0⟩,
      some (syncFireholRules .arbitrary allSucceed .new (hostRules octets).1).1, ⟨1, 1, 1⟩⟩ := by
    simp only [loaded]
    rw [sync_host rfl rfl rfl rfl]
    rfl
  have failed : result.1 = .error (.config "FireHOL parsing failed: line 3".toList) := by
    simp only [result, published]
    rfl
  have unchanged := failed_sync_publishes_nothing parse _ false loaded failed
  exact ⟨failed, unchanged.1.trans (by rw [published]), unchanged.2.trans (by rw [published])⟩

end Atomicity

end ReputationFirewall.Firehol
