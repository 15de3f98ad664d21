import ReputationFirewall.Maps.SyncRuns
import ReputationFirewall.Shared.Changes

set_option autoImplicit false

namespace ReputationFirewall.Maps

open KeyedStore Runs

section Slots

variable {K V : Type} [DecidableEq K]

def insertChanges (entries : List (K × V)) : List (Change K V) :=
  entries.map fun entry => .insert entry.1 entry.2

def removeChanges (keep : Store K V → K → Bool) : Store K V → List K → List (Change K V)
  | _, [] => []
  | map, key :: rest =>
      if keep map key then removeChanges keep map rest
      else .remove key :: removeChanges keep (map.erase key) rest

-- The first insert that fails changes nothing, and those behind it are not tried.
def staticChanges (staleOrder : HashOrder K) (ok : Nat → Bool) (slot : Slot K V) (entries : List (K × V)) :
    List (Change K V) :=
  let pass := insertPass ok 0 ⟨slot.map, ∅, 0, false⟩ entries
  let stale := staleOrder.list (staticKeys pass.map slot.firehol \ pass.installed)
  insertChanges (accepted ok 0 entries) ++
    removeChanges (fun _ key => decide (key ∈ slot.firehol)) pass.map stale

def fireholChanges (staleOrder : HashOrder K) (ok : Nat → Bool) (slot : Slot K V) (entries : List (K × V)) :
    List (Change K V) :=
  let pass := insertPass ok 0 ⟨slot.map, ∅, 0, false⟩ entries
  let stale := staleOrder.list (slot.firehol \ pass.installed)
  insertChanges (accepted ok 0 entries) ++
    removeChanges (fun map key => decide (key ∈ staticKeys map slot.firehol)) pass.map stale

omit [DecidableEq K] in
theorem insertChanges_adds (entries : List (K × V)) : ∀ change ∈ insertChanges entries, change.Adds := by
  intro change member
  obtain ⟨entry, -, rfl⟩ := List.mem_map.mp member
  exact trivial

theorem removeChanges_removes (keep : Store K V → K → Bool) (map : Store K V) (stale : List K) :
    ∀ change ∈ removeChanges keep map stale, ¬ change.Adds := by
  induction stale generalizing map with
  | nil => simp [removeChanges]
  | cons key rest ih =>
      intro change member
      simp only [removeChanges] at member
      split at member
      · exact ih map change member
      · rcases List.mem_cons.mp member with rfl | later
        · exact id
        · exact ih _ change later

theorem applyAll_insertChanges (map : Store K V) (entries : List (K × V)) :
    applyAll map (insertChanges entries) = insertAll map entries := by
  induction entries generalizing map with
  | nil => rfl
  | cons entry rest ih =>
      rw [insertAll_cons, ← ih]
      rfl

theorem applyAll_removeChanges (keep : Store K V → K → Bool) (pass : RemovePass K V) (stale : List K) :
    applyAll pass.map (removeChanges keep pass.map stale) = (removePass keep pass stale).map := by
  induction stale generalizing pass with
  | nil => rfl
  | cons key rest ih =>
      have next := ih (removeIteration keep pass key)
      change _ = (removePass keep (removeIteration keep pass key) rest).map
      by_cases kept : keep pass.map key = true
      · simpa [removeChanges, removeIteration, kept] using next
      · simpa [removeChanges, removeIteration, kept, Change.apply] using next

theorem applyAll_staticChanges (staleOrder : HashOrder K) (ok : Nat → Bool) (slot : Slot K V)
    (entries : List (K × V)) :
    applyAll slot.map (staticChanges staleOrder ok slot entries) =
      (syncStatic staleOrder ok slot entries).slot.map := by
  have inserted := (insertPass_start ok slot.map entries).1
  simp only [staticChanges, applyAll_append, applyAll_insertChanges, ← inserted]
  exact applyAll_removeChanges _ ⟨_, 0⟩ _

theorem applyAll_fireholChanges (staleOrder : HashOrder K) (ok : Nat → Bool) (slot : Slot K V)
    (entries : List (K × V)) :
    applyAll slot.map (fireholChanges staleOrder ok slot entries) =
      (syncFirehol staleOrder ok slot entries).slot.map := by
  have inserted := (insertPass_start ok slot.map entries).1
  simp only [fireholChanges, applyAll_append, applyAll_insertChanges, ← inserted]
  exact applyAll_removeChanges _ ⟨_, 0⟩ _

end Slots

structure MapOperation where
  kind : MapKind
  change : Change kind.Key RuleValue

def MapManager.perform (manager : MapManager) : MapOperation → MapManager
  | ⟨.ipv4Exact, change⟩ => { manager with ipv4Exact := change.apply manager.ipv4Exact }
  | ⟨.ipv6Exact, change⟩ => { manager with ipv6Exact := change.apply manager.ipv6Exact }
  | ⟨.ipv4Lpm, change⟩ => { manager with ipv4Lpm := change.apply manager.ipv4Lpm }
  | ⟨.ipv6Lpm, change⟩ => { manager with ipv6Lpm := change.apply manager.ipv6Lpm }

def Call.changes (call : Call) (ok : Outcomes) (manager : MapManager) (kind : MapKind) :
    List (Change kind.Key RuleValue) :=
  let entries := call.rules.entries kind (call.hashing.entryOrder kind)
  match call.source with
  | .static => staticChanges (call.hashing.staleOrder kind) (ok kind) (manager.slot kind) entries
  | .firehol => fireholChanges (call.hashing.staleOrder kind) (ok kind) (manager.slot kind) entries

def Call.operationsOn (call : Call) (ok : Outcomes) (manager : MapManager) (kind : MapKind) : List MapOperation :=
  (call.changes ok manager kind).map (MapOperation.mk kind)

def Call.operations (call : Call) (ok : Outcomes) (manager : MapManager) : List MapOperation :=
  (call.operationsOn ok manager .ipv4Exact ++ call.operationsOn ok manager .ipv6Exact) ++
    (call.operationsOn ok manager .ipv4Lpm ++ call.operationsOn ok manager .ipv6Lpm)

def changesOn (kind : MapKind) (operations : List MapOperation) : List (Change kind.Key RuleValue) :=
  operations.filterMap fun operation =>
    if same : operation.kind = kind then some (same ▸ operation.change) else none

theorem perform_map (manager : MapManager) (operation : MapOperation) (kind : MapKind) :
    ((manager.perform operation).slot kind).map =
      applyAll (manager.slot kind).map (changesOn kind [operation]) := by
  obtain ⟨performed, change⟩ := operation
  cases performed <;> cases kind <;> rfl

theorem run_perform_map (manager : MapManager) (operations : List MapOperation) (kind : MapKind) :
    ((run MapManager.perform manager operations).slot kind).map =
      applyAll (manager.slot kind).map (changesOn kind operations) := by
  induction operations using List.reverseRecOn with
  | nil => rfl
  | append_singleton operations operation ih =>
      rw [run_concat, perform_map, ih, ← applyAll_append]
      simp [changesOn]

@[simp] theorem changesOn_append (kind : MapKind) (first second : List MapOperation) :
    changesOn kind (first ++ second) = changesOn kind first ++ changesOn kind second :=
  List.filterMap_append

theorem changesOn_prefix {kind : MapKind} {done operations : List MapOperation}
    (isPrefix : done <+: operations) : changesOn kind done <+: changesOn kind operations := by
  obtain ⟨rest, rfl⟩ := isPrefix
  exact ⟨changesOn kind rest, (changesOn_append kind done rest).symm⟩

@[simp] theorem changesOn_operationsOn (call : Call) (ok : Outcomes) (manager : MapManager) (kind : MapKind) :
    changesOn kind (call.operationsOn ok manager kind) = call.changes ok manager kind := by
  simp [changesOn, Call.operationsOn]

theorem changesOn_other (call : Call) (ok : Outcomes) (manager : MapManager) {kind other : MapKind}
    (different : other ≠ kind) : changesOn kind (call.operationsOn ok manager other) = [] := by
  simp [changesOn, Call.operationsOn, different]

theorem changesOn_operations (call : Call) (ok : Outcomes) (manager : MapManager) (kind : MapKind) :
    changesOn kind (call.operations ok manager) = call.changes ok manager kind := by
  cases kind <;> simp [Call.operations, changesOn_other]

theorem run_operations_map (call : Call) (ok : Outcomes) (manager : MapManager) (kind : MapKind) :
    ((run MapManager.perform manager (call.operations ok manager)).slot kind).map =
      ((call.apply ok manager).1.slot kind).map := by
  rw [run_perform_map, changesOn_operations]
  obtain ⟨source, rules, hashing⟩ := call
  cases source with
  | static =>
      simp only [Call.changes, Call.apply, syncRules_slot]
      exact applyAll_staticChanges ..
  | firehol =>
      simp only [Call.changes, Call.apply, syncFireholRules_slot]
      exact applyAll_fireholChanges ..

theorem changes_between (call : Call) (ok : Outcomes) (manager : MapManager) (kind : MapKind)
    {done : List (Change kind.Key RuleValue)} (isPrefix : done <+: call.changes ok manager kind) :
    (∀ key ∈ (manager.slot kind).map, key ∈ applyAll (manager.slot kind).map done) ∨
      ∀ key ∈ applyAll (manager.slot kind).map (call.changes ok manager kind),
        key ∈ applyAll (manager.slot kind).map done := by
  obtain ⟨source, rules, hashing⟩ := call
  cases source with
  | static => exact applyAll_between (insertChanges_adds _) (removeChanges_removes _ _ _) isPrefix
  | firehol => exact applyAll_between (insertChanges_adds _) (removeChanges_removes _ _ _) isPrefix

end ReputationFirewall.Maps
