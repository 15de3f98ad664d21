import ReputationFirewall.Shared.KeyedStore

set_option autoImplicit false

namespace ReputationFirewall.Maps

open KeyedStore

variable {K V : Type} [DecidableEq K]

structure InsertPass (K V : Type) where
  map : Store K V
  installed : Finset K
  inserted : Nat
  warned : Bool

-- `ok i` is the outcome of the `i`-th insert of the pass.
def insertIteration (ok : Nat → Bool) (index : Nat) (pass : InsertPass K V) (entry : K × V) :
    InsertPass K V :=
  if pass.warned then pass
  else if ok index then
    { pass with
      map := pass.map.insert entry.1 entry.2
      installed := insert entry.1 pass.installed
      inserted := pass.inserted + 1 }
  else { pass with warned := true }

def insertPass (ok : Nat → Bool) : Nat → InsertPass K V → List (K × V) → InsertPass K V
  | _, pass, [] => pass
  | index, pass, entry :: rest =>
      insertPass ok (index + 1) (insertIteration ok index pass entry) rest

def accepted (ok : Nat → Bool) : Nat → List (K × V) → List (K × V)
  | _, [] => []
  | index, entry :: rest => if ok index then entry :: accepted ok (index + 1) rest else []

omit [DecidableEq K] in
theorem accepted_all (ok : Nat → Bool) (index : Nat) (entries : List (K × V))
    (succeed : ∀ i, i < entries.length → ok (index + i) = true) :
    accepted ok index entries = entries := by
  induction entries generalizing index with
  | nil => rfl
  | cons entry rest ih =>
      have first : ok index = true := succeed 0 (by simp)
      have later := ih (index + 1) (fun i bound => by
        have next := succeed (i + 1) (by simpa using bound)
        rwa [show index + 1 + i = index + (i + 1) by omega])
      simp [accepted, first, later]

omit [DecidableEq K] in
theorem accepted_sublist (ok : Nat → Bool) (index : Nat) (entries : List (K × V)) :
    (accepted ok index entries).Sublist entries := by
  induction entries generalizing index with
  | nil => exact List.Sublist.refl _
  | cons entry rest ih =>
      by_cases first : ok index = true
      · simpa [accepted, first] using ih (index + 1)
      · simp [accepted, first]

omit [DecidableEq K] in
theorem mem_accepted_iff (ok : Nat → Bool) (index : Nat) (entries : List (K × V)) (key : K) :
    key ∈ (accepted ok index entries).map Prod.fst ↔
      ∃ i, (entries.map Prod.fst)[i]? = some key ∧ ∀ j, j ≤ i → ok (index + j) = true := by
  induction entries generalizing index with
  | nil => simp [accepted]
  | cons entry rest ih =>
      by_cases first : ok index = true
      · rw [accepted, if_pos first, List.map_cons, List.mem_cons, ih]
        constructor
        · rintro (rfl | ⟨i, found, earlier⟩)
          · refine ⟨0, by simp, fun j bound => ?_⟩
            obtain rfl : j = 0 := by omega
            exact first
          · refine ⟨i + 1, by simpa using found, fun j bound => ?_⟩
            cases j with
            | zero => exact first
            | succ j =>
                have next := earlier j (by omega)
                rwa [show index + (j + 1) = index + 1 + j by omega]
        · rintro ⟨i, found, earlier⟩
          cases i with
          | zero => exact Or.inl (by simpa using found.symm)
          | succ i =>
              refine Or.inr ⟨i, by simpa using found, fun j bound => ?_⟩
              have next := earlier (j + 1) (by omega)
              rwa [show index + 1 + j = index + (j + 1) by omega]
      · rw [accepted, if_neg first]
        constructor
        · intro member
          simp at member
        · rintro ⟨i, _, earlier⟩
          exact absurd (earlier 0 (by omega)) first

theorem insertPass_warned (ok : Nat → Bool) (index : Nat) (pass : InsertPass K V)
    (entries : List (K × V)) (warned : pass.warned = true) :
    insertPass ok index pass entries = pass := by
  induction entries generalizing index with
  | nil => rfl
  | cons entry rest ih => simp [insertPass, insertIteration, warned, ih]

theorem insertPass_map (ok : Nat → Bool) (index : Nat) (pass : InsertPass K V)
    (entries : List (K × V)) (running : pass.warned = false) :
    (insertPass ok index pass entries).map = insertAll pass.map (accepted ok index entries) := by
  induction entries generalizing index pass with
  | nil => rfl
  | cons entry rest ih =>
      by_cases first : ok index = true
      · rw [insertPass, ih _ _ (by simp [insertIteration, running, first])]
        simp [insertIteration, running, accepted, first, insertAll_cons]
      · rw [insertPass, insertPass_warned _ _ _ _ (by simp [insertIteration, running, first])]
        simp [insertIteration, running, accepted, first, insertAll]

theorem insertPass_installed (ok : Nat → Bool) (index : Nat) (pass : InsertPass K V)
    (entries : List (K × V)) (running : pass.warned = false) (key : K) :
    key ∈ (insertPass ok index pass entries).installed ↔
      key ∈ pass.installed ∨ key ∈ (accepted ok index entries).map Prod.fst := by
  induction entries generalizing index pass with
  | nil => simp [insertPass, accepted]
  | cons entry rest ih =>
      by_cases first : ok index = true
      · rw [insertPass, ih _ _ (by simp [insertIteration, running, first])]
        simp only [insertIteration, running, accepted, first, if_true, Bool.false_eq_true, if_false,
          Finset.mem_insert, List.map_cons, List.mem_cons]
        tauto
      · rw [insertPass, insertPass_warned _ _ _ _ (by simp [insertIteration, running, first])]
        simp [insertIteration, running, accepted, first]

structure RemovePass (K V : Type) where
  map : Store K V
  removed : Nat

def removeIteration (keep : Store K V → K → Bool) (pass : RemovePass K V) (key : K) :
    RemovePass K V :=
  if keep pass.map key then pass
  else { map := pass.map.erase key, removed := pass.removed + 1 }

def removePass (keep : Store K V → K → Bool) (pass : RemovePass K V) (stale : List K) :
    RemovePass K V :=
  stale.foldl (removeIteration keep) pass

theorem removePass_eq (keep : Store K V → K → Bool) (pass : RemovePass K V) (stale : List K)
    (never : ∀ map, ∀ key ∈ stale, keep map key = false) :
    removePass keep pass stale = ⟨eraseAll pass.map stale, pass.removed + stale.length⟩ := by
  induction stale generalizing pass with
  | nil => rfl
  | cons key rest ih =>
      have removes : removeIteration keep pass key = ⟨pass.map.erase key, pass.removed + 1⟩ := by
        simp [removeIteration, never pass.map key List.mem_cons_self]
      have tail := ih ⟨pass.map.erase key, pass.removed + 1⟩
        (fun map key member => never map key (List.mem_cons_of_mem _ member))
      rw [removePass, List.foldl_cons, removes]
      rw [removePass] at tail
      rw [tail]
      simp [eraseAll, Nat.add_comm, Nat.add_left_comm]

structure Slot (K V : Type) where
  map : Store K V
  firehol : Finset K

structure SlotSync (K V : Type) where
  slot : Slot K V
  inserted : Nat
  removed : Nat

-- `static_*`: the keys present in the map and not owned by FireHOL.
def staticKeys (map : Store K V) (firehol : Finset K) : Finset K := keySet map \ firehol

def syncStatic (staleOrder : HashOrder K) (ok : Nat → Bool) (slot : Slot K V)
    (entries : List (K × V)) : SlotSync K V :=
  let pass := insertPass ok 0 ⟨slot.map, ∅, 0, false⟩ entries
  let stale := staleOrder.list (staticKeys pass.map slot.firehol \ pass.installed)
  let swept := removePass (fun _ key => decide (key ∈ slot.firehol)) ⟨pass.map, 0⟩ stale
  { slot := { map := swept.map, firehol := slot.firehol }
    inserted := pass.inserted
    removed := swept.removed }

def syncFirehol (staleOrder : HashOrder K) (ok : Nat → Bool) (slot : Slot K V)
    (entries : List (K × V)) : SlotSync K V :=
  let pass := insertPass ok 0 ⟨slot.map, ∅, 0, false⟩ entries
  let stale := staleOrder.list (slot.firehol \ pass.installed)
  -- The static keys are read again before each removal, from the map as it is then.
  let swept := removePass (fun map key => decide (key ∈ staticKeys map slot.firehol))
    ⟨pass.map, 0⟩ stale
  { slot := { map := swept.map, firehol := pass.installed }
    inserted := pass.inserted
    removed := swept.removed }

def installedKeys (ok : Nat → Bool) (entries : List (K × V)) : Finset K :=
  ((accepted ok 0 entries).map Prod.fst).toFinset

theorem insertPass_start (ok : Nat → Bool) (map : Store K V) (entries : List (K × V)) :
    (insertPass ok 0 ⟨map, ∅, 0, false⟩ entries).map = insertAll map (accepted ok 0 entries) ∧
      (insertPass ok 0 ⟨map, ∅, 0, false⟩ entries).installed = installedKeys ok entries := by
  refine ⟨insertPass_map ok 0 _ entries rfl, ?_⟩
  ext key
  rw [insertPass_installed ok 0 _ entries rfl]
  simp [installedKeys]

theorem syncStatic_firehol (staleOrder : HashOrder K) (ok : Nat → Bool) (slot : Slot K V)
    (entries : List (K × V)) :
    (syncStatic staleOrder ok slot entries).slot.firehol = slot.firehol := rfl

theorem syncFirehol_firehol (staleOrder : HashOrder K) (ok : Nat → Bool) (slot : Slot K V)
    (entries : List (K × V)) :
    (syncFirehol staleOrder ok slot entries).slot.firehol = installedKeys ok entries :=
  (insertPass_start ok slot.map entries).2

theorem syncStatic_pass (staleOrder : HashOrder K) (ok : Nat → Bool) (slot : Slot K V)
    (entries : List (K × V)) :
    let stale := staleOrder.list
      (staticKeys (insertAll slot.map (accepted ok 0 entries)) slot.firehol \ installedKeys ok entries)
    (syncStatic staleOrder ok slot entries).slot.map =
        eraseAll (insertAll slot.map (accepted ok 0 entries)) stale ∧
      (syncStatic staleOrder ok slot entries).removed = stale.length := by
  obtain ⟨map, installed⟩ := insertPass_start ok slot.map entries
  intro stale
  have swept := removePass_eq (fun _ key => decide (key ∈ slot.firehol))
    ⟨insertAll slot.map (accepted ok 0 entries), 0⟩ stale (by
      intro _ key member
      rw [staleOrder.mem_list, Finset.mem_sdiff, staticKeys, Finset.mem_sdiff] at member
      simp [member.1.2])
  simp only [syncStatic, map, installed]
  change (removePass _ _ stale).map = _ ∧ (removePass _ _ stale).removed = _
  rw [swept]
  simp

theorem syncFirehol_pass (staleOrder : HashOrder K) (ok : Nat → Bool) (slot : Slot K V)
    (entries : List (K × V)) :
    let stale := staleOrder.list (slot.firehol \ installedKeys ok entries)
    (syncFirehol staleOrder ok slot entries).slot.map =
        eraseAll (insertAll slot.map (accepted ok 0 entries)) stale ∧
      (syncFirehol staleOrder ok slot entries).removed = stale.length := by
  obtain ⟨map, installed⟩ := insertPass_start ok slot.map entries
  intro stale
  -- A FireHOL-owned key is never among the static keys, so the check never keeps one.
  have swept := removePass_eq (fun map key => decide (key ∈ staticKeys map slot.firehol))
    ⟨insertAll slot.map (accepted ok 0 entries), 0⟩ stale (by
      intro _ key member
      rw [staleOrder.mem_list, Finset.mem_sdiff] at member
      simp [staticKeys, member.1])
  simp only [syncFirehol, map, installed]
  change (removePass _ _ stale).map = _ ∧ (removePass _ _ stale).removed = _
  rw [swept]
  simp

theorem mem_installedKeys_entry (ok : Nat → Bool) (map : Store K V) (entries : List (K × V)) (key : K)
    (installed : key ∈ installedKeys ok entries) :
    ∃ value, (key, value) ∈ entries ∧
      (insertAll map (accepted ok 0 entries)).lookup key = some value := by
  simp only [installedKeys, List.mem_toFinset] at installed
  obtain ⟨value, member, found⟩ := lookup_insertAll_present map _ key installed
  exact ⟨value, (accepted_sublist ok 0 entries).subset member, found⟩

theorem installedKeys_subset (ok : Nat → Bool) (entries : List (K × V)) (key : K)
    (installed : key ∈ installedKeys ok entries) : key ∈ entries.map Prod.fst := by
  obtain ⟨value, member, _⟩ := mem_installedKeys_entry ok ∅ entries key installed
  exact List.mem_map.mpr ⟨_, member, rfl⟩

theorem installedKeys_all (ok : Nat → Bool) (entries : List (K × V))
    (succeed : ∀ i, ok i = true) (key : K) :
    key ∈ installedKeys ok entries ↔ key ∈ entries.map Prod.fst := by
  simp [installedKeys, accepted_all ok 0 entries (fun i _ => succeed _)]

theorem lookup_accepted (ok : Nat → Bool) (map : Store K V) (entries : List (K × V)) (key : K)
    (skipped : key ∉ installedKeys ok entries) :
    (insertAll map (accepted ok 0 entries)).lookup key = map.lookup key := by
  apply lookup_insertAll_absent
  simpa [installedKeys] using skipped

theorem syncStatic_lookup (staleOrder : HashOrder K) (ok : Nat → Bool) (slot : Slot K V)
    (entries : List (K × V)) (key : K) :
    (syncStatic staleOrder ok slot entries).slot.map.lookup key =
      if key ∈ installedKeys ok entries then
        (insertAll slot.map (accepted ok 0 entries)).lookup key
      else if key ∈ slot.firehol then slot.map.lookup key
      else none := by
  rw [(syncStatic_pass staleOrder ok slot entries).1, lookup_eraseAll]
  by_cases installed : key ∈ installedKeys ok entries
  · simp [staleOrder.mem_list, installed]
  · have before := lookup_accepted ok slot.map entries key installed
    by_cases owned : key ∈ slot.firehol
    · simp [staleOrder.mem_list, staticKeys, installed, owned, before]
    · cases found : slot.map.lookup key with
      | none => simp [installed, owned, before, found]
      | some value =>
          have present := lookup_eq_some_mem found
          simp [staleOrder.mem_list, staticKeys, installed, owned, present]

theorem syncFirehol_lookup (staleOrder : HashOrder K) (ok : Nat → Bool) (slot : Slot K V)
    (entries : List (K × V)) (key : K) :
    (syncFirehol staleOrder ok slot entries).slot.map.lookup key =
      if key ∈ installedKeys ok entries then
        (insertAll slot.map (accepted ok 0 entries)).lookup key
      else if key ∈ slot.firehol then none
      else slot.map.lookup key := by
  rw [(syncFirehol_pass staleOrder ok slot entries).1, lookup_eraseAll]
  by_cases installed : key ∈ installedKeys ok entries
  · simp [staleOrder.mem_list, installed]
  · have before := lookup_accepted ok slot.map entries key installed
    by_cases owned : key ∈ slot.firehol <;>
      simp [staleOrder.mem_list, installed, owned, before]

theorem mem_iff_of_lookup {map : Store K V} {key : K} : key ∈ map ↔ (map.lookup key).isSome :=
  AList.lookup_isSome.symm

theorem installedKeys_isSome (ok : Nat → Bool) (map : Store K V) (entries : List (K × V)) (key : K)
    (installed : key ∈ installedKeys ok entries) :
    ((insertAll map (accepted ok 0 entries)).lookup key).isSome = true := by
  obtain ⟨value, _, found⟩ := mem_installedKeys_entry ok map entries key installed
  simp [found]

theorem mem_syncStatic (staleOrder : HashOrder K) (ok : Nat → Bool) (slot : Slot K V)
    (entries : List (K × V)) (key : K) :
    key ∈ (syncStatic staleOrder ok slot entries).slot.map ↔
      key ∈ installedKeys ok entries ∨ key ∈ slot.map ∧ key ∈ slot.firehol := by
  rw [mem_iff_of_lookup, syncStatic_lookup, mem_iff_of_lookup]
  by_cases installed : key ∈ installedKeys ok entries
  · simp [installed, installedKeys_isSome]
  · by_cases owned : key ∈ slot.firehol <;> simp [installed, owned]

theorem mem_syncFirehol (staleOrder : HashOrder K) (ok : Nat → Bool) (slot : Slot K V)
    (entries : List (K × V)) (key : K) :
    key ∈ (syncFirehol staleOrder ok slot entries).slot.map ↔
      key ∈ installedKeys ok entries ∨ key ∈ slot.map ∧ key ∉ slot.firehol := by
  rw [mem_iff_of_lookup, syncFirehol_lookup, mem_iff_of_lookup]
  by_cases installed : key ∈ installedKeys ok entries
  · simp [installed, installedKeys_isSome]
  · by_cases owned : key ∈ slot.firehol <;> simp [installed, owned]

theorem syncStatic_removed (staleOrder : HashOrder K) (ok : Nat → Bool) (slot : Slot K V)
    (entries : List (K × V)) :
    (syncStatic staleOrder ok slot entries).removed =
      (keySet slot.map \ keySet (syncStatic staleOrder ok slot entries).slot.map).card := by
  rw [(syncStatic_pass staleOrder ok slot entries).2, staleOrder.length_list]
  congr 1
  ext key
  simp only [Finset.mem_sdiff, mem_keySet, mem_syncStatic, staticKeys, mem_insertAll]
  have installed : key ∈ (accepted ok 0 entries).map Prod.fst ↔ key ∈ installedKeys ok entries := by
    simp [installedKeys]
  rw [installed]
  tauto

-- Counting removals exactly needs that what FireHOL owns is still in the map.
theorem syncFirehol_removed (staleOrder : HashOrder K) (ok : Nat → Bool) (slot : Slot K V)
    (entries : List (K × V)) (present : ∀ key ∈ slot.firehol, key ∈ slot.map) :
    (syncFirehol staleOrder ok slot entries).removed =
      (keySet slot.map \ keySet (syncFirehol staleOrder ok slot entries).slot.map).card := by
  rw [(syncFirehol_pass staleOrder ok slot entries).2, staleOrder.length_list]
  congr 1
  ext key
  have owned := present key
  simp only [Finset.mem_sdiff, mem_keySet, mem_syncFirehol]
  tauto

end ReputationFirewall.Maps
