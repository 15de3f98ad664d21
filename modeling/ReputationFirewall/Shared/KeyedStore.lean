import Mathlib.Data.List.AList
import Mathlib.Data.Finset.Card
import Mathlib.Data.List.MinMax
import Mathlib.Tactic

set_option autoImplicit false

namespace KeyedStore

variable {K V : Type} [DecidableEq K]

abbrev Store (K V : Type) := AList (fun _ : K => V)

def keySet (store : Store K V) : Finset K := store.keys.toFinset

@[simp] theorem mem_keySet (store : Store K V) (key : K) : key ∈ keySet store ↔ key ∈ store := by
  simp [keySet, AList.mem_keys]

theorem lookup_eq_some_mem {store : Store K V} {key : K} {value : V}
    (found : store.lookup key = some value) : key ∈ store :=
  AList.lookup_isSome.mp (by simp [found])

theorem lookup_insert_iff {store : Store K V} {key other : K} {value held : V} :
    (store.insert key value).lookup other = some held ↔
      store.lookup other = some held ∧ key ≠ other ∨ key = other ∧ held = value := by
  by_cases same : key = other
  · subst same
    rw [AList.lookup_insert]
    simp [eq_comm]
  · rw [AList.lookup_insert_ne (Ne.symm same)]
    simp [same]

theorem lookup_insert_fresh {store : Store K V} {key other : K} {value held : V} (absent : key ∉ store) :
    (store.insert key value).lookup other = some held ↔ store.lookup other = some held ∨ key = other ∧ held = value := by
  rw [lookup_insert_iff, and_iff_left_of_imp]
  rintro found rfl
  exact absent (lookup_eq_some_mem found)

theorem length_insert (store : Store K V) (key : K) (value : V) :
    (store.insert key value).entries.length = store.entries.length + if (store.lookup key).isSome then 0 else 1 := by
  have sizes (other : Store K V) : other.entries.length = other.keys.length := (List.length_map _).symm
  rw [sizes, sizes, AList.keys_insert, List.length_cons]
  by_cases present : key ∈ store
  · have positive := List.length_pos_of_mem (AList.mem_keys.mp present)
    rw [List.length_erase_of_mem (AList.mem_keys.mp present), if_pos (AList.lookup_isSome.mpr present)]
    omega
  · rw [List.erase_of_not_mem (mt AList.mem_keys.mpr present), if_neg (mt AList.lookup_isSome.mp present)]

def insertAll (store : Store K V) (entries : List (K × V)) : Store K V :=
  entries.foldl (fun store entry => store.insert entry.1 entry.2) store

theorem insertAll_cons (store : Store K V) (entry : K × V) (rest : List (K × V)) :
    insertAll store (entry :: rest) = insertAll (store.insert entry.1 entry.2) rest := rfl

@[simp] theorem mem_insertAll (store : Store K V) (entries : List (K × V)) (key : K) :
    key ∈ insertAll store entries ↔ key ∈ entries.map Prod.fst ∨ key ∈ store := by
  induction entries generalizing store with
  | nil => simp [insertAll]
  | cons entry rest ih =>
      rw [insertAll_cons, ih, AList.mem_insert, List.map_cons, List.mem_cons]
      tauto

def lastValue (key : K) (entries : List (K × V)) : Option V :=
  (entries.reverse.find? fun entry => entry.1 = key).map Prod.snd

theorem lookup_insertAll (store : Store K V) (entries : List (K × V)) (key : K) :
    (insertAll store entries).lookup key = (lastValue key entries).or (store.lookup key) := by
  induction entries using List.reverseRecOn with
  | nil => rfl
  | append_singleton entries entry ih =>
      have last : insertAll store (entries ++ [entry]) =
          (insertAll store entries).insert entry.1 entry.2 := by simp [insertAll]
      rw [last]
      by_cases same : entry.1 = key
      · subst same
        simp [lastValue]
      · rw [AList.lookup_insert_ne (Ne.symm same), ih]
        simp [lastValue, same]

theorem lastValue_mem {key : K} {value : V} {entries : List (K × V)}
    (last : lastValue key entries = some value) : (key, value) ∈ entries := by
  obtain ⟨entry, found, rfl⟩ := Option.map_eq_some_iff.mp last
  obtain rfl : entry.1 = key := by simpa using List.find?_some found
  exact List.mem_reverse.mp (List.mem_of_find?_eq_some found)

theorem lastValue_isSome (key : K) (entries : List (K × V)) :
    (lastValue key entries).isSome ↔ key ∈ entries.map Prod.fst := by
  simp [lastValue]

theorem lookup_insertAll_map {W : Type} (convert : V → W) (entries : List (K × V)) (key : K) :
    (insertAll (∅ : Store K W) (entries.map fun entry => (entry.1, convert entry.2))).lookup key =
      ((insertAll (∅ : Store K V) entries).lookup key).map convert := by
  have last : lastValue key (entries.map fun entry => (entry.1, convert entry.2)) =
      (lastValue key entries).map convert := by
    simp [lastValue, ← List.map_reverse, List.find?_map, Function.comp_def]
  simp [lookup_insertAll, last]

theorem lookup_insertAll_absent (store : Store K V) (entries : List (K × V)) (key : K)
    (absent : key ∉ entries.map Prod.fst) :
    (insertAll store entries).lookup key = store.lookup key := by
  rw [← lastValue_isSome, Option.not_isSome_iff_eq_none] at absent
  simp [lookup_insertAll, absent]

theorem lookup_insertAll_present (store : Store K V) (entries : List (K × V)) (key : K)
    (present : key ∈ entries.map Prod.fst) :
    ∃ value, (key, value) ∈ entries ∧ (insertAll store entries).lookup key = some value := by
  obtain ⟨value, last⟩ := Option.isSome_iff_exists.mp ((lastValue_isSome key entries).mpr present)
  exact ⟨value, lastValue_mem last, by simp [lookup_insertAll, last]⟩

theorem lookup_insertAll_nodup (store : Store K V) {entries : List (K × V)} {key : K} {value : V}
    (distinct : (entries.map Prod.fst).Nodup) (listed : (key, value) ∈ entries) :
    (insertAll store entries).lookup key = some value := by
  obtain ⟨other, member, found⟩ := lookup_insertAll_present store entries key
    (List.mem_map.mpr ⟨(key, value), listed, rfl⟩)
  have same := List.inj_on_of_nodup_map distinct member listed rfl
  obtain rfl : other = value := congrArg Prod.snd same
  exact found

theorem toList_lastValue {entries : List (K × V)} (distinct : (entries.map Prod.fst).Nodup) (key : K) :
    (lastValue key entries).toList = entries.filterMap fun entry => if entry.1 = key then some entry.2 else none := by
  induction entries with
  | nil => rfl
  | cons entry rest ih =>
      obtain ⟨absent, later⟩ := List.nodup_cons.mp distinct
      have first : lastValue key (entry :: rest) =
          (lastValue key rest).or (if entry.1 = key then some entry.2 else none) := by
        unfold lastValue
        rw [List.reverse_cons, List.find?_append, Option.map_or]
        by_cases same : entry.1 = key <;> simp [same]
      rw [first, List.filterMap_cons, ← ih later]
      by_cases same : entry.1 = key
      · rw [same, ← lastValue_isSome, Option.not_isSome_iff_eq_none] at absent
        simp [same, absent]
      · simp [same]

theorem lookup_insertAll_iff {entries : List (K × V)} {valueOf : K → V}
    (functional : ∀ entry ∈ entries, entry.2 = valueOf entry.1) (key : K) (value : V) :
    (insertAll ∅ entries).lookup key = some value ↔ (key, value) ∈ entries := by
  constructor
  · intro found
    rw [lookup_insertAll, AList.lookup_empty, Option.or_none] at found
    exact lastValue_mem found
  · intro listed
    obtain ⟨other, member, found⟩ := lookup_insertAll_present ∅ entries key
      (List.mem_map.mpr ⟨(key, value), listed, rfl⟩)
    rw [found]
    exact congrArg some ((functional _ member).trans (functional _ listed).symm)

def eraseAll (store : Store K V) (keys : List K) : Store K V :=
  keys.foldl (fun store key => store.erase key) store

theorem lookup_eraseAll (store : Store K V) (keys : List K) (key : K) :
    (eraseAll store keys).lookup key = if key ∈ keys then none else store.lookup key := by
  induction keys generalizing store with
  | nil => simp [eraseAll]
  | cons head rest ih =>
      change (eraseAll (store.erase head) rest).lookup key = _
      rw [ih]
      by_cases same : key = head
      · subst same
        simp
      · simp [same]

section Retained

def values (store : Store K V) : List V := store.entries.map Sigma.snd

omit [DecidableEq K] in
@[simp] theorem length_values (store : Store K V) : (values store).length = store.keys.length := by
  simp [values, AList.keys, List.keys]

theorem mem_values (store : Store K V) (value : V) :
    value ∈ values store ↔ ∃ key, store.lookup key = some value := by
  rw [values, List.mem_map]
  constructor
  · intro listed
    obtain ⟨entry, member, rfl⟩ := listed
    exact ⟨entry.1, AList.mem_lookup_iff.mpr member⟩
  · intro found
    obtain ⟨key, lookup⟩ := found
    exact ⟨⟨key, value⟩, AList.mem_lookup_iff.mp lookup, rfl⟩

theorem map_values {keyOf : V → K} {store : Store K V}
    (own : ∀ key value, store.lookup key = some value → keyOf value = key) :
    (values store).map keyOf = store.keys := by
  rw [values, List.map_map, AList.keys, List.keys]
  apply List.map_congr_left
  intro entry member
  exact own entry.1 entry.2 (AList.mem_lookup_iff.mpr member)

def retain (store : Store K V) (keep : K → Bool) : Store K V :=
  ⟨store.entries.filter fun entry => keep entry.1, store.nodupKeys.sublist List.filter_sublist⟩

theorem lookup_retain (store : Store K V) (keep : K → Bool) (key : K) (value : V) :
    (retain store keep).lookup key = some value ↔ store.lookup key = some value ∧ keep key = true := by
  rw [← Option.mem_def, ← Option.mem_def, AList.mem_lookup_iff, AList.mem_lookup_iff]
  exact List.mem_filter

end Retained

section Ordered

variable (le : K → K → Bool)

def orderedValues (store : Store K V) : List V := (store.keys.mergeSort le).filterMap store.lookup

theorem orderedValues_insertAll (trans : ∀ a b c, le a b = true → le b c = true → le a c = true)
    (total : ∀ a b, (le a b || le b a) = true) (antisymm : ∀ a b, le a b = true → le b a = true → a = b)
    {entries : List (K × V)} (distinct : (entries.map Prod.fst).Nodup)
    (sorted : (entries.map Prod.fst).Pairwise fun a b => le a b = true) :
    orderedValues le (insertAll ∅ entries) = entries.map Prod.snd := by
  have keys : (insertAll (∅ : Store K V) entries).keys.mergeSort le = entries.map Prod.fst := by
    apply List.Perm.eq_of_pairwise (fun a b _ _ => antisymm a b)
      (List.pairwise_mergeSort trans total _) sorted
    apply (List.mergeSort_perm _ _).trans
    rw [List.perm_ext_iff_of_nodup (AList.keys_nodup _) distinct]
    intro key
    exact (mem_insertAll ∅ entries key).trans (by simp)
  have each : ∀ entry ∈ entries,
      ((insertAll (∅ : Store K V) entries).lookup ∘ Prod.fst) entry = (some ∘ Prod.snd) entry :=
    fun entry member => lookup_insertAll_nodup ∅ distinct member
  rw [orderedValues, keys, List.filterMap_map, List.filterMap_congr each, List.filterMap_eq_map]

/-- The entries of a store that is scanned in the order of its keys. -/
def orderedPairs (store : Store K V) : List (K × V) :=
  (store.keys.mergeSort le).filterMap fun key => (store.lookup key).map fun value => (key, value)

theorem orderedPairs_keys (store : Store K V) :
    (orderedPairs le store).map Prod.fst = store.keys.mergeSort le := by
  rw [orderedPairs, List.map_filterMap]
  have each : ∀ key ∈ store.keys.mergeSort le,
      Option.map Prod.fst ((store.lookup key).map fun value => (key, value)) = some key := by
    intro key listed
    obtain ⟨value, found⟩ := Option.isSome_iff_exists.mp
      (AList.lookup_isSome.mpr (AList.mem_keys.mp ((List.mergeSort_perm _ _).mem_iff.mp listed)))
    simp [found]
  rw [List.filterMap_congr each, List.filterMap_some]

theorem mem_orderedPairs (store : Store K V) (entry : K × V) :
    entry ∈ orderedPairs le store ↔ store.lookup entry.1 = some entry.2 := by
  simp only [orderedPairs, List.mem_filterMap, Option.map_eq_some_iff]
  constructor
  · rintro ⟨key, _, value, found, rfl⟩
    exact found
  · intro found
    refine ⟨entry.1, ?_, entry.2, found, rfl⟩
    exact (List.mergeSort_perm _ _).mem_iff.mpr (AList.mem_keys.mp (lookup_eq_some_mem found))

theorem orderedPairs_nodup (store : Store K V) : ((orderedPairs le store).map Prod.fst).Nodup := by
  rw [orderedPairs_keys]
  exact (List.mergeSort_perm _ _).nodup_iff.mpr (AList.keys_nodup store)

theorem orderedPairs_perm {entries : List (K × V)} (distinct : (entries.map Prod.fst).Nodup) :
    (orderedPairs le (insertAll ∅ entries)).Perm entries := by
  rw [List.perm_ext_iff_of_nodup (orderedPairs_nodup le _).of_map distinct.of_map]
  intro entry
  rw [mem_orderedPairs]
  constructor
  · intro found
    obtain ⟨value, listed, other⟩ := lookup_insertAll_present ∅ entries entry.1
      (((mem_insertAll ∅ entries entry.1).mp (lookup_eq_some_mem found)).resolve_right (by simp))
    obtain rfl : entry.2 = value := Option.some.inj (found.symm.trans other)
    exact listed
  · exact lookup_insertAll_nodup ∅ distinct

theorem orderedPairs_sorted (trans : ∀ a b c, le a b = true → le b c = true → le a c = true)
    (total : ∀ a b, (le a b || le b a) = true) (store : Store K V) :
    (orderedPairs le store).Pairwise fun a b => le a.1 b.1 = true := by
  have keys := List.pairwise_mergeSort trans total store.keys
  rwa [← orderedPairs_keys, List.pairwise_map] at keys

theorem orderedPairs_filter (trans : ∀ a b c, le a b = true → le b c = true → le a c = true)
    (total : ∀ a b, (le a b || le b a) = true) (antisymm : ∀ a b, le a b = true → le b a = true → a = b)
    {entries : List (K × V)} (distinct : (entries.map Prod.fst).Nodup) (wanted : K × V → Bool)
    (sorted : (entries.filter wanted).Pairwise fun a b => le a.1 b.1 = true) :
    (orderedPairs le (insertAll ∅ entries)).filter wanted = entries.filter wanted := by
  apply List.Perm.eq_of_pairwise _ ((orderedPairs_sorted le trans total _).filter wanted) sorted
    ((orderedPairs_perm le distinct).filter wanted)
  intro first second scanned listed below above
  exact List.inj_on_of_nodup_map distinct
    ((orderedPairs_perm le distinct).mem_iff.mp (List.mem_of_mem_filter scanned))
    (List.mem_of_mem_filter listed) (antisymm _ _ below above)

end Ordered

/-- The order in which a pass over a hash container meets its elements, which is unspecified. -/
structure HashOrder (α : Type) where
  list : Finset α → List α
  nodup_list : ∀ elements, (list elements).Nodup
  mem_list : ∀ elements element, element ∈ list elements ↔ element ∈ elements

noncomputable def HashOrder.arbitrary (α : Type) : HashOrder α :=
  ⟨Finset.toList, Finset.nodup_toList, fun _ _ => Finset.mem_toList⟩

theorem HashOrder.length_list [DecidableEq V] (order : HashOrder V) (elements : Finset V) :
    (order.list elements).length = elements.card := by
  rw [← List.toFinset_card_of_nodup (order.nodup_list elements)]
  congr 1
  ext element
  simp [order.mem_list]

/-- The entries of a hash map as one pass over it meets them. -/
def HashOrder.iterate (order : HashOrder K) (store : Store K V) : List (K × V) :=
  (order.list (keySet store)).filterMap fun key => (store.lookup key).map fun value => (key, value)

@[simp] theorem HashOrder.mem_iterate (order : HashOrder K) (store : Store K V) (key : K) (value : V) :
    (key, value) ∈ order.iterate store ↔ store.lookup key = some value := by
  simp only [iterate, List.mem_filterMap, order.mem_list, mem_keySet, Option.map_eq_some_iff]
  constructor
  · rintro ⟨found, _, stored, equal, pair⟩
    obtain ⟨rfl, rfl⟩ := Prod.mk.inj pair
    exact equal
  · intro found
    exact ⟨key, lookup_eq_some_mem found, value, found, rfl⟩

theorem HashOrder.iterate_nodup (order : HashOrder K) (store : Store K V) :
    ((order.iterate store).map Prod.fst).Nodup := by
  rw [iterate, List.map_filterMap]
  apply (order.nodup_list _).filterMap
  intro first second key one other
  simp only [Option.map_map, Option.mem_def, Option.map_eq_some_iff, Function.comp_apply] at one other
  obtain ⟨_, _, rfl⟩ := one
  obtain ⟨_, _, same⟩ := other
  exact same.symm

theorem HashOrder.lastValue_iterate (order : HashOrder K) (store : Store K V) (key : K) :
    lastValue key (order.iterate store) = store.lookup key := by
  cases found : store.lookup key with
  | some value =>
      have listed := (order.mem_iterate store key value).mpr found
      have some := (lastValue_isSome key (order.iterate store)).mpr (List.mem_map.mpr ⟨_, listed, rfl⟩)
      obtain ⟨other, last⟩ := Option.isSome_iff_exists.mp some
      rw [last, ← found, ← (order.mem_iterate store key other).mp (lastValue_mem last)]
  | none =>
      rw [← Option.not_isSome_iff_eq_none, lastValue_isSome]
      simp [found]

theorem HashOrder.iterate_perm (order : HashOrder K) (store : Store K V) :
    ((order.iterate store).map Prod.snd).Perm (values store) := by
  have entries : (order.iterate store).Perm (store.entries.map fun entry => (entry.1, entry.2)) := by
    refine (List.perm_ext_iff_of_nodup (List.Nodup.of_map _ (order.iterate_nodup store)) ?_).mpr ?_
    · refine List.Nodup.of_map Prod.fst ?_
      rw [List.map_map]
      exact store.nodupKeys
    · rintro ⟨key, value⟩
      rw [order.mem_iterate, ← Option.mem_def, AList.mem_lookup_iff, List.mem_map]
      constructor
      · exact fun listed => ⟨⟨key, value⟩, listed, rfl⟩
      · rintro ⟨entry, listed, same⟩
        cases same
        exact listed
  refine (entries.map Prod.snd).trans (List.Perm.of_eq ?_)
  rw [List.map_map]
  rfl

theorem HashOrder.mem_insertAll_iterate (order : HashOrder K) (store other : Store K V) (key : K) :
    key ∈ insertAll store (order.iterate other) ↔ key ∈ store ∨ key ∈ other := by
  rw [mem_insertAll, ← lastValue_isSome, order.lastValue_iterate, AList.lookup_isSome, or_comm]

section BestMatch

omit [DecidableEq K]

variable (matching : K → Bool) (rank : K → Nat) (store : Store K V)

/-- The value of a matching key of highest rank. -/
def bestMatch : Option V :=
  ((store.entries.filter fun entry => matching entry.1).argmax fun entry => rank entry.1).map Sigma.snd

theorem bestMatch_isSome : (bestMatch matching rank store).isSome ↔ ∃ key ∈ store, matching key := by
  rw [bestMatch, Option.isSome_map, ← Option.ne_none_iff_isSome, ne_eq, List.argmax_eq_none,
    List.filter_eq_nil_iff]
  constructor
  · intro hit
    push Not at hit
    obtain ⟨entry, member, found⟩ := hit
    exact ⟨entry.1, AList.mem_keys.mpr (List.mem_keys_of_mem member), found⟩
  · intro hit none
    obtain ⟨key, member, found⟩ := hit
    obtain ⟨value, listed⟩ := List.exists_of_mem_keys (AList.mem_keys.mp member)
    exact none ⟨key, value⟩ listed found

theorem bestMatch_eq_some [DecidableEq K] {value : V} (best : bestMatch matching rank store = some value) :
    ∃ key, store.lookup key = some value ∧ matching key ∧
      ∀ other ∈ store, matching other → rank other ≤ rank key := by
  obtain ⟨entry, found, rfl⟩ := Option.map_eq_some_iff.mp best
  have member := List.mem_filter.mp (List.argmax_mem found)
  refine ⟨entry.1, AList.mem_lookup_iff.mpr member.1, member.2, ?_⟩
  intro other present hit
  obtain ⟨value, listed⟩ := List.exists_of_mem_keys (AList.mem_keys.mp present)
  have candidate : (⟨other, value⟩ : Sigma fun _ : K => V) ∈
      store.entries.filter fun entry => matching entry.1 := List.mem_filter.mpr ⟨listed, hit⟩
  have below := List.le_of_mem_argmax candidate (Option.mem_def.mpr found)
  exact below

end BestMatch

end KeyedStore
