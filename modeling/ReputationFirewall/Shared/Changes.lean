import ReputationFirewall.Shared.KeyedStore

set_option autoImplicit false

namespace KeyedStore

variable {K V : Type} [DecidableEq K]

inductive Change (K V : Type) where
  | insert (key : K) (value : V)
  | remove (key : K)

def Change.apply (store : Store K V) : Change K V → Store K V
  | .insert key value => store.insert key value
  | .remove key => store.erase key

def Change.Adds : Change K V → Prop
  | .insert .. => True
  | .remove _ => False

def applyAll (store : Store K V) (changes : List (Change K V)) : Store K V :=
  changes.foldl Change.apply store

@[simp] theorem applyAll_nil (store : Store K V) : applyAll store [] = store := rfl

@[simp] theorem applyAll_cons (store : Store K V) (change : Change K V) (rest : List (Change K V)) :
    applyAll store (change :: rest) = applyAll (change.apply store) rest := rfl

@[simp] theorem applyAll_append (store : Store K V) (first second : List (Change K V)) :
    applyAll store (first ++ second) = applyAll (applyAll store first) second :=
  List.foldl_append

theorem applyAll_grows {store : Store K V} {changes : List (Change K V)}
    (adds : ∀ change ∈ changes, change.Adds) {key : K} (present : key ∈ store) :
    key ∈ applyAll store changes := by
  induction changes generalizing store with
  | nil => exact present
  | cons change rest ih =>
      have later := fun change member => adds change (List.mem_cons_of_mem _ member)
      cases change with
      | insert added value =>
          exact ih later ((AList.mem_insert _).mpr (Or.inr present))
      | remove gone => exact absurd (adds _ List.mem_cons_self) id

theorem applyAll_shrinks {store : Store K V} {changes : List (Change K V)}
    (removes : ∀ change ∈ changes, ¬ change.Adds) {key : K} (kept : key ∈ applyAll store changes) :
    key ∈ store := by
  induction changes generalizing store with
  | nil => exact kept
  | cons change rest ih =>
      have later := fun change member => removes change (List.mem_cons_of_mem _ member)
      cases change with
      | insert added value => exact absurd trivial (removes _ List.mem_cons_self)
      | remove gone => exact ((AList.mem_erase).mp (ih later kept)).2

omit [DecidableEq K] in
theorem prefix_of_append {α : Type} {done first second : List α} (isPrefix : done <+: first ++ second) :
    done <+: first ∨ ∃ rest, rest <+: second ∧ done = first ++ rest := by
  rcases List.prefix_or_prefix_of_prefix isPrefix (List.prefix_append first second) with
    shorter | ⟨rest, rfl⟩
  · exact Or.inl shorter
  · exact Or.inr ⟨rest, (List.prefix_append_right_inj first).mp isPrefix, rfl⟩

theorem applyAll_between {store : Store K V} {inserts removes done : List (Change K V)}
    (adds : ∀ change ∈ inserts, change.Adds) (drops : ∀ change ∈ removes, ¬ change.Adds)
    (isPrefix : done <+: inserts ++ removes) :
    (∀ key ∈ store, key ∈ applyAll store done) ∨
      ∀ key ∈ applyAll store (inserts ++ removes), key ∈ applyAll store done := by
  rcases prefix_of_append isPrefix with early | ⟨removed, isRemoved, rfl⟩
  · left
    intro key present
    exact applyAll_grows (fun change member => adds change (early.subset member)) present
  · right
    intro key kept
    obtain ⟨rest, rfl⟩ := isRemoved
    rw [← List.append_assoc, applyAll_append] at kept
    exact applyAll_shrinks (fun change member => drops change (List.mem_append_right _ member)) kept

end KeyedStore
