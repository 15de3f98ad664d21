import ReputationFirewall.Shared.Collect

set_option autoImplicit false

namespace Scans

open Collect

variable {I V : Type}

/-- The relation holds between each value that has been read and its item. -/
def Reads (items : List I) (relation : I → V → Prop) (seen : List V) : Prop :=
  ∀ (index : Nat) (item : I) (value : V), items[index]? = some item → seen[index]? = some value → relation item value

/-- Every value that has been read is still that of its item. -/
def Current (items : List I) (valueOf : I → V) (seen : List V) : Prop :=
  Reads items (fun item value => value = valueOf item) seen

section Reading

variable {items : List I} {relation : I → V → Prop} {seen : List V}

theorem reads_nil : Reads items relation [] := by
  intro index item value _ read
  simp at read

theorem reads_concat {item : I} {value : V} (next : items[seen.length]? = some item) :
    Reads items relation (seen ++ [value]) ↔ Reads items relation seen ∧ relation item value := by
  constructor
  · intro reads
    constructor
    · intro index other old position read
      exact reads index other old position (getElem?_concat_iff.mpr (Or.inl read))
    · exact reads seen.length item value next (by simp)
  · rintro ⟨before, last⟩ index other old position read
    rcases getElem?_concat_iff.mp read with earlier | ⟨rfl, rfl⟩
    · exact before index other old position earlier
    · cases next.symm.trans position
      exact last

theorem Reads.imp {other : I → V → Prop} (reads : Reads items relation seen)
    (weaker : ∀ item value, relation item value → other item value) : Reads items other seen :=
  fun index item value position read => weaker item value (reads index item value position read)

variable {valueOf : I → V}

theorem Current.eq_map (current : Current items valueOf seen) (complete : seen.length = items.length) :
    seen = items.map valueOf := by
  apply List.ext_getElem?
  intro index
  rw [List.getElem?_map]
  cases position : items[index]? with
  | none =>
      rw [List.getElem?_eq_none_iff] at position
      exact List.getElem?_eq_none (by omega)
  | some item =>
      have inside := (List.getElem?_eq_some_iff.mp position).1
      obtain ⟨value, read⟩ : ∃ value, seen[index]? = some value := ⟨_, List.getElem?_eq_getElem (by omega)⟩
      rw [read, current index item value position read]
      rfl

theorem current_concat {item : I} (next : items[seen.length]? = some item) :
    Current items valueOf (seen ++ [valueOf item]) ↔ Current items valueOf seen := by
  rw [Current, reads_concat next]
  exact and_iff_left rfl

end Reading

section Changing

variable [DecidableEq I] {items : List I} {seen : List V} {valueOf : I → V} {item : I} {new : V}

theorem current_update_iff (fresh : Reads items (fun other value => other = item → value ≠ new) seen) :
    Current items (Function.update valueOf item new) seen ↔
      Current items valueOf seen ∧ item ∉ items.take seen.length := by
  constructor
  · intro current
    have unread (index : Nat) (value : V) (position : items[index]? = some item) (read : seen[index]? = some value) :
        False := by
      apply fresh index item value position read rfl
      rw [current index item value position read, Function.update_self]
    constructor
    · intro index other value position read
      have different : other ≠ item := by
        rintro rfl
        exact unread index value position read
      rw [current index other value position read, Function.update_of_ne different]
    · intro member
      obtain ⟨index, position⟩ := List.mem_iff_getElem?.mp member
      rw [List.getElem?_take, Option.ite_none_right_eq_some] at position
      exact unread index _ position.2 (List.getElem?_eq_getElem position.1)
  · rintro ⟨current, unread⟩ index other value position read
    have inside := (List.getElem?_eq_some_iff.mp read).1
    have different : other ≠ item := by
      rintro rfl
      refine unread (List.mem_of_getElem? (i := index) ?_)
      rw [List.getElem?_take, if_pos inside]
      exact position
    rw [current index other value position read, Function.update_of_ne different]

end Changing

end Scans
