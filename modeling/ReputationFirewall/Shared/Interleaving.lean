import Mathlib.Algebra.BigOperators.Group.Finset.Basic
import Mathlib.Data.Fintype.Basic
import Mathlib.Tactic

set_option autoImplicit false

namespace Interleaving

variable {ι α : Type} [DecidableEq ι]

/-- What a tagged list holds of one of the lists, in order. -/
def picked (index : ι) (tagged : List (ι × α)) : List α :=
  (tagged.filter fun item => item.1 = index).map Prod.snd

@[simp] theorem picked_nil (index : ι) : picked index ([] : List (ι × α)) = [] := rfl

@[simp] theorem picked_append (index : ι) (first second : List (ι × α)) :
    picked index (first ++ second) = picked index first ++ picked index second := by
  simp [picked]

@[simp] theorem picked_self (index : ι) (item : α) : picked index [(index, item)] = [item] := by
  simp [picked]

theorem picked_other {index other : ι} (different : other ≠ index) (item : α) :
    picked index [(other, item)] = [] := by
  simp [picked, different]

theorem mem_picked {index : ι} {tagged : List (ι × α)} {item : α} :
    item ∈ picked index tagged ↔ (index, item) ∈ tagged := by
  simp [picked]

theorem picked_eq_nil {index : ι} {tagged : List (ι × α)} (absent : ∀ item ∈ tagged, item.1 ≠ index) :
    picked index tagged = [] := by
  simpa [picked, List.filter_eq_nil_iff] using absent

/-- `merged` consists of the parts, each of them in its own order. -/
def Interleaves (parts : ι → List α) (merged : List α) : Prop :=
  ∃ tagged, tagged.map Prod.snd = merged ∧ ∀ index, picked index tagged = parts index

theorem picked_cons (index : ι) (item : ι × α) (rest : List (ι × α)) :
    picked index (item :: rest) = if item.1 = index then item.2 :: picked index rest
      else picked index rest := by
  by_cases same : item.1 = index <;> simp [picked, same]

theorem sum_picked [Fintype ι] (tagged : List (ι × α)) :
    ∑ index, (picked index tagged : Multiset α) = (tagged.map Prod.snd : List α) := by
  induction tagged with
  | nil => simp
  | cons item rest ih =>
      have split : ∀ index, (picked index (item :: rest) : Multiset α) =
          (if item.1 = index then {item.2} else 0) + picked index rest := by
        intro index
        by_cases same : item.1 = index <;> simp [picked_cons, same]
      simp [split, Finset.sum_add_distrib, ih]

theorem Interleaves.multiset [Fintype ι] {parts : ι → List α} {merged : List α}
    (woven : Interleaves parts merged) : (merged : Multiset α) = ∑ index, (parts index : Multiset α) := by
  obtain ⟨tagged, rfl, own⟩ := woven
  simp [← own, sum_picked]

section Sums

theorem sum_update_part [Fintype ι] {M : Type} [AddCommMonoid M] (measure : ι → α → M) (parts : ι → α) (index : ι)
    (part : α) :
    ∑ other, measure other (Function.update parts index part other) + measure index (parts index) =
      ∑ other, measure other (parts other) + measure index part := by
  have update : (fun other => measure other (Function.update parts index part other)) =
      Function.update (fun other => measure other (parts other)) index (measure index part) := by
    funext other
    rcases eq_or_ne other index with rfl | different
    · simp
    · simp [Function.update_of_ne different]
  rw [update, Finset.sum_update_of_mem (Finset.mem_univ index), Finset.sdiff_singleton_eq_erase,
    ← Finset.add_sum_erase Finset.univ (fun other => measure other (parts other)) (Finset.mem_univ index)]
  abel

theorem coe_flatMap_finRange {n : Nat} (parts : Fin n → List α) :
    ((List.finRange n).flatMap parts : Multiset α) = ∑ index, (parts index : Multiset α) := by
  rw [Fin.sum_univ_def, ← Multiset.coe_bind, Multiset.bind, Multiset.map_coe, Multiset.join, Multiset.sum_coe]

end Sums

end Interleaving
