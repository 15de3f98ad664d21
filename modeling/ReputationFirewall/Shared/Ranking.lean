import Mathlib.Data.List.Sort
import Mathlib.Tactic

set_option autoImplicit false

namespace Ranking

variable {V R : Type} [LinearOrder R] (rank : V → R)

def sorted (entries : List V) : List V := entries.mergeSort fun left right => decide (rank left ≤ rank right)

def top (count : Nat) (entries : List V) : List V := (sorted rank entries).take count

theorem sorted_perm (entries : List V) : (sorted rank entries).Perm entries := List.mergeSort_perm _ _

theorem pairwise_sorted (entries : List V) :
    (sorted rank entries).Pairwise fun left right => rank left ≤ rank right := by
  have ordered : (sorted rank entries).Pairwise fun left right => decide (rank left ≤ rank right) = true :=
    List.pairwise_mergeSort (fun a b c => by simpa using le_trans)
      (fun a b => by simpa using le_total (rank a) (rank b)) entries
  exact ordered.imp (by simp)

theorem sorted_eq_of_perm {first second : List V} (perm : first.Perm second)
    (distinct : ∀ left ∈ first, ∀ right ∈ first, rank left = rank right → left = right) :
    sorted rank first = sorted rank second := by
  apply List.Perm.eq_of_pairwise _ (pairwise_sorted rank first) (pairwise_sorted rank second)
    ((sorted_perm rank first).trans (perm.trans (sorted_perm rank second).symm))
  intro left right member other below above
  exact distinct left ((sorted_perm rank first).mem_iff.mp member) right
    (perm.mem_iff.mpr ((sorted_perm rank second).mem_iff.mp other)) (le_antisymm below above)

theorem length_top (count : Nat) (entries : List V) : (top rank count entries).length = min count entries.length := by
  rw [top, List.length_take, (sorted_perm rank entries).length_eq]

variable {rank} {count : Nat} {entries : List V}

theorem mem_of_mem_top {entry : V} (member : entry ∈ top rank count entries) : entry ∈ entries :=
  (sorted_perm rank entries).mem_iff.mp (List.mem_of_mem_take member)

theorem top_map_nodup {K : Type} {keyOf : V → K} (distinct : (entries.map keyOf).Nodup) :
    ((top rank count entries).map keyOf).Nodup := by
  have sortedKeys := ((sorted_perm rank entries).map keyOf).nodup_iff.mpr distinct
  exact sortedKeys.sublist ((List.take_sublist count _).map keyOf)

theorem mem_top_of_length_le (fits : entries.length ≤ count) (entry : V) :
    entry ∈ top rank count entries ↔ entry ∈ entries := by
  rw [top, List.take_of_length_le ((sorted_perm rank entries).length_eq.trans_le fits)]
  exact (sorted_perm rank entries).mem_iff

theorem not_mem_top {entry : V} (outranked : count ≤ entries.countP fun other => decide (rank other < rank entry)) :
    entry ∉ top rank count entries := by
  intro member
  have pieces := List.take_append_drop count (sorted rank entries)
  have ordered := pairwise_sorted rank entries
  rw [← pieces, List.pairwise_append] at ordered
  have behind : ((sorted rank entries).drop count).countP (fun other => decide (rank other < rank entry)) = 0 := by
    rw [List.countP_eq_zero]
    intro other later
    simpa using ordered.2.2 entry member other later
  have ahead : (top rank count entries).countP (fun other => decide (rank other < rank entry)) <
      (top rank count entries).length :=
    List.countP_lt_length_iff.mpr ⟨entry, member, by simp⟩
  have total := (sorted_perm rank entries).countP_eq fun other => decide (rank other < rank entry)
  rw [← pieces, List.countP_append, behind] at total
  have short := length_top rank count entries
  rw [top] at ahead short
  omega

section Distinct

variable (ranksDiffer : (entries.map rank).Nodup)

include ranksDiffer

theorem pairwise_sorted_lt : (sorted rank entries).Pairwise fun left right => rank left < rank right := by
  have differ := ((sorted_perm rank entries).map rank).nodup_iff.mpr ranksDiffer
  rw [List.Nodup, List.pairwise_map] at differ
  exact differ.imp₂ (fun _ _ unequal below => lt_of_le_of_ne below unequal) (pairwise_sorted rank entries)

theorem pairwise_top_lt : (top rank count entries).Pairwise fun left right => rank left < rank right :=
  (pairwise_sorted_lt ranksDiffer).sublist (List.take_sublist _ _)

theorem top_lt_of_not_mem {entry better : V} (listed : entry ∈ entries) (left : entry ∉ top rank count entries)
    (chosen : better ∈ top rank count entries) : rank better < rank entry := by
  have ordered := pairwise_sorted_lt ranksDiffer
  rw [← List.take_append_drop count (sorted rank entries)] at ordered
  have member := (sorted_perm rank entries).mem_iff.mpr listed
  rw [← List.take_append_drop count (sorted rank entries), List.mem_append] at member
  exact (List.pairwise_append.mp ordered).2.2 better chosen entry (member.resolve_left left)

end Distinct

theorem top_top {kept : Nat} (fits : count ≤ kept) :
    top rank count (top rank kept entries) = top rank count entries := by
  have ordered := (pairwise_sorted rank entries).sublist (List.take_sublist kept _)
  have already : sorted rank (top rank kept entries) = top rank kept entries := by
    refine List.mergeSort_of_pairwise ?_
    exact ordered.imp fun below => decide_eq_true below
  rw [top, already, top, List.take_take, Nat.min_eq_left fits, top]

end Ranking
