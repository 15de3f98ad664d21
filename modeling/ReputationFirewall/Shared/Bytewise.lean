import ReputationFirewall.Shared.BigEndian

set_option autoImplicit false

namespace Bytewise

open BigEndian

-- Membership among keys is decided by one instance everywhere.
instance lawfulKeys : LawfulBEq (List UInt8) := inferInstance

abbrev le (left right : List UInt8) : Bool := decide (left ≤ right)

theorem le_trans (first second third : List UInt8) (lower : le first second = true)
    (upper : le second third = true) : le first third = true := by
  rw [decide_eq_true_eq] at lower upper ⊢
  exact List.le_trans lower upper

theorem le_total (first second : List UInt8) : (le first second || le second first) = true := by
  simpa using List.le_total first second

theorem le_antisymm (first second : List UInt8) (lower : le first second = true)
    (upper : le second first = true) : first = second := by
  rw [decide_eq_true_eq] at lower upper
  exact List.le_antisymm lower upper

theorem prefix_between {front first last key : List UInt8} (lower : front ++ first ≤ key)
    (upper : key ≤ front ++ last) : front.IsPrefix key := by
  induction front generalizing key with
  | nil => exact List.nil_prefix
  | cons byte front ih =>
      cases key with
      | nil => simp [List.le_iff_lt_or_eq] at lower
      | cons head rest =>
          rw [List.cons_append, List.cons_le_cons_iff] at lower upper
          have same : byte = head := by
            rcases lower with less | ⟨same, _⟩
            · rcases upper with greater | ⟨same, _⟩
              · exact absurd less (UInt8.lt_asymm greater)
              · exact same.symm
            · exact same
          subst same
          have irrefl := UInt8.lt_irrefl byte
          rw [List.cons_prefix_cons]
          exact ⟨rfl, ih (lower.resolve_left irrefl).2 (upper.resolve_left irrefl).2⟩

theorem le_of_value_le {left right : List UInt8} (sized : left.length = right.length)
    (ordered : value left ≤ value right) : left ≤ right := by
  induction left generalizing right with
  | nil => exact List.nil_le right
  | cons first left ih =>
      cases right with
      | nil => simp at sized
      | cons second right =>
          have lengths : left.length = right.length := by simpa using sized
          have small := value_lt left
          have bounded := value_lt right
          rw [value_cons, value_cons, lengths] at ordered
          rw [lengths] at small
          rw [List.cons_le_cons_iff]
          rcases lt_trichotomy first.toNat second.toNat with less | same | greater
          · exact Or.inl (UInt8.lt_iff_toNat_lt.mpr less)
          · rw [same] at ordered
            exact Or.inr ⟨UInt8.toNat_inj.mp same, ih lengths (by omega)⟩
          · have scaled := Nat.mul_le_mul_right (256 ^ right.length) (Nat.succ_le_of_lt greater)
            rw [Nat.succ_mul] at scaled
            omega

theorem toBeBytes_le {n : Nat} {first second : BitVec (8 * n)} (ordered : first ≤ second) :
    (toBeBytes first : Octets n).toList ≤ (toBeBytes second : Octets n).toList := by
  apply le_of_value_le (by simp)
  rw [← fromBeBytes_toNat, ← fromBeBytes_toNat, fromBeBytes_toBeBytes, fromBeBytes_toBeBytes]
  exact BitVec.le_def.mp ordered

end Bytewise
