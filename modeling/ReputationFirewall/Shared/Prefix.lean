import Mathlib.Tactic

set_option autoImplicit false

namespace Prefix

variable {w : Nat}

/-- The first `length` bits of the two addresses are the same. -/
def Agree (length : Nat) (left right : BitVec w) : Prop :=
  left >>> (w - length) = right >>> (w - length)

instance (length : Nat) (left right : BitVec w) : Decidable (Agree length left right) :=
  inferInstanceAs (Decidable (_ = _))

theorem agree_iff_div (length : Nat) (left right : BitVec w) :
    Agree length left right ↔
      left.toNat / 2 ^ (w - length) = right.toNat / 2 ^ (w - length) := by
  simp [Agree, ← BitVec.toNat_inj, Nat.shiftRight_eq_div_pow]

@[simp] theorem agree_refl (length : Nat) (addr : BitVec w) : Agree length addr addr := rfl

theorem agree_comm {length : Nat} {left right : BitVec w} :
    Agree length left right ↔ Agree length right left := eq_comm

theorem Agree.trans {length : Nat} {left middle right : BitVec w}
    (first : Agree length left middle) (second : Agree length middle right) :
    Agree length left right := Eq.trans first second

theorem Agree.mono {short long : Nat} {left right : BitVec w} (shorter : short ≤ long)
    (agree : Agree long left right) : Agree short left right := by
  have shift : w - short = (w - long) + (min w long - short) := by omega
  rw [Agree, shift, BitVec.shiftRight_add, BitVec.shiftRight_add, agree]

theorem agree_full {length : Nat} (full : w ≤ length) (left right : BitVec w) :
    Agree length left right ↔ left = right := by
  simp [Agree, Nat.sub_eq_zero_of_le full]

/-- `MAX << (w - length)`. -/
def mask (w length : Nat) : BitVec w := BitVec.allOnes w <<< (w - length)

def network (length : Nat) (addr : BitVec w) : BitVec w := addr &&& mask w length

theorem network_eq_shift (length : Nat) (addr : BitVec w) :
    network length addr = addr >>> (w - length) <<< (w - length) := by
  apply BitVec.eq_of_getLsbD_eq
  intro bit inside
  simp only [network, mask, BitVec.getLsbD_and, BitVec.getLsbD_shiftLeft, BitVec.getLsbD_allOnes,
    BitVec.getLsbD_ushiftRight, inside, decide_true, Bool.true_and]
  by_cases low : bit < w - length
  · simp [low]
  · have same : w - length + (bit - (w - length)) = bit := by omega
    have kept : bit - (w - length) < w := by omega
    simp [low, same, kept]

theorem network_toNat (length : Nat) (addr : BitVec w) :
    (network length addr).toNat = addr.toNat / 2 ^ (w - length) * 2 ^ (w - length) := by
  have bound := Nat.div_mul_le_self addr.toNat (2 ^ (w - length))
  rw [network_eq_shift, BitVec.toNat_shiftLeft, BitVec.toNat_ushiftRight, Nat.shiftLeft_eq,
    Nat.shiftRight_eq_div_pow, Nat.mod_eq_of_lt (lt_of_le_of_lt bound addr.isLt)]

theorem agree_network (length : Nat) (addr : BitVec w) : Agree length (network length addr) addr := by
  rw [agree_iff_div, network_toNat, Nat.mul_div_cancel _ (Nat.two_pow_pos _)]

theorem network_eq_iff (length : Nat) (left right : BitVec w) :
    network length left = network length right ↔ Agree length left right := by
  constructor
  · intro same
    exact ((agree_comm.mp (agree_network length left)).trans (same ▸ agree_refl _ _)).trans
      (agree_network length right)
  · intro agree
    rw [network_eq_shift, network_eq_shift, show left >>> _ = right >>> _ from agree]

theorem network_idem (length : Nat) (addr : BitVec w) :
    network length (network length addr) = network length addr :=
  (network_eq_iff _ _ _).mpr (agree_network length addr)

def upperHalf (length : Nat) (addr : BitVec w) : BitVec w :=
  network length addr ||| 1#w <<< (w - 1 - length)

theorem agree_lower_iff {length : Nat} (inside : length < w) (addr other : BitVec w) :
    Agree (length + 1) (network length addr) other ↔
      2 * (addr.toNat / 2 ^ (w - length)) = other.toNat / 2 ^ (w - (length + 1)) := by
  have double : 2 ^ (w - length) = 2 * 2 ^ (w - (length + 1)) := by
    rw [← Nat.pow_succ']
    congr 1
    omega
  rw [agree_iff_div, network_toNat]
  have half : addr.toNat / 2 ^ (w - length) * 2 ^ (w - length) =
      2 * (addr.toNat / 2 ^ (w - length)) * 2 ^ (w - (length + 1)) := by
    rw [double]
    ring
  rw [half, Nat.mul_div_cancel _ (Nat.two_pow_pos _)]

theorem agree_upper_iff {length : Nat} (inside : length < w) (addr other : BitVec w) :
    Agree (length + 1) (upperHalf length addr) other ↔
      2 * (addr.toNat / 2 ^ (w - length)) + 1 = other.toNat / 2 ^ (w - (length + 1)) := by
  have shift : w - 1 - length = w - (length + 1) := by omega
  have lower := (agree_lower_iff inside addr (network length addr)).mp (agree_refl _ _)
  have one : (1#w).toNat = 1 := Nat.mod_eq_of_lt (Nat.one_lt_two_pow (by omega))
  have bit : 1#w <<< (w - (length + 1)) >>> (w - (length + 1)) = 1#w := by
    apply BitVec.eq_of_toNat_eq
    have small : 2 ^ (w - (length + 1)) < 2 ^ w := Nat.pow_lt_pow_right (by omega) (by omega)
    rw [BitVec.toNat_ushiftRight, BitVec.toNat_shiftLeft, one, Nat.shiftLeft_eq, Nat.one_mul,
      Nat.mod_eq_of_lt small, Nat.shiftRight_eq_div_pow, Nat.div_self (Nat.two_pow_pos _)]
  rw [Agree, upperHalf, shift, BitVec.ushiftRight_or_distrib, bit, ← BitVec.toNat_inj,
    BitVec.toNat_or, BitVec.toNat_ushiftRight, BitVec.toNat_ushiftRight,
    Nat.shiftRight_eq_div_pow, Nat.shiftRight_eq_div_pow, ← lower, one]
  have odd := Nat.shiftLeft_add_eq_or_of_lt (show 1 < 2 ^ 1 by decide) (addr.toNat / 2 ^ (w - length))
  rw [Nat.shiftLeft_eq, Nat.pow_one, Nat.mul_comm] at odd
  rw [odd]

theorem agree_iff_halves {length : Nat} (inside : length < w) (addr other : BitVec w) :
    Agree length addr other ↔
      Agree (length + 1) (network length addr) other ∨
        Agree (length + 1) (upperHalf length addr) other := by
  have quotient : other.toNat / 2 ^ (w - length) = other.toNat / 2 ^ (w - (length + 1)) / 2 := by
    rw [Nat.div_div_eq_div_mul, ← Nat.pow_succ]
    congr 2
    omega
  rw [agree_lower_iff inside, agree_upper_iff inside, agree_iff_div, quotient]
  omega

theorem halves_disjoint {length : Nat} (inside : length < w) (addr other : BitVec w)
    (lower : Agree (length + 1) (network length addr) other) :
    ¬ Agree (length + 1) (upperHalf length addr) other := by
  rw [agree_lower_iff inside] at lower
  rw [agree_upper_iff inside]
  omega

theorem overlap_iff (left right : Nat) (first second : BitVec w) :
    (∃ addr, Agree left first addr ∧ Agree right second addr) ↔
      Agree (min left right) first second := by
  constructor
  · rintro ⟨addr, inFirst, inSecond⟩
    exact (inFirst.mono (Nat.min_le_left ..)).trans
      (agree_comm.mp (inSecond.mono (Nat.min_le_right ..)))
  · intro agree
    rcases Nat.le_total left right with shorter | longer
    · exact ⟨second, by rwa [Nat.min_eq_left shorter] at agree, agree_refl _ _⟩
    · exact ⟨first, agree_refl _ _, by rwa [Nat.min_eq_right longer, agree_comm] at agree⟩

section Blocks

def Inside (length : Nat) (addr : BitVec w) (set : Set (BitVec w)) : Prop :=
  ∀ other, Agree length addr other → other ∈ set

/-- The block lies in the set, and no block around it does. -/
structure Largest (length : Nat) (addr : BitVec w) (set : Set (BitVec w)) : Prop where
  inside : Inside length addr set
  largest : ∀ shorter < length, ¬ Inside shorter addr set

theorem Inside.of_agree {short long : Nat} {left right : BitVec w} {set : Set (BitVec w)}
    (inside : Inside short left set) (shorter : short ≤ long) (agree : Agree short left right) :
    Inside long right set :=
  fun other own => inside other (agree.trans (own.mono shorter))

theorem agree_subset_iff {left right : Nat} (bounded : right ≤ w) (first second : BitVec w) :
    (∀ addr, Agree left first addr → Agree right second addr) ↔ right ≤ left ∧ Agree right second first := by
  constructor
  · intro within
    refine ⟨?_, within first (agree_refl _ _)⟩
    by_contra longer
    have inside : left < w := by omega
    have halves := agree_iff_halves inside first
    have lower := within _ ((halves _).mpr (Or.inl (agree_refl _ (network left first))))
    have upper := within _ ((halves _).mpr (Or.inr (agree_refl _ (upperHalf left first))))
    have same : Agree (left + 1) (network left first) (upperHalf left first) :=
      ((agree_comm.mp lower).trans upper).mono (by omega)
    exact halves_disjoint inside first _ same (agree_refl _ _)
  · intro continues addr own
    exact continues.2.trans (own.mono continues.1)

theorem Largest.eq_of_meet {left right : Nat} {first second addr : BitVec w} {set : Set (BitVec w)}
    (largest : Largest left first set) (other : Largest right second set)
    (inFirst : Agree left first addr) (inSecond : Agree right second addr) :
    left = right ∧ Agree left first second := by
  have agree : Agree (min left right) first second := (overlap_iff left right first second).mp ⟨addr, inFirst, inSecond⟩
  rcases Nat.lt_trichotomy left right with shorter | same | longer
  · rw [Nat.min_eq_left shorter.le] at agree
    exact absurd (largest.inside.of_agree (Nat.le_refl left) agree) (other.largest left shorter)
  · subst same
    rw [Nat.min_self] at agree
    exact ⟨rfl, agree⟩
  · rw [Nat.min_eq_right longer.le] at agree
    exact absurd (other.inside.of_agree (Nat.le_refl right) (agree_comm.mp agree)) (largest.largest right longer)

end Blocks

end Prefix
