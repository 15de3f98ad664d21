import ReputationFirewall.Shared.BigEndian

set_option autoImplicit false

namespace OnesComplement

open BigEndian

/-- The 16-bit words of a byte string, with a zero behind an odd last byte. -/
def words : List UInt8 → List Nat
  | [] => []
  | [last] => [value [last, 0]]
  | high :: low :: rest => value [high, low] :: words rest

def endAround (sum word : Nat) : Nat := if sum + word ≤ 65535 then sum + word else sum + word - 65535

def onesSum (numbers : List Nat) : Nat := numbers.foldl endAround 0

/-- The number `kept` stands for `total` in one's complement. -/
structure Folds (total kept : Nat) : Prop where
  small : kept ≤ 65535
  congruent : kept % 65535 = total % 65535
  zero : kept = 0 ↔ total = 0

namespace Folds

variable {total kept : Nat}

theorem of_small (small : total ≤ 65535) : Folds total total := ⟨small, rfl, Iff.rfl⟩

theorem unique {other : Nat} (left : Folds total kept) (right : Folds total other) : kept = other := by
  have ⟨smallLeft, congruentLeft, zeroLeft⟩ := left
  have ⟨smallRight, congruentRight, zeroRight⟩ := right
  omega

theorem of_carry (folds : Folds (total % 65536 + total / 65536) kept) : Folds total kept := by
  have ⟨small, congruent, zero⟩ := folds
  exact ⟨small, by omega, by omega⟩

theorem endAround {word : Nat} (folds : Folds total kept) (small : word ≤ 65535) :
    Folds (total + word) (endAround kept word) := by
  have ⟨bound, congruent, zero⟩ := folds
  unfold OnesComplement.endAround
  split
  · exact ⟨by omega, by omega, by omega⟩
  · exact ⟨by omega, by omega, by omega⟩

theorem complement (folds : Folds total kept) : Folds (total + (65535 - kept)) 65535 := by
  have ⟨small, congruent, zero⟩ := folds
  exact ⟨by omega, by omega, by omega⟩

theorem complement_zero (folds : Folds total 65535) : Folds (total + 65535) 65535 := by
  have ⟨_, congruent, zero⟩ := folds
  exact ⟨by omega, by omega, by omega⟩

end Folds

theorem folds_foldl (numbers : List Nat) (small : ∀ number ∈ numbers, number ≤ 65535) {total kept : Nat}
    (folds : Folds total kept) : Folds (total + numbers.sum) (numbers.foldl endAround kept) := by
  induction numbers generalizing total kept with
  | nil => exact folds
  | cons number rest ih =>
      have next := ih (fun other later => small other (List.mem_cons_of_mem _ later))
        (folds.endAround (small number List.mem_cons_self))
      rwa [Nat.add_assoc, ← List.sum_cons] at next

theorem folds_onesSum (numbers : List Nat) (small : ∀ number ∈ numbers, number ≤ 65535) :
    Folds numbers.sum (onesSum numbers) := by
  have folds := folds_foldl numbers small (Folds.of_small (Nat.zero_le _))
  rwa [Nat.zero_add] at folds

section Words

theorem value_pair_le (high low : UInt8) : value [high, low] ≤ 65535 := by
  have bound := value_lt [high, low]
  simp only [List.length_cons, List.length_nil] at bound
  omega

theorem words_le (bytes : List UInt8) : ∀ word ∈ words bytes, word ≤ 65535 := by
  fun_induction words bytes with
  | case1 => simp
  | case2 last => simpa using value_pair_le last 0
  | case3 high low rest ih => simpa using ⟨value_pair_le high low, ih⟩

theorem words_append (left right : List UInt8) (even : Even left.length) :
    words (left ++ right) = words left ++ words right := by
  fun_induction words left with
  | case1 => rfl
  | case2 last => exact absurd even (by simp)
  | case3 high low rest ih =>
      have shorter : Even rest.length := by simpa [Nat.even_add_one] using even
      simp [words, ih shorter]

theorem words_sum_le (bytes : List UInt8) : (words bytes).sum ≤ 65535 * bytes.length := by
  fun_induction words bytes with
  | case1 => simp
  | case2 last => simpa using value_pair_le last 0
  | case3 high low rest ih =>
      have own := value_pair_le high low
      simp only [List.sum_cons, List.length_cons]
      omega

theorem words_toBeBytes (number : BitVec 16) : words (toBeBytes number : Octets 2).toList = [number.toNat] := by
  have whole : value (toBeBytes number : Octets 2).toList = number.toNat := by
    rw [← fromBeBytes_toNat, @fromBeBytes_toBeBytes 2 number]
  have two : (toBeBytes number : Octets 2).toList.length = 2 := Vector.length_toList
  obtain ⟨high, low, pair⟩ := List.length_eq_two.mp two
  rw [pair] at whole ⊢
  simp [words, whole]

end Words

end OnesComplement
