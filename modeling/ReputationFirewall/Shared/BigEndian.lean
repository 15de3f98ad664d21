import Mathlib.Tactic

set_option autoImplicit false

namespace BigEndian

abbrev Octets (n : Nat) := Vector UInt8 n

instance neZeroFour : NeZero 4 := ⟨by decide⟩

def value (bytes : List UInt8) : Nat :=
  bytes.foldl (fun high byte => high * 256 + byte.toNat) 0

theorem value_fold (bytes : List UInt8) (high : Nat) :
    bytes.foldl (fun high byte => high * 256 + byte.toNat) high =
      high * 256 ^ bytes.length + value bytes := by
  induction bytes generalizing high with
  | nil => simp [value]
  | cons byte rest ih =>
      have tail : value (byte :: rest) = byte.toNat * 256 ^ rest.length + value rest := by
        simpa [value] using ih byte.toNat
      rw [List.foldl_cons, ih, tail, List.length_cons, Nat.pow_succ]
      ring

theorem value_cons (byte : UInt8) (rest : List UInt8) :
    value (byte :: rest) = byte.toNat * 256 ^ rest.length + value rest := by
  have fold := value_fold rest byte.toNat
  simpa [value] using fold

theorem value_lt (bytes : List UInt8) : value bytes < 256 ^ bytes.length := by
  induction bytes with
  | nil => simp [value]
  | cons byte rest ih =>
      have small : byte.toNat + 1 ≤ 256 := byte.toNat_lt
      have scaled := Nat.mul_le_mul_right (256 ^ rest.length) small
      rw [value_cons, List.length_cons, Nat.pow_succ]
      nlinarith

theorem value_digit (bytes : List UInt8) (i : Nat) (inside : i < bytes.length) :
    value bytes / 256 ^ (bytes.length - 1 - i) % 256 = bytes[i].toNat := by
  induction bytes generalizing i with
  | nil => simp at inside
  | cons byte rest ih =>
      have low := value_lt rest
      rw [value_cons, List.length_cons, Nat.add_sub_cancel]
      cases i with
      | zero =>
          rw [Nat.sub_zero, Nat.mul_comm, Nat.mul_add_div (by positivity), Nat.div_eq_of_lt low]
          exact Nat.mod_eq_of_lt (by simpa using byte.toNat_lt)
      | succ i =>
          have within : i < rest.length := by simpa using inside
          have split : 256 ^ rest.length = 256 ^ (rest.length - (i + 1)) * 256 ^ i * 256 := by
            rw [← Nat.pow_add, ← Nat.pow_succ]
            congr 1
            omega
          have shift : rest.length - (i + 1) = rest.length - 1 - i := by omega
          rw [split, show byte.toNat * (256 ^ (rest.length - (i + 1)) * 256 ^ i * 256) =
            256 ^ (rest.length - (i + 1)) * (byte.toNat * 256 ^ i * 256) by ring,
            Nat.mul_add_div (by positivity), Nat.add_comm, Nat.add_mul_mod_self_right, shift]
          simpa using ih i within

theorem pow_bits (n : Nat) : 256 ^ n = 2 ^ (8 * n) := by
  rw [Nat.pow_mul]

def slice {n : Nat} (bytes : Octets n) (start size : Nat) (fits : start + size ≤ n) : Octets size :=
  Vector.ofFn fun i => bytes.get ⟨start + i.val, by omega⟩

theorem slice_append_left {n m start size : Nat} (left : Octets n) (right : Octets m)
    (inside : start + size ≤ n) (fits : start + size ≤ n + m) :
    slice (left ++ right) start size fits = slice left start size inside := by
  apply Vector.ext
  intro i small
  simp only [slice, Vector.getElem_ofFn]
  exact Vector.getElem_append_left (by omega)

theorem slice_append_right {n m : Nat} (start : Nat) {size : Nat} (left : Octets n) (right : Octets m)
    (inside : start + size ≤ m) (fits : n + start + size ≤ n + m) :
    slice (left ++ right) (n + start) size fits = slice right start size inside := by
  apply Vector.ext
  intro i small
  simp only [slice, Vector.getElem_ofFn]
  have skip : n + start + i - n = start + i := by omega
  exact (Vector.getElem_append_right (by omega) (by omega)).trans (by simp only [skip]; rfl)

theorem slice_whole {n : Nat} (bytes : Octets n) (fits : 0 + n ≤ n) : slice bytes 0 n fits = bytes := by
  apply Vector.ext
  intro i small
  simp [slice, Vector.get]

def fromBeBytes {n : Nat} (bytes : Octets n) : BitVec (8 * n) :=
  BitVec.ofNat (8 * n) (value bytes.toList)

def toBeBytes {n : Nat} (number : BitVec (8 * n)) : Octets n :=
  Vector.ofFn fun i => UInt8.ofNat (number.toNat / 256 ^ (n - 1 - i.val))

theorem fromBeBytes_toNat {n : Nat} (bytes : Octets n) :
    (fromBeBytes bytes).toNat = value bytes.toList := by
  have bound := value_lt bytes.toList
  rw [Vector.length_toList, pow_bits] at bound
  rw [fromBeBytes, BitVec.toNat_ofNat, Nat.mod_eq_of_lt bound]

@[simp] theorem toBeBytes_fromBeBytes {n : Nat} (bytes : Octets n) :
    toBeBytes (fromBeBytes bytes) = bytes := by
  apply Vector.ext
  intro i inside
  have digit := value_digit bytes.toList i (by simpa using inside)
  apply UInt8.toNat_inj.mp
  rw [toBeBytes, Vector.getElem_ofFn, UInt8.toNat_ofNat', fromBeBytes_toNat]
  simpa using digit

theorem fromBeBytes_injective {n : Nat} {left right : Octets n}
    (same : fromBeBytes left = fromBeBytes right) : left = right := by
  rw [← toBeBytes_fromBeBytes left, same, toBeBytes_fromBeBytes]

theorem value_ofFn (n number : Nat) :
    value (List.ofFn fun i : Fin n => UInt8.ofNat (number / 256 ^ (n - 1 - i.val))) =
      number % 256 ^ n := by
  induction n with
  | zero => simp [value, Nat.mod_one]
  | succ n ih =>
      have tail : (fun i : Fin n => UInt8.ofNat (number / 256 ^ (n + 1 - 1 - i.succ.val))) =
          fun i : Fin n => UInt8.ofNat (number / 256 ^ (n - 1 - i.val)) := by
        funext i
        have shift : n + 1 - 1 - i.succ.val = n - 1 - i.val := by
          simp only [Fin.val_succ]
          omega
        rw [shift]
      have digits : number % 256 ^ (n + 1) =
          number % 256 ^ n + 256 ^ n * (number / 256 ^ n % 256) := by
        rw [Nat.pow_succ, Nat.mod_mul]
      rw [List.ofFn_succ, value_cons, tail, ih, List.length_ofFn, UInt8.toNat_ofNat',
        digits, Nat.add_comm, Nat.mul_comm (256 ^ n)]
      simp

@[simp] theorem fromBeBytes_toBeBytes {n : Nat} (number : BitVec (8 * n)) :
    fromBeBytes (toBeBytes number) = number := by
  apply BitVec.eq_of_toNat_eq
  have bound := number.isLt
  rw [fromBeBytes_toNat, toBeBytes, Vector.toList_ofFn, value_ofFn, pow_bits,
    Nat.mod_eq_of_lt bound]

theorem offset_inj {width : Nat} {base : BitVec width} {left right : Nat} (leftSmall : left < 2 ^ width)
    (rightSmall : right < 2 ^ width) (same : base + BitVec.ofNat width left = base + BitVec.ofNat width right) :
    left = right := by
  rw [BitVec.add_right_inj] at same
  have values := congrArg BitVec.toNat same
  rwa [BitVec.toNat_ofNat, BitVec.toNat_ofNat, Nat.mod_eq_of_lt leftSmall, Nat.mod_eq_of_lt rightSmall] at values

end BigEndian
