import ReputationFirewall.Shared.BigEndian

set_option autoImplicit false

namespace LittleEndian

open BigEndian

def toLeBytes {n : Nat} (number : BitVec (8 * n)) : Octets n := (toBeBytes number).reverse

def fromLeBytes {n : Nat} (bytes : Octets n) : BitVec (8 * n) := fromBeBytes bytes.reverse

@[simp] theorem fromLeBytes_toLeBytes {n : Nat} (number : BitVec (8 * n)) :
    fromLeBytes (toLeBytes number) = number := by
  simp [fromLeBytes, toLeBytes]

@[simp] theorem toLeBytes_fromLeBytes {n : Nat} (bytes : Octets n) : toLeBytes (fromLeBytes bytes) = bytes := by
  simp [fromLeBytes, toLeBytes]

section Records

theorem slice_last {front size start : Nat} (before : Octets front) (field : Octets size) (behind : start = front)
    (fits : start + size ≤ front + size) : slice (before ++ field) start size fits = field := by
  subst behind
  exact (slice_append_right 0 before field (by omega) fits).trans (slice_whole field (by omega))

theorem slice_join {n front size start next : Nat} (bytes : Octets n) (adjacent : next = start + front)
    (first : start + front ≤ n) (second : next + size ≤ n) :
    slice bytes start front first ++ slice bytes next size second = slice bytes start (front + size) (by omega) := by
  subst adjacent
  apply Vector.ext
  intro i inside
  by_cases left : i < front
  · rw [Vector.getElem_append_left left]
    simp [slice]
  · have place : start + front + (i - front) = start + i := by omega
    rw [Vector.getElem_append_right (by omega) (by omega)]
    simp [slice, place]

end Records

end LittleEndian
