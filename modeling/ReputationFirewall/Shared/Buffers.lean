import Mathlib.Tactic

set_option autoImplicit false

namespace Buffers

variable {A : Type}

def overwrite (buf : List A) (start : Nat) (bytes : List A) : List A :=
  buf.take start ++ bytes ++ buf.drop (start + bytes.length)

/-- `buf[start..stop].copy_from_slice(bytes)`, with nothing where that call panics. -/
def copyFromSlice (buf : List A) (start stop : Nat) (bytes : List A) : Option (List A) :=
  if stop ≤ buf.length ∧ start + bytes.length = stop then some (overwrite buf start bytes) else none

/-- `&buf[start..stop]`, with nothing where that call panics. -/
def readSlice (buf : List A) (start stop : Nat) : Option (List A) :=
  if start ≤ stop ∧ stop ≤ buf.length then some ((buf.drop start).take (stop - start)) else none

section Parts

theorem overwrite_parts (left old new right : List A) (same : old.length = new.length) :
    overwrite (left ++ old ++ right) left.length new = left ++ new ++ right := by
  have skipped : (left ++ old ++ right).drop (left.length + new.length) = right := by
    rw [← same, ← List.length_append, List.drop_left]
  rw [overwrite, skipped, List.append_assoc left old, List.take_left]

variable {buf : List A} {start stop : Nat}

theorem length_overwrite {bytes : List A} (inside : start + bytes.length ≤ buf.length) :
    (overwrite buf start bytes).length = buf.length := by
  simp only [overwrite, List.length_append, List.length_take, List.length_drop]
  omega

theorem overwrite_middle (before old new behind : List A) (same : old.length = new.length)
    (inside : start ≤ buf.length) :
    overwrite (overwrite buf start (before ++ old ++ behind)) (start + before.length) new =
      overwrite buf start (before ++ new ++ behind) := by
  have place : start + before.length = (buf.take start ++ before).length := by
    rw [List.length_append, List.length_take_of_le inside]
  have size : (before ++ old ++ behind).length = (before ++ new ++ behind).length := by
    simp only [List.length_append, same]
  have parts : overwrite buf start (before ++ old ++ behind) =
      (buf.take start ++ before) ++ old ++ (behind ++ buf.drop (start + (before ++ old ++ behind).length)) := by
    simp only [overwrite, List.append_assoc]
  rw [parts, place, overwrite_parts _ _ _ _ same, size]
  simp only [overwrite, List.append_assoc]

theorem overwrite_adjacent (done bytes : List A) (inside : start + done.length + bytes.length ≤ buf.length) :
    overwrite (overwrite buf start done) (start + done.length) bytes = overwrite buf start (done ++ bytes) := by
  have place : start + done.length = (buf.take start ++ done).length := by
    rw [List.length_append, List.length_take_of_le (by omega)]
  -- The bytes that the second write replaces are still those of the buffer.
  let old := (buf.drop (start + done.length)).take bytes.length
  have size : old.length = bytes.length := by
    rw [List.length_take, List.length_drop]
    omega
  have rest : buf.drop (start + done.length) = old ++ buf.drop (start + (done ++ bytes).length) := by
    have skip : buf.drop (start + (done ++ bytes).length) = (buf.drop (start + done.length)).drop bytes.length := by
      rw [List.drop_drop, List.length_append, Nat.add_assoc]
    rw [skip, List.take_append_drop]
  have parts : overwrite buf start done =
      (buf.take start ++ done) ++ old ++ buf.drop (start + (done ++ bytes).length) := by
    rw [overwrite, rest, ← List.append_assoc]
  rw [parts, place, overwrite_parts _ _ _ _ size, overwrite, List.append_assoc (buf.take start)]

theorem readSlice_overwrite (bytes : List A) (ends : start + bytes.length = stop) (inside : stop ≤ buf.length) :
    readSlice (overwrite buf start bytes) start stop = some bytes := by
  have length : (overwrite buf start bytes).length = buf.length := length_overwrite (by omega)
  have place : (buf.take start).length = start := List.length_take_of_le (by omega)
  have skipped : (overwrite buf start bytes).drop start = bytes ++ buf.drop (start + bytes.length) := by
    rw [overwrite, List.append_assoc, List.drop_left' place]
  have size : stop - start = bytes.length := by omega
  rw [readSlice, if_pos (by omega), skipped, size, List.take_left]

theorem take_overwrite_front (header segment : List A) (inside : header.length + segment.length ≤ buf.length) :
    (overwrite (overwrite buf header.length segment) 0 header).take (header.length + segment.length) =
      header ++ segment := by
  have place : (buf.take header.length).length = header.length := List.length_take_of_le (by omega)
  have parts : overwrite buf header.length segment =
      [] ++ buf.take header.length ++ (segment ++ buf.drop (header.length + segment.length)) := by
    simp only [overwrite, List.nil_append, List.append_assoc]
  have written := overwrite_parts [] (buf.take header.length) header
    (segment ++ buf.drop (header.length + segment.length)) place
  rw [parts, ← @List.length_nil A, written, List.nil_append, ← List.append_assoc, ← List.length_append,
    List.take_left]

end Parts

section Copies

variable {B : Type} {buf : List A} {start stop offset : Nat} (rest : List A → Option B)

theorem copy_first {bytes : List A} (ends : start + bytes.length = stop) (inside : stop ≤ buf.length) :
    (copyFromSlice buf start stop bytes).bind rest = rest (overwrite buf start bytes) := by
  rw [copyFromSlice, if_pos ⟨inside, ends⟩, Option.bind_some]

theorem copy_next {done bytes : List A} (begins : start + done.length = offset) (ends : offset + bytes.length = stop)
    (inside : stop ≤ buf.length) :
    (copyFromSlice (overwrite buf start done) offset stop bytes).bind rest =
      rest (overwrite buf start (done ++ bytes)) := by
  have length : (overwrite buf start done).length = buf.length := length_overwrite (by omega)
  rw [copy_first rest ends (length ▸ inside), ← begins, overwrite_adjacent done bytes (by omega)]

theorem copy_middle {before old new behind : List A} (begins : start + before.length = offset)
    (same : old.length = new.length) (ends : offset + new.length = stop)
    (inside : start + (before ++ old ++ behind).length ≤ buf.length) :
    (copyFromSlice (overwrite buf start (before ++ old ++ behind)) offset stop new).bind rest =
      rest (overwrite buf start (before ++ new ++ behind)) := by
  have length : (overwrite buf start (before ++ old ++ behind)).length = buf.length := length_overwrite inside
  simp only [List.length_append] at inside
  rw [copy_first rest ends (by omega), ← begins, overwrite_middle before old new behind same (by omega)]

end Copies

end Buffers
