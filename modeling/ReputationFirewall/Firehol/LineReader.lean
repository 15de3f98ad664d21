import ReputationFirewall.Shared.Text

set_option autoImplicit false

namespace ReputationFirewall.Firehol

open Text

-- How one call of `read` turns out; after the listed calls the file is read as fast as it fits.
inductive ReadEvent where
  | interrupted
  | failed
  | upTo (limit : Nat)
  deriving DecidableEq

structure ReadBuffer where
  size : Nat
  used : List UInt8
  positive : 0 < size
  fits : used.length ≤ size

namespace ReadBuffer

def new : ReadBuffer := ⟨1024 * 1024, [], by decide, by decide⟩

def grow (buffer : ReadBuffer) : ReadBuffer :=
  if buffer.used.length = buffer.size then
    { buffer with
      size := buffer.size * 2
      positive := Nat.mul_pos buffer.positive (by decide)
      fits := Nat.le_trans buffer.fits (Nat.le_mul_of_pos_right _ (by decide)) }
  else buffer

def free (buffer : ReadBuffer) : Nat := buffer.size - buffer.used.length

-- The bytes that one call delivers: at least one unless the buffer is full or the file ends.
def read (buffer : ReadBuffer) (limit : Nat) (remaining : List UInt8) : List UInt8 :=
  remaining.take (min (max 1 limit) buffer.free)

def complete (buffer : ReadBuffer) (chunk : List UInt8) : List UInt8 :=
  if chunk = [] then buffer.used else (buffer.used ++ chunk).rdropWhile (· ≠ 10)

def unfinished (buffer : ReadBuffer) (chunk : List UInt8) : List UInt8 :=
  if chunk = [] then [] else (buffer.used ++ chunk).rtakeWhile (· ≠ 10)

theorem read_length (buffer : ReadBuffer) (limit : Nat) (remaining : List UInt8) :
    (buffer.read limit remaining).length ≤ buffer.free := by
  simp only [read, List.length_take]
  omega

theorem unfinished_length (buffer : ReadBuffer) (chunk : List UInt8) :
    (buffer.unfinished chunk).length ≤ buffer.used.length + chunk.length := by
  unfold unfinished
  split_ifs
  · simp
  · simpa using (List.rtakeWhile_suffix (· ≠ 10) (buffer.used ++ chunk)).length_le

def keep (buffer : ReadBuffer) (limit : Nat) (remaining : List UInt8) : ReadBuffer :=
  { buffer with
    used := buffer.unfinished (buffer.read limit remaining)
    fits := by
      have short := buffer.unfinished_length (buffer.read limit remaining)
      have room := buffer.read_length limit remaining
      have fits := buffer.fits
      unfold free at room
      omega }

end ReadBuffer

structure FileVisit where
  lines : List (List Char)
  bytes : Option Nat
  deriving DecidableEq

def readLimit (remaining : List UInt8) : Option ReadEvent → Nat
  | some (.upTo limit) => limit
  | _ => remaining.length

def visitLoop (events : List ReadEvent) (remaining : List UInt8) (buffer : ReadBuffer) (bytes : Nat) :
    FileVisit :=
  if events.head? = some .failed then ⟨[], none⟩
  else if _interrupted : events.head? = some .interrupted then
    visitLoop events.tail remaining buffer.grow bytes
  else
    let limit := readLimit remaining events.head?
    let chunk := buffer.grow.read limit remaining
    match decodeUtf8 (buffer.grow.complete chunk) with
    | none => ⟨[], none⟩
    | some text =>
        if _stopped : chunk = [] then ⟨splitTerminator '\n' text, some bytes⟩
        else
          let rest := visitLoop events.tail (remaining.drop chunk.length) (buffer.grow.keep limit remaining)
            (bytes + chunk.length)
          ⟨splitTerminator '\n' text ++ rest.lines, rest.bytes⟩
termination_by events.length + remaining.length
decreasing_by
  · cases events with
    | nil => simp at _interrupted
    | cons event later => simp
  · have taken : (buffer.grow.read (readLimit remaining events.head?) remaining).length ≤
        remaining.length := List.length_take_le' _ _
    have some : 0 < (buffer.grow.read (readLimit remaining events.head?) remaining).length :=
      List.length_pos_iff.mpr _stopped
    simp only [List.length_tail, List.length_drop]
    omega

structure FileSource where
  opens : Bool
  content : List UInt8
  events : List ReadEvent
  deriving DecidableEq

def visitFileLines (file : FileSource) : FileVisit :=
  if file.opens then visitLoop file.events file.content .new 0 else ⟨[], none⟩

section Exactness

namespace ReadBuffer

@[simp] theorem grow_used (buffer : ReadBuffer) : buffer.grow.used = buffer.used := by
  unfold grow
  split_ifs <;> rfl

theorem grow_free (buffer : ReadBuffer) : 0 < buffer.grow.free := by
  have positive := buffer.positive
  have fits := buffer.fits
  unfold grow
  split_ifs with full <;> simp only [free] <;> omega

theorem read_eq_nil {buffer : ReadBuffer} (room : 0 < buffer.free) {limit : Nat} {remaining : List UInt8}
    (empty : buffer.read limit remaining = []) : remaining = [] := by
  rcases List.take_eq_nil_iff.mp empty with none | ended
  · omega
  · exact ended

theorem read_append (buffer : ReadBuffer) (limit : Nat) (remaining : List UInt8) :
    buffer.read limit remaining ++ remaining.drop (buffer.read limit remaining).length = remaining :=
  List.prefix_append_drop (List.take_prefix _ _) |>.symm

theorem complete_append (buffer : ReadBuffer) {chunk : List UInt8} (more : chunk ≠ []) :
    buffer.complete chunk ++ buffer.unfinished chunk = buffer.used ++ chunk := by
  simp only [complete, unfinished, more, if_false]
  exact List.rdropWhile_append_rtakeWhile

theorem complete_remaining (buffer : ReadBuffer) (limit : Nat) (remaining : List UInt8)
    (more : buffer.grow.read limit remaining ≠ []) :
    buffer.grow.complete (buffer.grow.read limit remaining) ++
        ((buffer.grow.keep limit remaining).used ++
          remaining.drop (buffer.grow.read limit remaining).length) =
      buffer.used ++ remaining := by
  rw [← List.append_assoc, keep, buffer.grow.complete_append more, List.append_assoc,
    buffer.grow.read_append limit remaining, buffer.grow_used]

theorem complete_terminated (buffer : ReadBuffer) {chunk : List UInt8} (more : chunk ≠ []) :
    buffer.complete chunk = [] ∨ ∃ front, buffer.complete chunk = front ++ [10] := by
  rw [complete, if_neg more]
  induction buffer.used ++ chunk using List.reverseRecOn with
  | nil => simp
  | append_singleton front byte ih =>
      by_cases newline : byte = 10
      · rw [List.rdropWhile_concat_neg _ _ _ (by simp [newline]), newline]
        exact Or.inr ⟨front, rfl⟩
      · rwa [List.rdropWhile_concat_pos _ _ _ (by simp [newline])]

end ReadBuffer

theorem splitTerminator_complete {complete rest : List UInt8} {front back : List Char}
    (terminated : complete = [] ∨ ∃ start, complete = start ++ [10])
    (decoded : decodeUtf8 complete = some front) (decodedRest : decodeUtf8 rest = some back) :
    decodeUtf8 (complete ++ rest) = some (front ++ back) ∧
      splitTerminator '\n' (front ++ back) = splitTerminator '\n' front ++ splitTerminator '\n' back := by
  refine ⟨by simp [decodeUtf8_append decoded, decodedRest], ?_⟩
  rcases terminated with rfl | ⟨start, rfl⟩
  · obtain rfl : [] = front := Option.some.inj decoded
    simp [splitTerminator]
  · obtain ⟨before, ended, _, last, rfl⟩ := decodeUtf8_newline decoded
    obtain rfl : [] = ended := Option.some.inj last
    exact splitTerminator_append '\n' before back

theorem visitLoop_lines {events : List ReadEvent} {remaining : List UInt8} {buffer : ReadBuffer}
    {bytes total : Nat} (visited : (visitLoop events remaining buffer bytes).bytes = some total) :
    ∃ text, decodeUtf8 (buffer.used ++ remaining) = some text ∧
      (visitLoop events remaining buffer bytes).lines = splitTerminator '\n' text ∧
      total = bytes + remaining.length := by
  fun_induction visitLoop events remaining buffer bytes with
  | case1 => simp at visited
  | case2 events remaining buffer bytes _ interrupted ih => simpa using ih visited
  | case3 => simp at visited
  | case4 events remaining buffer bytes _ _ limit chunk text decoded stopped =>
      obtain rfl : remaining = [] := ReadBuffer.read_eq_nil buffer.grow_free stopped
      refine ⟨text, ?_, rfl, (Option.some.inj visited).symm⟩
      simpa [ReadBuffer.complete, stopped] using decoded
  | case5 events remaining buffer bytes _ _ limit chunk text decoded more rest ih =>
      obtain ⟨back, decodedBack, lines, counted⟩ := ih visited
      have terminated := buffer.grow.complete_terminated more
      obtain ⟨joined, split⟩ := splitTerminator_complete terminated decoded decodedBack
      have whole := buffer.complete_remaining limit remaining more
      have taken : chunk.length ≤ remaining.length := List.length_take_le' _ _
      refine ⟨text ++ back, whole ▸ joined, ?_, ?_⟩
      · rw [split, lines]
      · rw [counted, List.length_drop]
        omega

theorem visitLoop_valid {events : List ReadEvent} {remaining : List UInt8} {buffer : ReadBuffer} {bytes : Nat}
    (reads : .failed ∉ events) (valid : ∃ text, decodeUtf8 (buffer.used ++ remaining) = some text) :
    ((visitLoop events remaining buffer bytes).bytes).isSome := by
  fun_induction visitLoop events remaining buffer bytes with
  | case1 events remaining buffer bytes failed => exact absurd (List.mem_of_head? failed) reads
  | case2 events remaining buffer bytes _ interrupted ih =>
      exact ih (mt List.mem_of_mem_tail reads) (by simpa using valid)
  | case3 events remaining buffer bytes _ _ limit chunk undecoded =>
      obtain ⟨text, valid⟩ := valid
      by_cases stopped : chunk = []
      · obtain rfl : remaining = [] := ReadBuffer.read_eq_nil buffer.grow_free stopped
        simp [ReadBuffer.complete, stopped] at undecoded
        simp [undecoded] at valid
      · rw [← buffer.complete_remaining limit remaining stopped] at valid
        obtain none | ⟨front, terminated⟩ := buffer.grow.complete_terminated stopped
        · simp [chunk, none] at undecoded
        · rw [terminated, List.append_assoc] at valid
          obtain ⟨decoded, _, before, _⟩ := decodeUtf8_newline valid
          rw [terminated, decodeUtf8_append before] at undecoded
          exact absurd undecoded (by simp [decodeUtf8_cons, nextChar])
  | case4 => rfl
  | case5 events remaining buffer bytes _ _ limit chunk front decoded more rest ih =>
      obtain ⟨text, valid⟩ := valid
      rw [← buffer.complete_remaining limit remaining more, decodeUtf8_append decoded] at valid
      obtain ⟨back, later, _⟩ := Option.map_eq_some_iff.mp valid
      exact ih (mt List.mem_of_mem_tail reads) ⟨back, later⟩

theorem visitFileLines_lines {file : FileSource} {total : Nat}
    (visited : (visitFileLines file).bytes = some total) :
    ∃ text, decodeUtf8 file.content = some text ∧
      (visitFileLines file).lines = splitTerminator '\n' text ∧ total = file.content.length := by
  unfold visitFileLines at visited ⊢
  split_ifs at visited ⊢ with opened
  simpa [ReadBuffer.new] using visitLoop_lines visited

end Exactness

end ReputationFirewall.Firehol
