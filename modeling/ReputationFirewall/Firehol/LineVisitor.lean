import ReputationFirewall.Firehol.FileParser
import ReputationFirewall.Shared.Runs

set_option autoImplicit false

namespace ReputationFirewall.Firehol

open Runs Text

section Machine

variable {σ : Type} (visit : σ → List Char → Nat → σ × Except FireholParseError Unit) (path : List UInt8)

def visitEach : Nat → σ → List (List Char) → σ × Except FireholParseError Nat
  | lineNumber, seen, [] => (seen, .ok lineNumber)
  | lineNumber, seen, line :: rest =>
      match visit seen line (lineNumber + 1) with
      | (seen, .ok ()) => visitEach (lineNumber + 1) seen rest
      | (seen, .error error) => (seen, .error error)

structure ChunkReader (σ : Type) where
  remaining : List UInt8
  buffer : ReadBuffer
  lineNumber : Nat
  bytes : Nat
  seen : σ

inductive VisitStatus (σ : Type) where
  | reading (reader : ChunkReader σ)
  | returned (seen : σ) (result : Except FireholParseError Nat)

def ChunkReader.start (content : List UInt8) (seen : σ) : ChunkReader σ := ⟨content, .new, 0, 0, seen⟩

namespace ChunkReader

def receive (reader : ChunkReader σ) (limit : Nat) : VisitStatus σ :=
  let buffer := reader.buffer.grow
  let chunk := buffer.read limit reader.remaining
  match decodeUtf8 (buffer.complete chunk) with
  | none => .returned reader.seen (.error (.io path))
  | some text =>
      match visitEach visit reader.lineNumber reader.seen (splitTerminator '\n' text) with
      | (seen, .error error) => .returned seen (.error error)
      | (seen, .ok lineNumber) =>
          if chunk = [] then .returned seen (.ok reader.bytes)
          else .reading
            { remaining := reader.remaining.drop chunk.length, buffer := buffer.keep limit reader.remaining
              lineNumber, bytes := reader.bytes + chunk.length, seen }

def step (reader : ChunkReader σ) : ReadEvent → VisitStatus σ
  | .interrupted => .reading { reader with buffer := reader.buffer.grow }
  | .failed => .returned reader.seen (.error (.io path))
  | .upTo limit => reader.receive visit path limit

end ChunkReader

def VisitStatus.step (status : VisitStatus σ) (event : ReadEvent) : VisitStatus σ :=
  match status with
  | .reading reader => reader.step visit path event
  | .returned seen result => .returned seen result

end Machine

section Refinement

variable {σ : Type} {visit : σ → List Char → Nat → σ × Except FireholParseError Unit} {path : List UInt8}

theorem visitEach_append (lineNumber : Nat) (seen : σ) (first second : List (List Char)) :
    visitEach visit lineNumber seen (first ++ second) =
      match visitEach visit lineNumber seen first with
      | (seen, .ok lineNumber) => visitEach visit lineNumber seen second
      | (seen, .error error) => (seen, .error error) := by
  induction first generalizing lineNumber seen with
  | nil => rfl
  | cons line rest ih =>
      rw [List.cons_append, visitEach, visitEach]
      rcases visit seen line (lineNumber + 1) with ⟨after, error | accepted⟩
      · rfl
      · exact ih (lineNumber + 1) after

variable (visit path) in
def FileVisit.outcome (lineNumber : Nat) (seen : σ) (file : FileVisit) : σ × Except FireholParseError Nat :=
  match visitEach visit lineNumber seen file.lines with
  | (seen, .error error) => (seen, .error error)
  | (seen, .ok _) =>
      match file.bytes with
      | some bytes => (seen, .ok bytes)
      | none => (seen, .error (.io path))

variable (visit path) in
def ChunkReader.outcome (reader : ChunkReader σ) (events : List ReadEvent) : σ × Except FireholParseError Nat :=
  (visitLoop events reader.remaining reader.buffer reader.bytes).outcome visit path reader.lineNumber reader.seen

theorem FileVisit.outcome_append (lineNumber : Nat) (seen : σ) (lines : List (List Char)) (file : FileVisit) :
    FileVisit.outcome visit path lineNumber seen ⟨lines ++ file.lines, file.bytes⟩ =
      match visitEach visit lineNumber seen lines with
      | (seen, .error error) => (seen, .error error)
      | (seen, .ok lineNumber) => file.outcome visit path lineNumber seen := by
  rw [FileVisit.outcome, visitEach_append]
  rcases visitEach visit lineNumber seen lines with ⟨after, error | number⟩ <;> rfl

theorem visitLoop_upTo (limit : Nat) (events : List ReadEvent) (remaining : List UInt8) (buffer : ReadBuffer)
    (bytes : Nat) :
    visitLoop (.upTo limit :: events) remaining buffer bytes =
      match decodeUtf8 (buffer.grow.complete (buffer.grow.read limit remaining)) with
      | none => ⟨[], none⟩
      | some text =>
          if buffer.grow.read limit remaining = [] then ⟨splitTerminator '\n' text, some bytes⟩
          else
            let rest := visitLoop events (remaining.drop (buffer.grow.read limit remaining).length)
              (buffer.grow.keep limit remaining) (bytes + (buffer.grow.read limit remaining).length)
            ⟨splitTerminator '\n' text ++ rest.lines, rest.bytes⟩ := by
  rw [visitLoop, if_neg (by simp), dif_neg (by simp)]
  rfl

theorem ChunkReader.step_outcome (reader : ChunkReader σ) (event : ReadEvent) (events : List ReadEvent) :
    reader.outcome visit path (event :: events) =
      match reader.step visit path event with
      | .reading next => next.outcome visit path events
      | .returned seen result => (seen, result) := by
  obtain ⟨remaining, buffer, lineNumber, bytes, seen⟩ := reader
  cases event with
  | interrupted =>
      rw [outcome, visitLoop, if_neg (by simp), dif_pos (by rfl)]
      rfl
  | failed =>
      rw [outcome, visitLoop, if_pos (by rfl)]
      rfl
  | upTo limit =>
      rw [outcome, visitLoop_upTo]
      simp only [step, receive]
      cases decodeUtf8 (buffer.grow.complete (buffer.grow.read limit remaining)) with
      | none => rfl
      | some text =>
          by_cases stopped : buffer.grow.read limit remaining = []
          · simp only [if_pos stopped, FileVisit.outcome]
            rcases visitEach visit lineNumber seen (splitTerminator '\n' text) with ⟨after, error | number⟩ <;> rfl
          · simp only [if_neg stopped, FileVisit.outcome_append]
            rcases visitEach visit lineNumber seen (splitTerminator '\n' text) with ⟨after, error | number⟩ <;> rfl

theorem run_returned (seen : σ) (result : Except FireholParseError Nat) (events : List ReadEvent) :
    run (VisitStatus.step visit path) (.returned seen result) events = .returned seen result := by
  induction events with
  | nil => rfl
  | cons event events ih => exact ih

theorem ChunkReader.run_outcome {reader : ChunkReader σ} {events : List ReadEvent} {seen : σ}
    {result : Except FireholParseError Nat}
    (ended : run (VisitStatus.step visit path) (.reading reader) events = .returned seen result) :
    reader.outcome visit path events = (seen, result) := by
  induction events generalizing reader with
  | nil => cases ended
  | cons event events ih =>
      rw [reader.step_outcome]
      change run (VisitStatus.step visit path) (reader.step visit path event) events = _ at ended
      cases stepped : reader.step visit path event with
      | reading next =>
          rw [stepped] at ended
          exact ih ended
      | returned after done =>
          rw [stepped, run_returned] at ended
          cases ended
          rfl

end Refinement

section Termination

variable {σ : Type} {visit : σ → List Char → Nat → σ × Except FireholParseError Unit} {path : List UInt8}

def VisitStatus.Ended (status : VisitStatus σ) : Prop := ∃ seen result, status = .returned seen result

def VisitStatus.unread : VisitStatus σ → Nat
  | .reading reader => reader.remaining.length
  | .returned _ _ => 0

theorem ChunkReader.receive_progress (reader : ChunkReader σ) (limit : Nat) :
    (reader.receive visit path limit).Ended ∨ (reader.receive visit path limit).unread < reader.remaining.length := by
  unfold receive
  dsimp only
  split
  · exact Or.inl ⟨_, _, rfl⟩
  · split
    · exact Or.inl ⟨_, _, rfl⟩
    · split_ifs with stopped
      · exact Or.inl ⟨_, _, rfl⟩
      · have taken : 0 < (reader.buffer.grow.read limit reader.remaining).length :=
          List.length_pos_iff.mpr stopped
        have within : (reader.buffer.grow.read limit reader.remaining).length ≤ reader.remaining.length :=
          List.length_take_le' _ _
        refine Or.inr ?_
        simp only [VisitStatus.unread, List.length_drop]
        omega

theorem VisitStatus.step_nearer (status : VisitStatus σ) (event : ReadEvent) (read : event ≠ .interrupted) :
    (status.step visit path event).Ended ∨ (status.step visit path event).unread < status.unread := by
  cases status with
  | returned seen result => exact Or.inl ⟨seen, result, rfl⟩
  | reading reader =>
      cases event with
      | interrupted => exact absurd rfl read
      | failed => exact Or.inl ⟨_, _, rfl⟩
      | upTo limit => exact reader.receive_progress limit

theorem VisitStatus.step_kept (status : VisitStatus σ) (event : ReadEvent) :
    (status.step visit path event).Ended ∨ (status.step visit path event).unread ≤ status.unread := by
  by_cases interrupted : event = .interrupted
  · subst interrupted
    cases status with
    | returned seen result => exact Or.inl ⟨seen, result, rfl⟩
    | reading reader => exact Or.inr (Nat.le_refl _)
  · exact (status.step_nearer event interrupted).imp_right Nat.le_of_lt

end Termination

section Results

variable {σ : Type} {visit : σ → List Char → Nat → σ × Except FireholParseError Unit} {path : List UInt8}

variable (visit) in
def Accepts : Prop := ∀ seen line lineNumber, (visit seen line lineNumber).2 = .ok ()

variable (visit) in
def calls (first : Nat) (lines : List (List Char)) (seen : σ) : σ :=
  (lines.zipIdx first).foldl (fun seen call => (visit seen call.1 call.2).1) seen

theorem visitEach_accepts (accepts : Accepts visit) (lineNumber : Nat) (seen : σ) (lines : List (List Char)) :
    visitEach visit lineNumber seen lines =
      (calls visit (lineNumber + 1) lines seen, .ok (lineNumber + lines.length)) := by
  induction lines generalizing lineNumber seen with
  | nil => rfl
  | cons line rest ih =>
      have accepted : visit seen line (lineNumber + 1) = ((visit seen line (lineNumber + 1)).1, .ok ()) :=
        Prod.ext rfl (accepts seen line (lineNumber + 1))
      rw [visitEach, accepted]
      refine (ih (lineNumber + 1) _).trans (Prod.ext rfl (congrArg Except.ok ?_))
      rw [List.length_cons, Nat.add_right_comm, Nat.add_assoc]

theorem visit_terminates (visit : σ → List Char → Nat → σ × Except FireholParseError Unit) (path : List UInt8)
    (reader : ChunkReader σ) {events : Nat → ReadEvent}
    (fair : ∀ count, ∃ later, count ≤ later ∧ events later ≠ .interrupted) :
    ∃ count, (run (VisitStatus.step visit path) (.reading reader) (firstSteps events count)).Ended :=
  ends_of_fair VisitStatus.Ended VisitStatus.unread (· ≠ .interrupted) fair VisitStatus.step_kept
    VisitStatus.step_nearer

theorem visit_file_lines_exact (visit : σ → List Char → Nat → σ × Except FireholParseError Unit)
    (accepts : Accepts visit) (path content : List UInt8) (seen : σ) (events : Nat → ReadEvent)
    (reads : ∀ index, events index ≠ .failed)
    (fair : ∀ count, ∃ later, count ≤ later ∧ events later ≠ .interrupted) :
    ∃ count after result,
      run (VisitStatus.step visit path) (.reading (.start content seen)) (firstSteps events count) =
        .returned after result ∧
      (∀ text, decodeUtf8 content = some text →
        after = calls visit 1 (splitTerminator '\n' text) seen ∧ result = .ok content.length) ∧
      (decodeUtf8 content = none → ∃ error, result = .error error) := by
  obtain ⟨count, after, result, ended⟩ := visit_terminates visit path (.start content seen) fair
  have outcome := ChunkReader.run_outcome ended
  refine ⟨count, after, result, ended, ?_, ?_⟩
  · intro text valid
    have quiet : ReadEvent.failed ∉ firstSteps events count := by
      intro failed
      obtain ⟨index, _, same⟩ := mem_firstSteps.mp failed
      exact reads index same
    obtain ⟨total, bytes⟩ := Option.isSome_iff_exists.mp
      (@visitLoop_valid _ content .new 0 quiet ⟨text, valid⟩)
    obtain ⟨same, decoded, lines, counted⟩ := visitLoop_lines bytes
    obtain rfl : text = same := Option.some.inj (valid.symm.trans decoded)
    simp only [ChunkReader.outcome, ChunkReader.start, FileVisit.outcome, visitEach_accepts accepts, lines, bytes,
      Prod.mk.injEq] at outcome
    exact ⟨outcome.1.symm, by rw [← outcome.2, counted, Nat.zero_add]⟩
  · intro invalid
    have unread : (visitLoop (firstSteps events count) content .new 0).bytes = none := by
      refine Option.eq_none_iff_forall_ne_some.mpr fun total bytes => ?_
      obtain ⟨text, decoded, _⟩ := visitLoop_lines bytes
      exact Option.some_ne_none text (decoded.symm.trans invalid)
    simp only [ChunkReader.outcome, ChunkReader.start, FileVisit.outcome, visitEach_accepts accepts, unread,
      Prod.mk.injEq] at outcome
    exact ⟨_, outcome.2.symm⟩

def recordLine (seen : List (Nat × List Char)) (line : List Char) (lineNumber : Nat) :
    List (Nat × List Char) × Except FireholParseError Unit :=
  (seen ++ [(lineNumber, line)], .ok ())

def haltingReads (index : Nat) : ReadEvent := if index % 2 = 0 then .interrupted else .upTo 1

theorem haltingReads_recorded :
    ∃ count result, run (VisitStatus.step recordLine []) (.reading (.start [97, 10, 98] []))
      (firstSteps haltingReads count) = .returned [(1, ['a']), (2, ['b'])] result ∧ result = .ok 3 := by
  have reads (index : Nat) : haltingReads index ≠ .failed := by
    unfold haltingReads
    split_ifs <;> exact ReadEvent.noConfusion
  have fair (count : Nat) : ∃ later, count ≤ later ∧ haltingReads later ≠ .interrupted := by
    refine ⟨2 * count + 1, by omega, ?_⟩
    rw [haltingReads, if_neg (by omega)]
    exact ReadEvent.noConfusion
  obtain ⟨count, after, result, returned, visited, _⟩ :=
    visit_file_lines_exact recordLine (fun _ _ _ => rfl) [] [97, 10, 98] [] haltingReads reads fair
  obtain ⟨rfl, rfl⟩ := visited ['a', '\n', 'b'] rfl
  exact ⟨count, _, returned, rfl⟩

end Results

end ReputationFirewall.Firehol
