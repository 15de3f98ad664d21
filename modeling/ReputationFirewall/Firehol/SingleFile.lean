import ReputationFirewall.Firehol.Pipeline

set_option autoImplicit false

namespace ReputationFirewall.Firehol

open Text

structure ParsedFile where
  state : FileState
  metadata : List FireholMetadata
  entries : List FireholEntry

section Parsing

-- `counter n` is the shared counter when line `n` is reached, `counter 0` when the file is opened.
variable (context : ImportContext) (path : List UInt8) (counter : Nat → BitVec 32)

def parseLines : ParsedFile → Nat → List (List Char) → Except FireholParseError ParsedFile
  | parsed, _, [] => .ok parsed
  | parsed, lineNumber, line :: rest =>
      match visitLine context path parsed.state (counter lineNumber) lineNumber line with
      | .error error => .error error
      | .ok result =>
          parseLines ⟨result.state, parsed.metadata ++ result.emitted, parsed.entries ++ result.entries⟩
            (lineNumber + 1) rest

def beginFile : ParsedFile :=
  ⟨⟨.new ((decodeUtf8 path).getD "unknown".toList) (counter 0), false⟩, [], []⟩

def parseSingleFile (file : SourceFile) :
    Except FireholParseError (List FireholMetadata × List FireholEntry × Nat) :=
  let visit := visitFileLines file.source
  match parseLines context file.path counter (beginFile file.path counter) 1 visit.lines with
  | .error error => .error error
  | .ok parsed =>
      match visit.bytes with
      | none => .error (.io file.path)
      | some bytes =>
          .ok (parsed.metadata ++ (if parsed.state.hasEmitted then [] else [parsed.state.active]),
            parsed.entries, bytes)

end Parsing

section Lines

variable {context : ImportContext} {path : List UInt8}

theorem parseLines_congr {counter other : Nat → BitVec 32} {parsed : ParsedFile} {lineNumber : Nat}
    {lines : List (List Char)}
    (agree : ∀ number, number < lineNumber + lines.length → counter number = other number) :
    parseLines context path counter parsed lineNumber lines =
      parseLines context path other parsed lineNumber lines := by
  induction lines generalizing parsed lineNumber with
  | nil => rfl
  | cons line rest ih =>
      rw [List.length_cons] at agree
      simp only [parseLines, agree lineNumber (by omega)]
      split
      · rfl
      · exact ih fun number inside => agree number (by omega)

theorem parseLines_concat {counter : Nat → BitVec 32} {parsed middle : ParsedFile} {lineNumber : Nat}
    {lines : List (List Char)} {line : List Char} {result : LineResult}
    (before : parseLines context path counter parsed lineNumber lines = .ok middle)
    (visited : visitLine context path middle.state (counter (lineNumber + lines.length))
      (lineNumber + lines.length) line = .ok result) :
    parseLines context path counter parsed lineNumber (lines ++ [line]) =
      .ok ⟨result.state, middle.metadata ++ result.emitted, middle.entries ++ result.entries⟩ := by
  induction lines generalizing parsed lineNumber with
  | nil =>
      cases before
      simp only [List.length_nil, Nat.add_zero] at visited
      simp [parseLines, visited]
  | cons first rest ih =>
      simp only [parseLines, List.cons_append] at before ⊢
      split at before
      · simp at before
      · refine ih before ?_
        rwa [List.length_cons, show lineNumber + (rest.length + 1) = lineNumber + 1 + rest.length by omega]
          at visited

-- The counter that a new line meets is noted at its number, which no earlier line looked at.
theorem parseLines_noted {counter : Nat → BitVec 32} {done : List (List Char)} {middle : ParsedFile}
    {next : BitVec 32} {line : List Char} {result : LineResult}
    (before : parseLines context path counter (beginFile path counter) 1 done = .ok middle)
    (visited : visitLine context path middle.state next (1 + done.length) line = .ok result) :
    ∃ noted, parseLines context path noted (beginFile path noted) 1 (done ++ [line]) =
      .ok ⟨result.state, middle.metadata ++ result.emitted, middle.entries ++ result.entries⟩ := by
  have agree : ∀ other, other < 1 + done.length →
      counter other = Function.update counter (1 + done.length) next other := by
    intro other earlier
    exact (Function.update_of_ne (by omega) _ _).symm
  have start : beginFile path counter = beginFile path (Function.update counter (1 + done.length) next) := by
    simp only [beginFile, agree 0 (by omega)]
  rw [parseLines_congr agree, start] at before
  exact ⟨_, parseLines_concat before (by simpa using visited)⟩

theorem parseLines_unnumbered {counter : Nat → BitVec 32} {parsed final : ParsedFile} {lineNumber : Nat}
    {lines : List (List Char)} (unnumbered : ∀ entry ∈ parsed.entries, entry.ruleId = 0)
    (finished : parseLines context path counter parsed lineNumber lines = .ok final) :
    ∀ entry ∈ final.entries, entry.ruleId = 0 := by
  induction lines generalizing parsed lineNumber with
  | nil =>
      cases finished
      exact unnumbered
  | cons line rest ih =>
      simp only [parseLines] at finished
      split at finished
      · simp at finished
      · next result visited =>
        refine ih ?_ finished
        obtain ⟨targets, -, entries⟩ := visitLine_targets visited
        intro entry member
        rcases List.mem_append.mp member with earlier | own
        · exact unnumbered entry earlier
        · rw [entries] at own
          obtain ⟨target, -, rfl⟩ := List.mem_map.mp own
          rfl

end Lines

def Yields (context : ImportContext) (file : SourceFile) (entries : List FireholEntry) : Prop :=
  ∃ counter metadata bytes, parseSingleFile context counter file = .ok (metadata, entries, bytes)

theorem Yields.unnumbered {context : ImportContext} {file : SourceFile} {entries : List FireholEntry}
    (yields : Yields context file entries) : ∀ entry ∈ entries, entry.ruleId = 0 := by
  obtain ⟨counter, metadata, bytes, parsed⟩ := yields
  simp only [parseSingleFile] at parsed
  split at parsed
  · simp at parsed
  · next final finished =>
    split at parsed
    · simp at parsed
    · obtain rfl : final.entries = entries := by simp_all
      exact parseLines_unnumbered (by simp [beginFile]) finished

section Progress

variable (context : ImportContext)

def FileProgress.Reaches (progress : FileProgress) (entries : List FireholEntry) : Prop :=
  ∃ counter done metadata,
    (visitFileLines progress.file.source).lines = done ++ progress.lines ∧
    (visitFileLines progress.file.source).bytes = progress.bytes ∧
    progress.lineNumber = 1 + done.length ∧
    parseLines context progress.file.path counter (beginFile progress.file.path counter) 1 done =
      .ok ⟨progress.state, metadata, entries⟩

variable {context} {progress : FileProgress} {entries : List FireholEntry}

theorem FileProgress.Reaches.line {nextMetadataId : BitVec 32} {line : List Char}
    {rest : List (List Char)} {result : LineResult} (reaches : progress.Reaches context entries)
    (lines : progress.lines = line :: rest)
    (visited : visitLine context progress.file.path progress.state nextMetadataId progress.lineNumber
      line = .ok result) (pending : List FireholEntry) :
    FileProgress.Reaches context { progress with
      state := result.state, lines := rest, lineNumber := progress.lineNumber + 1, pending }
      (entries ++ result.entries) := by
  obtain ⟨counter, done, metadata, split, bytes, number, parsed⟩ := reaches
  rw [number] at visited
  obtain ⟨noted, reached⟩ := parseLines_noted parsed visited
  exact ⟨noted, done ++ [line], _, by simp [split, lines], bytes, by simp [number, Nat.add_assoc], reached⟩

theorem FileProgress.Reaches.finish (reaches : progress.Reaches context entries)
    (lines : progress.lines = []) (read : progress.bytes.isSome = true) :
    Yields context progress.file entries := by
  obtain ⟨counter, done, metadata, split, bytes, -, parsed⟩ := reaches
  obtain ⟨total, known⟩ := Option.isSome_iff_exists.mp read
  rw [lines, List.append_nil] at split
  refine ⟨counter, metadata ++ (if progress.state.hasEmitted then [] else [progress.state.active]), total, ?_⟩
  simp [parseSingleFile, split, parsed, bytes, known]

end Progress

end ReputationFirewall.Firehol
