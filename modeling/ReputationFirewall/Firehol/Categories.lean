import ReputationFirewall.Firehol.SingleFile
import ReputationFirewall.Shared.Collect
import ReputationFirewall.Shared.Runs

set_option autoImplicit false

namespace ReputationFirewall.Firehol

open Collect Runs Text

section Headers

def headerCategory (line : List Char) : Option FireholCategory :=
  match classifyLine line with
  | .comment body =>
      (splitOnce ':' body).bind fun (key, value) =>
        if toLowercase (trim key) = "category".toList then some (.parseCategory (trim value)) else none
  | _ => none

def categoryOf (lines : List (List Char)) : FireholCategory := (lines.reverse.findSome? headerCategory).getD .other

theorem categoryOf_concat (lines : List (List Char)) (line : List Char) :
    categoryOf (lines ++ [line]) = (headerCategory line).getD (categoryOf lines) := by
  rw [categoryOf, List.reverse_append, List.reverse_singleton, List.singleton_append, List.findSome?_cons]
  cases headerCategory line <;> rfl

theorem categoryOf_target {lines : List (List Char)} {line token : List Char}
    (target : classifyLine line = .target token) : categoryOf (lines ++ [line]) = categoryOf lines := by
  rw [categoryOf_concat, headerCategory, target]
  rfl

def FileState.unpushed (state : FileState) : List FireholMetadata := if state.hasEmitted then [] else [state.active]

variable {context : ImportContext} {path : List UInt8} {state : FileState} {next : BitVec 32} {lineNumber : Nat}
  {line : List Char} {result : LineResult}

theorem applyHeader_cases (context : ImportContext) (state : FileState) (next : BitVec 32) (body : List Char)
    (header : classifyLine line = .comment body) :
    (applyHeader context state next body).1.active.fileName = state.active.fileName ∧
    (applyHeader context state next body).1.active.category = (headerCategory line).getD state.active.category ∧
    ((applyHeader context state next body).2 = next ∧
        (applyHeader context state next body).1.active.id = state.active.id ∧
        (applyHeader context state next body).1.hasEmitted = state.hasEmitted ∧
        (state.hasEmitted = true → (headerCategory line).getD state.active.category = state.active.category) ∨
      (applyHeader context state next body).2 = next + 1 ∧
        (applyHeader context state next body).1.active.id = next ∧
        (applyHeader context state next body).1.hasEmitted = false ∧ state.hasEmitted = true ∧
        (headerCategory line).getD state.active.category ≠ state.active.category) := by
  unfold applyHeader headerCategory
  rw [header]
  dsimp only
  cases splitOnce ':' body with
  | none => exact ⟨rfl, rfl, Or.inl ⟨rfl, rfl, rfl, fun _ => rfl⟩⟩
  | some pair =>
      obtain ⟨key, value⟩ := pair
      rw [Option.bind_some]
      dsimp only
      by_cases category : toLowercase (trim key) = "category".toList
      · rw [if_pos category, if_pos category]
        split_ifs with changed
        · exact ⟨rfl, rfl, Or.inr ⟨rfl, rfl, rfl, changed.2, changed.1⟩⟩
        · refine ⟨rfl, rfl, Or.inl ⟨rfl, rfl, rfl, fun emitted => ?_⟩⟩
          by_contra different
          exact changed ⟨different, emitted⟩
      · rw [if_neg category, if_neg category]
        refine ⟨?_, ?_, Or.inl ⟨rfl, ?_, rfl, fun _ => rfl⟩⟩ <;> split_ifs <;> rfl

theorem visitLine_cases (visited : visitLine context path state next lineNumber line = .ok result) :
    ((∃ token, classifyLine line = .target token) ∧ result.state = { state with hasEmitted := true } ∧
      result.emitted = state.unpushed ∧ result.nextMetadataId = next) ∨
    ((∀ token, classifyLine line ≠ .target token) ∧ result.emitted = [] ∧
      result.state.active.fileName = state.active.fileName ∧
      result.state.active.category = (headerCategory line).getD state.active.category ∧
      (result.nextMetadataId = next ∧ result.state.active.id = state.active.id ∧
          result.state.hasEmitted = state.hasEmitted ∧
          (state.hasEmitted = true → (headerCategory line).getD state.active.category = state.active.category) ∨
        result.nextMetadataId = next + 1 ∧ result.state.active.id = next ∧ result.state.hasEmitted = false ∧
          state.hasEmitted = true ∧ (headerCategory line).getD state.active.category ≠ state.active.category)) := by
  unfold visitLine at visited
  cases kind : classifyLine line with
  | blank =>
      have none : headerCategory line = none := by rw [headerCategory, kind]
      rw [kind] at visited
      cases visited
      exact Or.inr ⟨fun token => LineKind.noConfusion, rfl, rfl, by rw [none]; rfl,
        Or.inl ⟨rfl, rfl, rfl, fun _ => by rw [none]; rfl⟩⟩
  | comment body =>
      rw [kind] at visited
      cases visited
      have header := applyHeader_cases context state next body kind
      exact Or.inr ⟨fun token => LineKind.noConfusion, rfl, header.1, header.2.1, header.2.2⟩
  | target token =>
      rw [kind] at visited
      dsimp only at visited
      cases targets : tokenTargets context token with
      | none =>
          rw [targets] at visited
          cases visited
      | some targets =>
          simp only [targets, Except.ok.injEq] at visited
          cases visited
          exact Or.inl ⟨⟨token, rfl⟩, rfl, rfl, rfl⟩

end Headers

section Attribution

variable (context : ImportContext)

def entriesOf (lines : List (List Char)) (ids : List (BitVec 32)) : List FireholEntry :=
  ((lines.zip ids).zipIdx 1).flatMap fun ((line, id), number) =>
    ((lineTargets context line).getD []).map fun target =>
      { target, ruleId := 0, metadataId := id, line := BitVec.ofNat 32 number }

def Describes (name : List Char) (category : FireholCategory) (id : BitVec 32) (record : FireholMetadata) : Prop :=
  record.id = id ∧ record.fileName = name ∧ record.category = category

structure Attributed (name : List Char) (lines : List (List Char)) (ids : List (BitVec 32)) (parsed : ParsedFile) :
    Prop where
  aligned : ids.length = lines.length
  entries : parsed.entries = entriesOf context lines ids
  records : ∀ index line token id, lines[index]? = some line → classifyLine line = .target token →
    ids[index]? = some id → ∃ record ∈ parsed.metadata, Describes name (categoryOf (lines.take index)) id record
  fileName : parsed.state.active.fileName = name
  category : parsed.state.active.category = categoryOf lines
  pushed : parsed.state.hasEmitted = true →
    ∃ record ∈ parsed.metadata, Describes name (categoryOf lines) parsed.state.active.id record

variable {context} {path : List UInt8} {name : List Char} {lines : List (List Char)} {ids : List (BitVec 32)}
  {parsed : ParsedFile}

theorem entriesOf_concat (aligned : ids.length = lines.length) (line : List Char) (id : BitVec 32) :
    entriesOf context (lines ++ [line]) (ids ++ [id]) = entriesOf context lines ids ++
      ((lineTargets context line).getD []).map fun target =>
        { target, ruleId := 0, metadataId := id, line := BitVec.ofNat 32 (1 + lines.length) } := by
  unfold entriesOf
  rw [List.zip_append aligned.symm, List.zipIdx_append, List.flatMap_append, List.length_zip, aligned, Nat.min_self]
  simp

theorem Attributed.record (attributed : Attributed context name lines ids parsed) :
    ∃ record ∈ parsed.metadata ++ parsed.state.unpushed,
      Describes name (categoryOf lines) parsed.state.active.id record := by
  cases emitted : parsed.state.hasEmitted with
  | true =>
      obtain ⟨record, member, describes⟩ := attributed.pushed emitted
      exact ⟨record, List.mem_append_left _ member, describes⟩
  | false =>
      refine ⟨parsed.state.active, ?_, rfl, attributed.fileName, attributed.category⟩
      simp [FileState.unpushed, emitted]

theorem Attributed.line (attributed : Attributed context name lines ids parsed) {next : BitVec 32}
    {line : List Char} {result : LineResult}
    (visited : visitLine context path parsed.state next (1 + lines.length) line = .ok result) :
    Attributed context name (lines ++ [line]) (ids ++ [parsed.state.active.id])
      ⟨result.state, parsed.metadata ++ result.emitted, parsed.entries ++ result.entries⟩ := by
  obtain ⟨targets, found, entries⟩ := visitLine_targets visited
  have split := visitLine_cases visited
  constructor
  case aligned => simp [attributed.aligned]
  case entries => rw [entriesOf_concat attributed.aligned, attributed.entries, entries, found, Option.getD_some]
  case records =>
    intro index other token id here target number
    rcases getElem?_concat_iff.mp here with before | ⟨rfl, rfl⟩
    · have earlier := (List.getElem?_eq_some_iff.mp before).1
      rw [List.getElem?_append_left (attributed.aligned ▸ earlier)] at number
      obtain ⟨record, member, describes⟩ := attributed.records index other token id before target number
      rw [List.take_append_of_le_length earlier.le]
      exact ⟨record, List.mem_append_left _ member, describes⟩
    · -- The new line is a target, so it has pushed the record in effect if need be.
      rw [← attributed.aligned, List.getElem?_concat_length] at number
      cases number
      obtain ⟨_, _, emitted, _⟩ | ⟨other, _⟩ := split
      · rw [List.take_left, emitted]
        exact attributed.record
      · exact absurd target (other token)
  case fileName =>
    obtain ⟨_, state, _⟩ | ⟨_, _, file, _⟩ := split
    · rw [state]
      exact attributed.fileName
    · exact file.trans attributed.fileName
  case category =>
    obtain ⟨⟨token, target⟩, state, _⟩ | ⟨_, _, _, category, _⟩ := split
    · rw [state, categoryOf_target target]
      exact attributed.category
    · rw [categoryOf_concat, ← attributed.category]
      exact category
  case pushed =>
    intro emitted
    obtain ⟨⟨token, target⟩, state, pushed, _⟩ | ⟨_, pushed, _, _, ⟨_, id, same, kept⟩ | ⟨_, _, fresh, _⟩⟩ := split
    · rw [state, pushed, categoryOf_target target]
      exact attributed.record
    · rw [same] at emitted
      rw [pushed, List.append_nil, id, categoryOf_concat, ← attributed.category, kept emitted, attributed.category]
      exact attributed.pushed emitted
    · exact absurd (fresh.symm.trans emitted) Bool.false_ne_true

theorem beginFile_attributed (path : List UInt8) (counter : Nat → BitVec 32) :
    Attributed context ((decodeUtf8 path).getD "unknown".toList) [] [] (beginFile path counter) :=
  ⟨rfl, rfl, fun _ _ _ _ here => absurd here (by simp), rfl, rfl, fun emitted => absurd emitted Bool.false_ne_true⟩

section Reading

variable {invariant : List (List Char) → List (BitVec 32) → ParsedFile → Prop}
  (step : ∀ {lines ids parsed next line result}, invariant lines ids parsed →
    visitLine context path parsed.state next (1 + lines.length) line = .ok result →
      invariant (lines ++ [line]) (ids ++ [parsed.state.active.id])
        ⟨result.state, parsed.metadata ++ result.emitted, parsed.entries ++ result.entries⟩)

include step

theorem parseLines_invariant {counter : Nat → BitVec 32} {rest : List (List Char)} {final : ParsedFile}
    (holds : invariant lines ids parsed)
    (finished : parseLines context path counter parsed (1 + lines.length) rest = .ok final) :
    ∃ more, invariant (lines ++ rest) (ids ++ more) final := by
  induction rest generalizing parsed lines ids with
  | nil =>
      cases finished
      exact ⟨[], by simpa using holds⟩
  | cons line rest ih =>
      rw [parseLines] at finished
      split at finished
      · cases finished
      · next result visited =>
        rw [Nat.add_assoc, ← List.length_singleton (a := line), ← List.length_append] at finished
        obtain ⟨more, done⟩ := ih (step holds visited) finished
        rw [List.append_assoc, List.append_assoc] at done
        exact ⟨_, done⟩

theorem parseSingleFile_invariant {counter : Nat → BitVec 32} {file : SourceFile} {metadata : List FireholMetadata}
    {entries : List FireholEntry} {bytes : Nat} (own : path = file.path)
    (start : invariant [] [] (beginFile file.path counter))
    (parsed : parseSingleFile context counter file = .ok (metadata, entries, bytes)) :
    ∃ text ids final, decodeUtf8 file.source.content = some text ∧ invariant (splitTerminator '\n' text) ids final ∧
      metadata = final.metadata ++ final.state.unpushed ∧ entries = final.entries := by
  subst own
  rw [parseSingleFile] at parsed
  split at parsed
  · cases parsed
  · next final finished =>
    split at parsed
    · cases parsed
    · next total read =>
      cases parsed
      obtain ⟨text, decoded, lines, _⟩ := visitFileLines_lines read
      obtain ⟨ids, holds⟩ := parseLines_invariant step start finished
      rw [List.nil_append, List.nil_append, lines] at holds
      exact ⟨text, ids, final, decoded, holds, rfl, rfl⟩

end Reading

theorem parseSingleFile_attributed {counter : Nat → BitVec 32} {file : SourceFile}
    {metadata : List FireholMetadata} {entries : List FireholEntry} {bytes : Nat}
    (parsed : parseSingleFile context counter file = .ok (metadata, entries, bytes)) :
    ∃ text ids, decodeUtf8 file.source.content = some text ∧ ids.length = (splitTerminator '\n' text).length ∧
      entries = entriesOf context (splitTerminator '\n' text) ids ∧
      ∀ index line token id, (splitTerminator '\n' text)[index]? = some line → classifyLine line = .target token →
        ids[index]? = some id → ∃ record ∈ metadata,
          Describes ((decodeUtf8 file.path).getD "unknown".toList)
            (categoryOf ((splitTerminator '\n' text).take index)) id record := by
  obtain ⟨text, ids, final, decoded, attributed, rfl, rfl⟩ :=
    parseSingleFile_invariant (fun attributed visited => attributed.line visited) rfl
      (beginFile_attributed file.path counter) parsed
  refine ⟨text, ids, decoded, attributed.aligned, attributed.entries, ?_⟩
  intro index line token id here target number
  obtain ⟨record, member, describes⟩ := attributed.records index line token id here target number
  exact ⟨record, List.mem_append_left _ member, describes⟩

end Attribution

section Calls

inductive FileCall where
  | opening
  | reading (parsed : ParsedFile) (lineNumber : Nat) (lines : List (List Char))
  | returned (metadata : List FireholMetadata) (entries : List FireholEntry) (result : Except FireholParseError Nat)

def FileCall.pushed : FileCall → List FireholMetadata
  | .opening => []
  | .reading parsed _ _ => parsed.metadata
  | .returned metadata _ _ => metadata

-- Opens the file, reads one line or ends, with the shared counter at `next`.
def FileCall.step (context : ImportContext) (file : SourceFile) (next : BitVec 32) : FileCall → FileCall × BitVec 32
  | .opening =>
      (.reading ⟨⟨.new ((decodeUtf8 file.path).getD "unknown".toList) next, false⟩, [], []⟩ 1
        (visitFileLines file.source).lines, next + 1)
  | .reading parsed lineNumber (line :: rest) =>
      match visitLine context file.path parsed.state next lineNumber line with
      | .ok result =>
          (.reading ⟨result.state, parsed.metadata ++ result.emitted, parsed.entries ++ result.entries⟩
            (lineNumber + 1) rest, result.nextMetadataId)
      -- A target pushes its record before it turns out to be invalid.
      | .error error => (.returned (parsed.metadata ++ parsed.state.unpushed) parsed.entries (.error error), next)
  | .reading parsed _ [] =>
      match (visitFileLines file.source).bytes with
      | some bytes => (.returned (parsed.metadata ++ parsed.state.unpushed) parsed.entries (.ok bytes), next)
      | none => (.returned parsed.metadata parsed.entries (.error (.io file.path)), next)
  | .returned metadata entries result => (.returned metadata entries result, next)

structure ParseCalls (n : Nat) where
  nextMetadataId : BitVec 32
  calls : Fin n → FileCall

variable {n : Nat}

def ParseCalls.start (first : BitVec 32) : ParseCalls n := ⟨first, fun _ => .opening⟩

variable (context : ImportContext) (files : Fin n → SourceFile)

def ParseCalls.step (state : ParseCalls n) (index : Fin n) : ParseCalls n :=
  let moved := (state.calls index).step context (files index) state.nextMetadataId
  ⟨moved.2, Function.update state.calls index moved.1⟩

def ParseCalls.pushed (state : ParseCalls n) : List FireholMetadata :=
  (List.finRange n).flatMap fun index => (state.calls index).pushed

def Allocates (state : ParseCalls n) (index : Fin n) : Prop :=
  (state.step context files index).nextMetadataId ≠ state.nextMetadataId

end Calls

section Numbers

def FileCall.numbers : FileCall → List (BitVec 32)
  | .opening => []
  | .reading parsed _ _ => (parsed.metadata ++ parsed.state.unpushed).map FireholMetadata.id
  | .returned metadata _ _ => metadata.map FireholMetadata.id

theorem FileCall.pushed_sublist (call : FileCall) : (call.pushed.map FireholMetadata.id).Sublist call.numbers := by
  cases call with
  | opening => exact List.Sublist.refl _
  | reading parsed lineNumber lines =>
      rw [pushed, numbers, List.map_append]
      exact List.sublist_append_left _ _
  | returned metadata entries result => exact List.Sublist.refl _

variable {context : ImportContext} {file : SourceFile}

theorem FileCall.step_numbers (call : FileCall) (next : BitVec 32) :
    ((call.step context file next).2 = next ∧ (call.step context file next).1.numbers.Sublist call.numbers) ∨
    ((call.step context file next).2 = next + 1 ∧
      (call.step context file next).1.numbers = call.numbers ++ [next]) := by
  cases call with
  | opening => exact Or.inr ⟨rfl, rfl⟩
  | returned metadata entries result => exact Or.inl ⟨rfl, List.Sublist.refl _⟩
  | reading parsed lineNumber lines =>
      cases lines with
      | nil =>
          rw [step]
          cases (visitFileLines file.source).bytes with
          | some bytes => exact Or.inl ⟨rfl, List.Sublist.refl _⟩
          | none => exact Or.inl ⟨rfl, (FileCall.reading parsed lineNumber []).pushed_sublist⟩
      | cons line rest =>
          rw [step]
          cases visited : visitLine context file.path parsed.state next lineNumber line with
          | error error => exact Or.inl ⟨rfl, List.Sublist.refl _⟩
          | ok result =>
              obtain ⟨_, state, pushed, same⟩ | ⟨_, pushed, _, _, ⟨same, id, emitted, _⟩ | ⟨taken, id, fresh, emitted, _⟩⟩ :=
                visitLine_cases visited
              · refine Or.inl ⟨same, ?_⟩
                simp [numbers, state, pushed, FileState.unpushed]
              · refine Or.inl ⟨same, ?_⟩
                cases before : parsed.state.hasEmitted <;> simp [numbers, pushed, FileState.unpushed, emitted, before, id]
              · refine Or.inr ⟨taken, ?_⟩
                simp [numbers, pushed, FileState.unpushed, fresh, emitted, id]

variable {n : Nat} {files : Fin n → SourceFile}

structure Fresh (first : BitVec 32) (count : Nat) (state : ParseCalls n) : Prop where
  next : state.nextMetadataId = first + BitVec.ofNat 32 count
  taken : ∀ index, ∀ id ∈ (state.calls index).numbers, ∃ earlier < count, id = first + BitVec.ofNat 32 earlier
  nodup : ∀ index, (state.calls index).numbers.Nodup
  apart : ∀ left right, left ≠ right → (state.calls left).numbers.Disjoint (state.calls right).numbers

theorem start_fresh (first : BitVec 32) : Fresh first 0 (.start first : ParseCalls n) :=
  ⟨by simp [ParseCalls.start], fun _ _ member => absurd member List.not_mem_nil, fun _ => List.nodup_nil,
    fun _ _ _ => List.disjoint_nil_left _⟩

variable {first : BitVec 32} {count : Nat} {state : ParseCalls n}

theorem Fresh.unused (fresh : Fresh first count state) (small : count < 2 ^ 32) (index : Fin n) :
    state.nextMetadataId ∉ (state.calls index).numbers := by
  intro member
  obtain ⟨earlier, before, same⟩ := fresh.taken index _ member
  rw [fresh.next] at same
  exact absurd (BigEndian.offset_inj small (before.trans small) same) before.ne'

theorem Fresh.replace (fresh : Fresh first count state) (small : count < 2 ^ 32) {index : Fin n} {call : FileCall}
    {later : Nat} {next : BitVec 32} (more : count ≤ later) (counted : next = first + BitVec.ofNat 32 later)
    (distinct : call.numbers.Nodup)
    (known : ∀ id ∈ call.numbers, id ∈ (state.calls index).numbers ∨ id = state.nextMetadataId ∧ count < later) :
    Fresh first later ⟨next, Function.update state.calls index call⟩ := by
  have others : ∀ other, other ≠ index → call.numbers.Disjoint (state.calls other).numbers := by
    intro other different id own shared
    rcases known id own with before | ⟨rfl, _⟩
    · exact fresh.apart other index different shared before
    · exact fresh.unused small other shared
  refine ⟨counted, fun other => ?_, fun other => ?_, fun left right different => ?_⟩ <;> dsimp only
  · rcases eq_or_ne other index with rfl | same
    · rw [Function.update_self]
      intro id member
      rcases known id member with before | ⟨rfl, grown⟩
      · obtain ⟨earlier, below, value⟩ := fresh.taken other id before
        exact ⟨earlier, below.trans_le more, value⟩
      · exact ⟨count, grown, fresh.next⟩
    · rw [Function.update_of_ne same]
      intro id member
      obtain ⟨earlier, below, value⟩ := fresh.taken other id member
      exact ⟨earlier, below.trans_le more, value⟩
  · rcases eq_or_ne other index with rfl | same
    · rwa [Function.update_self]
    · rw [Function.update_of_ne same]
      exact fresh.nodup other
  · rcases eq_or_ne left index with rfl | leftKept
    · rw [Function.update_self, Function.update_of_ne different.symm]
      exact others right different.symm
    · rcases eq_or_ne right index with rfl | rightKept
      · rw [Function.update_self, Function.update_of_ne leftKept]
        exact (others left leftKept).symm
      · rw [Function.update_of_ne leftKept, Function.update_of_ne rightKept]
        exact fresh.apart left right different

theorem Fresh.step (fresh : Fresh first count state) (small : count < 2 ^ 32) (index : Fin n) :
    (¬ Allocates context files state index ∧ Fresh first count (state.step context files index)) ∨
    (Allocates context files state index ∧ Fresh first (count + 1) (state.step context files index)) := by
  obtain ⟨same, kept⟩ | ⟨taken, grown⟩ :=
    @FileCall.step_numbers context (files index) (state.calls index) state.nextMetadataId
  · refine Or.inl ⟨fun allocates => allocates same, fresh.replace small (Nat.le_refl _) ?_ ?_ ?_⟩
    · exact same.trans fresh.next
    · exact kept.nodup (fresh.nodup index)
    · exact fun id member => Or.inl (kept.subset member)
  · refine Or.inr ⟨?_, fresh.replace small (Nat.le_succ _) ?_ ?_ ?_⟩
    · intro same
      exact absurd (taken.symm.trans same) (by simp)
    · rw [taken, fresh.next, BitVec.ofNat_add, BitVec.add_assoc]
      rfl
    · rw [grown, ← List.concat_eq_append]
      exact (fresh.nodup index).concat (fresh.unused small index)
    · intro id member
      rw [grown, List.mem_append, List.mem_singleton] at member
      exact member.imp_right fun own => ⟨own, Nat.lt_succ_self _⟩

theorem run_fresh (first : BitVec 32) (schedule : List (Fin n))
    (small : countSteps (ParseCalls.step context files) (Allocates context files) (.start first) schedule < 2 ^ 32) :
    Fresh first (countSteps (ParseCalls.step context files) (Allocates context files) (.start first) schedule)
      (run (ParseCalls.step context files) (.start first) schedule) := by
  induction schedule using List.reverseRecOn with
  | nil => exact start_fresh first
  | append_singleton schedule index ih =>
      rw [countSteps_concat] at small ⊢
      rw [run_concat]
      have earlier := ih (by omega)
      obtain ⟨idle, kept⟩ | ⟨allocates, grown⟩ := earlier.step (by omega) index
      · rw [if_neg idle]
        exact kept
      · rw [if_pos allocates]
        exact grown

theorem Fresh.pushed_nodup (fresh : Fresh first count state) : (state.pushed.map FireholMetadata.id).Nodup := by
  rw [ParseCalls.pushed, List.map_flatMap, List.nodup_flatMap]
  refine ⟨fun index _ => (state.calls index).pushed_sublist.nodup (fresh.nodup index), ?_⟩
  refine (List.nodup_finRange n).imp ?_
  intro left right different id onLeft onRight
  exact fresh.apart left right different ((state.calls left).pushed_sublist.subset onLeft)
    ((state.calls right).pushed_sublist.subset onRight)

end Numbers

section Results

variable {context : ImportContext}

def FileCall.Follows (context : ImportContext) (file : SourceFile) : FileCall → Prop
  | .opening => True
  | .reading parsed lineNumber rest => ∃ counter done, (visitFileLines file.source).lines = done ++ rest ∧
      lineNumber = 1 + done.length ∧
      parseLines context file.path counter (beginFile file.path counter) 1 done = .ok parsed
  | .returned metadata entries (.ok bytes) =>
      ∃ counter, parseSingleFile context counter file = .ok (metadata, entries, bytes)
  | .returned _ _ (.error _) => True

theorem FileCall.Follows.step {file : SourceFile} {call : FileCall} (follows : call.Follows context file)
    (next : BitVec 32) : (call.step context file next).1.Follows context file := by
  cases call with
  | opening => exact ⟨fun _ => next, [], rfl, rfl, rfl⟩
  | returned metadata entries result => exact follows
  | reading parsed lineNumber lines =>
      obtain ⟨counter, done, split, number, reached⟩ := follows
      cases lines with
      | nil =>
          rw [List.append_nil] at split
          rw [FileCall.step]
          cases read : (visitFileLines file.source).bytes with
          | some bytes =>
              refine ⟨counter, ?_⟩
              simp only [parseSingleFile, split, reached, read]
              rfl
          | none => trivial
      | cons line rest =>
          rw [FileCall.step]
          cases visited : visitLine context file.path parsed.state next lineNumber line with
          | ok result =>
              rw [number] at visited
              obtain ⟨noted, further⟩ := parseLines_noted reached visited
              exact ⟨noted, done ++ [line], by simp [split], by simp [number, Nat.add_assoc], further⟩
          | error error => trivial

variable {n : Nat} {files : Fin n → SourceFile}

theorem run_follows (first : BitVec 32) (schedule : List (Fin n)) (index : Fin n) :
    ((run (ParseCalls.step context files) (.start first) schedule).calls index).Follows context (files index) := by
  refine run_invariant _ (fun state : ParseCalls n => ∀ index, (state.calls index).Follows context (files index))
    (.start first) (fun _ => trivial) ?_ schedule index
  intro state moved follows other
  dsimp only [ParseCalls.step]
  rcases eq_or_ne other moved with rfl | kept
  · rw [Function.update_self]
    exact (follows other).step _
  · rw [Function.update_of_ne kept]
    exact follows other

theorem pushed_metadata_attributed (context : ImportContext) (files : Fin n → SourceFile) (first : BitVec 32)
    (schedule : List (Fin n))
    (small : countSteps (ParseCalls.step context files) (Allocates context files) (.start first) schedule < 2 ^ 32) :
    ((run (ParseCalls.step context files) (.start first) schedule).pushed.map FireholMetadata.id).Nodup ∧
    ∀ index metadata entries bytes,
      (run (ParseCalls.step context files) (.start first) schedule).calls index =
        .returned metadata entries (.ok bytes) →
      ∃ text ids, decodeUtf8 (files index).source.content = some text ∧
        ids.length = (splitTerminator '\n' text).length ∧
        entries = entriesOf context (splitTerminator '\n' text) ids ∧
        ∀ position line token id, (splitTerminator '\n' text)[position]? = some line →
          classifyLine line = .target token → ids[position]? = some id →
          ((run (ParseCalls.step context files) (.start first) schedule).pushed.map FireholMetadata.id).count id = 1 ∧
          ∃ record ∈ metadata, Describes ((decodeUtf8 (files index).path).getD "unknown".toList)
            (categoryOf ((splitTerminator '\n' text).take position)) id record := by
  have distinct := (run_fresh first schedule small).pushed_nodup
  refine ⟨distinct, fun index metadata entries bytes returned => ?_⟩
  have follows := @run_follows context n files first schedule index
  rw [returned] at follows
  obtain ⟨counter, parsed⟩ := follows
  obtain ⟨text, ids, decoded, aligned, listed, records⟩ := parseSingleFile_attributed parsed
  refine ⟨text, ids, decoded, aligned, listed, fun position line token id here target number => ?_⟩
  obtain ⟨record, member, describes⟩ := records position line token id here target number
  refine ⟨List.count_eq_one_of_mem distinct ?_, record, member, describes⟩
  refine List.mem_map.mpr ⟨record, List.mem_flatMap.mpr ⟨index, List.mem_finRange index, ?_⟩, describes.1⟩
  rw [returned]
  exact member

def mixedFile : SourceFile where
  path := "mixed.ipset".toList.map fun char => UInt8.ofNat char.toNat
  size := 56
  source := ⟨true, "# Category: spam\n192.0.2.1\n# Category: botnet\n192.0.2.2\n".toList.map
    fun char => UInt8.ofNat char.toNat, []⟩

-- Two calls take turns, so the second record of each has a number behind those of both first records.
theorem mixedFile_attributed :
    ∃ metadata entries bytes,
      (run (ParseCalls.step ⟨.documented, fun _ => none, []⟩ fun _ : Fin 2 => mixedFile) (.start 0)
        (List.replicate 6 [0, 1]).flatten).calls 0 = .returned metadata entries (.ok bytes) ∧
      metadata.map (fun record => (record.id, record.category)) = [(0, .spam), (2, .botnet)] ∧
      ((run (ParseCalls.step ⟨.documented, fun _ => none, []⟩ fun _ : Fin 2 => mixedFile) (.start 0)
        (List.replicate 6 [0, 1]).flatten).pushed.map FireholMetadata.id).Nodup ∧
      ∃ text ids, decodeUtf8 mixedFile.source.content = some text ∧
        entries = entriesOf ⟨.documented, fun _ => none, []⟩ (splitTerminator '\n' text) ids := by
  have attributed := pushed_metadata_attributed ⟨.documented, fun _ => none, []⟩ (fun _ : Fin 2 => mixedFile) 0
    (List.replicate 6 [0, 1]).flatten ((countSteps_le_length _ _ _ _).trans_lt (by decide))
  have outcome : (match (run (ParseCalls.step ⟨.documented, fun _ => none, []⟩ fun _ : Fin 2 => mixedFile) (.start 0)
      (List.replicate 6 [0, 1]).flatten).calls 0 with
    | .returned metadata _ (.ok _) => some (metadata.map fun record => (record.id, record.category))
    | _ => none) = some [(0, .spam), (2, .botnet)] := by decide +kernel
  split at outcome
  · next metadata entries bytes returned =>
    obtain ⟨text, ids, decoded, _, listed, _⟩ := attributed.2 0 metadata entries bytes returned
    exact ⟨metadata, entries, bytes, returned, Option.some.inj outcome, attributed.1, text, ids, decoded, listed⟩
  · exact absurd outcome (Option.some_ne_none _).symm

end Results

end ReputationFirewall.Firehol
