import ReputationFirewall.Firehol.Categories

set_option autoImplicit false

namespace ReputationFirewall.Firehol

open Collect Runs Text

section Fields

inductive HeaderField where
  | maintainer
  | maintainerUrl
  | sourceUrl
  | sourceFileDate
  | version
  | updateFrequency
  deriving DecidableEq

def HeaderField.key : HeaderField → List Char
  | .maintainer => "maintainer".toList
  | .maintainerUrl => "maintainer url".toList
  | .sourceUrl => "list source url".toList
  | .sourceFileDate => "source file date".toList
  | .version => "version".toList
  | .updateFrequency => "update frequency".toList

def FireholMetadata.field (record : FireholMetadata) : HeaderField → Option (List Char)
  | .maintainer => record.maintainer
  | .maintainerUrl => record.maintainerUrl
  | .sourceUrl => record.sourceUrl
  | .sourceFileDate => record.sourceFileDate
  | .version => record.version
  | .updateFrequency => record.updateFrequency

-- A date is normalized; one that is none leaves the field empty.
def HeaderField.read (context : ImportContext) (value : List Char) : HeaderField → Option (List Char)
  | .sourceFileDate => context.normalizeDate value
  | _ => some value

def headerValue (key line : List Char) : Option (List Char) :=
  match classifyLine line with
  | .comment body =>
      (splitOnce ':' body).bind fun (rawKey, rawValue) =>
        if toLowercase (trim rawKey) = key then some (trim rawValue) else none
  | _ => none

def fieldOf (context : ImportContext) (field : HeaderField) (lines : List (List Char)) : Option (List Char) :=
  (lines.reverse.findSome? (headerValue field.key)).bind fun value => field.read context value

theorem fieldOf_concat (context : ImportContext) (field : HeaderField) (lines : List (List Char)) (line : List Char) :
    fieldOf context field (lines ++ [line]) =
      match headerValue field.key line with
      | some value => field.read context value
      | none => fieldOf context field lines := by
  rw [fieldOf, List.reverse_append, List.reverse_singleton, List.singleton_append, List.findSome?_cons]
  cases headerValue field.key line <;> rfl

theorem headerValue_target {line token : List Char} (target : classifyLine line = .target token) (key : List Char) :
    headerValue key line = none := by
  rw [headerValue, target]

variable {context : ImportContext} {path : List UInt8} {state : FileState} {next : BitVec 32} {lineNumber : Nat}
  {line : List Char} {result : LineResult}

theorem applyHeader_field (body : List Char) (header : classifyLine line = .comment body) (field : HeaderField) :
    (applyHeader context state next body).1.active.field field =
      match headerValue field.key line with
      | some value => field.read context value
      | none => state.active.field field := by
  unfold applyHeader headerValue
  rw [header]
  dsimp only
  cases splitOnce ':' body with
  | none => rfl
  | some pair =>
      obtain ⟨rawKey, rawValue⟩ := pair
      rw [Option.bind_some]
      dsimp only
      generalize toLowercase (trim rawKey) = key
      by_cases own : key = field.key
      · subst own
        cases field <;> rfl
      · rw [if_neg own]
        by_cases category : key = "category".toList
        · simp only [if_pos category]
          split <;> cases field <;> rfl
        · simp only [if_neg category]
          cases field <;> dsimp only [HeaderField.key] at own <;>
            simp only [FireholMetadata.field, if_neg own, apply_ite FireholMetadata.maintainer,
              apply_ite FireholMetadata.maintainerUrl, apply_ite FireholMetadata.sourceUrl,
              apply_ite FireholMetadata.sourceFileDate, apply_ite FireholMetadata.version,
              apply_ite FireholMetadata.updateFrequency, ite_self]

theorem visitLine_field (visited : visitLine context path state next lineNumber line = .ok result) (field : HeaderField) :
    result.state.active.field field =
      match headerValue field.key line with
      | some value => field.read context value
      | none => state.active.field field := by
  unfold visitLine at visited
  cases kind : classifyLine line with
  | blank =>
      rw [kind] at visited
      cases visited
      rw [headerValue, kind]
  | comment body =>
      rw [kind] at visited
      cases visited
      exact applyHeader_field body kind field
  | target token =>
      rw [kind] at visited
      dsimp only at visited
      cases targets : tokenTargets context token with
      | none =>
          rw [targets] at visited
          cases visited
      | some targets =>
          simp only [targets, Except.ok.injEq] at visited
          cases visited
          rw [headerValue_target kind]

end Fields

section Segments

def TargetAt (lines : List (List Char)) (position : Nat) : Prop :=
  ∃ line token, lines[position]? = some line ∧ classifyLine line = .target token

def Steady (lines : List (List Char)) (first last : Nat) : Prop :=
  ∀ between, first ≤ between → between ≤ last → categoryOf (lines.take between) = categoryOf (lines.take last)

structure Opens (lines : List (List Char)) (opener position : Nat) : Prop where
  target : TargetAt lines opener
  before : opener ≤ position
  steady : Steady lines opener position
  first : ∀ earlier ≤ position, TargetAt lines earlier → Steady lines earlier position → opener ≤ earlier

theorem Opens.unique {lines : List (List Char)} {opener other position : Nat} (opens : Opens lines opener position)
    (also : Opens lines other position) : opener = other :=
  Nat.le_antisymm (opens.first other also.before also.target also.steady)
    (also.first opener opens.before opens.target opens.steady)

variable {lines : List (List Char)} {line : List Char} {position : Nat}

theorem TargetAt.inside (target : TargetAt lines position) : position < lines.length := by
  obtain ⟨_, _, here, _⟩ := target
  exact (List.getElem?_eq_some_iff.mp here).1

theorem take_concat (inside : position ≤ lines.length) : (lines ++ [line]).take position = lines.take position :=
  List.take_append_of_le_length inside

theorem targetAt_concat : TargetAt (lines ++ [line]) position ↔
    TargetAt lines position ∨ position = lines.length ∧ ∃ token, classifyLine line = .target token := by
  constructor
  · rintro ⟨found, token, here, target⟩
    rcases getElem?_concat_iff.mp here with before | ⟨rfl, rfl⟩
    · exact Or.inl ⟨found, token, before, target⟩
    · exact Or.inr ⟨rfl, token, target⟩
  · rintro (⟨found, token, here, target⟩ | ⟨rfl, token, target⟩)
    · exact ⟨found, token, getElem?_concat_iff.mpr (Or.inl here), target⟩
    · exact ⟨line, token, getElem?_concat_iff.mpr (Or.inr ⟨rfl, rfl⟩), target⟩

theorem steady_concat {first : Nat} (inside : position ≤ lines.length) :
    Steady (lines ++ [line]) first position ↔ Steady lines first position := by
  refine forall_congr' fun between => forall_congr' fun _ => forall_congr' fun below => ?_
  rw [take_concat inside, take_concat (below.trans inside)]

theorem steady_next {first : Nat} (inside : first ≤ lines.length) :
    Steady (lines ++ [line]) first (lines.length + 1) ↔
      Steady lines first lines.length ∧ categoryOf (lines ++ [line]) = categoryOf lines := by
  have whole : (lines ++ [line]).take (lines.length + 1) = lines ++ [line] := List.take_of_length_le (by simp)
  constructor
  · intro steady
    have last := steady lines.length inside (Nat.le_succ _)
    rw [whole, List.take_left] at last
    refine ⟨fun between after below => ?_, last.symm⟩
    have middle := steady between after (below.trans (Nat.le_succ _))
    rw [whole, take_concat below] at middle
    rw [middle, ← last, List.take_length]
  · rintro ⟨steady, kept⟩ between after below
    rcases Nat.le_succ_iff.mp below with earlier | rfl
    · rw [whole, kept, take_concat earlier, steady between after earlier, List.take_length]
    · rfl

theorem Opens.concat {opener : Nat} (opens : Opens lines opener position) (inside : position ≤ lines.length) :
    Opens (lines ++ [line]) opener position where
  target := targetAt_concat.mpr (Or.inl opens.target)
  before := opens.before
  steady := (steady_concat inside).mpr opens.steady
  first earlier below target steady := by
    rcases targetAt_concat.mp target with old | ⟨rfl, _⟩
    · exact opens.first earlier below old ((steady_concat inside).mp steady)
    · exact opens.before.trans inside

theorem Opens.next {opener : Nat} (opens : Opens (lines ++ [line]) opener lines.length)
    (kept : categoryOf (lines ++ [line]) = categoryOf lines) : Opens (lines ++ [line]) opener (lines.length + 1) where
  target := opens.target
  before := opens.before.trans (Nat.le_succ _)
  steady := (steady_next opens.before).mpr ⟨(steady_concat (Nat.le_refl _)).mp opens.steady, kept⟩
  first earlier _ target steady := by
    have inside : earlier ≤ lines.length := by
      have within := target.inside
      rw [List.length_append, List.length_singleton] at within
      exact Nat.le_of_lt_succ within
    exact opens.first earlier inside target ((steady_concat (Nat.le_refl _)).mpr ((steady_next inside).mp steady).1)

def Unopened (lines : List (List Char)) : Prop := ∀ earlier, TargetAt lines earlier → ¬ Steady lines earlier lines.length

theorem Unopened.opens (unopened : Unopened lines) {token : List Char} (target : classifyLine line = .target token) :
    Opens (lines ++ [line]) lines.length lines.length where
  target := targetAt_concat.mpr (Or.inr ⟨rfl, token, target⟩)
  before := Nat.le_refl _
  steady between after below := by rw [Nat.le_antisymm below after]
  first earlier _ found steady := by
    rcases targetAt_concat.mp found with old | ⟨rfl, _⟩
    · exact absurd ((steady_concat (Nat.le_refl _)).mp steady) (unopened earlier old)
    · exact Nat.le_refl _

theorem Unopened.concat (plain : ∀ token, classifyLine line ≠ .target token)
    (closed : Unopened lines ∨ categoryOf (lines ++ [line]) ≠ categoryOf lines) : Unopened (lines ++ [line]) := by
  intro earlier found steady
  rw [List.length_append, List.length_singleton] at steady
  rcases targetAt_concat.mp found with old | ⟨_, token, target⟩
  · obtain ⟨before, kept⟩ := (steady_next old.inside.le).mp steady
    exact closed.elim (fun unopened => unopened earlier old before) (fun changed => changed kept)
  · exact plain token target

end Segments

section Snapshots

variable (context : ImportContext)

structure Copies (lines : List (List Char)) (position : Nat) (id : BitVec 32) (record : FireholMetadata) : Prop where
  number : record.id = id
  opened : ∃ opener, Opens lines opener position ∧ ∀ field, record.field field = fieldOf context field (lines.take opener)

structure Snapshots (lines : List (List Char)) (ids : List (BitVec 32)) (parsed : ParsedFile) : Prop where
  fields : ∀ field, parsed.state.active.field field = fieldOf context field lines
  records : ∀ index id, TargetAt lines index → ids[index]? = some id →
    ∃ record ∈ parsed.metadata, Copies context lines index id record
  pushed : parsed.state.hasEmitted = true →
    ∃ record ∈ parsed.metadata, Copies context lines lines.length parsed.state.active.id record
  unopened : parsed.state.hasEmitted = false → Unopened lines

variable {context} {path : List UInt8} {name : List Char} {lines : List (List Char)} {ids : List (BitVec 32)}
  {parsed : ParsedFile} {line : List Char} {position : Nat} {id : BitVec 32} {record : FireholMetadata}

theorem Copies.concat (copies : Copies context lines position id record) (inside : position ≤ lines.length) :
    Copies context (lines ++ [line]) position id record := by
  obtain ⟨number, opener, opens, fields⟩ := copies
  refine ⟨number, opener, opens.concat inside, fun field => ?_⟩
  rw [take_concat (opens.before.trans inside)]
  exact fields field

theorem Copies.next (copies : Copies context (lines ++ [line]) lines.length id record)
    (kept : categoryOf (lines ++ [line]) = categoryOf lines) :
    Copies context (lines ++ [line]) (lines.length + 1) id record := by
  obtain ⟨number, opener, opens, fields⟩ := copies
  exact ⟨number, opener, opens.next kept, fields⟩

theorem Snapshots.found (snapshots : Snapshots context lines ids parsed) {token : List Char}
    (target : classifyLine line = .target token) :
    ∃ record ∈ parsed.metadata ++ parsed.state.unpushed,
      Copies context (lines ++ [line]) lines.length parsed.state.active.id record := by
  cases emitted : parsed.state.hasEmitted with
  | true =>
      obtain ⟨record, member, copies⟩ := snapshots.pushed emitted
      exact ⟨record, List.mem_append_left _ member, copies.concat (Nat.le_refl _)⟩
  | false =>
      refine ⟨parsed.state.active, ?_, rfl, lines.length, (snapshots.unopened emitted).opens target, fun field => ?_⟩
      · simp [FileState.unpushed, emitted]
      · rw [List.take_left]
        exact snapshots.fields field

theorem Snapshots.visit (snapshots : Snapshots context lines ids parsed) (attributed : Attributed context name lines ids parsed)
    {next : BitVec 32} {result : LineResult}
    (visited : visitLine context path parsed.state next (1 + lines.length) line = .ok result) :
    Snapshots context (lines ++ [line]) (ids ++ [parsed.state.active.id])
      ⟨result.state, parsed.metadata ++ result.emitted, parsed.entries ++ result.entries⟩ := by
  have split := visitLine_cases visited
  have category : categoryOf (lines ++ [line]) = (headerCategory line).getD parsed.state.active.category := by
    rw [categoryOf_concat, attributed.category]
  constructor
  case fields =>
    intro field
    rw [fieldOf_concat, ← snapshots.fields]
    exact visitLine_field visited field
  case records =>
    intro index id target number
    rcases targetAt_concat.mp target with old | ⟨rfl, token, own⟩
    · rw [List.getElem?_append_left (attributed.aligned ▸ old.inside)] at number
      obtain ⟨record, member, copies⟩ := snapshots.records index id old number
      exact ⟨record, List.mem_append_left _ member, copies.concat old.inside.le⟩
    · rw [← attributed.aligned, List.getElem?_concat_length] at number
      cases number
      obtain ⟨_, _, emitted, _⟩ | ⟨plain, _⟩ := split
      · rw [emitted]
        exact snapshots.found own
      · exact absurd own (plain token)
  case pushed =>
    intro emitted
    rw [List.length_append, List.length_singleton]
    obtain ⟨⟨token, own⟩, state, pushed, _⟩ | ⟨_, pushed, _, _, ⟨_, same, kept, steady⟩ | ⟨_, _, fresh, _⟩⟩ := split
    · rw [state, pushed]
      obtain ⟨record, member, copies⟩ := snapshots.found own
      exact ⟨record, member, copies.next (categoryOf_target own)⟩
    · rw [kept] at emitted
      rw [pushed, List.append_nil, same]
      obtain ⟨record, member, copies⟩ := snapshots.pushed emitted
      refine ⟨record, member, (copies.concat (Nat.le_refl _)).next ?_⟩
      rw [category, steady emitted, attributed.category]
    · exact absurd (fresh.symm.trans emitted) Bool.false_ne_true
  case unopened =>
    intro waiting
    obtain ⟨_, state, _⟩ | ⟨plain, _, _, _, ⟨_, _, kept, _⟩ | ⟨_, _, _, _, changed⟩⟩ := split
    · rw [state] at waiting
      exact absurd waiting.symm Bool.false_ne_true
    · exact Unopened.concat plain (Or.inl (snapshots.unopened (kept.symm.trans waiting)))
    · refine Unopened.concat plain (Or.inr ?_)
      rw [category, ← attributed.category]
      exact changed

theorem beginFile_snapshots (path : List UInt8) (counter : Nat → BitVec 32) :
    Snapshots context [] [] (beginFile path counter) where
  fields field := by cases field <;> rfl
  records index id target := absurd target.inside (Nat.not_lt_zero _)
  pushed emitted := absurd emitted Bool.false_ne_true
  unopened _ earlier target := absurd target.inside (Nat.not_lt_zero _)

theorem parseSingleFile_snapshots {counter : Nat → BitVec 32} {file : SourceFile} {metadata : List FireholMetadata}
    {entries : List FireholEntry} {bytes : Nat}
    (parsed : parseSingleFile context counter file = .ok (metadata, entries, bytes)) :
    ∃ text ids, decodeUtf8 file.source.content = some text ∧ ids.length = (splitTerminator '\n' text).length ∧
      entries = entriesOf context (splitTerminator '\n' text) ids ∧
      ∀ index id, TargetAt (splitTerminator '\n' text) index → ids[index]? = some id →
        ∃ record ∈ metadata, Copies context (splitTerminator '\n' text) index id record := by
  obtain ⟨text, ids, final, decoded, ⟨attributed, snapshots⟩, rfl, rfl⟩ := @parseSingleFile_invariant context file.path
    (fun lines ids parsed => Attributed context ((decodeUtf8 file.path).getD "unknown".toList) lines ids parsed ∧
      Snapshots context lines ids parsed)
    (fun both visited => ⟨both.1.line visited, both.2.visit both.1 visited⟩) counter file metadata entries bytes rfl
    ⟨beginFile_attributed file.path counter, beginFile_snapshots file.path counter⟩ parsed
  refine ⟨text, ids, decoded, attributed.aligned, attributed.entries, fun index id target number => ?_⟩
  obtain ⟨record, member, copies⟩ := snapshots.records index id target number
  exact ⟨record, List.mem_append_left _ member, copies⟩

end Snapshots

section Results

def Emits (context : ImportContext) (line : List Char) : Prop := (lineTargets context line).getD [] ≠ []

def FieldsInEffect (context : ImportContext) (lines : List (List Char)) (ids : List (BitVec 32))
    (metadata : List FireholMetadata) : Prop :=
  ∀ position line id, lines[position]? = some line → Emits context line → ids[position]? = some id →
    ∀ record ∈ metadata, record.id = id → ∀ field, record.field field = fieldOf context field (lines.take position)

def FieldsSettled (context : ImportContext) (lines : List (List Char)) : Prop :=
  ∀ position line, lines[position]? = some line → Emits context line → ∀ opener, Opens lines opener position →
    ∀ field, fieldOf context field (lines.take opener) = fieldOf context field (lines.take position)

theorem Emits.targetAt {context : ImportContext} {lines : List (List Char)} {line : List Char} {position : Nat}
    (emits : Emits context line) (here : lines[position]? = some line) : TargetAt lines position := by
  unfold Emits lineTargets at emits
  cases kind : classifyLine line with
  | target token => exact ⟨line, token, here, kind⟩
  | blank =>
      rw [kind] at emits
      exact absurd rfl emits
  | comment body =>
      rw [kind] at emits
      exact absurd rfl emits

variable {context : ImportContext} {lines : List (List Char)} {ids : List (BitVec 32)} {metadata : List FireholMetadata}

theorem fieldsInEffect_iff (aligned : ids.length = lines.length) (distinct : (metadata.map FireholMetadata.id).Nodup)
    (copied : ∀ index id, TargetAt lines index → ids[index]? = some id →
      ∃ record ∈ metadata, Copies context lines index id record) :
    FieldsInEffect context lines ids metadata ↔ FieldsSettled context lines := by
  constructor
  · intro inEffect position line here emits opener opens field
    have target := emits.targetAt here
    obtain ⟨id, number⟩ : ∃ id, ids[position]? = some id :=
      ⟨_, List.getElem?_eq_getElem (aligned ▸ target.inside)⟩
    obtain ⟨record, member, own, other, opened, fields⟩ := copied position id target number
    rw [opens.unique opened, ← fields field]
    exact inEffect position line id here emits number record member own field
  · intro settled position line id here emits number record member own field
    obtain ⟨copy, listed, same, opener, opens, fields⟩ := copied position id (emits.targetAt here) number
    obtain rfl : record = copy := List.inj_on_of_nodup_map distinct member listed (own.trans same.symm)
    rw [fields field]
    exact settled position line here emits opener opens field

variable {n : Nat}

theorem header_fields_in_effect_iff (context : ImportContext) (files : Fin n → SourceFile) (first : BitVec 32)
    (schedule : List (Fin n))
    (small : countSteps (ParseCalls.step context files) (Allocates context files) (.start first) schedule < 2 ^ 32)
    (index : Fin n) (metadata : List FireholMetadata) (entries : List FireholEntry) (bytes : Nat)
    (returned : (run (ParseCalls.step context files) (.start first) schedule).calls index =
      .returned metadata entries (.ok bytes)) :
    ∃ text ids, decodeUtf8 (files index).source.content = some text ∧
      ids.length = (splitTerminator '\n' text).length ∧
      entries = entriesOf context (splitTerminator '\n' text) ids ∧
      (FieldsInEffect context (splitTerminator '\n' text) ids metadata ↔
        FieldsSettled context (splitTerminator '\n' text)) := by
  have follows := @run_follows context n files first schedule index
  have distinct := (run_fresh first schedule small).nodup index
  rw [returned] at follows distinct
  obtain ⟨counter, parsed⟩ := follows
  obtain ⟨text, ids, decoded, aligned, listed, copied⟩ := parseSingleFile_snapshots parsed
  exact ⟨text, ids, decoded, aligned, listed, fieldsInEffect_iff aligned distinct copied⟩

instance (lines : List (List Char)) (position : Nat) : Decidable (TargetAt lines position) :=
  decidable_of_iff (∃ line ∈ lines[position]?, (match classifyLine line with
      | .target _ => true
      | .blank | .comment _ => false) = true) (by
    unfold TargetAt
    constructor
    · rintro ⟨line, here, target⟩
      cases kind : classifyLine line <;> simp_all
    · rintro ⟨line, token, here, kind⟩
      exact ⟨line, here, by rw [kind]⟩)

theorem fieldsSettled_of_categories
    (same : ∀ field, ∀ position < lines.length, ∀ opener < position, TargetAt lines position ∧ TargetAt lines opener ∧
      categoryOf (lines.take opener) = categoryOf (lines.take position) →
        fieldOf context field (lines.take opener) = fieldOf context field (lines.take position)) :
    FieldsSettled context lines := by
  intro position line here emits opener opens field
  have target := emits.targetAt here
  cases opens.before.eq_or_lt with
  | inl here => rw [here]
  | inr earlier =>
      exact same field position target.inside opener earlier
        ⟨target, opens.target, opens.steady opener le_rfl opens.before⟩

def headersLines : List (List Char) :=
  ["# Maintainer: first".toList, "# Category: spam".toList, "192.0.2.1".toList, "# Maintainer: second".toList,
    "# Version: 2".toList, "# Category: botnet".toList, "192.0.2.2".toList, "192.0.2.3".toList]

def headersText : List Char := headersLines.flatMap fun line => line ++ ['\n']

def headersFile : SourceFile where
  path := "headers.ipset".toList.map fun char => UInt8.ofNat char.toNat
  size := 120
  source := ⟨true, headersText.map fun char => UInt8.ofNat char.toNat, []⟩

theorem headersFile_fields_in_effect :
    ∃ metadata entries bytes ids,
      (run (ParseCalls.step ⟨.documented, fun _ => none, []⟩ fun _ : Fin 1 => headersFile) (.start 0)
        (List.replicate 10 0)).calls 0 = .returned metadata entries (.ok bytes) ∧
      (metadata.map fun record => (record.maintainer, record.version)) =
        [(some "first".toList, none), (some "second".toList, some "2".toList)] ∧
      entries.map FireholEntry.line = [3, 7, 8] ∧
      FieldsInEffect ⟨.documented, fun _ => none, []⟩ headersLines ids metadata := by
  have effect := header_fields_in_effect_iff ⟨.documented, fun _ => none, []⟩ (fun _ : Fin 1 => headersFile) 0
    (List.replicate 10 0) ((countSteps_le_length _ _ _ _).trans_lt (by decide)) 0
  have settled : FieldsSettled ⟨.documented, fun _ => none, []⟩ headersLines := by
    -- Only the last two targets have a category in common.
    have last : ∀ position < headersLines.length, ∀ opener < position, TargetAt headersLines position ∧
        TargetAt headersLines opener ∧ categoryOf (headersLines.take opener) = categoryOf (headersLines.take position) →
          position = 7 ∧ opener = 6 := by decide +kernel
    refine fieldsSettled_of_categories fun field position inside opener earlier same => ?_
    obtain ⟨rfl, rfl⟩ := last position inside opener earlier same
    cases field <;> decide +kernel
  have outcome : (match (run (ParseCalls.step ⟨.documented, fun _ => none, []⟩ fun _ : Fin 1 => headersFile) (.start 0)
      (List.replicate 10 0)).calls 0 with
    | .returned metadata entries (.ok _) =>
        decide ((metadata.map fun record => (record.maintainer, record.version)) =
          [(some "first".toList, none), (some "second".toList, some "2".toList)] ∧
          entries.map FireholEntry.line = [3, 7, 8])
    | _ => false) = true := by decide +kernel
  have lines : splitTerminator '\n' headersText = headersLines := by decide +kernel
  have text : decodeUtf8 headersFile.source.content = some headersText := by decide +kernel
  split at outcome
  · next metadata entries bytes returned =>
    obtain ⟨own, ids, decoded, _, _, iff⟩ := effect metadata entries bytes returned
    rw [text] at decoded
    obtain rfl : headersText = own := Option.some.inj decoded
    rw [lines] at iff
    have fields := of_decide_eq_true outcome
    exact ⟨metadata, entries, bytes, ids, returned, fields.1, fields.2, iff.mpr settled⟩
  · exact absurd outcome Bool.false_ne_true

def lateMaintainer : SourceFile where
  path := "late.ipset".toList.map fun char => UInt8.ofNat char.toNat
  size := 61
  source := ⟨true, "# Maintainer: first\n192.0.2.1\n# Maintainer: second\n192.0.2.2\n".toList.map
    fun char => UInt8.ofNat char.toNat, []⟩

theorem late_maintainer_lost :
    ((parseSingleFile ⟨.documented, fun _ => none, []⟩ (fun line => BitVec.ofNat 32 line) lateMaintainer).toOption.map
        fun (metadata, entries, _) => (metadata.map fun record => (record.id, record.maintainer),
          entries.map fun entry => (entry.line, entry.metadataId))) =
        some ([(0, some "first".toList)], [(2, 0), (4, 0)]) ∧
      fieldOf ⟨.documented, fun _ => none, []⟩ .maintainer
        ((splitTerminator '\n' "# Maintainer: first\n192.0.2.1\n# Maintainer: second\n192.0.2.2\n".toList).take 3) =
        some "second".toList := by
  decide +kernel

end Results

end ReputationFirewall.Firehol
