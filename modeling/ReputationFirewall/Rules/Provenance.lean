import ReputationFirewall.Rules.Loader
import ReputationFirewall.Shared.Collect

set_option autoImplicit false

namespace ReputationFirewall.Rules

open Collect KeyedStore NetAddr Text

section Accepted

variable (ipNetFromStr : List Char → Option IpNet)

def acceptsLine (rawBytes : List UInt8) : Bool :=
  match decodeUtf8 rawBytes with
  | none => false
  | some rawLine => stripComment rawLine ≠ [] &&
      ((ipNetFromStr (stripComment rawLine)).isSome || (IpAddr.fromStr (stripComment rawLine)).isSome)

def acceptedIn : FileContent → Nat
  | .bytes content => (bufLines content).countP (acceptsLine ipNetFromStr)
  | .missing | .unreadable => 0

def acceptedLines (files : List RuleFile) : Nat := (files.map fun file => acceptedIn ipNetFromStr file.content).sum

end Accepted

section Assigned

structure HandsOut (before after : LoadState) (count : Nat) : Prop where
  next : after.nextRuleId = before.nextRuleId + BitVec.ofNat 32 count
  ids : ∀ id, id ∈ after.staticMeta ↔
    id ∈ before.staticMeta ∨ ∃ offset < count, id = before.nextRuleId + BitVec.ofNat 32 offset

theorem HandsOut.none {before after : LoadState} (next : after.nextRuleId = before.nextRuleId)
    (ids : after.staticMeta = before.staticMeta) : HandsOut before after 0 :=
  ⟨by simp [next], by simp [ids]⟩

theorem HandsOut.trans {first second third : LoadState} {early late : Nat} (one : HandsOut first second early)
    (two : HandsOut second third late) : HandsOut first third (early + late) := by
  constructor
  · rw [two.next, one.next, BitVec.ofNat_add, BitVec.add_assoc]
  · intro id
    rw [two.ids, one.ids, one.next, or_assoc]
    refine or_congr_right ?_
    constructor
    · rintro (⟨offset, within, rfl⟩ | ⟨offset, within, rfl⟩)
      · exact ⟨offset, by omega, rfl⟩
      · exact ⟨early + offset, by omega, by rw [BitVec.ofNat_add, BitVec.add_assoc]⟩
    · rintro ⟨offset, within, rfl⟩
      by_cases soon : offset < early
      · exact Or.inl ⟨offset, soon, rfl⟩
      · refine Or.inr ⟨offset - early, by omega, ?_⟩
        rw [BitVec.add_assoc, ← BitVec.ofNat_add, Nat.add_sub_cancel' (by omega)]

variable {ipNetFromStr : List Char → Option IpNet}

theorem networkEntry_value (net : IpNet) (value : RuleValue) : (networkEntry net value).value = value := by
  unfold networkEntry
  cases net <;> dsimp only <;> split_ifs <;> rfl

theorem addressEntry_value (addr : IpAddr) (value : RuleValue) : (addressEntry addr value).value = value := by
  cases addr <;> rfl

theorem parseLine_value {rawLine : List Char} {ruleId : BitVec 32} {entry : ParsedEntry}
    (parsed : parseLine ipNetFromStr rawLine ruleId = .ok (some entry)) : entry.value = .drop ruleId := by
  obtain ⟨net, rfl⟩ | ⟨addr, rfl⟩ := parseLine_entry parsed
  · exact networkEntry_value net _
  · exact addressEntry_value addr _

theorem parseLine_ruleId {rawLine : List Char} {ruleId : BitVec 32} {entry : ParsedEntry}
    (parsed : parseLine ipNetFromStr rawLine ruleId = .ok (some entry)) : entry.ruleId = ruleId := by
  rw [ParsedEntry.ruleId, parseLine_value parsed]
  rfl

theorem acceptsLine_iff {rawBytes : List UInt8} {rawLine : List Char} (decoded : decodeUtf8 rawBytes = some rawLine)
    (ruleId : BitVec 32) :
    acceptsLine ipNetFromStr rawBytes = true ↔ ∃ entry, parseLine ipNetFromStr rawLine ruleId = .ok (some entry) := by
  by_cases blank : stripComment rawLine = []
  · simp [acceptsLine, decoded, parseLine, blank]
  · cases network : ipNetFromStr (stripComment rawLine) with
    | some net => simp [acceptsLine, decoded, parseLine, blank, network]
    | none =>
        cases single : IpAddr.fromStr (stripComment rawLine) with
        | some addr => simp [acceptsLine, decoded, parseLine, blank, network, single]
        | none => simp [acceptsLine, decoded, parseLine, blank, network, single]

theorem loadLine_handsOut {fileName : List Char} {state after : LoadState} {lineNumber : Nat} {rawBytes : List UInt8}
    (loaded : loadLine ipNetFromStr fileName state lineNumber rawBytes = .ok after) :
    HandsOut state after (if acceptsLine ipNetFromStr rawBytes then 1 else 0) := by
  obtain ⟨rawLine, decoded, split⟩ := loadLine_cases loaded
  have accepts := @acceptsLine_iff ipNetFromStr rawBytes rawLine decoded state.nextRuleId
  obtain ⟨parsed, rfl⟩ | ⟨error, parsed, rfl⟩ | ⟨entry, parsed, rfl⟩ := split
  · rw [if_neg (by simp [accepts, parsed])]
    exact .none rfl rfl
  · rw [if_neg (by simp [accepts, parsed])]
    exact .none rfl rfl
  · rw [if_pos (accepts.mpr ⟨entry, parsed⟩)]
    refine ⟨rfl, fun id => ?_⟩
    simp [parseLine_ruleId parsed, or_comm]

theorem loadLines_handsOut {fileName : List Char} {lineNumber : Nat} {state after : LoadState}
    {lines : List (List UInt8)} (loaded : loadLines ipNetFromStr fileName lineNumber state lines = .ok after) :
    HandsOut state after (lines.countP (acceptsLine ipNetFromStr)) := by
  induction lines generalizing lineNumber state with
  | nil =>
      obtain rfl : state = after := by simpa [loadLines] using loaded
      exact .none rfl rfl
  | cons rawBytes rest ih =>
      rw [loadLines] at loaded
      cases first : loadLine ipNetFromStr fileName state lineNumber rawBytes with
      | error error => simp [first] at loaded
      | ok next =>
          simp only [first] at loaded
          rw [List.countP_cons, Nat.add_comm]
          exact (loadLine_handsOut first).trans (ih loaded)

theorem loadFiles_handsOut {state after : LoadState} {files : List RuleFile}
    (loaded : loadFiles ipNetFromStr state files = .ok after) :
    HandsOut state after (acceptedLines ipNetFromStr files) := by
  induction files generalizing state with
  | nil =>
      obtain rfl : state = after := by simpa [loadFiles] using loaded
      exact .none rfl rfl
  | cons file rest ih =>
      rw [loadFiles] at loaded
      simp only [acceptedLines, List.map_cons, List.sum_cons]
      cases content : file.content with
      | missing =>
          rw [if_pos content] at loaded
          rw [acceptedIn, Nat.zero_add]
          exact ih loaded
      | unreadable => simp [content, loadFileInto] at loaded
      | bytes bytes =>
          cases first : loadLines ipNetFromStr file.name 1 state (bufLines bytes) with
          | error error => simp [content, loadFileInto, first] at loaded
          | ok next =>
              simp only [content, reduceCtorEq, if_false, loadFileInto, first] at loaded
              exact (loadLines_handsOut first).trans (ih loaded)

theorem mem_staticMeta {files : List RuleFile} {rules : ParsedRuleSet}
    {staticMeta : Store (BitVec 32) StaticRuleInfo}
    (loaded : loadFromPathsWithMeta ipNetFromStr files = .ok (rules, staticMeta)) (id : BitVec 32) :
    id ∈ staticMeta ↔ ∃ offset < acceptedLines ipNetFromStr files, id = staticRuleBase + BitVec.ofNat 32 offset := by
  rw [loadFromPathsWithMeta] at loaded
  cases result : loadFiles ipNetFromStr LoadState.start files with
  | error error => simp [result] at loaded
  | ok state =>
      simp only [result, Except.ok.injEq, Prod.mk.injEq] at loaded
      obtain ⟨-, rfl⟩ := loaded
      rw [(loadFiles_handsOut result).ids]
      simp [LoadState.start]

end Assigned

section Lines

structure RuleLine where
  file : List Char
  number : Nat
  text : List Char
  deriving DecidableEq

def numberedLines (fileName : List Char) : Nat → List (List UInt8) → List RuleLine
  | _, [] => []
  | number, line :: rest => ⟨fileName, number, (decodeUtf8 line).getD []⟩ :: numberedLines fileName (number + 1) rest

def RuleFile.lines (file : RuleFile) : List RuleLine :=
  match file.content with
  | .bytes content => numberedLines file.name 1 (bufLines content)
  | .missing | .unreadable => []

def ruleLines (files : List RuleFile) : List RuleLine := files.flatMap RuleFile.lines

variable (ipNetFromStr : List Char → Option IpNet)

def lineKey (text : List Char) : Option ((kind : MapKind) × kind.Key) :=
  match parseLine ipNetFromStr text 0 with
  | .ok (some entry) => some entry.key
  | _ => none

def acceptedRules (lines : List RuleLine) : List RuleLine :=
  lines.filter fun line => (lineKey ipNetFromStr line.text).isSome

variable {ipNetFromStr}

theorem networkEntry_key (net : IpNet) (value other : RuleValue) :
    (networkEntry net value).key = (networkEntry net other).key := by
  unfold networkEntry
  cases net <;> dsimp only <;> split_ifs <;> rfl

theorem addressEntry_key (addr : IpAddr) (value other : RuleValue) :
    (addressEntry addr value).key = (addressEntry addr other).key := by
  cases addr <;> rfl

theorem lineKey_eq (text : List Char) (ruleId : BitVec 32) :
    lineKey ipNetFromStr text = match parseLine ipNetFromStr text ruleId with
      | .ok (some entry) => some entry.key
      | _ => none := by
  unfold lineKey parseLine
  dsimp only
  split_ifs with blank
  · rfl
  · cases ipNetFromStr (stripComment text) with
    | some net => exact congrArg some (networkEntry_key net _ _)
    | none =>
        cases IpAddr.fromStr (stripComment text) with
        | some addr => exact congrArg some (addressEntry_key addr _ _)
        | none => rfl

theorem parseLine_blank {text : List Char} {ruleId : BitVec 32} :
    parseLine ipNetFromStr text ruleId = .ok none ↔ stripComment text = [] := by
  unfold parseLine
  dsimp only
  split_ifs with blank
  · simp [blank]
  · cases ipNetFromStr (stripComment text) with
    | some net => simp [blank]
    | none => cases IpAddr.fromStr (stripComment text) <;> simp [blank]

theorem acceptsLine_eq (rawBytes : List UInt8) :
    acceptsLine ipNetFromStr rawBytes = (lineKey ipNetFromStr ((decodeUtf8 rawBytes).getD [])).isSome := by
  cases decoded : decodeUtf8 rawBytes with
  | none =>
      rw [acceptsLine, decoded, Option.getD_none, lineKey, parseLine_blank.mpr (by decide)]
      rfl
  | some rawLine =>
      rw [Bool.eq_iff_iff, acceptsLine_iff decoded 0, Option.getD_some, lineKey]
      cases parseLine ipNetFromStr rawLine 0 with
      | error error => simp
      | ok result => cases result <;> simp

theorem acceptedRules_append (first second : List RuleLine) :
    acceptedRules ipNetFromStr (first ++ second) = acceptedRules ipNetFromStr first ++ acceptedRules ipNetFromStr second :=
  List.filter_append ..

theorem acceptedRules_numbered (fileName : List Char) (number : Nat) (lines : List (List UInt8)) :
    (acceptedRules ipNetFromStr (numberedLines fileName number lines)).length =
      lines.countP (acceptsLine ipNetFromStr) := by
  induction lines generalizing number with
  | nil => rfl
  | cons line rest ih =>
      rw [List.countP_cons, ← ih (number + 1), acceptsLine_eq, numberedLines, acceptedRules, List.filter_cons]
      split_ifs <;> rfl

theorem acceptedRules_length (files : List RuleFile) :
    (acceptedRules ipNetFromStr (ruleLines files)).length = acceptedLines ipNetFromStr files := by
  induction files with
  | nil => rfl
  | cons file rest ih =>
      rw [acceptedLines, List.map_cons, List.sum_cons, ← acceptedLines, ← ih, ruleLines, List.flatMap_cons,
        acceptedRules_append, List.length_append, RuleFile.lines]
      cases file.content with
      | bytes content => rw [acceptedRules_numbered]; rfl
      | missing => rfl
      | unreadable => rfl

end Lines

section Reading

variable {ipNetFromStr : List Char → Option IpNet} {invariant : List RuleLine → LoadState → Prop}
  (step : ∀ {lines state fileName number rawBytes after}, invariant lines state →
    loadLine ipNetFromStr fileName state number rawBytes = .ok after →
      invariant (lines ++ [⟨fileName, number, (decodeUtf8 rawBytes).getD []⟩]) after)

include step

theorem loadLines_invariant {fileName : List Char} {number : Nat} {lines : List RuleLine} {rest : List (List UInt8)}
    {state after : LoadState} (holds : invariant lines state)
    (loaded : loadLines ipNetFromStr fileName number state rest = .ok after) :
    invariant (lines ++ numberedLines fileName number rest) after := by
  induction rest generalizing lines number state with
  | nil =>
      cases loaded
      rwa [numberedLines, List.append_nil]
  | cons rawBytes rest ih =>
      rw [loadLines] at loaded
      cases first : loadLine ipNetFromStr fileName state number rawBytes with
      | error error => simp [first] at loaded
      | ok next =>
          simp only [first] at loaded
          have further := ih (step holds first) loaded
          rwa [List.append_assoc, List.singleton_append] at further

theorem loadFiles_invariant {files : List RuleFile} {lines : List RuleLine} {state after : LoadState}
    (holds : invariant lines state) (loaded : loadFiles ipNetFromStr state files = .ok after) :
    invariant (lines ++ ruleLines files) after := by
  induction files generalizing lines state with
  | nil =>
      cases loaded
      rwa [ruleLines, List.flatMap_nil, List.append_nil]
  | cons file rest ih =>
      rw [loadFiles] at loaded
      rw [ruleLines, List.flatMap_cons, ← List.append_assoc, ← ruleLines]
      cases content : file.content with
      | missing =>
          rw [if_pos content] at loaded
          rw [RuleFile.lines, content, List.append_nil]
          exact ih holds loaded
      | unreadable => simp [content, loadFileInto] at loaded
      | bytes bytes =>
          cases first : loadLines ipNetFromStr file.name 1 state (bufLines bytes) with
          | error error => simp [content, loadFileInto, first] at loaded
          | ok next =>
              simp only [content, reduceCtorEq, if_false, loadFileInto, first] at loaded
              have read := loadLines_invariant step holds first
              rw [RuleFile.lines, content]
              exact ih read loaded

end Reading

section Recorded

theorem addEntry_total (rules : ParsedRuleSet) (entry : ParsedEntry) :
    (addEntry rules entry).count + (addEntry rules entry).skippedRules = rules.count + rules.skippedRules + 1 := by
  cases entry with
  | exactV4 addr value =>
      simp only [addEntry, ParsedRuleSet.count, length_insert]
      split_ifs <;> omega
  | exactV6 addr value =>
      simp only [addEntry, ParsedRuleSet.count, length_insert]
      split_ifs <;> omega
  | lpmV4 prefixLen addr value =>
      simp only [addEntry, ParsedRuleSet.count, List.length_append, List.length_singleton]
      omega
  | lpmV6 prefixLen addr value =>
      simp only [addEntry, ParsedRuleSet.count, List.length_append, List.length_singleton]
      omega

theorem staticId_toNat (offset : Nat) :
    (staticRuleBase + BitVec.ofNat 32 offset).toNat = (2 ^ 28 + offset) % 2 ^ 32 := by
  simp [staticRuleBase]

def staticId (index : Nat) : BitVec 32 := staticRuleBase + BitVec.ofNat 32 index

variable (ipNetFromStr : List Char → Option IpNet)

def GivenBy (accepted : List RuleLine) (kind : MapKind) (key : kind.Key) (value : RuleValue) : Prop :=
  ∃ index line, accepted[index]? = some line ∧ lineKey ipNetFromStr line.text = some ⟨kind, key⟩ ∧
    value = .drop (staticId index) ∧
    (kind.isExact = true → ∀ later other, index < later → accepted[later]? = some other →
      lineKey ipNetFromStr other.text ≠ some ⟨kind, key⟩)

variable {ipNetFromStr}

theorem givenBy_concat (accepted : List RuleLine) (line : RuleLine) (kind : MapKind) (key : kind.Key) (value : RuleValue) :
    GivenBy ipNetFromStr (accepted ++ [line]) kind key value ↔
      GivenBy ipNetFromStr accepted kind key value ∧
          (kind.isExact = true → lineKey ipNetFromStr line.text ≠ some ⟨kind, key⟩) ∨
        lineKey ipNetFromStr line.text = some ⟨kind, key⟩ ∧ value = .drop (staticId accepted.length) := by
  constructor
  · rintro ⟨index, own, here, parses, given, last⟩
    rcases getElem?_concat_iff.mp here with before | ⟨rfl, rfl⟩
    · have inside := (List.getElem?_eq_some_iff.mp before).1
      refine Or.inl ⟨⟨index, own, before, parses, given, fun exact later other after there => ?_⟩, fun exact => ?_⟩
      · exact last exact later other after (getElem?_concat_iff.mpr (Or.inl there))
      · exact last exact accepted.length line inside (getElem?_concat_iff.mpr (Or.inr ⟨rfl, rfl⟩))
    · exact Or.inr ⟨parses, given⟩
  · rintro (⟨⟨index, own, here, parses, given, last⟩, different⟩ | ⟨parses, given⟩)
    · refine ⟨index, own, getElem?_concat_iff.mpr (Or.inl here), parses, given, ?_⟩
      intro exact later other after there
      rcases getElem?_concat_iff.mp there with before | ⟨_, rfl⟩
      · exact last exact later other after before
      · exact different exact
    · refine ⟨accepted.length, line, getElem?_concat_iff.mpr (Or.inr ⟨rfl, rfl⟩), parses, given, ?_⟩
      intro _ later other after there
      have within := (List.getElem?_eq_some_iff.mp there).1
      rw [List.length_append, List.length_singleton] at within
      omega

variable (ipNetFromStr)

structure Records (lines : List RuleLine) (state : LoadState) : Prop where
  next : state.nextRuleId = staticId (acceptedRules ipNetFromStr lines).length
  info : (acceptedRules ipNetFromStr lines).length ≤ 2 ^ 32 → ∀ index line,
    (acceptedRules ipNetFromStr lines)[index]? = some line →
      state.staticMeta.lookup (staticId index) = some ⟨staticId index, line.file, BitVec.ofNat 32 line.number⟩
  assigns : ∀ kind key value, state.rules.Assigns kind key value ↔
    GivenBy ipNetFromStr (acceptedRules ipNetFromStr lines) kind key value
  total : state.rules.count + state.rules.skippedRules = lines.countP fun line => stripComment line.text ≠ []

variable {ipNetFromStr} {lines : List RuleLine} {state after : LoadState}

theorem start_records : Records ipNetFromStr [] .start where
  next := (BitVec.add_zero staticRuleBase).symm
  info _ index line here := absurd here (by simp [acceptedRules])
  assigns kind key value := by
    cases kind <;> simp [LoadState.start, ParsedRuleSet.new, ParsedRuleSet.Assigns, GivenBy, acceptedRules]
  total := rfl

theorem acceptedRules_concat_none {line : RuleLine} (rejected : lineKey ipNetFromStr line.text = none) :
    acceptedRules ipNetFromStr (lines ++ [line]) = acceptedRules ipNetFromStr lines := by
  simp [acceptedRules, rejected]

theorem acceptedRules_concat_some {line : RuleLine} {place : (kind : MapKind) × kind.Key}
    (parses : lineKey ipNetFromStr line.text = some place) :
    acceptedRules ipNetFromStr (lines ++ [line]) = acceptedRules ipNetFromStr lines ++ [line] := by
  simp [acceptedRules, parses]

theorem Records.accept (records : Records ipNetFromStr lines state) {line : RuleLine} {entry : ParsedEntry}
    (parsed : parseLine ipNetFromStr line.text state.nextRuleId = .ok (some entry)) :
    Records ipNetFromStr (lines ++ [line])
      { rules := addEntry state.rules entry
        staticMeta := state.staticMeta.insert entry.ruleId
          { ruleId := entry.ruleId, file := line.file, line := BitVec.ofNat 32 line.number }
        nextRuleId := state.nextRuleId + 1 } := by
  have key : lineKey ipNetFromStr line.text = some entry.key := by rw [lineKey_eq _ state.nextRuleId, parsed]
  have written : stripComment line.text ≠ [] := by
    rw [ne_eq, ← @parseLine_blank ipNetFromStr line.text state.nextRuleId, parsed]
    simp
  have accepted := @acceptedRules_concat_some ipNetFromStr lines line _ key
  constructor
  case next =>
    dsimp only
    rw [accepted, List.length_append, List.length_singleton, records.next, staticId, staticId, BitVec.ofNat_add,
      ← BitVec.add_assoc]
    rfl
  case info =>
    intro small index other here
    rw [accepted] at small here
    rw [List.length_append, List.length_singleton] at small
    rw [parseLine_ruleId parsed, records.next]
    rcases getElem?_concat_iff.mp here with before | ⟨rfl, rfl⟩
    · have earlier := (List.getElem?_eq_some_iff.mp before).1
      have different : staticId index ≠ staticId (acceptedRules ipNetFromStr lines).length := by
        intro same
        exact absurd (BigEndian.offset_inj (by omega) (by omega) same) earlier.ne
      rw [AList.lookup_insert_ne different]
      exact records.info (by omega) index other before
    · exact AList.lookup_insert _
  case assigns =>
    intro kind other value
    rw [accepted, givenBy_concat, ← records.assigns, addEntry_assigns_iff, parseLine_value parsed, ← records.next, key]
    simp only [ne_eq, Option.some.injEq]
  case total =>
    rw [addEntry_total, records.total, List.countP_append, List.countP_singleton, if_pos (by simpa using written)]

theorem Records.reject (records : Records ipNetFromStr lines state) {line : RuleLine}
    (rejected : lineKey ipNetFromStr line.text = none) (next : after.nextRuleId = state.nextRuleId)
    (known : after.staticMeta = state.staticMeta)
    (assigns : ∀ kind key value, after.rules.Assigns kind key value ↔ state.rules.Assigns kind key value)
    (total : after.rules.count + after.rules.skippedRules =
      state.rules.count + state.rules.skippedRules + if stripComment line.text ≠ [] then 1 else 0) :
    Records ipNetFromStr (lines ++ [line]) after := by
  have accepted := @acceptedRules_concat_none ipNetFromStr lines line rejected
  constructor
  case next => rw [accepted, next, records.next]
  case info =>
    rw [accepted, known]
    exact records.info
  case assigns =>
    intro kind key value
    rw [accepted, assigns, records.assigns]
  case total =>
    rw [total, records.total, List.countP_append, List.countP_singleton]
    simp only [decide_eq_true_eq]

theorem Records.readLine (records : Records ipNetFromStr lines state) {fileName : List Char} {number : Nat}
    {rawBytes : List UInt8} (loaded : loadLine ipNetFromStr fileName state number rawBytes = .ok after) :
    Records ipNetFromStr (lines ++ [⟨fileName, number, (decodeUtf8 rawBytes).getD []⟩]) after := by
  obtain ⟨rawLine, decoded, split⟩ := loadLine_cases loaded
  have key := @lineKey_eq ipNetFromStr rawLine state.nextRuleId
  have blank := @parseLine_blank ipNetFromStr rawLine state.nextRuleId
  rw [decoded, Option.getD_some]
  obtain ⟨parsed, rfl⟩ | ⟨error, parsed, rfl⟩ | ⟨entry, parsed, rfl⟩ := split
  · rw [parsed] at key
    exact records.reject key rfl rfl (fun _ _ _ => Iff.rfl) (by simp [blank.mp parsed])
  · rw [parsed] at key blank
    have written : stripComment rawLine ≠ [] := mt blank.mpr (by simp)
    refine records.reject key rfl rfl (fun kind _ _ => ?_) (by rw [if_pos written]; rfl)
    cases kind <;> rfl
  · exact @Records.accept ipNetFromStr lines state records ⟨fileName, number, rawLine⟩ entry parsed

theorem Records.readFiles {files : List RuleFile} (records : Records ipNetFromStr lines state)
    (loaded : loadFiles ipNetFromStr state files = .ok after) :
    Records ipNetFromStr (lines ++ ruleLines files) after :=
  loadFiles_invariant (fun records read => records.readLine read) records loaded

end Recorded

section Results

def RuleFile.Readable (file : RuleFile) : Prop :=
  ∃ content, file.content = .bytes content ∧ ∀ line ∈ bufLines content, (decodeUtf8 line).isSome = true

variable {ipNetFromStr : List Char → Option IpNet}

theorem loadLines_ok {fileName : List Char} {lines : List (List UInt8)}
    (texts : ∀ line ∈ lines, (decodeUtf8 line).isSome = true) (number : Nat) (state : LoadState) :
    ∃ after, loadLines ipNetFromStr fileName number state lines = .ok after := by
  induction lines generalizing number state with
  | nil => exact ⟨state, rfl⟩
  | cons rawBytes rest ih =>
      obtain ⟨rawLine, decoded⟩ := Option.isSome_iff_exists.mp (texts rawBytes List.mem_cons_self)
      obtain ⟨next, first⟩ : ∃ next, loadLine ipNetFromStr fileName state number rawBytes = .ok next := by
        rw [loadLine, decoded]
        dsimp only
        split <;> exact ⟨_, rfl⟩
      obtain ⟨after, loaded⟩ := ih (fun line member => texts line (List.mem_cons_of_mem _ member)) (number + 1) next
      exact ⟨after, by rw [loadLines, first]; exact loaded⟩

theorem loadFiles_ok {files : List RuleFile} (readable : ∀ file ∈ files, file.Readable) (state : LoadState) :
    ∃ after, loadFiles ipNetFromStr state files = .ok after := by
  induction files generalizing state with
  | nil => exact ⟨state, rfl⟩
  | cons file rest ih =>
      obtain ⟨content, bytes, texts⟩ := readable file List.mem_cons_self
      obtain ⟨next, first⟩ := @loadLines_ok ipNetFromStr file.name _ texts 1 state
      obtain ⟨after, loaded⟩ := ih (fun other member => readable other (List.mem_cons_of_mem _ member)) next
      refine ⟨after, ?_⟩
      simp only [loadFiles, loadFileInto, bytes, reduceCtorEq, if_false, first]
      exact loaded

theorem numberedLines_number {fileName : List Char} {number : Nat} {lines : List (List UInt8)} {line : RuleLine}
    (member : line ∈ numberedLines fileName number lines) :
    line.number < number + (numberedLines fileName number lines).length := by
  induction lines generalizing number with
  | nil => exact absurd member List.not_mem_nil
  | cons rawBytes rest ih =>
      rw [numberedLines, List.length_cons]
      rcases List.mem_cons.mp member with rfl | later
      · dsimp only
        omega
      · have below := ih later
        omega

theorem ruleLines_number {files : List RuleFile} (short : ∀ file ∈ files, file.lines.length < 2 ^ 32) {line : RuleLine}
    (member : line ∈ ruleLines files) : line.number < 2 ^ 32 := by
  obtain ⟨file, listed, inside⟩ := List.mem_flatMap.mp member
  have few := short file listed
  unfold RuleFile.lines at few inside
  cases content : file.content with
  | bytes bytes =>
      rw [content] at few inside
      dsimp only at few inside
      have below := numberedLines_number inside
      omega
  | missing =>
      rw [content] at inside
      exact absurd inside List.not_mem_nil
  | unreadable =>
      rw [content] at inside
      exact absurd inside List.not_mem_nil

theorem static_load_provenance {files : List RuleFile} (readable : ∀ file ∈ files, file.Readable)
    (few : acceptedLines ipNetFromStr files < 2 ^ 32 - 2 ^ 28) (short : ∀ file ∈ files, file.lines.length < 2 ^ 32) :
    ∃ rules staticMeta, loadFromPathsWithMeta ipNetFromStr files = .ok (rules, staticMeta) ∧
      (∀ index line, (acceptedRules ipNetFromStr (ruleLines files))[index]? = some line →
        (staticId index).toNat = 2 ^ 28 + index ∧
        ∃ info, staticMeta.lookup (staticId index) = some info ∧ info.ruleId = staticId index ∧
          info.file = line.file ∧ info.line.toNat = line.number) ∧
      (∀ id ∈ staticMeta, ∃ index < acceptedLines ipNetFromStr files, id = staticId index) ∧
      (∀ kind key value, rules.Assigns kind key value ↔
        GivenBy ipNetFromStr (acceptedRules ipNetFromStr (ruleLines files)) kind key value) ∧
      rules.totalRules + rules.skippedRules = (ruleLines files).countP fun line => stripComment line.text ≠ [] := by
  obtain ⟨state, read⟩ := @loadFiles_ok ipNetFromStr files readable .start
  have loaded : loadFromPathsWithMeta ipNetFromStr files =
      .ok ({ state.rules with totalRules := state.rules.count }, state.staticMeta) := by rw [loadFromPathsWithMeta, read]
  have records := start_records.readFiles read
  rw [List.nil_append] at records
  refine ⟨_, _, loaded, fun index line here => ?_, fun id member => (mem_staticMeta loaded id).mp member,
    fun kind key value => ?_, records.total⟩
  · obtain ⟨inside, _⟩ := List.getElem?_eq_some_iff.mp here
    rw [acceptedRules_length] at inside
    refine ⟨?_, _, records.info (by rw [acceptedRules_length]; omega) index line here, rfl, rfl, ?_⟩
    · rw [staticId, staticId_toNat, Nat.mod_eq_of_lt (by omega)]
    · have member := List.mem_of_mem_filter (List.mem_of_getElem? here)
      rw [BitVec.toNat_ofNat, Nat.mod_eq_of_lt (ruleLines_number short member)]
  · rw [← records.assigns]
    cases kind <;> rfl

def twoRuleFiles : List RuleFile :=
  [⟨"first.txt".toList, .bytes ("192.0.2.1\n".toList.map fun char => UInt8.ofNat char.toNat)⟩,
    ⟨"second.txt".toList, .bytes ("# again\nhost\n192.0.2.1\n".toList.map fun char => UInt8.ofNat char.toNat)⟩]

theorem twoRuleFiles_provenance :
    ∃ rules staticMeta, loadFromPathsWithMeta IpnetGrammar.documented.ipNet twoRuleFiles = .ok (rules, staticMeta) ∧
      (∃ info, staticMeta.lookup (staticId 1) = some info ∧ info.file = "second.txt".toList ∧ info.line.toNat = 3) ∧
      rules.Assigns .ipv4Exact (ipv4Octets 192 0 2 1) (.drop (staticId 1)) ∧
      rules.totalRules + rules.skippedRules = 3 := by
  have accepted : acceptedRules IpnetGrammar.documented.ipNet (ruleLines twoRuleFiles) =
      [⟨"first.txt".toList, 1, "192.0.2.1".toList⟩, ⟨"second.txt".toList, 3, "192.0.2.1".toList⟩] := by decide +kernel
  have readable : ∀ file ∈ twoRuleFiles, file.Readable := by
    intro file member
    rcases List.mem_pair.mp member with rfl | rfl
    · exact ⟨_, rfl, by decide +kernel⟩
    · exact ⟨_, rfl, by decide +kernel⟩
  obtain ⟨rules, staticMeta, loaded, recorded, _, assigns, total⟩ := static_load_provenance readable
    (show acceptedLines IpnetGrammar.documented.ipNet twoRuleFiles < 2 ^ 32 - 2 ^ 28 by decide +kernel) (by decide +kernel)
  rw [accepted] at recorded assigns
  obtain ⟨_, info, found, _, file, number⟩ := recorded 1 _ rfl
  refine ⟨rules, staticMeta, loaded, ⟨info, found, file, number⟩, (assigns _ _ _).mpr ?_, total.trans (by decide +kernel)⟩
  refine ⟨1, _, rfl, by decide +kernel, rfl, ?_⟩
  intro _ later other after there
  obtain ⟨inside, _⟩ := List.getElem?_eq_some_iff.mp there
  exact absurd inside (Nat.not_lt.mpr after)

end Results

end ReputationFirewall.Rules
