import ReputationFirewall.Rules.RuleSet
import ReputationFirewall.Shared.NetAddr

set_option autoImplicit false

namespace ReputationFirewall.Rules

open BigEndian KeyedStore NetAddr Text

structure StaticRuleInfo where
  ruleId : BitVec 32
  file : List Char
  line : BitVec 32
  deriving DecidableEq

inductive ParsedEntry where
  | exactV4 (addr : Octets 4) (value : RuleValue)
  | exactV6 (addr : Octets 16) (value : RuleValue)
  | lpmV4 (prefixLen : Nat) (addr : Octets 4) (value : RuleValue)
  | lpmV6 (prefixLen : Nat) (addr : Octets 16) (value : RuleValue)
  deriving DecidableEq

def ParsedEntry.value : ParsedEntry → RuleValue
  | .exactV4 _ value | .exactV6 _ value | .lpmV4 _ _ value | .lpmV6 _ _ value => value

def ParsedEntry.key : ParsedEntry → (kind : MapKind) × kind.Key
  | .exactV4 addr _ => ⟨.ipv4Exact, addr⟩
  | .exactV6 addr _ => ⟨.ipv6Exact, addr⟩
  | .lpmV4 prefixLen addr _ => ⟨.ipv4Lpm, (prefixLen, addr)⟩
  | .lpmV6 prefixLen addr _ => ⟨.ipv6Lpm, (prefixLen, addr)⟩

def ParsedEntry.ruleId (entry : ParsedEntry) : BitVec 32 := entry.value.ruleId

def stripComment (rawLine : List Char) : List Char := trim (rawLine.takeWhile (· ≠ '#'))

def networkEntry (net : IpNet) (value : RuleValue) : ParsedEntry :=
  match net with
  | .v4 net =>
      if net.prefixLen = 32 then .exactV4 net.network value
      else .lpmV4 net.prefixLen net.network value
  | .v6 net =>
      if net.prefixLen = 128 then .exactV6 net.network value
      else .lpmV6 net.prefixLen net.network value

def addressEntry (addr : IpAddr) (value : RuleValue) : ParsedEntry :=
  match addr with
  | .v4 octets => .exactV4 octets value
  | .v6 octets => .exactV6 octets value

inductive FileContent where
  | missing
  | unreadable
  | bytes (content : List UInt8)
  deriving DecidableEq

structure RuleFile where
  name : List Char
  content : FileContent
  deriving DecidableEq

structure LoadState where
  rules : ParsedRuleSet
  staticMeta : Store (BitVec 32) StaticRuleInfo
  nextRuleId : BitVec 32

def LoadState.start : LoadState := ⟨.new, ∅, staticRuleBase⟩

-- A second line for the same address replaces the value and counts as skipped.
def addEntry (rules : ParsedRuleSet) : ParsedEntry → ParsedRuleSet
  | .exactV4 addr value =>
      { rules with
        exactV4 := rules.exactV4.insert addr value
        skippedRules := if (rules.exactV4.lookup addr).isSome then rules.skippedRules + 1
          else rules.skippedRules }
  | .exactV6 addr value =>
      { rules with
        exactV6 := rules.exactV6.insert addr value
        skippedRules := if (rules.exactV6.lookup addr).isSome then rules.skippedRules + 1
          else rules.skippedRules }
  | .lpmV4 prefixLen addr value => { rules with lpmV4 := rules.lpmV4 ++ [(prefixLen, addr, value)] }
  | .lpmV6 prefixLen addr value => { rules with lpmV6 := rules.lpmV6 ++ [(prefixLen, addr, value)] }

section Loading

-- The CIDR grammar of the `ipnet` crate.
variable (ipNetFromStr : List Char → Option IpNet)

def parseLine (rawLine : List Char) (ruleId : BitVec 32) : Except FirewallError (Option ParsedEntry) :=
  let line := stripComment rawLine
  if line = [] then .ok none
  else
    let value := RuleValue.drop ruleId
    match ipNetFromStr line with
    | some net => .ok (some (networkEntry net value))
    | none =>
        match IpAddr.fromStr line with
        | some addr => .ok (some (addressEntry addr value))
        | none => .error (.parseError 0
            ("Unrecognized IP address or CIDR notation: '".toList ++ line ++ "'".toList))

-- An invalid rule is skipped; only a line that is no UTF-8 fails the whole load.
def loadLine (fileName : List Char) (state : LoadState) (lineNumber : Nat) (rawBytes : List UInt8) :
    Except FirewallError LoadState :=
  match decodeUtf8 rawBytes with
  | none => .error .io
  | some rawLine =>
      match parseLine ipNetFromStr rawLine state.nextRuleId with
      | .ok (some entry) =>
          .ok { rules := addEntry state.rules entry
                staticMeta := state.staticMeta.insert entry.ruleId
                  { ruleId := entry.ruleId, file := fileName, line := BitVec.ofNat 32 lineNumber }
                nextRuleId := state.nextRuleId + 1 }
      | .ok none => .ok state
      | .error _ => .ok { state with
          rules := { state.rules with skippedRules := state.rules.skippedRules + 1 } }

def loadLines (fileName : List Char) : Nat → LoadState → List (List UInt8) → Except FirewallError LoadState
  | _, state, [] => .ok state
  | lineNumber, state, line :: rest =>
      match loadLine ipNetFromStr fileName state lineNumber line with
      | .ok state => loadLines fileName (lineNumber + 1) state rest
      | .error error => .error error

def loadFileInto (file : RuleFile) (state : LoadState) : Except FirewallError LoadState :=
  match file.content with
  | .missing | .unreadable => .error .io
  | .bytes content => loadLines ipNetFromStr file.name 1 state (bufLines content)

def loadFiles : LoadState → List RuleFile → Except FirewallError LoadState
  | state, [] => .ok state
  | state, file :: rest =>
      -- A path that does not exist is passed over with a warning.
      if file.content = .missing then loadFiles state rest
      else match loadFileInto ipNetFromStr file state with
        | .ok state => loadFiles state rest
        | .error error => .error error

def loadFromPathsWithMeta (files : List RuleFile) :
    Except FirewallError (ParsedRuleSet × Store (BitVec 32) StaticRuleInfo) :=
  match loadFiles ipNetFromStr LoadState.start files with
  | .ok state => .ok ({ state.rules with totalRules := state.rules.count }, state.staticMeta)
  | .error error => .error error

def loadFromPaths (files : List RuleFile) : Except FirewallError ParsedRuleSet :=
  (loadFromPathsWithMeta ipNetFromStr files).map Prod.fst

end Loading

section Coverage

def ParsedEntry.Covers : ParsedEntry → IpAddr → Prop
  | .exactV4 addr _, .v4 ip => ip = addr
  | .exactV6 addr _, .v6 ip => ip = addr
  | .lpmV4 prefixLen addr _, .v4 ip => SamePrefix prefixLen addr ip
  | .lpmV6 prefixLen addr _, .v6 ip => SamePrefix prefixLen addr ip
  | _, _ => False

def RulesCover (rules : ParsedRuleSet) : IpAddr → Prop
  | .v4 ip => ip ∈ rules.exactV4 ∨ ∃ entry ∈ rules.lpmV4, SamePrefix entry.1 entry.2.1 ip
  | .v6 ip => ip ∈ rules.exactV6 ∨ ∃ entry ∈ rules.lpmV6, SamePrefix entry.1 entry.2.1 ip

def LineCovers (ipNetFromStr : List Char → Option IpNet) (rawLine : List Char) (ip : IpAddr) : Prop :=
  stripComment rawLine ≠ [] ∧
    match ipNetFromStr (stripComment rawLine) with
    | some net => net.Covers ip
    | none => IpAddr.fromStr (stripComment rawLine) = some ip

theorem networkEntry_covers (net : IpNet) (value : RuleValue) (ip : IpAddr) :
    (networkEntry net value).Covers ip ↔ net.Covers ip := by
  cases net with
  | v4 net =>
      by_cases full : net.prefixLen = 32
      · have exact (addr : Octets 4) : addr = net.network ↔ SamePrefix net.prefixLen net.addr addr := by
          rw [samePrefix_full (by omega), Net.network, networkOf_full (by omega), eq_comm]
        cases ip <;> simp [networkEntry, full, ParsedEntry.Covers, IpNet.Covers, exact]
      · cases ip <;> simp [networkEntry, full, ParsedEntry.Covers, IpNet.Covers, Net.network,
          samePrefix_networkOf]
  | v6 net =>
      by_cases full : net.prefixLen = 128
      · have exact (addr : Octets 16) : addr = net.network ↔ SamePrefix net.prefixLen net.addr addr := by
          rw [samePrefix_full (by omega), Net.network, networkOf_full (by omega), eq_comm]
        cases ip <;> simp [networkEntry, full, ParsedEntry.Covers, IpNet.Covers, exact]
      · cases ip <;> simp [networkEntry, full, ParsedEntry.Covers, IpNet.Covers, Net.network,
          samePrefix_networkOf]

theorem addressEntry_covers (addr : IpAddr) (value : RuleValue) (ip : IpAddr) :
    (addressEntry addr value).Covers ip ↔ addr = ip := by
  cases addr <;> cases ip <;> simp [addressEntry, ParsedEntry.Covers, eq_comm]

theorem parseLine_covers (ipNetFromStr : List Char → Option IpNet) (rawLine : List Char)
    (ruleId : BitVec 32) (ip : IpAddr) :
    LineCovers ipNetFromStr rawLine ip ↔
      ∃ entry, parseLine ipNetFromStr rawLine ruleId = .ok (some entry) ∧ entry.Covers ip := by
  by_cases blank : stripComment rawLine = []
  · simp [LineCovers, parseLine, blank]
  · cases network : ipNetFromStr (stripComment rawLine) with
    | some net => simp [LineCovers, parseLine, blank, network, networkEntry_covers]
    | none =>
        cases single : IpAddr.fromStr (stripComment rawLine) with
        | some addr => simp [LineCovers, parseLine, blank, network, single, addressEntry_covers]
        | none => simp [LineCovers, parseLine, blank, network, single]

theorem addEntry_covers (rules : ParsedRuleSet) (entry : ParsedEntry) (ip : IpAddr) :
    RulesCover (addEntry rules entry) ip ↔ RulesCover rules ip ∨ entry.Covers ip := by
  cases entry <;> cases ip <;>
    simp only [addEntry, RulesCover, ParsedEntry.Covers, AList.mem_insert, List.mem_append,
      List.mem_singleton, or_and_right, exists_or, exists_eq_left, or_false]
  all_goals grind

structure WellFormed (rules : ParsedRuleSet) : Prop where
  drops : ∀ kind key value, rules.Assigns kind key value → value.action = actionDrop
  boundedV4 : ∀ entry ∈ rules.lpmV4, entry.1 ≤ 8 * 4
  boundedV6 : ∀ entry ∈ rules.lpmV6, entry.1 ≤ 8 * 16

def ParsedEntry.WellFormed : ParsedEntry → Prop
  | .exactV4 _ value | .exactV6 _ value => value.action = actionDrop
  | .lpmV4 prefixLen _ value => value.action = actionDrop ∧ prefixLen ≤ 8 * 4
  | .lpmV6 prefixLen _ value => value.action = actionDrop ∧ prefixLen ≤ 8 * 16

theorem parseLine_entry {ipNetFromStr : List Char → Option IpNet} {rawLine : List Char}
    {ruleId : BitVec 32} {entry : ParsedEntry}
    (parsed : parseLine ipNetFromStr rawLine ruleId = .ok (some entry)) :
    (∃ net, entry = networkEntry net (.drop ruleId)) ∨ ∃ addr, entry = addressEntry addr (.drop ruleId) := by
  simp only [parseLine] at parsed
  split_ifs at parsed with blank
  · simp at parsed
  · cases network : ipNetFromStr (stripComment rawLine) with
    | some net =>
        simp only [network, Except.ok.injEq, Option.some.injEq] at parsed
        exact Or.inl ⟨net, parsed.symm⟩
    | none =>
        cases single : IpAddr.fromStr (stripComment rawLine) with
        | none => simp [network, single] at parsed
        | some addr =>
            simp only [network, single, Except.ok.injEq, Option.some.injEq] at parsed
            exact Or.inr ⟨addr, parsed.symm⟩

theorem parseLine_wellFormed {ipNetFromStr : List Char → Option IpNet} {rawLine : List Char}
    {ruleId : BitVec 32} {entry : ParsedEntry}
    (parsed : parseLine ipNetFromStr rawLine ruleId = .ok (some entry)) : entry.WellFormed := by
  obtain ⟨net, rfl⟩ | ⟨addr, rfl⟩ := parseLine_entry parsed
  · cases net with
    | v4 net => by_cases full : net.prefixLen = 32 <;>
        simp [networkEntry, full, ParsedEntry.WellFormed, RuleValue.drop, net.bounded]
    | v6 net => by_cases full : net.prefixLen = 128 <;>
        simp [networkEntry, full, ParsedEntry.WellFormed, RuleValue.drop, net.bounded]
  · cases addr <;> rfl

theorem addEntry_assigns_iff (rules : ParsedRuleSet) (entry : ParsedEntry) (kind : MapKind) (key : kind.Key)
    (value : RuleValue) :
    (addEntry rules entry).Assigns kind key value ↔
      rules.Assigns kind key value ∧ (kind.isExact = true → entry.key ≠ ⟨kind, key⟩) ∨
        entry.key = ⟨kind, key⟩ ∧ value = entry.value := by
  cases entry with
  | exactV4 addr own =>
      cases kind with
      | ipv4Exact =>
          refine lookup_insert_iff.trans ?_
          simp [ParsedRuleSet.Assigns, MapKind.isExact, ParsedEntry.key, ParsedEntry.value]
      | ipv6Exact | ipv4Lpm | ipv6Lpm => simp [addEntry, ParsedRuleSet.Assigns, ParsedEntry.key]
  | exactV6 addr own =>
      cases kind with
      | ipv6Exact =>
          refine lookup_insert_iff.trans ?_
          simp [ParsedRuleSet.Assigns, MapKind.isExact, ParsedEntry.key, ParsedEntry.value]
      | ipv4Exact | ipv4Lpm | ipv6Lpm => simp [addEntry, ParsedRuleSet.Assigns, ParsedEntry.key]
  | lpmV4 prefixLen addr own =>
      cases kind with
      | ipv4Lpm =>
          simp [addEntry, ParsedRuleSet.Assigns, MapKind.isExact, ParsedEntry.key, ParsedEntry.value, Prod.ext_iff,
            and_assoc, eq_comm]
      | ipv4Exact | ipv6Exact | ipv6Lpm => simp [addEntry, ParsedRuleSet.Assigns, ParsedEntry.key]
  | lpmV6 prefixLen addr own =>
      cases kind with
      | ipv6Lpm =>
          simp [addEntry, ParsedRuleSet.Assigns, MapKind.isExact, ParsedEntry.key, ParsedEntry.value, Prod.ext_iff,
            and_assoc, eq_comm]
      | ipv4Exact | ipv6Exact | ipv4Lpm => simp [addEntry, ParsedRuleSet.Assigns, ParsedEntry.key]

theorem addEntry_wellFormed {rules : ParsedRuleSet} {entry : ParsedEntry}
    (wellFormed : WellFormed rules) (sound : entry.WellFormed) : WellFormed (addEntry rules entry) where
  drops := by
    intro kind key value assigns
    rcases (addEntry_assigns_iff rules entry kind key value).mp assigns with ⟨earlier, _⟩ | ⟨_, rfl⟩
    · exact wellFormed.drops kind key value earlier
    · cases entry with
      | exactV4 | exactV6 => exact sound
      | lpmV4 | lpmV6 => exact sound.1
  boundedV4 := by
    have earlier := wellFormed.boundedV4
    cases entry with
    | exactV4 | exactV6 | lpmV6 => exact earlier
    | lpmV4 => simpa [addEntry, or_imp, forall_and, sound.2] using earlier
  boundedV6 := by
    have earlier := wellFormed.boundedV6
    cases entry with
    | exactV4 | exactV6 | lpmV4 => exact earlier
    | lpmV6 => simpa [addEntry, or_imp, forall_and, sound.2] using earlier

theorem new_wellFormed : WellFormed ParsedRuleSet.new where
  drops := by
    intro kind key value assigns
    cases kind <;> simp [ParsedRuleSet.Assigns, ParsedRuleSet.new] at assigns
  boundedV4 := by simp [ParsedRuleSet.new]
  boundedV6 := by simp [ParsedRuleSet.new]

theorem new_covers (ip : IpAddr) : ¬ RulesCover ParsedRuleSet.new ip := by
  cases ip <;> simp [RulesCover, ParsedRuleSet.new]

end Coverage

section Runs

variable (ipNetFromStr : List Char → Option IpNet)

def LinesCover (lines : List (List UInt8)) (ip : IpAddr) : Prop :=
  ∃ rawBytes ∈ lines, ∃ rawLine, decodeUtf8 rawBytes = some rawLine ∧ LineCovers ipNetFromStr rawLine ip

def FilesCover (files : List RuleFile) (ip : IpAddr) : Prop :=
  ∃ file ∈ files, ∃ content, file.content = .bytes content ∧
    LinesCover ipNetFromStr (bufLines content) ip

structure Extends (before after : ParsedRuleSet) (covered : IpAddr → Prop) : Prop where
  covers : ∀ ip, RulesCover after ip ↔ RulesCover before ip ∨ covered ip
  wellFormed : WellFormed before → WellFormed after

variable {ipNetFromStr}

theorem Extends.trans {first second third : ParsedRuleSet} {early late : IpAddr → Prop}
    (one : Extends first second early) (two : Extends second third late) :
    Extends first third fun ip => early ip ∨ late ip :=
  ⟨fun ip => by rw [two.covers, one.covers, or_assoc], fun sound => two.wellFormed (one.wellFormed sound)⟩

theorem Extends.congr {before after : ParsedRuleSet} {covered other : IpAddr → Prop}
    (extended : Extends before after covered) (same : ∀ ip, covered ip ↔ other ip) :
    Extends before after other :=
  ⟨fun ip => by rw [extended.covers, same], extended.wellFormed⟩

theorem loadLine_cases {fileName : List Char} {state after : LoadState} {lineNumber : Nat} {rawBytes : List UInt8}
    (loaded : loadLine ipNetFromStr fileName state lineNumber rawBytes = .ok after) :
    ∃ rawLine, decodeUtf8 rawBytes = some rawLine ∧
      ((parseLine ipNetFromStr rawLine state.nextRuleId = .ok none ∧ after = state) ∨
        (∃ error, parseLine ipNetFromStr rawLine state.nextRuleId = .error error ∧
          after = { state with rules := { state.rules with skippedRules := state.rules.skippedRules + 1 } }) ∨
        ∃ entry, parseLine ipNetFromStr rawLine state.nextRuleId = .ok (some entry) ∧
          after =
            { rules := addEntry state.rules entry
              staticMeta := state.staticMeta.insert entry.ruleId
                { ruleId := entry.ruleId, file := fileName, line := BitVec.ofNat 32 lineNumber }
              nextRuleId := state.nextRuleId + 1 }) := by
  rw [loadLine] at loaded
  cases decoded : decodeUtf8 rawBytes with
  | none => simp [decoded] at loaded
  | some rawLine =>
      refine ⟨rawLine, rfl, ?_⟩
      cases parsed : parseLine ipNetFromStr rawLine state.nextRuleId with
      | error error =>
          simp only [decoded, parsed, Except.ok.injEq] at loaded
          exact Or.inr (Or.inl ⟨error, rfl, loaded.symm⟩)
      | ok result =>
          cases result with
          | none =>
              simp only [decoded, parsed, Except.ok.injEq] at loaded
              exact Or.inl ⟨rfl, loaded.symm⟩
          | some entry =>
              simp only [decoded, parsed, Except.ok.injEq] at loaded
              exact Or.inr (Or.inr ⟨entry, rfl, loaded.symm⟩)

theorem loadLine_extends {fileName : List Char} {state after : LoadState} {lineNumber : Nat}
    {rawBytes : List UInt8}
    (loaded : loadLine ipNetFromStr fileName state lineNumber rawBytes = .ok after) :
    Extends state.rules after.rules fun ip =>
      ∃ rawLine, decodeUtf8 rawBytes = some rawLine ∧ LineCovers ipNetFromStr rawLine ip := by
  obtain ⟨rawLine, decoded, split⟩ := loadLine_cases loaded
  have line (ip : IpAddr) := parseLine_covers ipNetFromStr rawLine state.nextRuleId ip
  obtain ⟨parsed, rfl⟩ | ⟨error, parsed, rfl⟩ | ⟨entry, parsed, rfl⟩ := split
  · exact ⟨fun ip => by simp [decoded, line, parsed], id⟩
  · refine ⟨fun ip => ?_, fun sound => ⟨sound.drops, sound.boundedV4, sound.boundedV6⟩⟩
    cases ip <;> simp [RulesCover, decoded, line, parsed]
  · refine ⟨fun ip => ?_, fun sound => addEntry_wellFormed sound (parseLine_wellFormed parsed)⟩
    simp [decoded, line, parsed, addEntry_covers]

theorem loadLines_extends {fileName : List Char} {lineNumber : Nat} {state after : LoadState}
    {lines : List (List UInt8)}
    (loaded : loadLines ipNetFromStr fileName lineNumber state lines = .ok after) :
    Extends state.rules after.rules (LinesCover ipNetFromStr lines) := by
  induction lines generalizing lineNumber state with
  | nil =>
      obtain rfl : state = after := by simpa [loadLines] using loaded
      exact ⟨fun ip => by simp [LinesCover], id⟩
  | cons rawBytes rest ih =>
      rw [loadLines] at loaded
      cases first : loadLine ipNetFromStr fileName state lineNumber rawBytes with
      | error error => simp [first] at loaded
      | ok next =>
          simp only [first] at loaded
          refine ((loadLine_extends first).trans (ih loaded)).congr fun ip => ?_
          simp [LinesCover]

theorem loadFiles_extends {state after : LoadState} {files : List RuleFile}
    (loaded : loadFiles ipNetFromStr state files = .ok after) :
    Extends state.rules after.rules (FilesCover ipNetFromStr files) := by
  induction files generalizing state with
  | nil =>
      obtain rfl : state = after := by simpa [loadFiles] using loaded
      exact ⟨fun ip => by simp [FilesCover], id⟩
  | cons file rest ih =>
      rw [loadFiles] at loaded
      cases content : file.content with
      | missing =>
          rw [if_pos content] at loaded
          exact (ih loaded).congr fun ip => by simp [FilesCover, content]
      | unreadable => simp [content, loadFileInto] at loaded
      | bytes bytes =>
          cases first : loadLines ipNetFromStr file.name 1 state (bufLines bytes) with
          | error error => simp [content, loadFileInto, first] at loaded
          | ok next =>
              simp only [content, reduceCtorEq, if_false, loadFileInto, first] at loaded
              refine ((loadLines_extends first).trans (ih loaded)).congr fun ip => ?_
              simp [FilesCover, content]

theorem load_extends {files : List RuleFile} {rules : ParsedRuleSet}
    {staticMeta : Store (BitVec 32) StaticRuleInfo}
    (loaded : loadFromPathsWithMeta ipNetFromStr files = .ok (rules, staticMeta)) :
    Extends ParsedRuleSet.new rules (FilesCover ipNetFromStr files) := by
  rw [loadFromPathsWithMeta] at loaded
  cases result : loadFiles ipNetFromStr LoadState.start files with
  | error error => simp [result] at loaded
  | ok state =>
      simp only [result, Except.ok.injEq, Prod.mk.injEq] at loaded
      obtain ⟨rfl, -⟩ := loaded
      have files := loadFiles_extends result
      refine ⟨fun ip => ?_, fun sound => ?_⟩
      · refine Iff.trans ?_ (files.covers ip)
        cases ip <;> rfl
      · have final := files.wellFormed sound
        exact ⟨final.drops, final.boundedV4, final.boundedV6⟩

theorem load_covers {files : List RuleFile} {rules : ParsedRuleSet}
    {staticMeta : Store (BitVec 32) StaticRuleInfo}
    (loaded : loadFromPathsWithMeta ipNetFromStr files = .ok (rules, staticMeta)) (ip : IpAddr) :
    RulesCover rules ip ↔ FilesCover ipNetFromStr files ip := by
  rw [(load_extends loaded).covers]
  exact or_iff_right (new_covers ip)

theorem load_wellFormed {files : List RuleFile} {rules : ParsedRuleSet}
    {staticMeta : Store (BitVec 32) StaticRuleInfo}
    (loaded : loadFromPathsWithMeta ipNetFromStr files = .ok (rules, staticMeta)) :
    WellFormed rules :=
  (load_extends loaded).wellFormed new_wellFormed

end Runs

end ReputationFirewall.Rules
