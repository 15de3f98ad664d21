import ReputationFirewall.Firehol.LineReader
import ReputationFirewall.Firehol.PunchOut

set_option autoImplicit false

namespace ReputationFirewall.Firehol

open BigEndian NetAddr Text

inductive FireholCategory where
  | abuse
  | attacks
  | malware
  | spam
  | proxy
  | botnet
  | unroutable
  | anonymizers
  | other
  deriving DecidableEq

def FireholCategory.parseCategory (text : List Char) : FireholCategory :=
  let label := toLowercase (trim text)
  if label = "abuse".toList then .abuse
  else if label = "attacks".toList ∨ label = "attack".toList then .attacks
  else if label = "malware".toList then .malware
  else if label = "spam".toList ∨ label = "spammer".toList then .spam
  else if label = "proxy".toList ∨ label = "proxies".toList then .proxy
  else if label = "botnet".toList ∨ label = "bots".toList ∨ label = "bot".toList then .botnet
  else if label = "unroutable".toList ∨ label = "unallocated".toList then .unroutable
  else if label = "anonymizers".toList ∨ label = "anonymous".toList ∨ label = "anonymizer".toList then
    .anonymizers
  else .other

structure FireholMetadata where
  id : BitVec 32
  category : FireholCategory
  sourceUrl : Option (List Char)
  maintainer : Option (List Char)
  maintainerUrl : Option (List Char)
  sourceFileDate : Option (List Char)
  fileName : List Char
  version : Option (List Char)
  updateFrequency : Option (List Char)
  deriving DecidableEq

def FireholMetadata.new (fileName : List Char) (initialId : BitVec 32) : FireholMetadata :=
  { id := initialId, category := .other, sourceUrl := none, maintainer := none, maintainerUrl := none
    sourceFileDate := none, fileName, version := none, updateFrequency := none }

inductive FireholParseError where
  | cache (error : FirewallError)
  | io (path : List UInt8)
  | invalidEntry (path : List UInt8) (line : Nat) (entry : List Char)
  | invalidDirectory (path : List UInt8)
  | workerPanic (message : List Char)
  deriving DecidableEq

structure ImportContext where
  grammar : IpnetGrammar
  -- The date normalization rests on the `chrono` crate.
  normalizeDate : List Char → Option (List Char)
  ignoreIps : List IpAddr

inductive LineKind where
  | blank
  | comment (body : List Char)
  | target (token : List Char)
  deriving DecidableEq

def classifyLine (line : List Char) : LineKind :=
  let trimmed := trim line
  match trimmed with
  | [] => .blank
  | '#' :: stripped => .comment (trim stripped)
  | _ =>
      let ipPart := match splitOnce '#' trimmed with
        | some (beforeHash, _) => trim beforeHash
        | none => trimmed
      if ipPart = [] then .blank else .target ipPart

structure FileState where
  active : FireholMetadata
  hasEmitted : Bool
  deriving DecidableEq

-- A new category behind emitted entries starts a new record; other headers change the active one.
def applyHeader (context : ImportContext) (state : FileState) (nextMetadataId : BitVec 32)
    (body : List Char) : FileState × BitVec 32 :=
  match splitOnce ':' body with
  | none => (state, nextMetadataId)
  | some (rawKey, rawValue) =>
      let key := toLowercase (trim rawKey)
      let value := trim rawValue
      if key = "category".toList then
        let category := FireholCategory.parseCategory value
        if category ≠ state.active.category ∧ state.hasEmitted then
          (⟨{ state.active with id := nextMetadataId, category }, false⟩, nextMetadataId + 1)
        else (⟨{ state.active with category }, state.hasEmitted⟩, nextMetadataId)
      else
        let active := state.active
        let changed :=
          if key = "maintainer".toList then { active with maintainer := some value }
          else if key = "maintainer url".toList then { active with maintainerUrl := some value }
          else if key = "list source url".toList then { active with sourceUrl := some value }
          else if key = "source file date".toList then
            { active with sourceFileDate := context.normalizeDate value }
          else if key = "version".toList then { active with version := some value }
          else if key = "update frequency".toList then { active with updateFrequency := some value }
          else active
        (⟨changed, state.hasEmitted⟩, nextMetadataId)

def tokenTargets (context : ImportContext) (token : List Char) : Option (List FireholIpTarget) :=
  (parseIpOrCidr context.grammar token).bind fun single =>
    if context.ignoreIps.any single.containsIp then
      parseIpOrCidrWithIgnore context.grammar context.ignoreIps token
    else some [single]

structure LineResult where
  state : FileState
  nextMetadataId : BitVec 32
  emitted : List FireholMetadata
  entries : List FireholEntry
  deriving DecidableEq

def visitLine (context : ImportContext) (path : List UInt8) (state : FileState)
    (nextMetadataId : BitVec 32) (lineNumber : Nat) (line : List Char) :
    Except FireholParseError LineResult :=
  match classifyLine line with
  | .blank => .ok ⟨state, nextMetadataId, [], []⟩
  | .comment body =>
      let (state, nextMetadataId) := applyHeader context state nextMetadataId body
      .ok ⟨state, nextMetadataId, [], []⟩
  | .target token =>
      let emitted := if state.hasEmitted then [] else [state.active]
      match tokenTargets context token with
      | none => .error (.invalidEntry path lineNumber token)
      | some targets =>
          .ok ⟨{ state with hasEmitted := true }, nextMetadataId, emitted,
            targets.map fun target =>
              { target, ruleId := 0, metadataId := state.active.id, line := BitVec.ofNat 32 lineNumber }⟩

section Coverage

def LineCovers (grammar : IpnetGrammar) (line : List Char) (ip : IpAddr) : Prop :=
  ∃ token, classifyLine line = .target token ∧ TokenCovers grammar token ip

def lineTargets (context : ImportContext) (line : List Char) : Option (List FireholIpTarget) :=
  match classifyLine line with
  | .target token => tokenTargets context token
  | _ => some []

-- The gate and the punch-out see the same addresses, since the parsed target is canonical.
theorem tokenTargets_covers {context : ImportContext} {token : List Char}
    {targets : List FireholIpTarget} (parsed : tokenTargets context token = some targets) (ip : IpAddr) :
    (∃ target ∈ targets, target.Covers ip) ↔
      TokenCovers context.grammar token ip ∧ ip ∉ context.ignoreIps := by
  unfold tokenTargets at parsed
  obtain ⟨single, found, chosen⟩ := Option.bind_eq_some_iff.mp parsed
  have covers := parseIpOrCidr_covers found ip
  split_ifs at chosen with gate
  · exact parseIpOrCidrWithIgnore_covers chosen ip
  · cases chosen
    have outside : single.Covers ip → ip ∉ context.ignoreIps := by
      intro covered ignored
      exact gate (List.any_eq_true.mpr
        ⟨ip, ignored, (containsIp_iff (parseIpOrCidr_canonical found) ip).mpr covered⟩)
    simp only [List.mem_singleton, exists_eq_left, ← covers]
    exact ⟨fun covered => ⟨covered, outside covered⟩, And.left⟩

theorem tokenTargets_range {context : ImportContext} {token : List Char} {targets : List FireholIpTarget}
    (parsed : tokenTargets context token = some targets) : ∀ target ∈ targets, target.PrefixInRange := by
  unfold tokenTargets at parsed
  obtain ⟨single, found, chosen⟩ := Option.bind_eq_some_iff.mp parsed
  split_ifs at chosen
  · exact parseIpOrCidrWithIgnore_range chosen
  · cases chosen
    simpa using parseIpOrCidr_range found

theorem tokenTargets_isSome (context : ImportContext) (token : List Char) :
    (tokenTargets context token).isSome = (parseIpOrCidr context.grammar token).isSome := by
  have slow := parseIpOrCidrWithIgnore_isSome context.grammar context.ignoreIps token
  unfold tokenTargets
  cases single : parseIpOrCidr context.grammar token with
  | none => rfl
  | some target =>
      simp only [Option.bind_some]
      split_ifs
      · rw [slow, single]
      · rfl

theorem lineTargets_covers {context : ImportContext} {line : List Char}
    {targets : List FireholIpTarget} (parsed : lineTargets context line = some targets) (ip : IpAddr) :
    (∃ target ∈ targets, target.Covers ip) ↔
      LineCovers context.grammar line ip ∧ ip ∉ context.ignoreIps := by
  cases kind : classifyLine line with
  | blank =>
      simp only [lineTargets, kind, Option.some.injEq] at parsed
      simp [← parsed, LineCovers, kind]
  | comment body =>
      simp only [lineTargets, kind, Option.some.injEq] at parsed
      simp [← parsed, LineCovers, kind]
  | target token =>
      simp only [lineTargets, kind] at parsed
      simpa [LineCovers, kind] using tokenTargets_covers parsed ip

theorem lineTargets_range {context : ImportContext} {line : List Char} {targets : List FireholIpTarget}
    (parsed : lineTargets context line = some targets) : ∀ target ∈ targets, target.PrefixInRange := by
  unfold lineTargets at parsed
  split at parsed
  · exact tokenTargets_range parsed
  · cases parsed
    simp

theorem visitLine_targets {context : ImportContext} {path : List UInt8} {state : FileState}
    {nextMetadataId : BitVec 32} {lineNumber : Nat} {line : List Char} {result : LineResult}
    (visited : visitLine context path state nextMetadataId lineNumber line = .ok result) :
    ∃ targets, lineTargets context line = some targets ∧
      result.entries = targets.map fun target =>
        { target, ruleId := 0, metadataId := state.active.id, line := BitVec.ofNat 32 lineNumber } := by
  unfold visitLine at visited
  cases kind : classifyLine line with
  | blank =>
      simp only [kind, Except.ok.injEq] at visited
      exact ⟨[], by simp [lineTargets, kind], by simp [← visited]⟩
  | comment body =>
      simp only [kind, Except.ok.injEq] at visited
      exact ⟨[], by simp [lineTargets, kind], by simp [← visited]⟩
  | target token =>
      cases parsed : tokenTargets context token with
      | none => simp [kind, parsed] at visited
      | some targets =>
          simp only [kind, parsed, Except.ok.injEq] at visited
          exact ⟨targets, by simp [lineTargets, kind, parsed], by simp [← visited]⟩

end Coverage

end ReputationFirewall.Firehol
