import ReputationFirewall.Firehol.PunchOut
import ReputationFirewall.Rules.Loader

set_option autoImplicit false

namespace ReputationFirewall

open Firehol NetAddr Rules Text

section Tokens

def Rules.ParsedEntry.target : ParsedEntry → FireholIpTarget
  | .exactV4 addr _ => .exactV4 addr
  | .exactV6 addr _ => .exactV6 addr
  | .lpmV4 prefixLen addr _ => .cidrV4 prefixLen addr
  | .lpmV6 prefixLen addr _ => .cidrV6 prefixLen addr

theorem networkEntry_target (net : IpNet) (value : RuleValue) :
    (networkEntry net value).target = networkTarget net := by
  cases net with
  | v4 net =>
      by_cases full : net.prefixLen = 32
      · have whole : net.network = net.addr := networkOf_full (Nat.le_of_eq full.symm) net.addr
        simp [networkEntry, networkTarget, Family.target, full, whole, ParsedEntry.target, ipv4Family]
      · simp [networkEntry, networkTarget, Family.target, full, ParsedEntry.target, ipv4Family]
  | v6 net =>
      by_cases full : net.prefixLen = 128
      · have whole : net.network = net.addr := networkOf_full (Nat.le_of_eq full.symm) net.addr
        simp [networkEntry, networkTarget, Family.target, full, whole, ParsedEntry.target, ipv6Family]
      · simp [networkEntry, networkTarget, Family.target, full, ParsedEntry.target, ipv6Family]

theorem addressEntry_target (addr : IpAddr) (value : RuleValue) :
    (addressEntry addr value).target = addressTarget addr := by
  cases addr <;> rfl

theorem networkTargets_nil {n : Nat} (family : Family n) (net : Net n) :
    networkTargets family net [] = [family.target net] := by
  by_cases full : net.prefixLen = 8 * n
  · simp [networkTargets, Family.target, full]
  · simp [networkTargets, Family.target, full, punchOut]

theorem parseIpOrCidrWithIgnore_nil (grammar : IpnetGrammar) (token : List Char) :
    parseIpOrCidrWithIgnore grammar [] token = (parseIpOrCidr grammar token).map fun target => [target] := by
  rw [parseIpOrCidr_eq, parseIpOrCidrWithIgnore]
  split_ifs with slash
  · rcases grammar.ipNet token with _ | net | net
    · rfl
    · exact congrArg some (networkTargets_nil ipv4Family net)
    · exact congrArg some (networkTargets_nil ipv6Family net)
  · cases IpAddr.fromStr token <;> rfl

theorem stripComment_eq {token : List Char} (comment : '#' ∉ token) (trimmed : trim token = token) :
    stripComment token = token := by
  have whole : token.takeWhile (· ≠ '#') = token := by
    apply List.takeWhile_eq_self_iff.mpr
    intro c member
    exact decide_eq_true fun same => comment (same ▸ member)
  rw [stripComment, whole, trimmed]

variable {grammar : IpnetGrammar}

theorem ipNet_slash (requires : grammar.RequiresSlash) {text : List Char} (plain : '/' ∉ text) :
    grammar.ipNet text = none := by
  by_cases colon : ':' ∈ text
  · rw [grammar.ipv6_text text colon, requires text plain, Option.map_none]
  · rw [grammar.ipv4_text text colon, readToEnd_readIpv4Net_slash plain, Option.map_none]

-- An empty token is no rule but no error either.
theorem parseLine_token (requires : grammar.RequiresSlash) {token : List Char} (comment : '#' ∉ token)
    (trimmed : trim token = token) (ruleId : BitVec 32) :
    (∃ entry, parseLine grammar.ipNet token ruleId = .ok (some entry) ∧
      parseIpOrCidr grammar token = some entry.target) ∨
    ((token = [] ∧ parseLine grammar.ipNet token ruleId = .ok none ∨
        ∃ error, parseLine grammar.ipNet token ruleId = .error error) ∧
      parseIpOrCidr grammar token = none) := by
  rw [parseLine, stripComment_eq comment trimmed]
  by_cases blank : token = []
  · subst blank
    exact Or.inr ⟨Or.inl ⟨rfl, rfl⟩, rfl⟩
  rw [if_neg blank, parseIpOrCidr_eq]
  by_cases slash : '/' ∈ token
  · rw [if_pos slash, ipAddr_fromStr_slash slash]
    cases grammar.ipNet token with
    | none => exact Or.inr ⟨Or.inr ⟨_, rfl⟩, rfl⟩
    | some net => exact Or.inl ⟨_, rfl, congrArg some (networkEntry_target net _).symm⟩
  · rw [if_neg slash, ipNet_slash requires slash]
    cases IpAddr.fromStr token with
    | none => exact Or.inr ⟨Or.inr ⟨_, rfl⟩, rfl⟩
    | some addr => exact Or.inl ⟨_, rfl, congrArg some (addressEntry_target addr _).symm⟩

theorem token_parsers_agree (grammar : IpnetGrammar) (requires : grammar.RequiresSlash) (token : List Char)
    (comment : '#' ∉ token) (trimmed : trim token = token) (ruleId : BitVec 32) :
    (∀ target, parseIpOrCidr grammar token = some target ↔
      parseIpOrCidrWithIgnore grammar [] token = some [target]) ∧
    (∀ target, parseIpOrCidr grammar token = some target ↔
      ∃ entry, parseLine grammar.ipNet token ruleId = .ok (some entry) ∧ entry.target = target) ∧
    (parseIpOrCidr grammar token = none → parseIpOrCidrWithIgnore grammar [] token = none ∧
      (token = [] ∧ parseLine grammar.ipNet token ruleId = .ok none ∨
        ∃ error, parseLine grammar.ipNet token ruleId = .error error)) := by
  rw [parseIpOrCidrWithIgnore_nil]
  obtain ⟨entry, accepted, parsed⟩ | ⟨rejected, unparsed⟩ := parseLine_token requires comment trimmed ruleId
  · rw [parsed, accepted]
    simp
  · have noEntry (entry : ParsedEntry) : parseLine grammar.ipNet token ruleId ≠ .ok (some entry) := by
      obtain ⟨_, empty⟩ | ⟨error, failed⟩ := rejected
      · simp [empty]
      · simp [failed]
    simp [unparsed, noEntry, rejected]

theorem padded_token_agrees :
    IpnetGrammar.documented.RequiresSlash ∧ '#' ∉ "010.0.0.0/8".toList ∧
    trim "010.0.0.0/8".toList = "010.0.0.0/8".toList ∧
    ∃ entry, parseLine IpnetGrammar.documented.ipNet "010.0.0.0/8".toList 7#32 = .ok (some entry) ∧
      entry.target = .cidrV4 8 (ipv4Octets 10 0 0 0) :=
  have comment : '#' ∉ "010.0.0.0/8".toList := by decide
  have trimmed : trim "010.0.0.0/8".toList = "010.0.0.0/8".toList := by decide
  have parsed : parseIpOrCidr .documented "010.0.0.0/8".toList =
      some (.cidrV4 8 (ipv4Octets 10 0 0 0)) := by decide +kernel
  ⟨IpnetGrammar.documented_requiresSlash, comment, trimmed,
    ((token_parsers_agree .documented IpnetGrammar.documented_requiresSlash _ comment trimmed 7#32).2.1 _).mp
      parsed⟩

end Tokens

end ReputationFirewall
