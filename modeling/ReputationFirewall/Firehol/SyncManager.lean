import ReputationFirewall.Firehol.Entry
import ReputationFirewall.Maps.MapManager
import ReputationFirewall.Rules.Loader

set_option autoImplicit false

namespace ReputationFirewall.Firehol

open BigEndian KeyedStore NetAddr Rules

structure FireholSyncReport where
  mapReport : Maps.SyncReport
  exactV4Count : Nat
  exactV6Count : Nat
  lpmV4Count : Nat
  lpmV6Count : Nat
  duplicatesDeduped : Nat
  allowlistedSkipped : Nat
  deriving DecidableEq

def FireholSyncReport.default : FireholSyncReport :=
  { mapReport := ⟨0, 0, 0, 0, 0⟩, exactV4Count := 0, exactV6Count := 0, lpmV4Count := 0
    lpmV6Count := 0, duplicatesDeduped := 0, allowlistedSkipped := 0 }

def FireholSyncReport.totalRules (report : FireholSyncReport) : Nat :=
  report.exactV4Count + report.exactV6Count + report.lpmV4Count + report.lpmV6Count

def isInfrastructureAllowlistedV4 (octets : Octets 4) : Bool :=
  octets.get 0 == 140 && octets.get 1 == 82 && (112 ≤ octets.get 2 && octets.get 2 ≤ 127) ||
  octets.get 0 == 192 && octets.get 1 == 30 && (252 ≤ octets.get 2 && octets.get 2 ≤ 255) ||
  octets.get 0 == 185 && octets.get 1 == 199 && (108 ≤ octets.get 2 && octets.get 2 ≤ 111) ||
  octets.get 0 == 143 && octets.get 1 == 55 && (64 ≤ octets.get 2 && octets.get 2 ≤ 79) ||
  (octets.get 0 == 20 && octets.get 1 == 201 && octets.get 2 == 28 && octets.get 3 == 151 ||
    octets.get 0 == 20 && octets.get 1 == 205 && octets.get 2 == 243 && octets.get 3 == 166 ||
    octets.get 0 == 4 && octets.get 1 == 237 && (22 ≤ octets.get 2 && octets.get 2 ≤ 23)) ||
  octets.get 0 == 127

def isInfrastructureCidrAllowlistedV4 (prefixLen : Nat) (octets : Octets 4) : Bool :=
  prefixLen == 20 && octets.get 0 == 140 && octets.get 1 == 82 && octets.get 2 == 112 &&
    octets.get 3 == 0 ||
  prefixLen == 22 && octets.get 0 == 192 && octets.get 1 == 30 && octets.get 2 == 252 &&
    octets.get 3 == 0 ||
  prefixLen == 22 && octets.get 0 == 185 && octets.get 1 == 199 && octets.get 2 == 108 &&
    octets.get 3 == 0 ||
  prefixLen == 20 && octets.get 0 == 143 && octets.get 1 == 55 && octets.get 2 == 64 &&
    octets.get 3 == 0

structure Preparation where
  rules : ParsedRuleSet
  report : FireholSyncReport
  seenV4Lpm : Finset (Nat × Octets 4)
  seenV6Lpm : Finset (Nat × Octets 16)

def Preparation.start : Preparation := ⟨.new, .default, ∅, ∅⟩

namespace Preparation

def skipAllowlisted (state : Preparation) : Preparation :=
  { state with report := { state.report with allowlistedSkipped := state.report.allowlistedSkipped + 1 } }

def skipDuplicate (state : Preparation) : Preparation :=
  { state with report := { state.report with duplicatesDeduped := state.report.duplicatesDeduped + 1 } }

def addExactV4 (state : Preparation) (octets : Octets 4) (value : RuleValue) : Preparation :=
  if isInfrastructureAllowlistedV4 octets then state.skipAllowlisted
  else if octets ∈ state.rules.exactV4 then state.skipDuplicate
  else { state with
    rules := { state.rules with exactV4 := state.rules.exactV4.insert octets value }
    report := { state.report with exactV4Count := state.report.exactV4Count + 1 } }

def addExactV6 (state : Preparation) (octets : Octets 16) (value : RuleValue) : Preparation :=
  if octets ∈ state.rules.exactV6 then state.skipDuplicate
  else { state with
    rules := { state.rules with exactV6 := state.rules.exactV6.insert octets value }
    report := { state.report with exactV6Count := state.report.exactV6Count + 1 } }

def addLpmV4 (state : Preparation) (prefixLen : Nat) (octets : Octets 4) (value : RuleValue) :
    Preparation :=
  if isInfrastructureCidrAllowlistedV4 prefixLen octets then state.skipAllowlisted
  else if (prefixLen, octets) ∈ state.seenV4Lpm then state.skipDuplicate
  else { state with
    rules := { state.rules with lpmV4 := state.rules.lpmV4 ++ [(prefixLen, octets, value)] }
    report := { state.report with lpmV4Count := state.report.lpmV4Count + 1 }
    seenV4Lpm := insert (prefixLen, octets) state.seenV4Lpm }

def addLpmV6 (state : Preparation) (prefixLen : Nat) (octets : Octets 16) (value : RuleValue) :
    Preparation :=
  if (prefixLen, octets) ∈ state.seenV6Lpm then state.skipDuplicate
  else { state with
    rules := { state.rules with lpmV6 := state.rules.lpmV6 ++ [(prefixLen, octets, value)] }
    report := { state.report with lpmV6Count := state.report.lpmV6Count + 1 }
    seenV6Lpm := insert (prefixLen, octets) state.seenV6Lpm }

def visit (state : Preparation) (entry : FireholEntry) : Preparation :=
  let value := RuleValue.drop entry.ruleId
  match entry.target with
  | .exactV4 octets => state.addExactV4 octets value
  | .exactV6 octets => state.addExactV6 octets value
  | .cidrV4 prefixLen octets =>
      -- A single-address network goes to the hash map.
      if prefixLen = 32 then state.addExactV4 octets value
      else state.addLpmV4 prefixLen octets value
  | .cidrV6 prefixLen octets =>
      if prefixLen = 128 then state.addExactV6 octets value
      else state.addLpmV6 prefixLen octets value

end Preparation

def prepareEntries (entries : List FireholEntry) : ParsedRuleSet × FireholSyncReport :=
  let state := entries.foldl Preparation.visit .start
  ({ state.rules with
      totalRules := state.rules.count, skippedRules := state.report.duplicatesDeduped },
    state.report)

def tryPrepareRules (dataset : FireholDataSet) :
    Except FirewallError (ParsedRuleSet × FireholSyncReport) :=
  match dataset.visitEntries with
  | .ok entries => .ok (prepareEntries entries)
  | .error error => .error error

theorem tryPrepareRules_ok {dataset : FireholDataSet} {rules : ParsedRuleSet} {report : FireholSyncReport}
    (prepared : tryPrepareRules dataset = .ok (rules, report)) :
    ∃ entries, dataset.visitEntries = .ok entries ∧ rules = (prepareEntries entries).1 ∧
      report = (prepareEntries entries).2 := by
  unfold tryPrepareRules at prepared
  cases visited : dataset.visitEntries with
  | error error => simp [visited] at prepared
  | ok entries =>
      simp only [visited] at prepared
      have same := Except.ok.inj prepared
      exact ⟨entries, rfl, congrArg Prod.fst same.symm, congrArg Prod.snd same.symm⟩

section Allowlist

def infrastructureRanges : List (Nat × Octets 4) := githubRanges ++ [(8, #v[127, 0, 0, 0])]

-- The networks behind `isInfrastructureCidrAllowlistedV4`: two /20 and two /22 of the blocks.
def allowlistedNetworks : List (Nat × Octets 4) := githubRanges.take 4

theorem isInfrastructureAllowlistedV4_iff (ip : Octets 4) :
    isInfrastructureAllowlistedV4 ip = true ↔
      ∃ range ∈ infrastructureRanges, SamePrefix range.1 range.2 ip := by
  have sixteen (a b c high : UInt8) (aligned : c.toNat % 16 = 0) (top : high.toNat = c.toNat + 15) :
      SamePrefix 20 #v[a, b, c, 0] ip ↔ ip.get 0 = a ∧ ip.get 1 = b ∧ c ≤ ip.get 2 ∧ ip.get 2 ≤ high := by
    rw [inBlock_iff (show 4 ≤ 8 by decide), UInt8.le_iff_toNat_le, UInt8.le_iff_toNat_le]
    refine and_congr_right fun _ => and_congr_right fun _ => ?_
    omega
  have four (a b c high : UInt8) (aligned : c.toNat % 4 = 0) (top : high.toNat = c.toNat + 3) :
      SamePrefix 22 #v[a, b, c, 0] ip ↔ ip.get 0 = a ∧ ip.get 1 = b ∧ c ≤ ip.get 2 ∧ ip.get 2 ≤ high := by
    rw [inBlock_iff (show 6 ≤ 8 by decide), UInt8.le_iff_toNat_le, UInt8.le_iff_toNat_le]
    refine and_congr_right fun _ => and_congr_right fun _ => ?_
    omega
  have pair : SamePrefix 23 #v[4, 237, 22, 0] ip ↔
      ip.get 0 = 4 ∧ ip.get 1 = 237 ∧ 22 ≤ ip.get 2 ∧ ip.get 2 ≤ 23 := by
    rw [inBlock_iff (show 7 ≤ 8 by decide), UInt8.le_iff_toNat_le, UInt8.le_iff_toNat_le]
    refine and_congr_right fun _ => and_congr_right fun _ => ?_
    simp only [UInt8.reduceToNat]
    omega
  simp only [infrastructureRanges, githubRanges, List.cons_append, List.nil_append, List.mem_cons,
    List.not_mem_nil, or_false, exists_eq_or_imp, exists_eq_left, isHost_iff, inFirstOctet_iff,
    sixteen _ _ 112 127 rfl rfl, sixteen _ _ 64 79 rfl rfl, four _ _ 252 255 rfl rfl,
    four _ _ 108 111 rfl rfl, pair]
  simp only [isInfrastructureAllowlistedV4, Bool.or_eq_true, Bool.and_eq_true, beq_iff_eq,
    decide_eq_true_eq, and_assoc, or_assoc]

theorem isInfrastructureCidrAllowlistedV4_iff (prefixLen : Nat) (octets : Octets 4) :
    isInfrastructureCidrAllowlistedV4 prefixLen octets = true ↔
      (prefixLen, octets) ∈ allowlistedNetworks := by
  have same (a b c d : UInt8) : octets = #v[a, b, c, d] ↔
      octets.get 0 = a ∧ octets.get 1 = b ∧ octets.get 2 = c ∧ octets.get 3 = d := by
    rw [← isHost_iff, samePrefix_full (by decide), eq_comm]
  simp only [allowlistedNetworks, githubRanges, List.take_succ_cons, List.take_zero, List.mem_cons, List.not_mem_nil,
    or_false, Prod.mk.injEq, same, isInfrastructureCidrAllowlistedV4, Bool.or_eq_true, Bool.and_eq_true, beq_iff_eq,
    and_assoc, or_assoc]

theorem reaches_infrastructure_iff (key : Nat × Octets 4) :
    (∃ ip, SamePrefix key.1 key.2 ip ∧ isInfrastructureAllowlistedV4 ip = true) ↔
      ∃ range ∈ infrastructureRanges, SamePrefix (min key.1 range.1) key.2 range.2 := by
  simp only [isInfrastructureAllowlistedV4_iff, ← samePrefix_overlap_iff]
  grind

end Allowlist

section Preparing

variable (state : Preparation) (value : RuleValue)

namespace Preparation

@[simp] theorem mem_addExactV4 (octets addr : Octets 4) :
    addr ∈ (state.addExactV4 octets value).rules.exactV4 ↔
      addr ∈ state.rules.exactV4 ∨ addr = octets ∧ isInfrastructureAllowlistedV4 octets = false := by
  unfold addExactV4
  split_ifs with allowed present
  · simp [skipAllowlisted, allowed]
  · simp only [skipDuplicate]
    grind
  · simp [AList.mem_insert, allowed, or_comm]

structure Tracks (entries : List FireholEntry) (state : Preparation) : Prop where
  clear : ∀ addr ∈ state.rules.exactV4, isInfrastructureAllowlistedV4 addr = false
  seen : state.seenV4Lpm = state.rules.keys .ipv4Lpm
  listed : ∀ key, key ∈ state.rules.keys .ipv4Lpm ↔
    ∃ entry ∈ entries, entry.target = .cidrV4 key.1 key.2 ∧ key.1 ≠ 32 ∧ key ∉ allowlistedNetworks

@[simp] theorem addExactV4_keys (octets : Octets 4) :
    (state.addExactV4 octets value).rules.keys .ipv4Lpm = state.rules.keys .ipv4Lpm := by
  unfold addExactV4
  split_ifs <;> rfl

@[simp] theorem addExactV4_seen (octets : Octets 4) :
    (state.addExactV4 octets value).seenV4Lpm = state.seenV4Lpm := by
  unfold addExactV4
  split_ifs <;> rfl

theorem Tracks.addExactV4 {entries : List FireholEntry} {state : Preparation}
    (tracks : Tracks entries state) (octets : Octets 4) :
    Tracks entries (state.addExactV4 octets value) where
  clear := by
    intro addr listed
    rcases (mem_addExactV4 state value octets addr).mp listed with before | ⟨rfl, clear⟩
    · exact tracks.clear addr before
    · exact clear
  seen := by simpa using tracks.seen
  listed := by simpa using tracks.listed

theorem Tracks.addExactV6 {entries : List FireholEntry} {state : Preparation}
    (tracks : Tracks entries state) (octets : Octets 16) :
    Tracks entries (state.addExactV6 octets value) := by
  unfold Preparation.addExactV6
  split_ifs <;> exact ⟨tracks.clear, tracks.seen, tracks.listed⟩

theorem Tracks.addLpmV6 {entries : List FireholEntry} {state : Preparation}
    (tracks : Tracks entries state) (prefixLen : Nat) (octets : Octets 16) :
    Tracks entries (state.addLpmV6 prefixLen octets value) := by
  unfold Preparation.addLpmV6
  split_ifs <;> exact ⟨tracks.clear, tracks.seen, tracks.listed⟩

theorem Tracks.concat_other {entries : List FireholEntry} {state : Preparation}
    (tracks : Tracks entries state) {entry : FireholEntry}
    (other : ∀ prefixLen octets, entry.target = .cidrV4 prefixLen octets → prefixLen = 32) :
    Tracks (entries ++ [entry]) state where
  clear := tracks.clear
  seen := tracks.seen
  listed := by
    intro key
    rw [tracks.listed key]
    grind

theorem Tracks.addLpmV4 {entries : List FireholEntry} {state : Preparation}
    (tracks : Tracks entries state) {entry : FireholEntry} {prefixLen : Nat} {octets : Octets 4}
    (network : entry.target = .cidrV4 prefixLen octets) (proper : prefixLen ≠ 32) :
    Tracks (entries ++ [entry]) (state.addLpmV4 prefixLen octets value) := by
  have allowed := isInfrastructureCidrAllowlistedV4_iff prefixLen octets
  unfold Preparation.addLpmV4
  split_ifs with skipped repeated
  · refine ⟨tracks.clear, tracks.seen, fun key => (tracks.listed key).trans ?_⟩
    grind
  · rw [tracks.seen, tracks.listed] at repeated
    refine ⟨tracks.clear, tracks.seen, fun key => (tracks.listed key).trans ?_⟩
    grind
  · have keys (key : Nat × Octets 4) :
        key ∈ ({ state.rules with
          lpmV4 := state.rules.lpmV4 ++ [(prefixLen, octets, value)] } : ParsedRuleSet).keys .ipv4Lpm ↔
          key ∈ state.rules.keys .ipv4Lpm ∨ key = (prefixLen, octets) := by
      simp [ParsedRuleSet.keys, or_comm]
    refine ⟨tracks.clear, ?_, fun key => ?_⟩
    · ext key
      rw [keys, Finset.mem_insert, tracks.seen, or_comm]
    · rw [keys, tracks.listed key]
      grind

theorem Tracks.visit {entries : List FireholEntry} {state : Preparation}
    (tracks : Tracks entries state) (entry : FireholEntry) :
    Tracks (entries ++ [entry]) (state.visit entry) := by
  unfold Preparation.visit
  cases target : entry.target with
  | exactV4 octets => exact (tracks.addExactV4 _ octets).concat_other (by simp [target])
  | exactV6 octets => exact (tracks.addExactV6 _ octets).concat_other (by simp [target])
  | cidrV4 prefixLen octets =>
      by_cases host : prefixLen = 32
      · simp only [host, if_true]
        exact (tracks.addExactV4 _ octets).concat_other (by simp [target, host])
      · simp only [host, if_false]
        exact tracks.addLpmV4 _ target host
  | cidrV6 prefixLen octets =>
      by_cases host : prefixLen = 128
      · simp only [host, if_true]
        exact (tracks.addExactV6 _ octets).concat_other (by simp [target])
      · simp only [host, if_false]
        exact (tracks.addLpmV6 _ prefixLen octets).concat_other (by simp [target])

theorem Tracks.start : Tracks [] Preparation.start := by
  constructor <;> simp [Preparation.start, ParsedRuleSet.new, ParsedRuleSet.keys]

theorem tracks_visits (entries : List FireholEntry) :
    Tracks entries (entries.foldl visit .start) := by
  induction entries using List.reverseRecOn with
  | nil => exact Tracks.start
  | append_singleton entries entry ih =>
      rw [List.foldl_append]
      exact ih.visit entry

end Preparation

end Preparing

section Protection

def ProtectsInfrastructure (rules : ParsedRuleSet) : Prop :=
  ∀ ip, isInfrastructureAllowlistedV4 ip = true → ¬ RulesCover rules (.v4 ip)

def AvoidsInfrastructure (entries : List FireholEntry) : Prop :=
  ∀ entry ∈ entries, ∀ prefixLen octets, entry.target = .cidrV4 prefixLen octets → prefixLen ≠ 32 →
    (prefixLen, octets) ∉ allowlistedNetworks →
      ∀ range ∈ infrastructureRanges, ¬ SamePrefix (min prefixLen range.1) octets range.2

theorem covers_iff_keys (rules : ParsedRuleSet) (ip : Octets 4) :
    RulesCover rules (.v4 ip) ↔
      ip ∈ rules.exactV4 ∨ ∃ key ∈ rules.keys .ipv4Lpm, SamePrefix key.1 key.2 ip := by
  simp [RulesCover, ParsedRuleSet.keys]

theorem prepareEntries_protects_iff (entries : List FireholEntry) :
    ProtectsInfrastructure (prepareEntries entries).1 ↔ AvoidsInfrastructure entries := by
  have tracks := Preparation.tracks_visits entries
  have keys : (prepareEntries entries).1.keys .ipv4Lpm =
      (entries.foldl Preparation.visit .start).rules.keys .ipv4Lpm := rfl
  simp only [ProtectsInfrastructure, AvoidsInfrastructure, covers_iff_keys, keys, tracks.listed]
  constructor
  · intro protects entry member prefixLen octets target proper unnamed range known meets
    obtain ⟨ip, inside, allowed⟩ :=
      (reaches_infrastructure_iff (prefixLen, octets)).mpr ⟨range, known, meets⟩
    exact protects ip allowed (Or.inr ⟨_, ⟨entry, member, target, proper, unnamed⟩, inside⟩)
  · intro avoids ip allowed covered
    rcases covered with exact | ⟨key, ⟨entry, member, target, proper, unnamed⟩, inside⟩
    · simp [tracks.clear ip exact] at allowed
    · obtain ⟨range, known, meets⟩ := (reaches_infrastructure_iff key).mp ⟨ip, inside, allowed⟩
      exact avoids entry member key.1 key.2 target proper unnamed range known meets

theorem infrastructure_protected_iff (dataset : FireholDataSet) :
    (∀ rules report, tryPrepareRules dataset = .ok (rules, report) → ProtectsInfrastructure rules) ↔
      ∀ entries, dataset.visitEntries = .ok entries → AvoidsInfrastructure entries := by
  cases visited : dataset.visitEntries with
  | error error => simp [tryPrepareRules, visited]
  | ok entries => simp [tryPrepareRules, visited, ← prepareEntries_protects_iff, Prod.ext_iff]

def loopbackFeed : FireholDataSet :=
  { entries := [{ target := .cidrV4 8 #v[127, 0, 0, 0], ruleId := 1, metadataId := 1, line := 1 }]
    storedEntries := none }

theorem loopback_blocked :
    ∃ rules report, tryPrepareRules loopbackFeed = .ok (rules, report) ∧
      isInfrastructureAllowlistedV4 #v[127, 0, 0, 1] = true ∧ RulesCover rules (.v4 #v[127, 0, 0, 1]) := by
  refine ⟨_, _, rfl, by decide, Or.inr ⟨(8, #v[127, 0, 0, 0], .drop 1), ?_, by decide⟩⟩
  exact List.mem_singleton.mpr rfl

end Protection

section Totals

def FireholIpTarget.isInfrastructure : FireholIpTarget → Bool
  | .exactV4 octets => isInfrastructureAllowlistedV4 octets
  | .cidrV4 prefixLen octets =>
      if prefixLen = 32 then isInfrastructureAllowlistedV4 octets
      else isInfrastructureCidrAllowlistedV4 prefixLen octets
  | .exactV6 _ | .cidrV6 _ _ => false

namespace Preparation

def skipped (count : Nat) : Preparation :=
  ⟨.new, { FireholSyncReport.default with allowlistedSkipped := count }, ∅, ∅⟩

theorem skipped_visit_infrastructure {entry : FireholEntry} (infrastructure : entry.target.isInfrastructure = true)
    (count : Nat) : (skipped count).visit entry = skipped (count + 1) := by
  unfold FireholIpTarget.isInfrastructure at infrastructure
  unfold visit
  cases target : entry.target with
  | exactV4 octets =>
      simp only [target] at infrastructure
      simp [addExactV4, infrastructure, skipAllowlisted, skipped]
  | exactV6 octets => simp [target] at infrastructure
  | cidrV4 prefixLen octets =>
      simp only [target] at infrastructure
      by_cases host : prefixLen = 32
      · simp only [host, if_true] at infrastructure
        simp [host, addExactV4, infrastructure, skipAllowlisted, skipped]
      · simp only [host, if_false] at infrastructure
        simp [host, addLpmV4, infrastructure, skipAllowlisted, skipped]
  | cidrV6 prefixLen octets => simp [target] at infrastructure

theorem skipped_visit_rule {entry : FireholEntry} (rule : entry.target.isInfrastructure = false) (count : Nat) :
    ((skipped count).visit entry).report.totalRules = 1 := by
  unfold FireholIpTarget.isInfrastructure at rule
  unfold visit
  cases target : entry.target with
  | exactV4 octets =>
      simp only [target] at rule
      simp [addExactV4, rule, skipped, ParsedRuleSet.new, FireholSyncReport.totalRules, FireholSyncReport.default]
  | exactV6 octets =>
      simp [addExactV6, skipped, ParsedRuleSet.new, FireholSyncReport.totalRules, FireholSyncReport.default]
  | cidrV4 prefixLen octets =>
      simp only [target] at rule
      by_cases host : prefixLen = 32
      · simp only [host, if_true] at rule
        simp [host, addExactV4, rule, skipped, ParsedRuleSet.new, FireholSyncReport.totalRules,
          FireholSyncReport.default]
      · simp only [host, if_false] at rule
        simp [host, addLpmV4, rule, skipped, FireholSyncReport.totalRules, FireholSyncReport.default]
  | cidrV6 prefixLen octets =>
      by_cases host : prefixLen = 128
      · simp [host, addExactV6, skipped, ParsedRuleSet.new, FireholSyncReport.totalRules,
          FireholSyncReport.default]
      · simp [host, addLpmV6, skipped, FireholSyncReport.totalRules, FireholSyncReport.default]

theorem totalRules_visit_le (state : Preparation) (entry : FireholEntry) :
    state.report.totalRules ≤ (state.visit entry).report.totalRules := by
  unfold visit addExactV4 addExactV6 addLpmV4 addLpmV6 skipAllowlisted skipDuplicate
  cases entry.target <;> dsimp only [FireholSyncReport.totalRules] <;> split_ifs <;> dsimp only <;> omega

theorem totalRules_visits_le (state : Preparation) (entries : List FireholEntry) :
    state.report.totalRules ≤ (entries.foldl visit state).report.totalRules := by
  induction entries generalizing state with
  | nil => exact le_rfl
  | cons entry rest ih => exact (state.totalRules_visit_le entry).trans (ih _)

theorem skipped_visits_total_eq_zero_iff (count : Nat) (entries : List FireholEntry) :
    (entries.foldl visit (skipped count)).report.totalRules = 0 ↔
      ∀ entry ∈ entries, entry.target.isInfrastructure = true := by
  induction entries generalizing count with
  | nil => simp [skipped, FireholSyncReport.totalRules, FireholSyncReport.default]
  | cons entry rest ih =>
      rw [List.foldl_cons, List.forall_mem_cons]
      cases infrastructure : entry.target.isInfrastructure with
      | true => rw [skipped_visit_infrastructure infrastructure, ih, eq_self, true_and]
      | false =>
          have counted := skipped_visit_rule infrastructure count
          have kept := totalRules_visits_le ((skipped count).visit entry) rest
          constructor
          · intro none
            omega
          · rintro ⟨impossible, _⟩
            simp at impossible

end Preparation

theorem prepareEntries_total_eq_zero_iff (entries : List FireholEntry) :
    (prepareEntries entries).2.totalRules = 0 ↔ ∀ entry ∈ entries, entry.target.isInfrastructure = true :=
  Preparation.skipped_visits_total_eq_zero_iff 0 entries

def hostRules (octets : Octets 4) : ParsedRuleSet × FireholSyncReport :=
  prepareEntries [⟨.exactV4 octets, 1, 1, 1⟩]

theorem hostRules_lookup {octets : Octets 4} (blocked : isInfrastructureAllowlistedV4 octets = false) :
    (hostRules octets).1.exactV4.lookup octets = some (RuleValue.drop 1) := by
  simp only [hostRules, prepareEntries, List.foldl_cons, List.foldl_nil, Preparation.visit, Preparation.addExactV4,
    blocked, Bool.false_eq_true, if_false, Preparation.start, ParsedRuleSet.new, AList.notMem_empty, AList.lookup_insert]

end Totals

end ReputationFirewall.Firehol
