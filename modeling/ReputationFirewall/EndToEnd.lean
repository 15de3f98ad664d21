import ReputationFirewall.Maps.SyncRuns
import ReputationFirewall.Rules.Loader
import ReputationFirewall.Xdp.Program

set_option autoImplicit false

namespace ReputationFirewall

open BigEndian KeyedStore NetAddr Maps Rules Xdp

def installStatic (hashing : Hashing) (rules : ParsedRuleSet) : MapManager :=
  (syncRules hashing allSucceed MapManager.new rules).1

theorem mem_installStatic (hashing : Hashing) (rules : ParsedRuleSet) (kind : MapKind)
    (key : kind.Key) : key ∈ ((installStatic hashing rules).slot kind).map ↔ key ∈ rules.keys kind := by
  have installed := first_static_keySet rules hashing kind
  rw [← mem_keySet, ← installed]
  rfl

theorem installStatic_assigns {hashing : Hashing} {rules : ParsedRuleSet} (kind : MapKind)
    {key : kind.Key} {value : RuleValue}
    (found : ((installStatic hashing rules).slot kind).map.lookup key = some value) :
    rules.Assigns kind key value := by
  have listed := (mem_installStatic hashing rules kind key).mp (lookup_eq_some_mem found)
  obtain ⟨stored, assigned, lookup⟩ := syncRules_lookup_installed hashing allSucceed MapManager.new rules
    kind key ((installs_allSucceed ..).mpr listed)
  have same : some stored = some value := lookup.symm.trans found
  exact Option.some.inj same ▸ assigned

theorem lookup_drops_iff {n : Nat} {exact : Store (Octets n) RuleValue}
    {lpm : Store (Nat × Octets n) RuleValue}
    (exactDrops : ∀ key value, exact.lookup key = some value → value.action = actionDrop)
    (lpmDrops : ∀ key value, lpm.lookup key = some value → value.action = actionDrop)
    (srcIp : Octets n) :
    (∃ rule matchType, reputationLookup exact lpm srcIp = some (rule, matchType) ∧
        rule.action = actionDrop) ↔
      srcIp ∈ exact ∨ ∃ key ∈ lpm, key.1 ≤ 8 * n ∧ SamePrefix key.1 key.2 srcIp := by
  rw [← reputationLookup_isSome, Option.isSome_iff_exists]
  constructor
  · intro hit
    obtain ⟨rule, matchType, found, -⟩ := hit
    exact ⟨_, found⟩
  · intro hit
    obtain ⟨⟨rule, matchType⟩, found⟩ := hit
    refine ⟨rule, matchType, found, ?_⟩
    rcases reputationLookup_value found with direct | ⟨key, stored⟩
    · exact exactDrops _ _ direct
    · exact lpmDrops _ _ stored

theorem exists_prefix_iff {n : Nat} {lpm : Store (Nat × Octets n) RuleValue}
    {listed : List (Nat × Octets n × RuleValue)}
    (stored : ∀ key, key ∈ lpm ↔ ∃ value, (key.1, key.2, value) ∈ listed)
    (bounded : ∀ entry ∈ listed, entry.1 ≤ 8 * n) (srcIp : Octets n) :
    (∃ key ∈ lpm, key.1 ≤ 8 * n ∧ SamePrefix key.1 key.2 srcIp) ↔
      ∃ entry ∈ listed, SamePrefix entry.1 entry.2.1 srcIp := by
  constructor
  · intro hit
    obtain ⟨key, present, -, inside⟩ := hit
    obtain ⟨value, member⟩ := (stored key).mp present
    exact ⟨_, member, inside⟩
  · intro hit
    obtain ⟨⟨prefixLen, addr, value⟩, member, inside⟩ := hit
    exact ⟨(prefixLen, addr), (stored _).mpr ⟨value, member⟩, bounded _ member, inside⟩

section Installed

variable {rules : ParsedRuleSet} (wellFormed : WellFormed rules) (hashing : Hashing)

include wellFormed

theorem installed_drops_v4 (srcIp : Octets 4) :
    (∃ rule matchType, reputationLookup (installStatic hashing rules).ipv4Exact
        (installStatic hashing rules).ipv4Lpm srcIp = some (rule, matchType) ∧
          rule.action = actionDrop) ↔ RulesCover rules (.v4 srcIp) := by
  refine (lookup_drops_iff
    (fun key value found => wellFormed.drops .ipv4Exact key value (installStatic_assigns .ipv4Exact found))
    (fun key value found => wellFormed.drops .ipv4Lpm key value (installStatic_assigns .ipv4Lpm found))
    srcIp).trans ?_
  refine or_congr ?_ ?_
  · refine (mem_installStatic hashing rules .ipv4Exact srcIp).trans ?_
    simp [ParsedRuleSet.keys]
  · refine exists_prefix_iff (fun key => ?_) wellFormed.boundedV4 srcIp
    exact (mem_installStatic hashing rules .ipv4Lpm key).trans (rules.mem_keys .ipv4Lpm key)

theorem installed_drops_v6 (srcIp : Octets 16) :
    (∃ rule matchType, reputationLookup (installStatic hashing rules).ipv6Exact
        (installStatic hashing rules).ipv6Lpm srcIp = some (rule, matchType) ∧
          rule.action = actionDrop) ↔ RulesCover rules (.v6 srcIp) := by
  refine (lookup_drops_iff
    (fun key value found => wellFormed.drops .ipv6Exact key value (installStatic_assigns .ipv6Exact found))
    (fun key value found => wellFormed.drops .ipv6Lpm key value (installStatic_assigns .ipv6Lpm found))
    srcIp).trans ?_
  refine or_congr ?_ ?_
  · refine (mem_installStatic hashing rules .ipv6Exact srcIp).trans ?_
    simp [ParsedRuleSet.keys]
  · refine exists_prefix_iff (fun key => ?_) wellFormed.boundedV6 srcIp
    exact (mem_installStatic hashing rules .ipv6Lpm key).trans (rules.mem_keys .ipv6Lpm key)

end Installed

def Bypassed (frame : Frame) (tags : Nat) : Prop :=
  let header := ipv4HeaderAt frame (l3Offset tags)
  let srcPort := (portsAt frame (l3Offset tags + header.ihl) header.protocol).1
  (header.protocol = protoUdp ∨ header.protocol = protoTcp) ∧ srcPort = 53 ∨
    header.protocol = protoTcp ∧ srcPort = 443 ∧
      ∃ range ∈ githubRanges, SamePrefix range.1 range.2 header.srcAddr

theorem ipv4Bypass_iff (frame : Frame) (tags : Nat) :
    ipv4Bypass frame (l3Offset tags) ↔ Bypassed frame tags := by
  simp only [ipv4Bypass, dnsBypass, githubBypass, ipv4Inspection, Bypassed, isGithubIpv4_iff]

theorem static_rules_drop_iff (ipNetFromStr : List Char → Option IpNet) (files : List RuleFile)
    (rules : ParsedRuleSet) (staticMeta : Store (BitVec 32) StaticRuleInfo)
    (loaded : loadFromPathsWithMeta ipNetFromStr files = .ok (rules, staticMeta))
    (hashing : Hashing) (ctx : XdpContext) (telemetry : Telemetry) :
    (firewall ctx (syncRules hashing allSucceed MapManager.new rules).1 telemetry).1 = .drop ↔
      ∃ tags, tags ≤ 1 ∧
        (CarriesIpv4 ctx.data tags ∧ ¬ Bypassed ctx.data tags ∧
            FilesCover ipNetFromStr files (.v4 (ipv4HeaderAt ctx.data (l3Offset tags)).srcAddr) ∨
          CarriesIpv6 ctx.data tags ∧
            FilesCover ipNetFromStr files (.v6 (ipv6HeaderAt ctx.data (l3Offset tags)).srcAddr)) := by
  have wellFormed := load_wellFormed loaded
  rw [firewall_drop_iff]
  refine exists_congr fun tags => and_congr_right fun _ => or_congr ?_ ?_
  · rw [← ipv4Bypass_iff, ← load_covers loaded, ← installed_drops_v4 wellFormed hashing]
    rfl
  · rw [← load_covers loaded, ← installed_drops_v6 wellFormed hashing]
    rfl

def hostFile : RuleFile :=
  ⟨"blocklist.txt".toList, .bytes [0x31, 0x2E, 0x32, 0x2E, 0x33, 0x2E, 0x34, 0x20, 0x23, 0x0A]⟩

-- An untagged IPv4 frame from 1.2.3.4 that is neither TCP nor UDP.
def hostFrame : Frame :=
  List.replicate 12 0 ++ [0x08, 0x00, 0x45] ++ List.replicate 11 0 ++ [1, 2, 3, 4] ++ List.replicate 4 0

-- The file holds the one line "1.2.3.4 #".
theorem static_rules_drop_host :
    ∃ rules staticMeta,
      loadFromPathsWithMeta (fun _ => none) [hostFile] = .ok (rules, staticMeta) ∧
        (firewall ⟨hostFrame, 0, 0, true⟩
          (syncRules Hashing.arbitrary allSucceed MapManager.new rules).1 Telemetry.zero).1 = .drop := by
  have carries : CarriesIpv4 hostFrame 0 := ⟨⟨by simp, by decide⟩, by decide, by decide, by decide⟩
  have direct : ¬ Bypassed hostFrame 0 := by
    simp only [Bypassed]
    decide
  have listed : FilesCover (fun _ => none) [hostFile]
      (.v4 (ipv4HeaderAt hostFrame (l3Offset 0)).srcAddr) :=
    ⟨hostFile, List.mem_singleton_self _, _, rfl, _, List.mem_singleton_self _, _, rfl, by decide, rfl⟩
  exact ⟨_, _, rfl, (static_rules_drop_iff (fun _ => none) [hostFile] _ _ rfl _ _ _).mpr
    ⟨0, Nat.zero_le _, Or.inl ⟨carries, direct, listed⟩⟩⟩

end ReputationFirewall
