import ReputationFirewall.Rules.Provenance

set_option autoImplicit false

namespace ReputationFirewall

open BigEndian KeyedStore

abbrev Target : Type := (kind : MapKind) × kind.Key

def Target.isNetwork (target : Target) : Bool := !target.1.isExact

namespace ParsedRuleSet

def listedTargets (rules : ParsedRuleSet) (kind : MapKind) : List Target :=
  (rules.listedKeys kind).map (Sigma.mk kind)

def addresses (rules : ParsedRuleSet) : List Target :=
  rules.listedTargets .ipv4Exact ++ rules.listedTargets .ipv6Exact

def networks (rules : ParsedRuleSet) : List Target :=
  rules.listedTargets .ipv4Lpm ++ rules.listedTargets .ipv6Lpm

def targets (rules : ParsedRuleSet) : List Target := rules.addresses ++ rules.networks

def CountsTargets (rules : ParsedRuleSet) : Prop := rules.totalRules = rules.targets.toFinset.card

instance (rules : ParsedRuleSet) : Decidable rules.CountsTargets :=
  inferInstanceAs (Decidable (rules.totalRules = rules.targets.toFinset.card))

theorem length_targets (rules : ParsedRuleSet) : rules.targets.length = rules.count := by
  simp [targets, addresses, networks, listedTargets, listedKeys, count, AList.keys, List.keys, Nat.add_assoc]

theorem mem_listedTargets {rules : ParsedRuleSet} {kind : MapKind} {target : Target} :
    target ∈ rules.listedTargets kind ↔ target.1 = kind ∧ ∃ value, rules.Assigns target.1 target.2 value := by
  obtain ⟨own, key⟩ := target
  rw [← mem_keys, ← listedKeys_toFinset, List.mem_toFinset, listedTargets, List.mem_map]
  constructor
  · rintro ⟨listed, member, same⟩
    cases same
    exact ⟨rfl, member⟩
  · rintro ⟨rfl, member⟩
    exact ⟨key, member, rfl⟩

theorem mem_targets {rules : ParsedRuleSet} {target : Target} :
    target ∈ rules.targets ↔ ∃ value, rules.Assigns target.1 target.2 value := by
  simp only [targets, addresses, networks, List.mem_append, mem_listedTargets, ← or_and_right]
  refine and_iff_right ?_
  cases target.1 <;> simp

theorem mem_addresses_exact {rules : ParsedRuleSet} {target : Target} (member : target ∈ rules.addresses) :
    target.isNetwork = false := by
  rcases List.mem_append.mp member with listed | listed
  · simp [Target.isNetwork, (mem_listedTargets.mp listed).1, MapKind.isExact]
  · simp [Target.isNetwork, (mem_listedTargets.mp listed).1, MapKind.isExact]

theorem mem_networks_network {rules : ParsedRuleSet} {target : Target} (member : target ∈ rules.networks) :
    target.isNetwork = true := by
  rcases List.mem_append.mp member with listed | listed
  · simp [Target.isNetwork, (mem_listedTargets.mp listed).1, MapKind.isExact]
  · simp [Target.isNetwork, (mem_listedTargets.mp listed).1, MapKind.isExact]

theorem nodup_addresses (rules : ParsedRuleSet) : rules.addresses.Nodup := by
  have distinct (kind : MapKind) (keys : (rules.listedKeys kind).Nodup) : (rules.listedTargets kind).Nodup :=
    keys.map sigma_mk_injective
  refine (distinct .ipv4Exact rules.exactV4.nodupKeys).append (distinct .ipv6Exact rules.exactV6.nodupKeys) ?_
  intro target first second
  have kinds := (mem_listedTargets.mp first).1.symm.trans (mem_listedTargets.mp second).1
  exact absurd kinds (by decide)

theorem nodup_targets {rules : ParsedRuleSet} : rules.targets.Nodup ↔ rules.networks.Nodup := by
  rw [targets, List.nodup_append']
  refine ⟨fun distinct => distinct.2.1, fun distinct => ⟨rules.nodup_addresses, distinct, ?_⟩⟩
  intro target address network
  exact Bool.false_ne_true ((mem_addresses_exact address).symm.trans (mem_networks_network network))

theorem count_eq_card_iff (rules : ParsedRuleSet) :
    rules.count = rules.targets.toFinset.card ↔ rules.networks.Nodup := by
  rw [← nodup_targets, ← length_targets, eq_comm]
  exact Multiset.toFinset_card_eq_card_iff_nodup

end ParsedRuleSet

section Merging

variable (orderV4 : HashOrder (Octets 4)) (orderV6 : HashOrder (Octets 16)) (first second : ParsedRuleSet)

theorem merge_keys (kind : MapKind) :
    (first.merge orderV4 orderV6 second).keys kind = first.keys kind ∪ second.keys kind := by
  cases kind with
  | ipv4Exact =>
      ext key
      simp only [ParsedRuleSet.keys, Finset.mem_union, mem_keySet]
      exact orderV4.mem_insertAll_iterate first.exactV4 second.exactV4 key
  | ipv6Exact =>
      ext key
      simp only [ParsedRuleSet.keys, Finset.mem_union, mem_keySet]
      exact orderV6.mem_insertAll_iterate first.exactV6 second.exactV6 key
  | ipv4Lpm => simp [ParsedRuleSet.keys, ParsedRuleSet.merge]
  | ipv6Lpm => simp [ParsedRuleSet.keys, ParsedRuleSet.merge]

theorem merge_targets :
    (first.merge orderV4 orderV6 second).targets.toFinset = (first.targets ++ second.targets).toFinset := by
  ext target
  simp only [List.mem_toFinset, List.mem_append, ParsedRuleSet.mem_targets, ← ParsedRuleSet.mem_keys, merge_keys,
    Finset.mem_union]

theorem merge_networks :
    (first.merge orderV4 orderV6 second).networks.Perm (first.networks ++ second.networks) := by
  simp only [ParsedRuleSet.networks, ParsedRuleSet.listedTargets, ParsedRuleSet.listedKeys, ParsedRuleSet.merge,
    List.map_append, List.append_assoc]
  refine List.Perm.append_left _ ?_
  rw [← List.append_assoc, ← List.append_assoc]
  exact List.perm_append_comm.append_right _

theorem merge_total_iff :
    (first.merge orderV4 orderV6 second).totalRules = (first.targets ++ second.targets).toFinset.card ↔
      (first.networks ++ second.networks).Nodup := by
  rw [← merge_targets orderV4 orderV6, ← (merge_networks orderV4 orderV6 first second).nodup_iff]
  exact (first.merge orderV4 orderV6 second).count_eq_card_iff

end Merging

namespace Rules

open NetAddr Text

section Loading

variable (ipNetFromStr : List Char → Option IpNet)

def acceptedTargets (lines : List RuleLine) : List Target :=
  lines.filterMap fun line => lineKey ipNetFromStr line.text

structure Lists (lines : List RuleLine) (rules : ParsedRuleSet) : Prop where
  targets : ∀ target, target ∈ rules.targets ↔ target ∈ acceptedTargets ipNetFromStr lines
  networks : rules.networks.Perm ((acceptedTargets ipNetFromStr lines).filter Target.isNetwork)

variable {ipNetFromStr} {lines : List RuleLine} {rules : ParsedRuleSet} {line : RuleLine}

theorem mem_targets_addEntry (entry : ParsedEntry) (target : Target) :
    target ∈ (addEntry rules entry).targets ↔ target ∈ rules.targets ∨ entry.key = target := by
  simp only [ParsedRuleSet.mem_targets, addEntry_assigns_iff]
  constructor
  · rintro ⟨value, ⟨earlier, _⟩ | ⟨own, _⟩⟩
    · exact Or.inl ⟨value, earlier⟩
    · exact Or.inr own
  · intro known
    by_cases own : entry.key = target
    · exact ⟨entry.value, Or.inr ⟨own, rfl⟩⟩
    · obtain ⟨value, earlier⟩ := known.resolve_right own
      exact ⟨value, Or.inl ⟨earlier, fun _ => own⟩⟩

theorem networks_addEntry (rules : ParsedRuleSet) (entry : ParsedEntry) :
    (addEntry rules entry).networks.Perm (rules.networks ++ [entry.key].filter Target.isNetwork) := by
  cases entry with
  | exactV4 addr value => exact List.Perm.of_eq (List.append_nil _).symm
  | exactV6 addr value => exact List.Perm.of_eq (List.append_nil _).symm
  | lpmV4 prefixLen addr value =>
      have added : (addEntry rules (.lpmV4 prefixLen addr value)).networks =
          rules.listedTargets .ipv4Lpm ++ [⟨.ipv4Lpm, (prefixLen, addr)⟩] ++ rules.listedTargets .ipv6Lpm := by
        simp [ParsedRuleSet.networks, ParsedRuleSet.listedTargets, ParsedRuleSet.listedKeys, addEntry]
      rw [added, List.append_assoc]
      refine (List.Perm.append_left _ List.perm_append_comm).trans (List.Perm.of_eq ?_)
      rw [← List.append_assoc]
      rfl
  | lpmV6 prefixLen addr value =>
      refine List.Perm.of_eq ?_
      simp [ParsedRuleSet.networks, ParsedRuleSet.listedTargets, ParsedRuleSet.listedKeys, addEntry, ParsedEntry.key,
        Target.isNetwork, MapKind.isExact]

theorem start_lists : Lists ipNetFromStr [] ParsedRuleSet.new where
  targets target := by
    rw [ParsedRuleSet.mem_targets]
    rcases target with ⟨_ | _ | _ | _, key⟩ <;> simp [ParsedRuleSet.new, ParsedRuleSet.Assigns, acceptedTargets]
  networks := List.Perm.refl []

theorem Lists.accept (lists : Lists ipNetFromStr lines rules) {entry : ParsedEntry}
    (parses : lineKey ipNetFromStr line.text = some entry.key) :
    Lists ipNetFromStr (lines ++ [line]) (addEntry rules entry) := by
  have accepted : acceptedTargets ipNetFromStr (lines ++ [line]) = acceptedTargets ipNetFromStr lines ++ [entry.key] := by
    simp [acceptedTargets, parses]
  constructor
  case targets =>
    intro target
    rw [accepted, mem_targets_addEntry, lists.targets, List.mem_append, List.mem_singleton, eq_comm]
  case networks =>
    rw [accepted, List.filter_append]
    exact (networks_addEntry rules entry).trans (lists.networks.append_right _)

theorem Lists.reject (lists : Lists ipNetFromStr lines rules) (rejected : lineKey ipNetFromStr line.text = none) :
    Lists ipNetFromStr (lines ++ [line]) rules := by
  have same : acceptedTargets ipNetFromStr (lines ++ [line]) = acceptedTargets ipNetFromStr lines := by
    simp [acceptedTargets, rejected]
  exact ⟨same ▸ lists.targets, same ▸ lists.networks⟩

theorem Lists.readLine {state after : LoadState} (lists : Lists ipNetFromStr lines state.rules) {fileName : List Char}
    {number : Nat} {rawBytes : List UInt8} (loaded : loadLine ipNetFromStr fileName state number rawBytes = .ok after) :
    Lists ipNetFromStr (lines ++ [⟨fileName, number, (decodeUtf8 rawBytes).getD []⟩]) after.rules := by
  obtain ⟨rawLine, decoded, split⟩ := loadLine_cases loaded
  have key := @lineKey_eq ipNetFromStr rawLine state.nextRuleId
  rw [decoded, Option.getD_some]
  obtain ⟨parsed, rfl⟩ | ⟨error, parsed, rfl⟩ | ⟨entry, parsed, rfl⟩ := split
  · rw [parsed] at key
    exact lists.reject key
  · rw [parsed] at key
    -- Only the count of skipped rules moves.
    obtain ⟨targets, networks⟩ := @Lists.reject ipNetFromStr lines _ ⟨fileName, number, rawLine⟩ lists key
    exact ⟨targets, networks⟩
  · rw [parsed] at key
    exact lists.accept key

theorem loadFromPaths_lists {files : List RuleFile} (loaded : loadFromPaths ipNetFromStr files = .ok rules) :
    Lists ipNetFromStr (ruleLines files) rules ∧ rules.totalRules = rules.count := by
  rw [loadFromPaths, loadFromPathsWithMeta] at loaded
  cases read : loadFiles ipNetFromStr LoadState.start files with
  | error error => simp [read, Except.map] at loaded
  | ok state =>
      rw [read] at loaded
      cases loaded
      obtain ⟨targets, networks⟩ := @loadFiles_invariant ipNetFromStr (fun lines state => Lists ipNetFromStr lines state.rules)
        (fun lists loaded => lists.readLine loaded) files [] .start state start_lists read
      exact ⟨⟨targets, networks⟩, rfl⟩

theorem load_total_iff {files : List RuleFile} (loaded : loadFromPaths ipNetFromStr files = .ok rules) :
    rules.totalRules = (acceptedTargets ipNetFromStr (ruleLines files)).toFinset.card ↔
      ((acceptedTargets ipNetFromStr (ruleLines files)).filter Target.isNetwork).Nodup := by
  obtain ⟨lists, total⟩ := loadFromPaths_lists loaded
  have distinct : rules.targets.toFinset = (acceptedTargets ipNetFromStr (ruleLines files)).toFinset := by
    ext target
    rw [List.mem_toFinset, List.mem_toFinset, lists.targets]
  rw [total, ← distinct, ← lists.networks.nodup_iff]
  exact rules.count_eq_card_iff

end Loading

section Results

theorem unique_rule_count_iff (ipNetFromStr : List Char → Option IpNet) :
    (∀ files rules, loadFromPaths ipNetFromStr files = .ok rules →
      (rules.totalRules = (acceptedTargets ipNetFromStr (ruleLines files)).toFinset.card ↔
        ((acceptedTargets ipNetFromStr (ruleLines files)).filter Target.isNetwork).Nodup)) ∧
    ∀ orderV4 orderV6 (first second : ParsedRuleSet), first.CountsTargets → second.CountsTargets →
      ((first.merge orderV4 orderV6 second).totalRules = (first.targets ++ second.targets).toFinset.card ↔
        (first.networks ++ second.networks).Nodup) :=
  ⟨fun _ _ loaded => load_total_iff loaded,
    fun orderV4 orderV6 first second _ _ => merge_total_iff orderV4 orderV6 first second⟩

def sameNetworkTwice : List RuleFile :=
  [⟨"rules.txt".toList, .bytes ("10.0.0.0/8\n10.1.2.3/8\n".toList.map fun char => UInt8.ofNat char.toNat)⟩]

def oneNetwork : ParsedRuleSet :=
  { ParsedRuleSet.new with lpmV4 := [(8, ipv4Octets 10 0 0 0, .drop staticRuleBase)], totalRules := 1 }

theorem sameNetworkTwice_total :
    ((loadFromPaths IpnetGrammar.documented.ipNet sameNetworkTwice).map ParsedRuleSet.totalRules).toOption = some 2 := by
  decide +kernel

theorem sameNetworkTwice_targets :
    (acceptedTargets IpnetGrammar.documented.ipNet (ruleLines sameNetworkTwice)).toFinset.card = 1 := by
  decide +kernel

theorem oneNetwork_countsTargets : oneNetwork.CountsTargets := by decide +kernel

theorem repeated_network_counted_twice :
    (∃ rules, loadFromPaths IpnetGrammar.documented.ipNet sameNetworkTwice = .ok rules ∧
      rules.totalRules = 2 ∧
      (acceptedTargets IpnetGrammar.documented.ipNet (ruleLines sameNetworkTwice)).toFinset.card = 1) ∧
    oneNetwork.CountsTargets ∧ ∀ orderV4 orderV6,
      (oneNetwork.merge orderV4 orderV6 oneNetwork).totalRules ≠
        (oneNetwork.targets ++ oneNetwork.targets).toFinset.card := by
  refine ⟨?_, oneNetwork_countsTargets, fun orderV4 orderV6 => ?_⟩
  · cases loaded : loadFromPaths IpnetGrammar.documented.ipNet sameNetworkTwice with
    | error error =>
        have total := sameNetworkTwice_total
        rw [loaded] at total
        exact absurd total (Option.some_ne_none 2).symm
    | ok rules =>
        have total := sameNetworkTwice_total
        rw [loaded] at total
        exact ⟨rules, rfl, Option.some.inj total, sameNetworkTwice_targets⟩
  · rw [ne_eq, merge_total_iff]
    decide +kernel

def otherTargets : ParsedRuleSet :=
  { ParsedRuleSet.new with
    exactV4 := (∅ : Store (Octets 4) RuleValue).insert (ipv4Octets 192 0 2 1) (.drop staticRuleBase)
    lpmV4 := [(16, ipv4Octets 172 16 0 0, .drop staticRuleBase)], totalRules := 2 }

theorem merged_networks_counted_once :
    (∃ rules, loadFromPaths IpnetGrammar.documented.ipNet twoRuleFiles = .ok rules ∧ rules.totalRules = 1) ∧
    ∀ orderV4 orderV6, (oneNetwork.merge orderV4 orderV6 otherTargets).totalRules = 3 := by
  obtain ⟨load, merge⟩ := unique_rule_count_iff IpnetGrammar.documented.ipNet
  refine ⟨?_, fun orderV4 orderV6 => ?_⟩
  · cases loaded : loadFromPaths IpnetGrammar.documented.ipNet twoRuleFiles with
    | error error =>
        have read : (loadFromPaths IpnetGrammar.documented.ipNet twoRuleFiles).toOption.isSome = true := by decide +kernel
        rw [loaded] at read
        exact absurd read Bool.false_ne_true
    | ok rules =>
        exact ⟨rules, rfl, ((load twoRuleFiles rules loaded).mpr (by decide +kernel)).trans (by decide +kernel)⟩
  · exact ((merge orderV4 orderV6 oneNetwork otherTargets oneNetwork_countsTargets (by decide +kernel)).mpr
      (by decide +kernel)).trans (by decide +kernel)

end Results

end Rules

end ReputationFirewall
