import ReputationFirewall.EndToEnd
import ReputationFirewall.Firehol.RuleCounts
import ReputationFirewall.Maps.SharedKeys

set_option autoImplicit false

namespace ReputationFirewall

open BigEndian Firehol KeyedStore NetAddr Maps Rules Runs Xdp

section Verdicts

def FromSource (covered : IpAddr → Prop) (frame : Frame) : Prop :=
  ∃ tags, tags ≤ 1 ∧
    (CarriesIpv4 frame tags ∧ ¬ Bypassed frame tags ∧ covered (.v4 (ipv4HeaderAt frame (l3Offset tags)).srcAddr) ∨
      CarriesIpv6 frame tags ∧ covered (.v6 (ipv6HeaderAt frame (l3Offset tags)).srcAddr))

theorem FromSource.mono {covered wider : IpAddr → Prop} {frame : Frame} (from_ : FromSource covered frame)
    (within : ∀ ip, covered ip → wider ip) : FromSource wider frame := by
  obtain ⟨tags, few, ⟨carries, direct, listed⟩ | ⟨carries, listed⟩⟩ := from_
  · exact ⟨tags, few, Or.inl ⟨carries, direct, within _ listed⟩⟩
  · exact ⟨tags, few, Or.inr ⟨carries, within _ listed⟩⟩

def MapsCover (manager : MapManager) (ip : IpAddr) : Prop :=
  ∃ kind, ∃ key ∈ (manager.slot kind).map, KeyCovers kind key ip

def KeyBounded : (kind : MapKind) → kind.Key → Prop
  | .ipv4Lpm, key => key.1 ≤ 8 * 4
  | .ipv6Lpm, key => key.1 ≤ 8 * 16
  | .ipv4Exact, _ | .ipv6Exact, _ => True

structure Enforceable (manager : MapManager) : Prop where
  drops : ∀ kind key value, (manager.slot kind).map.lookup key = some value → value.action = actionDrop
  bounded : ∀ kind, ∀ key ∈ (manager.slot kind).map, KeyBounded kind key

theorem mapsCover_v4 {manager : MapManager} (enforceable : Enforceable manager) (srcIp : Octets 4) :
    (∃ rule matchType, reputationLookup manager.ipv4Exact manager.ipv4Lpm srcIp = some (rule, matchType) ∧
        rule.action = actionDrop) ↔ MapsCover manager (.v4 srcIp) := by
  refine (lookup_drops_iff (enforceable.drops .ipv4Exact) (enforceable.drops .ipv4Lpm) srcIp).trans ?_
  constructor
  · rintro (exact | ⟨key, present, _, inside⟩)
    · exact ⟨.ipv4Exact, srcIp, exact, rfl⟩
    · exact ⟨.ipv4Lpm, key, present, inside⟩
  · rintro ⟨kind, key, present, covers⟩
    cases kind with
    | ipv4Exact =>
        obtain rfl : srcIp = key := covers
        exact Or.inl present
    | ipv4Lpm => exact Or.inr ⟨key, present, enforceable.bounded .ipv4Lpm key present, covers⟩
    | ipv6Exact | ipv6Lpm => exact covers.elim

theorem mapsCover_v6 {manager : MapManager} (enforceable : Enforceable manager) (srcIp : Octets 16) :
    (∃ rule matchType, reputationLookup manager.ipv6Exact manager.ipv6Lpm srcIp = some (rule, matchType) ∧
        rule.action = actionDrop) ↔ MapsCover manager (.v6 srcIp) := by
  refine (lookup_drops_iff (enforceable.drops .ipv6Exact) (enforceable.drops .ipv6Lpm) srcIp).trans ?_
  constructor
  · rintro (exact | ⟨key, present, _, inside⟩)
    · exact ⟨.ipv6Exact, srcIp, exact, rfl⟩
    · exact ⟨.ipv6Lpm, key, present, inside⟩
  · rintro ⟨kind, key, present, covers⟩
    cases kind with
    | ipv6Exact =>
        obtain rfl : srcIp = key := covers
        exact Or.inl present
    | ipv6Lpm => exact Or.inr ⟨key, present, enforceable.bounded .ipv6Lpm key present, covers⟩
    | ipv4Exact | ipv4Lpm => exact covers.elim

theorem Enforceable.drop_iff {manager : MapManager} (enforceable : Enforceable manager) (ctx : XdpContext)
    (telemetry : Telemetry) :
    (firewall ctx manager telemetry).1 = .drop ↔ FromSource (MapsCover manager) ctx.data := by
  rw [firewall_drop_iff]
  refine exists_congr fun tags => and_congr_right fun _ => or_congr ?_ ?_
  · rw [← ipv4Bypass_iff, mapsCover_v4 enforceable]
  · rw [mapsCover_v6 enforceable]

end Verdicts

section Synchronizations

theorem enforceable_new : Enforceable .new := by
  refine ⟨fun kind key value found => ?_, fun kind key present => ?_⟩
  · exact absurd (lookup_eq_some_mem found) (start_map kind key)
  · exact absurd present (start_map kind key)

theorem wellFormed_bounded {rules : ParsedRuleSet} (wellFormed : WellFormed rules) {kind : MapKind} {key : kind.Key}
    {value : RuleValue} (assigned : rules.Assigns kind key value) : KeyBounded kind key := by
  cases kind with
  | ipv4Exact | ipv6Exact => trivial
  | ipv4Lpm => exact wellFormed.boundedV4 _ assigned
  | ipv6Lpm => exact wellFormed.boundedV6 _ assigned

theorem apply_lookup_installed {call : Call} {ok : Outcomes} {manager : MapManager} {kind : MapKind} {key : kind.Key}
    {value : RuleValue} (installed : key ∈ installs call.hashing ok call.rules kind)
    (found : ((call.apply ok manager).1.slot kind).map.lookup key = some value) :
    call.rules.Assigns kind key value := by
  obtain ⟨source, rules, hashing⟩ := call
  obtain ⟨brought, member, stored⟩ := mem_installedKeys_entry _ (manager.slot kind).map _ key installed
  have assigned := (rules.mem_entries kind _ key brought).mp member
  have same : ((Call.apply ⟨source, rules, hashing⟩ ok manager).1.slot kind).map.lookup key = some brought := by
    simp only [installs] at installed
    cases source with
    | static => simp [Call.apply, syncRules_slot, syncStatic_lookup, installed, stored]
    | firehol => simp [Call.apply, syncFireholRules_slot, syncFirehol_lookup, installed, stored]
  rw [same] at found
  exact Option.some.inj found ▸ assigned

theorem apply_lookup_cases {call : Call} {ok : Outcomes} {manager : MapManager} {kind : MapKind} {key : kind.Key}
    {value : RuleValue} (found : ((call.apply ok manager).1.slot kind).map.lookup key = some value) :
    (manager.slot kind).map.lookup key = some value ∨ call.rules.Assigns kind key value := by
  by_cases installed : key ∈ installs call.hashing ok call.rules kind
  · exact Or.inr (apply_lookup_installed installed found)
  · refine Or.inl ?_
    obtain ⟨source, rules, hashing⟩ := call
    cases source with
    | static =>
        simp only [Call.apply, syncRules_lookup_kept _ _ _ _ _ _ installed] at found
        split_ifs at found
        exact found
    | firehol =>
        simp only [Call.apply, syncFireholRules_lookup_kept _ _ _ _ _ _ installed] at found
        split_ifs at found
        exact found

theorem Enforceable.apply {manager : MapManager} (enforceable : Enforceable manager) {call : Call}
    (wellFormed : WellFormed call.rules) (ok : Outcomes) : Enforceable (call.apply ok manager).1 := by
  constructor
  · intro kind key value found
    cases apply_lookup_cases found with
    | inl kept => exact enforceable.drops kind key value kept
    | inr brought => exact wellFormed.drops kind key value brought
  · intro kind key present
    obtain ⟨value, found⟩ := Option.isSome_iff_exists.mp (AList.lookup_isSome.mpr present)
    cases apply_lookup_cases found with
    | inl kept => exact enforceable.bounded kind key (lookup_eq_some_mem kept)
    | inr brought => exact wellFormed_bounded wellFormed brought

theorem step_manager (history : History) (attempt : Call × Outcomes) :
    (history.step attempt).manager = (attempt.1.apply attempt.2 history.manager).1 := by
  obtain ⟨⟨source, rules, hashing⟩, ok⟩ := attempt
  cases source <;> rfl

theorem enforceable_run {attempts : List (Call × Outcomes)}
    (wellFormed : ∀ attempt ∈ attempts, WellFormed attempt.1.rules) :
    Enforceable (run History.step .start attempts).manager := by
  induction attempts using List.reverseRecOn with
  | nil => exact enforceable_new
  | append_singleton attempts attempt ih =>
      rw [run_concat, step_manager]
      have before := ih fun earlier member => wellFormed earlier (List.mem_append_left _ member)
      exact before.apply (wellFormed attempt (by simp)) attempt.2

theorem currentRules_iff (history : History) (ip : IpAddr) :
    RulesCover history.latestStatic ip ∨ RulesCover history.latestFirehol ip ↔
      ∃ kind key, (key ∈ history.latestStatic.keys kind ∨ key ∈ history.latestFirehol.keys kind) ∧
        KeyCovers kind key ip := by
  simp only [rulesCover_iff, or_and_right, exists_or]

theorem run_drop_current {attempts : List (Call × Outcomes)}
    (wellFormed : ∀ attempt ∈ attempts, WellFormed attempt.1.rules) {ctx : XdpContext} {telemetry : Telemetry}
    (dropped : (firewall ctx (run History.step .start attempts).manager telemetry).1 = .drop) :
    FromSource (fun ip => RulesCover (run History.step .start attempts).latestStatic ip ∨
      RulesCover (run History.step .start attempts).latestFirehol ip) ctx.data := by
  rw [(enforceable_run wellFormed).drop_iff] at dropped
  refine dropped.mono fun ip covered => ?_
  obtain ⟨kind, key, present, inside⟩ := covered
  have listed := noStaleRule attempts kind ((mem_keySet _ _).mpr present)
  exact (currentRules_iff _ ip).mpr ⟨kind, key, Finset.mem_union.mp listed, inside⟩

theorem dropped_only_by_current_rules {attempts : List (Call × Outcomes)}
    (wellFormed : ∀ attempt ∈ attempts, WellFormed attempt.1.rules) (ctx : XdpContext) (telemetry : Telemetry) :
    let history := run History.step .start attempts
    let current := fun ip => RulesCover history.latestStatic ip ∨ RulesCover history.latestFirehol ip
    ((firewall ctx history.manager telemetry).1 = .drop → FromSource current ctx.data) ∧
      (NoRuleLost history → FromSource current ctx.data → (firewall ctx history.manager telemetry).1 = .drop) := by
  intro history current
  refine ⟨run_drop_current wellFormed, fun kept listed => ?_⟩
  rw [(enforceable_run wellFormed).drop_iff]
  refine listed.mono fun ip covered => ?_
  obtain ⟨kind, key, member, inside⟩ := (currentRules_iff history ip).mp covered
  exact ⟨kind, key, (mem_keySet _ _).mp (kept kind (Finset.mem_union.mpr member)), inside⟩

theorem oneAddress_wellFormed (addr : Octets 4) (ruleId : BitVec 32) : WellFormed (oneAddress addr ruleId) := by
  refine ⟨fun kind key value assigned => ?_, by simp [oneAddress, ParsedRuleSet.new],
    by simp [oneAddress, ParsedRuleSet.new]⟩
  cases kind with
  | ipv4Exact =>
      have stored : ((∅ : Store (Octets 4) RuleValue).insert addr (.drop ruleId)).lookup key = some value := by
        rw [AList.insert_empty]
        exact assigned
      rw [lookup_insert_iff] at stored
      rcases stored with ⟨absent, _⟩ | ⟨_, rfl⟩
      · simp at absent
      · rfl
  | ipv6Exact | ipv4Lpm | ipv6Lpm => simp [ParsedRuleSet.Assigns, oneAddress, ParsedRuleSet.new] at assigned

-- The static set is replaced after the feed, which lists 1.2.3.4, has been loaded.
noncomputable def hostAttempts : List (Call × Outcomes) :=
  [(⟨.static, oneAddress (ipv4Octets 192 0 2 1) staticRuleBase, .arbitrary⟩, allSucceed),
    (⟨.firehol, oneAddress (ipv4Octets 1 2 3 4) 1, .arbitrary⟩, allSucceed),
    (⟨.static, oneAddress (ipv4Octets 192 0 2 2) staticRuleBase, .arbitrary⟩, allSucceed)]

theorem hostAttempts_drop :
    (firewall ⟨hostFrame, 0, 0, true⟩ (run History.step .start hostAttempts).manager .zero).1 = .drop := by
  have wellFormed : ∀ attempt ∈ hostAttempts, WellFormed attempt.1.rules := by
    simp only [hostAttempts, List.forall_mem_cons]
    exact ⟨oneAddress_wellFormed _ _, oneAddress_wellFormed _ _, oneAddress_wellFormed _ _, by simp⟩
  have kept : NoRuleLost (run History.step .start hostAttempts) :=
    noRuleLost_static _ _ _ (succeed_complete _ _ (succeed_complete _ _ start_complete))
  have listed : RulesCover (oneAddress (ipv4Octets 1 2 3 4) 1)
      (.v4 (ipv4HeaderAt hostFrame (l3Offset 0)).srcAddr) := Or.inl (by decide)
  refine (dropped_only_by_current_rules wellFormed ⟨hostFrame, 0, 0, true⟩ .zero).2 kept
    ⟨0, Nat.zero_le _, Or.inl ⟨?_, ?_, Or.inr listed⟩⟩
  · exact ⟨⟨by simp, by decide⟩, by decide, by decide, by decide⟩
  · simp only [Bypassed]
    decide

end Synchronizations

section Feeds

theorem place_bounded {target : FireholIpTarget} (range : target.PrefixInRange) {kind : MapKind} {key : kind.Key}
    (placed : target.place = some ⟨kind, key⟩) : KeyBounded kind key := by
  unfold FireholIpTarget.place at placed
  cases target with
  | exactV4 octets =>
      dsimp only at placed
      split_ifs at placed
      cases Option.some.inj placed
      trivial
  | exactV6 octets =>
      cases Option.some.inj placed
      trivial
  | cidrV4 prefixLen octets | cidrV6 prefixLen octets =>
      dsimp only at placed
      split_ifs at placed
      · cases Option.some.inj placed
        trivial
      · cases Option.some.inj placed
        exact range

theorem prepareEntries_wellFormed {entries : List FireholEntry}
    (range : ∀ entry ∈ entries, entry.target.PrefixInRange) : WellFormed (prepareEntries entries).1 := by
  have prepared := Preparation.prepared_visits entries
  have bounded (kind : MapKind) (key : kind.Key) (listed : key ∈ (prepareEntries entries).1.keys kind) :
      KeyBounded kind key := by
    obtain ⟨entry, member, placed⟩ := (prepareEntries_keys entries kind key).mp listed
    exact place_bounded (range entry member) placed
  constructor
  · intro kind key value assigned
    have first : (entries.foldl Preparation.visit .start).rules.Assigns kind key value := by
      cases kind <;> exact assigned
    obtain ⟨_, _, rfl⟩ := (prepared.assigns kind key value).mp first
    rfl
  · intro entry member
    exact bounded .ipv4Lpm (entry.1, entry.2.1) ((ParsedRuleSet.mem_keys _ .ipv4Lpm _).mpr ⟨entry.2.2, member⟩)
  · intro entry member
    exact bounded .ipv6Lpm (entry.1, entry.2.1) ((ParsedRuleSet.mem_keys _ .ipv6Lpm _).mpr ⟨entry.2.2, member⟩)

end Feeds

end ReputationFirewall
