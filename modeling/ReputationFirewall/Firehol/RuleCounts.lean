import ReputationFirewall.Firehol.SyncManager

set_option autoImplicit false

namespace ReputationFirewall.Firehol

open BigEndian KeyedStore NetAddr Rules

def FireholIpTarget.place : FireholIpTarget → Option ((kind : MapKind) × kind.Key)
  | .exactV4 octets => if isInfrastructureAllowlistedV4 octets then none else some ⟨.ipv4Exact, octets⟩
  | .exactV6 octets => some ⟨.ipv6Exact, octets⟩
  | .cidrV4 prefixLen octets =>
      if prefixLen = 32 then
        if isInfrastructureAllowlistedV4 octets then none else some ⟨.ipv4Exact, octets⟩
      else if isInfrastructureCidrAllowlistedV4 prefixLen octets then none
      else some ⟨.ipv4Lpm, (prefixLen, octets)⟩
  | .cidrV6 prefixLen octets =>
      if prefixLen = 128 then some ⟨.ipv6Exact, octets⟩ else some ⟨.ipv6Lpm, (prefixLen, octets)⟩

def FireholSyncReport.countOf (report : FireholSyncReport) : MapKind → Nat
  | .ipv4Exact => report.exactV4Count
  | .ipv6Exact => report.exactV6Count
  | .ipv4Lpm => report.lpmV4Count
  | .ipv6Lpm => report.lpmV6Count

namespace Preparation

structure Counted (state : Preparation) : Prop where
  seenV4 : state.seenV4Lpm = state.rules.keys .ipv4Lpm
  seenV6 : state.seenV6Lpm = state.rules.keys .ipv6Lpm
  counts : ∀ kind, state.report.countOf kind = (state.rules.keys kind).card

def Places (state : Preparation) (place : Option ((kind : MapKind) × kind.Key)) (next : Preparation) : Prop :=
  next.Counted ∧ ∀ kind key, key ∈ next.rules.keys kind ↔ key ∈ state.rules.keys kind ∨ place = some ⟨kind, key⟩

def add (state : Preparation) : (kind : MapKind) → kind.Key → RuleValue → Preparation
  | .ipv4Exact, octets, value => { state with
      rules := { state.rules with exactV4 := state.rules.exactV4.insert octets value }
      report := { state.report with exactV4Count := state.report.exactV4Count + 1 } }
  | .ipv6Exact, octets, value => { state with
      rules := { state.rules with exactV6 := state.rules.exactV6.insert octets value }
      report := { state.report with exactV6Count := state.report.exactV6Count + 1 } }
  | .ipv4Lpm, (prefixLen, octets), value => { state with
      rules := { state.rules with lpmV4 := state.rules.lpmV4 ++ [(prefixLen, octets, value)] }
      report := { state.report with lpmV4Count := state.report.lpmV4Count + 1 }
      seenV4Lpm := insert (prefixLen, octets) state.seenV4Lpm }
  | .ipv6Lpm, (prefixLen, octets), value => { state with
      rules := { state.rules with lpmV6 := state.rules.lpmV6 ++ [(prefixLen, octets, value)] }
      report := { state.report with lpmV6Count := state.report.lpmV6Count + 1 }
      seenV6Lpm := insert (prefixLen, octets) state.seenV6Lpm }

inductive Fills (state : Preparation) (value : RuleValue) : Option ((kind : MapKind) × kind.Key) → Preparation → Prop where
  | skipped : Fills state value none state.skipAllowlisted
  | repeated {kind : MapKind} {key : kind.Key} (present : key ∈ state.rules.keys kind) :
      Fills state value (some ⟨kind, key⟩) state.skipDuplicate
  | added {kind : MapKind} {key : kind.Key} (fresh : key ∉ state.rules.keys kind) :
      Fills state value (some ⟨kind, key⟩) (state.add kind key value)

section Visits

variable {state : Preparation} (value : RuleValue)

theorem fills_addExactV4 (octets : Octets 4) :
    state.Fills value (if isInfrastructureAllowlistedV4 octets then none else some ⟨.ipv4Exact, octets⟩)
      (state.addExactV4 octets value) := by
  unfold addExactV4
  split_ifs with allowed present
  · exact .skipped
  · exact .repeated ((mem_keySet _ _).mpr present)
  · exact .added (mt (mem_keySet _ _).mp present)

theorem fills_addExactV6 (octets : Octets 16) :
    state.Fills value (some ⟨.ipv6Exact, octets⟩) (state.addExactV6 octets value) := by
  unfold addExactV6
  split_ifs with present
  · exact .repeated ((mem_keySet _ _).mpr present)
  · exact .added (mt (mem_keySet _ _).mp present)

theorem fills_addLpmV4 (seenV4 : state.seenV4Lpm = state.rules.keys .ipv4Lpm) (prefixLen : Nat) (octets : Octets 4) :
    state.Fills value
      (if isInfrastructureCidrAllowlistedV4 prefixLen octets then none else some ⟨.ipv4Lpm, (prefixLen, octets)⟩)
      (state.addLpmV4 prefixLen octets value) := by
  unfold addLpmV4
  split_ifs with allowed seen
  · exact .skipped
  · exact .repeated (seenV4 ▸ seen)
  · exact .added (seenV4 ▸ seen)

theorem fills_addLpmV6 (seenV6 : state.seenV6Lpm = state.rules.keys .ipv6Lpm) (prefixLen : Nat) (octets : Octets 16) :
    state.Fills value (some ⟨.ipv6Lpm, (prefixLen, octets)⟩) (state.addLpmV6 prefixLen octets value) := by
  unfold addLpmV6
  split_ifs with seen
  · exact .repeated (seenV6 ▸ seen)
  · exact .added (seenV6 ▸ seen)

theorem visit_fills (counted : state.Counted) (entry : FireholEntry) :
    state.Fills (.drop entry.ruleId) entry.target.place (state.visit entry) := by
  unfold visit FireholIpTarget.place
  cases entry.target with
  | exactV4 octets => exact fills_addExactV4 _ octets
  | exactV6 octets => exact fills_addExactV6 _ octets
  | cidrV4 prefixLen octets =>
      by_cases host : prefixLen = 32
      · simp only [host, if_true]
        exact fills_addExactV4 _ octets
      · simp only [host, if_false]
        exact fills_addLpmV4 _ counted.seenV4 prefixLen octets
  | cidrV6 prefixLen octets =>
      dsimp only
      split_ifs
      · exact fills_addExactV6 _ octets
      · exact fills_addLpmV6 _ counted.seenV6 prefixLen octets

end Visits

section Adding

variable {state : Preparation} {value : RuleValue} {kind : MapKind} {key : kind.Key}

theorem assigns_add (fresh : key ∉ state.rules.keys kind) (other : MapKind) (otherKey : other.Key) (held : RuleValue) :
    (state.add kind key value).rules.Assigns other otherKey held ↔
      state.rules.Assigns other otherKey held ∨
        (⟨kind, key⟩ : (kind : MapKind) × kind.Key) = ⟨other, otherKey⟩ ∧ held = value := by
  by_cases same : kind = other
  · subst same
    rw [Sigma.mk.injEq, heq_eq_eq, eq_self, true_and]
    cases kind with
    | ipv4Exact => exact lookup_insert_fresh (mt (mem_keySet _ _).mpr fresh)
    | ipv6Exact => exact lookup_insert_fresh (mt (mem_keySet _ _).mpr fresh)
    | ipv4Lpm => simp [add, ParsedRuleSet.Assigns, Prod.ext_iff, and_assoc, eq_comm]
    | ipv6Lpm => simp [add, ParsedRuleSet.Assigns, Prod.ext_iff, and_assoc, eq_comm]
  · cases kind <;> cases other <;> simp [add, ParsedRuleSet.Assigns] at same ⊢

theorem keys_add (fresh : key ∉ state.rules.keys kind) (other : MapKind) (otherKey : other.Key) :
    otherKey ∈ (state.add kind key value).rules.keys other ↔
      otherKey ∈ state.rules.keys other ∨ (⟨kind, key⟩ : (kind : MapKind) × kind.Key) = ⟨other, otherKey⟩ := by
  simp only [ParsedRuleSet.mem_keys, assigns_add fresh, exists_or, exists_and_left, exists_eq, and_true]

theorem counted_add (counted : state.Counted) (fresh : key ∉ state.rules.keys kind) :
    (state.add kind key value).Counted := by
  constructor
  case seenV4 =>
    ext otherKey
    rw [keys_add fresh]
    cases kind <;> simp [add, counted.seenV4, or_comm, eq_comm]
  case seenV6 =>
    ext otherKey
    rw [keys_add fresh]
    cases kind <;> simp [add, counted.seenV6, or_comm, eq_comm]
  case counts =>
    intro other
    have counts : (state.add kind key value).report.countOf other =
        state.report.countOf other + if kind = other then 1 else 0 := by
      cases kind <;> cases other <;> rfl
    rw [counts, counted.counts other]
    by_cases same : kind = other
    · subst same
      have grown : (state.add kind key value).rules.keys kind = insert key (state.rules.keys kind) := by
        ext otherKey
        rw [keys_add fresh, Finset.mem_insert]
        simp [or_comm, eq_comm]
      rw [grown, Finset.card_insert_of_notMem fresh, if_pos rfl]
    · have kept : (state.add kind key value).rules.keys other = state.rules.keys other := by
        ext otherKey
        rw [keys_add fresh]
        simp [same]
      rw [kept, if_neg same, Nat.add_zero]

end Adding

theorem Fills.places {state next : Preparation} {value : RuleValue} {place : Option ((kind : MapKind) × kind.Key)}
    (fills : state.Fills value place next) (counted : state.Counted) : state.Places place next := by
  cases fills with
  | skipped =>
      exact ⟨⟨counted.seenV4, counted.seenV6, counted.counts⟩, fun _ _ => by simp [skipAllowlisted]⟩
  | @repeated kind key present =>
      refine ⟨⟨counted.seenV4, counted.seenV6, counted.counts⟩, fun other otherKey => ⟨Or.inl, ?_⟩⟩
      rintro (before | same)
      · exact before
      · cases Option.some.inj same
        exact present
  | added fresh =>
      refine ⟨counted_add counted fresh, fun other otherKey => ?_⟩
      rw [keys_add fresh, Option.some.injEq]

theorem places_visits (entries : List FireholEntry) :
    (entries.foldl visit .start).Counted ∧
      ∀ kind key, key ∈ (entries.foldl visit .start).rules.keys kind ↔
        ∃ entry ∈ entries, entry.target.place = some ⟨kind, key⟩ := by
  induction entries using List.reverseRecOn with
  | nil =>
      refine ⟨⟨rfl, rfl, fun kind => ?_⟩, fun kind key => ?_⟩
      · cases kind <;> rfl
      · cases kind <;> simp [start, ParsedRuleSet.new, ParsedRuleSet.keys]
  | append_singleton entries entry ih =>
      have placed := (visit_fills ih.1 entry).places ih.1
      rw [List.foldl_append, List.foldl_cons, List.foldl_nil]
      refine ⟨placed.1, fun kind key => ?_⟩
      rw [placed.2, ih.2]
      simp [or_and_right, exists_or]

end Preparation

section Firsts

def firstPlaced (entries : List FireholEntry) (kind : MapKind) (key : kind.Key) : Option FireholEntry :=
  entries.find? fun entry => entry.target.place = some ⟨kind, key⟩

theorem firstPlaced_concat (entries : List FireholEntry) (entry : FireholEntry) (kind : MapKind) (key : kind.Key) :
    firstPlaced (entries ++ [entry]) kind key = (firstPlaced entries kind key).or
      (if entry.target.place = some ⟨kind, key⟩ then some entry else none) := by
  simp only [firstPlaced, List.find?_append, List.find?_singleton, decide_eq_true_eq]

theorem firstPlaced_concat_other {entries : List FireholEntry} {entry : FireholEntry} {kind : MapKind} {key : kind.Key}
    (different : entry.target.place ≠ some ⟨kind, key⟩) :
    firstPlaced (entries ++ [entry]) kind key = firstPlaced entries kind key := by
  rw [firstPlaced_concat, if_neg different, Option.or_none]

theorem place_eq_none_iff (target : FireholIpTarget) : target.place = none ↔ target.isInfrastructure = true := by
  unfold FireholIpTarget.place FireholIpTarget.isInfrastructure
  cases target with
  | exactV4 octets => simp
  | exactV6 octets => simp
  | cidrV4 prefixLen octets =>
      dsimp only
      split_ifs <;> simp_all
  | cidrV6 prefixLen octets =>
      dsimp only
      split_ifs <;> simp

namespace Preparation

structure Prepared (entries : List FireholEntry) (state : Preparation) : Prop where
  counted : state.Counted
  distinct : ∀ kind, (state.rules.listedKeys kind).Nodup
  assigns : ∀ kind key value, state.rules.Assigns kind key value ↔
    ∃ first, firstPlaced entries kind key = some first ∧ value = .drop first.ruleId
  skipped : state.report.allowlistedSkipped = entries.countP fun entry => entry.target.isInfrastructure
  total : state.report.totalRules + state.report.duplicatesDeduped + state.report.allowlistedSkipped = entries.length

variable {entries : List FireholEntry} {state : Preparation}

theorem Prepared.mem_keys (prepared : Prepared entries state) (kind : MapKind) (key : kind.Key) :
    key ∈ state.rules.keys kind ↔ (firstPlaced entries kind key).isSome := by
  rw [ParsedRuleSet.mem_keys, Option.isSome_iff_exists]
  simp only [prepared.assigns]
  exact ⟨fun ⟨_, first, found, _⟩ => ⟨first, found⟩, fun ⟨first, found⟩ => ⟨_, first, found, rfl⟩⟩

theorem listedKeys_add (distinct : ∀ kind, (state.rules.listedKeys kind).Nodup) {kind : MapKind} {key : kind.Key}
    (fresh : key ∉ state.rules.keys kind) (value : RuleValue) (other : MapKind) :
    ((state.add kind key value).rules.listedKeys other).Nodup := by
  rw [← ParsedRuleSet.listedKeys_toFinset, List.mem_toFinset] at fresh
  cases other with
  | ipv4Exact => exact AList.keys_nodup _
  | ipv6Exact => exact AList.keys_nodup _
  | ipv4Lpm =>
      cases kind with
      | ipv4Lpm =>
          have grown := (distinct .ipv4Lpm).concat fresh
          rw [List.concat_eq_append] at grown
          simpa [add, ParsedRuleSet.listedKeys] using grown
      | _ => exact distinct .ipv4Lpm
  | ipv6Lpm =>
      cases kind with
      | ipv6Lpm =>
          have grown := (distinct .ipv6Lpm).concat fresh
          rw [List.concat_eq_append] at grown
          simpa [add, ParsedRuleSet.listedKeys] using grown
      | _ => exact distinct .ipv6Lpm

theorem totalRules_add (state : Preparation) (kind : MapKind) (key : kind.Key) (value : RuleValue) :
    (state.add kind key value).report.totalRules = state.report.totalRules + 1 ∧
    (state.add kind key value).report.duplicatesDeduped = state.report.duplicatesDeduped ∧
    (state.add kind key value).report.allowlistedSkipped = state.report.allowlistedSkipped := by
  cases kind <;> refine ⟨?_, rfl, rfl⟩ <;> simp only [add, FireholSyncReport.totalRules] <;> omega

theorem Prepared.visit (prepared : Prepared entries state) (entry : FireholEntry) :
    Prepared (entries ++ [entry]) (state.visit entry) := by
  have fills := visit_fills prepared.counted entry
  have placed := fills.places prepared.counted
  have infrastructure := place_eq_none_iff entry.target
  generalize state.visit entry = next at fills placed
  generalize place : entry.target.place = slot at fills
  have total := prepared.total
  cases fills with
  | skipped =>
      rw [place, eq_self, true_iff] at infrastructure
      refine ⟨placed.1, prepared.distinct, fun kind key value => ?_, ?_, ?_⟩
      · rw [firstPlaced_concat_other (by simp [place])]
        exact prepared.assigns kind key value
      · rw [List.countP_append, ← prepared.skipped, List.countP_singleton, if_pos infrastructure]
        rfl
      · rw [List.length_append, ← total]
        rfl
  | @repeated kind key present =>
      rw [place, eq_false (Option.some_ne_none _), false_iff] at infrastructure
      refine ⟨placed.1, prepared.distinct, fun other otherKey value => ?_, ?_, ?_⟩
      · by_cases same : entry.target.place = some ⟨other, otherKey⟩
        · cases Option.some.inj (place.symm.trans same)
          rw [firstPlaced_concat, Option.or_of_isSome ((prepared.mem_keys kind key).mp present)]
          exact prepared.assigns kind key value
        · rw [firstPlaced_concat_other same]
          exact prepared.assigns other otherKey value
      · rw [List.countP_append, ← prepared.skipped, List.countP_singleton, if_neg infrastructure]
        rfl
      · rw [List.length_append, List.length_singleton, ← total]
        simp only [skipDuplicate, FireholSyncReport.totalRules]
        omega
  | @added kind key fresh =>
      rw [place, eq_false (Option.some_ne_none _), false_iff] at infrastructure
      obtain ⟨rules, duplicates, skipped⟩ := totalRules_add state kind key (.drop entry.ruleId)
      refine ⟨placed.1, listedKeys_add prepared.distinct fresh _, fun other otherKey value => ?_, ?_, ?_⟩
      · rw [assigns_add fresh]
        by_cases same : entry.target.place = some ⟨other, otherKey⟩
        · cases Option.some.inj (place.symm.trans same)
          have none := Option.not_isSome_iff_eq_none.mp (mt (prepared.mem_keys kind key).mpr fresh)
          rw [firstPlaced_concat, prepared.assigns, none, if_pos same]
          simp
        · rw [firstPlaced_concat_other same, prepared.assigns]
          rw [place, Option.some.injEq] at same
          simp [same]
      · rw [List.countP_append, ← prepared.skipped, List.countP_singleton, if_neg infrastructure]
        exact skipped
      · rw [List.length_append, List.length_singleton, ← total, rules, duplicates, skipped]
        omega

theorem prepared_visits (entries : List FireholEntry) : Prepared entries (entries.foldl Preparation.visit .start) := by
  induction entries using List.reverseRecOn with
  | nil =>
      refine ⟨(places_visits []).1, fun kind => ?_, fun kind key value => ?_, rfl, rfl⟩
      · cases kind <;> exact List.nodup_nil
      · cases kind <;> simp [start, ParsedRuleSet.new, ParsedRuleSet.Assigns, firstPlaced]
  | append_singleton entries entry ih =>
      rw [List.foldl_append]
      exact ih.visit entry

end Preparation

end Firsts

section Prepared

variable (entries : List FireholEntry) (kind : MapKind)

theorem prepareEntries_keys (key : kind.Key) :
    key ∈ (prepareEntries entries).1.keys kind ↔ ∃ entry ∈ entries, entry.target.place = some ⟨kind, key⟩ := by
  rw [← (Preparation.places_visits entries).2]
  cases kind <;> rfl

theorem prepareEntries_countOf :
    (prepareEntries entries).2.countOf kind = ((prepareEntries entries).1.keys kind).card := by
  refine ((Preparation.places_visits entries).1.counts kind).trans ?_
  cases kind <;> rfl

end Prepared

section Results

def KeyCovers : (kind : MapKind) → kind.Key → IpAddr → Prop
  | .ipv4Exact, addr, .v4 ip => ip = addr
  | .ipv6Exact, addr, .v6 ip => ip = addr
  | .ipv4Lpm, (prefixLen, addr), .v4 ip => SamePrefix prefixLen addr ip
  | .ipv6Lpm, (prefixLen, addr), .v6 ip => SamePrefix prefixLen addr ip
  | _, _, _ => False

theorem rulesCover_iff (rules : ParsedRuleSet) (ip : IpAddr) :
    RulesCover rules ip ↔ ∃ kind, ∃ key ∈ rules.keys kind, KeyCovers kind key ip := by
  have kinds (property : MapKind → Prop) : (∃ kind, property kind) ↔
      property .ipv4Exact ∨ property .ipv6Exact ∨ property .ipv4Lpm ∨ property .ipv6Lpm := by
    constructor
    · rintro ⟨kind, holds⟩
      cases kind <;> simp [holds]
    · rintro (holds | holds | holds | holds) <;> exact ⟨_, holds⟩
  cases ip <;> simp [kinds, RulesCover, KeyCovers, ParsedRuleSet.keys]

theorem place_covers {target : FireholIpTarget} {kind : MapKind} {key : kind.Key}
    (placed : target.place = some ⟨kind, key⟩) (ip : IpAddr) : KeyCovers kind key ip ↔ target.Covers ip := by
  unfold FireholIpTarget.place at placed
  cases target with
  | exactV4 octets =>
      dsimp only at placed
      split_ifs at placed
      cases Option.some.inj placed
      cases ip <;> rfl
  | exactV6 octets =>
      cases Option.some.inj placed
      cases ip <;> rfl
  | cidrV4 prefixLen octets =>
      dsimp only at placed
      split_ifs at placed with host
      · cases Option.some.inj placed
        cases ip <;> simp [KeyCovers, FireholIpTarget.Covers, host, samePrefix_full, eq_comm]
      · cases Option.some.inj placed
        cases ip <;> rfl
  | cidrV6 prefixLen octets =>
      dsimp only at placed
      split_ifs at placed with host
      · cases Option.some.inj placed
        cases ip <;> simp [KeyCovers, FireholIpTarget.Covers, host, samePrefix_full, eq_comm]
      · cases Option.some.inj placed
        cases ip <;> rfl

theorem prepareEntries_covers (entries : List FireholEntry) (ip : IpAddr) :
    RulesCover (prepareEntries entries).1 ip ↔
      ∃ entry ∈ entries, entry.target.isInfrastructure = false ∧ entry.target.Covers ip := by
  simp only [rulesCover_iff, prepareEntries_keys]
  constructor
  · rintro ⟨kind, key, ⟨entry, member, placed⟩, covered⟩
    refine ⟨entry, member, ?_, (place_covers placed ip).mp covered⟩
    rw [← Bool.not_eq_true, ← place_eq_none_iff, placed]
    exact Option.some_ne_none _
  · rintro ⟨entry, member, rule, covered⟩
    rw [← Bool.not_eq_true, ← place_eq_none_iff] at rule
    obtain ⟨⟨kind, key⟩, placed⟩ := Option.ne_none_iff_exists'.mp rule
    exact ⟨kind, key, ⟨entry, member, placed⟩, (place_covers placed ip).mpr covered⟩

theorem tryPrepareRules_exact {dataset : FireholDataSet} {entries : List FireholEntry}
    (visited : dataset.visitEntries = .ok entries) :
    ∃ rules report, tryPrepareRules dataset = .ok (rules, report) ∧
      (∀ kind, (rules.listedKeys kind).Nodup) ∧
      report.exactV4Count + report.exactV6Count + report.lpmV4Count + report.lpmV6Count +
        report.duplicatesDeduped + report.allowlistedSkipped = entries.length ∧
      (∀ kind, report.countOf kind = (rules.listedKeys kind).length) ∧
      report.allowlistedSkipped = (entries.countP fun entry => entry.target.isInfrastructure) ∧
      (∀ kind key value, rules.Assigns kind key value ↔
        ∃ first, firstPlaced entries kind key = some first ∧ value = .drop first.ruleId) ∧
      ∀ ip, RulesCover rules ip ↔
        ∃ entry ∈ entries, entry.target.isInfrastructure = false ∧ entry.target.Covers ip := by
  have prepared := Preparation.prepared_visits entries
  have distinct (kind : MapKind) : ((prepareEntries entries).1.listedKeys kind).Nodup := by
    cases kind <;> exact prepared.distinct _
  refine ⟨(prepareEntries entries).1, (prepareEntries entries).2, ?_, distinct, prepared.total, fun kind => ?_,
    prepared.skipped, fun kind key value => ?_, prepareEntries_covers entries⟩
  · rw [tryPrepareRules, visited]
  · rw [prepareEntries_countOf, ← ParsedRuleSet.listedKeys_toFinset, List.toFinset_card_of_nodup (distinct kind)]
  · refine Iff.trans ?_ (prepared.assigns kind key value)
    cases kind <;> rfl

def repeatedAddress : FireholDataSet where
  entries := [⟨.exactV4 (ipv4Octets 192 0 2 1), 1, 1, 1⟩, ⟨.cidrV4 32 (ipv4Octets 192 0 2 1), 2, 1, 2⟩,
    ⟨.cidrV4 24 (ipv4Octets 198 51 100 0), 3, 1, 3⟩, ⟨.exactV4 (ipv4Octets 127 0 0 1), 4, 1, 4⟩]
  storedEntries := none

theorem repeatedAddress_prepared :
    ∃ rules report, tryPrepareRules repeatedAddress = .ok (rules, report) ∧
      report.exactV4Count + report.exactV6Count + report.lpmV4Count + report.lpmV6Count +
        report.duplicatesDeduped + report.allowlistedSkipped = 4 ∧
      report.allowlistedSkipped = 1 ∧
      rules.Assigns .ipv4Exact (ipv4Octets 192 0 2 1) (.drop 1) := by
  have visited : repeatedAddress.visitEntries = .ok repeatedAddress.entries := rfl
  obtain ⟨rules, report, prepared, _, total, _, skipped, assigns, _⟩ := tryPrepareRules_exact visited
  refine ⟨rules, report, prepared, total, skipped.trans (by decide +kernel), ?_⟩
  exact (assigns .ipv4Exact _ _).mpr ⟨⟨.exactV4 (ipv4Octets 192 0 2 1), 1, 1, 1⟩, by decide +kernel, rfl⟩

end Results

end ReputationFirewall.Firehol
