import ReputationFirewall.Maps.SyncRuns

set_option autoImplicit false

namespace ReputationFirewall.Maps

open BigEndian KeyedStore Runs

def ListedSurvive (before after : MapManager) (rules : ParsedRuleSet) : Prop :=
  ∀ kind, rules.keys kind ∩ keySet (before.slot kind).map ⊆ keySet (after.slot kind).map

def ReachedBeforeFailure (hashing : Hashing) (ok : Outcomes) (rules : ParsedRuleSet)
    (kind : MapKind) (key : kind.Key) : Prop :=
  ∃ position, ((rules.entries kind (hashing.entryOrder kind)).map Prod.fst)[position]? = some key ∧
    ∀ earlier, earlier ≤ position → ok kind earlier = true

theorem mem_installs_iff (hashing : Hashing) (ok : Outcomes) (rules : ParsedRuleSet)
    (kind : MapKind) (key : kind.Key) :
    key ∈ installs hashing ok rules kind ↔ ReachedBeforeFailure hashing ok rules kind key := by
  rw [installs, installedKeys, List.mem_toFinset, mem_accepted_iff]
  simp [ReachedBeforeFailure]

theorem syncRules_listedSurvive_iff (hashing : Hashing) (ok : Outcomes) (manager : MapManager)
    (rules : ParsedRuleSet) :
    ListedSurvive manager (syncRules hashing ok manager rules).1 rules ↔
      ∀ kind, ∀ key ∈ rules.keys kind, key ∈ (manager.slot kind).map →
        key ∉ (manager.slot kind).firehol → ReachedBeforeFailure hashing ok rules kind key := by
  simp only [ListedSurvive, ← mem_installs_iff]
  constructor
  · intro survive kind key listed present static
    have after := survive kind (Finset.mem_inter.mpr ⟨listed, (mem_keySet _ key).mpr present⟩)
    rw [mem_keySet, mem_syncRules] at after
    exact after.resolve_right fun kept => static kept.2
  · intro reached kind key member
    rw [Finset.mem_inter, mem_keySet] at member
    rw [mem_keySet, mem_syncRules]
    by_cases owned : key ∈ (manager.slot kind).firehol
    · exact Or.inr ⟨member.2, owned⟩
    · exact Or.inl (reached kind key member.1 member.2 owned)

theorem syncFireholRules_listedSurvive_iff (hashing : Hashing) (ok : Outcomes)
    (manager : MapManager) (rules : ParsedRuleSet) :
    ListedSurvive manager (syncFireholRules hashing ok manager rules).1 rules ↔
      ∀ kind, ∀ key ∈ rules.keys kind, key ∈ (manager.slot kind).map →
        key ∈ (manager.slot kind).firehol → ReachedBeforeFailure hashing ok rules kind key := by
  simp only [ListedSurvive, ← mem_installs_iff]
  constructor
  · intro survive kind key listed present owned
    have after := survive kind (Finset.mem_inter.mpr ⟨listed, (mem_keySet _ key).mpr present⟩)
    rw [mem_keySet, mem_syncFireholRules] at after
    exact after.resolve_right fun kept => kept.2 owned
  · intro reached kind key member
    rw [Finset.mem_inter, mem_keySet] at member
    rw [mem_keySet, mem_syncFireholRules]
    by_cases owned : key ∈ (manager.slot kind).firehol
    · exact Or.inl (reached kind key member.1 member.2 owned)
    · exact Or.inr ⟨member.2, owned⟩

theorem listedSurvive_iff (hashing : Hashing) (ok : Outcomes) (manager : MapManager)
    (rules : ParsedRuleSet) :
    (ListedSurvive manager (syncRules hashing ok manager rules).1 rules ↔
      ∀ kind, ∀ key ∈ rules.keys kind, key ∈ (manager.slot kind).map →
        key ∉ (manager.slot kind).firehol → ReachedBeforeFailure hashing ok rules kind key) ∧
    (ListedSurvive manager (syncFireholRules hashing ok manager rules).1 rules ↔
      ∀ kind, ∀ key ∈ rules.keys kind, key ∈ (manager.slot kind).map →
        key ∈ (manager.slot kind).firehol → ReachedBeforeFailure hashing ok rules kind key) :=
  ⟨syncRules_listedSurvive_iff hashing ok manager rules,
    syncFireholRules_listedSurvive_iff hashing ok manager rules⟩

def networks (prefixes : List (Nat × Octets 4)) : ParsedRuleSet :=
  { ParsedRuleSet.new with
    lpmV4 := prefixes.map fun (prefixLen, addr) => (prefixLen, addr, RuleValue.drop staticRuleBase) }

def firstLpmInsertFails : Outcomes := fun kind index => !(kind == .ipv4Lpm && index == 0)

theorem listedNetwork_removed :
    ¬ ∃ hashing : Hashing,
      let installed := (run History.step History.start
        [(⟨.static, networks [(24, #v[192, 0, 2, 0])], hashing⟩, allSucceed)]).manager
      let rules := networks [(24, #v[198, 51, 100, 0]), (24, #v[192, 0, 2, 0])]
      ListedSurvive installed (syncRules hashing firstLpmInsertFails installed rules).1 rules := by
  rintro ⟨hashing, survive⟩
  have listed : (24, #v[192, 0, 2, 0]) ∈
      (networks [(24, #v[198, 51, 100, 0]), (24, #v[192, 0, 2, 0])]).keys .ipv4Lpm := by decide
  have installed : (24, #v[192, 0, 2, 0]) ∈ (History.start.step
      (⟨.static, networks [(24, #v[192, 0, 2, 0])], hashing⟩, allSucceed)).map .ipv4Lpm :=
    (mem_step_static ..).mpr (Or.inl ((installs_allSucceed ..).mpr (by decide)))
  have static : (24, #v[192, 0, 2, 0]) ∉ (History.start.step
      (⟨.static, networks [(24, #v[192, 0, 2, 0])], hashing⟩, allSucceed)).owned .ipv4Lpm :=
    fun owned => start_owned .ipv4Lpm _ ((step_static_owned ..) ▸ owned)
  obtain ⟨position, _, succeeded⟩ := (syncRules_listedSurvive_iff ..).mp survive .ipv4Lpm _
    listed installed static
  exact absurd (succeeded 0 (Nat.zero_le _)) (by decide)

def MapKind.all : List MapKind := [.ipv4Exact, .ipv6Exact, .ipv4Lpm, .ipv6Lpm]

def removedCount (before after : MapManager) : Nat :=
  (MapKind.all.map fun kind =>
    (keySet (before.slot kind).map \ keySet (after.slot kind).map).card).sum

theorem synchronize_removed (sync : SlotSynchronization) (hashing : Hashing) (ok : Outcomes)
    (manager : MapManager) (rules : ParsedRuleSet)
    (counts : ∀ kind, (sync (hashing.staleOrder kind) (ok kind) (manager.slot kind)
      (rules.entries kind (hashing.entryOrder kind))).removed =
        (keySet (manager.slot kind).map \
          keySet ((synchronize sync hashing ok manager rules).1.slot kind).map).card) :
    (synchronize sync hashing ok manager rules).2.entriesRemoved =
      removedCount manager (synchronize sync hashing ok manager rules).1 := by
  have total : removedCount manager (synchronize sync hashing ok manager rules).1 =
      (MapKind.all.map fun kind => (sync (hashing.staleOrder kind) (ok kind) (manager.slot kind)
        (rules.entries kind (hashing.entryOrder kind))).removed).sum := by
    simp only [removedCount, ← counts]
  rw [total]
  simp [MapKind.all, synchronize, Nat.add_assoc]

theorem syncRules_removed (hashing : Hashing) (ok : Outcomes) (manager : MapManager) (rules : ParsedRuleSet) :
    (syncRules hashing ok manager rules).2.entriesRemoved =
      removedCount manager (syncRules hashing ok manager rules).1 := by
  apply synchronize_removed syncStatic
  intro kind
  rw [synchronize_slot]
  exact syncStatic_removed _ _ _ _

theorem syncFireholRules_removed (hashing : Hashing) (ok : Outcomes) {manager : MapManager} (rules : ParsedRuleSet)
    (present : ∀ kind, ∀ key ∈ (manager.slot kind).firehol, key ∈ (manager.slot kind).map) :
    (syncFireholRules hashing ok manager rules).2.entriesRemoved =
      removedCount manager (syncFireholRules hashing ok manager rules).1 := by
  apply synchronize_removed syncFirehol
  intro kind
  rw [synchronize_slot]
  exact syncFirehol_removed _ _ _ _ (present kind)

theorem sync_frame (attempts : List (Call × Outcomes)) (hashing : Hashing) (ok : Outcomes)
    (rules : ParsedRuleSet) :
    let manager := (run History.step History.start attempts).manager
    let static := syncRules hashing ok manager rules
    let firehol := syncFireholRules hashing ok manager rules
    (∀ kind key, key ∈ (manager.slot kind).firehol → key ∉ rules.keys kind →
        (static.1.slot kind).map.lookup key = (manager.slot kind).map.lookup key) ∧
      (∀ kind, (static.1.slot kind).firehol = (manager.slot kind).firehol) ∧
      (∀ kind key, key ∉ rules.keys kind ∪ (manager.slot kind).firehol →
        (firehol.1.slot kind).map.lookup key = (manager.slot kind).map.lookup key) ∧
      static.2.entriesRemoved = removedCount manager static.1 ∧
      firehol.2.entriesRemoved = removedCount manager firehol.1 := by
  intro manager static firehol
  have accounted := run_accounted attempts
  have skipped (kind : MapKind) (key : kind.Key) (absent : key ∉ rules.keys kind) :
      key ∉ installs hashing ok rules kind :=
    fun installed => absent (installs_subset hashing ok rules kind key installed)
  refine ⟨?_, syncRules_firehol hashing ok manager rules, ?_, syncRules_removed hashing ok manager rules,
    syncFireholRules_removed hashing ok rules accounted.present⟩
  · intro kind key owned absent
    have kept := syncRules_lookup_kept hashing ok manager rules kind key (skipped kind key absent)
    rwa [if_pos owned] at kept
  · intro kind key outside
    rw [Finset.mem_union, not_or] at outside
    have kept := syncFireholRules_lookup_kept hashing ok manager rules kind key
      (skipped kind key outside.1)
    rwa [if_neg outside.2] at kept

end ReputationFirewall.Maps
