import ReputationFirewall.Maps.InsertFailures

set_option autoImplicit false

namespace ReputationFirewall.Maps

open BigEndian KeyedStore Runs

variable {K V : Type} [DecidableEq K]

def CapacityBound (capacity : Nat) (map : Store K V) (entries : List (K × V))
    (ok : Nat → Bool) : Prop :=
  ∀ index entry, entries[index]? = some entry → (∀ earlier, earlier < index → ok earlier = true) →
    ok index = false → entry.1 ∉ insertAll map (entries.take index) ∧
      capacity ≤ (keySet (insertAll map (entries.take index))).card

theorem keySet_insertAll (map : Store K V) (entries : List (K × V)) :
    keySet (insertAll map entries) = keySet map ∪ (entries.map Prod.fst).toFinset := by
  ext key
  simp only [mem_keySet, mem_insertAll, Finset.mem_union, List.mem_toFinset]
  tauto

theorem capacity_succeeds (capacity : Nat) (map : Store K V) (entries : List (K × V))
    (ok : Nat → Bool) (bound : CapacityBound capacity map entries ok)
    (fits : (keySet map ∪ (entries.map Prod.fst).toFinset).card ≤ capacity)
    (index : Nat) (inside : index < entries.length) : ok index = true := by
  induction index using Nat.strong_induction_on with
  | _ index ih =>
      by_contra failed
      obtain ⟨new, full⟩ := bound index entries[index] (by simp)
        (fun earlier before => ih earlier before (by omega)) (by simpa using failed)
      -- The map and the new key are still within what fits.
      have within : insert entries[index].1 (keySet (insertAll map (entries.take index))) ⊆
          keySet map ∪ (entries.map Prod.fst).toFinset := by
        rw [keySet_insertAll]
        intro key member
        simp only [Finset.mem_insert, Finset.mem_union, mem_keySet, List.mem_toFinset] at member ⊢
        rcases member with rfl | present | taken
        · exact Or.inr (List.mem_map.mpr ⟨_, List.getElem_mem inside, rfl⟩)
        · exact Or.inl present
        · obtain ⟨entry, member, rfl⟩ := List.mem_map.mp taken
          exact Or.inr (List.mem_map.mpr ⟨entry, List.mem_of_mem_take member, rfl⟩)
      have size := Finset.card_le_card within
      rw [Finset.card_insert_of_notMem (by simpa using new)] at size
      omega

def refuseWhenFull (capacity : Nat) (map : Store K V) (entries : List (K × V)) (index : Nat) : Bool :=
  match entries[index]? with
  | none => true
  | some entry => decide (entry.1 ∈ insertAll map (entries.take index)) ||
      decide ((keySet (insertAll map (entries.take index))).card < capacity)

theorem refuseWhenFull_bound (capacity : Nat) (map : Store K V) (entries : List (K × V)) :
    CapacityBound capacity map entries (refuseWhenFull capacity map entries) := by
  intro index entry found _ refused
  simpa [refuseWhenFull, found] using refused

theorem refuseWhenFull_card (capacity : Nat) (map : Store K V) (entries : List (K × V))
    (bounded : (keySet map).card ≤ capacity)
    (succeed : ∀ index, index < entries.length → refuseWhenFull capacity map entries index = true)
    (index : Nat) (inside : index ≤ entries.length) :
    (keySet (insertAll map (entries.take index))).card ≤ capacity := by
  induction index with
  | zero => simpa [insertAll] using bounded
  | succ index ih =>
      have before := ih (by omega)
      have found : entries[index]? = some entries[index] := by simp
      have accepted := succeed index (by omega)
      simp only [refuseWhenFull, found, Bool.or_eq_true, decide_eq_true_eq] at accepted
      have next : keySet (insertAll map (entries.take (index + 1))) =
          insert entries[index].1 (keySet (insertAll map (entries.take index))) := by
        ext key
        simp only [mem_keySet, mem_insertAll, Finset.mem_insert,
          List.take_succ_eq_append_getElem (by omega : index < entries.length), List.map_append,
          List.mem_append, List.map_cons, List.map_nil, List.mem_singleton]
        tauto
      rw [next]
      rcases accepted with present | room
      · rwa [Finset.insert_eq_of_mem (by simpa using present)]
      · exact le_trans (Finset.card_insert_le _ _) room

theorem refused_missing (capacity : Nat) (map : Store K V) (entries : List (K × V))
    (refused : ∃ index, index < entries.length ∧ refuseWhenFull capacity map entries index = false) :
    ∃ key ∈ entries.map Prod.fst, key ∉ map ∧
      key ∉ installedKeys (refuseWhenFull capacity map entries) entries := by
  classical
  let first := Nat.find refused
  obtain ⟨inside, failed⟩ : first < entries.length ∧ refuseWhenFull capacity map entries first = false :=
    Nat.find_spec refused
  have found : entries[first]? = some entries[first] := by simp
  have earlier (index : Nat) (before : index < first) :
      refuseWhenFull capacity map entries index = true := by
    have minimal := Nat.find_min refused before
    simpa [show index < entries.length by omega] using minimal
  obtain ⟨new, _⟩ := refuseWhenFull_bound capacity map entries first _ found earlier failed
  rw [mem_insertAll, not_or] at new
  refine ⟨entries[first].1, List.mem_map.mpr ⟨_, List.getElem_mem inside, rfl⟩, new.2, ?_⟩
  intro installed
  rw [installedKeys, List.mem_toFinset, mem_accepted_iff] at installed
  obtain ⟨position, same, succeeded⟩ := installed
  have before : position < first := by
    by_contra late
    have contradiction := succeeded first (by omega)
    simp [failed] at contradiction
  apply new.1
  rw [List.mem_iff_getElem?]
  refine ⟨position, ?_⟩
  simpa [List.getElem?_take, before] using same

def RespectsCapacity (capacity : MapKind → Nat) (hashing : Hashing) (manager : MapManager)
    (rules : ParsedRuleSet) (ok : Outcomes) : Prop :=
  ∀ kind, CapacityBound (capacity kind) (manager.slot kind).map
    (rules.entries kind (hashing.entryOrder kind)) (ok kind)

def ReplacesCompletely (sync : Hashing → Outcomes → MapManager → ParsedRuleSet → MapManager × SyncReport)
    (capacity : MapKind → Nat) (hashing : Hashing) (manager : MapManager) (rules : ParsedRuleSet) :
    Prop :=
  ∀ ok, RespectsCapacity capacity hashing manager rules ok →
    ∀ kind, rules.keys kind ⊆ keySet ((sync hashing ok manager rules).1.slot kind).map

def FitsBeforeRemoval (capacity : MapKind → Nat) (manager : MapManager) (rules : ParsedRuleSet) :
    Prop :=
  ∀ kind, (keySet (manager.slot kind).map ∪ rules.keys kind).card ≤ capacity kind

theorem entries_keySet (rules : ParsedRuleSet) (kind : MapKind) (order : HashOrder kind.Key) :
    ((rules.entries kind order).map Prod.fst).toFinset = rules.keys kind := by
  ext key
  rw [List.mem_toFinset]
  exact rules.mem_entries_keys kind order key

theorem installs_of_fits (capacity : MapKind → Nat) (hashing : Hashing) (manager : MapManager)
    (rules : ParsedRuleSet) (fits : FitsBeforeRemoval capacity manager rules) (ok : Outcomes)
    (respects : RespectsCapacity capacity hashing manager rules ok) (kind : MapKind)
    (key : kind.Key) (listed : key ∈ rules.keys kind) : key ∈ installs hashing ok rules kind := by
  have room := fits kind
  rw [← entries_keySet rules kind (hashing.entryOrder kind)] at room listed
  have succeed := capacity_succeeds _ _ _ _ (respects kind) room
  rw [List.mem_toFinset, List.mem_iff_getElem?] at listed
  obtain ⟨position, found⟩ := listed
  rw [mem_installs_iff]
  refine ⟨position, found, fun earlier before => succeed earlier ?_⟩
  have inside := (List.getElem?_eq_some_iff.mp found).1
  rw [List.length_map] at inside
  omega

theorem replacesCompletely_iff_fits
    (sync : Hashing → Outcomes → MapManager → ParsedRuleSet → MapManager × SyncReport)
    (installed : ∀ hashing ok manager rules kind, ∀ key ∈ installs hashing ok rules kind,
      key ∈ ((sync hashing ok manager rules).1.slot kind).map)
    (source : ∀ hashing ok manager rules kind, ∀ key ∈ ((sync hashing ok manager rules).1.slot kind).map,
      key ∈ installs hashing ok rules kind ∨ key ∈ (manager.slot kind).map)
    (capacity : MapKind → Nat) (hashing : Hashing) (manager : MapManager) (rules : ParsedRuleSet)
    (bounded : ∀ kind, (keySet (manager.slot kind).map).card ≤ capacity kind) :
    ReplacesCompletely sync capacity hashing manager rules ↔
      FitsBeforeRemoval capacity manager rules := by
  constructor
  · intro complete kind
    let strict : Outcomes := fun kind => refuseWhenFull (capacity kind) (manager.slot kind).map
      (rules.entries kind (hashing.entryOrder kind))
    have present := complete strict (fun kind => refuseWhenFull_bound _ _ _) kind
    have succeed (index : Nat) (inside : index < (rules.entries kind (hashing.entryOrder kind)).length) :
        strict kind index = true := by
      by_contra refused
      obtain ⟨key, listed, absent, skipped⟩ := refused_missing (capacity kind) _ _
        ⟨index, inside, by simpa using refused⟩
      have after := present ((rules.mem_entries_keys kind _ key).mp listed)
      rw [mem_keySet] at after
      rcases source _ _ _ _ _ _ after with done | kept
      · exact skipped done
      · exact absent kept
    have room := refuseWhenFull_card _ _ _ (bounded kind) succeed _ le_rfl
    rwa [List.take_length, keySet_insertAll, entries_keySet] at room
  · intro fits ok respects kind key listed
    rw [mem_keySet]
    exact installed _ _ _ _ _ _ (installs_of_fits capacity hashing manager rules fits ok respects
      kind key listed)

section Replacement

variable (capacity : MapKind → Nat) (hashing : Hashing) (manager : MapManager)
  (rules : ParsedRuleSet) (bounded : ∀ kind, (keySet (manager.slot kind).map).card ≤ capacity kind)

include bounded

theorem syncRules_complete_iff_fits :
    ReplacesCompletely syncRules capacity hashing manager rules ↔
      FitsBeforeRemoval capacity manager rules := by
  apply replacesCompletely_iff_fits syncRules _ _ _ _ _ _ bounded
  · intro hashing ok manager rules kind key member
    exact (mem_syncRules ..).mpr (Or.inl member)
  · intro hashing ok manager rules kind key member
    exact ((mem_syncRules ..).mp member).imp_right And.left

theorem syncFireholRules_complete_iff_fits :
    ReplacesCompletely syncFireholRules capacity hashing manager rules ↔
      FitsBeforeRemoval capacity manager rules := by
  apply replacesCompletely_iff_fits syncFireholRules _ _ _ _ _ _ bounded
  · intro hashing ok manager rules kind key member
    exact (mem_syncFireholRules ..).mpr (Or.inl member)
  · intro hashing ok manager rules kind key member
    exact ((mem_syncFireholRules ..).mp member).imp_right And.left

end Replacement

theorem sync_complete_iff_fits (capacity : MapKind → Nat) (hashing : Hashing)
    (manager : MapManager) (rules : ParsedRuleSet)
    (bounded : ∀ kind, (keySet (manager.slot kind).map).card ≤ capacity kind) :
    (ReplacesCompletely syncRules capacity hashing manager rules ↔
      FitsBeforeRemoval capacity manager rules) ∧
    (ReplacesCompletely syncFireholRules capacity hashing manager rules ↔
      FitsBeforeRemoval capacity manager rules) :=
  ⟨syncRules_complete_iff_fits capacity hashing manager rules bounded,
    syncFireholRules_complete_iff_fits capacity hashing manager rules bounded⟩

theorem sync_complete_replacement :
    ∃ hashing : Hashing,
      let installed := (run History.step History.start
        [(⟨.static, networks [(24, #v[192, 0, 2, 0])], hashing⟩, allSucceed)]).manager
      let rules := networks [(24, #v[198, 51, 100, 0])]
      (keySet (installed.slot .ipv4Lpm).map).card = 1 ∧
        (∀ kind, (keySet (installed.slot kind).map).card ≤ 2) ∧
        ReplacesCompletely syncRules (fun _ => 2) hashing installed rules := by
  let installed := (History.start.step
    (⟨.static, networks [(24, #v[192, 0, 2, 0])], Hashing.arbitrary⟩, allSucceed)).manager
  have held (kind : MapKind) : keySet (installed.slot kind).map =
      (networks [(24, #v[192, 0, 2, 0])]).keys kind := first_static_keySet ..
  have bounded (kind : MapKind) : (keySet (installed.slot kind).map).card ≤ 2 := by
    rw [held]
    cases kind <;> decide
  refine ⟨Hashing.arbitrary, (congrArg Finset.card (held .ipv4Lpm)).trans (by decide), bounded, ?_⟩
  refine (sync_complete_iff_fits (fun _ => 2) _ installed _ bounded).1.mpr fun kind => ?_
  rw [held]
  cases kind <;> decide

theorem replacement_refused :
    ∃ hashing : Hashing,
      let installed := (run History.step History.start
        [(⟨.static, networks [(24, #v[192, 0, 2, 0])], hashing⟩, allSucceed)]).manager
      let rules := networks [(24, #v[198, 51, 100, 0])]
      (∀ kind, ((installed.slot kind).firehol ∪ rules.keys kind).card ≤ 1) ∧
        ¬ ReplacesCompletely syncRules (fun _ => 1) hashing installed rules := by
  let installed := (History.start.step
    (⟨.static, networks [(24, #v[192, 0, 2, 0])], Hashing.arbitrary⟩, allSucceed)).manager
  have held (kind : MapKind) : keySet (installed.slot kind).map =
      (networks [(24, #v[192, 0, 2, 0])]).keys kind := first_static_keySet ..
  have unowned (kind : MapKind) : (installed.slot kind).firehol = ∅ :=
    (step_static_owned ..).trans (Finset.eq_empty_of_forall_notMem (start_owned kind))
  refine ⟨Hashing.arbitrary, ?_, ?_⟩
  · intro kind
    change ((installed.slot kind).firehol ∪ _).card ≤ 1
    rw [unowned]
    cases kind <;> decide
  · intro complete
    have bounded (kind : MapKind) : (keySet (installed.slot kind).map).card ≤ 1 := by
      rw [held]
      cases kind <;> decide
    have fits := (syncRules_complete_iff_fits (fun _ => 1) _ installed _ bounded).mp complete .ipv4Lpm
    rw [held] at fits
    exact absurd fits (by decide)

end ReputationFirewall.Maps
