import ReputationFirewall.Firehol.RuleBlocks

set_option autoImplicit false

namespace ReputationFirewall.Firehol

open Collect KeyedStore

def FireholMetadataRegistry.resolveRule (registry : FireholMetadataRegistry) (ruleId : BitVec 32) :
    Option RuleBlockEntry :=
  if registry.cache.isSome then
    (registry.rulesCache[ruleId.toNat]?).bind fun (metadataId, line) =>
      if metadataId = 0 then none
      else some ⟨metadataId, (registry.categoryFor metadataId).getD .other, line, none⟩
  else registry.rules[ruleId.toNat]?

structure ResolvesRules (metadata : List FireholMetadata) (entries : List FireholEntry)
    (registry : FireholMetadataRegistry) : Prop where
  known : ∀ entry ∈ entries, ∃ block,
    registry.resolveRule entry.ruleId = some { ruleSlot metadata entry with block }
  unknown : ∀ ruleId, ruleId ≠ 0 → (∀ entry ∈ entries, entry.ruleId ≠ ruleId) → registry.resolveRule ruleId = none

section Cached

variable {metadata : List FireholMetadata} {nextMetadataId : BitVec 32} {entries : List FireholEntry}

theorem cachedRegistry_slot_unused {ruleId : BitVec 32} (outside : ∀ entry ∈ entries, entry.ruleId ≠ ruleId)
    (database : Database) :
    (cachedRegistry metadata nextMetadataId entries database).resolveRule ruleId = none := by
  have unused : ∀ slot ∈ (FireholMetadataRegistry.cacheSlots [] entries)[ruleId.toNat]?, slot = (0, 0) :=
    @putAll_unused _ _ (0, 0) (fun entry : FireholEntry => entry.ruleId.toNat)
      (fun entry => (entry.metadataId, entry.line)) [] entries _ (slot_absent outside) (by simp)
  cases slot : (FireholMetadataRegistry.cacheSlots [] entries)[ruleId.toNat]? with
  | none => simp [FireholMetadataRegistry.resolveRule, cachedRegistry, slot]
  | some held =>
      obtain rfl := unused held slot
      simp [FireholMetadataRegistry.resolveRule, cachedRegistry, slot]

theorem cachedRegistry_rules (distinct : (entries.map fun entry => entry.ruleId.toNat).Nodup)
    (numbered : ∀ record ∈ metadata, record.id ≠ 0)
    (registered : ∀ entry ∈ entries, Registered metadata nextMetadataId entry) (database : Database) :
    ResolvesRules metadata entries (cachedRegistry metadata nextMetadataId entries database) := by
  constructor
  · intro entry member
    obtain ⟨record, found⟩ := (registered entry member).lookup
    have light := lookup_lightTable metadata entry.metadataId
    rw [found] at light
    have slot : (FireholMetadataRegistry.cacheSlots [] entries)[entry.ruleId.toNat]? =
        some (entry.metadataId, entry.line) :=
      @putAll_slot _ _ (0, 0) (fun entry : FireholEntry => entry.ruleId.toNat)
        (fun entry => (entry.metadataId, entry.line)) [] entries distinct entry member
    have nonzero : ¬ entry.metadataId = 0#32 := metadataId_ne_zero numbered (registered entry member)
    refine ⟨none, ?_⟩
    simp [FireholMetadataRegistry.resolveRule, FireholMetadataRegistry.categoryFor, cachedRegistry, slot, light,
      ruleSlot, categoryIn, found, nonzero]
  · intro ruleId _ outside
    exact cachedRegistry_slot_unused outside database

end Cached

section Memory

variable {metadata : List FireholMetadata} {entries : List FireholEntry} {registry : FireholMetadataRegistry}
  {done : List FireholIpTarget}

theorem setBlock_length (context : RuleBlockContext) (rules : List RuleBlockEntry) (ruleIds : List (BitVec 32)) :
    (ruleIds.foldl (FireholMetadataRegistry.setBlock context) rules).length = rules.length := by
  induction ruleIds generalizing rules with
  | nil => rfl
  | cons ruleId rest ih => rw [List.foldl_cons, ih, FireholMetadataRegistry.setBlock, List.length_modify]

theorem buildRuleBlockIndex_length (order : HashOrder FireholIpTarget) (registry : FireholMetadataRegistry)
    (entries : List FireholEntry) :
    (registry.buildRuleBlockIndex order entries).rules.length = registry.rules.length := by
  unfold FireholMetadataRegistry.buildRuleBlockIndex
  split_ifs with cached
  · rfl
  · generalize order.iterate (FireholMetadataRegistry.rulesByTarget entries) = groups
    induction groups generalizing registry with
    | nil => rfl
    | cons group rest ih =>
        have first : (registry.shareBlock group.2).rules.length = registry.rules.length := by
          unfold FireholMetadataRegistry.shareBlock
          split_ifs
          · rfl
          · exact setBlock_length _ _ _
        have memory : ¬ (registry.shareBlock group.2).cache.isSome = true := by
          unfold FireholMetadataRegistry.shareBlock
          split_ifs <;> exact cached
        rw [List.foldl_cons, ih _ memory, first]

theorem buildIpIndex_rules (order : HashOrder FireholIpTarget) (registry : FireholMetadataRegistry)
    (entries : List FireholEntry) : (registry.buildIpIndex order entries).rules = registry.rules := by
  have indexed (groups : List TargetGroup) : (registry.clearIpIndex.indexGroups groups).rules = registry.rules := by
    rw [indexGroups_eq]
    rfl
  have built := indexed ((order.iterate (registry.filesByTarget entries)).map fun group =>
    (group.1, .ofSources group.2 (((registry.catsByTarget entries).lookup group.1).getD [])))
  rw [FireholMetadataRegistry.indexGroups, List.foldl_map] at built
  exact built

theorem SharedSlots.rules (slots : SharedSlots metadata entries done registry) {count : Nat}
    (ids : entries.map (fun entry => entry.ruleId.toNat) = List.range' 1 count)
    (filled : registry.rules.length ≤ count + 1) : ResolvesRules metadata entries registry := by
  constructor
  · intro entry member
    refine ⟨sharedBlock metadata entries done entry, ?_⟩
    rw [FireholMetadataRegistry.resolveRule, if_neg (by simp [slots.memory]), slots.own entry member]
  · intro ruleId nonzero outside
    -- The ids are those up to `count`, so the slot lies behind the last one.
    have beyond : registry.rules.length ≤ ruleId.toNat := by
      by_contra inside
      have listed : ruleId.toNat ∈ entries.map fun entry => entry.ruleId.toNat := by
        rw [ids, List.mem_range'_1]
        have positive : ruleId.toNat ≠ 0 := fun zero => nonzero (BitVec.eq_of_toNat_eq zero)
        omega
      exact slot_absent outside listed
    rw [FireholMetadataRegistry.resolveRule, if_neg (by simp [slots.memory]), List.getElem?_eq_none beyond]

theorem ruleSlots_length {table : Store (BitVec 32) FireholMetadata} {rules : List RuleBlockEntry} {count : Nat}
    (few : rules.length ≤ count + 1) (below : ∀ entry ∈ entries, entry.ruleId.toNat ≤ count) :
    (FireholMetadataRegistry.ruleSlots table rules entries).length ≤ count + 1 := by
  induction entries generalizing rules with
  | nil => exact few
  | cons entry rest ih =>
      have last := below entry List.mem_cons_self
      refine ih ?_ fun other member => below other (List.mem_cons_of_mem _ member)
      simp only [putAt, List.length_set, List.length_append, List.length_replicate]
      omega

end Memory

section Imports

variable {sizeInBytes : List Put → Nat} {orders : IndexOrders} {metadata : List FireholMetadata}
  {nextMetadataId : BitVec 32} {batches : List (List FireholEntry)} {imported : ImportedDataSet}

theorem memory_slots (nonempty : ∀ batch ∈ batches, batch ≠ [])
    (registered : ∀ entry ∈ batches.flatten, Registered metadata nextMetadataId entry)
    (done : importBatches sizeInBytes .memory orders metadata nextMetadataId batches = some (.ok imported)) :
    ∃ targets registry, SharedSlots metadata (importedEntries batches) targets registry ∧
      registry.rules.length ≤ (importedEntries batches).length + 1 ∧
      (importedEntries batches = [] → registry.rules = []) ∧
      ∀ ruleId, imported.registry.resolveRule ruleId = registry.resolveRule ruleId := by
  have small := imported_small nonempty done
  have distinct := importedEntries_distinct small
  have ids := importedEntries_ids small
  have known := importedEntries_registered metadata nextMetadataId registered
  have slots := buildRuleBlockIndex_slots orders.blocks distinct (fun entry member => (known entry member).lookup)
    (memoryRules_slots distinct)
  refine ⟨_, _, slots, ?_, fun empty => ?_, fun ruleId => ?_⟩
  · rw [buildRuleBlockIndex_length]
    refine ruleSlots_length (Nat.zero_le _) fun entry member => ?_
    have listed : entry.ruleId.toNat ∈ List.range' 1 (importedEntries batches).length :=
      ids ▸ List.mem_map_of_mem member
    rw [List.mem_range'_1] at listed
    omega
  · rw [← List.length_eq_zero_iff, buildRuleBlockIndex_length, empty]
    rfl
  · have cache := (FireholMetadataRegistry.buildIpIndex_tables orders.addresses
      ((memoryRules metadata (importedEntries batches)).buildRuleBlockIndex orders.blocks
        (importedEntries batches)) (importedEntries batches)).cache
    rw [imported_memory nonempty registered done, FireholMetadataRegistry.resolveRule,
      FireholMetadataRegistry.resolveRule, cache, buildIpIndex_rules, if_neg (by simp [slots.memory]),
      if_neg (by simp [slots.memory])]

variable {storage : Storage} (nonempty : ∀ batch ∈ batches, batch ≠ [])
  (range : ∀ entry ∈ batches.flatten, entry.target.PrefixInRange)
  (registered : ∀ entry ∈ batches.flatten, Registered metadata nextMetadataId entry)
  (numbered : ∀ record ∈ metadata, record.id ≠ 0)
  (done : importBatches sizeInBytes storage orders metadata nextMetadataId batches = some (.ok imported))

include nonempty range registered numbered done

theorem imported_rules : ResolvesRules metadata (importedEntries batches) imported.registry := by
  have small := imported_small nonempty done
  cases storage with
  | database archive limit spool =>
      obtain ⟨database, registry, _⟩ := imported_database nonempty range registered done
      rw [registry]
      exact cachedRegistry_rules (importedEntries_distinct small) numbered
        (importedEntries_registered metadata nextMetadataId registered) database
  | memory =>
      obtain ⟨targets, registry, slots, filled, _, same⟩ := memory_slots nonempty registered done
      have resolves := slots.rules (importedEntries_ids small) filled
      constructor
      · intro entry member
        rw [same]
        exact resolves.known entry member
      · intro ruleId nonzero outside
        rw [same]
        exact resolves.unknown ruleId nonzero outside

omit numbered in
theorem imported_zero :
    (imported.registry.resolveRule 0).isSome = true ↔ storage = .memory ∧ importedEntries batches ≠ [] := by
  have ids := importedEntries_ids (imported_small nonempty done)
  have positive : ∀ entry ∈ importedEntries batches, 1 ≤ entry.ruleId.toNat := by
    intro entry member
    have listed : entry.ruleId.toNat ∈ List.range' 1 (importedEntries batches).length :=
      ids ▸ List.mem_map_of_mem member
    rw [List.mem_range'_1] at listed
    exact listed.1
  cases storage with
  | database archive limit spool =>
      obtain ⟨database, registry, _⟩ := imported_database nonempty range registered done
      have unused := @cachedRegistry_slot_unused metadata nextMetadataId (importedEntries batches) 0
        (fun entry member zero => absurd (positive entry member) (by simp [zero])) database
      rw [registry, unused]
      simp
  | memory =>
      obtain ⟨targets, registry, slots, filled, empty, same⟩ := memory_slots nonempty registered done
      rw [same, FireholMetadataRegistry.resolveRule, if_neg (by simp [slots.memory])]
      cases entries : importedEntries batches with
      | nil => simp [empty entries]
      | cons entry rest =>
          have member : entry ∈ importedEntries batches := by simp [entries]
          obtain ⟨inside, _⟩ := List.getElem?_eq_some_iff.mp (slots.own entry member)
          have room : 0 < registry.rules.length := by omega
          simp [room]

end Imports

end ReputationFirewall.Firehol
