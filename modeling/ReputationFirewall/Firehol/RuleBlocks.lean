import ReputationFirewall.Firehol.IndexBuilders

set_option autoImplicit false

namespace ReputationFirewall.Firehol

open Collect KeyedStore NetAddr

section Numbers

theorem numberBatches_ids {sequence : Nat} {batches : List (List FireholEntry)}
    (small : sequence + batches.flatten.length < 2 ^ 32) :
    (numberBatches sequence batches).flatten.map (fun entry => entry.ruleId.toNat) =
      List.range' (sequence + 1) batches.flatten.length := by
  induction batches generalizing sequence with
  | nil => rfl
  | cons batch rest ih =>
      rw [List.flatten_cons, List.length_append] at small
      have first : (batch.mapIdx fun offset entry =>
          ({ entry with ruleId := BitVec.ofNat 32 (sequence + offset + 1) } : FireholEntry)).map
            (fun entry => entry.ruleId.toNat) = List.range' (sequence + 1) batch.length := by
        apply List.ext_getElem
        · simp
        · intro offset inside _
          rw [List.length_map, List.length_mapIdx] at inside
          have bounded : sequence + offset + 1 < 4294967296 := by omega
          simp [Nat.mod_eq_of_lt bounded]
          omega
      rw [numberBatches, List.flatten_cons, List.map_append, first, ih (by omega), List.flatten_cons,
        List.length_append, ← List.range'_append_1]
      congr 2
      omega

variable {batches : List (List FireholEntry)}

theorem importedEntries_ids (small : batches.flatten.length < 2 ^ 32) :
    (importedEntries batches).map (fun entry => entry.ruleId.toNat) =
      List.range' 1 (importedEntries batches).length := by
  rw [importedEntries, numberBatches_length]
  exact numberBatches_ids (by omega)

theorem importedEntries_distinct (small : batches.flatten.length < 2 ^ 32) :
    ((importedEntries batches).map fun entry => entry.ruleId.toNat).Nodup := by
  rw [importedEntries_ids small]
  exact List.nodup_range'

end Numbers

section Resolution

namespace RuleBlockContext

def sources (context : RuleBlockContext) : List (List Char × BitVec 32) := context.files.zip context.lines

def Parallel (context : RuleBlockContext) : Prop := context.files.length = context.lines.length

theorem ofSources_parallel (sources : List (List Char × BitVec 32)) (categories : List FireholCategory) :
    (ofSources sources categories).Parallel := by
  simp [ofSources, Parallel]

@[simp] theorem ofSources_sources (sources : List (List Char × BitVec 32)) (categories : List FireholCategory) :
    (ofSources sources categories).sources = sources := by
  rw [RuleBlockContext.sources, ofSources, List.zip_map', List.map_id'']
  simp

theorem eq_ofSources {context : RuleBlockContext} (parallel : context.Parallel) :
    context = ofSources context.sources context.categories := by
  simp only [ofSources, sources, List.map_fst_zip (le_of_eq parallel), List.map_snd_zip (ge_of_eq parallel)]

end RuleBlockContext

variable (metadata : List FireholMetadata) (entries : List FireholEntry)

structure WithinTarget (target : FireholIpTarget) (context : RuleBlockContext) : Prop where
  parallel : context.Parallel
  sources : ∀ source ∈ context.sources, ∃ entry ∈ entries, entry.target = target ∧
    sourceIn (metadataTable metadata) entry = source
  categories : ∀ category ∈ context.categories, ∃ entry ∈ entries, entry.target = target ∧
    categoryIn (metadataTable metadata) entry.metadataId = category

structure Resolves (contextOf : FireholEntry → RuleBlockContext) (registry : FireholMetadataRegistry) : Prop where
  known : ∀ entry ∈ entries, registry.resolveRuleBlock entry.ruleId = some (contextOf entry)
  within : ∀ entry ∈ entries, WithinTarget metadata entries entry.target (contextOf entry)
  unknown : ∀ ruleId, (∀ entry ∈ entries, entry.ruleId ≠ ruleId) → registry.resolveRuleBlock ruleId = none

variable {metadata entries}

theorem mem_targetContext_sources (target : FireholIpTarget) (source : List Char × BitVec 32) :
    source ∈ (targetContext (metadataTable metadata) entries target).sources ↔
      ∃ entry ∈ entries, entry.target = target ∧ sourceIn (metadataTable metadata) entry = source := by
  simp [targetContext, mem_pushAll, entrySources, and_assoc]

theorem mem_targetContext_categories (target : FireholIpTarget) (category : FireholCategory) :
    category ∈ (targetContext (metadataTable metadata) entries target).categories ↔
      ∃ entry ∈ entries, entry.target = target ∧
        categoryIn (metadataTable metadata) entry.metadataId = category := by
  simp [targetContext, RuleBlockContext.ofSources, mem_pushAll, entryCategories, and_assoc]

theorem targetContext_within (target : FireholIpTarget) :
    WithinTarget metadata entries target (targetContext (metadataTable metadata) entries target) :=
  ⟨RuleBlockContext.ofSources_parallel _ _, fun source => (mem_targetContext_sources target source).mp,
    fun category => (mem_targetContext_categories target category).mp⟩

def ownContext (metadata : List FireholMetadata) (entry : FireholEntry) : RuleBlockContext :=
  .ofSources [sourceIn (metadataTable metadata) entry] [categoryIn (metadataTable metadata) entry.metadataId]

theorem ownContext_within {entry : FireholEntry} (member : entry ∈ entries) :
    WithinTarget metadata entries entry.target (ownContext metadata entry) := by
  refine ⟨RuleBlockContext.ofSources_parallel _ _, ?_, ?_⟩
  · intro source own
    rw [ownContext, RuleBlockContext.ofSources_sources, List.mem_singleton] at own
    exact ⟨entry, member, rfl, own.symm⟩
  · intro category own
    exact ⟨entry, member, rfl, (List.mem_singleton.mp own).symm⟩

end Resolution

section Cached

variable {metadata : List FireholMetadata} {nextMetadataId : BitVec 32} {entries : List FireholEntry}

theorem metadataId_ne_zero (numbered : ∀ record ∈ metadata, record.id ≠ 0) {entry : FireholEntry}
    (registered : Registered metadata nextMetadataId entry) : entry.metadataId ≠ 0 := by
  obtain ⟨record, member, id⟩ := List.mem_map.mp registered.1
  exact id ▸ numbered record member

theorem slot_absent {ruleId : BitVec 32} (outside : ∀ entry ∈ entries, entry.ruleId ≠ ruleId) :
    ruleId.toNat ∉ entries.map fun entry => entry.ruleId.toNat := by
  intro listed
  obtain ⟨entry, member, same⟩ := List.mem_map.mp listed
  exact outside entry member (BitVec.eq_of_toNat_eq same)

theorem cachedRegistry_resolves (distinct : (entries.map fun entry => entry.ruleId.toNat).Nodup)
    (numbered : ∀ record ∈ metadata, record.id ≠ 0)
    (registered : ∀ entry ∈ entries, Registered metadata nextMetadataId entry) (database : Database) :
    Resolves metadata entries (ownContext metadata) (cachedRegistry metadata nextMetadataId entries database) := by
  refine ⟨?_, fun entry => ownContext_within, ?_⟩
  · intro entry member
    obtain ⟨record, found⟩ := (registered entry member).lookup
    have light := lookup_lightTable metadata entry.metadataId
    rw [found] at light
    have slot : (FireholMetadataRegistry.cacheSlots [] entries)[entry.ruleId.toNat]? =
        some (entry.metadataId, entry.line) :=
      @putAll_slot _ _ (0, 0) (fun entry : FireholEntry => entry.ruleId.toNat)
        (fun entry => (entry.metadataId, entry.line)) [] entries distinct entry member
    have numberedRecord : ¬ entry.metadataId = 0#32 := metadataId_ne_zero numbered (registered entry member)
    simp [FireholMetadataRegistry.resolveRuleBlock, FireholMetadataRegistry.fileNameFor,
      FireholMetadataRegistry.categoryFor, cachedRegistry, slot, light, ownContext, sourceIn, fileIn, categoryIn,
      found, RuleBlockContext.ofSources, numberedRecord]
  · intro ruleId outside
    have unused : ∀ slot ∈ (FireholMetadataRegistry.cacheSlots [] entries)[ruleId.toNat]?, slot = (0, 0) :=
      @putAll_unused _ _ (0, 0) (fun entry : FireholEntry => entry.ruleId.toNat)
        (fun entry => (entry.metadataId, entry.line)) [] entries _ (slot_absent outside) (by simp)
    cases slot : (FireholMetadataRegistry.cacheSlots [] entries)[ruleId.toNat]? with
    | none => simp [FireholMetadataRegistry.resolveRuleBlock, cachedRegistry, slot]
    | some held =>
        obtain rfl := unused held slot
        simp [FireholMetadataRegistry.resolveRuleBlock, cachedRegistry, slot]

end Cached

section Shared

variable (metadata : List FireholMetadata) (entries : List FireholEntry)

def ruleSlot (entry : FireholEntry) : RuleBlockEntry :=
  ⟨entry.metadataId, categoryIn (metadataTable metadata) entry.metadataId, entry.line, none⟩

def targetIds (target : FireholIpTarget) : List (BitVec 32) :=
  (entries.filter fun entry => entry.target = target).map FireholEntry.ruleId

def sharedBlock (done : List FireholIpTarget) (entry : FireholEntry) : Option RuleBlockContext :=
  if entry.target ∈ done ∧ 1 < (targetIds entries entry.target).length then
    some (targetContext (metadataTable metadata) entries entry.target)
  else none

structure SharedSlots (done : List FireholIpTarget) (registry : FireholMetadataRegistry) : Prop where
  memory : registry.cache = none
  table : registry.metadataById = metadataTable metadata
  own : ∀ entry ∈ entries, registry.rules[entry.ruleId.toNat]? =
    some { ruleSlot metadata entry with block := sharedBlock metadata entries done entry }
  unused : ∀ ruleId : BitVec 32, (∀ entry ∈ entries, entry.ruleId ≠ ruleId) →
    ∀ slot ∈ registry.rules[ruleId.toNat]?, slot = .placeholder

variable {metadata entries} {registry : FireholMetadataRegistry} {done : List FireholIpTarget}

theorem memoryRules_slots (distinct : (entries.map fun entry => entry.ruleId.toNat).Nodup) :
    SharedSlots metadata entries [] (memoryRules metadata entries) := by
  refine ⟨rfl, rfl, ?_, ?_⟩
  · intro entry member
    have none : sharedBlock metadata entries [] entry = none := by simp [sharedBlock]
    rw [none]
    exact @putAll_slot _ _ RuleBlockEntry.placeholder (fun entry : FireholEntry => entry.ruleId.toNat)
      (ruleSlot metadata) [] entries distinct entry member
  · intro ruleId outside
    exact @putAll_unused _ _ RuleBlockEntry.placeholder (fun entry : FireholEntry => entry.ruleId.toNat)
      (ruleSlot metadata) [] entries _ (slot_absent outside) (by simp)

theorem SharedSlots.addRule_all (slots : SharedSlots metadata entries done registry)
    (known : ∀ entry ∈ entries, ∃ record, (metadataTable metadata).lookup entry.metadataId = some record)
    (target : FireholIpTarget) :
    (targetIds entries target).foldl registry.addRule .default =
      targetContext (metadataTable metadata) entries target := by
  rw [targetIds, List.foldl_map]
  refine collect_entries ?_ [] []
  intro entry listed files labels
  have member := List.mem_of_mem_filter listed
  obtain ⟨record, found⟩ := known entry member
  rw [FireholMetadataRegistry.addRule, slots.own entry member, slots.table]
  simp [ruleSlot, found, RuleBlockContext.ofSources_addSource, sourceIn, fileIn]

theorem setBlock_slot (context : RuleBlockContext) (ruleIds : List (BitVec 32)) (rules : List RuleBlockEntry)
    (ruleId : BitVec 32) :
    (ruleIds.foldl (FireholMetadataRegistry.setBlock context) rules)[ruleId.toNat]? =
      if ruleId ∈ ruleIds then (rules[ruleId.toNat]?).map fun entry => { entry with block := some context }
      else rules[ruleId.toNat]? := by
  have slots := @modifyAll_slot RuleBlockEntry (fun entry => { entry with block := some context })
    (fun _ => rfl) (ruleIds.map BitVec.toNat) rules ruleId.toNat
  have listed : ruleId.toNat ∈ ruleIds.map BitVec.toNat ↔ ruleId ∈ ruleIds :=
    List.mem_map_of_injective fun _ _ => BitVec.eq_of_toNat_eq
  rw [List.foldl_map] at slots
  simp only [listed] at slots
  exact slots

theorem sharedBlock_append (target : FireholIpTarget) (entry : FireholEntry) :
    sharedBlock metadata entries (done ++ [target]) entry =
      if entry.target = target ∧ 1 < (targetIds entries target).length then
        some (targetContext (metadataTable metadata) entries target)
      else sharedBlock metadata entries done entry := by
  unfold sharedBlock
  by_cases own : entry.target = target
  · by_cases several : 1 < (targetIds entries target).length <;> simp [own, several]
  · simp [own]

theorem mem_targetIds (distinct : (entries.map fun entry => entry.ruleId.toNat).Nodup)
    {entry : FireholEntry} (member : entry ∈ entries) (target : FireholIpTarget) :
    entry.ruleId ∈ targetIds entries target ↔ entry.target = target := by
  constructor
  · intro listed
    obtain ⟨other, inside, same⟩ := List.mem_map.mp listed
    have equal : other = entry := List.inj_on_of_nodup_map distinct (List.mem_of_mem_filter inside) member
      (congrArg BitVec.toNat same)
    simpa [equal] using List.of_mem_filter inside
  · intro own
    exact List.mem_map_of_mem (List.mem_filter.mpr ⟨member, by simpa using own⟩)

theorem SharedSlots.shareBlock (slots : SharedSlots metadata entries done registry)
    (distinct : (entries.map fun entry => entry.ruleId.toNat).Nodup)
    (known : ∀ entry ∈ entries, ∃ record, (metadataTable metadata).lookup entry.metadataId = some record)
    (target : FireholIpTarget) :
    SharedSlots metadata entries (done ++ [target]) (registry.shareBlock (targetIds entries target)) := by
  unfold FireholMetadataRegistry.shareBlock
  split_ifs with single
  · refine ⟨slots.memory, slots.table, ?_, slots.unused⟩
    intro entry member
    rw [slots.own entry member, sharedBlock_append, if_neg fun several => absurd several.2 (by omega)]
  · rw [slots.addRule_all known]
    refine ⟨slots.memory, slots.table, ?_, ?_⟩
    · intro entry member
      simp only [setBlock_slot, slots.own entry member, mem_targetIds distinct member, sharedBlock_append]
      by_cases own : entry.target = target
      · rw [if_pos own, if_pos ⟨own, by omega⟩]
        rfl
      · rw [if_neg own, if_neg fun both => own both.1]
    · intro ruleId outside
      have absent : ruleId ∉ targetIds entries target := by
        intro listed
        obtain ⟨entry, inside, same⟩ := List.mem_map.mp listed
        exact outside entry (List.mem_of_mem_filter inside) same
      simp only [setBlock_slot, if_neg absent]
      exact slots.unused ruleId outside

theorem lookup_rulesByTarget (target : FireholIpTarget) :
    (FireholMetadataRegistry.rulesByTarget entries).lookup target =
      if target ∈ entries.map FireholEntry.target then some (targetIds entries target) else none := by
  have collected (own : List FireholEntry) (ids : List (BitVec 32)) :
      own.foldl (fun ids entry => ids ++ [entry.ruleId]) ids = ids ++ own.map FireholEntry.ruleId := by
    induction own generalizing ids with
    | nil => simp
    | cons entry rest ih => simp [ih]
  rw [FireholMetadataRegistry.rulesByTarget, lookup_accumulate, collected]
  rfl

theorem buildRuleBlockIndex_slots (order : HashOrder FireholIpTarget)
    (distinct : (entries.map fun entry => entry.ruleId.toNat).Nodup)
    (known : ∀ entry ∈ entries, ∃ record, (metadataTable metadata).lookup entry.metadataId = some record)
    (slots : SharedSlots metadata entries [] registry) :
    SharedSlots metadata entries
      ((order.iterate (FireholMetadataRegistry.rulesByTarget entries)).map Prod.fst)
      (registry.buildRuleBlockIndex order entries) := by
  rw [FireholMetadataRegistry.buildRuleBlockIndex, if_neg (by simp [slots.memory])]
  have groups : ∀ group ∈ order.iterate (FireholMetadataRegistry.rulesByTarget entries),
      group.2 = targetIds entries group.1 := by
    intro group listed
    have found := (order.mem_iterate _ group.1 group.2).mp listed
    rw [lookup_rulesByTarget, Option.ite_none_right_eq_some] at found
    exact (Option.some.inj found.2).symm
  generalize order.iterate (FireholMetadataRegistry.rulesByTarget entries) = iterated at groups
  induction iterated using List.reverseRecOn with
  | nil => exact slots
  | append_singleton iterated group ih =>
      have before := ih fun other member => groups other (List.mem_append_left _ member)
      rw [List.foldl_append, List.foldl_cons, List.foldl_nil, List.map_append,
        groups group (List.mem_append_right _ List.mem_cons_self)]
      exact before.shareBlock distinct known group.1

theorem rulesByTarget_complete (order : HashOrder FireholIpTarget) :
    ∀ entry ∈ entries, entry.target ∈
      (order.iterate (FireholMetadataRegistry.rulesByTarget entries)).map Prod.fst := by
  intro entry member
  have found := @lookup_rulesByTarget entries entry.target
  rw [if_pos (List.mem_map_of_mem member)] at found
  exact List.mem_map_of_mem ((order.mem_iterate _ _ _).mpr found)

theorem targetContext_single {entry : FireholEntry} (member : entry ∈ entries)
    (single : ¬ 1 < (targetIds entries entry.target).length) :
    targetContext (metadataTable metadata) entries entry.target = ownContext metadata entry := by
  have listed : entry ∈ entries.filter fun other => other.target = entry.target :=
    List.mem_filter.mpr ⟨member, by simp⟩
  rw [targetIds, List.length_map] at single
  have alone : entries.filter (fun other => other.target = entry.target) = [entry] := by
    cases found : entries.filter fun other => other.target = entry.target with
    | nil => simp [found] at listed
    | cons first rest =>
        rw [found] at single listed
        cases rest with
        | nil => rw [List.mem_singleton.mp listed]
        | cons second others => simp at single
  rw [targetContext, alone]
  rfl

theorem SharedSlots.resolve_own (slots : SharedSlots metadata entries done registry)
    (complete : ∀ entry ∈ entries, entry.target ∈ done)
    (known : ∀ entry ∈ entries, ∃ record, (metadataTable metadata).lookup entry.metadataId = some record)
    {entry : FireholEntry} (member : entry ∈ entries) :
    registry.resolveRuleBlock entry.ruleId = some (targetContext (metadataTable metadata) entries entry.target) := by
  have held := slots.own entry member
  by_cases several : 1 < (targetIds entries entry.target).length
  · rw [sharedBlock, if_pos ⟨complete entry member, several⟩] at held
    simp [FireholMetadataRegistry.resolveRuleBlock, slots.memory, held]
  · obtain ⟨record, found⟩ := known entry member
    rw [sharedBlock, if_neg fun both => several both.2] at held
    rw [targetContext_single member several]
    simp [FireholMetadataRegistry.resolveRuleBlock, slots.memory, slots.table, held, found, ruleSlot, ownContext,
      sourceIn, fileIn, RuleBlockContext.ofSources]

theorem SharedSlots.resolves (slots : SharedSlots metadata entries done registry)
    (complete : ∀ entry ∈ entries, entry.target ∈ done)
    (numbered : ∀ record ∈ metadata, record.id ≠ 0)
    (known : ∀ entry ∈ entries, ∃ record, (metadataTable metadata).lookup entry.metadataId = some record) :
    Resolves metadata entries (fun entry => targetContext (metadataTable metadata) entries entry.target)
      registry := by
  refine ⟨fun entry => slots.resolve_own complete known, fun entry _ => targetContext_within entry.target, ?_⟩
  · intro ruleId outside
    cases slot : registry.rules[ruleId.toNat]? with
    | none => simp [FireholMetadataRegistry.resolveRuleBlock, slots.memory, slot]
    | some held =>
        obtain rfl := slots.unused ruleId outside held slot
        have absent : (metadataTable metadata).lookup 0#32 = none := by
          rw [metadataTable, lookup_insertAll_absent]
          · rfl
          · intro listed
            simp only [List.map_map, List.mem_map] at listed
            obtain ⟨record, member, zero⟩ := listed
            exact numbered record member zero
        simp [FireholMetadataRegistry.resolveRuleBlock, slots.memory, slots.table, slot, RuleBlockEntry.placeholder,
          absent]

theorem buildIpIndex_resolve (order : HashOrder FireholIpTarget) (registry : FireholMetadataRegistry)
    (entries : List FireholEntry) (ruleId : BitVec 32) :
    (registry.buildIpIndex order entries).resolveRuleBlock ruleId = registry.resolveRuleBlock ruleId := by
  have indexed (groups : List TargetGroup) :
      (registry.clearIpIndex.indexGroups groups).resolveRuleBlock ruleId = registry.resolveRuleBlock ruleId := by
    rw [indexGroups_eq]
    rfl
  have built := indexed ((order.iterate (registry.filesByTarget entries)).map fun group =>
    (group.1, .ofSources group.2 (((registry.catsByTarget entries).lookup group.1).getD [])))
  rw [FireholMetadataRegistry.indexGroups, List.foldl_map] at built
  exact built

end Shared

section Agreement

def registeredEntries (metadata : List FireholMetadata) (entries : List FireholEntry) : FireholMetadataRegistry :=
  entries.foldl FireholMetadataRegistry.registerParsed (memoryRegistry metadata)

variable {metadata : List FireholMetadata} {entries : List FireholEntry}

theorem registeredEntries_slots (distinct : (entries.map fun entry => entry.ruleId.toNat).Nodup)
    (known : ∀ entry ∈ entries, ∃ record, (metadataTable metadata).lookup entry.metadataId = some record) :
    SharedSlots metadata entries [] (registeredEntries metadata entries) := by
  have rules : registeredEntries metadata entries = memoryRules metadata entries := by
    rw [registeredEntries, memoryRegistry, FireholMetadataRegistry.register_memory rfl,
      FireholMetadataRegistry.registerParsed_all rfl known]
    simp [memoryRules, FireholMetadataRegistry.new, metadataTable]
  rw [rules]
  exact memoryRules_slots distinct

def indexedRegistry (orders : IndexOrders) (metadata : List FireholMetadata) (entries : List FireholEntry) :
    FireholMetadataRegistry :=
  ((registeredEntries metadata entries).buildRuleBlockIndex orders.blocks entries).buildIpIndex orders.addresses
    entries

theorem rule_blocks_match_ip_index (orders : IndexOrders) (metadata : List FireholMetadata)
    (entries : List FireholEntry) (distinct : (entries.map FireholEntry.ruleId).Nodup)
    (registered : ∀ entry ∈ entries, entry.metadataId ∈ metadata.map FireholMetadata.id) :
    ∀ entry ∈ entries, ∃ context,
      (indexedRegistry orders metadata entries).resolveRuleBlock entry.ruleId = some context ∧
      context ∈ (indexedRegistry orders metadata entries).indexedContexts entry.target ∧
      ((∀ other ∈ entries, other.target.PrefixInRange) →
        (indexedRegistry orders metadata entries).indexedContexts entry.target = [context]) := by
  intro entry member
  have known := fun entry member => lookup_metadataTable (registered entry member)
  have ids : (entries.map fun entry => entry.ruleId.toNat).Nodup := by
    have numbers := distinct.map fun _ _ => BitVec.eq_of_toNat_eq
    rwa [List.map_map] at numbers
  have slots := buildRuleBlockIndex_slots orders.blocks ids known (registeredEntries_slots ids known)
  have table := slots.table
  refine ⟨targetContext (metadataTable metadata) entries entry.target, ?_, ?_, ?_⟩
  · rw [indexedRegistry, buildIpIndex_resolve]
    exact slots.resolve_own (rulesByTarget_complete orders.blocks) known member
  · obtain ⟨groups, built, once, listed⟩ := buildIpIndex_groups (table ▸ known) orders.addresses
    rw [indexedRegistry, built, indexedContexts_groups once, contextsFor, List.mem_filterMap]
    exact ⟨_, (listed entry.target _).mpr ⟨⟨entry, member, rfl⟩, rfl⟩, by rw [if_pos rfl, table]⟩
  · intro range
    rw [indexedRegistry, buildIpIndex_stored registered range orders.addresses table,
      storedFor_target registered range (range entry member), targetContext?, if_pos (List.mem_map_of_mem member)]
    rfl

theorem repeatedLines_match :
    (repeatedLines.map FireholEntry.ruleId).Nodup ∧ ∃ context,
      (indexedRegistry ⟨.arbitrary _, .arbitrary _⟩ [.new "feed.netset".toList 1] repeatedLines).resolveRuleBlock 2#32 =
        some context ∧
      (indexedRegistry ⟨.arbitrary _, .arbitrary _⟩ [.new "feed.netset".toList 1] repeatedLines).indexedContexts
        (.exactV4 (ipv4Octets 192 0 2 1)) = [context] := by
  have distinct : (repeatedLines.map FireholEntry.ruleId).Nodup := by decide
  obtain ⟨context, resolved, _, indexed⟩ := rule_blocks_match_ip_index ⟨.arbitrary _, .arbitrary _⟩
    [.new "feed.netset".toList 1] repeatedLines distinct (by decide) _ (List.mem_cons_of_mem _ List.mem_cons_self)
  exact ⟨distinct, context, resolved, indexed (by simp [repeatedLines, FireholIpTarget.PrefixInRange])⟩

end Agreement

section Imports

variable {sizeInBytes : List Put → Nat} {orders : IndexOrders} {metadata : List FireholMetadata}
  {nextMetadataId : BitVec 32} {batches : List (List FireholEntry)} {imported : ImportedDataSet}

def ruleContext (storage : Storage) (metadata : List FireholMetadata) (entries : List FireholEntry)
    (entry : FireholEntry) : RuleBlockContext :=
  match storage with
  | .memory => targetContext (metadataTable metadata) entries entry.target
  | .database .. => ownContext metadata entry

theorem imported_resolves {storage : Storage} (nonempty : ∀ batch ∈ batches, batch ≠ [])
    (range : ∀ entry ∈ batches.flatten, entry.target.PrefixInRange)
    (registered : ∀ entry ∈ batches.flatten, Registered metadata nextMetadataId entry)
    (numbered : ∀ record ∈ metadata, record.id ≠ 0)
    (done : importBatches sizeInBytes storage orders metadata nextMetadataId batches = some (.ok imported)) :
    Resolves metadata (importedEntries batches) (ruleContext storage metadata (importedEntries batches))
      imported.registry := by
  have distinct := importedEntries_distinct (imported_small nonempty done)
  have known := importedEntries_registered metadata nextMetadataId registered
  cases storage with
  | database archive limit spool =>
      obtain ⟨database, registry, _⟩ := imported_database nonempty range registered done
      rw [registry]
      exact cachedRegistry_resolves distinct numbered known database
  | memory =>
      have found := fun entry member => (known entry member).lookup
      have slots := buildRuleBlockIndex_slots orders.blocks distinct found (memoryRules_slots distinct)
      have shared := slots.resolves (rulesByTarget_complete orders.blocks) numbered found
      rw [imported_memory nonempty registered done]
      refine ⟨?_, shared.within, ?_⟩
      · intro entry member
        rw [buildIpIndex_resolve]
        exact shared.known entry member
      · intro ruleId outside
        rw [buildIpIndex_resolve]
        exact shared.unknown ruleId outside

end Imports

end ReputationFirewall.Firehol
