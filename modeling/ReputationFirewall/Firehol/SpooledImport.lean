import ReputationFirewall.Firehol.StoredImport

set_option autoImplicit false

namespace ReputationFirewall.Firehol

open BigEndian Collect KeyedStore

section Metadata

def metadataTable (metadata : List FireholMetadata) : Store (BitVec 32) FireholMetadata :=
  insertAll ∅ (metadata.map fun record => (record.id, record))

def lightTable (metadata : List FireholMetadata) : LightMetadata :=
  insertAll ∅ (metadata.map fun record => (record.id, (record.category, record.fileName)))

theorem lookup_lightTable (metadata : List FireholMetadata) (id : BitVec 32) :
    (lightTable metadata).lookup id =
      ((metadataTable metadata).lookup id).map fun record => (record.category, record.fileName) := by
  simpa [lightTable, metadataTable, Function.comp_def] using
    lookup_insertAll_map (fun record : FireholMetadata => (record.category, record.fileName))
      (metadata.map fun record => (record.id, record)) id

def Registered (metadata : List FireholMetadata) (nextMetadataId : BitVec 32) (entry : FireholEntry) : Prop :=
  entry.metadataId ∈ metadata.map FireholMetadata.id ∧ entry.metadataId < nextMetadataId

instance (metadata : List FireholMetadata) (nextMetadataId : BitVec 32) (entry : FireholEntry) :
    Decidable (Registered metadata nextMetadataId entry) :=
  inferInstanceAs (Decidable (_ ∧ _))

theorem lookup_metadataTable {metadata : List FireholMetadata} {id : BitVec 32}
    (listed : id ∈ metadata.map FireholMetadata.id) : ∃ record, (metadataTable metadata).lookup id = some record := by
  obtain ⟨record, _, found⟩ := lookup_insertAll_present ∅ (metadata.map fun record => (record.id, record)) id
    (by rwa [List.map_map])
  exact ⟨record, found⟩

theorem Registered.lookup {metadata : List FireholMetadata} {nextMetadataId : BitVec 32} {entry : FireholEntry}
    (registered : Registered metadata nextMetadataId entry) :
    ∃ record, (metadataTable metadata).lookup entry.metadataId = some record :=
  lookup_metadataTable registered.1

def categoryIn (table : Store (BitVec 32) FireholMetadata) (id : BitVec 32) : FireholCategory :=
  ((table.lookup id).map FireholMetadata.category).getD .other

def fileIn (table : Store (BitVec 32) FireholMetadata) (id : BitVec 32) : List Char :=
  ((table.lookup id).map FireholMetadata.fileName).getD []

end Metadata

namespace FireholMetadataRegistry

section Registering

theorem register_memory {registry : FireholMetadataRegistry} (memory : registry.cache = none)
    (metadata : List FireholMetadata) :
    metadata.foldl tryRegisterMetadata registry =
      { registry with
        metadataById := insertAll registry.metadataById (metadata.map fun record => (record.id, record)) } := by
  induction metadata generalizing registry with
  | nil => rfl
  | cons record rest ih =>
      have registered : registry.tryRegisterMetadata record =
          { registry with metadataById := registry.metadataById.insert record.id record } := by
        simp [tryRegisterMetadata, memory]
      simp only [List.foldl_cons, registered]
      exact ih memory

theorem register_cached {registry : FireholMetadataRegistry} (cached : registry.cache.isSome = true)
    (metadata : List FireholMetadata) :
    metadata.foldl tryRegisterMetadata registry =
      { registry with
        metadataLight := insertAll registry.metadataLight
          (metadata.map fun record => (record.id, (record.category, record.fileName))) } := by
  induction metadata generalizing registry with
  | nil => rfl
  | cons record rest ih =>
      have registered : registry.tryRegisterMetadata record =
          { registry with
            metadataLight :=
              registry.metadataLight.insert record.id (record.category, record.fileName) } := by
        simp [tryRegisterMetadata, cached]
      simp only [List.foldl_cons, registered]
      exact ih cached

def ruleSlots (table : Store (BitVec 32) FireholMetadata) (rules : List RuleBlockEntry)
    (entries : List FireholEntry) : List RuleBlockEntry :=
  entries.foldl (fun rules entry => putAt .placeholder rules entry.ruleId.toNat
    ⟨entry.metadataId, categoryIn table entry.metadataId, entry.line, none⟩) rules

def cacheSlots (slots : List (BitVec 32 × BitVec 32)) (entries : List FireholEntry) :
    List (BitVec 32 × BitVec 32) :=
  entries.foldl (fun slots entry =>
    putAt (0, 0) slots entry.ruleId.toNat (entry.metadataId, entry.line)) slots

theorem registerParsed_all {registry : FireholMetadataRegistry} (memory : registry.cache = none)
    {entries : List FireholEntry}
    (known : ∀ entry ∈ entries, ∃ record, registry.metadataById.lookup entry.metadataId = some record) :
    entries.foldl registerParsed registry =
      { registry with
        rules := ruleSlots registry.metadataById registry.rules entries
        ruleCount := registry.ruleCount + entries.length
        categoryCounts := bumpAll registry.categoryCounts
          (entries.map fun entry => (categoryIn registry.metadataById entry.metadataId, 1))
        blocklistCounts := bumpAll registry.blocklistCounts
          (entries.map fun entry => (fileIn registry.metadataById entry.metadataId, 1)) } := by
  induction entries generalizing registry with
  | nil => rfl
  | cons entry rest ih =>
      obtain ⟨record, found⟩ := known entry List.mem_cons_self
      have registered : registry.registerParsed entry =
          { registry with
            rules := putAt .placeholder registry.rules entry.ruleId.toNat
              ⟨entry.metadataId, categoryIn registry.metadataById entry.metadataId, entry.line, none⟩
            ruleCount := registry.ruleCount + 1
            categoryCounts := bump registry.categoryCounts
              (categoryIn registry.metadataById entry.metadataId) 1
            blocklistCounts := bump registry.blocklistCounts
              (fileIn registry.metadataById entry.metadataId) 1 } := by
        simp [registerParsed, registerRule, categoryFor, fileNameFor, memory, found, categoryIn, fileIn]
      rw [List.foldl_cons, registered, ih]
      · simp only [ruleSlots, List.foldl_cons, List.length_cons, List.map_cons, bumpAll, Nat.add_assoc,
          Nat.add_comm 1]
      · exact memory
      · exact fun other member => known other (List.mem_cons_of_mem _ member)

theorem registerCachedEntry_all (registry : FireholMetadataRegistry) (entries : List FireholEntry) :
    entries.foldl registerCachedEntry registry =
      { registry with
        rulesCache := cacheSlots registry.rulesCache entries
        ruleCount := registry.ruleCount + entries.length } := by
  induction entries generalizing registry with
  | nil => rfl
  | cons entry rest ih =>
      simp only [List.foldl_cons, ih, registerCachedEntry, cacheSlots, List.length_cons, Nat.add_assoc,
        Nat.add_comm 1]

end Registering

section Counting

theorem countNumbers {registry : FireholMetadataRegistry} {table : Store (BitVec 32) FireholMetadata}
    (light : ∀ id, registry.metadataLight.lookup id =
      (table.lookup id).map fun record => (record.category, record.fileName))
    {occurrences : Nat → Nat} {numbers : List Nat}
    (known : ∀ number ∈ numbers, 0 < occurrences number →
      ∃ record, table.lookup (BitVec.ofNat 32 number) = some record) :
    numbers.foldl (fun registry number => if 0 < occurrences number then
        registry.countCachedMetadata (BitVec.ofNat 32 number) (occurrences number) else registry) registry =
      { registry with
        categoryCounts := bumpAll registry.categoryCounts (numbers.filterMap fun number =>
          if 0 < occurrences number then
            some (categoryIn table (BitVec.ofNat 32 number), occurrences number) else none)
        blocklistCounts := bumpAll registry.blocklistCounts (numbers.filterMap fun number =>
          if 0 < occurrences number then
            some (fileIn table (BitVec.ofNat 32 number), occurrences number) else none) } := by
  induction numbers generalizing registry with
  | nil => rfl
  | cons number rest ih =>
      have later := fun other member => known other (List.mem_cons_of_mem number member)
      rw [List.foldl_cons]
      by_cases occurs : 0 < occurrences number
      · obtain ⟨record, found⟩ := known number List.mem_cons_self occurs
        have counted : registry.countCachedMetadata (BitVec.ofNat 32 number) (occurrences number) =
            { registry with
              categoryCounts := bump registry.categoryCounts
                (categoryIn table (BitVec.ofNat 32 number)) (occurrences number)
              blocklistCounts := bump registry.blocklistCounts
                (fileIn table (BitVec.ofNat 32 number)) (occurrences number) } := by
          simp [countCachedMetadata, light, found, categoryIn, fileIn]
        rw [if_pos occurs, counted, ih]
        · simp only [List.filterMap_cons, if_pos occurs, bumpAll, List.foldl_cons]
        · exact light
        · exact later
      · rw [if_neg occurs, ih light later]
        simp only [List.filterMap_cons, if_neg occurs]

theorem countAll_grouped {registry : FireholMetadataRegistry} {table : Store (BitVec 32) FireholMetadata}
    (light : ∀ id, registry.metadataLight.lookup id =
      (table.lookup id).map fun record => (record.category, record.fileName))
    {size : Nat} {items : List Nat}
    (known : ∀ item ∈ items, ∃ record, table.lookup (BitVec.ofNat 32 item) = some record) :
    registry.countAll ((List.range size).map fun number => items.count number) =
      { registry with
        categoryCounts := bumpAll registry.categoryCounts
          (grouped (fun number => categoryIn table (BitVec.ofNat 32 number)) size items)
        blocklistCounts := bumpAll registry.blocklistCounts
          (grouped (fun number => fileIn table (BitVec.ofNat 32 number)) size items) } := by
  have indexed : ((List.range size).map fun number => items.count number).zipIdx =
      (List.range size).map fun number => (items.count number, number) := by
    apply List.ext_getElem
    · simp
    · intro index _ _
      simp
  rw [countAll, indexed, List.foldl_map]
  exact countNumbers light fun number _ occurs => known number (List.count_pos_iff.mp occurs)

end Counting

section Frames

structure SameTables (before after : FireholMetadataRegistry) : Prop where
  cache : after.cache = before.cache
  metadata : after.metadataById = before.metadataById
  count : after.ruleCount = before.ruleCount
  categories : after.categoryCounts = before.categoryCounts
  blocklists : after.blocklistCounts = before.blocklistCounts

theorem SameTables.trans {first second third : FireholMetadataRegistry} (earlier : SameTables first second)
    (later : SameTables second third) : SameTables first third :=
  ⟨later.cache.trans earlier.cache, later.metadata.trans earlier.metadata, later.count.trans earlier.count,
    later.categories.trans earlier.categories, later.blocklists.trans earlier.blocklists⟩

theorem SameTables.fold {α : Type} {step : FireholMetadataRegistry → α → FireholMetadataRegistry}
    (each : ∀ registry item, SameTables registry (step registry item)) (registry : FireholMetadataRegistry)
    (items : List α) : SameTables registry (items.foldl step registry) := by
  induction items generalizing registry with
  | nil => exact ⟨rfl, rfl, rfl, rfl, rfl⟩
  | cons item rest ih => exact (each registry item).trans (ih (step registry item))

theorem buildRuleBlockIndex_tables (order : HashOrder FireholIpTarget) (registry : FireholMetadataRegistry)
    (entries : List FireholEntry) : SameTables registry (registry.buildRuleBlockIndex order entries) := by
  unfold buildRuleBlockIndex
  split_ifs
  · exact ⟨rfl, rfl, rfl, rfl, rfl⟩
  · apply SameTables.fold
    intro before group
    unfold shareBlock
    split_ifs <;> exact ⟨rfl, rfl, rfl, rfl, rfl⟩

theorem buildIpIndex_tables (order : HashOrder FireholIpTarget) (registry : FireholMetadataRegistry)
    (entries : List FireholEntry) : SameTables registry (registry.buildIpIndex order entries) := by
  have each (before : FireholMetadataRegistry) (target : FireholIpTarget) (context : RuleBlockContext) :
      SameTables before (before.indexTarget target context) := by
    cases target <;> exact ⟨rfl, rfl, rfl, rfl, rfl⟩
  have cleared : SameTables registry registry.clearIpIndex := ⟨rfl, rfl, rfl, rfl, rfl⟩
  exact cleared.trans (SameTables.fold (fun before group => each before _ _) _ _)

end Frames

end FireholMetadataRegistry

section Results

variable (sizeInBytes : List Put → Nat) (orders : IndexOrders) (metadata : List FireholMetadata)
  (nextMetadataId : BitVec 32) {batches : List (List FireholEntry)}

def importedEntries (batches : List (List FireholEntry)) : List FireholEntry := (numberBatches 0 batches).flatten

theorem importBatches_memory (small : batches.flatten.length < 2 ^ 32) :
    importBatches sizeInBytes .memory orders metadata nextMetadataId batches =
      some (.ok (buildMemory orders metadata ⟨importedEntries batches, none⟩ (importedEntries batches))) := by
  obtain ⟨sequence, consumed⟩ := consumeBatches_memory sizeInBytes small
  simp only [importBatches, consumed]
  rfl

theorem importBatches_overflow (nonempty : ∀ batch ∈ batches, batch ≠ [])
    (large : 2 ^ 32 ≤ batches.flatten.length) (storage : Storage) :
    importBatches sizeInBytes storage orders metadata nextMetadataId batches =
      some (.error ruleIdOverflow) := by
  have started : (BatchConsumer.start storage).sequence = 0 := by cases storage <;> rfl
  have failed := receive_overflow sizeInBytes storage.spool nonempty
    (by rw [started]; decide) (by rw [started]; omega)
  simp only [importBatches, consumeBatches, failed]
  rfl

def cachedRegistry (entries : List FireholEntry) (database : Database) : FireholMetadataRegistry :=
  { FireholMetadataRegistry.new with
    cache := some database
    metadataLight := lightTable metadata
    rulesCache := FireholMetadataRegistry.cacheSlots [] entries
    ruleCount := entries.length
    categoryCounts := bumpAll ∅ (grouped (fun number => categoryIn (metadataTable metadata) (BitVec.ofNat 32 number))
      nextMetadataId.toNat (entries.map fun entry => entry.metadataId.toNat))
    blocklistCounts := bumpAll ∅ (grouped (fun number => fileIn (metadataTable metadata) (BitVec.ofNat 32 number))
      nextMetadataId.toNat (entries.map fun entry => entry.metadataId.toNat)) }

theorem ofNat_metadataId (entry : FireholEntry) :
    BitVec.ofNat 32 entry.metadataId.toNat = entry.metadataId := by simp

theorem metadataCounts_eq {entries : List FireholEntry}
    (registered : ∀ entry ∈ entries, Registered metadata nextMetadataId entry) :
    metadataCounts nextMetadataId entries = some ((List.range nextMetadataId.toNat).map fun number =>
      (entries.map fun entry => entry.metadataId.toNat).count number) := by
  have inside : (entries.all fun entry => entry.metadataId < nextMetadataId) = true := by
    simpa using fun entry member => (registered entry member).2
  rw [metadataCounts, if_pos inside, ← tally_eq_count, List.foldl_map]

def HoldsContexts (entries : List FireholEntry) (database : Database) : Prop :=
  ∀ key, database.getRuleContext key =
    if key ∈ entries.map (fun entry => entry.target.contextKey) then
      some (keyContext (lightTable metadata) entries key)
    else none

theorem buildCached_ok {entries : List FireholEntry} (small : entries.length < 2 ^ 32)
    (registered : ∀ entry ∈ entries, Registered metadata nextMetadataId entry) {writer : ColumnWriter}
    (flushed : writer.batch = []) (stored : writer.database.contributions = insertAll ∅ (contributions 0 entries))
    (fresh : writer.database.ruleContext = ∅) (dataset : FireholDataSet) :
    ∃ database, buildCached sizeInBytes metadata nextMetadataId dataset entries writer =
        some (.ok { dataset with
          counts := entries.foldl KindCounts.count ⟨0, 0, 0, 0⟩
          registry := cachedRegistry metadata nextMetadataId entries database }) ∧
      HoldsContexts metadata entries database := by
  have found : ∀ entry ∈ entries, ∃ record, (metadataTable metadata).lookup entry.metadataId = some record :=
    fun entry member => (registered entry member).lookup
  have light : ∀ entry ∈ entries, ((lightTable metadata).lookup entry.metadataId).isSome := by
    intro entry member
    obtain ⟨record, known⟩ := found entry member
    simp [lookup_lightTable, known]
  obtain ⟨result, built, contexts⟩ :=
    buildOrderedContexts_ok sizeInBytes (by omega) light flushed stored fresh
  refine ⟨{ result.settled with contributions := ∅ }, ?_, contexts⟩
  have known : ∀ item ∈ entries.map fun entry => entry.metadataId.toNat,
      ∃ record, (metadataTable metadata).lookup (BitVec.ofNat 32 item) = some record := by
    intro item listed
    obtain ⟨entry, member, rfl⟩ := List.mem_map.mp listed
    rw [ofNat_metadataId]
    exact found entry member
  have prepared : (entries.foldl FireholMetadataRegistry.registerCachedEntry
      (metadata.foldl FireholMetadataRegistry.tryRegisterMetadata (.withCache writer.database))).countAll
        ((List.range nextMetadataId.toNat).map fun number =>
          (entries.map fun entry => entry.metadataId.toNat).count number) =
      cachedRegistry metadata nextMetadataId entries writer.database := by
    rw [FireholMetadataRegistry.register_cached rfl, FireholMetadataRegistry.registerCachedEntry_all,
      FireholMetadataRegistry.countAll_grouped (lookup_lightTable metadata) known]
    simp [cachedRegistry, FireholMetadataRegistry.withCache, FireholMetadataRegistry.new, lightTable]
  have table : (cachedRegistry metadata nextMetadataId entries writer.database).metadataLight =
      lightTable metadata := rfl
  rw [buildCached, metadataCounts_eq metadata nextMetadataId registered]
  simp only [Option.map_some, prepared, table, built]
  rfl

theorem importedEntries_range (range : ∀ entry ∈ batches.flatten, entry.target.PrefixInRange) :
    ∀ entry ∈ importedEntries batches, entry.target.PrefixInRange := by
  intro entry listed
  obtain ⟨source, member, target, _, _⟩ := mem_numberBatches listed
  rw [target]
  exact range source member

theorem importedEntries_registered
    (registered : ∀ entry ∈ batches.flatten, Registered metadata nextMetadataId entry) :
    ∀ entry ∈ importedEntries batches, Registered metadata nextMetadataId entry := by
  intro entry listed
  obtain ⟨source, member, _, number, _⟩ := mem_numberBatches listed
  rw [Registered, number]
  exact registered source member

def keptDataset (spool : Bool) (entries : List FireholEntry) (database : Database) : FireholDataSet where
  entries := if spool then [] else entries
  storedEntries := if spool then some ⟨database.entries, none⟩ else none

theorem importBatches_scanned {storage : Storage} {consumer : BatchConsumer} {writer : ColumnWriter}
    {entries : List FireholEntry} (consumed : consumeBatches sizeInBytes storage batches = .ok consumer)
    (visited : FireholDataSet.visitEntries ⟨consumer.allEntries, if storage.spool then
      consumer.writer.map fun writer => ⟨writer.database.entries, none⟩ else none⟩ = .ok entries)
    (written : consumer.writer = some writer) :
    importBatches sizeInBytes storage orders metadata nextMetadataId batches =
      buildCached sizeInBytes metadata nextMetadataId ⟨consumer.allEntries, if storage.spool then
        consumer.writer.map fun writer => ⟨writer.database.entries, none⟩ else none⟩ entries writer := by
  simp only [importBatches, consumed, visited]
  simp only [written]

theorem importBatches_database (archive : Archive) (limit : Nat) (spool : Bool)
    (nonempty : ∀ batch ∈ batches, batch ≠ [])
    (range : ∀ entry ∈ batches.flatten, entry.target.PrefixInRange)
    (registered : ∀ entry ∈ batches.flatten, Registered metadata nextMetadataId entry)
    (small : batches.flatten.length < 2 ^ 32) :
    ∃ (spooled database : Database),
      importBatches sizeInBytes (.database archive limit spool) orders metadata nextMetadataId batches =
        some (.ok { keptDataset spool (importedEntries batches) spooled with
          counts := (importedEntries batches).foldl KindCounts.count ⟨0, 0, 0, 0⟩
          registry := cachedRegistry metadata nextMetadataId (importedEntries batches) database }) ∧
      (keptDataset spool (importedEntries batches) spooled).visitEntries = .ok (importedEntries batches) ∧
      HoldsContexts metadata (importedEntries batches) database := by
  obtain ⟨sequence, writer, consumed, flushed, database⟩ :=
    consumeBatches_database sizeInBytes archive limit spool small
  have length : (importedEntries batches).length = batches.flatten.length := numberBatches_length 0 batches
  have stored : writer.database.contributions = insertAll ∅ (contributions 0 (importedEntries batches)) := by
    rw [database, spooledDatabase, Database.writeAll_eq]
    simp only [importPuts_contributions, Database.new, importedEntries]
  have fresh : writer.database.ruleContext = ∅ := by
    rw [database, spooledDatabase, Database.writeAll_eq]
    simp only [importPuts_contexts, Database.new]
    rfl
  have visited : (keptDataset spool (importedEntries batches) writer.database).visitEntries =
      .ok (importedEntries batches) := by
    cases spool with
    | false => rfl
    | true =>
        have blocks : writer.database.entries = insertAll ∅ (keyedBlocks 0 (numberBatches 0 batches)) := by
          rw [database, spooledDatabase, Database.writeAll_eq]
          simp only [importPuts_blocks, Database.new]
        simp only [keptDataset, blocks, if_true]
        exact visitEntries_spooled (numberBatches_nonempty nonempty)
          (by rw [numberBatches_length]; omega) (importedEntries_range range) _
  obtain ⟨contexts, built, holds⟩ := buildCached_ok sizeInBytes metadata nextMetadataId
    (by omega) (importedEntries_registered metadata nextMetadataId registered) flushed stored fresh
    (keptDataset spool (importedEntries batches) writer.database)
  refine ⟨writer.database, contexts, ?_, visited, holds⟩
  exact (importBatches_scanned sizeInBytes orders metadata nextMetadataId consumed visited rfl).trans built

end Results

section Equivalence

structure SameImport (first second : ImportedDataSet) : Prop where
  visited : ∃ entries, first.visitEntries = .ok entries ∧ second.visitEntries = .ok entries
  kinds : first.counts = second.counts
  categories : ∀ category,
    first.registry.categoryCounts.lookup category = second.registry.categoryCounts.lookup category
  blocklists : ∀ file,
    first.registry.blocklistCounts.lookup file = second.registry.blocklistCounts.lookup file
  prepared : ∃ result, tryPrepareRules first.toFireholDataSet = .ok result ∧
    tryPrepareRules second.toFireholDataSet = .ok result

variable (sizeInBytes : List Put → Nat) (orders : IndexOrders) {metadata : List FireholMetadata}
  {nextMetadataId : BitVec 32}

theorem grouped_matches_rules {K : Type} [DecidableEq K] (classOf : BitVec 32 → K)
    {entries : List FireholEntry} (registered : ∀ entry ∈ entries, Registered metadata nextMetadataId entry)
    (key : K) :
    (bumpAll ∅ (grouped (fun number => classOf (BitVec.ofNat 32 number)) nextMetadataId.toNat
      (entries.map fun entry => entry.metadataId.toNat))).lookup key =
    (bumpAll ∅ (entries.map fun entry => (classOf entry.metadataId, 1))).lookup key := by
  have inside : ∀ item ∈ entries.map fun entry => entry.metadataId.toNat, item < nextMetadataId.toNat := by
    intro item listed
    obtain ⟨entry, member, rfl⟩ := List.mem_map.mp listed
    exact BitVec.lt_def.mp (registered entry member).2
  rw [lookup_bumpAll_grouped _ inside, List.map_map]
  simp only [Function.comp_def, ofNat_metadataId]

def memoryRules (metadata : List FireholMetadata) (entries : List FireholEntry) : FireholMetadataRegistry :=
  { FireholMetadataRegistry.new with
    metadataById := metadataTable metadata
    rules := FireholMetadataRegistry.ruleSlots (metadataTable metadata) [] entries
    ruleCount := entries.length
    categoryCounts := bumpAll ∅ (entries.map fun entry => (categoryIn (metadataTable metadata) entry.metadataId, 1))
    blocklistCounts := bumpAll ∅ (entries.map fun entry => (fileIn (metadataTable metadata) entry.metadataId, 1)) }

theorem registerParsed_memory {entries : List FireholEntry}
    (registered : ∀ entry ∈ entries, Registered metadata nextMetadataId entry) :
    entries.foldl FireholMetadataRegistry.registerParsed
        (metadata.foldl FireholMetadataRegistry.tryRegisterMetadata .new) = memoryRules metadata entries := by
  rw [FireholMetadataRegistry.register_memory rfl, FireholMetadataRegistry.registerParsed_all]
  · simp [memoryRules, FireholMetadataRegistry.new, metadataTable]
  · rfl
  · exact fun entry member => (registered entry member).lookup

theorem buildMemory_tables {entries : List FireholEntry}
    (registered : ∀ entry ∈ entries, Registered metadata nextMetadataId entry) :
    FireholMetadataRegistry.SameTables (memoryRules metadata entries)
      (buildMemory orders metadata ⟨entries, none⟩ entries).registry := by
  simp only [buildMemory, registerParsed_memory registered]
  exact (FireholMetadataRegistry.buildRuleBlockIndex_tables orders.blocks (memoryRules metadata entries) entries).trans
    (FireholMetadataRegistry.buildIpIndex_tables orders.addresses _ entries)

theorem spooled_import_matches_memory (archive : Archive) (limit : Nat) {batches : List (List FireholEntry)}
    (nonempty : ∀ batch ∈ batches, batch ≠ [])
    (range : ∀ entry ∈ batches.flatten, entry.target.PrefixInRange)
    (registered : ∀ entry ∈ batches.flatten, Registered metadata nextMetadataId entry) :
    (batches.flatten.length < 2 ^ 32 ∧ ∃ spooled memory,
      importBatches sizeInBytes (.database archive limit true) orders metadata nextMetadataId batches =
          some (.ok spooled) ∧
        importBatches sizeInBytes .memory orders metadata nextMetadataId batches = some (.ok memory) ∧
        SameImport spooled memory) ∨
    2 ^ 32 ≤ batches.flatten.length ∧ ∀ storage,
      importBatches sizeInBytes storage orders metadata nextMetadataId batches =
        some (.error ruleIdOverflow) := by
  rcases Nat.lt_or_ge batches.flatten.length (2 ^ 32) with small | large
  · obtain ⟨kept, database, imported, visited, _⟩ := importBatches_database sizeInBytes orders metadata
      nextMetadataId archive limit true nonempty range registered small
    have known := importedEntries_registered metadata nextMetadataId registered
    have tables := @buildMemory_tables orders metadata nextMetadataId _ known
    have scanned : (buildMemory orders metadata ⟨importedEntries batches, none⟩
        (importedEntries batches)).visitEntries = .ok (importedEntries batches) := rfl
    refine Or.inl ⟨small, _, _, imported, importBatches_memory sizeInBytes orders metadata nextMetadataId small, ?_⟩
    refine ⟨⟨_, visited, scanned⟩, rfl, ?_, ?_, ?_⟩
    · intro category
      rw [tables.categories]
      exact grouped_matches_rules (categoryIn (metadataTable metadata)) known category
    · intro file
      rw [tables.blocklists]
      exact grouped_matches_rules (fileIn (metadataTable metadata)) known file
    · refine ⟨prepareEntries (importedEntries batches), ?_, ?_⟩
      · simp only [tryPrepareRules, visited]
      · simp only [tryPrepareRules, scanned]
  · exact Or.inr ⟨large, importBatches_overflow sizeInBytes orders metadata nextMetadataId nonempty large⟩

def sampleMetadata : List FireholMetadata :=
  [{ FireholMetadata.new "dshield.netset".toList 1 with category := .attacks },
    .new "bogons.netset".toList 2]

def sampleBatches : List (List FireholEntry) :=
  [[⟨.exactV4 #v[192, 0, 2, 1], 0, 1, 7⟩, ⟨.cidrV4 24 #v[198, 51, 100, 0], 0, 1, 8⟩],
    [⟨.exactV4 #v[192, 0, 2, 1], 0, 2, 3⟩]]

theorem sampleBatches_spooled :
    ∃ spooled memory,
      importBatches List.length (.database .counting 0 true) ⟨.arbitrary _, .arbitrary _⟩ sampleMetadata 3
          sampleBatches = some (.ok spooled) ∧
        importBatches List.length .memory ⟨.arbitrary _, .arbitrary _⟩ sampleMetadata 3 sampleBatches =
          some (.ok memory) ∧
        SameImport spooled memory := by
  have small : sampleBatches.flatten.length = 3 := rfl
  rcases spooled_import_matches_memory List.length ⟨.arbitrary _, .arbitrary _⟩ .counting 0
    (show ∀ batch ∈ sampleBatches, batch ≠ [] by decide)
    (by simp [sampleBatches, FireholIpTarget.PrefixInRange])
    (show ∀ entry ∈ sampleBatches.flatten, Registered sampleMetadata 3 entry by decide) with
    ⟨_, same⟩ | ⟨large, _⟩
  · exact same
  · rw [small] at large
    omega

end Equivalence

end ReputationFirewall.Firehol
