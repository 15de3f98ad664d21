import ReputationFirewall.Firehol.OrderedContexts
import ReputationFirewall.Firehol.Pipeline
import ReputationFirewall.Firehol.SyncManager

set_option autoImplicit false

namespace ReputationFirewall.Firehol

open BigEndian Collect KeyedStore

section Consuming

inductive Storage where
  | memory
  | database (archive : Archive) (limit : Nat) (spool : Bool)

structure BatchConsumer where
  sequence : Nat
  allEntries : List FireholEntry
  writer : Option ColumnWriter

variable (sizeInBytes : List Put → Nat)

def BatchConsumer.start : Storage → BatchConsumer
  | .memory => ⟨0, [], none⟩
  | .database archive limit _ => ⟨0, [], some (.new (.new archive) limit)⟩

def Storage.spool : Storage → Bool
  | .memory => false
  | .database _ _ spool => spool

def BatchConsumer.receive (spool : Bool) (consumer : BatchConsumer) (batch : List FireholEntry) :
    Except FireholParseError BatchConsumer :=
  match assignIds consumer.sequence batch with
  | none => .error ruleIdOverflow
  | some entries => .ok
      { sequence := consumer.sequence + entries.length
        allEntries := if spool && consumer.writer.isSome then consumer.allEntries
          else consumer.allEntries ++ entries
        writer := consumer.writer.map fun writer =>
          writer.entries sizeInBytes entries consumer.sequence spool }

def consumeBatches (storage : Storage) (batches : List (List FireholEntry)) :
    Except FireholParseError BatchConsumer :=
  (batches.foldlM (BatchConsumer.receive sizeInBytes storage.spool) (.start storage)).map fun consumer =>
    { consumer with writer := consumer.writer.map ColumnWriter.commit }

end Consuming

section Building

structure KindCounts where
  exactV4 : Nat
  exactV6 : Nat
  lpmV4 : Nat
  lpmV6 : Nat
  deriving DecidableEq

def KindCounts.count (counts : KindCounts) (entry : FireholEntry) : KindCounts :=
  match entry.target with
  | .exactV4 _ => { counts with exactV4 := counts.exactV4 + 1 }
  | .exactV6 _ => { counts with exactV6 := counts.exactV6 + 1 }
  | .cidrV4 _ _ => { counts with lpmV4 := counts.lpmV4 + 1 }
  | .cidrV6 _ _ => { counts with lpmV6 := counts.lpmV6 + 1 }

structure ImportedDataSet extends FireholDataSet where
  counts : KindCounts
  registry : FireholMetadataRegistry

-- Counting an entry beyond the last metadata number panics.
def metadataCounts (nextMetadataId : BitVec 32) (entries : List FireholEntry) : Option (List Nat) :=
  if entries.all fun entry => entry.metadataId < nextMetadataId then
    some (entries.foldl (fun counts entry => counts.modify entry.metadataId.toNat (· + 1))
      (List.replicate nextMetadataId.toNat 0))
  else none

def FireholMetadataRegistry.countAll (registry : FireholMetadataRegistry) (counts : List Nat) :
    FireholMetadataRegistry :=
  counts.zipIdx.foldl (fun registry (count, id) =>
    if 0 < count then registry.countCachedMetadata (BitVec.ofNat 32 id) count else registry) registry

def FireholMetadataRegistry.registerParsed (registry : FireholMetadataRegistry) (entry : FireholEntry) :
    FireholMetadataRegistry :=
  registry.registerRule
    ⟨entry.ruleId, entry.metadataId, (registry.categoryFor entry.metadataId).getD .other, entry.line⟩

structure IndexOrders where
  blocks : HashOrder FireholIpTarget
  addresses : HashOrder FireholIpTarget

variable (sizeInBytes : List Put → Nat)

def buildMemory (orders : IndexOrders) (metadata : List FireholMetadata) (dataset : FireholDataSet)
    (entries : List FireholEntry) : ImportedDataSet :=
  let registry := metadata.foldl FireholMetadataRegistry.tryRegisterMetadata .new
  let registry := entries.foldl FireholMetadataRegistry.registerParsed registry
  { dataset with
    counts := entries.foldl KindCounts.count ⟨0, 0, 0, 0⟩
    registry := (registry.buildRuleBlockIndex orders.blocks dataset.entries).buildIpIndex orders.addresses
      dataset.entries }

-- The contributions are dropped once the contexts are written.
def buildCached (metadata : List FireholMetadata) (nextMetadataId : BitVec 32) (dataset : FireholDataSet)
    (entries : List FireholEntry) (writer : ColumnWriter) :
    Option (Except FireholParseError ImportedDataSet) :=
  let registry := metadata.foldl FireholMetadataRegistry.tryRegisterMetadata (.withCache writer.database)
  (metadataCounts nextMetadataId entries).map fun counts =>
    let registry :=
      (entries.foldl FireholMetadataRegistry.registerCachedEntry registry).countAll counts
    match buildOrderedContexts sizeInBytes registry.metadataLight writer with
    | .error error => .error (.cache error)
    | .ok writer => .ok { dataset with
        counts := entries.foldl KindCounts.count ⟨0, 0, 0, 0⟩
        registry := { registry with cache := some { writer.commit.database with contributions := ∅ } } }

def importBatches (storage : Storage) (orders : IndexOrders) (metadata : List FireholMetadata)
    (nextMetadataId : BitVec 32) (batches : List (List FireholEntry)) :
    Option (Except FireholParseError ImportedDataSet) :=
  match consumeBatches sizeInBytes storage batches with
  | .error error => some (.error error)
  | .ok consumer =>
      let dataset : FireholDataSet :=
        { entries := consumer.allEntries
          storedEntries := if storage.spool then
            consumer.writer.map fun writer => ⟨writer.database.entries, none⟩ else none }
      match dataset.visitEntries with
      | .error error => some (.error (.cache error))
      | .ok entries =>
          match consumer.writer with
          | none => some (.ok (buildMemory orders metadata dataset entries))
          | some writer => buildCached sizeInBytes metadata nextMetadataId dataset entries writer

end Building

section Numbering

def numberBatches : Nat → List (List FireholEntry) → List (List FireholEntry)
  | _, [] => []
  | sequence, batch :: rest =>
      (batch.mapIdx fun offset entry => { entry with ruleId := BitVec.ofNat 32 (sequence + offset + 1) }) ::
        numberBatches (sequence + batch.length) rest

theorem numberBatches_length (sequence : Nat) (batches : List (List FireholEntry)) :
    (numberBatches sequence batches).flatten.length = batches.flatten.length := by
  induction batches generalizing sequence with
  | nil => rfl
  | cons batch rest ih => simp [numberBatches, ih]

theorem numberBatches_nonempty {batches : List (List FireholEntry)} (nonempty : ∀ batch ∈ batches, batch ≠ [])
    {sequence : Nat} : ∀ block ∈ numberBatches sequence batches, block ≠ [] := by
  induction batches generalizing sequence with
  | nil => simp [numberBatches]
  | cons batch rest ih =>
      intro block listed
      rcases List.mem_cons.mp listed with rfl | later
      · simpa using nonempty batch List.mem_cons_self
      · exact ih (fun other member => nonempty other (List.mem_cons_of_mem _ member)) block later

theorem mem_numberBatches {sequence : Nat} {batches : List (List FireholEntry)} {entry : FireholEntry}
    (listed : entry ∈ (numberBatches sequence batches).flatten) :
    ∃ source ∈ batches.flatten, entry.target = source.target ∧ entry.metadataId = source.metadataId ∧
      entry.line = source.line := by
  induction batches generalizing sequence with
  | nil => simp [numberBatches] at listed
  | cons batch rest ih =>
      rw [numberBatches, List.flatten_cons, List.mem_append] at listed
      rw [List.flatten_cons]
      rcases listed with first | later
      · obtain ⟨offset, inside, rfl⟩ := List.mem_mapIdx.mp first
        exact ⟨batch[offset], List.mem_append_left _ (List.getElem_mem inside), rfl, rfl, rfl⟩
      · obtain ⟨source, member, same⟩ := ih later
        exact ⟨source, List.mem_append_right _ member, same⟩

end Numbering

section Consumption

variable (sizeInBytes : List Put → Nat)

def importPuts (spool : Bool) : Nat → List (List FireholEntry) → List Put
  | _, [] => []
  | sequence, block :: rest => blockPuts block sequence spool ++ importPuts spool (sequence + block.length) rest

theorem receive_all (spool : Bool) {consumer : BatchConsumer} {batches : List (List FireholEntry)}
    (small : consumer.sequence + batches.flatten.length < 2 ^ 32) :
    ∃ final, batches.foldlM (BatchConsumer.receive sizeInBytes spool) consumer = .ok final ∧
      final.allEntries = (if spool && consumer.writer.isSome then consumer.allEntries
        else consumer.allEntries ++ (numberBatches consumer.sequence batches).flatten) ∧
      final.writer.map ColumnWriter.settled = consumer.writer.map fun writer =>
        writer.settled.writeAll (importPuts spool consumer.sequence (numberBatches consumer.sequence batches)) := by
  induction batches generalizing consumer with
  | nil =>
      refine ⟨consumer, rfl, ?_, ?_⟩
      · simp [numberBatches]
      · cases consumer.writer <;> rfl
  | cons batch rest ih =>
      rw [List.flatten_cons, List.length_append] at small
      have assigned : assignIds consumer.sequence batch = some (batch.mapIdx fun offset entry =>
          { entry with ruleId := BitVec.ofNat 32 (consumer.sequence + offset + 1) }) :=
        if_pos (Or.inr (by omega))
      have received : consumer.receive sizeInBytes spool batch = .ok
          { sequence := consumer.sequence + batch.length
            allEntries := if spool && consumer.writer.isSome then consumer.allEntries
              else consumer.allEntries ++ batch.mapIdx fun offset entry =>
                { entry with ruleId := BitVec.ofNat 32 (consumer.sequence + offset + 1) }
            writer := consumer.writer.map fun writer => writer.entries sizeInBytes
              (batch.mapIdx fun offset entry =>
                { entry with ruleId := BitVec.ofNat 32 (consumer.sequence + offset + 1) })
              consumer.sequence spool } := by
        simp only [BatchConsumer.receive, assigned, List.length_mapIdx]
      obtain ⟨final, reached, entries, writer⟩ := @ih
        { sequence := consumer.sequence + batch.length
          allEntries := _
          writer := consumer.writer.map _ } (by simp only; omega)
      refine ⟨final, ?_, ?_, ?_⟩
      · rw [List.foldlM_cons, received]
        exact reached
      · rw [entries]
        cases mode : spool && consumer.writer.isSome <;> simp [mode, numberBatches]
      · rw [writer, numberBatches, importPuts, List.length_mapIdx]
        cases consumer.writer with
        | none => rfl
        | some own =>
            simp only [Option.map_some, ColumnWriter.settled_entries, Database.writeAll_append]

theorem receive_overflow (spool : Bool) {consumer : BatchConsumer} {batches : List (List FireholEntry)}
    (nonempty : ∀ batch ∈ batches, batch ≠ []) (started : consumer.sequence < 2 ^ 32)
    (large : 2 ^ 32 ≤ consumer.sequence + batches.flatten.length) :
    batches.foldlM (BatchConsumer.receive sizeInBytes spool) consumer = .error ruleIdOverflow := by
  induction batches generalizing consumer with
  | nil =>
      simp only [List.flatten_nil, List.length_nil] at large
      omega
  | cons batch rest ih =>
      rw [List.flatten_cons, List.length_append] at large
      by_cases fits : consumer.sequence + batch.length < 2 ^ 32
      · have assigned : assignIds consumer.sequence batch = some (batch.mapIdx fun offset entry =>
            { entry with ruleId := BitVec.ofNat 32 (consumer.sequence + offset + 1) }) :=
          if_pos (Or.inr fits)
        rw [List.foldlM_cons, BatchConsumer.receive, assigned]
        apply ih fun other member => nonempty other (List.mem_cons_of_mem _ member)
        · simpa using fits
        · simp only [List.length_mapIdx]
          omega
      · have refused : assignIds consumer.sequence batch = none :=
          if_neg fun accepted => accepted.elim (nonempty batch List.mem_cons_self) fits
        rw [List.foldlM_cons, BatchConsumer.receive, refused]
        rfl

theorem contributions_append (sequence : Nat) (first second : List FireholEntry) :
    contributions sequence (first ++ second) =
      contributions sequence first ++ contributions (sequence + first.length) second := by
  induction first generalizing sequence with
  | nil => rfl
  | cons entry rest ih =>
      rw [List.cons_append, contributions, ih, contributions, List.length_cons, List.cons_append,
        Nat.add_assoc, Nat.add_comm 1]

theorem importPuts_contributions (spool : Bool) (sequence : Nat) (blocks : List (List FireholEntry)) :
    (importPuts spool sequence blocks).filterMap Put.contribution? = contributions sequence blocks.flatten := by
  induction blocks generalizing sequence with
  | nil => rfl
  | cons block rest ih =>
      have own : (blockPuts block sequence spool).filterMap Put.contribution? = contributions sequence block := by
        rw [blockPuts, List.filterMap_append, List.filterMap_map]
        have pairs : (contributions sequence block).filterMap
            (Put.contribution? ∘ fun pair => .contribution pair.1 pair.2) = contributions sequence block :=
          List.filterMap_some
        rw [pairs]
        cases spool <;> simp [Put.contribution?]
      rw [importPuts, List.filterMap_append, own, ih, List.flatten_cons, contributions_append]

theorem importPuts_blocks (sequence : Nat) (blocks : List (List FireholEntry)) :
    (importPuts true sequence blocks).filterMap Put.block? = keyedBlocks sequence blocks := by
  induction blocks generalizing sequence with
  | nil => rfl
  | cons block rest ih =>
      have own : (blockPuts block sequence true).filterMap Put.block? =
          [(spoolKey sequence, encodeBlock block)] := by
        simp [blockPuts, List.filterMap_map, Function.comp_def, Put.block?]
      rw [importPuts, List.filterMap_append, own, ih, keyedBlocks]
      rfl

theorem importPuts_contexts (spool : Bool) (sequence : Nat) (blocks : List (List FireholEntry)) :
    (importPuts spool sequence blocks).filterMap Put.context? = [] := by
  induction blocks generalizing sequence with
  | nil => rfl
  | cons block rest ih =>
      rw [importPuts, List.filterMap_append, ih]
      cases spool <;> simp [blockPuts, List.filterMap_map, Function.comp_def, Put.context?]

def spooledDatabase (archive : Archive) (spool : Bool) (blocks : List (List FireholEntry)) : Database :=
  (Database.new archive).writeAll (importPuts spool 0 blocks)

theorem consumeBatches_memory {batches : List (List FireholEntry)} (small : batches.flatten.length < 2 ^ 32) :
    ∃ sequence, consumeBatches sizeInBytes .memory batches =
      .ok ⟨sequence, (numberBatches 0 batches).flatten, none⟩ := by
  obtain ⟨final, reached, entries, writer⟩ := @receive_all sizeInBytes false (.start .memory) batches
    (by simpa [BatchConsumer.start] using small)
  refine ⟨final.sequence, ?_⟩
  have none : final.writer = none := by simpa [BatchConsumer.start] using writer
  rw [consumeBatches, Storage.spool, reached]
  simp only [Except.map, none, Option.map_none, entries]
  rfl

theorem consumeBatches_database (archive : Archive) (limit : Nat) (spool : Bool)
    {batches : List (List FireholEntry)} (small : batches.flatten.length < 2 ^ 32) :
    ∃ sequence writer, consumeBatches sizeInBytes (.database archive limit spool) batches =
        .ok ⟨sequence, if spool then [] else (numberBatches 0 batches).flatten, some writer⟩ ∧
      writer.batch = [] ∧ writer.database = spooledDatabase archive spool (numberBatches 0 batches) := by
  obtain ⟨final, reached, entries, settled⟩ :=
    @receive_all sizeInBytes spool (.start (.database archive limit spool)) batches
      (by simpa [BatchConsumer.start] using small)
  cases held : final.writer with
  | none => simp [held, BatchConsumer.start] at settled
  | some writer =>
      have database : writer.settled = spooledDatabase archive spool (numberBatches 0 batches) := by
        simpa [held, BatchConsumer.start, spooledDatabase] using settled
      refine ⟨final.sequence, writer.commit, ?_, rfl, database⟩
      rw [consumeBatches, Storage.spool, reached]
      simp only [Except.map, held, Option.map_some, entries, BatchConsumer.start, Option.isSome_some,
        Bool.and_true, List.nil_append]

end Consumption

section Pipelines

def ColumnWriter.spooled (writer : ColumnWriter) : BulkWriter :=
  ⟨writer.batch.filterMap Put.block?, writer.database.entries⟩

theorem spooled_entries (sizeInBytes : List Put → Nat) (writer : ColumnWriter) (entries : List FireholEntry)
    (sequence : Nat) (spool : Bool) :
    ∃ commits, (writer.entries sizeInBytes entries sequence spool).spooled =
      writer.spooled.entries entries sequence spool commits := by
  have block : (blockPuts entries sequence spool).filterMap Put.block? =
      if spool then [(spoolKey sequence, encodeBlock entries)] else [] := by
    cases spool <;> simp [blockPuts, List.filterMap_map, Function.comp_def, Put.block?]
  have batch : (writer.batch ++ blockPuts entries sequence spool).filterMap Put.block? =
      if spool then writer.spooled.batch ++ [(spoolKey sequence, encodeBlock entries)]
      else writer.spooled.batch := by
    rw [List.filterMap_append, block]
    cases spool <;> simp [ColumnWriter.spooled]
  refine ⟨writer.limit ≤ sizeInBytes (writer.batch ++ blockPuts entries sequence spool), ?_⟩
  unfold ColumnWriter.entries ColumnWriter.commitFull
  by_cases full : writer.limit ≤ sizeInBytes (writer.batch ++ blockPuts entries sequence spool)
  · simp [full, ColumnWriter.spooled, ColumnWriter.commit, Database.writeAll_eq, batch, BulkWriter.entries,
      BulkWriter.commit, spoolKey]
  · simp [full, ColumnWriter.spooled, batch, BulkWriter.entries, spoolKey]

structure Follows (config : ImportConfig) (consumer : BatchConsumer) (state : Pipeline config.workers) :
    Prop where
  sequence : consumer.sequence = state.sequence
  entries : consumer.allEntries = state.allEntries
  cached : consumer.writer.isSome = config.cached
  writer : ∀ writer ∈ consumer.writer, writer.spooled = state.writer

theorem Follows.receive {config : ImportConfig} {consumer : BatchConsumer} {state : Pipeline config.workers}
    (follows : Follows config consumer state) (sizeInBytes : List Put → Nat) (batch : List FireholEntry) :
    ∃ commits, match consumer.receive sizeInBytes config.spool batch with
      | .ok next => Follows config next (Pipeline.receive config state commits none batch)
      | .error error => Pipeline.receive config state commits none batch = state.stop error := by
  have fault : (if config.cached = true then (none : Option FirewallError) else none) = none := ite_self none
  unfold BatchConsumer.receive Pipeline.receive
  rw [follows.sequence]
  cases assignIds state.sequence batch with
  | none => exact ⟨false, rfl⟩
  | some entries =>
      simp only [fault]
      cases held : consumer.writer with
      | none =>
          have memory : config.cached = false := by simpa [held] using follows.cached.symm
          refine ⟨false, ?_⟩
          constructor <;> simp [Pipeline.publish, memory, follows.entries]
      | some writer =>
          have cached : config.cached = true := by simpa [held] using follows.cached.symm
          obtain ⟨commits, stored⟩ := spooled_entries sizeInBytes writer entries state.sequence config.spool
          refine ⟨commits, ?_⟩
          constructor
          · simp [Pipeline.publish]
          · simp [Pipeline.publish, cached, follows.entries]
          · simp [cached]
          · simp [Pipeline.publish, cached, stored, follows.writer writer held]

end Pipelines

end ReputationFirewall.Firehol
