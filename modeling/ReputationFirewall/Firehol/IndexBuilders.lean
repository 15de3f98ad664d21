import ReputationFirewall.Firehol.Lookup

set_option autoImplicit false

namespace ReputationFirewall.Firehol

open Collect KeyedStore

section Batches

-- Unlike a lookup, a batch fails on an archive that cannot be read.
def Database.readRuleContext (database : Database) (key : List UInt8) :
    Except FirewallError (Option RuleBlockContext) :=
  match database.ruleContext.lookup key with
  | none => .ok none
  | some bytes =>
      match database.archive.deserialize bytes with
      | some context => .ok (some context)
      | none => .error (.cache "rkyv deserialize rule context".toList)

variable (light : LightMetadata)

def cacheEntry (database : Database) (contexts : Store FireholIpTarget RuleBlockContext) (entry : FireholEntry) :
    Except FirewallError (Store FireholIpTarget RuleBlockContext) :=
  match light.lookup entry.metadataId with
  | none => .ok contexts
  | some (category, file) =>
      let held : Except FirewallError RuleBlockContext := match contexts.lookup entry.target with
        | some context => .ok context
        | none => (database.readRuleContext entry.target.contextKey).map fun stored => stored.getD .default
      held.map fun context =>
        contexts.insert entry.target ((context.addSource file entry.line).addCategory category)

def contextWrites (database : Database) (contexts : List (FireholIpTarget × RuleBlockContext)) : List Put :=
  contexts.map fun group => .context group.1.contextKey (database.archive.serialize group.2)

def cacheEntryContexts (order : HashOrder FireholIpTarget) (database : Database) (entries : List FireholEntry) :
    Except FirewallError Database :=
  (entries.foldlM (cacheEntry light database) ∅).map fun contexts =>
    database.writeAll (contextWrites database (order.iterate contexts))

-- Each batch has a hash map of its own, so the targets of each come in an order of their own.
def cacheBatches (database : Database) (batches : List (HashOrder FireholIpTarget × List FireholEntry)) :
    Except FirewallError Database :=
  batches.foldlM (fun database batch => cacheEntryContexts light batch.1 database batch.2) database

end Batches

section Merging

variable {light : LightMetadata} {database : Database} {entries done : List FireholEntry}

def storedFor (light : LightMetadata) (entries : List FireholEntry) (key : List UInt8) : Option RuleBlockContext :=
  if key ∈ entries.map (fun entry => entry.target.contextKey) then some (keyContext light entries key) else none

def Holds (light : LightMetadata) (entries : List FireholEntry) (database : Database) : Prop :=
  ∀ key, database.readRuleContext key = .ok (storedFor light entries key)

theorem new_holds (archive : Archive) : Holds light [] (.new archive) := fun _ => rfl

theorem Holds.getRuleContext (holds : Holds light entries database) (key : List UInt8) :
    database.getRuleContext key = storedFor light entries key := by
  have read := holds key
  unfold Database.readRuleContext at read
  unfold Database.getRuleContext
  split at read
  · next absent =>
    rw [absent]
    exact Except.ok.inj read
  · next bytes found =>
    rw [found]
    split at read
    · next context archived =>
      rw [Option.bind_some, archived]
      exact Except.ok.inj read
    · cases read

theorem storedFor_getD (key : List UInt8) : (storedFor light entries key).getD .default = keyContext light entries key := by
  unfold storedFor
  split_ifs with listed
  · rfl
  · rw [keyContext, filter_eq_nil_of_absent listed]
    rfl

theorem keyContext_append (key : List UInt8) :
    keyContext light (done ++ entries) key =
      (entries.filter fun entry => entry.target.contextKey = key).foldl (addEntry light) (keyContext light done key) := by
  rw [keyContext, List.filter_append, List.foldl_append]
  rfl

theorem cacheEntry_all (holds : Holds light done database)
    (known : ∀ entry ∈ entries, (light.lookup entry.metadataId).isSome)
    (contexts : Store FireholIpTarget RuleBlockContext) :
    entries.foldlM (cacheEntry light database) contexts =
      .ok (accumulateFrom (addEntry light) FireholEntry.target
        (fun target => keyContext light done target.contextKey) contexts entries) := by
  induction entries generalizing contexts with
  | nil => rfl
  | cons entry rest ih =>
      obtain ⟨⟨category, file⟩, found⟩ := Option.isSome_iff_exists.mp (known entry List.mem_cons_self)
      have first : cacheEntry light database contexts entry =
          .ok (contexts.insert entry.target (addEntry light ((contexts.lookup entry.target).getD
            (keyContext light done entry.target.contextKey)) entry)) := by
        rw [cacheEntry, addEntry, found]
        cases held : contexts.lookup entry.target with
        | some context => rfl
        | none =>
            dsimp only
            rw [holds, Except.map, storedFor_getD]
            rfl
      rw [List.foldlM_cons, first]
      exact ih (fun other member => known other (List.mem_cons_of_mem _ member)) _

variable (known : ∀ entry ∈ entries, (light.lookup entry.metadataId).isSome)
  (range : ∀ entry ∈ entries, entry.target.PrefixInRange)

theorem readRuleContext_written {contexts : List (FireholIpTarget × RuleBlockContext)}
    (distinct : (contexts.map fun group => group.1.contextKey).Nodup) :
    (∀ group ∈ contexts, (database.writeAll (contextWrites database contexts)).readRuleContext group.1.contextKey =
      .ok (some group.2)) ∧
    ∀ key, key ∉ contexts.map (fun group => group.1.contextKey) →
      (database.writeAll (contextWrites database contexts)).readRuleContext key = database.readRuleContext key := by
  have pairs : (contextWrites database contexts).filterMap Put.context? =
      contexts.map fun group => (group.1.contextKey, database.archive.serialize group.2) := by
    rw [contextWrites, List.filterMap_map]
    exact congrFun List.filterMap_eq_map contexts
  constructor
  · intro group member
    have found := lookup_insertAll_nodup database.ruleContext (by rwa [List.map_map])
      (List.mem_map_of_mem (f := fun group : FireholIpTarget × RuleBlockContext =>
        (group.1.contextKey, database.archive.serialize group.2)) member)
    rw [Database.readRuleContext, Database.writeAll_eq, pairs]
    dsimp only
    rw [found]
    dsimp only
    rw [database.archive.deserialize_serialize]
  · intro key absent
    rw [Database.readRuleContext, Database.writeAll_eq, pairs]
    dsimp only
    rw [lookup_insertAll_absent _ _ _ (by rwa [List.map_map])]
    rfl

include known range

theorem cacheEntryContexts_holds (order : HashOrder FireholIpTarget) (holds : Holds light done database) :
    ∃ after, cacheEntryContexts light order database entries = .ok after ∧ Holds light (done ++ entries) after := by
  have merged := cacheEntry_all holds known ∅
  have lookups := lookup_accumulateFrom (addEntry light) FireholEntry.target
    (fun target => keyContext light done target.contextKey) ∅ entries
  generalize accumulateFrom (addEntry light) FireholEntry.target
    (fun target => keyContext light done target.contextKey) ∅ entries = contexts at merged lookups
  refine ⟨_, by rw [cacheEntryContexts, merged, Except.map], ?_⟩
  have groups : ∀ group ∈ order.iterate contexts, ∃ entry ∈ entries, entry.target = group.1 ∧
      group.2 = keyContext light (done ++ entries) group.1.contextKey := by
    intro group member
    have found := (order.mem_iterate contexts group.1 group.2).mp member
    rw [lookups, AList.lookup_empty, Option.ite_none_right_eq_some] at found
    obtain ⟨listed, value⟩ := found
    obtain ⟨entry, inside, target⟩ := List.mem_map.mp listed
    refine ⟨entry, inside, target, ?_⟩
    rw [keyContext_append, filter_contextKey range (target ▸ range entry inside)]
    exact (Option.some.inj value).symm
  have listed (entry : FireholEntry) (member : entry ∈ entries) :
      ∃ group ∈ order.iterate contexts, group.1 = entry.target := by
    have found := lookups entry.target
    rw [if_pos (List.mem_map_of_mem member)] at found
    exact ⟨_, (order.mem_iterate contexts _ _).mpr found, rfl⟩
  have distinct : ((order.iterate contexts).map fun group => group.1.contextKey).Nodup := by
    have inside : ∀ target ∈ (order.iterate contexts).map Prod.fst, target.PrefixInRange := by
      intro target member
      obtain ⟨group, found, rfl⟩ := List.mem_map.mp member
      obtain ⟨entry, own, same, _⟩ := groups group found
      exact same ▸ range entry own
    have keys := (order.iterate_nodup contexts).map_on fun first one second two =>
      contextKey_injective (inside first one) (inside second two)
    rwa [List.map_map] at keys
  obtain ⟨written, kept⟩ := @readRuleContext_written database _ distinct
  intro key
  by_cases own : key ∈ entries.map fun entry => entry.target.contextKey
  · obtain ⟨entry, member, rfl⟩ := List.mem_map.mp own
    obtain ⟨group, inside, target⟩ := listed entry member
    obtain ⟨_, _, _, context⟩ := groups group inside
    rw [← target, written group inside, context, storedFor, if_pos]
    rw [List.map_append, List.mem_append, target]
    exact Or.inr own
  · have absent : key ∉ (order.iterate contexts).map fun group => group.1.contextKey := by
      intro found
      obtain ⟨group, inside, rfl⟩ := List.mem_map.mp found
      obtain ⟨entry, member, target, _⟩ := groups group inside
      exact own (List.mem_map.mpr ⟨entry, member, congrArg _ target⟩)
    have unchanged : storedFor light (done ++ entries) key = storedFor light done key := by
      rw [storedFor, storedFor, keyContext_append, filter_eq_nil_of_absent own, List.foldl_nil]
      simp only [List.map_append, List.mem_append, own, or_false]
    rw [kept key absent, holds, unchanged]

omit known range in
theorem cacheBatches_holds {batches : List (HashOrder FireholIpTarget × List FireholEntry)}
    (known : ∀ entry ∈ (batches.map Prod.snd).flatten, (light.lookup entry.metadataId).isSome)
    (range : ∀ entry ∈ (batches.map Prod.snd).flatten, entry.target.PrefixInRange) (holds : Holds light done database) :
    ∃ after, cacheBatches light database batches = .ok after ∧
      Holds light (done ++ (batches.map Prod.snd).flatten) after := by
  induction batches generalizing database done with
  | nil => exact ⟨database, rfl, by rwa [List.map_nil, List.flatten_nil, List.append_nil]⟩
  | cons batch rest ih =>
      rw [List.map_cons, List.flatten_cons] at known range ⊢
      obtain ⟨next, merged, first⟩ := cacheEntryContexts_holds
        (fun entry member => known entry (List.mem_append_left _ member))
        (fun entry member => range entry (List.mem_append_left _ member)) batch.1 holds
      obtain ⟨after, reached, last⟩ := ih (fun entry member => known entry (List.mem_append_right _ member))
        (fun entry member => range entry (List.mem_append_right _ member)) first
      refine ⟨after, ?_, by rwa [← List.append_assoc]⟩
      rw [cacheBatches, List.foldlM_cons, merged]
      exact reached

end Merging

section Memory

def FireholMetadataRegistry.indexedContexts (registry : FireholMetadataRegistry) :
    FireholIpTarget → List RuleBlockContext
  | .exactV4 octets => (registry.ipIndexV4Exact.lookup octets).toList
  | .exactV6 octets => (registry.ipIndexV6Exact.lookup octets).toList
  | .cidrV4 prefixLen net => registry.ipIndexV4Lpm.filterMap fun indexed =>
      if (indexed.1, indexed.2.1) = (UInt8.ofNat prefixLen, net) then some indexed.2.2 else none
  | .cidrV6 prefixLen net => registry.ipIndexV6Lpm.filterMap fun indexed =>
      if (indexed.1, indexed.2.1) = (UInt8.ofNat prefixLen, net) then some indexed.2.2 else none

def contextsFor (groups : List TargetGroup) (target : FireholIpTarget) : List RuleBlockContext :=
  groups.filterMap fun group => if group.1.contextKey = target.contextKey then some group.2 else none

variable {groups : List TargetGroup} (distinct : (groups.map Prod.fst).Nodup)

include distinct

theorem pickGroups_nodup {α : Type} {pick : FireholIpTarget → Option α} {make : α → FireholIpTarget}
    (picks : ∀ target value, pick target = some value ↔ target = make value) :
    ((pickGroups pick groups).map Prod.fst).Nodup := by
  have picked : (pickGroups pick groups).map Prod.fst = (groups.map Prod.fst).filterMap pick := by
    rw [pickGroups, List.map_filterMap, List.filterMap_map]
    congr 1
    funext group
    rw [Option.map_map]
    exact Option.map_id'
  rw [picked]
  apply distinct.filterMap
  intro first second value one two
  rw [(picks first value).mp one, (picks second value).mp two]

theorem exact_contexts {α : Type} [DecidableEq α] {pick : FireholIpTarget → Option α} {make : α → FireholIpTarget}
    (picks : ∀ target value, pick target = some value ↔ target = make value)
    (keys : ∀ target value, target.contextKey = (make value).contextKey → target = make value) (value : α) :
    ((insertAll ∅ (pickGroups pick groups)).lookup value).toList = contextsFor groups (make value) := by
  rw [lookup_insertAll, AList.lookup_empty, Option.or_none, toList_lastValue (pickGroups_nodup distinct picks),
    pickGroups, List.filterMap_filterMap]
  apply List.filterMap_congr
  intro group _
  by_cases same : group.1 = make value
  · rw [(picks group.1 value).mpr same, same]
    simp
  · rw [if_neg fun equal => same (keys _ _ equal)]
    cases found : pick group.1 with
    | none => rfl
    | some other =>
        have different : other ≠ value := by
          rintro rfl
          exact same ((picks _ _).mp found)
        simp [different]

theorem indexedContexts_groups (registry : FireholMetadataRegistry) (target : FireholIpTarget) :
    (registry.clearIpIndex.indexGroups groups).indexedContexts target = contextsFor groups target := by
  rw [indexGroups_eq]
  cases target with
  | exactV4 octets =>
      refine exact_contexts distinct (fun target addr => ?_) (fun target addr => ?_) octets
      · cases target <;> simp [exactAddrV4]
      · cases target <;>
          simp [FireholIpTarget.contextKey, ctxKeyV4Exact, ctxKeyV6Exact, ctxKeyV4Lpm, ctxKeyV6Lpm,
            Vector.toList_inj]
  | exactV6 octets =>
      refine exact_contexts distinct (fun target addr => ?_) (fun target addr => ?_) octets
      · cases target <;> simp [exactAddrV6]
      · cases target <;>
          simp [FireholIpTarget.contextKey, ctxKeyV4Exact, ctxKeyV6Exact, ctxKeyV4Lpm, ctxKeyV6Lpm,
            Vector.toList_inj]
  | cidrV4 prefixLen net =>
      simp only [FireholMetadataRegistry.indexedContexts, FireholMetadataRegistry.clearIpIndex, List.nil_append,
        indexedNetworks, pickGroups, List.filterMap_map, List.filterMap_filterMap, contextsFor]
      apply List.filterMap_congr
      rintro ⟨target, context⟩ _
      cases target <;>
        simp [networkV4, FireholIpTarget.contextKey, ctxKeyV4Exact, ctxKeyV6Exact, ctxKeyV4Lpm, ctxKeyV6Lpm,
            Vector.toList_inj]
  | cidrV6 prefixLen net =>
      simp only [FireholMetadataRegistry.indexedContexts, FireholMetadataRegistry.clearIpIndex, List.nil_append,
        indexedNetworks, pickGroups, List.filterMap_map, List.filterMap_filterMap, contextsFor]
      apply List.filterMap_congr
      rintro ⟨target, context⟩ _
      cases target <;>
        simp [networkV6, FireholIpTarget.contextKey, ctxKeyV4Exact, ctxKeyV6Exact, ctxKeyV4Lpm, ctxKeyV6Lpm,
            Vector.toList_inj]

end Memory

section Results

variable {metadata : List FireholMetadata} {entries : List FireholEntry}
  (registered : ∀ entry ∈ entries, entry.metadataId ∈ metadata.map FireholMetadata.id)
  (range : ∀ entry ∈ entries, entry.target.PrefixInRange)

include registered range

theorem buildIpIndex_stored (order : HashOrder FireholIpTarget) {registry : FireholMetadataRegistry}
    (table : registry.metadataById = metadataTable metadata) (target : FireholIpTarget) :
    (registry.buildIpIndex order entries).indexedContexts target =
      (storedFor (lightTable metadata) entries target.contextKey).toList := by
  have known : ∀ entry ∈ entries, ∃ record, (metadataTable metadata).lookup entry.metadataId = some record :=
    fun entry member => lookup_metadataTable (registered entry member)
  obtain ⟨groups, built, distinct, listed⟩ := buildIpIndex_groups (table ▸ known) order
  rw [table] at listed
  rw [built, indexedContexts_groups distinct, storedFor]
  have inside : ∀ target ∈ groups.map Prod.fst, target.PrefixInRange := by
    intro target member
    obtain ⟨group, found, rfl⟩ := List.mem_map.mp member
    obtain ⟨⟨entry, own, same⟩, _⟩ := (listed group.1 group.2).mp found
    exact same ▸ range entry own
  have keys := distinct.map_on fun first one second two => contextKey_injective (inside first one) (inside second two)
  rw [List.map_map] at keys
  have pairs : contextsFor groups target =
      ((insertAll ∅ (groups.map fun group => (group.1.contextKey, group.2))).lookup target.contextKey).toList := by
    rw [lookup_insertAll, AList.lookup_empty, Option.or_none, toList_lastValue (by rwa [List.map_map]),
      List.filterMap_map]
    rfl
  rw [pairs]
  split_ifs with own
  · obtain ⟨entry, member, same⟩ := List.mem_map.mp own
    have group := (listed entry.target _).mpr ⟨⟨entry, member, rfl⟩, rfl⟩
    have found := lookup_insertAll_nodup ∅ (by rwa [List.map_map])
      (List.mem_map_of_mem (f := fun group : TargetGroup => (group.1.contextKey, group.2)) group)
    rw [← same, found, keyContext_eq known range (range entry member)]
  · rw [lookup_insertAll_absent]
    · rfl
    · rw [List.map_map]
      intro found
      obtain ⟨group, member, same⟩ := List.mem_map.mp found
      obtain ⟨⟨entry, inside, target⟩, _⟩ := (listed group.1 group.2).mp member
      exact own (List.mem_map.mpr ⟨entry, inside, by rw [target]; exact same⟩)

end Results

section Agreement

def writeBlocks (sizeInBytes : List Put → Nat) (spool : Bool) :
    ColumnWriter → Nat → List (List FireholEntry) → ColumnWriter
  | writer, _, [] => writer
  | writer, sequence, block :: rest =>
      writeBlocks sizeInBytes spool (writer.entries sizeInBytes block sequence spool) (sequence + block.length) rest

theorem settled_writeBlocks (sizeInBytes : List Put → Nat) (spool : Bool) (writer : ColumnWriter) (sequence : Nat)
    (blocks : List (List FireholEntry)) :
    (writeBlocks sizeInBytes spool writer sequence blocks).settled =
      writer.settled.writeAll (importPuts spool sequence blocks) := by
  induction blocks generalizing writer sequence with
  | nil => rfl
  | cons block rest ih =>
      rw [writeBlocks, ih, ColumnWriter.settled_entries, importPuts, Database.writeAll_append]

def memoryRegistry (metadata : List FireholMetadata) : FireholMetadataRegistry :=
  metadata.foldl FireholMetadataRegistry.tryRegisterMetadata .new

def databaseRegistry (archive : Archive) (metadata : List FireholMetadata) : FireholMetadataRegistry :=
  metadata.foldl FireholMetadataRegistry.tryRegisterMetadata (.withCache (.new archive))

theorem memoryRegistry_table (metadata : List FireholMetadata) :
    (memoryRegistry metadata).metadataById = metadataTable metadata := by
  rw [memoryRegistry, FireholMetadataRegistry.register_memory rfl]
  rfl

theorem databaseRegistry_light (archive : Archive) (metadata : List FireholMetadata) :
    (databaseRegistry archive metadata).metadataLight = lightTable metadata := by
  rw [databaseRegistry, FireholMetadataRegistry.register_cached rfl]
  rfl

def targetContext? (metadata : List FireholMetadata) (entries : List FireholEntry) (target : FireholIpTarget) :
    Option RuleBlockContext :=
  if target ∈ entries.map FireholEntry.target then some (targetContext (metadataTable metadata) entries target)
  else none

theorem storedFor_target {metadata : List FireholMetadata} {entries : List FireholEntry}
    (registered : ∀ entry ∈ entries, entry.metadataId ∈ metadata.map FireholMetadata.id)
    (range : ∀ entry ∈ entries, entry.target.PrefixInRange) {target : FireholIpTarget} (own : target.PrefixInRange) :
    storedFor (lightTable metadata) entries target.contextKey = targetContext? metadata entries target := by
  rw [storedFor, targetContext?,
    keyContext_eq (fun entry member => lookup_metadataTable (registered entry member)) range own]
  simp only [mem_contextKeys range own, List.mem_map]

theorem index_builders_agree (sizeInBytes : List Put → Nat) (archive : Archive) (limit : Nat) (spool : Bool)
    (order : HashOrder FireholIpTarget) (metadata : List FireholMetadata) (entries : List FireholEntry)
    (registered : ∀ entry ∈ entries, entry.metadataId ∈ metadata.map FireholMetadata.id)
    (range : ∀ entry ∈ entries, entry.target.PrefixInRange) (small : entries.length ≤ 2 ^ 64)
    (blocks : List (List FireholEntry)) (blocked : blocks.flatten = entries)
    (batches : List (HashOrder FireholIpTarget × List FireholEntry))
    (split : (batches.map Prod.snd).flatten = entries) :
    ∃ ordered batched,
      buildOrderedContexts sizeInBytes (databaseRegistry archive metadata).metadataLight
        (writeBlocks sizeInBytes spool (.new (.new archive) limit) 0 blocks).commit = .ok ordered ∧
      cacheBatches (databaseRegistry archive metadata).metadataLight (.new archive) batches = .ok batched ∧
      (∀ target, target.PrefixInRange →
        ((memoryRegistry metadata).buildIpIndex order entries).indexedContexts target =
          (targetContext? metadata entries target).toList ∧
        ordered.settled.getRuleContext target.contextKey = targetContext? metadata entries target ∧
        batched.getRuleContext target.contextKey = targetContext? metadata entries target) ∧
      (∀ target, target.contextKey ∉ entries.map (fun entry => entry.target.contextKey) →
        ((memoryRegistry metadata).buildIpIndex order entries).indexedContexts target = []) ∧
      ∀ key, key ∉ entries.map (fun entry => entry.target.contextKey) →
        ordered.settled.getRuleContext key = none ∧ batched.getRuleContext key = none := by
  rw [databaseRegistry_light]
  have known : ∀ entry ∈ entries, ((lightTable metadata).lookup entry.metadataId).isSome := by
    intro entry member
    obtain ⟨record, found⟩ := lookup_metadataTable (registered entry member)
    rw [lookup_lightTable, found]
    rfl
  have written : (writeBlocks sizeInBytes spool (.new (.new archive) limit) 0 blocks).commit.database =
      (Database.new archive).writeAll (importPuts spool 0 blocks) :=
    settled_writeBlocks sizeInBytes spool _ 0 blocks
  have stored : (writeBlocks sizeInBytes spool (.new (.new archive) limit) 0 blocks).commit.database.contributions =
      insertAll ∅ (contributions 0 entries) := by
    rw [written, Database.writeAll_eq, ← blocked, ← importPuts_contributions spool]
    rfl
  have fresh : (writeBlocks sizeInBytes spool (.new (.new archive) limit) 0 blocks).commit.database.ruleContext = ∅ := by
    rw [written, Database.writeAll_eq, importPuts_contexts]
    rfl
  obtain ⟨ordered, scanned, sorted⟩ := buildOrderedContexts_ok sizeInBytes small known rfl stored fresh
  obtain ⟨batched, merged, holds⟩ := cacheBatches_holds (split ▸ known) (split ▸ range) (new_holds archive)
  rw [List.nil_append, split] at holds
  have indexed := buildIpIndex_stored registered range order (memoryRegistry_table metadata)
  refine ⟨ordered, batched, scanned, merged, ?_, ?_, ?_⟩
  · intro target own
    have context := storedFor_target registered range own
    rw [indexed, holds.getRuleContext, sorted, context]
    exact ⟨rfl, context, rfl⟩
  · intro target other
    rw [indexed, storedFor, if_neg other]
    rfl
  · intro key other
    rw [holds.getRuleContext, storedFor, sorted, if_neg other]
    exact ⟨rfl, rfl⟩

def repeatedLines : List FireholEntry :=
  [⟨.exactV4 (NetAddr.ipv4Octets 192 0 2 1), 1, 1, 4⟩, ⟨.exactV4 (NetAddr.ipv4Octets 192 0 2 1), 2, 1, 9⟩]

theorem repeatedLines_agree :
    ∃ ordered batched,
      buildOrderedContexts List.length (databaseRegistry .counting [.new "feed.netset".toList 1]).metadataLight
        (writeBlocks List.length true (.new (.new .counting) 0) 0 [repeatedLines]).commit = .ok ordered ∧
      cacheBatches (databaseRegistry .counting [.new "feed.netset".toList 1]).metadataLight (.new .counting)
        (repeatedLines.map fun entry => (.arbitrary _, [entry])) = .ok batched ∧
      ordered.settled.getRuleContext (ctxKeyV4Exact (NetAddr.ipv4Octets 192 0 2 1)) =
        batched.getRuleContext (ctxKeyV4Exact (NetAddr.ipv4Octets 192 0 2 1)) := by
  obtain ⟨ordered, batched, scanned, merged, agree, _⟩ :=
    index_builders_agree List.length .counting 0 true (.arbitrary _) [.new "feed.netset".toList 1] repeatedLines
      (by decide) (by simp [repeatedLines, FireholIpTarget.PrefixInRange]) (by decide) [repeatedLines] (by simp)
      (repeatedLines.map fun entry => (.arbitrary _, [entry])) rfl
  obtain ⟨_, first, second⟩ := agree (.exactV4 (NetAddr.ipv4Octets 192 0 2 1)) trivial
  exact ⟨ordered, batched, scanned, merged, first.trans second.symm⟩

end Agreement

end ReputationFirewall.Firehol
