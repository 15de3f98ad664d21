import ReputationFirewall.Firehol.RuleBlocks
import ReputationFirewall.Rules.Loader

set_option autoImplicit false

namespace ReputationFirewall.RingBuf

open BigEndian Collect Firehol KeyedStore NetAddr Rules

section Merging

-- A missing line counts as zero.
def numberedFiles (context : RuleBlockContext) : List (List Char × BitVec 32) :=
  context.files.zipIdx.map fun (file, index) => (file, (context.lines[index]?).getD 0)

instance sourceLawful : LawfulBEq (List Char × BitVec 32) := inferInstance

def mergeSource (dst : RuleBlockContext) (source : List Char × BitVec 32) : RuleBlockContext :=
  if source ∈ numberedFiles dst then dst
  else { dst with files := dst.files ++ [source.1], lines := dst.lines ++ [source.2] }

def mergeInto (dst src : RuleBlockContext) : RuleBlockContext :=
  let merged := (numberedFiles src).foldl mergeSource dst
  { merged with categories := pushAll merged.categories src.categories }

theorem numberedFiles_ofSources (sources : List (List Char × BitVec 32)) (categories : List FireholCategory) :
    numberedFiles (.ofSources sources categories) = sources := by
  apply List.ext_getElem
  · simp [numberedFiles, RuleBlockContext.ofSources]
  · intro index _ inside
    simp [numberedFiles, RuleBlockContext.ofSources, List.getElem?_eq_getElem inside]

theorem mergeSource_ofSources (sources : List (List Char × BitVec 32)) (categories : List FireholCategory)
    (source : List Char × BitVec 32) :
    mergeSource (.ofSources sources categories) source = .ofSources (pushNew sources source) categories := by
  unfold mergeSource pushNew
  rw [numberedFiles_ofSources]
  split_ifs <;> simp [RuleBlockContext.ofSources]

theorem mergeInto_ofSources (sources added : List (List Char × BitVec 32))
    (categories labels : List FireholCategory) :
    mergeInto (.ofSources sources categories) (.ofSources added labels) =
      .ofSources (pushAll sources added) (pushAll categories labels) := by
  have merged : added.foldl mergeSource (.ofSources sources categories) =
      .ofSources (pushAll sources added) categories := by
    induction added generalizing sources with
    | nil => rfl
    | cons source rest ih => rw [List.foldl_cons, mergeSource_ofSources, ih, pushAll_cons]
  rw [mergeInto, numberedFiles_ofSources, merged]
  rfl

theorem mergeAll_ofSources {contexts : List RuleBlockContext} (parallel : ∀ context ∈ contexts, context.Parallel)
    (sources : List (List Char × BitVec 32)) (categories : List FireholCategory) :
    contexts.foldl mergeInto (.ofSources sources categories) =
      .ofSources (pushAll sources (contexts.flatMap RuleBlockContext.sources))
        (pushAll categories (contexts.flatMap RuleBlockContext.categories)) := by
  induction contexts generalizing sources categories with
  | nil => rfl
  | cons context rest ih =>
      have first := mergeInto_ofSources sources context.sources categories context.categories
      rw [← RuleBlockContext.eq_ofSources (parallel context List.mem_cons_self)] at first
      rw [List.foldl_cons, first, ih fun other member => parallel other (List.mem_cons_of_mem _ member)]
      simp only [List.flatMap_cons, pushAll_append]

end Merging

section Assembly

def srcAddr (event : PacketLogEvent) : IpAddr :=
  if event.ipVersion = 4 then .v4 (slice event.srcIp 0 4 (by decide)) else .v6 event.srcIp

def lookupSource (registry : FireholMetadataRegistry) (ipVersion : UInt8) : IpAddr → List RuleBlockContext
  | .v4 ip => if ipVersion = 4 then registry.lookupIpV4 ip else []
  | .v6 ip => if ipVersion = 6 then registry.lookupIpV6 ip else []

variable (registry : Option FireholMetadataRegistry) (static : Option (Store (BitVec 32) StaticRuleInfo))

-- FireHOL ids first, then those of the static rules.
def winningContext (ruleId : BitVec 32) : Option RuleBlockContext :=
  (registry.bind fun registry => registry.resolveRuleBlock ruleId).or
    ((static.bind fun rules => rules.lookup ruleId).map fun info => ⟨[info.file], [info.line], []⟩)

def matchingContexts (event : PacketLogEvent) : List RuleBlockContext :=
  match registry with
  | some registry => lookupSource registry event.ipVersion (srcAddr event)
  | none => []

def assembleBlock (event : PacketLogEvent) : RuleBlockContext :=
  let block := match winningContext registry static event.ruleId with
    | some winning => mergeInto .default winning
    | none => .default
  (matchingContexts registry event).foldl mergeInto block

variable {registry static}

theorem assembleBlock_eq {event : PacketLogEvent}
    (winning : ∀ context ∈ winningContext registry static event.ruleId, context.Parallel)
    (covering : ∀ context ∈ matchingContexts registry event, context.Parallel) :
    let contexts := (winningContext registry static event.ruleId).toList ++ matchingContexts registry event
    assembleBlock registry static event =
      .ofSources (pushAll [] (contexts.flatMap RuleBlockContext.sources))
        (pushAll [] (contexts.flatMap RuleBlockContext.categories)) := by
  intro contexts
  have parallel : ∀ context ∈ contexts, context.Parallel := by
    intro context listed
    cases List.mem_append.mp listed with
    | inl first => exact winning context (Option.mem_toList.mp first)
    | inr later => exact covering context later
  rw [← mergeAll_ofSources parallel [] []]
  simp only [contexts, List.foldl_append, assembleBlock]
  cases winningContext registry static event.ruleId <;> rfl

theorem matchingContexts_ipv4 (registry : FireholMetadataRegistry) {event : PacketLogEvent}
    (ipv4 : event.ipVersion = 4) :
    matchingContexts (some registry) event = registry.lookupIp (srcAddr event) := by
  simp [matchingContexts, lookupSource, srcAddr, ipv4, FireholMetadataRegistry.lookupIp]

end Assembly

section Exactness

variable (metadata : List FireholMetadata) (entries : List FireholEntry)

inductive Wins (static : Store (BitVec 32) StaticRuleInfo) (ip : IpAddr) :
    BitVec 32 → Option StaticRuleInfo → Prop
  | feed {entry : FireholEntry} (member : entry ∈ entries) (covers : entry.target.Covers ip) :
      Wins static ip entry.ruleId none
  | rule {ruleId : BitVec 32} {info : StaticRuleInfo} (found : static.lookup ruleId = some info)
      (outside : ¬ (1 ≤ ruleId.toNat ∧ ruleId.toNat ≤ entries.length)) : Wins static ip ruleId (some info)

structure ExactBlock (ip : IpAddr) (own : Option StaticRuleInfo) (block : RuleBlockContext) : Prop where
  parallel : block.Parallel
  distinct : block.sources.Nodup
  sources : ∀ source, source ∈ block.sources ↔
    (∃ entry ∈ entries, entry.target.Covers ip ∧ sourceIn (metadataTable metadata) entry = source) ∨
      ∃ info ∈ own, (info.file, info.line) = source
  categories : ∀ category, category ∈ block.categories ↔ ∃ entry ∈ entries, entry.target.Covers ip ∧
    categoryIn (metadataTable metadata) entry.metadataId = category

structure WinningBlock (ip : IpAddr) (own : Option StaticRuleInfo) (context : RuleBlockContext) : Prop where
  parallel : context.Parallel
  sources : ∀ source ∈ context.sources,
    (∃ entry ∈ entries, entry.target.Covers ip ∧ sourceIn (metadataTable metadata) entry = source) ∨
      ∃ info ∈ own, (info.file, info.line) = source
  static : ∀ info ∈ own, (info.file, info.line) ∈ context.sources
  categories : ∀ category ∈ context.categories, ∃ entry ∈ entries, entry.target.Covers ip ∧
    categoryIn (metadataTable metadata) entry.metadataId = category

variable {metadata entries} {registry : FireholMetadataRegistry} {static : Store (BitVec 32) StaticRuleInfo}
  {contextOf : FireholEntry → RuleBlockContext} {ip : IpAddr} {ruleId : BitVec 32} {own : Option StaticRuleInfo}

theorem outside_ids (ids : entries.map (fun entry => entry.ruleId.toNat) = List.range' 1 entries.length)
    (outside : ¬ (1 ≤ ruleId.toNat ∧ ruleId.toNat ≤ entries.length)) : ∀ entry ∈ entries, entry.ruleId ≠ ruleId := by
  intro entry member same
  have listed : entry.ruleId.toNat ∈ List.range' 1 entries.length := by
    rw [← ids]
    exact List.mem_map_of_mem member
  rw [List.mem_range'_1, same] at listed
  exact outside ⟨listed.1, by omega⟩

theorem winningContext_of_wins (resolves : Resolves metadata entries contextOf registry)
    (ids : entries.map (fun entry => entry.ruleId.toNat) = List.range' 1 entries.length)
    (wins : Wins entries static ip ruleId own) :
    ∃ context, winningContext (some registry) (some static) ruleId = some context ∧
      WinningBlock metadata entries ip own context := by
  cases wins with
  | @feed entry member covers =>
      have within := resolves.within entry member
      refine ⟨contextOf entry, by simp [winningContext, resolves.known entry member], within.parallel, ?_, by simp, ?_⟩
      · intro source listed
        obtain ⟨other, inside, target, same⟩ := within.sources source listed
        exact Or.inl ⟨other, inside, target ▸ covers, same⟩
      · intro category listed
        obtain ⟨other, inside, target, same⟩ := within.categories category listed
        exact ⟨other, inside, target ▸ covers, same⟩
  | @rule ruleId info found outside =>
      refine ⟨⟨[info.file], [info.line], []⟩, ?_, rfl, ?_, ?_, by simp⟩
      · simp [winningContext, resolves.unknown ruleId (outside_ids ids outside), found]
      · intro source listed
        exact Or.inr ⟨info, rfl, (List.mem_singleton.mp listed).symm⟩
      · intro other given
        obtain rfl := Option.mem_some.mp given
        simp [RuleBlockContext.sources]

theorem assembleBlock_exact (resolves : Resolves metadata entries contextOf registry)
    (ids : entries.map (fun entry => entry.ruleId.toNat) = List.range' 1 entries.length) {event : PacketLogEvent}
    (finds : ∀ context, context ∈ matchingContexts (some registry) event ↔
      ∃ entry ∈ entries, entry.target.Covers (srcAddr event) ∧
        targetContext (metadataTable metadata) entries entry.target = context)
    (wins : Wins entries static (srcAddr event) event.ruleId own) :
    ExactBlock metadata entries (srcAddr event) own (assembleBlock (some registry) (some static) event) := by
  obtain ⟨winning, won, block⟩ := winningContext_of_wins resolves ids wins
  have covering : ∀ context ∈ matchingContexts (some registry) event, context.Parallel := by
    intro context listed
    obtain ⟨entry, _, _, rfl⟩ := (finds context).mp listed
    exact (targetContext_within entry.target).parallel
  have parallel : ∀ context ∈ winningContext (some registry) (some static) event.ruleId, context.Parallel := by
    simpa [won] using block.parallel
  rw [assembleBlock_eq parallel covering, won]
  refine ⟨RuleBlockContext.ofSources_parallel _ _, ?_, ?_, ?_⟩
  · rw [RuleBlockContext.ofSources_sources]
    exact pushAll_nodup List.nodup_nil _
  · intro source
    simp only [RuleBlockContext.ofSources_sources, mem_pushAll, List.not_mem_nil, false_or, Option.toList_some,
      List.singleton_append, List.flatMap_cons, List.mem_append, List.mem_flatMap, finds]
    constructor
    · rintro (first | ⟨_, ⟨entry, member, covers, rfl⟩, listed⟩)
      · exact block.sources source first
      · obtain ⟨other, inside, target, same⟩ := (mem_targetContext_sources entry.target source).mp listed
        exact Or.inl ⟨other, inside, target ▸ covers, same⟩
    · rintro (⟨entry, member, covers, same⟩ | ⟨info, given, same⟩)
      · exact Or.inr ⟨_, ⟨entry, member, covers, rfl⟩,
          (mem_targetContext_sources entry.target source).mpr ⟨entry, member, rfl, same⟩⟩
      · exact Or.inl (same ▸ block.static info given)
  · intro category
    change category ∈ pushAll [] _ ↔ _
    simp only [mem_pushAll, List.not_mem_nil, false_or, Option.toList_some,
      List.singleton_append, List.flatMap_cons, List.mem_append, List.mem_flatMap, finds]
    constructor
    · rintro (first | ⟨_, ⟨entry, member, covers, rfl⟩, listed⟩)
      · exact block.categories category first
      · obtain ⟨other, inside, target, same⟩ := (mem_targetContext_categories entry.target category).mp listed
        exact ⟨other, inside, target ▸ covers, same⟩
    · rintro ⟨entry, member, covers, same⟩
      exact Or.inr ⟨_, ⟨entry, member, covers, rfl⟩,
        (mem_targetContext_categories entry.target category).mpr ⟨entry, member, rfl, same⟩⟩

end Exactness

section Attribution

variable {sizeInBytes : List Put → Nat} {orders : IndexOrders} {metadata : List FireholMetadata}
  {nextMetadataId : BitVec 32} {batches : List (List FireholEntry)}

theorem ipv4_attribution_exact {archive : Archive} {limit : Nat} {spool : Bool} {cached memory : ImportedDataSet}
    (nonempty : ∀ batch ∈ batches, batch ≠ [])
    (range : ∀ entry ∈ batches.flatten, entry.target.PrefixInRange)
    (canonical : ∀ entry ∈ batches.flatten, entry.target.Canonical)
    (registered : ∀ entry ∈ batches.flatten, Registered metadata nextMetadataId entry)
    (numbered : ∀ record ∈ metadata, record.id ≠ 0)
    (overDatabase : importBatches sizeInBytes (.database archive limit spool) orders metadata nextMetadataId
      batches = some (.ok cached))
    (inMemory : importBatches sizeInBytes .memory orders metadata nextMetadataId batches = some (.ok memory))
    {static : Store (BitVec 32) StaticRuleInfo} {event : PacketLogEvent} (ipv4 : event.ipVersion = 4)
    {own : Option StaticRuleInfo} (wins : Wins (importedEntries batches) static (srcAddr event) event.ruleId own) :
    let cachedBlock := assembleBlock (some cached.registry) (some static) event
    let memoryBlock := assembleBlock (some memory.registry) (some static) event
    ExactBlock metadata (importedEntries batches) (srcAddr event) own cachedBlock ∧
      ExactBlock metadata (importedEntries batches) (srcAddr event) own memoryBlock ∧
      cachedBlock.sources.toFinset = memoryBlock.sources.toFinset ∧
      cachedBlock.categories.toFinset = memoryBlock.categories.toFinset := by
  intro cachedBlock memoryBlock
  have ids := importedEntries_ids (imported_small nonempty inMemory)
  have hit : ∀ entry : FireholEntry, ¬ entry.target.Missed (srcAddr event) := by
    intro entry
    simp only [srcAddr, if_pos ipv4]
    cases entry.target <;> exact not_false
  have fromDatabase : ExactBlock metadata (importedEntries batches) (srcAddr event) own cachedBlock := by
    refine assembleBlock_exact (imported_resolves nonempty range registered numbered overDatabase) ids ?_ wins
    intro context
    rw [matchingContexts_ipv4 _ ipv4, mem_lookupIp_database nonempty range canonical registered overDatabase]
    simp only [hit, not_false_eq_true, and_true]
  have fromMemory : ExactBlock metadata (importedEntries batches) (srcAddr event) own memoryBlock := by
    refine assembleBlock_exact (imported_resolves nonempty range registered numbered inMemory) ids ?_ wins
    intro context
    rw [matchingContexts_ipv4 _ ipv4, mem_lookupIp_inMemory nonempty range registered inMemory]
  refine ⟨fromDatabase, fromMemory, ?_, ?_⟩
  · ext source
    rw [List.mem_toFinset, List.mem_toFinset, fromDatabase.sources, fromMemory.sources]
  · ext category
    rw [List.mem_toFinset, List.mem_toFinset, fromDatabase.categories, fromMemory.categories]

def sampleEvent : PacketLogEvent where
  timestampNs := 0
  srcIp := #v[192, 0, 2, 1, 0, 0, 0, 0, 0, 0, 0, 0, 0, 0, 0, 0]
  dstIp := #v[198, 51, 100, 9, 0, 0, 0, 0, 0, 0, 0, 0, 0, 0, 0, 0]
  ruleId := 1
  packetLen := 60
  ifindex := 2
  srcPort := 4000
  dstPort := 22
  protocol := protoTcp
  ipVersion := 4
  action := actionDrop
  matchType := matchExactHash
  pad := Vector.replicate 4 0

theorem sampleEvent_attributed :
    ∃ cached memory,
      importBatches List.length (.database .counting 0 true) ⟨.arbitrary _, .arbitrary _⟩ sampleMetadata 3
          sampleBatches = some (.ok cached) ∧
        importBatches List.length .memory ⟨.arbitrary _, .arbitrary _⟩ sampleMetadata 3 sampleBatches =
          some (.ok memory) ∧
        ("bogons.netset".toList, 3) ∈ (assembleBlock (some cached.registry) (some ∅) sampleEvent).sources ∧
        ("dshield.netset".toList, 7) ∈ (assembleBlock (some memory.registry) (some ∅) sampleEvent).sources := by
  have range : ∀ entry ∈ sampleBatches.flatten, entry.target.PrefixInRange := by
    simp [sampleBatches, FireholIpTarget.PrefixInRange]
  have registered : ∀ entry ∈ sampleBatches.flatten, Registered sampleMetadata 3 entry := by decide
  obtain ⟨cached, overDatabase⟩ := importBatches_succeeds List.length ⟨.arbitrary _, .arbitrary _⟩
    (.database .counting 0 true) (by decide) range registered (by decide)
  obtain ⟨memory, inMemory⟩ := importBatches_succeeds List.length ⟨.arbitrary _, .arbitrary _⟩
    .memory (by decide) range registered (by decide)
  have canonical : ∀ entry ∈ sampleBatches.flatten, entry.target.Canonical := by
    simp only [sampleBatches, List.flatten_cons, List.flatten_nil, List.append_nil, List.cons_append,
      List.nil_append, List.mem_cons, List.not_mem_nil, or_false, forall_eq_or_imp, forall_eq]
    exact ⟨trivial, show networkOf 24 _ = _ by decide, trivial⟩
  have first : ⟨.exactV4 #v[192, 0, 2, 1], 1, 1, 7⟩ ∈ importedEntries sampleBatches := by decide
  have last : ⟨.exactV4 #v[192, 0, 2, 1], 3, 2, 3⟩ ∈ importedEntries sampleBatches := by decide
  have covers : (FireholIpTarget.exactV4 #v[192, 0, 2, 1]).Covers (srcAddr sampleEvent) :=
    show slice sampleEvent.srcIp 0 4 (by decide) = _ by decide
  obtain ⟨fromDatabase, fromMemory, _, _⟩ := ipv4_attribution_exact (by decide) range canonical registered
    (by decide) overDatabase inMemory (show sampleEvent.ipVersion = 4 from rfl) (Wins.feed first covers)
  exact ⟨cached, memory, overDatabase, inMemory,
    (fromDatabase.sources _).mpr (Or.inl ⟨_, last, covers, by decide⟩),
    (fromMemory.sources _).mpr (Or.inl ⟨_, first, covers, by decide⟩)⟩

end Attribution

end ReputationFirewall.RingBuf
