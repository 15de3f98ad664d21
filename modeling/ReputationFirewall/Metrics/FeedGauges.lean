import ReputationFirewall.Firehol.Lookup
import ReputationFirewall.Shared.GaugeVec
import ReputationFirewall.Shared.Runs

set_option autoImplicit false

namespace ReputationFirewall.Firehol

def FireholCategory.asStr : FireholCategory → List Char
  | .abuse => "abuse".toList
  | .attacks => "attacks".toList
  | .malware => "malware".toList
  | .spam => "spam".toList
  | .proxy => "proxy".toList
  | .botnet => "botnet".toList
  | .unroutable => "unroutable".toList
  | .anonymizers => "anonymizers".toList
  | .other => "other".toList

theorem FireholCategory.asStr_injective : Function.Injective FireholCategory.asStr := by
  intro left right
  cases left <;> cases right <;> decide

def FireholIpTarget.ipVersion : FireholIpTarget → List Char
  | .exactV4 _ | .cidrV4 _ _ => "ipv4".toList
  | .exactV6 _ | .cidrV6 _ _ => "ipv6".toList

def FireholIpTarget.entryType : FireholIpTarget → List Char
  | .exactV4 _ | .exactV6 _ => "exact".toList
  | .cidrV4 _ _ | .cidrV6 _ _ => "cidr".toList

end ReputationFirewall.Firehol

namespace ReputationFirewall.Metrics

open BigEndian Collect Firehol GaugeVec KeyedStore NetAddr Runs

section Model

structure FeedGauges where
  entriesByCategory : Gauges (List Char × List Char × List Char)
  entriesByBlocklist : Gauges (List Char)

def FeedGauges.start : FeedGauges := ⟨∅, ∅⟩

def categoryLabels (category : FireholCategory) : List Char × List Char × List Char :=
  (category.asStr, "ipv4".toList, "exact".toList)

structure FinishedImport where
  sizeInBytes : List Put → Nat
  storage : Storage
  orders : IndexOrders
  metadata : List FireholMetadata
  nextMetadataId : BitVec 32
  batches : List (List FireholEntry)
  imported : ImportedDataSet
  nonempty : ∀ batch ∈ batches, batch ≠ []
  range : ∀ entry ∈ batches.flatten, entry.target.PrefixInRange
  registered : ∀ entry ∈ batches.flatten, Registered metadata nextMetadataId entry
  done : importBatches sizeInBytes storage orders metadata nextMetadataId batches = some (.ok imported)
  categoryOrder : HashOrder FireholCategory
  blocklistOrder : HashOrder (List Char)

namespace FeedGauges

-- A directory without lists returns before this point; it has no counts to publish either.
def publish (gauges : FeedGauges) (finished : FinishedImport) : FeedGauges where
  entriesByCategory := setAll finished.categoryOrder categoryLabels gauges.entriesByCategory
    finished.imported.registry.categoryCounts
  entriesByBlocklist := setAll finished.blocklistOrder id gauges.entriesByBlocklist
    finished.imported.registry.blocklistCounts

def step (gauges : FeedGauges) : Option FinishedImport → FeedGauges
  | none => gauges
  | some finished => gauges.publish finished

end FeedGauges

end Model

section Truth

namespace FinishedImport

variable (finished : FinishedImport)

def entries : List FireholEntry := importedEntries finished.batches

def category (entry : FireholEntry) : FireholCategory := categoryIn (metadataTable finished.metadata) entry.metadataId

def file (entry : FireholEntry) : List Char := fileIn (metadataTable finished.metadata) entry.metadataId

def labels (entry : FireholEntry) : List Char × List Char × List Char :=
  ((finished.category entry).asStr, entry.target.ipVersion, entry.target.entryType)

def ShownBy (gauges : FeedGauges) : Prop :=
  ∃ entries, finished.imported.visitEntries = .ok entries ∧
    Shows finished.labels entries gauges.entriesByCategory ∧ Shows finished.file entries gauges.entriesByBlocklist

structure KeepsLabels (before : List (Option FinishedImport)) : Prop where
  exact : ∀ entry ∈ finished.entries, ∃ addr, entry.target = .exactV4 addr
  categories : ∀ earlier, some earlier ∈ before → ∀ entry ∈ earlier.entries,
    ∃ current ∈ finished.entries, finished.category current = earlier.category entry
  files : ∀ earlier, some earlier ∈ before → ∀ entry ∈ earlier.entries,
    ∃ current ∈ finished.entries, finished.file current = earlier.file entry

end FinishedImport

def FeedGauges.TrueAfter (gauges : FeedGauges) (attempt : Option FinishedImport) : Prop :=
  ∀ finished ∈ attempt, finished.ShownBy (gauges.step attempt)

end Truth

section Counts

theorem counts_bumpAll {K : Type} [DecidableEq K] (classOf : FireholEntry → K) (entries : List FireholEntry) :
    Counts classOf entries (bumpAll ∅ (entries.map fun entry => (classOf entry, 1))) := by
  intro key
  rw [lookup_bumpAll, amountOf_ones, List.map_map]
  simp [Function.comp_def]

namespace FinishedImport

variable (finished : FinishedImport)

theorem visitEntries : finished.imported.visitEntries = .ok finished.entries := by
  have small := imported_small finished.nonempty finished.done
  have done := finished.done
  cases storage : finished.storage with
  | memory =>
      rw [storage, importBatches_memory _ _ _ _ small] at done
      rw [← Except.ok.inj (Option.some.inj done)]
      rfl
  | database archive limit spool =>
      obtain ⟨_, _, result, visited, _⟩ := importBatches_database finished.sizeInBytes finished.orders finished.metadata
        finished.nextMetadataId archive limit spool finished.nonempty finished.range finished.registered small
      rw [storage, result] at done
      rw [← Except.ok.inj (Option.some.inj done)]
      exact visited

theorem counts : Counts finished.category finished.entries finished.imported.registry.categoryCounts ∧
    Counts finished.file finished.entries finished.imported.registry.blocklistCounts := by
  have known := importedEntries_registered finished.metadata finished.nextMetadataId finished.registered
  have done := finished.done
  cases storage : finished.storage with
  | memory =>
      rw [storage, importBatches_memory _ _ _ _ (imported_small finished.nonempty finished.done)] at done
      have tables := @buildMemory_tables finished.orders finished.metadata finished.nextMetadataId _ known
      rw [← Except.ok.inj (Option.some.inj done), tables.categories, tables.blocklists]
      exact ⟨counts_bumpAll _ _, counts_bumpAll _ _⟩
  | database archive limit spool =>
      rw [storage] at done
      obtain ⟨database, registry, _⟩ := imported_database finished.nonempty finished.range finished.registered done
      rw [registry]
      constructor
      · intro key
        exact (grouped_matches_rules (categoryIn (metadataTable finished.metadata)) known key).trans
          (counts_bumpAll finished.category finished.entries key)
      · intro key
        exact (grouped_matches_rules (fileIn (metadataTable finished.metadata)) known key).trans
          (counts_bumpAll finished.file finished.entries key)

end FinishedImport

end Counts

section Histories

theorem categoryLabels_injective : Function.Injective categoryLabels := fun _ _ same =>
  FireholCategory.asStr_injective (congrArg Prod.fst same)

structure Live {K L : Type} [DecidableEq L] (label : K → L) (classOf : FinishedImport → FireholEntry → K)
    (before : List (Option FinishedImport)) (gauges : Gauges L) : Prop where
  set : SetOnly label gauges
  occurred : ∀ other, other ∈ gauges ↔
    ∃ earlier, some earlier ∈ before ∧ ∃ entry ∈ earlier.entries, label (classOf earlier entry) = other

section Live

variable {K L : Type} [DecidableEq K] [DecidableEq L] {label : K → L} {classOf : FinishedImport → FireholEntry → K}
  {before : List (Option FinishedImport)} {gauges : Gauges L}

omit [DecidableEq K] in
theorem Live.start : Live label classOf [] ∅ :=
  ⟨by simp [SetOnly], by simp⟩

omit [DecidableEq K] in
theorem Live.failed (live : Live label classOf before gauges) : Live label classOf (before ++ [none]) gauges :=
  ⟨live.set, by simp [live.occurred]⟩

theorem Live.publish (live : Live label classOf before gauges) (finished : FinishedImport) (order : HashOrder K)
    (injective : Function.Injective label) {counts : Store K Nat}
    (counted : Counts (classOf finished) finished.entries counts) :
    Live label classOf (before ++ [some finished]) (setAll order label gauges counts) := by
  refine ⟨live.set.setAll order injective counted, fun other => ?_⟩
  have own : (∃ key ∈ counts, label key = other) ↔
      ∃ entry ∈ finished.entries, label (classOf finished entry) = other := by
    simp [counted.mem_iff]
  rw [mem_setAll, live.occurred, own]
  simp [or_and_right, exists_or]

theorem Live.shows_iff (live : Live label classOf before gauges) (finished : FinishedImport) (order : HashOrder K)
    (injective : Function.Injective label) {counts : Store K Nat}
    (counted : Counts (classOf finished) finished.entries counts) {labelOf : FireholEntry → L}
    (refines : ∀ entry key, labelOf entry = label key → classOf finished entry = key) :
    Shows labelOf finished.entries (setAll order label gauges counts) ↔
      (∀ entry ∈ finished.entries, labelOf entry = label (classOf finished entry)) ∧
        ∀ earlier, some earlier ∈ before → ∀ entry ∈ earlier.entries,
          ∃ current ∈ finished.entries, classOf finished current = classOf earlier entry := by
  rw [shows_setAll_iff order injective counted live.set refines]
  refine and_congr_right fun _ => ?_
  constructor
  · intro kept earlier listed entry member
    obtain ⟨current, inside, same⟩ := kept _ ((live.occurred _).mpr ⟨earlier, listed, entry, member, rfl⟩)
    exact ⟨current, inside, injective same⟩
  · intro kept other live'
    obtain ⟨earlier, listed, entry, member, rfl⟩ := (live.occurred other).mp live'
    obtain ⟨current, inside, same⟩ := kept earlier listed entry member
    exact ⟨current, inside, congrArg label same⟩

end Live

structure FeedGauges.Live (before : List (Option FinishedImport)) (gauges : FeedGauges) : Prop where
  categories : Metrics.Live categoryLabels FinishedImport.category before gauges.entriesByCategory
  blocklists : Metrics.Live id FinishedImport.file before gauges.entriesByBlocklist

theorem FeedGauges.Live.step {before : List (Option FinishedImport)} {gauges : FeedGauges}
    (live : gauges.Live before) (attempt : Option FinishedImport) : (gauges.step attempt).Live (before ++ [attempt]) := by
  cases attempt with
  | none => exact ⟨live.categories.failed, live.blocklists.failed⟩
  | some finished =>
      exact ⟨live.categories.publish finished _ categoryLabels_injective finished.counts.1,
        live.blocklists.publish finished _ Function.injective_id finished.counts.2⟩

theorem FeedGauges.live_run (attempts : List (Option FinishedImport)) :
    (run step .start attempts).Live attempts := by
  induction attempts using List.reverseRecOn with
  | nil => exact ⟨.start, .start⟩
  | append_singleton attempts attempt ih =>
      rw [run_concat]
      exact ih.step attempt

theorem labels_eq_iff (finished : FinishedImport) (entry : FireholEntry) :
    finished.labels entry = categoryLabels (finished.category entry) ↔ ∃ addr, entry.target = .exactV4 addr := by
  have network : "cidr".toList ≠ "exact".toList := by decide
  have version : "ipv6".toList ≠ "ipv4".toList := by decide
  rw [FinishedImport.labels, categoryLabels, Prod.mk.injEq, Prod.mk.injEq, eq_self, true_and]
  cases entry.target with
  | exactV4 addr => exact iff_of_true ⟨rfl, rfl⟩ ⟨addr, rfl⟩
  | cidrV4 => exact iff_of_false (fun same => network same.2) nofun
  | exactV6 | cidrV6 => exact iff_of_false (fun same => version same.1) nofun

theorem FeedGauges.Live.trueAfter_iff {before : List (Option FinishedImport)} {gauges : FeedGauges}
    (live : gauges.Live before) (attempt : Option FinishedImport) :
    gauges.TrueAfter attempt ↔ ∀ finished ∈ attempt, finished.KeepsLabels before := by
  cases attempt with
  | none => simp [FeedGauges.TrueAfter]
  | some finished =>
      simp only [FeedGauges.TrueAfter, Option.mem_some_iff, forall_eq', FinishedImport.ShownBy, finished.visitEntries,
        Except.ok.injEq, exists_eq_left', FeedGauges.step, FeedGauges.publish]
      rw [live.categories.shows_iff finished _ categoryLabels_injective finished.counts.1 fun entry key same =>
          FireholCategory.asStr_injective (congrArg Prod.fst same),
        live.blocklists.shows_iff finished _ Function.injective_id finished.counts.2 fun entry key same => same]
      simp only [labels_eq_iff]
      constructor
      · intro true
        exact ⟨true.1.1, true.1.2, true.2.2⟩
      · intro keeps
        exact ⟨⟨keeps.exact, keeps.categories⟩, fun _ _ => rfl, keeps.files⟩

theorem feed_gauges_true_iff (attempts : List (Option FinishedImport)) :
    StepsMeet FeedGauges.step .start FeedGauges.TrueAfter attempts ↔
      ∀ before attempt, before ++ [attempt] <+: attempts → ∀ finished ∈ attempt, finished.KeepsLabels before := by
  simp only [StepsMeet, (FeedGauges.live_run _).trueAfter_iff]

noncomputable def singleImport (fileName : List Char) (target : FireholIpTarget) (range : target.PrefixInRange) :
    FinishedImport where
  sizeInBytes := List.length
  storage := .memory
  orders := ⟨.arbitrary _, .arbitrary _⟩
  metadata := [.new fileName 1]
  nextMetadataId := 2
  batches := [[⟨target, 0, 1, 1⟩]]
  imported := buildMemory ⟨.arbitrary _, .arbitrary _⟩ [.new fileName 1] ⟨[⟨target, 1, 1, 1⟩], none⟩ [⟨target, 1, 1, 1⟩]
  nonempty := by simp
  range := by simpa using range
  registered := by simp [Registered, FireholMetadata.new]
  done := importBatches_memory List.length _ _ _ (by simp)
  categoryOrder := .arbitrary _
  blocklistOrder := .arbitrary _

section Single

variable (fileName : List Char) (target : FireholIpTarget) (range : target.PrefixInRange)

theorem singleImport_categories :
    (singleImport fileName target range).imported.registry.categoryCounts.lookup .other = some 1 :=
  ((singleImport fileName target range).counts.1 .other).trans rfl

theorem singleImport_file :
    (singleImport fileName target range).imported.registry.blocklistCounts.lookup fileName = some 1 := by
  have entries : (singleImport fileName target range).entries = [⟨target, 1, 1, 1⟩] := rfl
  have own := (singleImport fileName target range).counts.2.lookup (entries ▸ List.mem_singleton_self _)
  rw [entries, List.countP_singleton] at own
  exact own.trans (by simp)

theorem singleImport_files {other : List Char}
    (member : other ∈ (singleImport fileName target range).imported.registry.blocklistCounts) : other = fileName := by
  obtain ⟨entry, listed, same⟩ := ((singleImport fileName target range).counts.2.mem_iff other).mp member
  rw [← same, List.mem_singleton.mp listed]
  rfl

end Single

theorem network_shown_exact_list_shown_gone :
    let first := singleImport "feed.netset".toList (.exactV4 (ipv4Octets 198 51 100 7)) trivial
    let second := singleImport "other.netset".toList (.cidrV4 24 (ipv4Octets 192 0 2 0)) (show 24 ≤ 32 by decide)
    let gauges := run FeedGauges.step .start [some first, some second]
    second.imported.visitEntries = .ok [⟨.cidrV4 24 (ipv4Octets 192 0 2 0), 1, 1, 1⟩] ∧
      gauges.entriesByCategory.lookup ("other".toList, "ipv4".toList, "exact".toList) = some 1 ∧
      gauges.entriesByBlocklist.lookup "feed.netset".toList = some 1 := by
  intro first second gauges
  refine ⟨rfl, ?_, ?_⟩
  · exact lookup_setAll_set second.categoryOrder _ _ categoryLabels_injective (singleImport_categories _ _ _)
  · have gone : ∀ file ∈ second.imported.registry.blocklistCounts, id file ≠ "feed.netset".toList := by
      intro file member
      rw [singleImport_files _ _ _ member]
      decide
    exact (lookup_setAll_kept second.blocklistOrder _ _ gone).trans
      (lookup_setAll_set first.blocklistOrder _ _ Function.injective_id (singleImport_file _ _ _))

end Histories

end ReputationFirewall.Metrics
