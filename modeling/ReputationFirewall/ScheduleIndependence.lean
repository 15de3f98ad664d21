import ReputationFirewall.Enforcement
import ReputationFirewall.Firehol.DirectoryImport

set_option autoImplicit false

namespace ReputationFirewall

open BigEndian Firehol Interleaving KeyedStore Maps NetAddr Rules Runs Xdp

section Targets

def fileTargets (context : ImportContext) (file : SourceFile) : List FireholIpTarget :=
  file.textLines.flatMap fun line => (lineTargets context line).getD []

theorem entriesOf_targets (context : ImportContext) {lines : List (List Char)} {ids : List (BitVec 32)}
    (aligned : ids.length = lines.length) :
    (entriesOf context lines ids).map FireholEntry.target =
      lines.flatMap fun line => (lineTargets context line).getD [] := by
  have counted : ∀ number, (((lines.zip ids).zipIdx number).flatMap fun item =>
      ((lineTargets context item.1.1).getD []).map fun target =>
        ({ target, ruleId := 0, metadataId := item.1.2, line := BitVec.ofNat 32 item.2 } : FireholEntry)).map
          FireholEntry.target = lines.flatMap fun line => (lineTargets context line).getD [] := by
    induction lines generalizing ids with
    | nil => simp
    | cons line rest ih =>
        cases ids with
        | nil => simp at aligned
        | cons id others =>
            intro number
            have later := ih (Nat.succ.inj aligned) (number + 1)
            simp only [List.zip_cons_cons, List.zipIdx_cons, List.flatMap_cons, List.map_append, later, List.map_map]
            simp [Function.comp_def]
  exact counted 1

theorem parsed_targets {context : ImportContext} {counter : Nat → BitVec 32} {file : SourceFile}
    {metadata : List FireholMetadata} {entries : List FireholEntry} {bytes : Nat}
    (parsed : parseSingleFile context counter file = .ok (metadata, entries, bytes)) :
    entries.map FireholEntry.target = fileTargets context file := by
  obtain ⟨text, ids, decoded, aligned, rfl, _⟩ := parseSingleFile_attributed parsed
  have lines : file.textLines = Text.splitTerminator '\n' text := by simp [SourceFile.textLines, decoded]
  rw [fileTargets, lines]
  exact entriesOf_targets context aligned

theorem contents_targets (entries : List FireholEntry) :
    (contents entries).map FireholEntry.target = (entries.map FireholEntry.target : Multiset FireholIpTarget) := by
  rw [contents, Multiset.map_coe, List.map_map]
  rfl

theorem completes_targets {config : ImportConfig} {final : Pipeline config.workers} {entries : List FireholEntry}
    {schedule : List (Fin config.files.length)}
    (completes : Completes final entries (run (ParseCalls.stepOf config) (.start 1) schedule)) :
    (entries.map FireholEntry.target).Perm (config.files.flatMap (fileTargets config.context)) := by
  have parsed := completes.parsed
  generalize run (ParseCalls.stepOf config) (.start 1) schedule = calls at completes parsed
  rw [← Multiset.coe_eq_coe]
  calc (entries.map FireholEntry.target : Multiset FireholIpTarget)
      = ∑ index, (((calls.calls index).entries.map FireholEntry.target : List FireholIpTarget) :
          Multiset FireholIpTarget) := by
        rw [← contents_targets, completes.entries, ← Multiset.coe_mapAddMonoidHom, map_sum]
        exact Finset.sum_congr rfl fun index _ => contents_targets _
    _ = ∑ index, (fileTargets config.context (config.files.get index) : Multiset FireholIpTarget) := by
        refine Finset.sum_congr rfl fun index _ => ?_
        obtain ⟨counter, bytes, result⟩ := parsed index
        rw [parsed_targets result]
    _ = (config.files.flatMap (fileTargets config.context) : Multiset FireholIpTarget) := by
        rw [← coe_flatMap_finRange, ← List.flatMap_map, List.map_get_finRange]

end Targets

section Preparing

theorem visit_mapReport (state : Preparation) (entry : FireholEntry) :
    (state.visit entry).report.mapReport = state.report.mapReport := by
  unfold Preparation.visit
  cases entry.target with
  | exactV4 octets =>
      dsimp only [Preparation.addExactV4]
      split_ifs <;> rfl
  | exactV6 octets =>
      dsimp only [Preparation.addExactV6]
      split_ifs <;> rfl
  | cidrV4 prefixLen octets =>
      dsimp only [Preparation.addExactV4, Preparation.addLpmV4]
      split_ifs <;> rfl
  | cidrV6 prefixLen octets =>
      dsimp only [Preparation.addExactV6, Preparation.addLpmV6]
      split_ifs <;> rfl

theorem prepareEntries_mapReport (entries : List FireholEntry) :
    (prepareEntries entries).2.mapReport = FireholSyncReport.default.mapReport := by
  have kept : ∀ state : Preparation, (entries.foldl Preparation.visit state).report.mapReport = state.report.mapReport := by
    induction entries with
    | nil => exact fun _ => rfl
    | cons entry rest ih => exact fun state => (ih _).trans (visit_mapReport state entry)
  exact kept .start

variable {first second : List FireholEntry}
  (same : (first.map FireholEntry.target).Perm (second.map FireholEntry.target))

include same

theorem prepared_keys (kind : MapKind) : (prepareEntries first).1.keys kind = (prepareEntries second).1.keys kind := by
  have placed : ∀ (entries : List FireholEntry) (key : kind.Key),
      (∃ entry ∈ entries, entry.target.place = some ⟨kind, key⟩) ↔
        ∃ target ∈ entries.map FireholEntry.target, target.place = some ⟨kind, key⟩ := by simp
  ext key
  rw [prepareEntries_keys, prepareEntries_keys, placed, placed]
  simp only [same.mem_iff]

theorem prepared_reports : (prepareEntries first).2 = (prepareEntries second).2 := by
  have counts (kind : MapKind) : (prepareEntries first).2.countOf kind = (prepareEntries second).2.countOf kind := by
    rw [prepareEntries_countOf, prepareEntries_countOf, prepared_keys same]
  have exactV4 : (prepareEntries first).2.exactV4Count = (prepareEntries second).2.exactV4Count := counts .ipv4Exact
  have exactV6 : (prepareEntries first).2.exactV6Count = (prepareEntries second).2.exactV6Count := counts .ipv6Exact
  have lpmV4 : (prepareEntries first).2.lpmV4Count = (prepareEntries second).2.lpmV4Count := counts .ipv4Lpm
  have lpmV6 : (prepareEntries first).2.lpmV6Count = (prepareEntries second).2.lpmV6Count := counts .ipv6Lpm
  have infrastructure : (first.countP fun entry => entry.target.isInfrastructure) =
      second.countP fun entry => entry.target.isInfrastructure := by
    have counted := same.countP_eq FireholIpTarget.isInfrastructure
    rwa [List.countP_map, List.countP_map] at counted
  have one := Preparation.prepared_visits first
  have two := Preparation.prepared_visits second
  have skipped : (prepareEntries first).2.allowlistedSkipped = (prepareEntries second).2.allowlistedSkipped :=
    one.skipped.trans (infrastructure.trans two.skipped.symm)
  have length : first.length = second.length := by simpa using same.length_eq
  have duplicates : (prepareEntries first).2.duplicatesDeduped = (prepareEntries second).2.duplicatesDeduped := by
    have totals := one.total.trans (length.trans two.total.symm)
    change (prepareEntries first).2.totalRules + (prepareEntries first).2.duplicatesDeduped +
      (prepareEntries first).2.allowlistedSkipped = (prepareEntries second).2.totalRules +
        (prepareEntries second).2.duplicatesDeduped + (prepareEntries second).2.allowlistedSkipped at totals
    simp only [FireholSyncReport.totalRules] at totals
    omega
  have maps := (prepareEntries_mapReport first).trans (prepareEntries_mapReport second).symm
  generalize (prepareEntries first).2 = left at *
  generalize (prepareEntries second).2 = right at *
  cases left
  cases right
  simp_all

end Preparing

section Verdicts

variable {rules other : ParsedRuleSet} (wellFormed : WellFormed rules) (alsoWellFormed : WellFormed other)
  (same : ∀ kind, rules.keys kind = other.keys kind)

include wellFormed alsoWellFormed same

theorem verdict_of_keys {manager : MapManager} (enforceable : Enforceable manager) (hashing anew : Hashing)
    (ctx : XdpContext) (telemetry : Telemetry) :
    (firewall ctx (syncFireholRules hashing allSucceed manager rules).1 telemetry).1 = .drop ↔
      (firewall ctx (syncFireholRules anew allSucceed manager other).1 telemetry).1 = .drop := by
  have one : Enforceable (syncFireholRules hashing allSucceed manager rules).1 :=
    @Enforceable.apply _ enforceable ⟨.firehol, rules, hashing⟩ wellFormed allSucceed
  have two : Enforceable (syncFireholRules anew allSucceed manager other).1 :=
    @Enforceable.apply _ enforceable ⟨.firehol, other, anew⟩ alsoWellFormed allSucceed
  have covers : MapsCover (syncFireholRules hashing allSucceed manager rules).1 =
      MapsCover (syncFireholRules anew allSucceed manager other).1 := by
    funext ip
    simp only [MapsCover, mem_syncFireholRules, installs_allSucceed, same]
  rw [one.drop_iff, two.drop_iff, covers]

end Verdicts

section Imports

variable {context : ImportContext} {setup anew : ImportSetup} {directory : Directory} {execution rerun : Execution}
  {imported other : ImportedDataSet}

structure Settles (context : ImportContext) (directory : Directory) (files : List SourceFile) (storage : Storage)
    (imported : ImportedDataSet) (entries : List FireholEntry) : Prop where
  visited : imported.visitEntries = .ok entries
  targets : (entries.map FireholEntry.target).Perm (files.flatMap (fileTargets context))
  range : ∀ entry ∈ entries, entry.target.PrefixInRange
  sources : ∀ ip, storage.FindsAll ip → ∀ source, (∃ block ∈ imported.registry.lookupIp ip, source ∈ block.sources) ↔
    ∃ file position, directory.ListsAt context ip file position ∧ source = (file.name, BitVec.ofNat 32 (position + 1))

theorem empty_settles {files : List SourceFile} (discovered : discoverFiles directory = .ok files) (absent : files = [])
    (storage : Storage) : Settles context directory files storage .empty [] := by
  subst absent
  refine ⟨rfl, .nil, by simp, fun ip _ source => ?_⟩
  constructor
  · rintro ⟨block, found, _⟩
    cases ip <;> simp [ImportedDataSet.empty, FireholMetadataRegistry.lookupIp, FireholMetadataRegistry.lookupIpV4,
      FireholMetadataRegistry.lookupIpV6, FireholMetadataRegistry.new] at found
  · rintro ⟨file, position, lists, _⟩
    have member := (discoverFiles_mem discovered file).mpr lists.found
    simp at member

theorem import_settles (numberable : directory.Numberable)
    (done : parseDirectory context setup directory execution = some (.ok imported)) {files : List SourceFile}
    (discovered : discoverFiles directory = .ok files) :
    ∃ entries, Settles context directory files setup.storage imported entries := by
  obtain ⟨found, again, ⟨rfl, rfl⟩ | ⟨sorted, state, batches, built⟩⟩ := parseDirectory_ok done
  · obtain rfl := Except.ok.inj (again.symm.trans discovered)
    exact ⟨[], empty_settles discovered rfl setup.storage⟩
  · obtain rfl := Except.ok.inj (again.symm.trans discovered)
    obtain ⟨sound, _, ⟨schedule, completes⟩, visited, listed⟩ := built.builtFrom numberable discovered sorted
    refine ⟨importedEntries batches, visited, ?_, fun entry member => ?_, fun ip findsAll source => ?_⟩
    · have same := List.isPerm_iff.mp (Bool.and_eq_true_iff.mp sorted).1
      exact (completes_targets completes).trans (same.flatMap_right _)
    · obtain ⟨_, _, _, origin⟩ := sound.origins entry member
      obtain ⟨line, targets, _, parsed, inside⟩ := origin.line
      exact lineTargets_range parsed _ inside
    · obtain ⟨only, all⟩ := sound.mem_lookup built.done ip
      constructor
      · rintro ⟨block, looked, named⟩
        obtain ⟨entry, _, covers, rfl⟩ := only block looked
        obtain ⟨other, own, target, same⟩ := (mem_targetContext_sources entry.target source).mp named
        obtain ⟨file, inside, position, origin⟩ := sound.origins other own
        exact ⟨file, position, origin.listsAt listed inside (target ▸ covers), same ▸ (sound.source_of origin).1⟩
      · rintro ⟨file, position, lists, rfl⟩
        obtain ⟨entry, member, covers, origin⟩ := sound.of_listsAt listed lists
        exact ⟨_, all findsAll entry member covers,
          (mem_targetContext_sources entry.target _).mpr ⟨entry, member, rfl, (sound.source_of origin).1⟩⟩

theorem import_schedule_irrelevant (numberable : directory.Numberable)
    (done : parseDirectory context setup directory execution = some (.ok imported))
    (again : parseDirectory context anew directory rerun = some (.ok other)) :
    ∃ rules others report, tryPrepareRules imported.toFireholDataSet = .ok (rules, report) ∧
      tryPrepareRules other.toFireholDataSet = .ok (others, report) ∧
      (∀ kind, rules.keys kind = others.keys kind) ∧
      (∀ manager, Enforceable manager → ∀ hashing rehashing ctx telemetry,
        (firewall ctx (syncFireholRules hashing allSucceed manager rules).1 telemetry).1 = .drop ↔
          (firewall ctx (syncFireholRules rehashing allSucceed manager others).1 telemetry).1 = .drop) ∧
      ∀ ip, setup.storage.FindsAll ip → anew.storage.FindsAll ip → ∀ source,
        (∃ block ∈ imported.registry.lookupIp ip, source ∈ block.sources) ↔
          ∃ block ∈ other.registry.lookupIp ip, source ∈ block.sources := by
  obtain ⟨files, discovered, _⟩ := parseDirectory_ok done
  obtain ⟨first, one⟩ := import_settles numberable done discovered
  obtain ⟨second, two⟩ := import_settles numberable again discovered
  have same : (first.map FireholEntry.target).Perm (second.map FireholEntry.target) := one.targets.trans two.targets.symm
  have keys := prepared_keys same
  refine ⟨(prepareEntries first).1, (prepareEntries second).1, (prepareEntries first).2, ?_, ?_, keys, ?_, ?_⟩
  · rw [tryPrepareRules, one.visited]
  · rw [tryPrepareRules, two.visited, prepared_reports same]
  · intro manager enforceable hashing rehashing ctx telemetry
    exact verdict_of_keys (prepareEntries_wellFormed one.range) (prepareEntries_wellFormed two.range) keys enforceable
      hashing rehashing ctx telemetry
  · intro ip findsAll alsoFindsAll source
    rw [one.sources ip findsAll, two.sources ip alsoFindsAll]

def firstFeed : DirEntry := ⟨[97, 46, 105, 112, 115, 101, 116], true, some 8, ⟨true, [49, 46, 50, 46, 51, 46, 52, 10], []⟩⟩

def secondFeed : DirEntry := ⟨[98, 46, 105, 112, 115, 101, 116], true, some 8, ⟨true, [53, 46, 54, 46, 55, 46, 56, 10], []⟩⟩

def twoFeeds : Directory := ⟨[], true, some [some firstFeed, some secondFeed]⟩

def oneWorker : Execution where
  generationFault := none
  order := [firstFeed.sourceFile, secondFeed.sourceFile]
  schedule
    | 1 => List.replicate 15 (.worker 0) ++ [.receive false none, .close none, .dropReceiver]
    | _ => []
  registerFault := none
  scanError := none
  contextFault := none

def twoWorkers : Execution where
  generationFault := none
  order := [secondFeed.sourceFile, firstFeed.sourceFile]
  schedule
    | 2 => takingTurns
    | _ => []
  registerFault := none
  scanError := none
  contextFault := none

theorem twoFeeds_numberable : twoFeeds.Numberable := by
  intro files discovered
  have found : discoverFiles twoFeeds = .ok oneWorker.order := rfl
  cases found.symm.trans discovered
  decide +kernel

theorem twoFeeds_schedules : ∃ imported other,
    parseDirectory ignoringContext (smallSetup .memory) twoFeeds oneWorker = some (.ok imported) ∧
    parseDirectory ignoringContext { smallSetup .memory with cpus := some 2 } twoFeeds twoWorkers = some (.ok other) ∧
    (tryPrepareRules imported.toFireholDataSet).map Prod.snd = (tryPrepareRules other.toFireholDataSet).map Prod.snd := by
  have first : ((parseDirectory ignoringContext (smallSetup .memory) twoFeeds oneWorker).bind
      Except.toOption).isSome = true := by decide +kernel
  have second : ((parseDirectory ignoringContext { smallSetup .memory with cpus := some 2 } twoFeeds twoWorkers).bind
      Except.toOption).isSome = true := by decide +kernel
  obtain ⟨imported, done⟩ := returned_ok first
  obtain ⟨other, again⟩ := returned_ok second
  obtain ⟨rules, others, report, prepared, alsoPrepared, _⟩ :=
    import_schedule_irrelevant twoFeeds_numberable done again
  exact ⟨imported, other, done, again, by rw [prepared, alsoPrepared]; rfl⟩

end Imports

end ReputationFirewall
