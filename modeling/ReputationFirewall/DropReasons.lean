import ReputationFirewall.Firehol.DirectoryImport
import ReputationFirewall.RingBuf.Attribution
import ReputationFirewall.RuleIds
import ReputationFirewall.Startup

set_option autoImplicit false

namespace ReputationFirewall

open BigEndian Firehol KeyedStore Maps NetAddr RingBuf Rules Runs Xdp

section Events

theorem reputationLookup_covers {n : Nat} {exact : Store (Octets n) RuleValue}
    {lpm : Store (Nat × Octets n) RuleValue} {srcIp : Octets n} {rule : RuleValue} {matchType : UInt8}
    (hit : reputationLookup exact lpm srcIp = some (rule, matchType)) :
    exact.lookup srcIp = some rule ∨ ∃ key, lpm.lookup key = some rule ∧ SamePrefix key.1 key.2 srcIp := by
  cases found : exact.lookup srcIp with
  | some value =>
      simp only [reputationLookup, found, Option.some.injEq, Prod.mk.injEq] at hit
      exact Or.inl (congrArg some hit.1)
  | none =>
      simp only [reputationLookup, found, Option.map_eq_some_iff, Prod.mk.injEq] at hit
      obtain ⟨value, trie, rfl, -⟩ := hit
      obtain ⟨key, stored, matching, -⟩ := bestMatch_eq_some _ _ _ trie
      simp only [prefixMatches, Bool.and_eq_true, decide_eq_true_eq] at matching
      exact Or.inr ⟨key, stored, matching.2⟩

def Blames (manager : MapManager) (event : PacketLogEvent) : Prop :=
  ∃ kind, ∃ key : kind.Key, ∃ value, (manager.slot kind).map.lookup key = some value ∧
    KeyCovers kind key (srcAddr event) ∧ value.ruleId = event.ruleId

theorem blames_v4 {manager : MapManager} {srcIp : Octets 4} {rule : RuleValue} {matchType : UInt8}
    (hit : reputationLookup manager.ipv4Exact manager.ipv4Lpm srcIp = some (rule, matchType)) {event : PacketLogEvent}
    (source : srcAddr event = .v4 srcIp) (same : rule.ruleId = event.ruleId) : Blames manager event := by
  unfold Blames
  rw [source]
  cases reputationLookup_covers hit with
  | inl exact => exact ⟨.ipv4Exact, srcIp, rule, exact, rfl, same⟩
  | inr network =>
      obtain ⟨key, stored, inside⟩ := network
      exact ⟨.ipv4Lpm, key, rule, stored, inside, same⟩

theorem blames_v6 {manager : MapManager} {srcIp : Octets 16} {rule : RuleValue} {matchType : UInt8}
    (hit : reputationLookup manager.ipv6Exact manager.ipv6Lpm srcIp = some (rule, matchType)) {event : PacketLogEvent}
    (source : srcAddr event = .v6 srcIp) (same : rule.ruleId = event.ruleId) : Blames manager event := by
  unfold Blames
  rw [source]
  cases reputationLookup_covers hit with
  | inl exact => exact ⟨.ipv6Exact, srcIp, rule, exact, rfl, same⟩
  | inr network =>
      obtain ⟨key, stored, inside⟩ := network
      exact ⟨.ipv6Lpm, key, rule, stored, inside, same⟩

variable {ctx : XdpContext} {manager : MapManager} {event : PacketLogEvent}

theorem enforce_events {packetLen : BitVec 32} {inspection : Inspection} {found : Option (RuleValue × UInt8)}
    (emitted : event ∈ (enforce ctx .zero packetLen inspection found).telemetry.events) :
    ∃ rule matchType, found = some (rule, matchType) ∧
      event = loggedEvent ctx packetLen inspection rule matchType := by
  cases found with
  | none => simp [enforce, accept, updateStats, Telemetry.zero] at emitted
  | some hit =>
      obtain ⟨rule, matchType⟩ := hit
      by_cases drops : rule.action = actionDrop
      · by_cases accepts : ctx.ringbufAccepts
        · simp only [enforce, drops, if_true, accepts, updateStats, Telemetry.zero] at emitted
          exact ⟨rule, matchType, rfl, List.mem_singleton.mp emitted⟩
        · simp [enforce, drops, accepts, updateStats, Telemetry.zero] at emitted
      · simp [enforce, drops, accept, updateStats, Telemetry.zero] at emitted

theorem event_blames (emitted : event ∈ (firewall ctx manager .zero).2.events) : Blames manager event := by
  unfold firewall at emitted
  cases decided : tryFirewall ctx manager .zero with
  | none =>
      rw [decided] at emitted
      exact absurd emitted List.not_mem_nil
  | some verdict =>
      rw [decided] at emitted
      dsimp only at emitted
      rcases tryFirewall_cases decided with ⟨tags, few, four⟩ | ⟨tags, few, six⟩ | rfl
      · rw [tryFirewall_ipv4 few four, ipv4Verdict] at decided
        split_ifs at decided with bypass
        · rw [← Option.some.inj decided] at emitted
          simp [accept, updateStats, Telemetry.zero] at emitted
        · rw [← Option.some.inj decided] at emitted
          obtain ⟨rule, matchType, hit, rfl⟩ := enforce_events emitted
          refine blames_v4 hit ?_ rfl
          exact congrArg IpAddr.v4 (slice_paddedAddr _)
      · rw [tryFirewall_ipv6 few six, ipv6Verdict] at decided
        rw [← Option.some.inj decided] at emitted
        obtain ⟨rule, matchType, hit, rfl⟩ := enforce_events emitted
        exact blames_v6 hit rfl rfl
      · simp [accept, updateStats, Telemetry.zero] at emitted

end Events

section Values

structure Serves (manager : MapManager) (feed static : ParsedRuleSet) : Prop where
  values : ∀ kind key value, (manager.slot kind).map.lookup key = some value →
    feed.Assigns kind key value ∨ static.Assigns kind key value
  owned : ∀ kind key, key ∈ (manager.slot kind).firehol ↔ key ∈ feed.keys kind

variable {manager : MapManager} {feed static next : ParsedRuleSet}

-- The keys of the old feed are overwritten or removed, so what is left over is static.
theorem Serves.sync_firehol (serves : Serves manager feed static) (hashing : Hashing) :
    Serves (syncFireholRules hashing allSucceed manager next).1 next static := by
  refine ⟨fun kind key value found => ?_, fun kind key => ?_⟩
  · by_cases renewed : key ∈ installs hashing allSucceed next kind
    · exact Or.inl (@apply_lookup_installed ⟨.firehol, next, hashing⟩ _ _ _ _ _ renewed found)
    · rw [syncFireholRules_lookup_kept _ _ _ _ _ _ renewed] at found
      split_ifs at found with fed
      refine (serves.values kind key value found).imp_left fun assigned => ?_
      exact absurd ((serves.owned kind key).mpr ((feed.mem_keys kind key).mpr ⟨value, assigned⟩)) fed
  · rw [syncFireholRules_firehol, installs_allSucceed]

-- A key that the feed shares with the old rules keeps its old value unless the new rules have it too.
theorem Serves.sync_static (serves : Serves manager feed static) (hashing : Hashing)
    (kept : ∀ kind key, key ∈ feed.keys kind → key ∈ static.keys kind → key ∈ next.keys kind) :
    Serves (syncRules hashing allSucceed manager next).1 feed next := by
  refine ⟨fun kind key value found => ?_, fun kind key => ?_⟩
  · by_cases renewed : key ∈ installs hashing allSucceed next kind
    · exact Or.inr (@apply_lookup_installed ⟨.static, next, hashing⟩ _ _ _ _ _ renewed found)
    · rw [syncRules_lookup_kept _ _ _ _ _ _ renewed] at found
      split_ifs at found with fed
      refine (serves.values kind key value found).imp_right fun assigned => ?_
      rw [installs_allSucceed] at renewed
      exact absurd (kept kind key ((serves.owned kind key).mp fed) ((static.mem_keys kind key).mpr ⟨value, assigned⟩))
        renewed
  · rw [syncRules_firehol]
    exact serves.owned kind key

end Values

section RuleFiles

variable {ipNetFromStr : List Char → Option IpNet}

theorem entry_covers (entry : ParsedEntry) (ip : IpAddr) :
    entry.Covers ip ↔ KeyCovers entry.key.1 entry.key.2 ip := by
  cases entry <;> cases ip <;> rfl

theorem lineKey_covers {text : List Char} {kind : MapKind} {key : kind.Key}
    (parsed : lineKey ipNetFromStr text = some ⟨kind, key⟩) {ip : IpAddr} (covers : KeyCovers kind key ip) :
    Rules.LineCovers ipNetFromStr text ip := by
  unfold lineKey at parsed
  split at parsed
  · next entry read =>
    refine (parseLine_covers ipNetFromStr text 0 ip).mpr ⟨entry, read, ?_⟩
    rw [entry_covers]
    rw [Option.some.inj parsed]
    exact covers
  · simp at parsed

def RuleFilesList (ipNetFromStr : List Char → Option IpNet) (files : List RuleFile) (ip : IpAddr)
    (source : List Char × BitVec 32) : Prop :=
  ∃ line ∈ ruleLines files, Rules.LineCovers ipNetFromStr line.text ip ∧
    source = (line.file, BitVec.ofNat 32 line.number)

theorem static_origin {files : List RuleFile} {rules : ParsedRuleSet} {staticMeta : Store (BitVec 32) StaticRuleInfo}
    (loaded : loadFromPathsWithMeta ipNetFromStr files = .ok (rules, staticMeta))
    (few : acceptedLines ipNetFromStr files ≤ 2 ^ 32 - 2 ^ 28) {kind : MapKind} {key : kind.Key} {value : RuleValue}
    (assigned : rules.Assigns kind key value) {ip : IpAddr} (covers : KeyCovers kind key ip) :
    2 ^ 28 ≤ value.ruleId.toNat ∧ ∃ info, staticMeta.lookup value.ruleId = some info ∧
      RuleFilesList ipNetFromStr files ip (info.file, info.line) := by
  unfold loadFromPathsWithMeta at loaded
  cases read : loadFiles ipNetFromStr .start files with
  | error error => simp [read] at loaded
  | ok state =>
      simp only [read, Except.ok.injEq, Prod.mk.injEq] at loaded
      obtain ⟨rfl, rfl⟩ := loaded
      have records := start_records.readFiles read
      rw [List.nil_append] at records
      have given : GivenBy ipNetFromStr (acceptedRules ipNetFromStr (ruleLines files)) kind key value := by
        rw [← records.assigns]
        cases kind <;> exact assigned
      obtain ⟨index, line, here, parsed, rfl, _⟩ := given
      obtain ⟨inside, _⟩ := List.getElem?_eq_some_iff.mp here
      rw [acceptedRules_length] at inside
      refine ⟨?_, _, records.info (by rw [acceptedRules_length]; omega) index line here, line, ?_,
        lineKey_covers parsed covers, rfl⟩
      · change 2 ^ 28 ≤ (staticId index).toNat
        rw [staticId, staticId_toNat, Nat.mod_eq_of_lt (by omega)]
        omega
      · exact List.mem_of_mem_filter (List.mem_of_getElem? here)

end RuleFiles

section Feeds

structure FeedOf (context : ImportContext) (directory : Directory) (feed : LoadedFeed) : Prop where
  visited : feed.imported.visitEntries = .ok feed.entries
  small : feed.batches.flatten.length < 2 ^ 32
  listed : ∀ entry ∈ feed.entries, ∃ file position,
    feed.source entry = (file.name, BitVec.ofNat 32 (position + 1)) ∧
      ∀ ip, entry.target.Covers ip → directory.ListsAt context ip file position
  complete : ∀ ip file position, directory.ListsAt context ip file position →
    ∃ entry ∈ feed.entries, entry.target.Covers ip ∧ feed.source entry = (file.name, BitVec.ofNat 32 (position + 1))

variable {context : ImportContext} {setup : ImportSetup} {directory : Directory} {execution : Execution}
  {imported : ImportedDataSet} {rules : ParsedRuleSet} {report : FireholSyncReport}

theorem feedOf_parsed (numberable : directory.Numberable)
    (done : parseDirectory context setup directory execution = some (.ok imported)) (filled : imported.isEmpty = false)
    (prepared : tryPrepareRules imported.toFireholDataSet = .ok (rules, report)) :
    ∃ feed : LoadedFeed, feed.imported = imported ∧ feed.rules = rules ∧ FeedOf context directory feed := by
  obtain ⟨files, discovered, ⟨-, rfl⟩ | ⟨sorted, state, batches, built⟩⟩ := parseDirectory_ok done
  · simp [ImportedDataSet.isEmpty, ImportedDataSet.totalEntries, ImportedDataSet.empty] at filled
  · obtain ⟨sound, small, _, visited, listed⟩ := built.builtFrom numberable discovered sorted
    let feed : LoadedFeed := ⟨setup.sizeInBytes, setup.storage, setup.orders, state.metadata,
      state.shared.nextMetadataId, batches, imported, rules, report, sound.nonempty, sound.range, sound.canonical,
      sound.registered, sound.numbering.positive, built.done, prepared⟩
    refine ⟨feed, rfl, rfl, visited, small, fun entry member => ?_, fun ip file position lists => ?_⟩
    · obtain ⟨file, inside, position, origin⟩ := sound.origins entry member
      exact ⟨file, position, (sound.source_of origin).1, fun ip covers => origin.listsAt listed inside covers⟩
    · obtain ⟨entry, member, covers, origin⟩ := sound.of_listsAt listed lists
      exact ⟨entry, member, covers, (sound.source_of origin).1⟩

variable {feed : LoadedFeed} (known : FeedOf context directory feed)

include known

theorem FeedOf.ids : feed.entries.map (fun entry => entry.ruleId.toNat) = List.range' 1 feed.entries.length :=
  importedEntries_ids known.small

theorem FeedOf.assigned {kind : MapKind} {key : kind.Key} {value : RuleValue}
    (assigned : feed.rules.Assigns kind key value) {ip : IpAddr} (covers : KeyCovers kind key ip) :
    ∃ entry ∈ feed.entries, entry.target.Covers ip ∧ value.ruleId = entry.ruleId := by
  obtain ⟨entries, visited, rules, _⟩ := tryPrepareRules_ok feed.prepared
  obtain rfl : feed.entries = entries := Except.ok.inj (known.visited.symm.trans visited)
  rw [rules] at assigned
  have prepared := (Preparation.prepared_visits feed.entries).assigns kind key value
  obtain ⟨first, found, rfl⟩ := prepared.mp (by cases kind <;> exact assigned)
  have placed : first.target.place = some ⟨kind, key⟩ := by simpa using List.find?_some found
  exact ⟨first, List.mem_of_find?_eq_some found, (place_covers placed ip).mp covers, rfl⟩

theorem FeedOf.lines {entry : FireholEntry} (member : entry ∈ feed.entries) {ip : IpAddr}
    (covers : entry.target.Covers ip) : ∃ file position, directory.ListsAt context ip file position ∧
      feed.source entry = (file.name, BitVec.ofNat 32 (position + 1)) := by
  obtain ⟨file, position, source, lists⟩ := known.listed entry member
  exact ⟨file, position, lists ip covers, source⟩

end Feeds

section Blocks

-- The spool is cleared when a registry is published; resolving and looking up do not read it.
theorem assembleBlock_clearEntries (dataset : ImportedDataSet) (static : Option (Store (BitVec 32) StaticRuleInfo))
    (event : PacketLogEvent) :
    assembleBlock (some dataset.clearEntries) static event = assembleBlock (some dataset.registry) static event := by
  have looks : ∀ ip, lookupSource dataset.clearEntries event.ipVersion ip =
      lookupSource dataset.registry event.ipVersion ip := by
    intro ip
    unfold ImportedDataSet.clearEntries
    split_ifs
    · cases stored : dataset.registry.cache <;> cases ip <;>
        simp only [lookupSource, FireholMetadataRegistry.lookupIpV4, FireholMetadataRegistry.lookupIpV6, stored] <;> rfl
    · rfl
  have resolves : dataset.clearEntries.resolveRuleBlock event.ruleId =
      dataset.registry.resolveRuleBlock event.ruleId := by
    unfold ImportedDataSet.clearEntries
    split_ifs
    · simp only [FireholMetadataRegistry.resolveRuleBlock, FireholMetadataRegistry.fileNameFor,
        FireholMetadataRegistry.categoryFor, Option.isSome_map]
    · rfl
  simp only [assembleBlock, winningContext, matchingContexts, looks, resolves, Option.bind_some]

def ListingLine (context : ImportContext) (ipNetFromStr : List Char → Option IpNet) (checkout : Option Directory)
    (files : List RuleFile) (ip : IpAddr) (source : List Char × BitVec 32) : Prop :=
  (∃ directory ∈ checkout, ∃ file position, directory.ListsAt context ip file position ∧
    source = (file.name, BitVec.ofNat 32 (position + 1))) ∨ RuleFilesList ipNetFromStr files ip source

def feedRules (feed : Option LoadedFeed) : ParsedRuleSet := (feed.map LoadedFeed.rules).getD .new

def staticRules (static : Option StaticLoad) : ParsedRuleSet := (static.map StaticLoad.rules).getD .new

structure Explained (context : ImportContext) (ipNetFromStr : List Char → Option IpNet) (files : List RuleFile)
    (checkout : Option Directory) (feed : Option LoadedFeed) (static : Option StaticLoad) : Prop where
  feeds : ∀ own ∈ feed, ∃ directory ∈ checkout, FeedOf context directory own ∧ own.entries.length < 2 ^ 28
  checkouts : ∀ directory ∈ checkout, ∃ own ∈ feed, FeedOf context directory own
  static : ∀ load ∈ static, load.ipNetFromStr = ipNetFromStr ∧ load.files = files
  few : acceptedLines ipNetFromStr files ≤ 2 ^ 32 - 2 ^ 28

variable {context : ImportContext} {ipNetFromStr : List Char → Option IpNet} {files : List RuleFile}
  {checkout : Option Directory} {feed : Option LoadedFeed} {static : Option StaticLoad}

theorem assigns_new {kind : MapKind} {key : kind.Key} {value : RuleValue} :
    ¬ ParsedRuleSet.new.Assigns kind key value := by
  intro assigned
  exact new_keys kind key ((ParsedRuleSet.new.mem_keys kind key).mpr ⟨value, assigned⟩)

theorem mem_linesOf {own : LoadedFeed} {entry : FireholEntry} (member : entry ∈ own.entries)
    {source : List Char × BitVec 32} (listed : source ∈ own.linesOf entry) :
    ∃ other ∈ own.entries, other.target = entry.target ∧ own.source other = source := by
  unfold LoadedFeed.linesOf at listed
  split at listed
  · simpa [and_assoc] using listed
  · exact ⟨entry, member, rfl, (List.mem_singleton.mp listed).symm⟩

theorem self_mem_linesOf {own : LoadedFeed} {entry : FireholEntry} (member : entry ∈ own.entries) :
    own.source entry ∈ own.linesOf entry := by
  unfold LoadedFeed.linesOf
  split
  · exact List.mem_map_of_mem (List.mem_filter.mpr ⟨member, by simp⟩)
  · exact List.mem_singleton_self _

theorem Explained.numbered (explained : Explained context ipNetFromStr files checkout feed static)
    {manager : MapManager} (serves : Serves manager (feedRules feed) (staticRules static)) {event : PacketLogEvent}
    (blames : Blames manager event) :
    (∃ source, NumberedBy feed static event.ruleId source) ∧ ∀ source, NumberedBy feed static event.ruleId source →
      ListingLine context ipNetFromStr checkout files (srcAddr event) source := by
  obtain ⟨kind, key, value, found, covers, same⟩ := blames
  rcases serves.values kind key value found with fed | ruled
  · cases feed with
    | none => exact absurd fed assigns_new
    | some own =>
        obtain ⟨directory, given, known, _⟩ := explained.feeds own rfl
        obtain ⟨entry, member, inside, id⟩ := known.assigned fed covers
        rw [same] at id
        constructor
        · exact ⟨own.source entry, Or.inl ⟨own, rfl, entry, member, id.symm, self_mem_linesOf member⟩⟩
        · intro source numbered
          rcases numbered with ⟨used, active, other, present, equal, listed⟩ | ⟨unknown, _⟩
          · obtain rfl : own = used := Option.mem_some.mp active
            have distinct := importedEntries_distinct known.small
            obtain rfl : other = entry := List.inj_on_of_nodup_map distinct present member
              (congrArg BitVec.toNat (equal.trans id))
            obtain ⟨line, behind, target, rfl⟩ := mem_linesOf member listed
            obtain ⟨file, position, lists, named⟩ := known.lines behind (target ▸ inside)
            exact Or.inl ⟨directory, given, file, position, lists, named⟩
          · exact absurd id.symm (unknown own rfl entry member)
  · cases static with
    | none => exact absurd ruled assigns_new
    | some load =>
        obtain ⟨rfl, rfl⟩ := explained.static load rfl
        obtain ⟨large, info, recorded, lists⟩ := static_origin load.loaded explained.few ruled covers
        rw [same] at large recorded
        have unknown : ∀ own ∈ feed, ∀ entry ∈ own.entries, entry.ruleId ≠ event.ruleId := by
          intro own given entry member equal
          obtain ⟨_, _, known, few⟩ := explained.feeds own given
          refine outside_ids known.ids ?_ entry member equal
          omega
        constructor
        · exact ⟨_, Or.inr ⟨unknown, load, rfl, info, recorded, rfl⟩⟩
        · intro source numbered
          rcases numbered with ⟨own, given, entry, member, equal, _⟩ | ⟨_, used, active, other, found, rfl⟩
          · exact absurd equal (unknown own given entry member)
          · obtain rfl : load = used := Option.mem_some.mp active
            obtain rfl : other = info := Option.some.inj (found.symm.trans recorded)
            exact Or.inr lists

theorem FeedOf.looked_up {directory : Directory} {own : LoadedFeed} (known : FeedOf context directory own)
    {event : PacketLogEvent} (ipv4 : event.ipVersion = 4) {file : SourceFile} {position : Nat}
    (lists : directory.ListsAt context (srcAddr event) file position) :
    ∃ block ∈ matchingContexts (some (activeRegistry (some own))) event,
      (file.name, BitVec.ofNat 32 (position + 1)) ∈ block.sources := by
  obtain ⟨entry, member, covers, source⟩ := known.complete _ file position lists
  refine ⟨targetContext (metadataTable own.metadata) own.entries entry.target, ?_,
    (mem_targetContext_sources entry.target _).mpr ⟨entry, member, rfl, source⟩⟩
  rw [matchingContexts_ipv4 _ ipv4]
  have done := own.done
  cases stored : own.storage with
  | memory =>
      rw [stored] at done
      exact (mem_lookupIp_inMemory own.nonempty own.range own.registered done _ _).mpr ⟨entry, member, covers, rfl⟩
  | database archive limit spool =>
      rw [stored] at done
      refine (mem_lookupIp_database own.nonempty own.range own.canonical own.registered done _ _).mpr
        ⟨entry, member, ⟨covers, ?_⟩, rfl⟩
      simp only [srcAddr, ipv4, if_true]
      cases entry.target <;> simp [FireholIpTarget.Missed]

structure ListingBlock (context : ImportContext) (ipNetFromStr : List Char → Option IpNet)
    (checkout : Option Directory) (files : List RuleFile) (event : PacketLogEvent) (block : RuleBlockContext) : Prop where
  nonempty : block.sources ≠ []
  sound : ∀ source ∈ block.sources, ListingLine context ipNetFromStr checkout files (srcAddr event) source
  complete : event.ipVersion = 4 → ∀ directory ∈ checkout, ∀ file position,
    directory.ListsAt context (srcAddr event) file position →
      (file.name, BitVec.ofNat 32 (position + 1)) ∈ block.sources

theorem Explained.block (explained : Explained context ipNetFromStr files checkout feed static)
    {manager : MapManager} (serves : Serves manager (feedRules feed) (staticRules static)) {event : PacketLogEvent}
    (blames : Blames manager event) :
    ListingBlock context ipNetFromStr checkout files event (loggedBlock feed static event) := by
  obtain ⟨⟨first, numbered⟩, lists⟩ := explained.numbered serves blames
  refine ⟨?_, fun source member => ?_, fun ipv4 directory given file position listed => ?_⟩
  · exact List.ne_nil_of_mem ((mem_loggedBlock event first).mpr (Or.inl numbered))
  · rcases (mem_loggedBlock event source).mp member with own | ⟨found, looked, inside⟩
    · exact lists source own
    · obtain ⟨own, active, entry, _, covers, rfl⟩ := matching_covers looked
      obtain ⟨other, behind, target, rfl⟩ := (mem_targetContext_sources entry.target source).mp inside
      obtain ⟨directory, given, known, _⟩ := explained.feeds own active
      obtain ⟨file, position, listed, named⟩ := known.lines behind (target ▸ covers)
      exact Or.inl ⟨directory, given, file, position, listed, named⟩
  · obtain ⟨own, active, known⟩ := explained.checkouts directory given
    obtain rfl := Option.mem_def.mp active
    exact (mem_loggedBlock event _).mpr (Or.inr (known.looked_up ipv4 listed))

end Blocks

end ReputationFirewall
