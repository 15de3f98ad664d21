import ReputationFirewall.DropReasons

set_option autoImplicit false

namespace ReputationFirewall

open BigEndian Firehol KeyedStore Maps NetAddr RingBuf Rules Runs Xdp

section Updates

inductive Update where
  | sync (env : SyncEnvironment Directory Execution) (locked : Bool)
  | reload (hashing : Hashing) (ok : Outcomes) (files : List RuleFile)

def Update.env? : Update → Option (SyncEnvironment Directory Execution)
  | .sync env _ => some env
  | .reload .. => none

def Update.files? : Update → Option (List RuleFile)
  | .sync .. => none
  | .reload _ _ files => some files

variable (parse : Directory → Execution → Except (List Char) ImportedDataSet)
  (ipNetFromStr : List Char → Option IpNet)

namespace Machine

def update (machine : Machine) : Update → Machine
  | .sync env locked =>
      match executeFireholSync parse env false locked machine.sync with
      | (.ok _, sync) => { machine with sync }
      | (.error _, sync) => { machine with sync }.recordError "firehol_sync_failed"
  | .reload hashing ok files =>
      match loadFromPathsWithMeta ipNetFromStr files with
      | .error _ => machine.recordError "watcher_parse"
      | .ok (rules, static) =>
          { machine with
            static
            sync := { machine.sync with
              manager := machine.sync.manager.map fun manager => (syncRules hashing ok manager rules).1 } }

end Machine

-- Files that do not load leave the earlier ones in force.
def readFiles (files read : List RuleFile) : List RuleFile :=
  match loadFromPathsWithMeta ipNetFromStr read with
  | .error _ => files
  | .ok _ => read

def latestFiles (files : List RuleFile) : Update → List RuleFile
  | .sync .. => files
  | .reload _ _ read => readFiles ipNetFromStr files read

structure FeedFits (sync : SyncEnvironment Directory Execution) : Prop where
  inserted : sync.ok = allSucceed
  numberable : sync.checkout.Numberable
  few : ∀ dataset entries, parse sync.checkout sync.execution = .ok dataset → dataset.visitEntries = .ok entries →
    entries.length < 2 ^ 28

def FilesFit (files : List RuleFile) : Prop := acceptedLines ipNetFromStr files ≤ 2 ^ 32 - 2 ^ 28

def Update.Fits : Update → Prop
  | .sync env _ => FeedFits parse env
  | .reload _ ok files => ok = allSucceed ∧ FilesFit ipNetFromStr files

def KeysApart (syncs : List (SyncEnvironment Directory Execution)) (reads : List (List RuleFile)) : Prop :=
  ∀ sync ∈ syncs, ∀ dataset rules report, parse sync.checkout sync.execution = .ok dataset →
    tryPrepareRules dataset.toFireholDataSet = .ok (rules, report) →
      ∀ files ∈ reads, ∀ static staticMeta, loadFromPathsWithMeta ipNetFromStr files = .ok (static, staticMeta) →
        ∀ kind, Disjoint (rules.keys kind) (static.keys kind)

theorem update_sync_cases (machine : Machine) (env : SyncEnvironment Directory Execution) (locked : Bool) :
    (machine.update parse ipNetFromStr (.sync env locked)).static = machine.static ∧
      (((machine.update parse ipNetFromStr (.sync env locked)).sync.manager = machine.sync.manager ∧
        (machine.update parse ipNetFromStr (.sync env locked)).sync.blocklist = machine.sync.blocklist) ∨
      ∃ status dataset rules draft, Prepares parse env false machine.sync status dataset rules draft ∧
        (machine.update parse ipNetFromStr (.sync env locked)).sync =
          (machine.sync.startImport.loadIntoMaps env.hashing env.ok rules draft).2.publish dataset.clearEntries
            status) := by
  have state : (machine.update parse ipNetFromStr (.sync env locked)).sync =
      (executeFireholSync parse env false locked machine.sync).2 ∧
        (machine.update parse ipNetFromStr (.sync env locked)).static = machine.static := by
    rcases ran : executeFireholSync parse env false locked machine.sync with ⟨_ | _, after⟩ <;>
      simp [Machine.update, ran, Machine.recordError]
  rw [state.1]
  refine ⟨state.2, ?_⟩
  cases locked with
  | true => exact Or.inl ⟨rfl, rfl⟩
  | false =>
      rw [executeFireholSync_free parse (Or.inr rfl), outcomeOf_state]
      have case := sync_cases parse env false machine.sync
      generalize synchronizeAndLoadInternal parse env false machine.sync = result at case ⊢
      cases case with
      | unreachable reason unreached => exact Or.inl ⟨rfl, rfl⟩
      | failed error status synchronized changed => exact Or.inl ⟨rfl, rfl⟩
      | skipped status synchronized unchanged => exact Or.inl ⟨rfl, rfl⟩
      | loaded status dataset rules draft prepares => exact Or.inr ⟨status, dataset, rules, draft, prepares, rfl⟩

end Updates

section Sessions

variable (context : ImportContext) (parse : Directory → Execution → Except (List Char) ImportedDataSet)

-- What the parser returns is what the import of the directory returns, whatever it does about a panic.
def Parses : Prop :=
  ∀ directory execution dataset, parse directory execution = .ok dataset →
    ∃ setup, parseDirectory context setup directory execution = some (.ok dataset)

def LoadedFrom (syncs : List (SyncEnvironment Directory Execution)) (state : SyncState) : Option Directory → Prop
  | none => state.blocklist = .new
  | some directory => ∃ sync ∈ syncs, sync.checkout = directory ∧ ∃ status, sync.git = .ok status ∧
      state.blocklist.lastLoadedCommit = some status.commitOid

structure Session (ipNetFromStr : List Char → Option IpNet) (syncs : List (SyncEnvironment Directory Execution))
    (files : List RuleFile) (machine : Machine) (manager : MapManager) (checkout : Option Directory)
    (feed : Option LoadedFeed) (static : Option StaticLoad) : Prop where
  managed : machine.sync.manager = some manager
  serves : Serves manager (feedRules feed) (staticRules static)
  explained : Explained context ipNetFromStr files checkout feed static
  active : machine.sync.blocklist.activeRegistry = (feed.map fun own => own.imported.clearEntries).getD .new
  registered : activeStatic static = machine.static
  checkouts : LoadedFrom syncs machine.sync checkout
  parsed : ∀ own ∈ feed, ∃ sync ∈ syncs, parse sync.checkout sync.execution = .ok own.imported

variable {context parse} {ipNetFromStr : List Char → Option IpNet} {syncs : List (SyncEnvironment Directory Execution)}
  {files : List RuleFile} {machine : Machine} {manager : MapManager} {checkout : Option Directory}
  {feed : Option LoadedFeed} {static : Option StaticLoad}

theorem LoadedFrom.mono {state after : SyncState} (loaded : LoadedFrom syncs state checkout)
    (same : after.blocklist = state.blocklist) (more : List (SyncEnvironment Directory Execution)) :
    LoadedFrom (syncs ++ more) after checkout := by
  cases checkout with
  | none => exact same.trans loaded
  | some directory =>
      obtain ⟨sync, member, rest⟩ := loaded
      exact ⟨sync, List.mem_append_left _ member, by rwa [same]⟩

section Facts

variable (session : Session context parse ipNetFromStr syncs files machine manager checkout feed static)

include session

theorem Session.block {ctx : XdpContext} {event : PacketLogEvent}
    (emitted : event ∈ (firewall ctx manager .zero).2.events) :
    ListingBlock context ipNetFromStr checkout files event
      (assembleBlock (some machine.sync.blocklist.activeRegistry) (some machine.static) event) := by
  have block := session.explained.block session.serves (event_blames emitted)
  rw [session.active, ← session.registered]
  cases feed with
  | none => exact block
  | some own =>
      rw [Option.map_some, Option.getD_some, assembleBlock_clearEntries]
      exact block

theorem Session.keep (next : Machine) (sameMaps : next.sync.manager = machine.sync.manager)
    (sameList : next.sync.blocklist = machine.sync.blocklist) (sameStatic : next.static = machine.static)
    (more : List (SyncEnvironment Directory Execution)) :
    Session context parse ipNetFromStr (syncs ++ more) files next manager checkout feed static := by
  refine ⟨sameMaps.trans session.managed, session.serves, session.explained, sameList ▸ session.active,
    session.registered.trans sameStatic.symm, ?_, fun own given => ?_⟩
  · exact session.checkouts.mono sameList more
  · obtain ⟨sync, member, parsed⟩ := session.parsed own given
    exact ⟨sync, List.mem_append_left _ member, parsed⟩

theorem Session.same (next : Machine) (sameMaps : next.sync.manager = machine.sync.manager)
    (sameList : next.sync.blocklist = machine.sync.blocklist) (sameStatic : next.static = machine.static) :
    Session context parse ipNetFromStr syncs files next manager checkout feed static := by
  have kept := session.keep next sameMaps sameList sameStatic []
  rwa [List.append_nil] at kept

theorem Session.load (next : Machine) (parses : Parses context parse) {sync : SyncEnvironment Directory Execution}
    (fits : FeedFits parse sync) {isStartup : Bool} {status : SyncStatus} {dataset : ImportedDataSet}
    {rules : ParsedRuleSet} {draft : FireholSyncReport}
    (prepares : Prepares parse sync isStartup machine.sync status dataset rules draft)
    (loaded : next.sync =
      (machine.sync.startImport.loadIntoMaps sync.hashing sync.ok rules draft).2.publish dataset.clearEntries status)
    (sameStatic : next.static = machine.static) :
    ∃ manager own, Session context parse ipNetFromStr (syncs ++ [sync]) files next manager (some sync.checkout)
      (some own) static := by
  obtain ⟨setup, parsed⟩ := parses _ _ _ prepares.parsed
  obtain ⟨own, rfl, rfl, known⟩ := feedOf_parsed fits.numberable parsed prepares.nonempty prepares.prepared
  refine ⟨(syncFireholRules sync.hashing allSucceed manager own.rules).1, own, ?_, session.serves.sync_firehol _, ?_, ?_,
    session.registered.trans sameStatic.symm, ?_, fun used given => ?_⟩
  · simp [loaded, SyncState.publish, SyncState.loadIntoMaps, SyncState.startImport, session.managed, fits.inserted]
  · refine ⟨fun used active => ?_, fun directory given => ?_, session.explained.static, session.explained.few⟩
    · obtain rfl := Option.mem_some.mp active
      exact ⟨sync.checkout, rfl, known, fits.few _ _ prepares.parsed known.visited⟩
    · obtain rfl := Option.mem_some.mp given
      exact ⟨own, rfl, known⟩
  · rw [loaded]
    rfl
  · exact ⟨sync, by simp, rfl, status, prepares.synchronized, by rw [loaded]; rfl⟩
  · obtain rfl := Option.mem_some.mp given
    exact ⟨sync, by simp, prepares.parsed⟩

theorem Session.apart {reads : List (List RuleFile)} (apart : KeysApart parse ipNetFromStr syncs reads)
    (reading : ∀ load ∈ static, load.ipNetFromStr = ipNetFromStr ∧ load.files ∈ reads) {kind : MapKind} {key : kind.Key}
    (fed : key ∈ (feedRules feed).keys kind) : key ∉ (staticRules static).keys kind := by
  cases feed with
  | none => exact absurd fed (new_keys kind key)
  | some own =>
      cases static with
      | none => exact new_keys kind key
      | some load =>
          obtain ⟨sync, member, parsed⟩ := session.parsed own rfl
          obtain ⟨rfl, listed⟩ := reading load rfl
          have disjoint := apart sync member _ _ _ parsed own.prepared _ listed _ _ load.loaded kind
          exact Finset.disjoint_left.mp disjoint fed

theorem Session.read (next : Machine) (hashing : Hashing) {read : List RuleFile} (few : FilesFit ipNetFromStr read)
    {rules : ParsedRuleSet} {staticMeta : Store (BitVec 32) StaticRuleInfo}
    (loaded : loadFromPathsWithMeta ipNetFromStr read = .ok (rules, staticMeta))
    (kept : ∀ kind key, key ∈ (feedRules feed).keys kind → key ∈ (staticRules static).keys kind → key ∈ rules.keys kind)
    (installed : next.sync.manager =
      machine.sync.manager.map fun manager => (syncRules hashing allSucceed manager rules).1)
    (sameList : next.sync.blocklist = machine.sync.blocklist) (registered : next.static = staticMeta) :
    Session context parse ipNetFromStr syncs read next (syncRules hashing allSucceed manager rules).1 checkout feed
      (some ⟨ipNetFromStr, read, rules, staticMeta, loaded⟩) := by
  refine ⟨by rw [installed, session.managed]; rfl, session.serves.sync_static hashing kept, ?_,
    sameList ▸ session.active, registered.symm, ?_, session.parsed⟩
  · refine ⟨session.explained.feeds, session.explained.checkouts, fun load given => ?_, few⟩
    obtain rfl := Option.mem_some.mp given
    exact ⟨rfl, rfl⟩
  · rw [← List.append_nil syncs]
    exact session.checkouts.mono sameList []

end Facts

def InSession (context : ImportContext) (parse : Directory → Execution → Except (List Char) ImportedDataSet)
    (ipNetFromStr : List Char → Option IpNet) (syncs : List (SyncEnvironment Directory Execution))
    (reads : List (List RuleFile)) (files : List RuleFile) (machine : Machine) : Prop :=
  ∃ manager checkout feed static,
    Session context parse ipNetFromStr syncs files machine manager checkout feed static ∧
      ∀ load ∈ static, load.ipNetFromStr = ipNetFromStr ∧ load.files ∈ reads

theorem InSession.update (parses : Parses context parse) {reads : List (List RuleFile)}
    (session : InSession context parse ipNetFromStr syncs reads files machine) {update : Update}
    (fits : update.Fits parse ipNetFromStr) (apart : KeysApart parse ipNetFromStr syncs reads) :
    InSession context parse ipNetFromStr (syncs ++ update.env?.toList) (reads ++ update.files?.toList)
      (latestFiles ipNetFromStr files update) (machine.update parse ipNetFromStr update) := by
  obtain ⟨manager, checkout, feed, static, session, reading⟩ := session
  have known : ∀ load ∈ static, load.ipNetFromStr = ipNetFromStr ∧ load.files ∈ reads ++ update.files?.toList :=
    fun load given => (reading load given).imp_right (List.mem_append_left _)
  cases update with
  | sync env locked =>
      obtain ⟨sameStatic, kept | ⟨status, dataset, rules, draft, prepares, loaded⟩⟩ :=
        update_sync_cases parse ipNetFromStr machine env locked
      · exact ⟨manager, checkout, feed, static, session.keep _ kept.1 kept.2 sameStatic _, known⟩
      · obtain ⟨next, own, after⟩ := session.load _ parses fits prepares loaded sameStatic
        exact ⟨next, _, _, static, after, known⟩
  | reload hashing ok read =>
      obtain ⟨rfl, few⟩ := fits
      cases loaded : loadFromPathsWithMeta ipNetFromStr read with
      | error error =>
          simp only [latestFiles, readFiles, Machine.update, loaded]
          exact ⟨manager, checkout, feed, static, session.keep (machine.recordError _) rfl rfl rfl _, known⟩
      | ok result =>
          obtain ⟨rules, staticMeta⟩ := result
          simp only [latestFiles, readFiles, Machine.update, loaded]
          have kept : ∀ kind key, key ∈ (feedRules feed).keys kind → key ∈ (staticRules static).keys kind →
              key ∈ rules.keys kind :=
            fun kind key fed ruled => absurd ruled (session.apart apart reading fed)
          have unsynced : syncs ++ (Update.reload hashing allSucceed read).env?.toList = syncs := List.append_nil syncs
          rw [unsynced]
          refine ⟨_, checkout, feed, _, session.read _ hashing few loaded kept rfl rfl rfl, fun load given => ?_⟩
          obtain rfl := Option.mem_some.mp given
          exact ⟨rfl, by simp [Update.files?]⟩

theorem filterMap_concat {α β : Type} (select : α → Option β) (items : List α) (item : α) :
    (items ++ [item]).filterMap select = items.filterMap select ++ (select item).toList := by
  cases selected : select item <;> simp [selected]

end Sessions

section Starting

variable {context : ImportContext} {parse : Directory → Execution → Except (List Char) ImportedDataSet}
  {ipNetFromStr : List Char → Option IpNet} {config : Config} {env : StartEnvironment Directory Execution}
  {machine : Machine}

theorem start_inverted (started : Machine.start parse ipNetFromStr config env = .running machine) :
    ∃ initialized mode, Machine.initializeFirehol parse config env
        { Machine.new config with sync := ⟨.new, some .new, ⟨0, 0, 0⟩⟩ } = .ok initialized ∧
      machine = { initialized.loadStatic ipNetFromStr config env with attached := some mode } := by
  unfold Machine.start at started
  dsimp only at started
  split_ifs at started
  · simp [Machine.abort] at started
  · simp [Machine.abort] at started
  · simp [Machine.abort] at started
  · cases done : Machine.initializeFirehol parse config env
        { Machine.new config with sync := { (Machine.new config).sync with manager := some .new } } with
    | error failed => simp [done, Machine.abort] at started
    | ok initialized =>
        rw [done] at started
        cases attached : attach env.attaches config.mode with
        | none => simp [attached, Machine.abort] at started
        | some mode =>
            simp only [attached, Start.running.injEq] at started
            exact ⟨initialized, mode, done, started.symm⟩

noncomputable def parseSmall (directory : Directory) (execution : Execution) : Except (List Char) ImportedDataSet :=
  match parseDirectory ignoringContext (smallSetup .memory) directory execution with
  | some (.ok dataset) => .ok dataset
  | _ => .error []

theorem parseSmall_parses : Parses ignoringContext parseSmall := by
  intro directory execution dataset parsed
  unfold parseSmall at parsed
  split at parsed
  · next found => exact ⟨smallSetup .memory, Except.ok.inj parsed ▸ found⟩
  · simp at parsed

noncomputable def smallStart : StartEnvironment Directory Execution where
  ebpfLoads := true
  ringbufOpens := true
  mapsOpen := true
  sync := ⟨.ok (.cloned "e69de29".toList 1), smallDirectory, quietExecution, none, .arbitrary, allSucceed⟩
  hashing := .arbitrary
  ok := allSucceed
  attaches := fun _ => true

theorem parseSmall_small : ∃ dataset entries, parseSmall smallDirectory quietExecution = .ok dataset ∧
    dataset.visitEntries = .ok entries ∧ dataset.isEmpty = false ∧ entries.length < 2 ^ 28 := by
  have returned : ((parseSmall smallDirectory quietExecution).toOption.bind fun dataset =>
      dataset.visitEntries.toOption.bind fun entries =>
        if dataset.isEmpty = false ∧ entries.length < 2 ^ 28 then some () else none).isSome = true := by decide +kernel
  obtain ⟨_, found⟩ := Option.isSome_iff_exists.mp returned
  obtain ⟨dataset, parsed, rest⟩ := Option.bind_eq_some_iff.mp found
  obtain ⟨entries, visited, small⟩ := Option.bind_eq_some_iff.mp rest
  split_ifs at small with sizes
  refine ⟨dataset, entries, ?_, ?_, sizes⟩
  · cases result : parseSmall smallDirectory quietExecution with
    | error error => simp [result, Except.toOption] at parsed
    | ok other => exact congrArg Except.ok (by simpa [result, Except.toOption] using parsed)
  · cases result : dataset.visitEntries with
    | error error => simp [result, Except.toOption] at visited
    | ok other => exact congrArg Except.ok (by simpa [result, Except.toOption] using visited)

theorem smallStart_running : ∃ machine, Machine.start parseSmall (fun _ => none) listedConfig smallStart =
    .running machine := by
  obtain ⟨dataset, entries, parsed, visited, filled, _⟩ := parseSmall_small
  have prepared : tryPrepareRules dataset.toFireholDataSet = .ok (prepareEntries entries) := by
    rw [tryPrepareRules, visited]
  have prepares : Prepares parseSmall smallStart.sync true ⟨.new, some .new, ⟨0, 0, 0⟩⟩ (.cloned "e69de29".toList 1)
      dataset (prepareEntries entries).1 (prepareEntries entries).2 :=
    ⟨rfl, rfl, parsed, filled, prepared, by simp [smallStart]⟩
  have initialized : ∃ machine, Machine.initializeFirehol parseSmall listedConfig smallStart
      { Machine.new listedConfig with sync := ⟨.new, some .new, ⟨0, 0, 0⟩⟩ } = .ok machine := by
    have ran : ∃ outcome after, executeFireholSync parseSmall smallStart.sync true false
        ⟨.new, some .new, ⟨0, 0, 0⟩⟩ = (.ok outcome, after) := by
      rw [executeFireholSync_free parseSmall (Or.inl rfl), sync_loaded prepares, outcomeOf]
      split_ifs <;> exact ⟨_, _, rfl⟩
    obtain ⟨outcome, after, ran⟩ := ran
    simp only [Machine.initializeFirehol, ran]
    exact ⟨_, rfl⟩
  obtain ⟨machine, done⟩ := initialized
  exact ⟨_, @start_running _ _ parseSmall (fun _ => none) listedConfig smallStart machine rfl rfl rfl done .driver rfl⟩

end Starting

end ReputationFirewall
