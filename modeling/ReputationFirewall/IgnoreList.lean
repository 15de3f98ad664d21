import ReputationFirewall.DaemonRuns

set_option autoImplicit false

namespace ReputationFirewall

open BigEndian Firehol KeyedStore Maps NetAddr Rules Runs Text Xdp

section Ignoring

def Firehol.parseIgnoreIps (raw : List Char) : List IpAddr :=
  (((raw.splitOn ',').map trim).filter (· ≠ [])).filterMap IpAddr.fromStr

-- The environment variable counts if the option is empty.
def ignoreIps (option : List Char) (environment : Option (List Char)) : List IpAddr :=
  if option ≠ [] then parseIgnoreIps option else (environment.map parseIgnoreIps).getD []

def ignoreText (option : List Char) (environment : Option (List Char)) : List Char :=
  if option ≠ [] then option else environment.getD []

def WritesAddress (text : List Char) (ip : IpAddr) : Prop := ∃ part ∈ text.splitOn ',', IpAddr.fromStr (trim part) = some ip

theorem mem_parseIgnoreIps (raw : List Char) (ip : IpAddr) : ip ∈ parseIgnoreIps raw ↔ WritesAddress raw ip := by
  have blank : IpAddr.fromStr [] = none := by decide
  simp only [parseIgnoreIps, WritesAddress, List.mem_filterMap, List.mem_filter, List.mem_map]
  constructor
  · rintro ⟨_, ⟨⟨part, member, rfl⟩, _⟩, read⟩
    exact ⟨part, member, read⟩
  · rintro ⟨part, member, read⟩
    refine ⟨trim part, ⟨⟨part, member, rfl⟩, decide_eq_true fun empty => ?_⟩, read⟩
    rw [empty, blank] at read
    cases read

theorem mem_ignoreIps (option : List Char) (environment : Option (List Char)) (ip : IpAddr) :
    ip ∈ ignoreIps option environment ↔ WritesAddress (ignoreText option environment) ip := by
  have empty : parseIgnoreIps [] = [] := by decide
  have same : ignoreIps option environment = parseIgnoreIps (ignoreText option environment) := by
    unfold ignoreIps ignoreText
    split_ifs
    · rfl
    · cases environment <;> simp [empty]
  rw [same, mem_parseIgnoreIps]

end Ignoring

section Calls

variable (context : ImportContext) (ipNetFromStr : List Char → Option IpNet)

structure Enforces (syncs : List (SyncEnvironment Directory Execution)) (files : List RuleFile) (machine : Machine)
    (checkout : Option Directory) (attempts : List (Call × Outcomes)) : Prop where
  managed : machine.sync.manager = some (run History.step .start attempts).manager
  wellFormed : ∀ attempt ∈ attempts, WellFormed attempt.1.rules
  feeds : ∀ ip, RulesCover (run History.step .start attempts).latestFirehol ip →
    ∃ directory ∈ checkout, ∃ file position, directory.ListsAt context ip file position
  ruleFiles : ∀ ip, RulesCover (run History.step .start attempts).latestStatic ip → FilesCover ipNetFromStr files ip
  checkouts : LoadedFrom syncs machine.sync checkout

variable {context ipNetFromStr} {parse : Directory → Execution → Except (List Char) ImportedDataSet}
  {syncs : List (SyncEnvironment Directory Execution)} {files : List RuleFile} {machine : Machine}
  {checkout : Option Directory} {attempts : List (Call × Outcomes)}

theorem Parses.rules_listed (parses : Parses context parse) {directory : Directory} (numberable : directory.Numberable)
    {execution : Execution} {dataset : ImportedDataSet} (parsed : parse directory execution = .ok dataset)
    {rules : ParsedRuleSet} {draft : FireholSyncReport}
    (prepared : tryPrepareRules dataset.toFireholDataSet = .ok (rules, draft)) :
    WellFormed rules ∧ ∀ ip, RulesCover rules ip → ∃ file position, directory.ListsAt context ip file position := by
  obtain ⟨setup, done⟩ := parses _ _ _ parsed
  obtain ⟨entries, visited, listed⟩ := imported_entries_listed numberable done
  obtain ⟨others, visitedToo, rfl, _⟩ := tryPrepareRules_ok prepared
  obtain rfl := Except.ok.inj (visited.symm.trans visitedToo)
  refine ⟨prepareEntries_wellFormed fun entry member => (listed entry member).1, fun ip covered => ?_⟩
  obtain ⟨entry, member, _, covers⟩ := (prepareEntries_covers entries ip).mp covered
  exact (listed entry member).2 ip covers

theorem wellFormed_concat (wellFormed : ∀ attempt ∈ attempts, WellFormed attempt.1.rules) {call : Call}
    (own : WellFormed call.rules) (ok : Outcomes) :
    ∀ attempt ∈ attempts ++ [(call, ok)], WellFormed attempt.1.rules := by
  intro attempt member
  rcases List.mem_append.mp member with earlier | last
  · exact wellFormed attempt earlier
  · rw [List.mem_singleton.mp last]
    exact own

section Facts

variable (enforces : Enforces context ipNetFromStr syncs files machine checkout attempts)

include enforces

theorem Enforces.keep (next : Machine) (sameMaps : next.sync.manager = machine.sync.manager)
    (sameList : next.sync.blocklist = machine.sync.blocklist) (more : List (SyncEnvironment Directory Execution)) :
    Enforces context ipNetFromStr (syncs ++ more) files next checkout attempts where
  managed := sameMaps.trans enforces.managed
  wellFormed := enforces.wellFormed
  feeds := enforces.feeds
  ruleFiles := enforces.ruleFiles
  checkouts := enforces.checkouts.mono sameList more

theorem Enforces.same (next : Machine) (sameMaps : next.sync.manager = machine.sync.manager)
    (sameList : next.sync.blocklist = machine.sync.blocklist) :
    Enforces context ipNetFromStr syncs files next checkout attempts := by
  have kept := enforces.keep next sameMaps sameList []
  rwa [List.append_nil] at kept

theorem Enforces.load (next : Machine) (parses : Parses context parse) {sync : SyncEnvironment Directory Execution}
    (numberable : sync.checkout.Numberable) {isStartup : Bool} {status : SyncStatus} {dataset : ImportedDataSet}
    {rules : ParsedRuleSet} {draft : FireholSyncReport}
    (prepares : Prepares parse sync isStartup machine.sync status dataset rules draft)
    (loaded : next.sync =
      (machine.sync.startImport.loadIntoMaps sync.hashing sync.ok rules draft).2.publish dataset.clearEntries status) :
    Enforces context ipNetFromStr (syncs ++ [sync]) files next (some sync.checkout)
      (attempts ++ [(⟨.firehol, rules, sync.hashing⟩, sync.ok)]) := by
  obtain ⟨wellFormed, listed⟩ := parses.rules_listed numberable prepares.parsed prepares.prepared
  refine ⟨?_, wellFormed_concat enforces.wellFormed wellFormed _, fun ip covered => ?_, fun ip covered => ?_, ?_⟩
  · rw [run_concat, step_manager]
    simp [loaded, SyncState.publish, SyncState.loadIntoMaps, SyncState.startImport, enforces.managed, Call.apply]
  · rw [run_concat] at covered
    exact ⟨sync.checkout, rfl, listed ip covered⟩
  · rw [run_concat] at covered
    exact enforces.ruleFiles ip covered
  · exact ⟨sync, by simp, rfl, status, prepares.synchronized, by rw [loaded]; rfl⟩

theorem Enforces.read (next : Machine) (hashing : Hashing) (ok : Outcomes) {read : List RuleFile}
    {rules : ParsedRuleSet} {staticMeta : Store (BitVec 32) StaticRuleInfo}
    (loaded : loadFromPathsWithMeta ipNetFromStr read = .ok (rules, staticMeta))
    (installed : next.sync.manager = machine.sync.manager.map fun manager => (syncRules hashing ok manager rules).1)
    (sameList : next.sync.blocklist = machine.sync.blocklist) :
    Enforces context ipNetFromStr syncs read next checkout (attempts ++ [(⟨.static, rules, hashing⟩, ok)]) := by
  refine ⟨?_, wellFormed_concat enforces.wellFormed (load_wellFormed loaded) _, fun ip covered => ?_,
    fun ip covered => ?_, ?_⟩
  · rw [run_concat, step_manager, installed, enforces.managed]
    rfl
  · rw [run_concat] at covered
    exact enforces.feeds ip covered
  · rw [run_concat] at covered
    exact (load_covers loaded ip).mp covered
  · rw [← List.append_nil syncs]
    exact enforces.checkouts.mono sameList []

theorem Enforces.update (parses : Parses context parse) {update : Update}
    (numberable : ∀ sync ∈ update.env?, sync.checkout.Numberable) :
    ∃ current calls, Enforces context ipNetFromStr (syncs ++ update.env?.toList) (latestFiles ipNetFromStr files update)
      (machine.update parse ipNetFromStr update) current calls := by
  cases update with
  | sync env locked =>
      obtain ⟨_, kept | ⟨status, dataset, rules, draft, prepares, loaded⟩⟩ :=
        update_sync_cases parse ipNetFromStr machine env locked
      · exact ⟨checkout, attempts, enforces.keep _ kept.1 kept.2 _⟩
      · exact ⟨_, _, enforces.load _ parses (numberable env rfl) prepares loaded⟩
  | reload hashing ok read =>
      have unsynced : syncs ++ (Update.reload hashing ok read).env?.toList = syncs := List.append_nil syncs
      rw [unsynced]
      cases loaded : loadFromPathsWithMeta ipNetFromStr read with
      | error error =>
          simp only [latestFiles, readFiles, Machine.update, loaded]
          exact ⟨checkout, attempts, enforces.same _ rfl rfl⟩
      | ok result =>
          simp only [latestFiles, readFiles, Machine.update, loaded]
          exact ⟨checkout, _, enforces.read _ hashing ok loaded rfl rfl⟩

end Facts

theorem enforces_run (parses : Parses context parse)
    (enforces : Enforces context ipNetFromStr syncs files machine checkout attempts) (updates : List Update)
    (numberable : ∀ sync ∈ updates.filterMap Update.env?, sync.checkout.Numberable) :
    ∃ current calls, Enforces context ipNetFromStr (syncs ++ updates.filterMap Update.env?)
      (run (latestFiles ipNetFromStr) files updates) (run (Machine.update parse ipNetFromStr) machine updates)
      current calls := by
  induction updates using List.reverseRecOn with
  | nil => exact ⟨checkout, attempts, by simpa using enforces⟩
  | append_singleton updates update ih =>
      rw [filterMap_concat] at numberable ⊢
      obtain ⟨current, calls, before⟩ := ih fun sync member => numberable sync (List.mem_append_left _ member)
      rw [run_concat, run_concat, ← List.append_assoc]
      exact before.update parses fun sync given => numberable sync (List.mem_append_right _ (Option.mem_toList.mpr given))

end Calls

section Starting

variable {context : ImportContext} {parse : Directory → Execution → Except (List Char) ImportedDataSet}
  {ipNetFromStr : List Char → Option IpNet} {config : Config} {env : StartEnvironment Directory Execution}
  {machine : Machine}

theorem Enforces.loadStatic {syncs : List (SyncEnvironment Directory Execution)} {checkout : Option Directory}
    {attempts : List (Call × Outcomes)}
    (enforces : Enforces context ipNetFromStr syncs [] machine checkout attempts) :
    ∃ calls, Enforces context ipNetFromStr syncs (readFiles ipNetFromStr [] config.rules)
      (machine.loadStatic ipNetFromStr config env) checkout calls := by
  unfold Machine.loadStatic
  split_ifs with absent
  · rw [absent]
    exact ⟨attempts, enforces⟩
  · unfold readFiles
    cases loaded : loadFromPathsWithMeta ipNetFromStr config.rules with
    | error error => exact ⟨attempts, enforces.same _ rfl rfl⟩
    | ok result => exact ⟨_, enforces.read _ env.hashing env.ok loaded rfl rfl⟩

theorem start_enforces (parses : Parses context parse) (numberable : env.sync.checkout.Numberable)
    (started : Machine.start parse ipNetFromStr config env = .running machine) :
    ∃ checkout attempts, Enforces context ipNetFromStr [env.sync] (readFiles ipNetFromStr [] config.rules) machine
      checkout attempts := by
  obtain ⟨initialized, mode, done, rfl⟩ := start_inverted started
  have new : Enforces context ipNetFromStr [] []
      { Machine.new config with sync := ⟨.new, some .new, ⟨0, 0, 0⟩⟩ } none [] :=
    ⟨rfl, by simp, fun ip covered => absurd covered (new_covers ip), fun ip covered => absurd covered (new_covers ip), rfl⟩
  have fed : ∃ checkout attempts, Enforces context ipNetFromStr [env.sync] [] initialized checkout attempts := by
    rcases initializeFirehol_ok done with ⟨_, rfl⟩ | ⟨_, status, dataset, rules, draft, prepares, rfl⟩
    · exact ⟨none, [], new.keep _ rfl rfl [env.sync]⟩
    · exact ⟨_, _, new.load _ parses numberable prepares rfl⟩
  obtain ⟨checkout, attempts, enforces⟩ := fed
  obtain ⟨calls, filled⟩ := enforces.loadStatic
  exact ⟨checkout, calls, filled.same _ rfl rfl⟩

theorem ignored_addresses_spared (parses : Parses context parse)
    (started : Machine.start parse ipNetFromStr config env = .running machine) (updates : List Update)
    (numberable : ∀ sync ∈ env.sync :: updates.filterMap Update.env?, sync.checkout.Numberable)
    {option : List Char} {environment : Option (List Char)}
    (configured : context.ignoreIps = ignoreIps option environment) :
    let after := run (Machine.update parse ipNetFromStr) machine updates
    ∃ manager checkout, after.sync.manager = some manager ∧
      LoadedFrom (env.sync :: updates.filterMap Update.env?) after.sync checkout ∧
        ∀ ctx telemetry, (firewall ctx manager telemetry).1 = .drop →
          FromSource (fun ip =>
            FilesCover ipNetFromStr (run (latestFiles ipNetFromStr) (readFiles ipNetFromStr [] config.rules) updates) ip ∨
            (∃ directory ∈ checkout, ∃ file position, directory.ListsAt context ip file position) ∧
              ¬ WritesAddress (ignoreText option environment) ip) ctx.data := by
  intro after
  obtain ⟨_, _, begun⟩ := start_enforces parses (numberable env.sync (by simp)) started
  obtain ⟨checkout, attempts, enforces⟩ :=
    enforces_run parses begun updates fun sync member => numberable sync (List.mem_cons_of_mem _ member)
  refine ⟨_, checkout, enforces.managed, enforces.checkouts, fun ctx telemetry dropped => ?_⟩
  refine (run_drop_current enforces.wellFormed dropped).mono fun ip covered => ?_
  rcases covered with ruled | fed
  · exact Or.inl (enforces.ruleFiles ip ruled)
  · obtain ⟨directory, given, file, position, lists⟩ := enforces.feeds ip fed
    refine Or.inr ⟨⟨directory, given, file, position, lists⟩, fun written => lists.kept ?_⟩
    rw [configured]
    exact (mem_ignoreIps option environment ip).mpr written

theorem smallStart_ignores : ∃ machine manager,
    Machine.start parseSmall (fun _ => none) listedConfig smallStart = .running machine ∧
      (run (Machine.update parseSmall fun _ => none) machine
        [.sync smallStart.sync false, .reload .arbitrary (fun _ _ => false) []]).sync.manager = some manager ∧
        ∀ ctx telemetry, (firewall ctx manager telemetry).1 = .drop →
          FromSource (fun ip => ip ≠ .v4 (ipv4Octets 10 0 0 2)) ctx.data := by
  obtain ⟨machine, started⟩ := smallStart_running
  have configured : ignoringContext.ignoreIps = ignoreIps " 10.0.0.2, ".toList none := by decide +kernel
  obtain ⟨manager, checkout, managed, _, spared⟩ := ignored_addresses_spared parseSmall_parses started
    [.sync smallStart.sync false, .reload .arbitrary (fun _ _ => false) []]
    (by simpa [Update.env?, smallStart] using smallDirectory_numberable) configured
  refine ⟨machine, manager, started, managed, fun ctx telemetry dropped => ?_⟩
  refine (spared ctx telemetry dropped).mono fun ip covered same => ?_
  rcases covered with ⟨file, listed, _⟩ | ⟨_, unwritten⟩
  · exact absurd listed List.not_mem_nil
  · exact unwritten ((mem_ignoreIps _ none ip).mp (by rw [same]; decide +kernel))

end Starting

end ReputationFirewall
