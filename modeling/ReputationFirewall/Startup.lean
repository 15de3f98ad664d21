import ReputationFirewall.Enforcement
import ReputationFirewall.Firehol.Scheduler
import ReputationFirewall.Shared.CounterVec
import ReputationFirewall.Xdp.Counters

set_option autoImplicit false

namespace ReputationFirewall

open BigEndian CounterVec Firehol KeyedStore NetAddr Maps Rules Runs Xdp

section Model

inductive XdpModeChoice where
  | auto
  | driver
  | generic
  | hardware
  deriving DecidableEq

inductive XdpMode where
  | driver
  | skb
  | hardware
  deriving DecidableEq

-- Only the automatic choice has a second attempt.
def attach (attaches : XdpMode → Bool) : XdpModeChoice → Option XdpMode
  | .driver => if attaches .driver then some .driver else none
  | .generic => if attaches .skb then some .skb else none
  | .hardware => if attaches .hardware then some .hardware else none
  | .auto => if attaches .driver then some .driver else if attaches .skb then some .skb else none

structure Config where
  mode : XdpModeChoice
  firehol : Bool
  noFirehol : Bool
  noCron : Bool
  noMetrics : Bool
  rules : List RuleFile

def Config.isFireholEnabled (config : Config) : Bool := config.firehol && !config.noFirehol

structure StartEnvironment (Checkout Execution : Type) where
  ebpfLoads : Bool
  ringbufOpens : Bool
  mapsOpen : Bool
  sync : SyncEnvironment Checkout Execution
  hashing : Hashing
  ok : Outcomes
  attaches : XdpMode → Bool

structure Machine where
  errors : Option (Counters (List Char) 64)
  sync : SyncState
  static : Store (BitVec 32) StaticRuleInfo
  attached : Option XdpMode

inductive Start where
  | exited (machine : Machine)
  | running (machine : Machine)

namespace Machine

def new (config : Config) : Machine where
  errors := if config.noMetrics then none
    else some (withLabelValues (withLabelValues ∅ "sync".toList) "ringbuf_poll".toList)
  sync := ⟨.new, none, ⟨0, 0, 0⟩⟩
  static := ∅
  attached := none

def recordError (machine : Machine) (errorType : String) : Machine :=
  { machine with errors := machine.errors.map fun errors => incBy errors errorType.toList 1 }

def abort (machine : Machine) (errorType : String) : Start := .exited (machine.recordError errorType)

variable {Checkout Execution : Type} (parse : Checkout → Execution → Except (List Char) ImportedDataSet)
  (ipNetFromStr : List Char → Option IpNet)

-- No other synchronization can hold the lock yet. A failure counts for the synchronization and for the start.
def initializeFirehol (config : Config) (env : StartEnvironment Checkout Execution) (machine : Machine) :
    Except Machine Machine :=
  if config.isFireholEnabled then
    match executeFireholSync parse env.sync true false machine.sync with
    | (.ok _, sync) => .ok { machine with sync }
    | (.error _, sync) => .error ({ machine with sync }.recordError "firehol_sync_failed")
  else .ok machine

def loadStatic (config : Config) (env : StartEnvironment Checkout Execution) (machine : Machine) : Machine :=
  if config.rules = [] then machine
  else
    match loadFromPathsWithMeta ipNetFromStr config.rules with
    | .error _ => machine.recordError "rule_load"
    | .ok (rules, static) =>
        { machine with
          static
          sync := { machine.sync with
            manager := machine.sync.manager.map fun manager => (syncRules env.hashing env.ok manager rules).1 } }

def start (config : Config) (env : StartEnvironment Checkout Execution) : Start :=
  let machine := new config
  if !env.ebpfLoads then machine.abort "ebpf_load"
  else if !env.ringbufOpens then machine.abort "ringbuf_init"
  else if !env.mapsOpen then machine.abort "map_manager_init"
  else
    let machine := { machine with sync := { machine.sync with manager := some .new } }
    match machine.initializeFirehol parse config env with
    | .error machine => machine.abort "firehol_startup_failed"
    | .ok machine =>
        let machine := machine.loadStatic ipNetFromStr config env
        match attach env.attaches config.mode with
        | none => machine.abort "xdp_attach"
        | some mode => .running { machine with attached := some mode }

end Machine

end Model

section Filling

structure Filled (manager : MapManager) (feed static : ParsedRuleSet) : Prop where
  enforceable : Enforceable manager
  keys : ∀ kind key, key ∈ (manager.slot kind).map ↔ key ∈ feed.keys kind ∨ key ∈ static.keys kind
  owned : ∀ kind key, key ∈ (manager.slot kind).firehol ↔ key ∈ feed.keys kind

theorem filled_new : Filled .new .new .new := by
  refine ⟨enforceable_new, fun kind key => ?_, fun kind key => ?_⟩
  · exact iff_of_false (start_map kind key) (by simp [new_keys])
  · exact iff_of_false (start_owned kind key) (new_keys kind key)

theorem filled_firehol {feed : ParsedRuleSet} (wellFormed : WellFormed feed) (hashing : Hashing) :
    Filled (syncFireholRules hashing allSucceed .new feed).1 feed .new := by
  refine ⟨@Enforceable.apply _ enforceable_new ⟨.firehol, feed, hashing⟩ wellFormed allSucceed, fun kind key => ?_,
    fun kind key => ?_⟩
  · rw [mem_syncFireholRules, installs_allSucceed]
    refine or_congr_right (iff_of_false (fun kept => start_map kind key kept.1) (new_keys kind key))
  · rw [syncFireholRules_firehol, installs_allSucceed]

theorem Filled.static {manager : MapManager} {feed static : ParsedRuleSet} (filled : Filled manager feed .new)
    (wellFormed : WellFormed static) (hashing : Hashing) :
    Filled (syncRules hashing allSucceed manager static).1 feed static := by
  refine ⟨@Enforceable.apply _ filled.enforceable ⟨.static, static, hashing⟩ wellFormed allSucceed, fun kind key => ?_,
    fun kind key => ?_⟩
  · have fed : key ∈ (manager.slot kind).map ∧ key ∈ (manager.slot kind).firehol ↔ key ∈ feed.keys kind := by
      rw [filled.keys, filled.owned]
      exact ⟨fun both => both.2, fun listed => ⟨Or.inl listed, listed⟩⟩
    rw [mem_syncRules, installs_allSucceed, fed, or_comm]
  · rw [syncRules_firehol]
    exact filled.owned kind key

theorem Filled.covers {manager : MapManager} {feed static : ParsedRuleSet} (filled : Filled manager feed static)
    (ip : IpAddr) : MapsCover manager ip ↔ RulesCover feed ip ∨ RulesCover static ip := by
  simp only [MapsCover, rulesCover_iff, filled.keys, or_and_right, exists_or]

end Filling

section Runs

variable {Checkout Execution : Type} (parse : Checkout → Execution → Except (List Char) ImportedDataSet)
  (ipNetFromStr : List Char → Option IpNet) (config : Config) (env : StartEnvironment Checkout Execution)

def FeedsCover (ip : IpAddr) : Prop :=
  config.isFireholEnabled = true ∧ ∃ dataset entries, parse env.sync.checkout env.sync.execution = .ok dataset ∧
    dataset.visitEntries = .ok entries ∧
      ∃ entry ∈ entries, entry.target.isInfrastructure = false ∧ entry.target.Covers ip

-- An address of the rule files; if one of them does not load, none counts.
def StaticCover (ip : IpAddr) : Prop :=
  (∃ loaded, loadFromPathsWithMeta ipNetFromStr config.rules = .ok loaded) ∧ FilesCover ipNetFromStr config.rules ip

structure InRange : Prop where
  feeds : ∀ dataset entries, parse env.sync.checkout env.sync.execution = .ok dataset →
    dataset.visitEntries = .ok entries → ∀ entry ∈ entries, entry.target.PrefixInRange

def FeedsLoaded (machine : Machine) : Prop :=
  ∃ status dataset, env.sync.git = .ok status ∧ parse env.sync.checkout env.sync.execution = .ok dataset ∧
    dataset.isEmpty = false ∧ machine.sync.blocklist.activeRegistry = dataset.clearEntries ∧
      machine.sync.blocklist.lastLoadedCommit = some status.commitOid

def Machine.FilledBy (machine : Machine) (feed static : ParsedRuleSet) : Prop :=
  ∃ manager, machine.sync.manager = some manager ∧ Filled manager feed static

variable {parse ipNetFromStr config env} {machine next : Machine}

theorem startup_loads {sync : SyncEnvironment Checkout Execution} {state : SyncState} {outcome : FireholSyncOutcome}
    (done : (executeFireholSync parse sync true false state).1 = .ok outcome) :
    ∃ status dataset rules draft, Prepares parse sync true state status dataset rules draft ∧
      (executeFireholSync parse sync true false state).2 =
        (state.startImport.loadIntoMaps sync.hashing sync.ok rules draft).2.publish dataset.clearEntries status := by
  rw [executeFireholSync_free parse (Or.inl rfl)] at done ⊢
  rw [outcomeOf_state]
  have case := sync_cases parse sync true state
  generalize synchronizeAndLoadInternal parse sync true state = result at case done ⊢
  cases case with
  | unreachable reason failed => simp [outcomeOf] at done
  | failed error status synchronized changed => simp [outcomeOf] at done
  | skipped status synchronized unchanged =>
      cases status <;> simp [SyncState.skips] at unchanged
  | loaded status dataset rules draft prepares => exact ⟨status, dataset, rules, draft, prepares, rfl⟩

theorem initializeFirehol_ok (done : machine.initializeFirehol parse config env = .ok next) :
    (config.isFireholEnabled = false ∧ next = machine) ∨
      (config.isFireholEnabled = true ∧ ∃ status dataset rules draft,
        Prepares parse env.sync true machine.sync status dataset rules draft ∧
          next = { machine with
            sync := SyncState.publish (machine.sync.startImport.loadIntoMaps env.sync.hashing env.sync.ok rules draft).2
              dataset.clearEntries status }) := by
  unfold Machine.initializeFirehol at done
  split_ifs at done with enabled
  · rcases ran : executeFireholSync parse env.sync true false machine.sync with ⟨_ | outcome, after⟩
    · simp [ran] at done
    · obtain ⟨status, dataset, rules, draft, prepares, loaded⟩ := startup_loads (congrArg Prod.fst ran)
      simp only [ran, Except.ok.injEq] at done loaded
      exact Or.inr ⟨enabled, status, dataset, rules, draft, prepares, loaded ▸ done.symm⟩
  · exact Or.inl ⟨Bool.eq_false_of_not_eq_true enabled, (Except.ok.inj done).symm⟩

theorem initializeFirehol_filled (range : InRange parse env) (inserted : env.sync.ok = allSucceed)
    (managed : machine.sync.manager = some .new) (done : machine.initializeFirehol parse config env = .ok next) :
    ∃ feed, next.FilledBy feed .new ∧ ∀ ip, RulesCover feed ip ↔ FeedsCover parse config env ip := by
  rcases initializeFirehol_ok done with ⟨disabled, rfl⟩ | ⟨enabled, status, dataset, rules, draft, prepares, rfl⟩
  · refine ⟨.new, ⟨.new, managed, filled_new⟩, fun ip => iff_of_false (new_covers ip) ?_⟩
    simp [FeedsCover, disabled]
  · obtain ⟨entries, visited, rfl, _⟩ := tryPrepareRules_ok prepares.prepared
    have wellFormed := prepareEntries_wellFormed (range.feeds dataset entries prepares.parsed visited)
    refine ⟨(prepareEntries entries).1, ⟨_, ?_, filled_firehol wellFormed env.sync.hashing⟩, fun ip => ?_⟩
    · simp [SyncState.publish, SyncState.loadIntoMaps, SyncState.startImport, managed, inserted]
    · rw [prepareEntries_covers, FeedsCover]
      constructor
      · intro listed
        exact ⟨enabled, dataset, entries, prepares.parsed, visited, listed⟩
      · rintro ⟨_, other, others, parsed, visitedToo, listed⟩
        rw [prepares.parsed] at parsed
        obtain rfl := Except.ok.inj parsed
        rw [visited] at visitedToo
        obtain rfl := Except.ok.inj visitedToo
        exact listed

theorem initializeFirehol_loaded (enabled : config.isFireholEnabled = true)
    (done : machine.initializeFirehol parse config env = .ok next) : FeedsLoaded parse env next := by
  rcases initializeFirehol_ok done with ⟨disabled, _⟩ | ⟨_, status, dataset, rules, draft, prepares, rfl⟩
  · simp [disabled] at enabled
  · exact ⟨status, dataset, prepares.synchronized, prepares.parsed, prepares.nonempty, rfl, rfl⟩

theorem loadStatic_filled {feed : ParsedRuleSet} (inserted : env.ok = allSucceed) (filled : machine.FilledBy feed .new) :
    ∃ static, (machine.loadStatic ipNetFromStr config env).FilledBy feed static ∧
      ∀ ip, RulesCover static ip ↔ StaticCover ipNetFromStr config ip := by
  unfold Machine.loadStatic
  split_ifs with absent
  · refine ⟨.new, filled, fun ip => iff_of_false (new_covers ip) ?_⟩
    simp [StaticCover, FilesCover, absent]
  · cases loaded : loadFromPathsWithMeta ipNetFromStr config.rules with
    | error error =>
        refine ⟨.new, filled, fun ip => iff_of_false (new_covers ip) ?_⟩
        simp [StaticCover, loaded]
    | ok result =>
        obtain ⟨rules, info⟩ := result
        obtain ⟨manager, managed, holds⟩ := filled
        refine ⟨rules, ⟨_, ?_, holds.static (load_wellFormed loaded) env.hashing⟩, fun ip => ?_⟩
        · simp [managed, inserted]
        · rw [load_covers loaded, StaticCover, loaded]
          simp

theorem loadStatic_blocklist (machine : Machine) :
    (machine.loadStatic ipNetFromStr config env).sync.blocklist = machine.sync.blocklist := by
  unfold Machine.loadStatic
  split_ifs
  · rfl
  · cases loadFromPathsWithMeta ipNetFromStr config.rules <;> rfl

theorem loadStatic_attached (machine : Machine) :
    (machine.loadStatic ipNetFromStr config env).attached = machine.attached := by
  unfold Machine.loadStatic
  split_ifs
  · rfl
  · cases loadFromPathsWithMeta ipNetFromStr config.rules <;> rfl

theorem initializeFirehol_attached (done : machine.initializeFirehol parse config env = .ok next ∨
    machine.initializeFirehol parse config env = .error next) : next.attached = machine.attached := by
  unfold Machine.initializeFirehol at done
  split_ifs at done
  · rcases ran : executeFireholSync parse env.sync true false machine.sync with ⟨_ | _, after⟩
    · simp only [ran, reduceCtorEq, Except.error.injEq, false_or] at done
      exact done ▸ rfl
    · simp only [ran, reduceCtorEq, Except.ok.injEq, or_false] at done
      exact done ▸ rfl
  · simp only [Except.ok.injEq, or_false] at done
    exact done ▸ rfl

theorem start_enforces_all_rules (range : InRange parse env) (insertedFeeds : env.sync.ok = allSucceed)
    (insertedStatic : env.ok = allSucceed) :
    match Machine.start parse ipNetFromStr config env with
    | .exited machine => machine.attached = none
    | .running machine =>
        machine.attached.isSome ∧ (config.isFireholEnabled = true → FeedsLoaded parse env machine) ∧
          ∃ manager, machine.sync.manager = some manager ∧
            ∀ ctx telemetry, (firewall ctx manager telemetry).1 = .drop ↔
              FromSource (fun ip => FeedsCover parse config env ip ∨ StaticCover ipNetFromStr config ip) ctx.data := by
  unfold Machine.start
  dsimp only
  split_ifs
  · rfl
  · rfl
  · rfl
  · cases done : Machine.initializeFirehol parse config env _ with
    | error failed => exact initializeFirehol_attached (Or.inr done)
    | ok machine =>
        cases attached : attach env.attaches config.mode with
        | none =>
            have unattached := initializeFirehol_attached (Or.inl done)
            exact (loadStatic_attached machine).trans unattached
        | some mode =>
            refine ⟨rfl, fun enabled => ?_, ?_⟩
            · have loaded := initializeFirehol_loaded enabled done
              unfold FeedsLoaded at loaded ⊢
              rwa [loadStatic_blocklist]
            · obtain ⟨feed, filled, feeds⟩ := initializeFirehol_filled range insertedFeeds rfl done
              obtain ⟨static, ⟨manager, managed, holds⟩, files⟩ := loadStatic_filled insertedStatic filled
              refine ⟨manager, managed, fun ctx telemetry => ?_⟩
              have covers : MapsCover manager =
                  fun ip => FeedsCover parse config env ip ∨ StaticCover ipNetFromStr config ip := by
                funext ip
                rw [holds.covers, feeds, files]
              rw [holds.enforceable.drop_iff, covers]

theorem start_running (loads : env.ebpfLoads = true) (ringbuf : env.ringbufOpens = true) (maps : env.mapsOpen = true)
    (done : Machine.initializeFirehol parse config env
      { Machine.new config with sync := ⟨.new, some .new, ⟨0, 0, 0⟩⟩ } = .ok machine)
    {mode : XdpMode} (attached : attach env.attaches config.mode = some mode) :
    Machine.start parse ipNetFromStr config env =
      .running { machine.loadStatic ipNetFromStr config env with attached := some mode } := by
  have opened : Machine.initializeFirehol parse config env { Machine.new config with
      sync := { (Machine.new config).sync with manager := some .new } } = .ok machine := done
  simp [Machine.start, loads, ringbuf, maps, opened, attached]

def listedConfig : Config := ⟨.auto, true, false, false, false, []⟩

noncomputable def listedStart : StartEnvironment (Octets 4) Unit where
  ebpfLoads := true
  ringbufOpens := true
  mapsOpen := true
  sync := hostEnvironment (.cloned "e69de29".toList 1) (ipv4Octets 198 51 100 9)
  hashing := .arbitrary
  ok := allSucceed
  attaches := fun mode => mode = .skb

theorem listedStart_enforces :
    ∃ machine manager, Machine.start parseHost (fun _ => none) listedConfig listedStart = .running machine ∧
      machine.attached = some .skb ∧ machine.sync.manager = some manager ∧
        (firewall ⟨listedFrame, 0, 0, true⟩ manager .zero).1 = .drop := by
  have range : InRange parseHost listedStart := by
    refine ⟨fun dataset entries parsed visited entry member => ?_⟩
    obtain rfl := Except.ok.inj parsed
    obtain rfl := Except.ok.inj visited
    obtain rfl := List.mem_singleton.mp member
    trivial
  have synced := @sync_host _ _ parseHost listedStart.sync (.cloned "e69de29".toList 1) (ipv4Octets 198 51 100 9) true
    ⟨.new, some .new, ⟨0, 0, 0⟩⟩ .new rfl rfl rfl rfl
  have ran : ∃ outcome after, executeFireholSync parseHost listedStart.sync true false
      ⟨.new, some .new, ⟨0, 0, 0⟩⟩ = (.ok outcome, after) := by
    rw [executeFireholSync_free parseHost (Or.inl rfl), synced, outcomeOf]
    split_ifs <;> exact ⟨_, _, rfl⟩
  obtain ⟨outcome, after, ran⟩ := ran
  have initialized : Machine.initializeFirehol parseHost listedConfig listedStart
      { Machine.new listedConfig with sync := ⟨.new, some .new, ⟨0, 0, 0⟩⟩ } =
        .ok { Machine.new listedConfig with sync := after } := by
    simp only [Machine.initializeFirehol, ran]
    rfl
  have started := @start_running _ _ parseHost (fun _ => none) listedConfig listedStart _ rfl rfl rfl initialized .skb rfl
  have enforces := @start_enforces_all_rules _ _ parseHost (fun _ => none) listedConfig listedStart range rfl rfl
  rw [started] at enforces
  obtain ⟨_, _, manager, managed, exact⟩ := enforces
  refine ⟨_, manager, started, rfl, managed, (exact _ _).mpr ⟨0, Nat.zero_le _, Or.inl ⟨?_, ?_, Or.inl ?_⟩⟩⟩
  · exact ⟨⟨by simp, by decide⟩, by decide, by decide, by decide⟩
  · simp only [Bypassed]
    decide
  · refine ⟨rfl, _, _, rfl, rfl, _, List.mem_singleton_self _, by decide, ?_⟩
    change (ipv4HeaderAt listedFrame (l3Offset 0)).srcAddr = ipv4Octets 198 51 100 9
    decide

end Runs

end ReputationFirewall
