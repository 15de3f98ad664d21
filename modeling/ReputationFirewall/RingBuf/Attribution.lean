import ReputationFirewall.Firehol.SyncManager
import ReputationFirewall.Maps.Operations
import ReputationFirewall.RingBuf.Consumer
import ReputationFirewall.Xdp.Counters

set_option autoImplicit false

namespace ReputationFirewall.RingBuf

open BigEndian Collect Firehol KeyedStore Maps NetAddr Rules Runs Text Xdp

section Sources

structure LoadedFeed where
  sizeInBytes : List Put → Nat
  storage : Storage
  orders : IndexOrders
  metadata : List FireholMetadata
  nextMetadataId : BitVec 32
  batches : List (List FireholEntry)
  imported : ImportedDataSet
  rules : ParsedRuleSet
  report : FireholSyncReport
  nonempty : ∀ batch ∈ batches, batch ≠ []
  range : ∀ entry ∈ batches.flatten, entry.target.PrefixInRange
  canonical : ∀ entry ∈ batches.flatten, entry.target.Canonical
  registered : ∀ entry ∈ batches.flatten, Registered metadata nextMetadataId entry
  numbered : ∀ record ∈ metadata, record.id ≠ 0
  done : importBatches sizeInBytes storage orders metadata nextMetadataId batches = some (.ok imported)
  prepared : tryPrepareRules imported.toFireholDataSet = .ok (rules, report)

namespace LoadedFeed

variable (feed : LoadedFeed)

def entries : List FireholEntry := importedEntries feed.batches

def source (entry : FireholEntry) : List Char × BitVec 32 := sourceIn (metadataTable feed.metadata) entry

-- The lines behind a rule id: its own one over a database, those of its whole target in memory.
def linesOf (entry : FireholEntry) : List (List Char × BitVec 32) :=
  match feed.storage with
  | .memory => (feed.entries.filter fun other => other.target = entry.target).map feed.source
  | .database .. => [feed.source entry]

theorem resolves : Resolves feed.metadata feed.entries (ruleContext feed.storage feed.metadata feed.entries)
    feed.imported.registry :=
  imported_resolves feed.nonempty feed.range feed.registered feed.numbered feed.done

theorem mem_ruleContext (entry : FireholEntry) (source : List Char × BitVec 32) :
    source ∈ (ruleContext feed.storage feed.metadata feed.entries entry).sources ↔ source ∈ feed.linesOf entry := by
  unfold ruleContext linesOf
  cases feed.storage with
  | memory => simp [mem_targetContext_sources, LoadedFeed.source, and_assoc]
  | database archive limit spool => simp [ownContext, LoadedFeed.source]

theorem lookup_covers {ip : IpAddr} {context : RuleBlockContext}
    (found : context ∈ feed.imported.registry.lookupIp ip) :
    ∃ entry ∈ feed.entries, entry.target.Covers ip ∧
      targetContext (metadataTable feed.metadata) feed.entries entry.target = context := by
  have done := feed.done
  cases stored : feed.storage with
  | memory =>
      rw [stored] at done
      exact (mem_lookupIp_inMemory feed.nonempty feed.range feed.registered done ip context).mp found
  | database archive limit spool =>
      rw [stored] at done
      obtain ⟨entry, member, probed, same⟩ :=
        (mem_lookupIp_database feed.nonempty feed.range feed.canonical feed.registered done ip context).mp found
      exact ⟨entry, member, probed.1, same⟩

end LoadedFeed

structure StaticLoad where
  ipNetFromStr : List Char → Option IpNet
  files : List RuleFile
  rules : ParsedRuleSet
  staticMeta : Store (BitVec 32) StaticRuleInfo
  loaded : loadFromPathsWithMeta ipNetFromStr files = .ok (rules, staticMeta)

def StaticLoad.LineCoversAt (load : StaticLoad) (source : List Char × BitVec 32) (ip : IpAddr) : Prop :=
  ∃ file ∈ load.files, file.name = source.1 ∧ ∃ content index rawBytes rawLine,
    file.content = .bytes content ∧ (bufLines content)[index]? = some rawBytes ∧
      BitVec.ofNat 32 (index + 1) = source.2 ∧ decodeUtf8 rawBytes = some rawLine ∧
      LineCovers load.ipNetFromStr rawLine ip

variable (feed : Option LoadedFeed) (static : Option StaticLoad)

def RuleLine (source : List Char × BitVec 32) (ip : IpAddr) : Prop :=
  (∃ own ∈ feed, ∃ entry ∈ own.entries, entry.target.Covers ip ∧ own.source entry = source) ∨
    ∃ load ∈ static, load.LineCoversAt source ip

def NumberedBy (ruleId : BitVec 32) (source : List Char × BitVec 32) : Prop :=
  (∃ own ∈ feed, ∃ entry ∈ own.entries, entry.ruleId = ruleId ∧ source ∈ own.linesOf entry) ∨
    (∀ own ∈ feed, ∀ entry ∈ own.entries, entry.ruleId ≠ ruleId) ∧
      ∃ load ∈ static, ∃ info, load.staticMeta.lookup ruleId = some info ∧ (info.file, info.line) = source

def activeRegistry : FireholMetadataRegistry := (feed.map fun own => own.imported.registry).getD .new

def activeStatic : Store (BitVec 32) StaticRuleInfo := (static.map StaticLoad.staticMeta).getD ∅

def loggedBlock (event : PacketLogEvent) : RuleBlockContext :=
  assembleBlock (some (activeRegistry feed)) (some (activeStatic static)) event

end Sources

section Blocks

variable {feed : Option LoadedFeed} {static : Option StaticLoad}

theorem new_resolves (ruleId : BitVec 32) : FireholMetadataRegistry.new.resolveRuleBlock ruleId = none := by
  simp [FireholMetadataRegistry.resolveRuleBlock, FireholMetadataRegistry.new]

theorem new_lookup (ip : IpAddr) : FireholMetadataRegistry.new.lookupIp ip = [] := by
  cases ip <;> rfl

theorem lookupSource_subset {registry : FireholMetadataRegistry} {ipVersion : UInt8} {ip : IpAddr}
    {context : RuleBlockContext} (found : context ∈ lookupSource registry ipVersion ip) :
    context ∈ registry.lookupIp ip := by
  cases ip with
  | v4 ip =>
      simp only [lookupSource] at found
      split_ifs at found with version
      · exact found
      · simp at found
  | v6 ip =>
      simp only [lookupSource] at found
      split_ifs at found with version
      · exact found
      · simp at found

theorem matching_covers {event : PacketLogEvent} {context : RuleBlockContext}
    (found : context ∈ matchingContexts (some (activeRegistry feed)) event) :
    ∃ own ∈ feed, ∃ entry ∈ own.entries, entry.target.Covers (srcAddr event) ∧
      targetContext (metadataTable own.metadata) own.entries entry.target = context := by
  have looked := lookupSource_subset found
  cases feed with
  | none => simp [activeRegistry, new_lookup] at looked
  | some own => exact ⟨own, rfl, own.lookup_covers looked⟩

theorem winning_feed {own : LoadedFeed} {entry : FireholEntry} (member : entry ∈ own.entries) :
    winningContext (some (activeRegistry (some own))) (some (activeStatic static)) entry.ruleId =
      some (ruleContext own.storage own.metadata own.entries entry) := by
  simp [winningContext, activeRegistry, own.resolves.known entry member]

theorem winning_static {ruleId : BitVec 32} (unknown : ∀ own ∈ feed, ∀ entry ∈ own.entries, entry.ruleId ≠ ruleId) :
    winningContext (some (activeRegistry feed)) (some (activeStatic static)) ruleId =
      ((activeStatic static).lookup ruleId).map fun info => ⟨[info.file], [info.line], []⟩ := by
  have unresolved : (activeRegistry feed).resolveRuleBlock ruleId = none := by
    cases feed with
    | none => exact new_resolves ruleId
    | some own => exact own.resolves.unknown ruleId (unknown own rfl)
  simp [winningContext, unresolved]

theorem lookup_activeStatic {ruleId : BitVec 32} {info : StaticRuleInfo} :
    (activeStatic static).lookup ruleId = some info ↔
      ∃ load ∈ static, load.staticMeta.lookup ruleId = some info := by
  cases static <;> simp [activeStatic]

theorem winning_lines (ruleId : BitVec 32) :
    (∀ context ∈ winningContext (some (activeRegistry feed)) (some (activeStatic static)) ruleId,
      context.Parallel) ∧
    ∀ source, (∃ context ∈ winningContext (some (activeRegistry feed)) (some (activeStatic static)) ruleId,
      source ∈ context.sources) ↔ NumberedBy feed static ruleId source := by
  by_cases known : ∃ own ∈ feed, ∃ entry ∈ own.entries, entry.ruleId = ruleId
  · obtain ⟨own, rfl, entry, member, rfl⟩ := known
    rw [winning_feed member]
    constructor
    · intro context given
      rw [← Option.mem_some.mp given]
      exact (own.resolves.within entry member).parallel
    · intro source
      simp only [Option.mem_def, Option.some.injEq, exists_eq_left', own.mem_ruleContext]
      constructor
      · intro listed
        exact Or.inl ⟨own, rfl, entry, member, rfl, listed⟩
      · intro numbered
        cases numbered with
        | inl feed =>
            obtain ⟨used, given, other, inside, same, listed⟩ := feed
            obtain rfl : own = used := Option.mem_some.mp given
            -- Two entries under one id resolve to one context.
            have first := own.resolves.known entry member
            rw [← same, own.resolves.known other inside, Option.some.injEq] at first
            rwa [← own.mem_ruleContext, ← first, own.mem_ruleContext]
        | inr static => exact absurd rfl (static.1 own rfl entry member)
  · have unknown : ∀ own ∈ feed, ∀ entry ∈ own.entries, entry.ruleId ≠ ruleId :=
      fun own given entry member same => known ⟨own, given, entry, member, same⟩
    rw [winning_static unknown]
    constructor
    · intro context given
      obtain ⟨info, _, rfl⟩ := Option.map_eq_some_iff.mp given
      rfl
    · intro source
      constructor
      · intro listed
        obtain ⟨context, given, inside⟩ := listed
        obtain ⟨info, found, rfl⟩ := Option.map_eq_some_iff.mp given
        obtain ⟨load, loaded, stored⟩ := lookup_activeStatic.mp found
        exact Or.inr ⟨unknown, load, loaded, info, stored, (List.mem_singleton.mp inside).symm⟩
      · intro numbered
        cases numbered with
        | inl feed =>
            obtain ⟨own, given, entry, member, same, _⟩ := feed
            exact absurd same (unknown own given entry member)
        | inr static =>
            obtain ⟨_, load, loaded, info, stored, same⟩ := static
            have found := lookup_activeStatic.mpr ⟨load, loaded, stored⟩
            exact ⟨_, by rw [found]; rfl, by simp [RuleBlockContext.sources, same]⟩

theorem mem_loggedBlock (event : PacketLogEvent) (source : List Char × BitVec 32) :
    source ∈ (loggedBlock feed static event).sources ↔
      NumberedBy feed static event.ruleId source ∨
        ∃ context ∈ matchingContexts (some (activeRegistry feed)) event, source ∈ context.sources := by
  obtain ⟨parallel, lines⟩ := @winning_lines feed static event.ruleId
  have covering : ∀ context ∈ matchingContexts (some (activeRegistry feed)) event, context.Parallel := by
    intro context found
    obtain ⟨own, _, entry, _, _, rfl⟩ := matching_covers found
    exact (targetContext_within entry.target).parallel
  rw [loggedBlock, assembleBlock_eq parallel covering, RuleBlockContext.ofSources_sources, mem_pushAll,
    List.flatMap_append, List.mem_append, List.mem_flatMap, List.mem_flatMap, ← lines source]
  simp only [Option.mem_toList, Option.mem_def, List.not_mem_nil, false_or]

theorem loggedBlock_true_iff (event : PacketLogEvent) :
    (∀ source ∈ (loggedBlock feed static event).sources, RuleLine feed static source (srcAddr event)) ↔
      ∀ source, NumberedBy feed static event.ruleId source → RuleLine feed static source (srcAddr event) := by
  constructor
  · intro truthful source numbered
    exact truthful source ((mem_loggedBlock event source).mpr (Or.inl numbered))
  · intro current source listed
    cases (mem_loggedBlock event source).mp listed with
    | inl numbered => exact current source numbered
    | inr looked =>
        obtain ⟨context, found, inside⟩ := looked
        obtain ⟨own, given, entry, _, covers, rfl⟩ := matching_covers found
        obtain ⟨other, member, target, same⟩ := (mem_targetContext_sources entry.target source).mp inside
        exact Or.inl ⟨own, given, other, member, target ▸ covers, same⟩

end Blocks

section System

-- A rewriting of the maps in progress; it ends with the publication of the feed, if there is one.
structure Writer where
  call : Call
  ok : Outcomes
  before : MapManager
  remaining : List MapOperation
  feed : Option LoadedFeed

def Writer.begin (call : Call) (ok : Outcomes) (manager : MapManager) (feed : Option LoadedFeed) : Writer :=
  ⟨call, ok, manager, call.operations ok manager, feed⟩

structure LogRecord where
  event : PacketLogEvent
  feed : Option LoadedFeed
  static : Option StaticLoad

def LogRecord.block (record : LogRecord) : RuleBlockContext := loggedBlock record.feed record.static record.event

def LogRecord.Truthful (record : LogRecord) : Prop :=
  ∀ source ∈ record.block.sources, RuleLine record.feed record.static source (srcAddr record.event)

-- `feed` and `static` stand for the active registries, `snapshot` for that of the current batch;
-- `reload` is a static load whose rules are not in the maps yet.
structure System where
  manager : MapManager
  telemetry : Telemetry
  feed : Option LoadedFeed
  static : Option StaticLoad
  writer : Option Writer
  reload : Option StaticLoad
  snapshot : Option (Option LoadedFeed)
  logged : List LogRecord

def System.start : System where
  manager := .new
  telemetry := .zero
  feed := none
  static := none
  writer := none
  reload := none
  snapshot := none
  logged := []

inductive Action where
  | packet (ctx : XdpContext)
  | poll
  | next (logDrops : Bool)
  | syncFirehol (feed : LoadedFeed) (hashing : Hashing) (ok : Outcomes)
  | setStatic (load : StaticLoad)
  | syncStatic (hashing : Hashing) (ok : Outcomes)
  | write

def Action.updates : Action → Bool
  | .packet _ | .poll | .next _ => false
  | .syncFirehol _ _ _ | .setStatic _ | .syncStatic _ _ | .write => true

namespace System

def consume (state : System) (snapshot : Option LoadedFeed) (logDrops : Bool) : System :=
  match state.telemetry.events with
  | [] => { state with snapshot := none }
  | event :: rest =>
      { state with
        telemetry := { state.telemetry with events := rest }
        logged := if logDrops then state.logged ++ [⟨event, snapshot, state.static⟩] else state.logged }

-- The writer holds the lock of the map manager until it has published.
def advance (state : System) (writer : Writer) : System :=
  match writer.remaining with
  | operation :: rest =>
      { state with
        manager := state.manager.perform operation
        writer := some { writer with remaining := rest } }
  | [] =>
      { state with
        manager := (writer.call.apply writer.ok writer.before).1
        feed := writer.feed.or state.feed
        reload := if writer.feed.isSome then state.reload else none
        writer := none }

-- An action that is not possible leaves the state as it is.
def step (state : System) : Action → System
  | .packet ctx => { state with telemetry := (firewall ctx state.manager state.telemetry).2 }
  | .poll => if state.snapshot.isNone then { state with snapshot := some state.feed } else state
  | .next logDrops =>
      match state.snapshot with
      | some snapshot => state.consume snapshot logDrops
      | none => state
  | .syncFirehol feed hashing ok =>
      if state.writer.isNone then
        { state with writer := some (.begin ⟨.firehol, feed.rules, hashing⟩ ok state.manager (some feed)) }
      else state
  | .setStatic load =>
      if state.reload.isNone then { state with static := some load, reload := some load } else state
  | .syncStatic hashing ok =>
      match state.writer, state.reload with
      | none, some load =>
          { state with writer := some (.begin ⟨.static, load.rules, hashing⟩ ok state.manager none) }
      | _, _ => state
  | .write =>
      match state.writer with
      | some writer => state.advance writer
      | none => state

def Truthful (state : System) : Prop := ∀ record ∈ state.logged, record.Truthful

def Emits (state : System) (event : PacketLogEvent) : Prop :=
  ∃ ctx, event ∈ (firewall ctx state.manager .zero).2.events

end System

def updatedBy (updates : List Action) : System := run System.step .start updates

theorem updatedBy_concat (updates : List Action) (action : Action) :
    updatedBy (updates ++ [action]) = (updatedBy updates).step action := run_concat _ _ _ _

-- A rule id keeps its meaning: whatever the maps drop with it at one moment, the lines that are published
-- under it until the drop is logged contain the source. The registry of the feeds is read when the batch
-- begins, before or after the drop, that of the static rules when the event is taken.
def IdsKeepMeaning (updates : List Action) : Prop :=
  ∀ dropped begun taken, dropped <+: taken → begun <+: taken → taken <+: updates →
    ∀ event, (updatedBy dropped).Emits event → ∀ source,
      NumberedBy (updatedBy begun).feed (updatedBy taken).static event.ruleId source →
        RuleLine (updatedBy begun).feed (updatedBy taken).static source (srcAddr event)

namespace System

def carrying (rules log : System) : System :=
  { rules with telemetry := log.telemetry, snapshot := log.snapshot, logged := log.logged }

theorem step_carrying (rules log : System) {action : Action} (updates : action.updates = true) :
    (carrying rules log).step action = carrying (rules.step action) log := by
  cases action with
  | packet | poll | next => simp [Action.updates] at updates
  | syncFirehol => cases present : rules.writer <;> simp [step, carrying, present]
  | setStatic => cases present : rules.reload <;> simp [step, carrying, present]
  | syncStatic =>
      cases present : rules.writer <;> cases loaded : rules.reload <;> simp [step, carrying, present, loaded]
  | write =>
      cases present : rules.writer with
      | none => simp [step, carrying, present]
      | some writer => cases remaining : writer.remaining <;> simp [step, advance, carrying, present, remaining]

theorem run_carrying (rules log : System) {updates : List Action} (only : ∀ action ∈ updates, action.updates = true) :
    run step (carrying rules log) updates = carrying (run step rules updates) log := by
  induction updates using List.reverseRecOn with
  | nil => rfl
  | append_singleton updates action ih =>
      rw [run_concat, run_concat, ih fun other member => only other (List.mem_append_left _ member)]
      exact step_carrying _ _ (only action (by simp))

structure Traced (updates : List Action) (state : System) : Prop where
  rules : state = carrying (updatedBy updates) state
  waiting : ∀ event ∈ state.telemetry.events, ∃ dropped, dropped <+: updates ∧ (updatedBy dropped).Emits event
  snapshot : ∀ feed ∈ state.snapshot, ∃ begun, begun <+: updates ∧ feed = (updatedBy begun).feed
  logged : ∀ record ∈ state.logged, ∃ dropped begun taken, dropped <+: taken ∧ begun <+: taken ∧ taken <+: updates ∧
    (updatedBy dropped).Emits record.event ∧ record.feed = (updatedBy begun).feed ∧
      record.static = (updatedBy taken).static

namespace Traced

variable {updates : List Action} {state : System} (traced : Traced updates state)

include traced

theorem published : state.manager = (updatedBy updates).manager ∧ state.feed = (updatedBy updates).feed ∧
    state.static = (updatedBy updates).static := by
  rw [traced.rules]
  exact ⟨rfl, rfl, rfl⟩

theorem update {action : Action} (isUpdate : action.updates = true) :
    Traced (updates ++ [action]) (state.step action) := by
  have stepped : state.step action = carrying (updatedBy (updates ++ [action])) state := by
    conv_lhs => rw [traced.rules]
    rw [step_carrying _ _ isUpdate, updatedBy_concat]
  have longer : updates <+: updates ++ [action] := List.prefix_append _ _
  rw [stepped]
  refine ⟨rfl, fun event waits => ?_, fun feed taken => ?_, fun record listed => ?_⟩
  · obtain ⟨dropped, inside, emits⟩ := traced.waiting event waits
    exact ⟨dropped, inside.trans longer, emits⟩
  · obtain ⟨begun, inside, same⟩ := traced.snapshot feed taken
    exact ⟨begun, inside.trans longer, same⟩
  · obtain ⟨dropped, begun, taken, first, second, inside, origin⟩ := traced.logged record listed
    exact ⟨dropped, begun, taken, first, second, inside.trans longer, origin⟩

theorem packet (ctx : XdpContext) : Traced updates (state.step (.packet ctx)) := by
  refine ⟨congrArg (fun rules : System =>
    { rules with telemetry := (firewall ctx state.manager state.telemetry).2 }) traced.rules, ?_, traced.snapshot,
    traced.logged⟩
  intro event waits
  change event ∈ (firewall ctx state.manager state.telemetry).2.events at waits
  rw [firewall_events, List.mem_append] at waits
  cases waits with
  | inl earlier => exact traced.waiting event earlier
  | inr emitted =>
      rw [traced.published.1] at emitted
      exact ⟨updates, List.prefix_refl _, ctx, emitted⟩

theorem poll : Traced updates (state.step .poll) := by
  simp only [step]
  split_ifs
  · refine ⟨congrArg (fun rules : System => { rules with snapshot := some state.feed }) traced.rules, traced.waiting, ?_,
      traced.logged⟩
    intro feed taken
    obtain rfl : state.feed = feed := Option.mem_some.mp taken
    exact ⟨updates, List.prefix_refl _, traced.published.2.1⟩
  · exact traced

theorem next (logDrops : Bool) : Traced updates (state.step (.next logDrops)) := by
  simp only [step]
  cases taken : state.snapshot with
  | none => exact traced
  | some feed =>
      simp only [consume]
      cases waiting : state.telemetry.events with
      | nil =>
          refine ⟨congrArg (fun rules : System => { rules with snapshot := none }) traced.rules, ?_, ?_,
            traced.logged⟩
          · exact traced.waiting
          · simp
      | cons event rest =>
          refine ⟨congrArg (fun rules : System => { rules with
            telemetry := { state.telemetry with events := rest }
            logged := if logDrops then state.logged ++ [LogRecord.mk event feed state.static] else state.logged })
            traced.rules, ?_, traced.snapshot, ?_⟩
          · intro other later
            exact traced.waiting other (waiting ▸ List.mem_cons_of_mem _ later)
          · intro record listed
            have known : record ∈ state.logged ∨ record = LogRecord.mk event feed state.static := by
              cases logDrops <;> simp_all
            cases known with
            | inl earlier => exact traced.logged record earlier
            | inr last =>
                subst last
                obtain ⟨dropped, early, emits⟩ := traced.waiting event (by simp [waiting])
                obtain ⟨begun, inside, same⟩ := traced.snapshot feed taken
                exact ⟨dropped, begun, updates, early, inside, List.prefix_refl _, emits, same, traced.published.2.2⟩

end Traced

theorem traced_run (actions : List Action) :
    Traced (actions.filter Action.updates) (run step .start actions) := by
  induction actions using List.reverseRecOn with
  | nil => exact ⟨rfl, by simp [start], by simp [start], by simp [start]⟩
  | append_singleton actions action ih =>
      rw [run_concat, List.filter_append]
      cases isUpdate : action.updates with
      | true =>
          rw [List.filter_cons_of_pos isUpdate, List.filter_nil]
          exact ih.update isUpdate
      | false =>
          rw [List.filter_cons_of_neg (by simp [isUpdate]), List.filter_nil, List.append_nil]
          cases action with
          | packet ctx => exact ih.packet ctx
          | poll => exact ih.poll
          | next logDrops => exact ih.next logDrops
          | syncFirehol | setStatic | syncStatic | write => simp [Action.updates] at isUpdate

end System

section Interleavings

def Reachable (updates : List Action) (log : System) : Prop :=
  ∃ actions, actions.filter Action.updates = updates ∧
    run System.step .start actions = .carrying (updatedBy updates) log

theorem Reachable.update {first updates : List Action} {log : System} (reachable : Reachable first log)
    (within : first <+: updates) (only : ∀ action ∈ updates, action.updates = true) : Reachable updates log := by
  obtain ⟨actions, filtered, reached⟩ := reachable
  obtain ⟨rest, rfl⟩ := within
  have later : ∀ action ∈ rest, action.updates = true := fun action member => only action (by simp [member])
  refine ⟨actions ++ rest, ?_, ?_⟩
  · rw [List.filter_append, filtered, List.filter_eq_self.mpr later]
  · rw [run_append, reached, System.run_carrying _ _ later, updatedBy, updatedBy, run_append]

theorem Reachable.act {updates : List Action} {log next : System} (reachable : Reachable updates log) (action : Action)
    (other : action.updates = false)
    (stepped : (System.carrying (updatedBy updates) log).step action = .carrying (updatedBy updates) next) :
    Reachable updates next := by
  obtain ⟨actions, filtered, reached⟩ := reachable
  refine ⟨actions ++ [action], ?_, ?_⟩
  · rw [List.filter_append, filtered, List.filter_cons_of_neg (by simp [other]), List.filter_nil, List.append_nil]
  · rw [run_concat, reached, stepped]

theorem interleaved {dropped begun taken updates : List Action} (only : ∀ action ∈ updates, action.updates = true)
    (early : dropped <+: taken) (inside : begun <+: taken) (within : taken <+: updates)
    {event : PacketLogEvent} (emits : (updatedBy dropped).Emits event) :
    ∃ log, Reachable updates log ∧ ⟨event, (updatedBy begun).feed, (updatedBy taken).static⟩ ∈ log.logged := by
  obtain ⟨ctx, emitted⟩ := emits
  have single := firewall_event ctx _ emitted
  have upTo : ∀ moment, moment <+: updates → ∀ action ∈ moment, action.updates = true :=
    fun _ earlier action member => only action (earlier.subset member)
  let emitting : System := { System.start with telemetry := (firewall ctx (updatedBy dropped).manager .zero).2 }
  let polled : System := { System.start with snapshot := some (updatedBy begun).feed }
  let waiting : System := { emitting with snapshot := some (updatedBy begun).feed }
  have start : Reachable [] .start := ⟨[], rfl, rfl⟩
  have meets : Reachable taken waiting := by
    cases List.prefix_or_prefix_of_prefix early inside with
    | inl before =>
        have sent : Reachable dropped emitting :=
          (start.update List.nil_prefix (upTo dropped (early.trans within))).act (.packet ctx) rfl rfl
        have snapped : Reachable begun waiting :=
          (sent.update before (upTo begun (inside.trans within))).act .poll rfl rfl
        exact snapped.update inside (upTo taken within)
    | inr before =>
        have snapped : Reachable begun polled :=
          (start.update List.nil_prefix (upTo begun (inside.trans within))).act .poll rfl rfl
        have sent : Reachable dropped waiting :=
          (snapped.update before (upTo dropped (early.trans within))).act (.packet ctx) rfl rfl
        exact sent.update early (upTo taken within)
  refine ⟨{ waiting with
    telemetry := { waiting.telemetry with events := [] }
    logged := [⟨event, (updatedBy begun).feed, (updatedBy taken).static⟩] }, ?_, by simp⟩
  refine (meets.act (.next true) rfl ?_).update within only
  simp [System.step, System.consume, System.carrying, waiting, emitting, single, System.start]

end Interleavings

theorem attribution_truthful_iff (actions : List Action) :
    (∀ others, others.filter Action.updates = actions.filter Action.updates →
        (run System.step .start others).Truthful) ↔
      IdsKeepMeaning (actions.filter Action.updates) := by
  constructor
  · intro truthful dropped begun taken early inside within event emits source
    obtain ⟨log, ⟨others, same, reached⟩, logged⟩ :=
      interleaved (fun _ member => List.of_mem_filter member) early inside within emits
    have true := truthful others same
    rw [reached] at true
    exact (loggedBlock_true_iff event).mp (true _ logged) source
  · intro kept others same record logged
    obtain ⟨dropped, begun, taken, early, inside, within, emits, feed, static⟩ :=
      (System.traced_run others).logged record logged
    obtain ⟨event, _, _⟩ := record
    subst feed static
    exact (loggedBlock_true_iff event).mpr (kept dropped begun taken early inside (same ▸ within) event emits)

section Renumbering

namespace System

theorem run_writes {state : System} {writer : Writer} (active : state.writer = some writer) :
    run step state (List.replicate (writer.remaining.length + 1) .write) =
      { state with
        manager := (writer.call.apply writer.ok writer.before).1
        feed := writer.feed.or state.feed
        reload := if writer.feed.isSome then state.reload else none
        writer := none } := by
  obtain ⟨call, ok, before, remaining, feed⟩ := writer
  induction remaining generalizing state with
  | nil => simp [run, step, active, advance]
  | cons operation rest ih =>
      have first : state.step .write =
          { state with
            manager := state.manager.perform operation
            writer := some ⟨call, ok, before, rest, feed⟩ } := by
        simp [step, active, advance]
      rw [List.length_cons, List.replicate_succ, run, List.foldl_cons, first]
      exact ih rfl

def syncActions (state : System) (feed : LoadedFeed) (hashing : Hashing) : List Action :=
  .syncFirehol feed hashing allSucceed ::
    List.replicate ((Call.operations ⟨.firehol, feed.rules, hashing⟩ allSucceed state.manager).length + 1) .write

theorem run_syncActions {state : System} (idle : state.writer = none) (feed : LoadedFeed) (hashing : Hashing) :
    run step state (state.syncActions feed hashing) =
      { state with
        manager := (syncFireholRules hashing allSucceed state.manager feed.rules).1
        feed := some feed } := by
  have started : state.step (.syncFirehol feed hashing allSucceed) =
      { state with writer := some (.begin ⟨.firehol, feed.rules, hashing⟩ allSucceed state.manager (some feed)) } := by
    simp [step, idle]
  have finished := @run_writes
    { state with writer := some (.begin ⟨.firehol, feed.rules, hashing⟩ allSucceed state.manager (some feed)) } _ rfl
  rw [syncActions, run, List.foldl_cons, started]
  refine finished.trans ?_
  simp only [← idle]
  rfl

theorem run_sync_logged {state : System} (idle : state.writer = none) (resting : state.snapshot = none)
    {event : PacketLogEvent} {rest : List PacketLogEvent} (waiting : state.telemetry.events = event :: rest)
    (feed : LoadedFeed) (hashing : Hashing) :
    (run step state (state.syncActions feed hashing ++ [.poll, .next true])).logged =
      state.logged ++ [⟨event, some feed, state.static⟩] := by
  rw [run_append, run_syncActions idle]
  simp [run, step, consume, resting, waiting]

end System

def singleFeed (orders : IndexOrders) (name : List Char) (octets : Octets 4) : LoadedFeed where
  sizeInBytes := List.length
  storage := .memory
  orders := orders
  metadata := [.new name 1]
  nextMetadataId := 2
  batches := [[⟨.exactV4 octets, 0, 1, 1⟩]]
  imported := buildMemory orders [.new name 1] ⟨[⟨.exactV4 octets, 1, 1, 1⟩], none⟩ [⟨.exactV4 octets, 1, 1, 1⟩]
  rules := (hostRules octets).1
  report := (hostRules octets).2
  nonempty := by simp
  range := by simp [FireholIpTarget.PrefixInRange]
  canonical := by simp [FireholIpTarget.Canonical]
  registered := by simp [Registered, FireholMetadata.new]
  numbered := by simp [FireholMetadata.new]
  done := importBatches_memory List.length orders _ _ (by simp)
  prepared := rfl

-- An untagged IPv4 frame from 192.0.2.1 that is neither TCP nor UDP.
def listedFrame : Frame :=
  List.replicate 12 0 ++ [0x08, 0x00, 0x45] ++ List.replicate 11 0 ++ [192, 0, 2, 1] ++ List.replicate 4 0

def listedEvent (ruleId : BitVec 32) : PacketLogEvent where
  timestampNs := 0
  srcIp := padded (NetAddr.ipv4Octets 192 0 2 1)
  dstIp := padded (NetAddr.ipv4Octets 0 0 0 0)
  ruleId := ruleId
  packetLen := 34
  ifindex := 0
  srcPort := 0
  dstPort := 0
  protocol := 0
  ipVersion := 4
  action := actionDrop
  matchType := matchExactHash
  pad := NetAddr.ipv4Octets 0 0 0 0

theorem listedFrame_event {manager : MapManager} {ruleId : BitVec 32}
    (listed : manager.ipv4Exact.lookup #v[192, 0, 2, 1] = some (RuleValue.drop ruleId)) :
    (firewall ⟨listedFrame, 0, 0, true⟩ manager .zero).2.events = [listedEvent ruleId] := by
  have decided : tryFirewall ⟨listedFrame, 0, 0, true⟩ manager .zero =
      some (enforce ⟨listedFrame, 0, 0, true⟩ .zero 34
        { ipVersion := 4, srcIp := padded #v[192, 0, 2, 1], dstIp := padded #v[0, 0, 0, 0], protocol := 0
          srcPort := 0, dstPort := 0 }
        (reputationLookup manager.ipv4Exact manager.ipv4Lpm #v[192, 0, 2, 1])) := by
    rfl
  simp only [firewall, decided, reputationLookup, listed]
  rfl

theorem stale_id_misattributed :
    let orders : IndexOrders := ⟨.arbitrary _, .arbitrary _⟩
    let replaced := singleFeed orders "first.netset".toList #v[192, 0, 2, 1]
    let current := singleFeed orders "second.netset".toList #v[198, 51, 100, 7]
    ∃ actions, ∃ record ∈ (run System.step .start actions).logged,
      srcAddr record.event = .v4 #v[192, 0, 2, 1] ∧ record.static = none ∧
        ("second.netset".toList, 1) ∈ record.block.sources ∧
        ∀ feed ∈ [replaced, current],
          ¬ RuleLine (some feed) none ("second.netset".toList, 1) (srcAddr record.event) := by
  intro orders replaced current
  let loaded := run System.step .start (System.start.syncActions replaced .arbitrary)
  let dropped := loaded.step (.packet ⟨listedFrame, 0, 0, true⟩)
  have installed := @System.run_syncActions .start rfl replaced .arbitrary
  have listed : loaded.manager.ipv4Exact.lookup #v[192, 0, 2, 1] = some (RuleValue.drop 1) := by
    have found : replaced.rules.exactV4.lookup #v[192, 0, 2, 1] = some (RuleValue.drop 1) :=
      hostRules_lookup (by decide)
    have key : #v[192, 0, 2, 1] ∈ replaced.rules.keys .ipv4Exact :=
      (replaced.rules.mem_keys .ipv4Exact _).mpr ⟨_, found⟩
    simp only [loaded, installed]
    exact (syncFireholRules_lookup_listed .arbitrary .new replaced.rules .ipv4Exact _ key).trans found
  have waiting : dropped.telemetry.events = [listedEvent 1] := by
    simp only [dropped, System.step, loaded, installed] at listed ⊢
    exact listedFrame_event listed
  have logged := @System.run_sync_logged dropped (by simp [dropped, System.step, loaded, installed, System.start])
    (by simp [dropped, System.step, loaded, installed, System.start]) _ _ waiting current .arbitrary
  refine ⟨System.start.syncActions replaced .arbitrary ++ ([.packet ⟨listedFrame, 0, 0, true⟩] ++
    (dropped.syncActions current .arbitrary ++ [.poll, .next true])), ⟨listedEvent 1, some current, none⟩, ?_, rfl, rfl,
    ?_, ?_⟩
  · rw [run_append, run_append]
    change _ ∈ (run System.step dropped _).logged
    rw [logged]
    simp [dropped, System.step, loaded, installed, System.start]
  · exact (mem_loggedBlock _ _).mpr (Or.inl (Or.inl ⟨current, rfl, ⟨.exactV4 #v[198, 51, 100, 7], 1, 1, 1⟩,
      List.mem_singleton_self _, rfl, by decide⟩))
  · intro feed listed line
    cases line with
    | inr static => simp at static
    | inl named =>
        obtain ⟨own, given, entry, member, covers, same⟩ := named
        obtain rfl : feed = own := Option.mem_some.mp given
        simp only [List.mem_cons, List.not_mem_nil, or_false] at listed
        cases listed with
        | inl first =>
            subst first
            obtain rfl := List.mem_singleton.mp member
            exact absurd same (by decide)
        | inr second =>
            subst second
            obtain rfl := List.mem_singleton.mp member
            exact absurd (show slice (listedEvent 1).srcIp 0 4 (by decide) = #v[198, 51, 100, 7] from covers)
              (by decide)

end Renumbering

end System

end ReputationFirewall.RingBuf
