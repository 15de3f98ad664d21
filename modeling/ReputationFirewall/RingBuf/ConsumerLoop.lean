import ReputationFirewall.Firehol.RuleInfo
import ReputationFirewall.Metrics.FeedGauges
import ReputationFirewall.Metrics.PacketTotals
import ReputationFirewall.RingBuf.Wire

set_option autoImplicit false

namespace ReputationFirewall.RingBuf

open CounterVec Firehol KeyedStore Metrics Rules Runs Xdp

section Model

structure TelemetryMetrics where
  packets : PacketMetrics
  errorsTotal : Counters (List Char) 64
  blockedPacketsTotal : Counters (List Char × List Char) 64
  blockedBytesTotal : Counters (List Char) 64

namespace TelemetryMetrics

def new : TelemetryMetrics where
  packets := .new
  errorsTotal := withLabelValues (withLabelValues ∅ "sync".toList) "ringbuf_poll".toList
  blockedPacketsTotal := ∅
  blockedBytesTotal := ∅

def recordError (metrics : TelemetryMetrics) (errorType : List Char) : TelemetryMetrics :=
  { metrics with errorsTotal := incBy metrics.errorsTotal errorType 1 }

def recordDrop (metrics : TelemetryMetrics) (category protocol : List Char) (bytes : BitVec 32) :
    TelemetryMetrics :=
  { metrics with
    blockedPacketsTotal := incBy metrics.blockedPacketsTotal (category, protocol) 1
    blockedBytesTotal := incBy metrics.blockedBytesTotal category (bytes.setWidth 64) }

def recordEvent (metrics : TelemetryMetrics) (info : Option RuleBlockEntry) (event : PacketLogEvent) :
    TelemetryMetrics :=
  let metrics := { metrics with packets := metrics.packets.recordEvent event }
  match info with
  | some info => metrics.recordDrop info.category.asStr (protocolName event) event.packetLen
  | none => metrics

-- An item counts as an event even if it turns out to be malformed.
def recordItem (metrics : TelemetryMetrics) (registry : Option FireholMetadataRegistry) (bytes : List UInt8) :
    TelemetryMetrics :=
  match PacketLogEvent.ofItem bytes with
  | some event => metrics.recordEvent (registry.bind fun registry => registry.resolveRule event.ruleId) event
  | none =>
      { metrics with packets := metrics.packets.recordRingbufEvent }.recordError "ringbuf_malformed".toList

end TelemetryMetrics

inductive Phase where
  | waiting
  | draining (snapshot : Option FireholMetadataRegistry)
  | stopped

-- `emitted` and `taken` are ghost: the events of the kernel program, and the items of the consumer
-- with the registries that they were resolved with.
structure Daemon where
  stats : FirewallStats
  ring : List (List UInt8)
  registry : Option FireholMetadataRegistry
  static : Store (BitVec 32) StaticRuleInfo
  logDrops : Bool
  shutdown : Bool
  phase : Phase
  sampled : Option FirewallStats
  metrics : Option TelemetryMetrics
  logged : List (PacketLogEvent × RuleBlockContext)
  emitted : List PacketLogEvent
  taken : List (Option FireholMetadataRegistry × List UInt8)

inductive DaemonAction where
  | frame (arrival : Arrival)
  | publishRegistry (registry : FireholMetadataRegistry)
  | setStatic (static : Store (BitVec 32) StaticRuleInfo)
  | setLogDrops (enabled : Bool)
  | sendShutdown
  | readable
  | pollError
  | next
  | stop
  | sampleStats (readable : Bool)
  | publishStats

namespace Daemon

def start (registry : Option FireholMetadataRegistry) (metrics : Option TelemetryMetrics) (quiet : Bool) :
    Daemon where
  stats := Telemetry.zero.stats
  ring := []
  registry := registry
  static := ∅
  logDrops := !quiet
  shutdown := false
  phase := .waiting
  sampled := none
  metrics := metrics
  logged := []
  emitted := []
  taken := []

def receive (state : Daemon) (arrival : Arrival) : Daemon :=
  let telemetry := (firewall arrival.ctx arrival.maps ⟨state.stats, []⟩).2
  { state with
    stats := telemetry.stats
    ring := state.ring ++ telemetry.events.map PacketLogEvent.item
    emitted := state.emitted ++ telemetry.events }

def log (state : Daemon) (snapshot : Option FireholMetadataRegistry) (event : PacketLogEvent) :
    List (PacketLogEvent × RuleBlockContext) :=
  if state.logDrops then state.logged ++ [(event, assembleBlock snapshot (some state.static) event)]
  else state.logged

def drain (state : Daemon) (snapshot : Option FireholMetadataRegistry) : Daemon :=
  match state.ring with
  | [] => { state with phase := .waiting }
  | bytes :: rest =>
      { state with
        ring := rest
        metrics := state.metrics.map fun metrics => metrics.recordItem snapshot bytes
        logged := ((PacketLogEvent.ofItem bytes).map (state.log snapshot)).getD state.logged
        taken := state.taken ++ [(snapshot, bytes)] }

def publishStats (state : Daemon) : Daemon :=
  match state.sampled with
  | none => state
  | some stats =>
      { state with
        metrics := state.metrics.map fun metrics =>
          { metrics with packets := metrics.packets.updateFromEbpfStats stats }
        sampled := none }

def step (state : Daemon) : DaemonAction → Daemon
  | .frame arrival => state.receive arrival
  | .publishRegistry registry => { state with registry := state.registry.map fun _ => registry }
  | .setStatic static => { state with static }
  | .setLogDrops enabled => { state with logDrops := enabled }
  | .sendShutdown => { state with shutdown := true }
  | .readable =>
      match state.phase with
      | .waiting => { state with phase := .draining state.registry }
      | _ => state
  | .pollError =>
      match state.phase with
      | .waiting => { state with
          metrics := state.metrics.map fun metrics => metrics.recordError "ringbuf_poll".toList }
      | _ => state
  | .next =>
      match state.phase with
      | .draining snapshot => state.drain snapshot
      | _ => state
  | .stop =>
      match state.phase with
      | .waiting => if state.shutdown then { state with phase := .stopped } else state
      | _ => state
  | .sampleStats readable =>
      { state with sampled := some (if readable then state.stats else Telemetry.zero.stats) }
  | .publishStats => state.publishStats

end Daemon

end Model

section Kernel

def after (events : List PacketLogEvent) (telemetry : Telemetry) : Telemetry :=
  { telemetry with events := events ++ telemetry.events }

variable (events : List PacketLogEvent) (ctx : XdpContext) (maps : Maps.MapManager) (telemetry : Telemetry)

theorem accept_after (packetLen : BitVec 32) (inspection : Option Inspection) :
    accept (after events telemetry) packetLen inspection =
      { accept telemetry packetLen inspection with
        telemetry := after events (accept telemetry packetLen inspection).telemetry } := rfl

theorem enforce_after (packetLen : BitVec 32) (inspection : Inspection) (found : Option (RuleValue × UInt8)) :
    enforce ctx (after events telemetry) packetLen inspection found =
      { enforce ctx telemetry packetLen inspection found with
        telemetry := after events (enforce ctx telemetry packetLen inspection found).telemetry } := by
  unfold enforce
  split
  · split_ifs <;> simp [after, updateStats, accept]
  · rfl

theorem firewall_after :
    firewall ctx maps (after events telemetry) =
      ((firewall ctx maps telemetry).1, after events (firewall ctx maps telemetry).2) := by
  have decides (offset : Nat) (etherType : BitVec 16) (packetLen : BitVec 32) :
      dispatch ctx maps (after events telemetry) offset etherType packetLen =
        (dispatch ctx maps telemetry offset etherType packetLen).map fun verdict =>
          { verdict with telemetry := after events verdict.telemetry } := by
    simp only [dispatch, processIpv4_eq, processIpv6_eq, ipv4Verdict, ipv6Verdict]
    split_ifs <;> simp [enforce_after, accept_after]
  have verdict : tryFirewall ctx maps (after events telemetry) =
      (tryFirewall ctx maps telemetry).map fun verdict =>
        { verdict with telemetry := after events verdict.telemetry } := by
    simp only [tryFirewall_eq, decides]
    split_ifs <;> rfl
  rw [firewall, firewall, verdict]
  cases tryFirewall ctx maps telemetry <;> rfl

end Kernel

section Counting

abbrev Taken := List (Option FireholMetadataRegistry × List UInt8)

def consumed (taken : Taken) : List PacketLogEvent := taken.filterMap fun item => PacketLogEvent.ofItem item.2

def attribution (snapshot : Option FireholMetadataRegistry) (event : PacketLogEvent) :
    Option (List Char × PacketLogEvent) :=
  (snapshot.bind fun registry => registry.resolveRule event.ruleId).map fun info => (info.category.asStr, event)

def attributed (taken : Taken) : List (List Char × PacketLogEvent) :=
  taken.filterMap fun item => (PacketLogEvent.ofItem item.2).bind (attribution item.1)

structure Counted (taken : Taken) (metrics : TelemetryMetrics) : Prop where
  events : metrics.packets.ringbufEventsTotal = BitVec.ofNat 64 taken.length
  malformed : value metrics.errorsTotal "ringbuf_malformed".toList =
    BitVec.ofNat 64 (taken.countP fun item => (PacketLogEvent.ofItem item.2).isNone)
  drops : value metrics.packets.packetsTotal .drop = BitVec.ofNat 64 (consumed taken).length
  bytes : value metrics.packets.bytesTotal .drop =
    BitVec.ofNat 64 ((consumed taken).map fun event => event.packetLen.toNat).sum
  blocked : metrics.packets.packetsBlockedTotal = tally PacketMetrics.new.packetsBlockedTotal
    ((consumed taken).map fun event => ((protocolName event, matchTypeName event), 1))
  categories : metrics.blockedPacketsTotal = tally ∅
    ((attributed taken).map fun item => ((item.1, protocolName item.2), 1))
  categoryBytes : metrics.blockedBytesTotal = tally ∅
    ((attributed taken).map fun item => (item.1, item.2.packetLen.setWidth 64))

theorem counted_new : Counted [] .new := by
  constructor <;> rfl

section Recording

variable {taken : Taken} {metrics : TelemetryMetrics} {snapshot : Option FireholMetadataRegistry} {bytes : List UInt8}

theorem Counted.malformedItem (counted : Counted taken metrics) (read : PacketLogEvent.ofItem bytes = none) :
    Counted (taken ++ [(snapshot, bytes)]) (metrics.recordItem snapshot bytes) := by
  have same : consumed (taken ++ [(snapshot, bytes)]) = consumed taken := by simp [consumed, read]
  have still : attributed (taken ++ [(snapshot, bytes)]) = attributed taken := by simp [attributed, read]
  rw [TelemetryMetrics.recordItem, read]
  refine ⟨?_, ?_, same ▸ counted.drops, same ▸ counted.bytes, same ▸ counted.blocked, still ▸ counted.categories,
    still ▸ counted.categoryBytes⟩
  · simp [TelemetryMetrics.recordError, PacketMetrics.recordRingbufEvent, counted.events, BitVec.ofNat_add]
  · rw [TelemetryMetrics.recordError, value_incBy, counted.malformed]
    simp [List.countP_append, read, BitVec.ofNat_add]

theorem recordItem_event {event : PacketLogEvent} (read : PacketLogEvent.ofItem bytes = some event) :
    metrics.recordItem snapshot bytes =
      metrics.recordEvent (snapshot.bind fun registry => registry.resolveRule event.ruleId) event := by
  rw [TelemetryMetrics.recordItem, read]

theorem recordEvent_packets (info : Option RuleBlockEntry) (event : PacketLogEvent) :
    (metrics.recordEvent info event).packets = metrics.packets.recordEvent event := by
  cases info <;> rfl

theorem recordEvent_errors (info : Option RuleBlockEntry) (event : PacketLogEvent) :
    (metrics.recordEvent info event).errorsTotal = metrics.errorsTotal := by
  cases info <;> rfl

theorem attributed_concat {event : PacketLogEvent} (read : PacketLogEvent.ofItem bytes = some event) :
    attributed (taken ++ [(snapshot, bytes)]) = attributed taken ++ (attribution snapshot event).toList := by
  rw [attributed, List.filterMap_append, attributed]
  congr 1
  simp only [List.filterMap_cons, read, Option.bind_some, List.filterMap_nil]
  cases attribution snapshot event <;> rfl

theorem Counted.eventItem (counted : Counted taken metrics) {event : PacketLogEvent}
    (read : PacketLogEvent.ofItem bytes = some event) :
    Counted (taken ++ [(snapshot, bytes)]) (metrics.recordItem snapshot bytes) := by
  have grown : consumed (taken ++ [(snapshot, bytes)]) = consumed taken ++ [event] := by simp [consumed, read]
  have length : event.packetLen.setWidth 64 = BitVec.ofNat 64 event.packetLen.toNat := by
    simp [BitVec.ofNat_toNat]
  rw [recordItem_event read]
  constructor
  · rw [recordEvent_packets]
    simp [PacketMetrics.recordEvent, PacketMetrics.recordRingbufEvent, PacketMetrics.recordBlockedPacket,
      PacketMetrics.recordBlockedIp, counted.events, BitVec.ofNat_add]
  · rw [recordEvent_errors, counted.malformed]
    simp [List.countP_append, read]
  · rw [recordEvent_packets, (recordEvent_totals _ _).1, value_incBy, counted.drops, grown]
    simp [BitVec.ofNat_add]
  · have total : value (metrics.packets.recordEvent event).bytesTotal .drop =
        value metrics.packets.bytesTotal .drop + event.packetLen.setWidth 64 := value_incBy _ _ _
    rw [recordEvent_packets, total, counted.bytes, grown, length, List.map_append, List.sum_append,
      BitVec.ofNat_add]
    rfl
  · rw [recordEvent_packets, grown, List.map_append, tally_append, ← counted.blocked]
    rfl
  · rw [attributed_concat read, List.map_append, tally_append, attribution, ← counted.categories]
    cases snapshot.bind fun registry => registry.resolveRule event.ruleId <;> rfl
  · rw [attributed_concat read, List.map_append, tally_append, attribution, ← counted.categoryBytes]
    cases snapshot.bind fun registry => registry.resolveRule event.ruleId <;> rfl

theorem Counted.recordItem (counted : Counted taken metrics) :
    Counted (taken ++ [(snapshot, bytes)]) (metrics.recordItem snapshot bytes) := by
  cases read : PacketLogEvent.ofItem bytes with
  | none => exact counted.malformedItem read
  | some event => exact counted.eventItem read

theorem Counted.recordError (counted : Counted taken metrics) {errorType : List Char}
    (other : errorType ≠ "ringbuf_malformed".toList) : Counted taken (metrics.recordError errorType) := by
  obtain ⟨events, malformed, drops, total, blocked, categories, categoryBytes⟩ := counted
  refine ⟨events, ?_, drops, total, blocked, categories, categoryBytes⟩
  rw [← malformed]
  exact value_incBy_ne (Ne.symm other) _ _

theorem Counted.updateFromEbpfStats (counted : Counted taken metrics) (stats : FirewallStats) :
    Counted taken { metrics with packets := metrics.packets.updateFromEbpfStats stats } := by
  obtain ⟨events, malformed, drops, total, blocked, categories, categoryBytes⟩ := counted
  have packetDrops : value (metrics.packets.updateFromEbpfStats stats).packetsTotal .drop =
      value metrics.packets.packetsTotal .drop := by
    rw [update_packetsTotal]
    split_ifs <;> simp
  have byteDrops : value (metrics.packets.updateFromEbpfStats stats).bytesTotal .drop =
      value metrics.packets.bytesTotal .drop := by
    unfold PacketMetrics.updateFromEbpfStats
    dsimp only
    split_ifs <;> simp
  have others : (metrics.packets.updateFromEbpfStats stats).ringbufEventsTotal = metrics.packets.ringbufEventsTotal ∧
      (metrics.packets.updateFromEbpfStats stats).packetsBlockedTotal = metrics.packets.packetsBlockedTotal := by
    unfold PacketMetrics.updateFromEbpfStats
    dsimp only
    split_ifs <;> exact ⟨rfl, rfl⟩
  exact ⟨others.1.trans events, malformed, packetDrops.trans drops, byteDrops.trans total, others.2.trans blocked,
    categories, categoryBytes⟩

end Recording

end Counting

section Conservation

namespace Daemon

theorem drain_empty {state : Daemon} (ring : state.ring = []) (snapshot : Option FireholMetadataRegistry) :
    state.drain snapshot = { state with phase := .waiting } := by
  rw [drain, ring]

theorem drain_item {state : Daemon} {bytes : List UInt8} {rest : List (List UInt8)} (ring : state.ring = bytes :: rest)
    (snapshot : Option FireholMetadataRegistry) :
    state.drain snapshot = { state with
      ring := rest
      metrics := state.metrics.map fun metrics => metrics.recordItem snapshot bytes
      logged := ((PacketLogEvent.ofItem bytes).map (state.log snapshot)).getD state.logged
      taken := state.taken ++ [(snapshot, bytes)] } := by
  rw [drain, ring]

structure Accounts (state : Daemon) : Prop where
  queued : state.taken.map Prod.snd ++ state.ring = state.emitted.map PacketLogEvent.item
  kernel : state.stats.ringbufEvents = BitVec.ofNat 64 state.emitted.length
  counted : ∃ metrics, state.metrics = some metrics ∧ Counted state.taken metrics
  logged : (state.logged.map Prod.fst).Sublist (consumed state.taken)

theorem accounts_start (registry : Option FireholMetadataRegistry) (quiet : Bool) :
    (start registry (some .new) quiet).Accounts :=
  ⟨rfl, rfl, ⟨.new, rfl, counted_new⟩, List.Sublist.refl _⟩

variable {state : Daemon} (accounts : state.Accounts)

include accounts

theorem Accounts.receive (arrival : Arrival) : (state.receive arrival).Accounts := by
  refine ⟨?_, ?_, accounts.counted, accounts.logged⟩
  · simp [Daemon.receive, ← accounts.queued]
  · obtain ⟨sent, counted, queued⟩ := firewall_output arrival.ctx arrival.maps ⟨state.stats, []⟩
    rw [Daemon.receive]
    simp only [counted, List.length_append, BitVec.ofNat_add, queued, accounts.kernel]
    simp

theorem Accounts.log (snapshot : Option FireholMetadataRegistry) (bytes : List UInt8) :
    ((((PacketLogEvent.ofItem bytes).map (state.log snapshot)).getD state.logged).map Prod.fst).Sublist
      (consumed (state.taken ++ [(snapshot, bytes)])) := by
  have more : consumed (state.taken ++ [(snapshot, bytes)]) =
      consumed state.taken ++ [(snapshot, bytes)].filterMap fun item => PacketLogEvent.ofItem item.2 :=
    List.filterMap_append
  rw [more]
  cases read : PacketLogEvent.ofItem bytes with
  | none => exact accounts.logged.trans (List.sublist_append_left _ _)
  | some event =>
      unfold Daemon.log
      simp only [Option.map_some, Option.getD_some, List.filterMap_cons, read, List.filterMap_nil]
      split_ifs
      · rw [List.map_append]
        exact accounts.logged.append_right _
      · exact accounts.logged.trans (List.sublist_append_left _ _)

theorem Accounts.drain (snapshot : Option FireholMetadataRegistry) : (state.drain snapshot).Accounts := by
  cases ring : state.ring with
  | nil =>
      rw [drain_empty ring]
      exact ⟨accounts.queued, accounts.kernel, accounts.counted, accounts.logged⟩
  | cons bytes rest =>
      obtain ⟨metrics, present, counted⟩ := accounts.counted
      rw [drain_item ring]
      refine ⟨?_, accounts.kernel, ⟨metrics.recordItem snapshot bytes, by simp [present], counted.recordItem⟩,
        accounts.log snapshot bytes⟩
      simp [← accounts.queued, ring]

theorem Accounts.publishStats : state.publishStats.Accounts := by
  unfold Daemon.publishStats
  cases state.sampled with
  | none => exact accounts
  | some stats =>
      obtain ⟨metrics, present, counted⟩ := accounts.counted
      exact ⟨accounts.queued, accounts.kernel, ⟨_, by simp [present], counted.updateFromEbpfStats stats⟩,
        accounts.logged⟩

theorem Accounts.pollError : (state.step .pollError).Accounts := by
  unfold Daemon.step
  cases phase : state.phase with
  | waiting =>
      obtain ⟨metrics, present, counted⟩ := accounts.counted
      exact ⟨accounts.queued, accounts.kernel, ⟨metrics.recordError "ringbuf_poll".toList, by simp [present],
        counted.recordError (by decide)⟩, accounts.logged⟩
  | draining snapshot => exact accounts
  | stopped => exact accounts

theorem Accounts.step (action : DaemonAction) : (state.step action).Accounts := by
  have same : state.Accounts := accounts
  obtain ⟨queued, kernel, counted, logged⟩ := accounts
  cases action with
  | frame arrival => exact same.receive arrival
  | pollError => exact same.pollError
  | publishStats => exact same.publishStats
  | next =>
      unfold Daemon.step
      cases state.phase with
      | draining snapshot => exact same.drain snapshot
      | _ => exact same
  | publishRegistry _ | setStatic _ | setLogDrops _ | sendShutdown | sampleStats _ =>
      exact ⟨queued, kernel, counted, logged⟩
  | readable =>
      unfold Daemon.step
      cases state.phase <;> exact ⟨queued, kernel, counted, logged⟩
  | stop =>
      unfold Daemon.step
      cases state.phase with
      | waiting => dsimp only; split_ifs <;> exact ⟨queued, kernel, counted, logged⟩
      | _ => exact same

end Daemon

structure Conserved (state : Daemon) (metrics : TelemetryMetrics) : Prop where
  -- No event is lost, doubled or reordered behind the kernel program.
  order : ∃ waiting : List PacketLogEvent, state.ring = waiting.map PacketLogEvent.item ∧
    consumed state.taken ++ waiting = state.emitted
  kernel : metrics.packets.ringbufEventsTotal + BitVec.ofNat 64 state.ring.length = state.stats.ringbufEvents
  malformed : value metrics.errorsTotal "ringbuf_malformed".toList = 0
  drops : value metrics.packets.packetsTotal .drop = metrics.packets.ringbufEventsTotal
  bytes : value metrics.packets.bytesTotal .drop =
    BitVec.ofNat 64 ((consumed state.taken).map fun event => event.packetLen.toNat).sum
  blocked : ∀ protocol matchType, value metrics.packets.packetsBlockedTotal (protocol, matchType) =
    BitVec.ofNat 64 ((consumed state.taken).countP fun event =>
      (protocolName event, matchTypeName event) = (protocol, matchType))
  categories : ∀ category protocol, value metrics.blockedPacketsTotal (category, protocol) =
    BitVec.ofNat 64 ((attributed state.taken).countP fun item =>
      (item.1, protocolName item.2) = (category, protocol))
  categoryBytes : ∀ category, value metrics.blockedBytesTotal category =
    BitVec.ofNat 64 (((attributed state.taken).filter fun item => item.1 = category).map fun item =>
      item.2.packetLen.toNat).sum
  logged : (state.logged.map Prod.fst).Sublist state.emitted

section Queue

theorem consumed_eq (taken : Taken) : consumed taken = (taken.map Prod.snd).filterMap PacketLogEvent.ofItem := by
  rw [consumed, List.filterMap_map]
  rfl

theorem filterMap_items (events : List PacketLogEvent) :
    (events.map PacketLogEvent.item).filterMap PacketLogEvent.ofItem = events := by
  rw [List.filterMap_map]
  have reads : PacketLogEvent.ofItem ∘ PacketLogEvent.item = some := funext PacketLogEvent.ofItem_item
  rw [reads, List.filterMap_some]

variable {state : Daemon} (accounts : state.Accounts)

include accounts

theorem Daemon.Accounts.order : ∃ done waiting : List PacketLogEvent,
    state.taken.map Prod.snd = done.map PacketLogEvent.item ∧ state.ring = waiting.map PacketLogEvent.item ∧
      consumed state.taken = done ∧ done ++ waiting = state.emitted := by
  obtain ⟨done, waiting, whole, first, second⟩ := List.map_eq_append_iff.mp accounts.queued.symm
  refine ⟨done, waiting, first.symm, second.symm, ?_, whole.symm⟩
  rw [consumed_eq, ← first, filterMap_items]

end Queue

theorem blockedTotal_new (label : List Char × List Char) :
    value PacketMetrics.new.packetsBlockedTotal label = 0 := by
  simp only [PacketMetrics.new, List.foldl_cons, List.foldl_nil, value_withLabelValues]
  rfl

theorem drop_telemetry_conserved (registry : Option FireholMetadataRegistry) (quiet : Bool)
    (actions : List DaemonAction) :
    ∃ metrics, (run Daemon.step (.start registry (some .new) quiet) actions).metrics = some metrics ∧
      Conserved (run Daemon.step (.start registry (some .new) quiet) actions) metrics := by
  have accounts := run_invariant _ _ _ (Daemon.accounts_start registry quiet)
    (fun _ action accounts => accounts.step action) actions
  generalize run Daemon.step (.start registry (some .new) quiet) actions = state at accounts
  obtain ⟨metrics, present, counted⟩ := accounts.counted
  obtain ⟨done, waiting, taken, ring, read, whole⟩ := accounts.order
  have sizes : state.taken.length = done.length := by
    simpa using congrArg List.length taken
  refine ⟨metrics, present, ⟨waiting, ring, read ▸ whole⟩, ?_, ?_, ?_, counted.bytes, ?_, ?_, ?_, ?_⟩
  · rw [counted.events, accounts.kernel, ← whole, ring, sizes, ← BitVec.ofNat_add]
    simp
  · have none : (state.taken.countP fun item => (PacketLogEvent.ofItem item.2).isNone) = 0 := by
      have items : (state.taken.countP fun item => (PacketLogEvent.ofItem item.2).isNone) =
          (state.taken.map Prod.snd).countP fun bytes => (PacketLogEvent.ofItem bytes).isNone := by
        rw [List.countP_map]
        rfl
      rw [items, taken]
      simp [PacketLogEvent.ofItem_item]
    rw [counted.malformed, none]
    rfl
  · rw [counted.drops, counted.events, read, sizes]
  · intro protocol matchType
    rw [counted.blocked, value_tally, amount_ones, blockedTotal_new]
    exact BitVec.zero_add _
  · intro category protocol
    rw [counted.categories, value_tally, amount_ones]
    exact BitVec.zero_add _
  · intro category
    have length (event : PacketLogEvent) : (event.packetLen.setWidth 64).toNat = event.packetLen.toNat := by
      simp only [BitVec.toNat_setWidth]
      omega
    rw [counted.categoryBytes, value_tally, amount_map]
    simp only [length]
    exact BitVec.zero_add _
  · exact accounts.logged.trans (read ▸ whole ▸ List.sublist_append_left _ _)

end Conservation

section Refinement

def DaemonAction.arrivals : DaemonAction → List Arrival
  | .frame arrival => [arrival]
  | _ => []

structure Refines (state : Daemon) (pipeline : Metrics.Pipeline) : Prop where
  stats : state.stats = pipeline.traffic.telemetry.stats
  ring : state.ring = pipeline.traffic.telemetry.events.map PacketLogEvent.item
  metrics : state.metrics.map TelemetryMetrics.packets = some pipeline.metrics
  sampled : state.sampled = pipeline.sampled

variable {state : Daemon} {pipeline : Metrics.Pipeline} (refines : Refines state pipeline)

include refines

theorem Refines.frame (arrival : Arrival) : Refines (state.receive arrival) (pipeline.step (.frame arrival)) := by
  have telemetry : pipeline.traffic.telemetry = after pipeline.traffic.telemetry.events ⟨state.stats, []⟩ := by
    rw [after, refines.stats, List.append_nil]
  have received : (pipeline.step (.frame arrival)).traffic.telemetry =
      after pipeline.traffic.telemetry.events (firewall arrival.ctx arrival.maps ⟨state.stats, []⟩).2 := by
    change (firewall arrival.ctx arrival.maps pipeline.traffic.telemetry).2 = _
    conv_lhs => rw [telemetry, firewall_after]
  refine ⟨?_, ?_, refines.metrics, refines.sampled⟩
  · rw [received]
    rfl
  · rw [received, Daemon.receive, refines.ring]
    exact List.map_append.symm

theorem Refines.drain (snapshot : Option FireholMetadataRegistry) :
    Refines (state.drain snapshot) (pipeline.step .consume) := by
  obtain ⟨stats, ring, metrics, sampled⟩ := refines
  cases events : pipeline.traffic.telemetry.events with
  | nil =>
      have idle : pipeline.step .consume = pipeline := by
        simp [Metrics.Pipeline.step, Metrics.Pipeline.consume, events]
      have empty : state.ring = [] := by rw [ring, events, List.map_nil]
      rw [Daemon.drain_empty empty, idle]
      exact ⟨stats, ring, metrics, sampled⟩
  | cons event rest =>
      rw [events, List.map_cons] at ring
      rw [Daemon.drain_item ring, Metrics.Pipeline.step, Metrics.Pipeline.consume, events]
      refine ⟨stats, rfl, ?_, sampled⟩
      obtain ⟨held, present, packets⟩ := Option.map_eq_some_iff.mp metrics
      simp [present, recordItem_event (PacketLogEvent.ofItem_item event), recordEvent_packets, packets]

theorem Refines.publish : Refines state.publishStats (pipeline.step .publish) := by
  obtain ⟨stats, ring, metrics, sampled⟩ := refines
  unfold Metrics.Pipeline.step Metrics.Pipeline.publish Daemon.publishStats
  rw [← sampled]
  cases state.sampled with
  | none => exact ⟨stats, ring, metrics, sampled⟩
  | some read =>
      refine ⟨stats, ring, ?_, rfl⟩
      obtain ⟨held, present, packets⟩ := Option.map_eq_some_iff.mp metrics
      simp [present, packets]

theorem Refines.step (action : DaemonAction) : ∃ steps : List PipelineStep,
    steps.flatMap PipelineStep.arrivals = action.arrivals ∧
      Refines (state.step action) (run Metrics.Pipeline.step pipeline steps) := by
  have same := refines
  obtain ⟨stats, ring, metrics, sampled⟩ := refines
  cases action with
  | frame arrival => exact ⟨[.frame arrival], rfl, same.frame arrival⟩
  | publishStats => exact ⟨[.publish], rfl, same.publish⟩
  | sampleStats readable =>
      refine ⟨[.sample readable], rfl, stats, ring, metrics, ?_⟩
      cases readable
      · rfl
      · exact congrArg some stats
  | next =>
      unfold Daemon.step
      cases state.phase with
      | draining snapshot => exact ⟨[.consume], rfl, same.drain snapshot⟩
      | _ => exact ⟨[], rfl, same⟩
  | publishRegistry _ | setStatic _ | setLogDrops _ | sendShutdown =>
      exact ⟨[], rfl, stats, ring, metrics, sampled⟩
  | readable =>
      unfold Daemon.step
      cases state.phase <;> exact ⟨[], rfl, stats, ring, metrics, sampled⟩
  | pollError =>
      unfold Daemon.step
      cases state.phase with
      | waiting =>
          refine ⟨[], rfl, stats, ring, ?_, sampled⟩
          obtain ⟨held, present, packets⟩ := Option.map_eq_some_iff.mp metrics
          simp [present, TelemetryMetrics.recordError, packets]
      | _ => exact ⟨[], rfl, same⟩
  | stop =>
      unfold Daemon.step
      cases state.phase with
      | waiting =>
          dsimp only
          split_ifs <;> exact ⟨[], rfl, stats, ring, metrics, sampled⟩
      | _ => exact ⟨[], rfl, same⟩

omit refines

theorem daemon_refines_pipeline (registry : Option FireholMetadataRegistry) (quiet : Bool)
    (actions : List DaemonAction) :
    ∃ steps : List PipelineStep,
      steps.flatMap PipelineStep.arrivals = actions.flatMap DaemonAction.arrivals ∧
        Refines (run Daemon.step (.start registry (some .new) quiet) actions)
          (run Metrics.Pipeline.step .start steps) := by
  induction actions using List.reverseRecOn with
  | nil => exact ⟨[], rfl, rfl, rfl, rfl, rfl⟩
  | append_singleton actions action ih =>
      obtain ⟨steps, arrivals, refines⟩ := ih
      obtain ⟨more, added, refined⟩ := refines.step action
      refine ⟨steps ++ more, ?_, ?_⟩
      · rw [List.flatMap_append, arrivals, added, List.flatMap_append, List.flatMap_singleton]
      · rw [run_concat, run_append]
        exact refined

end Refinement

end ReputationFirewall.RingBuf
