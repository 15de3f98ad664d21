import ReputationFirewall.Metrics.TopN
import ReputationFirewall.RingBuf.Consumer
import ReputationFirewall.Xdp.Counters

set_option autoImplicit false

namespace ReputationFirewall.Metrics

open CounterVec KeyedStore RingBuf Runs Xdp

section Model

inductive PacketAction where
  | accept
  | drop
  deriving DecidableEq

def protocolName (event : PacketLogEvent) : List Char :=
  if event.protocol = protoTcp then "TCP".toList else if event.protocol = protoUdp then "UDP".toList
  else if event.protocol = 1 then "ICMP".toList else if event.protocol = 58 then "ICMPv6".toList
  else "UNKNOWN".toList

def matchTypeName (event : PacketLogEvent) : List Char :=
  if event.matchType = matchExactHash then "Exact HashMap".toList
  else if event.matchType = matchLpmTrie then "LPM Trie CIDR".toList else "None".toList

structure PacketMetrics where
  packetsTotal : Counters PacketAction 64
  packetsBlockedTotal : Counters (List Char × List Char) 64
  packetsAcceptedTotal : BitVec 64
  bytesTotal : Counters PacketAction 64
  ringbufEventsTotal : BitVec 64
  topBlockedIps : BlockedIpTopN (List Char)

namespace PacketMetrics

def new : PacketMetrics where
  packetsTotal := withLabelValues (withLabelValues ∅ .accept) .drop
  packetsBlockedTotal := ["TCP", "UDP", "ICMP"].foldl
    (fun counters protocol => withLabelValues counters (protocol.toList, "Exact HashMap".toList)) ∅
  packetsAcceptedTotal := 0
  bytesTotal := withLabelValues (withLabelValues ∅ .accept) .drop
  ringbufEventsTotal := 0
  topBlockedIps := .new 100 .packets

def recordRingbufEvent (metrics : PacketMetrics) : PacketMetrics :=
  { metrics with ringbufEventsTotal := metrics.ringbufEventsTotal + 1 }

def recordBlockedPacket (metrics : PacketMetrics) (protocol matchType : List Char) (byteLen : BitVec 64) :
    PacketMetrics :=
  { metrics with
    packetsTotal := incBy metrics.packetsTotal .drop 1
    packetsBlockedTotal := incBy metrics.packetsBlockedTotal (protocol, matchType) 1
    bytesTotal := incBy metrics.bytesTotal .drop byteLen }

def recordBlockedIp (metrics : PacketMetrics) (ip : NetAddr.IpAddr) (protocol : BlockedProtocol)
    (bytes : BitVec 64) : PacketMetrics :=
  { metrics with topBlockedIps := metrics.topBlockedIps.recordEvent ip protocol bytes }

def recordEvent (metrics : PacketMetrics) (event : PacketLogEvent) : PacketMetrics :=
  let byteLen := event.packetLen.setWidth 64
  ((metrics.recordRingbufEvent.recordBlockedPacket (protocolName event) (matchTypeName event) byteLen)).recordBlockedIp
    (srcAddr event) (.fromU8 event.protocol) byteLen

def updateFromEbpfStats (metrics : PacketMetrics) (stats : FirewallStats) : PacketMetrics :=
  let metrics := if metrics.packetsAcceptedTotal < stats.acceptedPackets then
      let diff := stats.acceptedPackets - metrics.packetsAcceptedTotal
      { metrics with
        packetsAcceptedTotal := metrics.packetsAcceptedTotal + diff
        packetsTotal := incBy metrics.packetsTotal .accept diff }
    else metrics
  let current := value metrics.bytesTotal .accept
  if current < stats.acceptedBytes then
    { metrics with bytesTotal := incBy metrics.bytesTotal .accept (stats.acceptedBytes - current) }
  else metrics

end PacketMetrics

structure Pipeline where
  traffic : Traffic
  metrics : PacketMetrics
  sampled : Option FirewallStats
  -- ghost: what the last tick has published
  published : Option FirewallStats

-- A tick reads the counters and publishes them later; frames and events may come in between.
inductive PipelineStep where
  | frame (arrival : Arrival)
  | consume
  | sample (readable : Bool)
  | publish

namespace Pipeline

def start : Pipeline := ⟨.start, .new, none, none⟩

def consume (pipeline : Pipeline) : Pipeline :=
  match pipeline.traffic.telemetry.events with
  | [] => pipeline
  | event :: rest =>
      { pipeline with
        traffic := { pipeline.traffic with telemetry := { pipeline.traffic.telemetry with events := rest } }
        metrics := pipeline.metrics.recordEvent event }

-- A failed read of the map is taken for counters of zero.
def getStats (pipeline : Pipeline) (readable : Bool) : FirewallStats :=
  if readable then pipeline.traffic.telemetry.stats else Telemetry.zero.stats

def publish (pipeline : Pipeline) : Pipeline :=
  match pipeline.sampled with
  | none => pipeline
  | some stats =>
      { pipeline with
        metrics := pipeline.metrics.updateFromEbpfStats stats
        sampled := none
        published := some stats }

def step (pipeline : Pipeline) : PipelineStep → Pipeline
  | .frame arrival => { pipeline with traffic := pipeline.traffic.step arrival }
  | .consume => pipeline.consume
  | .sample readable => { pipeline with sampled := some (pipeline.getStats readable) }
  | .publish => pipeline.publish

end Pipeline

end Model

section Updates

variable (metrics : PacketMetrics) (stats : FirewallStats)

theorem recordEvent_totals (event : PacketLogEvent) :
    (metrics.recordEvent event).packetsTotal = incBy metrics.packetsTotal .drop 1 ∧
      (metrics.recordEvent event).packetsAcceptedTotal = metrics.packetsAcceptedTotal := ⟨rfl, rfl⟩

theorem update_accepted :
    (metrics.updateFromEbpfStats stats).packetsAcceptedTotal =
      higher metrics.packetsAcceptedTotal stats.acceptedPackets := by
  unfold PacketMetrics.updateFromEbpfStats higher
  dsimp only
  split_ifs <;> simp

theorem update_packetsTotal :
    (metrics.updateFromEbpfStats stats).packetsTotal =
      if metrics.packetsAcceptedTotal < stats.acceptedPackets then
        incBy metrics.packetsTotal .accept (stats.acceptedPackets - metrics.packetsAcceptedTotal)
      else metrics.packetsTotal := by
  unfold PacketMetrics.updateFromEbpfStats
  dsimp only
  split_ifs <;> rfl

end Updates

section Flow

theorem firewall_output (ctx : XdpContext) (maps : Maps.MapManager) (telemetry : Telemetry) :
    ∃ sent : BitVec 64,
      (firewall ctx maps telemetry).2.stats.ringbufEvents = telemetry.stats.ringbufEvents + sent ∧
        BitVec.ofNat 64 (firewall ctx maps telemetry).2.events.length =
          BitVec.ofNat 64 telemetry.events.length + sent := by
  obtain same | same | ⟨event, same⟩ := firewall_telemetry ctx maps telemetry
  · exact ⟨0, by simp [same]⟩
  · exact ⟨0, by simp [same, updateStats]⟩
  · rw [same]
    cases accepts : ctx.ringbufAccepts
    · exact ⟨0, by simp [updateStats, Telemetry.output]⟩
    · exact ⟨1, by simp [updateStats, Telemetry.output, BitVec.ofNat_add]⟩

structure Pipeline.Flows (pipeline : Pipeline) : Prop where
  balanced : pipeline.traffic.Balanced
  drops : value pipeline.metrics.packetsTotal .drop + BitVec.ofNat 64 pipeline.traffic.telemetry.events.length =
    pipeline.traffic.telemetry.stats.ringbufEvents
  accepts : value pipeline.metrics.packetsTotal .accept = pipeline.metrics.packetsAcceptedTotal
  behind : pipeline.metrics.packetsAcceptedTotal.toNat ≤ pipeline.traffic.acceptedFrames
  sampled : ∀ stats ∈ pipeline.sampled, stats.acceptedPackets.toNat ≤ pipeline.traffic.acceptedFrames
  published : ∀ stats ∈ pipeline.published, stats.acceptedPackets ≤ pipeline.metrics.packetsAcceptedTotal

theorem Pipeline.flows_start : Pipeline.start.Flows := by
  refine ⟨by constructor <;> rfl, rfl, rfl, Nat.zero_le _, ?_, ?_⟩ <;> simp [start]

theorem acceptedFrames_step (traffic : Traffic) (arrival : Arrival) :
    traffic.acceptedFrames ≤ (traffic.step arrival).acceptedFrames := by
  simp [Traffic.acceptedFrames, Traffic.step]

variable {pipeline : Pipeline} (flows : pipeline.Flows)

include flows

theorem Pipeline.Flows.frame (arrival : Arrival) : (pipeline.step (.frame arrival)).Flows := by
  have more := acceptedFrames_step pipeline.traffic arrival
  refine ⟨flows.balanced.step arrival, ?_, flows.accepts, flows.behind.trans more,
    fun stats read => (flows.sampled stats read).trans more, flows.published⟩
  obtain ⟨sent, counted, queued⟩ := firewall_output arrival.ctx arrival.maps pipeline.traffic.telemetry
  change value pipeline.metrics.packetsTotal .drop + BitVec.ofNat 64
    (firewall arrival.ctx arrival.maps pipeline.traffic.telemetry).2.events.length = _
  rw [queued, ← BitVec.add_assoc, flows.drops]
  exact counted.symm

theorem Pipeline.Flows.consume : pipeline.consume.Flows := by
  unfold Pipeline.consume
  cases waiting : pipeline.traffic.telemetry.events with
  | nil => exact flows
  | cons event rest =>
      have drops := flows.drops
      rw [waiting] at drops
      obtain ⟨packets, bytes, accepted, dropped, events⟩ := flows.balanced
      refine ⟨⟨packets, bytes, accepted, dropped, events⟩, ?_, ?_, flows.behind, flows.sampled, flows.published⟩
      · simp [recordEvent_totals, ← drops, BitVec.ofNat_add]
        ac_rfl
      · simp [recordEvent_totals, flows.accepts]

theorem Pipeline.Flows.sample (readable : Bool) : (pipeline.step (.sample readable)).Flows := by
  refine ⟨flows.balanced, flows.drops, flows.accepts, flows.behind, ?_, flows.published⟩
  intro stats read
  obtain rfl : pipeline.getStats readable = stats := Option.mem_some.mp read
  cases readable
  · exact Nat.zero_le _
  · simp only [Pipeline.getStats, if_true, flows.balanced.accepted, BitVec.toNat_ofNat]
    exact Nat.mod_le _ _

theorem Pipeline.Flows.publish : pipeline.publish.Flows := by
  unfold Pipeline.publish
  cases read : pipeline.sampled with
  | none => exact flows
  | some stats =>
      have within := flows.sampled stats read
      refine ⟨flows.balanced, ?_, ?_, ?_, by simp, ?_⟩
      · rw [update_packetsTotal]
        split_ifs <;> simp [← flows.drops]
      · rw [update_packetsTotal, update_accepted, higher]
        split_ifs
        · rw [value_incBy, flows.accepts, add_difference]
        · exact flows.accepts
      · rw [update_accepted, higher]
        split_ifs
        · exact within
        · exact flows.behind
      · intro published same
        obtain rfl := Option.mem_some.mp same
        rw [update_accepted, higher]
        split_ifs with grows
        · exact BitVec.le_refl _
        · exact BitVec.not_lt.mp grows

theorem Pipeline.Flows.step (action : PipelineStep) : (pipeline.step action).Flows := by
  cases action with
  | frame arrival => exact flows.frame arrival
  | consume => exact flows.consume
  | sample readable => exact flows.sample readable
  | publish => exact flows.publish

end Flow

section Totals

def PipelineStep.arrivals : PipelineStep → List Arrival
  | .frame arrival => [arrival]
  | .consume | .sample _ | .publish => []

theorem step_outcomes (pipeline : Pipeline) {step : PipelineStep} (none : step.arrivals = []) :
    (pipeline.step step).traffic.outcomes = pipeline.traffic.outcomes := by
  cases step with
  | frame arrival => simp [PipelineStep.arrivals] at none
  | consume =>
      unfold Pipeline.step Pipeline.consume
      cases pipeline.traffic.telemetry.events <;> rfl
  | sample readable => rfl
  | publish =>
      unfold Pipeline.step Pipeline.publish
      cases pipeline.sampled <;> rfl

theorem pipeline_dropped (steps : List PipelineStep) :
    (run Pipeline.step .start steps).traffic.droppedFrames =
      (run Pipeline.step .start steps).traffic.deliveredEvents +
        lostEvents (steps.flatMap PipelineStep.arrivals) := by
  induction steps using List.reverseRecOn with
  | nil => rfl
  | append_singleton steps step ih =>
      rw [run_concat, List.flatMap_append, List.flatMap_singleton]
      generalize run Pipeline.step .start steps = pipeline at ih ⊢
      cases arrives : step.arrivals with
      | nil =>
          rw [List.append_nil, Traffic.droppedFrames, Traffic.deliveredEvents, step_outcomes pipeline arrives]
          exact ih
      | cons arrival rest =>
          cases step with
          | frame arrival =>
              obtain ⟨rfl, rfl⟩ := List.cons.inj arrives
              have stepped := pipeline.traffic.step_dropped arrival
              rw [lostEvents_concat]
              simp only [Pipeline.step]
              omega
          | _ => simp [PipelineStep.arrivals] at arrives

def Pipeline.Settled (pipeline : Pipeline) : Prop :=
  pipeline.traffic.telemetry.events = [] ∧ pipeline.published = some pipeline.traffic.telemetry.stats

theorem Pipeline.Flows.accepted {pipeline : Pipeline} (flows : pipeline.Flows) (settled : pipeline.Settled)
    (noWrap : pipeline.traffic.acceptedFrames < 2 ^ 64) :
    value pipeline.metrics.packetsTotal .accept = pipeline.traffic.telemetry.stats.acceptedPackets := by
  rw [flows.accepts]
  refine BitVec.le_antisymm ?_ (flows.published _ settled.2)
  rw [BitVec.le_def, flows.balanced.accepted, BitVec.toNat_ofNat, Nat.mod_eq_of_lt noWrap]
  exact flows.behind

theorem packet_totals_match_iff (steps : List PipelineStep)
    (noWrap : (run Pipeline.step .start steps).traffic.acceptedFrames +
      (run Pipeline.step .start steps).traffic.droppedFrames < 2 ^ 64)
    (settled : (run Pipeline.step .start steps).Settled) :
    (value (run Pipeline.step .start steps).metrics.packetsTotal .accept +
          value (run Pipeline.step .start steps).metrics.packetsTotal .drop =
        (run Pipeline.step .start steps).traffic.telemetry.stats.rxPackets ∧
      value (run Pipeline.step .start steps).metrics.packetsTotal .drop =
        (run Pipeline.step .start steps).traffic.telemetry.stats.droppedPackets) ↔
      lostEvents (steps.flatMap PipelineStep.arrivals) = 0 := by
  have flows := run_invariant _ _ _ Pipeline.flows_start (fun _ step flows => flows.step step) steps
  have lost := pipeline_dropped steps
  generalize run Pipeline.step .start steps = pipeline at *
  have accepted := flows.accepted settled (by omega)
  have drops := flows.drops
  rw [settled.1, List.length_nil, BitVec.add_zero, flows.balanced.events] at drops
  rw [accepted, flows.balanced.packets, drops, flows.balanced.dropped]
  have same : BitVec.ofNat 64 pipeline.traffic.deliveredEvents = BitVec.ofNat 64 pipeline.traffic.droppedFrames ↔
      lostEvents (steps.flatMap PipelineStep.arrivals) = 0 := by
    rw [← BitVec.toNat_inj, BitVec.toNat_ofNat, BitVec.toNat_ofNat]
    omega
  rw [← same]
  constructor
  · exact fun totals => totals.2
  · intro equal
    exact ⟨by rw [equal], equal⟩

def listedSteps (ringbufAccepts : Bool) : List PipelineStep :=
  [.frame ⟨⟨Xdp.listedFrame, 0, 0, ringbufAccepts⟩, Xdp.listedMaps⟩, .consume, .sample true, .publish]

theorem delivered_event_matches :
    (run Pipeline.step .start (listedSteps true)).Settled ∧
      value (run Pipeline.step .start (listedSteps true)).metrics.packetsTotal .drop =
        (run Pipeline.step .start (listedSteps true)).traffic.telemetry.stats.droppedPackets := by
  have settled : (run Pipeline.step .start (listedSteps true)).Settled := ⟨by decide, by decide⟩
  exact ⟨settled, ((packet_totals_match_iff (listedSteps true) (by decide) settled).mpr
    (by simp [listedSteps, PipelineStep.arrivals, lostEvents])).2⟩

theorem lost_event_not_exported :
    (run Pipeline.step .start (listedSteps false)).Settled ∧
      (run Pipeline.step .start (listedSteps false)).traffic.telemetry.stats.rxPackets = 1 ∧
        value (run Pipeline.step .start (listedSteps false)).metrics.packetsTotal .accept = 0 ∧
          value (run Pipeline.step .start (listedSteps false)).metrics.packetsTotal .drop = 0 :=
  ⟨⟨by decide, by decide⟩, by decide, by decide, by decide⟩

end Totals

end ReputationFirewall.Metrics
