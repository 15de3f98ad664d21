import ReputationFirewall.Shared.Runs
import ReputationFirewall.Xdp.Program

set_option autoImplicit false

namespace ReputationFirewall.Xdp

open BigEndian KeyedStore Maps NetAddr Runs

section Effects

def loggedEvent (ctx : XdpContext) (packetLen : BitVec 32) (inspection : Inspection) (rule : RuleValue)
    (matchType : UInt8) : PacketLogEvent where
  timestampNs := ctx.ktimeNs
  srcIp := inspection.srcIp
  dstIp := inspection.dstIp
  ruleId := rule.ruleId
  packetLen := packetLen
  ifindex := ctx.ingressIfindex
  srcPort := inspection.srcPort
  dstPort := inspection.dstPort
  protocol := inspection.protocol
  ipVersion := inspection.ipVersion
  action := actionDrop
  matchType := matchType
  pad := ipv4Octets 0 0 0 0

def Telemetry.output (telemetry : Telemetry) (accepts : Bool) (event : PacketLogEvent) : Telemetry :=
  if accepts then { telemetry with events := telemetry.events ++ [event] } else telemetry

inductive FrameEffect (ctx : XdpContext) (telemetry : Telemetry) (packetLen : BitVec 32) :
    Option Verdict → Prop
  | malformed : FrameEffect ctx telemetry packetLen none
  | accepted (inspection : Option Inspection) :
      FrameEffect ctx telemetry packetLen
        (some ⟨.pass, updateStats telemetry (packetLen.setWidth 64) false 0 false, inspection⟩)
  | dropped (inspection : Inspection) (rule : RuleValue) (matchType : UInt8) :
      FrameEffect ctx telemetry packetLen
        (some ⟨.drop, updateStats
          (telemetry.output ctx.ringbufAccepts (loggedEvent ctx packetLen inspection rule matchType))
          (packetLen.setWidth 64) true (packetLen.setWidth 64) ctx.ringbufAccepts, some inspection⟩)

variable (ctx : XdpContext) (maps : MapManager) (telemetry : Telemetry)

theorem enforce_effect (packetLen : BitVec 32) (inspection : Inspection)
    (found : Option (RuleValue × UInt8)) :
    FrameEffect ctx telemetry packetLen (some (enforce ctx telemetry packetLen inspection found)) := by
  cases found with
  | none => exact .accepted (some inspection)
  | some hit =>
      obtain ⟨rule, matchType⟩ := hit
      by_cases drops : rule.action = actionDrop
      · simp only [enforce, drops, if_true]
        exact .dropped inspection rule matchType
      · simp only [enforce, drops, if_false]
        exact .accepted (some inspection)

theorem tryFirewall_effect :
    FrameEffect ctx telemetry (BitVec.ofNat 32 ctx.data.length) (tryFirewall ctx maps telemetry) := by
  cases decided : tryFirewall ctx maps telemetry with
  | none => exact .malformed
  | some verdict =>
      rcases tryFirewall_cases decided with ⟨tags, few, four⟩ | ⟨tags, few, six⟩ | rfl
      · rw [tryFirewall_ipv4 few four, ipv4Verdict] at decided
        split_ifs at decided with bypass
        · exact Option.some.inj decided ▸ .accepted _
        · exact Option.some.inj decided ▸ enforce_effect ctx telemetry _ _ _
      · rw [tryFirewall_ipv6 few six, ipv6Verdict] at decided
        exact Option.some.inj decided ▸ enforce_effect ctx telemetry _ _ _
      · exact .accepted none

theorem firewall_telemetry :
    (firewall ctx maps telemetry).2 = telemetry ∨
      (firewall ctx maps telemetry).2 =
        updateStats telemetry ((BitVec.ofNat 32 ctx.data.length).setWidth 64) false 0 false ∨
      ∃ event, (firewall ctx maps telemetry).2 =
        updateStats (telemetry.output ctx.ringbufAccepts event) ((BitVec.ofNat 32 ctx.data.length).setWidth 64) true
          ((BitVec.ofNat 32 ctx.data.length).setWidth 64) ctx.ringbufAccepts := by
  have effect := tryFirewall_effect ctx maps telemetry
  unfold firewall
  generalize tryFirewall ctx maps telemetry = result at effect ⊢
  cases effect with
  | malformed => exact Or.inl rfl
  | accepted inspection => exact Or.inr (Or.inl rfl)
  | dropped inspection rule matchType => exact Or.inr (Or.inr ⟨_, rfl⟩)

@[simp] theorem Telemetry.zero_events : Telemetry.zero.events = [] := rfl

theorem enforce_events (packetLen : BitVec 32) (inspection : Inspection) (found : Option (RuleValue × UInt8)) :
    (enforce ctx telemetry packetLen inspection found).telemetry.events =
      telemetry.events ++ (enforce ctx .zero packetLen inspection found).telemetry.events := by
  unfold enforce
  split
  · split_ifs <;> simp [updateStats, accept]
  · simp [updateStats, accept]

theorem firewall_events :
    (firewall ctx maps telemetry).2.events = telemetry.events ++ (firewall ctx maps .zero).2.events := by
  have decides (offset : Nat) (etherType : BitVec 16) (packetLen : BitVec 32) :
      (dispatch ctx maps telemetry offset etherType packetLen).map (fun verdict => verdict.telemetry.events) =
        (dispatch ctx maps .zero offset etherType packetLen).map fun verdict =>
          telemetry.events ++ verdict.telemetry.events := by
    simp only [dispatch, processIpv4_eq, processIpv6_eq, ipv4Verdict, ipv6Verdict]
    split_ifs <;> simp [enforce_events ctx telemetry, accept, updateStats]
  have verdicts : (tryFirewall ctx maps telemetry).map (fun verdict => verdict.telemetry.events) =
      (tryFirewall ctx maps .zero).map fun verdict => telemetry.events ++ verdict.telemetry.events := by
    simp only [tryFirewall_eq]
    split_ifs <;> simp [decides]
  rw [firewall, firewall]
  cases first : tryFirewall ctx maps telemetry <;> cases second : tryFirewall ctx maps .zero <;>
    simp [first, second] at verdicts ⊢
  exact verdicts

theorem firewall_event {event : PacketLogEvent} (emitted : event ∈ (firewall ctx maps .zero).2.events) :
    (firewall ctx maps .zero).2.events = [event] := by
  obtain same | same | ⟨other, same⟩ := firewall_telemetry ctx maps .zero
  · simp [same] at emitted
  · simp [same, updateStats] at emitted
  · cases accepts : ctx.ringbufAccepts with
    | false => simp [same, accepts, updateStats, Telemetry.output] at emitted
    | true => simp_all [updateStats, Telemetry.output]

end Effects

section Traffic

structure Arrival where
  ctx : XdpContext
  maps : MapManager

structure Outcome where
  arrival : Arrival
  decided : Option XdpAction
  returned : XdpAction

def Outcome.delivered (outcome : Outcome) : Bool :=
  outcome.returned = .drop ∧ outcome.arrival.ctx.ringbufAccepts = true

-- The outcomes are ghost.
structure Traffic where
  telemetry : Telemetry
  outcomes : List Outcome

namespace Traffic

def start : Traffic := ⟨.zero, []⟩

def step (traffic : Traffic) (arrival : Arrival) : Traffic where
  telemetry := (firewall arrival.ctx arrival.maps traffic.telemetry).2
  outcomes := traffic.outcomes ++
    [⟨arrival, (tryFirewall arrival.ctx arrival.maps traffic.telemetry).map Verdict.action,
      (firewall arrival.ctx arrival.maps traffic.telemetry).1⟩]

def acceptedFrames (traffic : Traffic) : Nat := traffic.outcomes.countP (·.decided = some .pass)

def droppedFrames (traffic : Traffic) : Nat := traffic.outcomes.countP (·.returned = .drop)

def deliveredEvents (traffic : Traffic) : Nat := traffic.outcomes.countP Outcome.delivered

structure Balanced (traffic : Traffic) : Prop where
  packets : traffic.telemetry.stats.rxPackets =
    traffic.telemetry.stats.acceptedPackets + traffic.telemetry.stats.droppedPackets
  bytes : traffic.telemetry.stats.rxBytes =
    traffic.telemetry.stats.acceptedBytes + traffic.telemetry.stats.droppedBytes
  accepted : traffic.telemetry.stats.acceptedPackets = BitVec.ofNat 64 traffic.acceptedFrames
  dropped : traffic.telemetry.stats.droppedPackets = BitVec.ofNat 64 traffic.droppedFrames
  events : traffic.telemetry.stats.ringbufEvents = BitVec.ofNat 64 traffic.deliveredEvents

end Traffic

@[simp] theorem Telemetry.output_stats (telemetry : Telemetry) (accepts : Bool) (event : PacketLogEvent) :
    (telemetry.output accepts event).stats = telemetry.stats := by
  unfold Telemetry.output
  split_ifs <;> rfl

theorem Traffic.Balanced.step {traffic : Traffic} (balanced : traffic.Balanced) (arrival : Arrival) :
    (traffic.step arrival).Balanced := by
  have effect := tryFirewall_effect arrival.ctx arrival.maps traffic.telemetry
  unfold Traffic.step firewall
  generalize tryFirewall arrival.ctx arrival.maps traffic.telemetry = result at effect ⊢
  obtain ⟨packets, bytes, accepted, dropped, events⟩ := balanced
  cases effect with
  | malformed =>
      simp only [acceptedFrames, droppedFrames, deliveredEvents] at accepted dropped events
      constructor <;> simp [acceptedFrames, droppedFrames, deliveredEvents, Outcome.delivered, *]
  | accepted inspection =>
      simp only [acceptedFrames, droppedFrames, deliveredEvents] at accepted dropped events
      constructor <;>
        simp [updateStats, acceptedFrames, droppedFrames, deliveredEvents, Outcome.delivered, BitVec.ofNat_add, *] <;>
        ac_rfl
  | dropped inspection rule matchType =>
      simp only [acceptedFrames, droppedFrames, deliveredEvents] at accepted dropped events
      cases accepts : arrival.ctx.ringbufAccepts <;> constructor <;>
        simp [updateStats, acceptedFrames, droppedFrames, deliveredEvents, Outcome.delivered, BitVec.ofNat_add, *] <;>
        ac_rfl

theorem Traffic.balanced_run (arrivals : List Arrival) : (run Traffic.step .start arrivals).Balanced :=
  run_invariant _ _ _ (by constructor <;> rfl) (fun _ arrival balanced => balanced.step arrival) arrivals

theorem counters_conserved (arrivals : List Arrival) :
    (run Traffic.step .start arrivals).Balanced ∧
      StepsMeet Traffic.step .start
        (fun traffic arrival => tryFirewall arrival.ctx arrival.maps traffic.telemetry = none →
          (traffic.step arrival).telemetry.stats = traffic.telemetry.stats) arrivals := by
  refine ⟨Traffic.balanced_run arrivals, ?_⟩
  intro done arrival _ malformed
  simp [Traffic.step, firewall, malformed]

end Traffic

section LostEvents

def Arrival.Blocked (arrival : Arrival) : Prop :=
  ∃ tags, tags ≤ 1 ∧
    (CarriesIpv4 arrival.ctx.data tags ∧ ¬ ipv4Bypass arrival.ctx.data (l3Offset tags) ∧
        (∃ rule matchType, reputationLookup arrival.maps.ipv4Exact arrival.maps.ipv4Lpm
          (ipv4HeaderAt arrival.ctx.data (l3Offset tags)).srcAddr = some (rule, matchType) ∧
            rule.action = actionDrop) ∨
      CarriesIpv6 arrival.ctx.data tags ∧
        ∃ rule matchType, reputationLookup arrival.maps.ipv6Exact arrival.maps.ipv6Lpm
          (ipv6HeaderAt arrival.ctx.data (l3Offset tags)).srcAddr = some (rule, matchType) ∧
            rule.action = actionDrop)

open Classical in
noncomputable def lostEvents (arrivals : List Arrival) : Nat :=
  arrivals.countP fun arrival => arrival.Blocked ∧ arrival.ctx.ringbufAccepts = false

theorem lostEvents_concat (arrivals : List Arrival) (arrival : Arrival) :
    lostEvents (arrivals ++ [arrival]) = lostEvents arrivals + lostEvents [arrival] :=
  List.countP_append

theorem Traffic.step_dropped (traffic : Traffic) (arrival : Arrival) :
    (traffic.step arrival).droppedFrames + traffic.deliveredEvents =
      traffic.droppedFrames + (traffic.step arrival).deliveredEvents + lostEvents [arrival] := by
  have drops := firewall_drop_iff arrival.ctx arrival.maps traffic.telemetry
  by_cases blocked : arrival.Blocked <;> cases accepts : arrival.ctx.ringbufAccepts <;>
    simp [Traffic.step, Traffic.droppedFrames, Traffic.deliveredEvents, Outcome.delivered, lostEvents, blocked, accepts,
      drops.trans (Iff.refl arrival.Blocked)] <;> omega

theorem run_dropped (arrivals : List Arrival) :
    (run Traffic.step .start arrivals).droppedFrames =
      (run Traffic.step .start arrivals).deliveredEvents + lostEvents arrivals := by
  induction arrivals using List.reverseRecOn with
  | nil => rfl
  | append_singleton arrivals arrival ih =>
      rw [run_concat, lostEvents_concat]
      have stepped := (run Traffic.step .start arrivals).step_dropped arrival
      omega

theorem firewall_ringbufDrops (ctx : XdpContext) (maps : MapManager) (telemetry : Telemetry) :
    (firewall ctx maps telemetry).2.stats.ringbufDrops = telemetry.stats.ringbufDrops := by
  obtain same | same | ⟨event, same⟩ := firewall_telemetry ctx maps telemetry
  · rw [same]
  · rw [same]
    rfl
  · rw [same]
    cases accepts : ctx.ringbufAccepts <;> simp [updateStats]

theorem run_ringbufDrops (arrivals : List Arrival) :
    (run Traffic.step .start arrivals).telemetry.stats.ringbufDrops = 0 :=
  run_invariant Traffic.step (·.telemetry.stats.ringbufDrops = 0) .start rfl
    (fun _ arrival unset => (firewall_ringbufDrops arrival.ctx arrival.maps _).trans unset) arrivals

theorem events_cover_drops_iff (arrivals : List Arrival) :
    (run Traffic.step .start arrivals).telemetry.stats.ringbufEvents +
          (run Traffic.step .start arrivals).telemetry.stats.ringbufDrops =
        (run Traffic.step .start arrivals).telemetry.stats.droppedPackets ↔
      2 ^ 64 ∣ lostEvents arrivals := by
  have balanced := Traffic.balanced_run arrivals
  rw [run_ringbufDrops, balanced.events, balanced.dropped, run_dropped, ← BitVec.toNat_inj]
  simp only [BitVec.toNat_ofNat, BitVec.toNat_add, BitVec.ofNat_eq_ofNat]
  omega

-- A TCP segment of 198.51.100.9 without its transport header.
def listedFrame : Frame :=
  List.replicate 12 0 ++ [0x08, 0x00, 0x45] ++ List.replicate 8 0 ++ [6, 0, 0, 198, 51, 100, 9, 10, 0, 0, 1]

def listedMaps : MapManager :=
  { MapManager.new with ipv4Exact := (∅ : Store (Octets 4) RuleValue).insert (ipv4Octets 198 51 100 9) (.drop 1) }

theorem full_ringbuf_uncounted :
    let stats := (run Traffic.step .start [⟨⟨listedFrame, 0, 0, false⟩, listedMaps⟩]).telemetry.stats
    stats.droppedPackets = 1 ∧ stats.ringbufEvents = 0 ∧ stats.ringbufDrops = 0 := by
  decide

end LostEvents

end ReputationFirewall.Xdp
