import ReputationFirewall.Xdp.Headers
import ReputationFirewall.Maps.MapManager
import ReputationFirewall.Shared.NetAddr

set_option autoImplicit false

namespace ReputationFirewall.Xdp

open BigEndian KeyedStore NetAddr Maps

-- What one invocation sees: the frame and the answers of the kernel helpers it calls.
structure XdpContext where
  data : Frame
  ingressIfindex : BitVec 32
  ktimeNs : BitVec 64
  ringbufAccepts : Bool

inductive XdpAction where
  | drop
  | pass
  deriving DecidableEq

structure Telemetry where
  stats : FirewallStats
  events : List PacketLogEvent
  deriving DecidableEq

def Telemetry.zero : Telemetry := ⟨⟨0, 0, 0, 0, 0, 0, 0, 0⟩, []⟩

def updateStats (telemetry : Telemetry) (rxBytes : BitVec 64) (dropped : Bool)
    (droppedBytes : BitVec 64) (ringbufEmitted : Bool) : Telemetry :=
  let stats := telemetry.stats
  let received := { stats with
    rxPackets := stats.rxPackets + 1
    rxBytes := stats.rxBytes + rxBytes }
  let decided := if dropped then
      { received with
        droppedPackets := received.droppedPackets + 1
        droppedBytes := received.droppedBytes + droppedBytes }
    else
      { received with
        acceptedPackets := received.acceptedPackets + 1
        acceptedBytes := received.acceptedBytes + rxBytes }
  let emitted := if ringbufEmitted then
      { decided with ringbufEvents := decided.ringbufEvents + 1 }
    else decided
  { telemetry with stats := emitted }

structure Inspection where
  ipVersion : UInt8
  srcIp : Octets 16
  dstIp : Octets 16
  protocol : UInt8
  srcPort : BitVec 16
  dstPort : BitVec 16
  deriving DecidableEq

-- `inspection` is ghost: it is empty for the frames passed on without looking at an IP header.
structure Verdict where
  action : XdpAction
  telemetry : Telemetry
  inspection : Option Inspection
  deriving DecidableEq

def ptrAt (size : Nat) (data : Frame) (offset : Nat) : Option (Octets size) :=
  if offset + size > data.length then none else some (readUnaligned size data offset)

def extractPorts (data : Frame) (l4Offset : Nat) (protocol : UInt8) : BitVec 16 × BitVec 16 :=
  if protocol = protoTcp ∨ protocol = protoUdp then
    match (ptrAt 4 data l4Offset).map TransportPorts.decode with
    | some ports => (fromBeBytes ports.srcPort, fromBeBytes ports.dstPort)
    | none => (0, 0)
  else (0, 0)

-- GitHub infrastructure: five networks and two single Azure frontends.
def isGithubIpv4 (ip : Octets 4) : Bool :=
  (ip.get 0 == 140 && ip.get 1 == 82 && ip.get 2 &&& 0xF0 == 112) ||
  (ip.get 0 == 192 && ip.get 1 == 30 && ip.get 2 &&& 0xFC == 252) ||
  (ip.get 0 == 185 && ip.get 1 == 199 && ip.get 2 &&& 0xFC == 108) ||
  (ip.get 0 == 143 && ip.get 1 == 55 && ip.get 2 &&& 0xF0 == 64) ||
  (ip.get 0 == 20 && ip.get 1 == 201 && ip.get 2 == 28 && ip.get 3 == 151) ||
  (ip.get 0 == 20 && ip.get 1 == 205 && ip.get 2 == 243 && ip.get 3 == 166) ||
  (ip.get 0 == 4 && ip.get 1 == 237 && (ip.get 2 == 22 || ip.get 2 == 23))

def prefixMatches {n : Nat} (addr : Octets n) (key : Nat × Octets n) : Bool :=
  decide (key.1 ≤ 8 * n) && decide (SamePrefix key.1 key.2 addr)

def lpmGet {n : Nat} (map : Store (Nat × Octets n) RuleValue) (addr : Octets n) : Option RuleValue :=
  bestMatch (prefixMatches addr) Prod.fst map

def reputationLookup {n : Nat} (exact : Store (Octets n) RuleValue)
    (lpm : Store (Nat × Octets n) RuleValue) (srcIp : Octets n) : Option (RuleValue × UInt8) :=
  match exact.lookup srcIp with
  | some rule => some (rule, matchExactHash)
  | none => (lpmGet lpm srcIp).map fun rule => (rule, matchLpmTrie)

def accept (telemetry : Telemetry) (packetLen : BitVec 32) (inspection : Option Inspection) :
    Verdict :=
  ⟨.pass, updateStats telemetry (packetLen.setWidth 64) false 0 false, inspection⟩

def enforce (ctx : XdpContext) (telemetry : Telemetry) (packetLen : BitVec 32)
    (inspection : Inspection) : Option (RuleValue × UInt8) → Verdict
  | some (rule, matchType) =>
      if rule.action = actionDrop then
        let event : PacketLogEvent :=
          { timestampNs := ctx.ktimeNs
            srcIp := inspection.srcIp
            dstIp := inspection.dstIp
            ruleId := rule.ruleId
            packetLen
            ifindex := ctx.ingressIfindex
            srcPort := inspection.srcPort
            dstPort := inspection.dstPort
            protocol := inspection.protocol
            ipVersion := inspection.ipVersion
            action := actionDrop
            matchType
            pad := #v[0, 0, 0, 0] }
        let output := if ctx.ringbufAccepts then
            { telemetry with events := telemetry.events ++ [event] }
          else telemetry
        ⟨.drop, updateStats output (packetLen.setWidth 64) true (packetLen.setWidth 64)
          ctx.ringbufAccepts, some inspection⟩
      else accept telemetry packetLen (some inspection)
  | none => accept telemetry packetLen (some inspection)

def dnsBypass (protocol : UInt8) (srcPort : BitVec 16) : Prop :=
  (protocol = protoUdp ∨ protocol = protoTcp) ∧ srcPort = 53

def githubBypass (protocol : UInt8) (srcPort : BitVec 16) (srcIp : Octets 4) : Prop :=
  protocol = protoTcp ∧ srcPort = 443 ∧ isGithubIpv4 srcIp = true

instance (protocol : UInt8) (srcPort : BitVec 16) : Decidable (dnsBypass protocol srcPort) :=
  inferInstanceAs (Decidable (_ ∧ _))

instance (protocol : UInt8) (srcPort : BitVec 16) (srcIp : Octets 4) :
    Decidable (githubBypass protocol srcPort srcIp) :=
  inferInstanceAs (Decidable (_ ∧ _))

def processIpv4 (ctx : XdpContext) (maps : MapManager) (telemetry : Telemetry) (offset : Nat)
    (packetLen : BitVec 32) : Option Verdict :=
  match (ptrAt 20 ctx.data offset).map Ipv4Header.decode with
  | none => none
  | some ipHdr =>
      let ihl := ipHdr.ihl
      if ihl < 20 then none else
      let l4Offset := offset + ihl
      if l4Offset > ctx.data.length then none else
      let ports := extractPorts ctx.data l4Offset ipHdr.protocol
      let inspection : Inspection :=
        { ipVersion := 4, srcIp := padded ipHdr.srcAddr, dstIp := padded ipHdr.dstAddr
          protocol := ipHdr.protocol, srcPort := ports.1, dstPort := ports.2 }
      if dnsBypass ipHdr.protocol ports.1 then some (accept telemetry packetLen (some inspection))
      else if githubBypass ipHdr.protocol ports.1 ipHdr.srcAddr then
        some (accept telemetry packetLen (some inspection))
      else some (enforce ctx telemetry packetLen inspection
        (reputationLookup maps.ipv4Exact maps.ipv4Lpm ipHdr.srcAddr))

-- Neither the version field nor a bypass is looked at here.
def processIpv6 (ctx : XdpContext) (maps : MapManager) (telemetry : Telemetry) (offset : Nat)
    (packetLen : BitVec 32) : Option Verdict :=
  match (ptrAt 40 ctx.data offset).map Ipv6Header.decode with
  | none => none
  | some ipHdr =>
      let l4Offset := offset + 40
      if l4Offset > ctx.data.length then none else
      let ports := extractPorts ctx.data l4Offset ipHdr.nextHeader
      let inspection : Inspection :=
        { ipVersion := 6, srcIp := ipHdr.srcAddr, dstIp := ipHdr.dstAddr
          protocol := ipHdr.nextHeader, srcPort := ports.1, dstPort := ports.2 }
      some (enforce ctx telemetry packetLen inspection
        (reputationLookup maps.ipv6Exact maps.ipv6Lpm ipHdr.srcAddr))

def dispatch (ctx : XdpContext) (maps : MapManager) (telemetry : Telemetry) (offset : Nat)
    (etherType : BitVec 16) (packetLen : BitVec 32) : Option Verdict :=
  if etherType = ethPIp then processIpv4 ctx maps telemetry offset packetLen
  else if etherType = ethPIpv6 then processIpv6 ctx maps telemetry offset packetLen
  else some (accept telemetry packetLen none)

def tryFirewall (ctx : XdpContext) (maps : MapManager) (telemetry : Telemetry) : Option Verdict :=
  let packetLen := BitVec.ofNat 32 ctx.data.length
  match (ptrAt 14 ctx.data 0).map EthernetHeader.decode with
  | none => none
  | some ethHdr =>
      let etherType : BitVec 16 := fromBeBytes ethHdr.etherType
      if isVlan etherType then
        match ptrAt 4 ctx.data ethHdrLen with
        | none => none
        | some vlanBytes =>
            dispatch ctx maps telemetry (ethHdrLen + 4)
              (fromBeBytes #v[vlanBytes.get 2, vlanBytes.get 3]) packetLen
      else dispatch ctx maps telemetry ethHdrLen etherType packetLen

-- A malformed or truncated frame is left to the kernel, and no counter moves.
def firewall (ctx : XdpContext) (maps : MapManager) (telemetry : Telemetry) :
    XdpAction × Telemetry :=
  match tryFirewall ctx maps telemetry with
  | some verdict => (verdict.action, verdict.telemetry)
  | none => (.pass, telemetry)

section Reading

theorem ptrAt_eq (size : Nat) (data : Frame) (offset : Nat) :
    ptrAt size data offset =
      if offset + size ≤ data.length then some (readUnaligned size data offset) else none := by
  rw [ptrAt]
  split_ifs <;> first | rfl | omega

def ethernetHeaderAt (data : Frame) : EthernetHeader :=
  EthernetHeader.decode (readUnaligned 14 data 0)

theorem ethernetHeaderAt_type (data : Frame) :
    fromBeBytes (ethernetHeaderAt data).etherType = etherTypeAt data 12 := by
  simp [ethernetHeaderAt, EthernetHeader.decode, etherTypeAt]

theorem vlan_inner (data : Frame) (offset : Nat) :
    fromBeBytes (#v[(readUnaligned 4 data offset).get 2, (readUnaligned 4 data offset).get 3] : Octets 2) =
      etherTypeAt data (offset + 2) := by
  simp only [readUnaligned_get]
  rfl

theorem readEthernet_eq (data : Frame) :
    (ptrAt 14 data 0).map EthernetHeader.decode =
      if 14 ≤ data.length then some (ethernetHeaderAt data) else none := by
  rw [ptrAt_eq, apply_ite (Option.map _), Nat.zero_add]
  rfl

theorem readIpv4_eq (data : Frame) (offset : Nat) :
    (ptrAt 20 data offset).map Ipv4Header.decode =
      if offset + 20 ≤ data.length then some (ipv4HeaderAt data offset) else none := by
  rw [ptrAt_eq, apply_ite (Option.map _)]
  rfl

theorem readIpv6_eq (data : Frame) (offset : Nat) :
    (ptrAt 40 data offset).map Ipv6Header.decode =
      if offset + 40 ≤ data.length then some (ipv6HeaderAt data offset) else none := by
  rw [ptrAt_eq, apply_ite (Option.map _)]
  rfl

theorem extractPorts_eq (data : Frame) (offset : Nat) (protocol : UInt8) :
    extractPorts data offset protocol = portsAt data offset protocol := by
  by_cases transport : protocol = protoTcp ∨ protocol = protoUdp <;>
    by_cases room : offset + 4 ≤ data.length <;>
    simp [extractPorts, portsAt, ptrAt_eq, transport, room, TransportPorts.decode]

def ipv4Inspection (data : Frame) (offset : Nat) : Inspection :=
  let header := ipv4HeaderAt data offset
  let ports := portsAt data (offset + header.ihl) header.protocol
  { ipVersion := 4, srcIp := padded header.srcAddr, dstIp := padded header.dstAddr
    protocol := header.protocol, srcPort := ports.1, dstPort := ports.2 }

def ipv6Inspection (data : Frame) (offset : Nat) : Inspection :=
  let header := ipv6HeaderAt data offset
  let ports := portsAt data (offset + 40) header.nextHeader
  { ipVersion := 6, srcIp := header.srcAddr, dstIp := header.dstAddr
    protocol := header.nextHeader, srcPort := ports.1, dstPort := ports.2 }

end Reading

section Verdicts

variable (ctx : XdpContext) (maps : MapManager) (telemetry : Telemetry)

def ipv4Bypass (data : Frame) (offset : Nat) : Prop :=
  dnsBypass (ipv4Inspection data offset).protocol (ipv4Inspection data offset).srcPort ∨
    githubBypass (ipv4Inspection data offset).protocol (ipv4Inspection data offset).srcPort
      (ipv4HeaderAt data offset).srcAddr

instance (data : Frame) (offset : Nat) : Decidable (ipv4Bypass data offset) :=
  inferInstanceAs (Decidable (_ ∨ _))

def ipv4Verdict (offset : Nat) (packetLen : BitVec 32) : Verdict :=
  let inspection := ipv4Inspection ctx.data offset
  if ipv4Bypass ctx.data offset then accept telemetry packetLen (some inspection)
  else enforce ctx telemetry packetLen inspection
    (reputationLookup maps.ipv4Exact maps.ipv4Lpm (ipv4HeaderAt ctx.data offset).srcAddr)

def ipv6Verdict (offset : Nat) (packetLen : BitVec 32) : Verdict :=
  enforce ctx telemetry packetLen (ipv6Inspection ctx.data offset)
    (reputationLookup maps.ipv6Exact maps.ipv6Lpm (ipv6HeaderAt ctx.data offset).srcAddr)

theorem enforce_inspection (packetLen : BitVec 32) (inspection : Inspection)
    (found : Option (RuleValue × UInt8)) :
    (enforce ctx telemetry packetLen inspection found).inspection = some inspection := by
  cases found with
  | none => rfl
  | some hit => by_cases drops : hit.1.action = actionDrop <;> simp [enforce, accept, drops]

theorem ipv4Verdict_inspection (offset : Nat) (packetLen : BitVec 32) :
    (ipv4Verdict ctx maps telemetry offset packetLen).inspection =
      some (ipv4Inspection ctx.data offset) := by
  by_cases bypass : ipv4Bypass ctx.data offset <;>
    simp [ipv4Verdict, bypass, accept, enforce_inspection]

theorem ipv6Verdict_inspection (offset : Nat) (packetLen : BitVec 32) :
    (ipv6Verdict ctx maps telemetry offset packetLen).inspection =
      some (ipv6Inspection ctx.data offset) :=
  enforce_inspection ctx telemetry packetLen _ _

theorem processIpv4_eq (offset : Nat) (packetLen : BitVec 32) :
    processIpv4 ctx maps telemetry offset packetLen =
      if offset + 20 ≤ ctx.data.length ∧ 20 ≤ (ipv4HeaderAt ctx.data offset).ihl ∧
          offset + (ipv4HeaderAt ctx.data offset).ihl ≤ ctx.data.length then
        some (ipv4Verdict ctx maps telemetry offset packetLen)
      else none := by
  rw [processIpv4, readIpv4_eq]
  by_cases room : offset + 20 ≤ ctx.data.length
  · by_cases long : 20 ≤ (ipv4HeaderAt ctx.data offset).ihl
    · by_cases fits : offset + (ipv4HeaderAt ctx.data offset).ihl ≤ ctx.data.length
      · by_cases dns : dnsBypass (ipv4Inspection ctx.data offset).protocol
            (ipv4Inspection ctx.data offset).srcPort <;>
          by_cases github : githubBypass (ipv4Inspection ctx.data offset).protocol
            (ipv4Inspection ctx.data offset).srcPort (ipv4HeaderAt ctx.data offset).srcAddr <;>
          simp_all [ipv4Verdict, ipv4Bypass, extractPorts_eq, ipv4Inspection, Nat.not_lt.mpr]
      · simp [room, fits, Nat.not_lt.mpr long, Nat.not_le.mp fits]
    · simp [room, long, Nat.not_le.mp long]
  · simp [room]

theorem processIpv6_eq (offset : Nat) (packetLen : BitVec 32) :
    processIpv6 ctx maps telemetry offset packetLen =
      if offset + 40 ≤ ctx.data.length then
        some (ipv6Verdict ctx maps telemetry offset packetLen)
      else none := by
  rw [processIpv6, readIpv6_eq]
  by_cases room : offset + 40 ≤ ctx.data.length
  · simp [room, Nat.not_lt.mpr room, extractPorts_eq, ipv6Verdict, ipv6Inspection]
  · simp [room]

theorem tryFirewall_eq :
    tryFirewall ctx maps telemetry =
      if 14 ≤ ctx.data.length then
        if isVlan (etherTypeAt ctx.data 12) then
          if 18 ≤ ctx.data.length then
            dispatch ctx maps telemetry 18 (etherTypeAt ctx.data 16) (BitVec.ofNat 32 ctx.data.length)
          else none
        else
          dispatch ctx maps telemetry 14 (etherTypeAt ctx.data 12) (BitVec.ofNat 32 ctx.data.length)
      else none := by
  rw [tryFirewall, readEthernet_eq]
  by_cases whole : 14 ≤ ctx.data.length
  · by_cases tagged : isVlan (etherTypeAt ctx.data 12) = true
    · by_cases room : 18 ≤ ctx.data.length
      · simp [-readUnaligned_get, ptrAt_eq, ethHdrLen, ethernetHeaderAt_type, vlan_inner, whole, tagged,
          room]
      · simp [ptrAt_eq, ethHdrLen, ethernetHeaderAt_type, whole, tagged, room]
    · simp [ethHdrLen, ethernetHeaderAt_type, whole, tagged]
  · simp [whole]

variable {ctx maps telemetry}

theorem tryFirewall_announced {tags : Nat} {etherType : BitVec 16} (few : tags ≤ 1)
    (announced : Announces ctx.data tags etherType) (untagged : isVlan etherType = false)
    (room : l3Offset tags ≤ ctx.data.length) :
    tryFirewall ctx maps telemetry = dispatch ctx maps telemetry (l3Offset tags) etherType
      (BitVec.ofNat 32 ctx.data.length) := by
  obtain ⟨tagged, rfl⟩ := announced
  obtain rfl | rfl : tags = 0 ∨ tags = 1 := by omega
  · have whole : 14 ≤ ctx.data.length := room
    rw [tryFirewall_eq, if_pos whole, if_neg (by simpa using untagged)]
    rfl
  · have whole : 18 ≤ ctx.data.length := room
    rw [tryFirewall_eq, if_pos (by omega), if_pos (tagged 0 (by decide)), if_pos whole]
    rfl

theorem tryFirewall_ipv4 {tags : Nat} (few : tags ≤ 1) (carries : CarriesIpv4 ctx.data tags) :
    tryFirewall ctx maps telemetry =
      some (ipv4Verdict ctx maps telemetry (l3Offset tags) (BitVec.ofNat 32 ctx.data.length)) := by
  obtain ⟨announced, room, fits⟩ := carries
  rw [tryFirewall_announced few announced (by decide) (by omega), dispatch, if_pos rfl,
    processIpv4_eq, if_pos ⟨room, fits⟩]

theorem tryFirewall_ipv6 {tags : Nat} (few : tags ≤ 1) (carries : CarriesIpv6 ctx.data tags) :
    tryFirewall ctx maps telemetry =
      some (ipv6Verdict ctx maps telemetry (l3Offset tags) (BitVec.ofNat 32 ctx.data.length)) := by
  obtain ⟨announced, room⟩ := carries
  rw [tryFirewall_announced few announced (by decide) (by omega), dispatch, if_neg (by decide),
    if_pos rfl, processIpv6_eq, if_pos room]

theorem dispatch_cases {tags : Nat} {etherType : BitVec 16} {verdict : Verdict}
    (announced : Announces ctx.data tags etherType)
    (decided : dispatch ctx maps telemetry (l3Offset tags) etherType
      (BitVec.ofNat 32 ctx.data.length) = some verdict) :
    CarriesIpv4 ctx.data tags ∨ CarriesIpv6 ctx.data tags ∨
      verdict = accept telemetry (BitVec.ofNat 32 ctx.data.length) none := by
  rw [dispatch] at decided
  by_cases four : etherType = ethPIp
  · rw [if_pos four, processIpv4_eq] at decided
    split_ifs at decided with fits
    exact Or.inl ⟨four ▸ announced, fits⟩
  · rw [if_neg four] at decided
    by_cases six : etherType = ethPIpv6
    · rw [if_pos six, processIpv6_eq] at decided
      split_ifs at decided with fits
      exact Or.inr (Or.inl ⟨six ▸ announced, fits⟩)
    · rw [if_neg six] at decided
      exact Or.inr (Or.inr (Option.some.inj decided).symm)

theorem tryFirewall_cases {verdict : Verdict} (decided : tryFirewall ctx maps telemetry = some verdict) :
    (∃ tags, tags ≤ 1 ∧ CarriesIpv4 ctx.data tags) ∨ (∃ tags, tags ≤ 1 ∧ CarriesIpv6 ctx.data tags) ∨
      verdict = accept telemetry (BitVec.ofNat 32 ctx.data.length) none := by
  rw [tryFirewall_eq] at decided
  split_ifs at decided with whole tagged room
  · have announced : Announces ctx.data 1 (etherTypeAt ctx.data 16) := by
      refine ⟨fun tag below => ?_, rfl⟩
      obtain rfl : tag = 0 := by omega
      exact tagged
    exact (dispatch_cases announced decided).imp (fun four => ⟨1, le_rfl, four⟩)
      (Or.imp_left fun six => ⟨1, le_rfl, six⟩)
  · have announced : Announces ctx.data 0 (etherTypeAt ctx.data 12) := ⟨by simp, rfl⟩
    exact (dispatch_cases announced decided).imp (fun four => ⟨0, Nat.zero_le _, four⟩)
      (Or.imp_left fun six => ⟨0, Nat.zero_le _, six⟩)

end Verdicts

section Decisions

theorem isGithubIpv4_iff (ip : Octets 4) :
    isGithubIpv4 ip = true ↔ ∃ range ∈ githubRanges, SamePrefix range.1 range.2 ip := by
  have twenty (a b c : UInt8) (aligned : c &&& 0xF0 = c) : SamePrefix 20 #v[a, b, c, 0] ip ↔
      ip.get 0 = a ∧ ip.get 1 = b ∧ ip.get 2 &&& 0xF0 = c := by
    rw [inBlock_iff (show 4 ≤ 8 by decide), and_mask_eq_iff 4 (by decide) aligned]
  have twentyTwo (a b c : UInt8) (aligned : c &&& 0xFC = c) : SamePrefix 22 #v[a, b, c, 0] ip ↔
      ip.get 0 = a ∧ ip.get 1 = b ∧ ip.get 2 &&& 0xFC = c := by
    rw [inBlock_iff (show 6 ≤ 8 by decide), and_mask_eq_iff 6 (by decide) aligned]
  have pair : (ip.get 2).toNat / 2 ^ (8 - 7) = (22 : UInt8).toNat / 2 ^ (8 - 7) ↔
      ip.get 2 = 22 ∨ ip.get 2 = 23 := by
    rw [← UInt8.toNat_inj, ← UInt8.toNat_inj]
    simp only [UInt8.reduceToNat]
    omega
  simp only [githubRanges, List.mem_cons, List.not_mem_nil, or_false, exists_eq_or_imp,
    exists_eq_left, isHost_iff, twenty _ _ 112 (by decide), twenty _ _ 64 (by decide),
    twentyTwo _ _ 252 (by decide), twentyTwo _ _ 108 (by decide),
    inBlock_iff (show 7 ≤ 8 by decide), pair]
  simp only [isGithubIpv4, Bool.or_eq_true, Bool.and_eq_true, beq_iff_eq, and_assoc, or_assoc]

theorem reputationLookup_isSome {n : Nat} (exact : Store (Octets n) RuleValue)
    (lpm : Store (Nat × Octets n) RuleValue) (srcIp : Octets n) :
    (reputationLookup exact lpm srcIp).isSome ↔
      srcIp ∈ exact ∨ ∃ key ∈ lpm, key.1 ≤ 8 * n ∧ SamePrefix key.1 key.2 srcIp := by
  rw [← AList.lookup_isSome]
  cases found : exact.lookup srcIp with
  | some rule => simp [reputationLookup, found]
  | none =>
      have trie := bestMatch_isSome (prefixMatches srcIp) Prod.fst lpm
      simp only [prefixMatches, Bool.and_eq_true, decide_eq_true_eq] at trie
      simpa [reputationLookup, found, lpmGet, prefixMatches] using trie

theorem reputationLookup_value {n : Nat} {exact : Store (Octets n) RuleValue}
    {lpm : Store (Nat × Octets n) RuleValue} {srcIp : Octets n} {rule : RuleValue} {matchType : UInt8}
    (hit : reputationLookup exact lpm srcIp = some (rule, matchType)) :
    exact.lookup srcIp = some rule ∨ ∃ key, lpm.lookup key = some rule := by
  cases found : exact.lookup srcIp with
  | some value =>
      simp only [reputationLookup, found, Option.some.injEq, Prod.mk.injEq] at hit
      exact Or.inl (congrArg some hit.1)
  | none =>
      simp only [reputationLookup, found, Option.map_eq_some_iff, Prod.mk.injEq] at hit
      obtain ⟨value, trie, rfl, -⟩ := hit
      obtain ⟨key, stored, -⟩ := bestMatch_eq_some _ _ _ trie
      exact Or.inr ⟨key, stored⟩

variable (ctx : XdpContext) (maps : MapManager) (telemetry : Telemetry)

theorem enforce_drop_iff (packetLen : BitVec 32) (inspection : Inspection)
    (found : Option (RuleValue × UInt8)) :
    (enforce ctx telemetry packetLen inspection found).action = .drop ↔
      ∃ rule matchType, found = some (rule, matchType) ∧ rule.action = actionDrop := by
  cases found with
  | none => simp [enforce, accept]
  | some hit =>
      obtain ⟨rule, matchType⟩ := hit
      by_cases drops : rule.action = actionDrop <;> simp [enforce, accept, drops]

theorem ipv4Verdict_drop_iff (offset : Nat) (packetLen : BitVec 32) :
    (ipv4Verdict ctx maps telemetry offset packetLen).action = .drop ↔
      ¬ ipv4Bypass ctx.data offset ∧
        ∃ rule matchType, reputationLookup maps.ipv4Exact maps.ipv4Lpm
          (ipv4HeaderAt ctx.data offset).srcAddr = some (rule, matchType) ∧ rule.action = actionDrop := by
  by_cases bypass : ipv4Bypass ctx.data offset
  · simp [ipv4Verdict, bypass, accept]
  · simp [ipv4Verdict, bypass, enforce_drop_iff]

theorem firewall_action {verdict : Verdict} (decided : tryFirewall ctx maps telemetry = some verdict) :
    (firewall ctx maps telemetry).1 = verdict.action := by
  rw [firewall, decided]

theorem firewall_drop_iff :
    (firewall ctx maps telemetry).1 = .drop ↔
      ∃ tags, tags ≤ 1 ∧
        (CarriesIpv4 ctx.data tags ∧ ¬ ipv4Bypass ctx.data (l3Offset tags) ∧
            (∃ rule matchType, reputationLookup maps.ipv4Exact maps.ipv4Lpm
              (ipv4HeaderAt ctx.data (l3Offset tags)).srcAddr = some (rule, matchType) ∧
                rule.action = actionDrop) ∨
          CarriesIpv6 ctx.data tags ∧
            ∃ rule matchType, reputationLookup maps.ipv6Exact maps.ipv6Lpm
              (ipv6HeaderAt ctx.data (l3Offset tags)).srcAddr = some (rule, matchType) ∧
                rule.action = actionDrop) := by
  constructor
  · intro dropped
    cases decided : tryFirewall ctx maps telemetry with
    | none => simp [firewall, decided] at dropped
    | some verdict =>
        rw [firewall_action _ _ _ decided] at dropped
        rcases tryFirewall_cases decided with ⟨tags, few, four⟩ | ⟨tags, few, six⟩ | rfl
        · rw [tryFirewall_ipv4 few four, Option.some.injEq] at decided
          rw [← decided, ipv4Verdict_drop_iff] at dropped
          exact ⟨tags, few, Or.inl ⟨four, dropped⟩⟩
        · rw [tryFirewall_ipv6 few six, Option.some.injEq] at decided
          rw [← decided, ipv6Verdict, enforce_drop_iff] at dropped
          exact ⟨tags, few, Or.inr ⟨six, dropped⟩⟩
        · simp [accept] at dropped
  · intro found
    obtain ⟨tags, few, ⟨four, decision⟩ | ⟨six, decision⟩⟩ := found
    · rw [firewall_action _ _ _ (tryFirewall_ipv4 few four), ipv4Verdict_drop_iff]
      exact decision
    · rw [firewall_action _ _ _ (tryFirewall_ipv6 few six), ipv6Verdict, enforce_drop_iff]
      exact decision

end Decisions

end ReputationFirewall.Xdp
