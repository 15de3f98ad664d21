import ReputationFirewall.Xdp.Counters

set_option autoImplicit false

namespace ReputationFirewall.Xdp

open BigEndian KeyedStore Maps NetAddr

-- The program never looks at it.
def Ipv4Header.fragmentOffset (header : Ipv4Header) : BitVec 13 :=
  (fromBeBytes header.fragOff : BitVec 16).setWidth 13

section Emitted

variable (ctx : XdpContext) (maps : MapManager) (telemetry : Telemetry)

def emitted : List PacketLogEvent :=
  (firewall ctx maps telemetry).2.events.drop telemetry.events.length

@[simp] theorem updateStats_events (rxBytes : BitVec 64) (dropped : Bool) (droppedBytes : BitVec 64) (sent : Bool) :
    (updateStats telemetry rxBytes dropped droppedBytes sent).events = telemetry.events := rfl

theorem output_events_drop (event : PacketLogEvent) :
    (telemetry.output ctx.ringbufAccepts event).events.drop telemetry.events.length =
      if ctx.ringbufAccepts then [event] else [] := by
  cases accepts : ctx.ringbufAccepts <;> simp [Telemetry.output]

end Emitted

section Ports

def ipv4Payload (data : Frame) (offset : Nat) : Frame :=
  data.drop (offset + (ipv4HeaderAt data offset).ihl)

theorem readUnaligned_pair {data rest : Frame} {offset : Nat} {high low : UInt8}
    (bytes : data.drop offset = high :: low :: rest) : readUnaligned 2 data offset = #v[high, low] := by
  have inside : offset + 2 ≤ data.length := by
    have counted := congrArg List.length bytes
    simp only [List.length_drop, List.length_cons] at counted
    omega
  have whole := toList_readUnaligned inside
  rw [bytes] at whole
  have pair : (readUnaligned 2 data offset).toList = [high, low] := List.append_inj_left whole (by simp)
  exact Vector.toList_inj.mp pair

theorem pair_eq_iff (high low other another : UInt8) :
    fromBeBytes #v[high, low] = fromBeBytes #v[other, another] ↔ high = other ∧ low = another := by
  constructor
  · intro same
    simpa using fromBeBytes_injective same
  · rintro ⟨rfl, rfl⟩
    rfl

theorem portsAt_cases (data : Frame) (offset : Nat) (protocol : UInt8) :
    (¬ (protocol = protoTcp ∨ protocol = protoUdp) ∨ (data.drop offset).length < 4) ∧
        portsAt data offset protocol = (0, 0) ∨
      ∃ a b c d rest, (protocol = protoTcp ∨ protocol = protoUdp) ∧ data.drop offset = a :: b :: c :: d :: rest ∧
        portsAt data offset protocol = (fromBeBytes #v[a, b], fromBeBytes #v[c, d]) := by
  unfold portsAt
  split_ifs with ported
  · right
    have long : 4 ≤ (data.drop offset).length := by
      rw [List.length_drop]
      omega
    match payload : data.drop offset with
    | a :: b :: c :: d :: rest =>
        have later : data.drop (offset + 2) = c :: d :: rest := by
          rw [← List.drop_drop, payload]
          rfl
        refine ⟨a, b, c, d, rest, ported.1, rfl, ?_⟩
        rw [readUnaligned_pair payload, readUnaligned_pair later]
    | [] | [_] | [_, _] | [_, _, _] =>
        rw [payload] at long
        simp at long
  · left
    refine ⟨?_, rfl⟩
    rw [List.length_drop]
    by_cases transport : protocol = protoTcp ∨ protocol = protoUdp
    · exact Or.inr (Nat.lt_of_not_le fun long => ported ⟨transport, by omega⟩)
    · exact Or.inl transport

theorem portsAt_eq_zero_iff (data : Frame) (offset : Nat) (protocol : UInt8) :
    portsAt data offset protocol = (0, 0) ↔
      ¬ (protocol = protoTcp ∨ protocol = protoUdp) ∨ (data.drop offset).length < 4 ∨
        (data.drop offset).take 4 = [0, 0, 0, 0] := by
  rcases portsAt_cases data offset protocol with ⟨unread, ports⟩ | ⟨a, b, c, d, rest, transport, payload, ports⟩
  · rw [ports]
    tauto
  · have zeros := and_congr (pair_eq_iff a b 0 0) (pair_eq_iff c d 0 0)
    rw [ports, Prod.mk.injEq, payload]
    exact zeros.trans (by simp [transport, and_assoc])

theorem bypassed_iff (data : Frame) (offset : Nat) (protocol : UInt8) (srcAddr : Octets 4) :
    dnsBypass protocol (portsAt data offset protocol).1 ∨
        githubBypass protocol (portsAt data offset protocol).1 srcAddr ↔
      4 ≤ (data.drop offset).length ∧
        ((protocol = protoUdp ∨ protocol = protoTcp) ∧ (data.drop offset).take 2 = [0x00, 0x35] ∨
          protocol = protoTcp ∧ (data.drop offset).take 2 = [0x01, 0xBB] ∧ isGithubIpv4 srcAddr = true) := by
  unfold dnsBypass githubBypass
  rcases portsAt_cases data offset protocol with ⟨unread, ports⟩ | ⟨a, b, c, d, rest, transport, payload, ports⟩
  · have unbypassed : ¬ (0 : BitVec 16) = 53 ∧ ¬ (0 : BitVec 16) = 443 := by decide
    rw [ports]
    simp only [unbypassed, and_false, false_and, or_false, false_iff]
    rintro ⟨long, bypassed⟩
    have other := unread.resolve_right (Nat.not_lt.mpr long)
    tauto
  · have dns : fromBeBytes #v[a, b] = (53 : BitVec 16) ↔ a = 0x00 ∧ b = 0x35 := pair_eq_iff a b 0x00 0x35
    have https : fromBeBytes #v[a, b] = (443 : BitVec 16) ↔ a = 0x01 ∧ b = 0xBB := pair_eq_iff a b 0x01 0xBB
    rw [ports, dns, https, payload]
    simp

theorem ipv4Bypass_payload (data : Frame) (offset : Nat) :
    ipv4Bypass data offset ↔
      4 ≤ (ipv4Payload data offset).length ∧
        (((ipv4HeaderAt data offset).protocol = protoUdp ∨ (ipv4HeaderAt data offset).protocol = protoTcp) ∧
            (ipv4Payload data offset).take 2 = [0x00, 0x35] ∨
          (ipv4HeaderAt data offset).protocol = protoTcp ∧ (ipv4Payload data offset).take 2 = [0x01, 0xBB] ∧
            isGithubIpv4 (ipv4HeaderAt data offset).srcAddr = true) := by
  simp only [ipv4Bypass, ipv4Inspection, bypassed_iff, ipv4Payload]

end Ports

section LaterFragments

structure ListedFragment (frame : Frame) (maps : MapManager) (tags : Nat) : Prop where
  carries : CarriesIpv4 frame tags
  later : (ipv4HeaderAt frame (l3Offset tags)).fragmentOffset ≠ 0
  listed : ∃ rule matchType, reputationLookup maps.ipv4Exact maps.ipv4Lpm
    (ipv4HeaderAt frame (l3Offset tags)).srcAddr = some (rule, matchType) ∧ rule.action = actionDrop

variable {ctx : XdpContext} {maps : MapManager} {tags : Nat}

theorem ListedFragment.drop_iff (fragment : ListedFragment ctx.data maps tags) (telemetry : Telemetry) :
    (firewall ctx maps telemetry).1 = .drop ↔ tags ≤ 1 ∧ ¬ ipv4Bypass ctx.data (l3Offset tags) := by
  rw [firewall_drop_iff]
  constructor
  · intro dropped
    obtain ⟨found, few, ⟨carries, direct, -⟩ | ⟨carries, -⟩⟩ := dropped
    · obtain ⟨rfl, -⟩ := fragment.carries.1.unique carries.1 (by decide) (by decide)
      exact ⟨few, direct⟩
    · have other := (fragment.carries.1.unique carries.1 (by decide) (by decide)).2
      exact absurd other (by decide)
  · intro reached
    exact ⟨tags, reached.1, Or.inl ⟨fragment.carries, reached.2, fragment.listed⟩⟩

theorem ListedFragment.emitted_eq (fragment : ListedFragment ctx.data maps tags) (telemetry : Telemetry)
    (few : tags ≤ 1) (direct : ¬ ipv4Bypass ctx.data (l3Offset tags)) :
    ∃ rule matchType, emitted ctx maps telemetry =
      if ctx.ringbufAccepts then
        [loggedEvent ctx (BitVec.ofNat 32 ctx.data.length) (ipv4Inspection ctx.data (l3Offset tags)) rule matchType]
      else [] := by
  obtain ⟨rule, matchType, found, drops⟩ := fragment.listed
  refine ⟨rule, matchType, ?_⟩
  rw [← output_events_drop]
  simp only [emitted, firewall, tryFirewall_ipv4 few fragment.carries, ipv4Verdict, direct, found, enforce, drops,
    if_true, if_false, updateStats_events]
  rfl

theorem later_fragment_blocked_iff (ctx : XdpContext) (maps : MapManager) (telemetry : Telemetry) (tags : Nat)
    (fragment : ListedFragment ctx.data maps tags) :
    ((firewall ctx maps telemetry).1 = .drop ∧
        ∀ event ∈ emitted ctx maps telemetry, event.srcPort = 0 ∧ event.dstPort = 0) ↔
      tags ≤ 1 ∧ ¬ ipv4Bypass ctx.data (l3Offset tags) ∧
        (ctx.ringbufAccepts = true →
          portsAt ctx.data (l3Offset tags + (ipv4HeaderAt ctx.data (l3Offset tags)).ihl)
            (ipv4HeaderAt ctx.data (l3Offset tags)).protocol = (0, 0)) := by
  rw [fragment.drop_iff, and_assoc]
  refine and_congr_right fun few => and_congr_right fun direct => ?_
  obtain ⟨rule, matchType, events⟩ := fragment.emitted_eq telemetry few direct
  rw [events]
  cases ctx.ringbufAccepts <;> simp [loggedEvent, ipv4Inspection, Prod.ext_iff]

end LaterFragments

section Payloads

-- A fragment of 198.51.100.9 at offset 8, with the given protocol and payload.
def laterFragment (protocol : UInt8) (payload : List UInt8) : Frame :=
  List.replicate 12 0 ++ [0x08, 0x00, 0x45] ++ List.replicate 6 0 ++
    [1, 64, protocol, 0, 0, 198, 51, 100, 9, 10, 0, 0, 1] ++ payload

theorem icmp_fragment_blocked :
    ListedFragment (laterFragment 1 [0x00, 0x35, 0x12, 0x34]) listedMaps 0 ∧
      (firewall ⟨laterFragment 1 [0x00, 0x35, 0x12, 0x34], 0, 0, true⟩ listedMaps .zero).1 = .drop := by
  have fragment : ListedFragment (laterFragment 1 [0x00, 0x35, 0x12, 0x34]) listedMaps 0 :=
    ⟨⟨⟨by simp, by decide⟩, by decide, by decide, by decide⟩, by decide, .drop 1, matchExactHash, by decide, rfl⟩
  exact ⟨fragment, ((later_fragment_blocked_iff ⟨_, 0, 0, true⟩ listedMaps .zero 0 fragment).mpr
    ⟨by decide, by decide, by decide⟩).1⟩

theorem dns_like_fragment_passes :
    ListedFragment (laterFragment 17 [0x00, 0x35, 0x12, 0x34]) listedMaps 0 ∧
      (firewall ⟨laterFragment 17 [0x00, 0x35, 0x12, 0x34], 0, 0, true⟩ listedMaps .zero).1 = .pass :=
  ⟨⟨⟨⟨by simp, by decide⟩, by decide, by decide, by decide⟩, by decide, .drop 1, matchExactHash, by decide, rfl⟩,
    by decide⟩

end Payloads

end ReputationFirewall.Xdp
