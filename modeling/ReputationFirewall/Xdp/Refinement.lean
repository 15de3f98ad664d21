import ReputationFirewall.Xdp.Program
import ReputationFirewall.Xdp.ReferenceParser

set_option autoImplicit false

namespace ReputationFirewall.Xdp

open BigEndian Maps

inductive IpVersion where
  | v4
  | v6
  deriving DecidableEq

def IpVersion.number : IpVersion → UInt8
  | .v4 => 4
  | .v6 => 6

def IpVersion.etherType : IpVersion → BitVec 16
  | .v4 => ethPIp
  | .v6 => ethPIpv6

def Carries (frame : Frame) (tags : Nat) : IpVersion → Prop
  | .v4 => CarriesIpv4 frame tags
  | .v6 => CarriesIpv6 frame tags

def inspectionAt (data : Frame) (offset : Nat) : IpVersion → Inspection
  | .v4 => ipv4Inspection data offset
  | .v6 => ipv6Inspection data offset

theorem Carries.announces {frame : Frame} {tags : Nat} {version : IpVersion}
    (carries : Carries frame tags version) : Announces frame tags version.etherType := by
  cases version with
  | v4 => exact carries.1
  | v6 => exact carries.1

theorem Carries.unique {frame : Frame} {tags others : Nat} {version other : IpVersion}
    (first : Carries frame tags version) (second : Carries frame others other) :
    tags = others ∧ version = other := by
  have same := first.announces.unique second.announces (by cases version <;> decide)
    (by cases other <;> decide)
  refine ⟨same.1, ?_⟩
  cases version <;> cases other <;> first | rfl | exact absurd same.2 (by decide)

def ParsedPacket.inspection (packet : ParsedPacket) : Inspection :=
  { ipVersion := packet.ipVersion, srcIp := packet.srcIp, dstIp := packet.dstIp
    protocol := packet.protocol, srcPort := packet.srcPort, dstPort := packet.dstPort }

def RefinesClassifier (ctx : XdpContext) (maps : MapManager) (telemetry : Telemetry) : Prop :=
  (tryFirewall ctx maps telemetry).bind Verdict.inspection =
    (classifyPacket ctx.data).map ParsedPacket.inspection

def ParsersAgreeOn (frame : Frame) : Prop :=
  ∀ tags version, tags ≤ 2 → Carries frame tags version →
    (ipVersionAt frame (l3Offset tags) = version.number ↔ tags ≤ 1)

section Acceptance

variable {ctx : XdpContext} {maps : MapManager} {telemetry : Telemetry}

theorem program_inspects {tags : Nat} {version : IpVersion} (few : tags ≤ 1)
    (carries : Carries ctx.data tags version) :
    (tryFirewall ctx maps telemetry).bind Verdict.inspection =
      some (inspectionAt ctx.data (l3Offset tags) version) := by
  cases version with
  | v4 => rw [tryFirewall_ipv4 few carries, Option.bind_some, ipv4Verdict_inspection]; rfl
  | v6 => rw [tryFirewall_ipv6 few carries, Option.bind_some, ipv6Verdict_inspection]; rfl

theorem program_inspects_only {inspection : Inspection}
    (inspected : (tryFirewall ctx maps telemetry).bind Verdict.inspection = some inspection) :
    ∃ tags version, tags ≤ 1 ∧ Carries ctx.data tags version := by
  obtain ⟨verdict, decided, seen⟩ := Option.bind_eq_some_iff.mp inspected
  rcases tryFirewall_cases decided with ⟨tags, few, four⟩ | ⟨tags, few, six⟩ | rfl
  · exact ⟨tags, .v4, few, four⟩
  · exact ⟨tags, .v6, few, six⟩
  · simp [accept] at seen

theorem classifier_accepts {frame : Frame} {tags : Nat} {version : IpVersion} (few : tags ≤ 2)
    (carries : Carries frame tags version)
    (matching : ipVersionAt frame (l3Offset tags) = version.number) :
    (classifyPacket frame).map ParsedPacket.inspection =
      some (inspectionAt frame (l3Offset tags) version) := by
  cases version with
  | v4 =>
      rw [IpVersion.number] at matching
      rw [classifyPacket_ipv4 few carries matching]
      simp only [Option.map_some, ParsedPacket.inspection, ipv4Packet, inspectionAt, ipv4Inspection]
  | v6 =>
      rw [IpVersion.number] at matching
      rw [classifyPacket_ipv6 few carries matching]
      simp only [Option.map_some, ParsedPacket.inspection, ipv6Packet, inspectionAt, ipv6Inspection]

theorem classifier_accepts_only {frame : Frame} {inspection : Inspection}
    (accepted : (classifyPacket frame).map ParsedPacket.inspection = some inspection) :
    ∃ tags version, tags ≤ 2 ∧ Carries frame tags version ∧
      ipVersionAt frame (l3Offset tags) = version.number := by
  obtain ⟨packet, classified, -⟩ := Option.map_eq_some_iff.mp accepted
  obtain ⟨tags, few, ⟨four, matching⟩ | ⟨six, matching⟩⟩ := classifyPacket_cases classified
  · exact ⟨tags, .v4, few, four, by rwa [IpVersion.number]⟩
  · exact ⟨tags, .v6, few, six, by rwa [IpVersion.number]⟩

end Acceptance

theorem agree_of_refines {ctx : XdpContext} {maps : MapManager} {telemetry : Telemetry}
    (refines : RefinesClassifier ctx maps telemetry) : ParsersAgreeOn ctx.data := by
  intro tags version few carries
  constructor
  · intro matching
    -- The reference parser accepts, so the program has to find the header as well.
    have inspected := refines.trans (classifier_accepts few carries matching)
    obtain ⟨others, other, atMostOne, found⟩ := program_inspects_only inspected
    rw [(carries.unique found).1]
    exact atMostOne
  · intro atMostOne
    have accepted := refines.symm.trans (program_inspects atMostOne carries)
    obtain ⟨others, other, -, found, matching⟩ := classifier_accepts_only accepted
    obtain ⟨rfl, rfl⟩ := carries.unique found
    exact matching

theorem refines_of_agree {ctx : XdpContext} {maps : MapManager} {telemetry : Telemetry}
    (agree : ParsersAgreeOn ctx.data) : RefinesClassifier ctx maps telemetry := by
  rw [RefinesClassifier]
  cases accepted : (classifyPacket ctx.data).map ParsedPacket.inspection with
  | some inspection =>
      obtain ⟨tags, version, few, carries, matching⟩ := classifier_accepts_only accepted
      have atMostOne := (agree tags version few carries).mp matching
      rw [program_inspects atMostOne carries, ← accepted, classifier_accepts few carries matching]
  | none =>
      cases inspected : (tryFirewall ctx maps telemetry).bind Verdict.inspection with
      | none => rfl
      | some inspection =>
          obtain ⟨tags, version, atMostOne, carries⟩ := program_inspects_only inspected
          have few : tags ≤ 2 := by omega
          have matching := (agree tags version few carries).mpr atMostOne
          rw [classifier_accepts few carries matching] at accepted
          exact absurd accepted (by simp)

theorem refinesClassifier_iff (ctx : XdpContext) (maps : MapManager) (telemetry : Telemetry) :
    RefinesClassifier ctx maps telemetry ↔ ParsersAgreeOn ctx.data :=
  ⟨agree_of_refines, refines_of_agree⟩

-- An 802.1ad tag, an 802.1Q tag and an IPv4 header, as in the unit test of the parser.
def qinqFrame : Frame :=
  List.replicate 12 0 ++ [0x88, 0xA8, 0, 0, 0x81, 0x00, 0, 0, 0x08, 0x00, 0x45] ++ List.replicate 39 0

theorem qinqFrame_missed :
    ¬ RefinesClassifier ⟨qinqFrame, 0, 0, true⟩ MapManager.new Telemetry.zero := by
  rw [RefinesClassifier]
  decide

end ReputationFirewall.Xdp
