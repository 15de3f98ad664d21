import ReputationFirewall.Maps.InsertFailures
import ReputationFirewall.Maps.Operations
import ReputationFirewall.Maps.SharedKeys
import ReputationFirewall.Xdp.Program

set_option autoImplicit false

namespace ReputationFirewall.Xdp

open BigEndian KeyedStore NetAddr Maps Runs

section Phases

variable {K P V : Type}

-- `hits` are the prefixes that match the host.
def Covered (host : K) (hits : P → Prop) (exact : Store K V) (lpm : Store P V) : Prop :=
  host ∈ exact ∨ ∃ key ∈ lpm, hits key

-- `exactBefore`, `exact` and `exactAfter` are one map at three moments, and so for `lpm`.
variable {host : K} {hits : P → Prop} {exactBefore exact exactAfter : Store K V}
  {lpmBefore lpm lpmAfter : Store P V}
  (handover : host ∈ exactBefore → host ∉ exactAfter → (∃ key ∈ lpmAfter, hits key) →
    ∃ key ∈ lpmBefore, hits key)
  (before : Covered host hits exactBefore lpmBefore) (after : Covered host hits exactAfter lpmAfter)

include handover before after

theorem covered_exactPhase
    (phase : (∀ key ∈ exactBefore, key ∈ exact) ∨ ∀ key ∈ exactAfter, key ∈ exact) :
    Covered host hits exact lpmBefore := by
  rcases before with present | inside
  · rcases phase with kept | reached
    · exact Or.inl (kept host present)
    · by_cases stays : host ∈ exactAfter
      · exact Or.inl (reached host stays)
      · exact Or.inr (handover present stays (after.resolve_left stays))
  · exact Or.inr inside

theorem covered_lpmPhase
    (phase : (∀ key ∈ lpmBefore, key ∈ lpm) ∨ ∀ key ∈ lpmAfter, key ∈ lpm) :
    Covered host hits exactAfter lpm := by
  by_cases stays : host ∈ exactAfter
  · exact Or.inl stays
  have inside := after.resolve_left stays
  rcases phase with kept | reached
  · have earlier : ∃ key ∈ lpmBefore, hits key :=
      before.elim (fun present => handover present stays inside) id
    exact Or.inr (earlier.imp fun key hit => ⟨kept key hit.1, hit.2⟩)
  · exact Or.inr (inside.imp fun key hit => ⟨reached key hit.1, hit.2⟩)

end Phases

section Calls

variable (call : Call) (manager : MapManager)

def Stale (kind : MapKind) (key : kind.Key) : Prop :=
  key ∈ (manager.slot kind).map ∧ key ∉ call.rules.keys kind ∧
    (key ∈ (manager.slot kind).firehol ↔ call.source = .firehol)

theorem mem_apply (kind : MapKind) (key : kind.Key) :
    key ∈ ((call.apply allSucceed manager).1.slot kind).map ↔
      key ∈ call.rules.keys kind ∨ key ∈ (manager.slot kind).map ∧ ¬ Stale call manager kind key := by
  obtain ⟨source, rules, hashing⟩ := call
  cases source with
  | static =>
      simp only [Call.apply, mem_syncRules, installs_allSucceed, Stale]
      tauto
  | firehol =>
      simp only [Call.apply, mem_syncFireholRules, installs_allSucceed, Stale]
      tauto

theorem stale_iff (kind : MapKind) (key : kind.Key) :
    Stale call manager kind key ↔
      key ∈ (manager.slot kind).map ∧ key ∉ ((call.apply allSucceed manager).1.slot kind).map := by
  rw [mem_apply]
  constructor
  · intro stale
    exact ⟨stale.1, by have unlisted := stale.2.1; tauto⟩
  · intro gone
    tauto

theorem applyAll_changes (kind : MapKind) :
    applyAll (manager.slot kind).map (call.changes allSucceed manager kind) =
      ((call.apply allSucceed manager).1.slot kind).map := by
  rw [← changesOn_operations, ← run_perform_map, run_operations_map]

variable {exactKind lpmKind : MapKind} (isExact : exactKind = .ipv4Exact ∨ exactKind = .ipv6Exact)
  (isLpm : lpmKind = .ipv4Lpm ∨ lpmKind = .ipv6Lpm)

include isExact isLpm

theorem exact_before_lpm {done : List MapOperation} (isPrefix : done <+: call.operations allSucceed manager) :
    changesOn lpmKind done = [] ∨ changesOn exactKind done = call.changes allSucceed manager exactKind := by
  rcases prefix_of_append isPrefix with early | ⟨rest, late, rfl⟩
  · left
    have within : changesOn lpmKind done <+: changesOn lpmKind _ := changesOn_prefix early
    rcases isLpm with rfl | rfl <;> simpa [changesOn_other] using within
  · right
    have within : changesOn exactKind rest <+: changesOn exactKind _ := changesOn_prefix late
    rcases isExact with rfl | rfl <;> simp [changesOn_other] at within ⊢ <;> exact within

theorem exact_done :
    ∃ done, done <+: call.operations allSucceed manager ∧ changesOn lpmKind done = [] ∧
      changesOn exactKind done = call.changes allSucceed manager exactKind := by
  refine ⟨_, List.prefix_append _ _, ?_, ?_⟩
  · rcases isLpm with rfl | rfl <;> simp [changesOn_other]
  · rcases isExact with rfl | rfl <;> simp [changesOn_other]

variable (host : exactKind.Key) (hits : lpmKind.Key → Prop)

def HandsOver : Prop :=
  Stale call manager exactKind host → (∃ key ∈ call.rules.keys lpmKind, hits key) →
    ∃ key ∈ (manager.slot lpmKind).map, hits key

def CoveredIn (maps : MapManager) : Prop :=
  Covered host hits (maps.slot exactKind).map (maps.slot lpmKind).map

theorem coveredIn_of_handsOver (handsOver : HandsOver call manager host hits)
    (before : CoveredIn host hits manager) (after : CoveredIn host hits (call.apply allSucceed manager).1)
    {done : List MapOperation} (isPrefix : done <+: call.operations allSucceed manager) :
    CoveredIn host hits (run MapManager.perform manager done) := by
  have handover : host ∈ (manager.slot exactKind).map →
      host ∉ ((call.apply allSucceed manager).1.slot exactKind).map →
      (∃ key ∈ ((call.apply allSucceed manager).1.slot lpmKind).map, hits key) →
      ∃ key ∈ (manager.slot lpmKind).map, hits key := by
    intro present gone inside
    obtain ⟨key, member, hit⟩ := inside
    rcases (mem_apply call manager lpmKind key).mp member with listed | ⟨kept, -⟩
    · exact handsOver ((stale_iff ..).mpr ⟨present, gone⟩) ⟨key, listed, hit⟩
    · exact ⟨key, kept, hit⟩
  have phase : ∀ kind, (∀ key ∈ (manager.slot kind).map,
        key ∈ applyAll (manager.slot kind).map (changesOn kind done)) ∨
      ∀ key ∈ ((call.apply allSucceed manager).1.slot kind).map,
        key ∈ applyAll (manager.slot kind).map (changesOn kind done) := by
    intro kind
    have within : changesOn kind done <+: call.changes allSucceed manager kind :=
      changesOn_operations call allSucceed manager kind ▸ changesOn_prefix isPrefix
    exact applyAll_changes call manager kind ▸ changes_between call allSucceed manager kind within
  rw [CoveredIn, run_perform_map, run_perform_map]
  rcases exact_before_lpm call manager isExact isLpm isPrefix with untouched | finished
  · rw [untouched]
    exact covered_exactPhase handover before after (phase exactKind)
  · rw [finished, applyAll_changes]
    exact covered_lpmPhase handover before after (phase lpmKind)

theorem handsOver_of_covered
    (covered : HoldsThroughout MapManager.perform manager
      (fun between => CoveredIn host hits manager → CoveredIn host hits (call.apply allSucceed manager).1 →
        CoveredIn host hits between) (call.operations allSucceed manager)) :
    HandsOver call manager host hits := by
  intro stale listed
  obtain ⟨present, gone⟩ := (stale_iff ..).mp stale
  obtain ⟨key, member, hit⟩ := listed
  have reached := (mem_apply call manager lpmKind key).mpr (Or.inl member)
  -- The state to look at is the one in which the exact maps are done.
  obtain ⟨done, isPrefix, untouched, finished⟩ := exact_done call manager isExact isLpm
  have between := covered done isPrefix (Or.inl present) (Or.inr ⟨key, reached, hit⟩)
  rw [CoveredIn, run_perform_map, run_perform_map, untouched, finished, applyAll_changes] at between
  exact between.resolve_left gone

theorem coveredThroughout_iff :
    HoldsThroughout MapManager.perform manager
      (fun between => CoveredIn host hits manager → CoveredIn host hits (call.apply allSucceed manager).1 →
        CoveredIn host hits between) (call.operations allSucceed manager) ↔
      HandsOver call manager host hits := by
  constructor
  · exact handsOver_of_covered call manager isExact isLpm host hits
  · intro handsOver done isPrefix before after
    exact coveredIn_of_handsOver call manager isExact isLpm host hits handsOver before after isPrefix

end Calls

def Covers (maps : MapManager) : IpAddr → Prop
  | .v4 addr => addr ∈ maps.ipv4Exact ∨ ∃ key ∈ maps.ipv4Lpm, prefixMatches addr key
  | .v6 addr => addr ∈ maps.ipv6Exact ∨ ∃ key ∈ maps.ipv6Lpm, prefixMatches addr key

theorem covers_iff_lookup (maps : MapManager) (addr : IpAddr) :
    Covers maps addr ↔ match addr with
      | .v4 addr => (reputationLookup maps.ipv4Exact maps.ipv4Lpm addr).isSome
      | .v6 addr => (reputationLookup maps.ipv6Exact maps.ipv6Lpm addr).isSome := by
  cases addr <;> simp [reputationLookup_isSome, Covers, prefixMatches]

def NoGap (call : Call) (manager : MapManager) : Prop :=
  HoldsThroughout MapManager.perform manager
    (fun between => ∀ addr, Covers manager addr → Covers (call.apply allSucceed manager).1 addr →
      Covers between addr)
    (call.operations allSucceed manager)

def HandsOverHosts (call : Call) (manager : MapManager) : Prop :=
  (∀ addr, @HandsOver call manager .ipv4Exact .ipv4Lpm addr fun key => prefixMatches addr key) ∧
    ∀ addr, @HandsOver call manager .ipv6Exact .ipv6Lpm addr fun key => prefixMatches addr key

theorem noGap_iff (call : Call) (manager : MapManager) :
    NoGap call manager ↔ HandsOverHosts call manager := by
  have v4 := fun addr : Octets 4 => @coveredThroughout_iff call manager .ipv4Exact .ipv4Lpm
    (Or.inl rfl) (Or.inl rfl) addr (fun key => prefixMatches addr key)
  have v6 := fun addr : Octets 16 => @coveredThroughout_iff call manager .ipv6Exact .ipv6Lpm
    (Or.inr rfl) (Or.inr rfl) addr (fun key => prefixMatches addr key)
  constructor
  · intro noGap
    refine ⟨fun addr => (v4 addr).mp ?_, fun addr => (v6 addr).mp ?_⟩
    · exact fun done isPrefix => noGap done isPrefix (.v4 addr)
    · exact fun done isPrefix => noGap done isPrefix (.v6 addr)
  · intro handsOver done isPrefix addr
    cases addr with
    | v4 addr => exact (v4 addr).mpr (handsOver.1 addr) done isPrefix
    | v6 addr => exact (v6 addr).mpr (handsOver.2 addr) done isPrefix

-- 192.0.2.1 was a static rule; the rule file now lists 192.0.2.0/24 instead.
theorem widened_rule_gap :
    ¬ ∃ hashing : Hashing,
      let installed := (run History.step History.start
        [(⟨.static, oneAddress #v[192, 0, 2, 1] staticRuleBase, hashing⟩, allSucceed)]).manager
      NoGap ⟨.static, networks [(24, #v[192, 0, 2, 0])], hashing⟩ installed := by
  rintro ⟨hashing, noGap⟩
  let rules := oneAddress #v[192, 0, 2, 1] staticRuleBase
  let installed := History.start.step (⟨.static, rules, hashing⟩, allSucceed)
  let widened : Call := ⟨.static, networks [(24, #v[192, 0, 2, 0])], hashing⟩
  have handsOver := @handsOver_of_covered widened installed.manager .ipv4Exact .ipv4Lpm
    (Or.inl rfl) (Or.inl rfl) #v[192, 0, 2, 1] (fun key => prefixMatches #v[192, 0, 2, 1] key)
    fun done isPrefix => noGap done isPrefix (.v4 #v[192, 0, 2, 1])
  have listed : (24, #v[192, 0, 2, 0]) ∈ (networks [(24, #v[192, 0, 2, 0])]).keys .ipv4Lpm := by decide
  have unowned : #v[192, 0, 2, 1] ∉ installed.owned .ipv4Exact := by
    rw [step_static_owned]
    exact start_owned .ipv4Exact _
  have stale : Stale widened installed.manager .ipv4Exact #v[192, 0, 2, 1] := by
    refine ⟨(mem_step_static ..).mpr (Or.inl ?_), new_keys .ipv4Exact _, by simpa [widened] using unowned⟩
    exact (installs_allSucceed ..).mpr (mem_oneAddress _ _)
  obtain ⟨key, present, -⟩ := handsOver stale ⟨_, listed, by decide⟩
  rcases (mem_step_static ..).mp present with inserted | ⟨earlier, -⟩
  · rw [installs_allSucceed] at inserted
    exact new_keys .ipv4Lpm key inserted
  · exact start_map .ipv4Lpm key earlier

end ReputationFirewall.Xdp
