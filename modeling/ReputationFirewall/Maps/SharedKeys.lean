import ReputationFirewall.Maps.SyncRuns

set_option autoImplicit false

namespace ReputationFirewall.Maps

open BigEndian KeyedStore Runs

def NoRuleLost (history : History) : Prop :=
  ∀ kind, history.latestStatic.keys kind ∪ history.latestFirehol.keys kind ⊆
    keySet (history.map kind)

def KeepsSharedKeys (history : History) (call : Call) : Prop :=
  call.source = .firehol → ∀ kind,
    history.latestStatic.keys kind ∩ history.latestFirehol.keys kind ⊆ call.rules.keys kind

theorem start_noRuleLost : NoRuleLost History.start := by
  intro kind key member
  rw [Finset.mem_union] at member
  exact absurd member (by simp [History.start, new_keys])

theorem noRuleLost_static (history : History) (rules : ParsedRuleSet) (hashing : Hashing)
    (complete : Complete history) :
    NoRuleLost (history.succeed ⟨.static, rules, hashing⟩) := by
  intro kind key member
  rw [Finset.mem_union] at member
  rw [mem_keySet, History.succeed, mem_step_static, installs_allSucceed]
  rcases member with listed | fed
  · exact Or.inl listed
  · have owned := complete.owns kind key fed
    exact Or.inr ⟨complete.accounted.present kind key owned, owned⟩

theorem noRuleLost_firehol_iff (history : History) (rules : ParsedRuleSet) (hashing : Hashing)
    (complete : Complete history) (safe : NoRuleLost history) :
    NoRuleLost (history.succeed ⟨.firehol, rules, hashing⟩) ↔
      KeepsSharedKeys history ⟨.firehol, rules, hashing⟩ := by
  have after (kind : MapKind) (key : kind.Key) :
      key ∈ (history.succeed ⟨.firehol, rules, hashing⟩).map kind ↔
        key ∈ rules.keys kind ∨ key ∈ history.map kind ∧ key ∉ history.latestFirehol.keys kind := by
    rw [History.succeed, mem_step_firehol, installs_allSucceed, complete.owned_iff]
  constructor
  · intro kept _ kind key shared
    rw [Finset.mem_inter] at shared
    have present : key ∈ keySet _ := kept kind (Finset.mem_union_left _ shared.1)
    rw [mem_keySet, after] at present
    exact present.resolve_right fun survives => survives.2 shared.2
  · intro keeps kind key member
    rw [mem_keySet, after]
    rcases Finset.mem_union.mp member with listed | fed
    · by_cases shared : key ∈ history.latestFirehol.keys kind
      · exact Or.inl (keeps rfl kind (Finset.mem_inter.mpr ⟨listed, shared⟩))
      · have present := safe kind (Finset.mem_union_left _ listed)
        exact Or.inr ⟨(mem_keySet _ key).mp present, shared⟩
    · exact Or.inl fed

theorem noRuleLost_iff_keepsSharedKeys (calls : List Call) :
    HoldsThroughout History.succeed History.start NoRuleLost calls ↔
      StepsMeet History.succeed History.start KeepsSharedKeys calls := by
  apply holdsThroughout_iff_stepsMeet History.succeed History.start Complete NoRuleLost
    KeepsSharedKeys start_complete succeed_complete start_noRuleLost
  intro history call complete safe
  obtain ⟨source, rules, hashing⟩ := call
  cases source with
  | static => simp [noRuleLost_static history rules hashing complete, KeepsSharedKeys]
  | firehol => exact noRuleLost_firehol_iff history rules hashing complete safe

def oneAddress (addr : Octets 4) (ruleId : BitVec 32) : ParsedRuleSet :=
  { ParsedRuleSet.new with exactV4 := AList.singleton addr (RuleValue.drop ruleId) }

theorem mem_oneAddress (addr : Octets 4) (ruleId : BitVec 32) :
    addr ∈ (oneAddress addr ruleId).keys .ipv4Exact := by
  simp [ParsedRuleSet.keys, oneAddress, keySet]

-- 192.0.2.1 is a static rule and in a feed; the next feed no longer lists it.
theorem staticRule_lost :
    ¬ ∃ hashing : Hashing, HoldsThroughout History.succeed History.start NoRuleLost
      [⟨.static, oneAddress #v[192, 0, 2, 1] staticRuleBase, hashing⟩,
       ⟨.firehol, oneAddress #v[192, 0, 2, 1] 1, hashing⟩,
       ⟨.firehol, .new, hashing⟩] := by
  rintro ⟨hashing, holds⟩
  let rules := oneAddress #v[192, 0, 2, 1] staticRuleBase
  let feed := oneAddress #v[192, 0, 2, 1] 1
  have listed : #v[192, 0, 2, 1] ∈ rules.keys .ipv4Exact := mem_oneAddress _ _
  have owned : #v[192, 0, 2, 1] ∈ feed.keys .ipv4Exact := mem_oneAddress _ _
  have kept := holds _ (List.prefix_refl _) .ipv4Exact (Finset.mem_union_left _ listed)
  rw [mem_keySet] at kept
  rcases (mem_step_firehol ..).mp kept with installed | ⟨_, unowned⟩
  · rw [installs_allSucceed] at installed
    exact new_keys .ipv4Exact _ installed
  · apply unowned
    change _ ∈ (History.step _ (⟨.firehol, feed, hashing⟩, allSucceed)).owned .ipv4Exact
    rw [step_firehol_owned, installs_allSucceed]
    exact owned

def ValuesFresh (history : History) : Prop :=
  ∀ kind key value, (history.map kind).lookup key = some value →
    history.latestStatic.Assigns kind key value ∨ history.latestFirehol.Assigns kind key value

def LeavesFeedValues (history : History) (call : Call) : Prop :=
  call.source = .static → ∀ kind, ∀ key ∈ history.latestFirehol.keys kind,
    key ∉ call.rules.keys kind → ∀ value, history.asked kind key = some value →
      history.latestFirehol.Assigns kind key value

theorem start_valuesFresh : ValuesFresh History.start := by
  intro kind key value found
  exact absurd (lookup_eq_some_mem found) (start_map kind key)

theorem valuesFresh_firehol (history : History) (rules : ParsedRuleSet) (hashing : Hashing)
    (complete : Complete history) (fresh : ValuesFresh history) :
    ValuesFresh (history.succeed ⟨.firehol, rules, hashing⟩) := by
  intro kind key value found
  rw [succeed_lookup] at found
  split_ifs at found with listed kept
  · exact Or.inr (finalValue_assigns found)
  · refine Or.inl ((fresh kind key value found).resolve_right fun fed => ?_)
    have owned := complete.owns kind key ((history.latestFirehol.mem_keys kind key).mpr ⟨value, fed⟩)
    simp [owned] at kept

theorem valuesFresh_static_iff (history : History) (rules : ParsedRuleSet) (hashing : Hashing)
    (complete : Complete history) :
    ValuesFresh (history.succeed ⟨.static, rules, hashing⟩) ↔
      LeavesFeedValues history ⟨.static, rules, hashing⟩ := by
  constructor
  · intro fresh _ kind key fed dropped value asked
    have owned := complete.owns kind key fed
    obtain ⟨stored, found⟩ := Option.isSome_iff_exists.mp
      (mem_iff_of_lookup.mp (complete.accounted.present kind key owned))
    obtain rfl : stored = value := Option.some.inj ((complete.carries kind key stored found).symm.trans asked)
    have after := succeed_lookup history ⟨.static, rules, hashing⟩ kind key
    rw [if_neg dropped, if_pos (by simp [owned]), found] at after
    -- The new static set does not list the key, so only the feed can have assigned the value.
    refine (fresh kind key stored after).resolve_left fun assigned => dropped ?_
    exact (rules.mem_keys kind key).mpr ⟨stored, assigned⟩
  · intro leaves kind key value found
    rw [succeed_lookup] at found
    split_ifs at found with listed kept
    · exact Or.inl (finalValue_assigns found)
    · have fed := (complete.owned_iff kind key).mp (kept.mpr rfl)
      exact Or.inr (leaves rfl kind key fed listed value (complete.carries kind key value found))

theorem valuesFresh_iff_leavesFeedValues (calls : List Call) :
    HoldsThroughout History.succeed History.start ValuesFresh calls ↔
      StepsMeet History.succeed History.start LeavesFeedValues calls := by
  apply holdsThroughout_iff_stepsMeet History.succeed History.start Complete ValuesFresh
    LeavesFeedValues start_complete succeed_complete start_valuesFresh
  intro history call complete fresh
  obtain ⟨source, rules, hashing⟩ := call
  cases source with
  | static => exact valuesFresh_static_iff history rules hashing complete
  | firehol => simp [valuesFresh_firehol history rules hashing complete fresh, LeavesFeedValues]

-- A feed lists 192.0.2.1, a static file takes the address over and then drops it again.
theorem staticRuleId_stale :
    ¬ ∃ hashing : Hashing, HoldsThroughout History.succeed History.start ValuesFresh
      [⟨.firehol, oneAddress #v[192, 0, 2, 1] 1, hashing⟩,
       ⟨.static, oneAddress #v[192, 0, 2, 1] staticRuleBase, hashing⟩,
       ⟨.static, .new, hashing⟩] := by
  rintro ⟨hashing, holds⟩
  let fed := History.start.succeed ⟨.firehol, oneAddress #v[192, 0, 2, 1] 1, hashing⟩
  let taken := fed.succeed ⟨.static, oneAddress #v[192, 0, 2, 1] staticRuleBase, hashing⟩
  have owned : #v[192, 0, 2, 1] ∈ fed.owned .ipv4Exact :=
    (step_firehol_owned ..).symm ▸ (installs_allSucceed ..).mpr (mem_oneAddress _ _)
  obtain ⟨value, assigned, stored⟩ := step_static_lookup_installed fed _ hashing allSucceed
    .ipv4Exact _ ((installs_allSucceed ..).mpr (mem_oneAddress #v[192, 0, 2, 1] staticRuleBase))
  have stale := step_static_lookup_kept taken .new hashing allSucceed .ipv4Exact #v[192, 0, 2, 1]
    fun installed => new_keys _ _ ((installs_allSucceed ..).mp installed)
  have still : #v[192, 0, 2, 1] ∈ taken.owned .ipv4Exact :=
    (step_static_owned ..).symm ▸ owned
  rw [if_pos still] at stale
  have fresh := holds _ (List.prefix_refl _) .ipv4Exact _ value (stale.trans stored)
  obtain rfl : RuleValue.drop staticRuleBase = value := by
    simpa [ParsedRuleSet.Assigns, oneAddress, AList.lookup] using assigned
  rcases fresh with dropped | feed
  · simp [History.succeed, History.step, ParsedRuleSet.Assigns, ParsedRuleSet.new, run] at dropped
  · have same : RuleValue.drop 1 = RuleValue.drop staticRuleBase := by
      simpa [History.succeed, History.step, ParsedRuleSet.Assigns, oneAddress, run, AList.lookup]
        using feed
    exact absurd same (by decide)

end ReputationFirewall.Maps
