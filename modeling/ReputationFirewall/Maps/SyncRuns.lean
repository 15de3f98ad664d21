import ReputationFirewall.Maps.MapManager

set_option autoImplicit false

namespace ReputationFirewall.Maps

open KeyedStore Runs

inductive Source where
  | static
  | firehol
  deriving DecidableEq

structure Call where
  source : Source
  rules : ParsedRuleSet
  hashing : Hashing

def Call.apply (call : Call) (ok : Outcomes) (manager : MapManager) : MapManager × SyncReport :=
  match call.source with
  | .static => syncRules call.hashing ok manager call.rules
  | .firehol => syncFireholRules call.hashing ok manager call.rules

-- `asked` is the value that the last call listing a key gave to it.
structure History where
  manager : MapManager
  latestStatic : ParsedRuleSet
  latestFirehol : ParsedRuleSet
  asked : (kind : MapKind) → kind.Key → Option RuleValue

def History.start : History := ⟨.new, .new, .new, fun _ _ => none⟩

def History.step (history : History) (attempt : Call × Outcomes) : History :=
  let manager := (attempt.1.apply attempt.2 history.manager).1
  let asked := fun kind key => (attempt.1.rules.finalValue kind key).or (history.asked kind key)
  match attempt.1.source with
  | .static => { history with manager, asked, latestStatic := attempt.1.rules }
  | .firehol => { history with manager, asked, latestFirehol := attempt.1.rules }

def History.succeed (history : History) (call : Call) : History :=
  history.step (call, allSucceed)

abbrev History.map (history : History) (kind : MapKind) : Store kind.Key RuleValue :=
  (history.manager.slot kind).map

abbrev History.owned (history : History) (kind : MapKind) : Finset kind.Key :=
  (history.manager.slot kind).firehol

theorem new_keys (kind : MapKind) (key : kind.Key) : key ∉ ParsedRuleSet.new.keys kind := by
  cases kind <;> simp [ParsedRuleSet.keys, ParsedRuleSet.new]

theorem start_map (kind : MapKind) (key : kind.Key) : key ∉ History.start.map kind := by
  cases kind <;> simp [History.map, History.start, MapManager.new, MapManager.slot]

theorem start_owned (kind : MapKind) (key : kind.Key) : key ∉ History.start.owned kind := by
  cases kind <;> simp [History.owned, History.start, MapManager.new, MapManager.slot]

section Steps

variable (history : History) (rules : ParsedRuleSet) (hashing : Hashing) (ok : Outcomes)
  (kind : MapKind) (key : kind.Key)

theorem step_static_owned :
    (history.step (⟨.static, rules, hashing⟩, ok)).owned kind = history.owned kind :=
  syncRules_firehol hashing ok history.manager rules kind

theorem step_firehol_owned :
    (history.step (⟨.firehol, rules, hashing⟩, ok)).owned kind = installs hashing ok rules kind :=
  syncFireholRules_firehol hashing ok history.manager rules kind

theorem mem_step_static :
    key ∈ (history.step (⟨.static, rules, hashing⟩, ok)).map kind ↔
      key ∈ installs hashing ok rules kind ∨ key ∈ history.map kind ∧ key ∈ history.owned kind :=
  mem_syncRules hashing ok history.manager rules kind key

theorem mem_step_firehol :
    key ∈ (history.step (⟨.firehol, rules, hashing⟩, ok)).map kind ↔
      key ∈ installs hashing ok rules kind ∨ key ∈ history.map kind ∧ key ∉ history.owned kind :=
  mem_syncFireholRules hashing ok history.manager rules kind key

theorem step_static_lookup_installed (installed : key ∈ installs hashing ok rules kind) :
    ∃ value, rules.Assigns kind key value ∧
      ((history.step (⟨.static, rules, hashing⟩, ok)).map kind).lookup key = some value :=
  syncRules_lookup_installed hashing ok history.manager rules kind key installed

theorem step_static_lookup_kept (skipped : key ∉ installs hashing ok rules kind) :
    ((history.step (⟨.static, rules, hashing⟩, ok)).map kind).lookup key =
      if key ∈ history.owned kind then (history.map kind).lookup key else none :=
  syncRules_lookup_kept hashing ok history.manager rules kind key skipped

theorem step_asked (call : Call) :
    (history.step (call, ok)).asked kind key =
      (call.rules.finalValue kind key).or (history.asked kind key) := by
  obtain ⟨source, rules, hashing⟩ := call
  cases source <;> rfl

theorem first_static_keySet :
    keySet ((History.start.step (⟨.static, rules, hashing⟩, allSucceed)).map kind) =
      rules.keys kind := by
  ext key
  rw [mem_keySet, mem_step_static, installs_allSucceed]
  exact or_iff_left fun kept => start_owned kind key kept.2

end Steps

structure Accounted (history : History) : Prop where
  present : ∀ kind, ∀ key ∈ history.owned kind, key ∈ history.map kind
  listed : ∀ kind, ∀ key ∈ history.owned kind, key ∈ history.latestFirehol.keys kind
  covered : ∀ kind, ∀ key ∈ history.map kind,
    key ∈ history.latestStatic.keys kind ∨ key ∈ history.owned kind

theorem start_accounted : Accounted History.start where
  present kind key member := absurd member (start_owned kind key)
  listed kind key member := absurd member (start_owned kind key)
  covered kind key member := absurd member (start_map kind key)

theorem step_static_accounted (history : History) (rules : ParsedRuleSet) (hashing : Hashing)
    (ok : Outcomes) (accounted : Accounted history) :
    Accounted (history.step (⟨.static, rules, hashing⟩, ok)) := by
  constructor
  case present =>
    intro kind key member
    rw [step_static_owned] at member
    exact (mem_step_static ..).mpr (Or.inr ⟨accounted.present kind key member, member⟩)
  case listed =>
    intro kind key member
    rw [step_static_owned] at member
    exact accounted.listed kind key member
  case covered =>
    intro kind key member
    rw [step_static_owned]
    rcases (mem_step_static ..).mp member with installed | kept
    · exact Or.inl (installs_subset hashing ok rules kind key installed)
    · exact Or.inr kept.2

theorem step_firehol_accounted (history : History) (rules : ParsedRuleSet) (hashing : Hashing)
    (ok : Outcomes) (accounted : Accounted history) :
    Accounted (history.step (⟨.firehol, rules, hashing⟩, ok)) := by
  constructor
  case present =>
    intro kind key member
    rw [step_firehol_owned] at member
    exact (mem_step_firehol ..).mpr (Or.inl member)
  case listed =>
    intro kind key member
    rw [step_firehol_owned] at member
    exact installs_subset hashing ok rules kind key member
  case covered =>
    intro kind key member
    rw [step_firehol_owned]
    -- A key that survives without being owned was static already before the call.
    rcases (mem_step_firehol ..).mp member with installed | kept
    · exact Or.inr installed
    · exact Or.inl ((accounted.covered kind key kept.1).resolve_right kept.2)

theorem step_accounted (history : History) (attempt : Call × Outcomes)
    (accounted : Accounted history) : Accounted (history.step attempt) := by
  obtain ⟨⟨source, rules, hashing⟩, ok⟩ := attempt
  cases source with
  | static => exact step_static_accounted history rules hashing ok accounted
  | firehol => exact step_firehol_accounted history rules hashing ok accounted

theorem run_accounted (attempts : List (Call × Outcomes)) :
    Accounted (run History.step History.start attempts) :=
  run_invariant History.step Accounted History.start start_accounted step_accounted attempts

theorem noStaleRule (attempts : List (Call × Outcomes)) (kind : MapKind) :
    let history := run History.step History.start attempts
    keySet (history.map kind) ⊆ history.latestStatic.keys kind ∪ history.latestFirehol.keys kind := by
  intro history key member
  have accounted := run_accounted attempts
  rw [mem_keySet] at member
  rw [Finset.mem_union]
  rcases accounted.covered kind key member with listed | owned
  · exact Or.inl listed
  · exact Or.inr (accounted.listed kind key owned)

structure Complete (history : History) : Prop where
  accounted : Accounted history
  owns : ∀ kind, ∀ key ∈ history.latestFirehol.keys kind, key ∈ history.owned kind
  carries : ∀ kind key value, (history.map kind).lookup key = some value →
    history.asked kind key = some value

theorem start_complete : Complete History.start where
  accounted := start_accounted
  owns kind key member := absurd member (new_keys kind key)
  carries kind key _ found := absurd (lookup_eq_some_mem found) (start_map kind key)

theorem succeed_owns (history : History) (call : Call) (complete : Complete history) (kind : MapKind) :
    ∀ key ∈ (history.succeed call).latestFirehol.keys kind, key ∈ (history.succeed call).owned kind := by
  obtain ⟨source, rules, hashing⟩ := call
  intro key member
  cases source with
  | static =>
      rw [History.succeed, step_static_owned]
      exact complete.owns kind key member
  | firehol =>
      rw [History.succeed, step_firehol_owned, installs_allSucceed]
      exact member

theorem Call.apply_lookup (call : Call) (manager : MapManager) (kind : MapKind) (key : kind.Key) :
    ((call.apply allSucceed manager).1.slot kind).map.lookup key =
      if key ∈ call.rules.keys kind then call.rules.finalValue kind key
      else if key ∈ (manager.slot kind).firehol ↔ call.source = .static then (manager.slot kind).map.lookup key
      else none := by
  obtain ⟨source, rules, hashing⟩ := call
  by_cases listed : key ∈ rules.keys kind
  · rw [if_pos listed]
    cases source with
    | static => exact syncRules_lookup_listed hashing manager rules kind key listed
    | firehol => exact syncFireholRules_lookup_listed hashing manager rules kind key listed
  · have skipped : key ∉ installs hashing allSucceed rules kind := by simpa using listed
    cases source with
    | static =>
        simpa [listed, Call.apply] using syncRules_lookup_kept hashing allSucceed manager rules kind key skipped
    | firehol =>
        simpa [listed, Call.apply] using syncFireholRules_lookup_kept hashing allSucceed manager rules kind key skipped

theorem succeed_lookup (history : History) (call : Call) (kind : MapKind) (key : kind.Key) :
    ((history.succeed call).map kind).lookup key =
      if key ∈ call.rules.keys kind then call.rules.finalValue kind key
      else if key ∈ history.owned kind ↔ call.source = .static then (history.map kind).lookup key
      else none := by
  rw [← call.apply_lookup history.manager kind key]
  obtain ⟨source, rules, hashing⟩ := call
  cases source <;> rfl

theorem finalValue_unlisted (rules : ParsedRuleSet) (kind : MapKind) (key : kind.Key) :
    rules.finalValue kind key = none ↔ key ∉ rules.keys kind := by
  rw [← rules.lastValue_entries kind (.arbitrary _), ← Option.not_isSome_iff_eq_none, lastValue_isSome,
    rules.mem_entries_keys]

theorem finalValue_assigns {rules : ParsedRuleSet} {kind : MapKind} {key : kind.Key} {value : RuleValue}
    (final : rules.finalValue kind key = some value) : rules.Assigns kind key value := by
  rw [← rules.lastValue_entries kind (.arbitrary _)] at final
  exact (rules.mem_entries kind _ key value).mp (lastValue_mem final)

theorem succeed_carries (history : History) (call : Call) (complete : Complete history) (kind : MapKind)
    (key : kind.Key) (value : RuleValue)
    (found : ((history.succeed call).map kind).lookup key = some value) :
    (history.succeed call).asked kind key = some value := by
  rw [succeed_lookup] at found
  rw [History.succeed, step_asked]
  split_ifs at found with listed kept
  · simp [found]
  · simp [(finalValue_unlisted ..).mpr listed, complete.carries kind key value found]

theorem succeed_complete (history : History) (call : Call) (complete : Complete history) :
    Complete (history.succeed call) where
  accounted := step_accounted history (call, allSucceed) complete.accounted
  owns := succeed_owns history call complete
  carries := succeed_carries history call complete

theorem Complete.owned_iff {history : History} (complete : Complete history) (kind : MapKind)
    (key : kind.Key) : key ∈ history.owned kind ↔ key ∈ history.latestFirehol.keys kind :=
  ⟨complete.accounted.listed kind key, complete.owns kind key⟩

end ReputationFirewall.Maps
