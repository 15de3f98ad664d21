import ReputationFirewall.Maps.DifferentialSync
import ReputationFirewall.Rules.RuleSet
import ReputationFirewall.Shared.Runs

set_option autoImplicit false

namespace ReputationFirewall.Maps

open BigEndian KeyedStore

structure SyncReport where
  ipv4ExactInserted : Nat
  ipv6ExactInserted : Nat
  ipv4LpmInserted : Nat
  ipv6LpmInserted : Nat
  entriesRemoved : Nat
  deriving DecidableEq

structure MapManager where
  ipv4Exact : Store (Octets 4) RuleValue
  ipv6Exact : Store (Octets 16) RuleValue
  ipv4Lpm : Store (Nat × Octets 4) RuleValue
  ipv6Lpm : Store (Nat × Octets 16) RuleValue
  installedFireholV4Exact : Finset (Octets 4)
  installedFireholV6Exact : Finset (Octets 16)
  installedFireholV4Lpm : Finset (Nat × Octets 4)
  installedFireholV6Lpm : Finset (Nat × Octets 16)

def MapManager.new : MapManager :=
  { ipv4Exact := ∅, ipv6Exact := ∅, ipv4Lpm := ∅, ipv6Lpm := ∅
    installedFireholV4Exact := ∅, installedFireholV6Exact := ∅
    installedFireholV4Lpm := ∅, installedFireholV6Lpm := ∅ }

def MapManager.slot (manager : MapManager) : (kind : MapKind) → Slot kind.Key RuleValue
  | .ipv4Exact => ⟨manager.ipv4Exact, manager.installedFireholV4Exact⟩
  | .ipv6Exact => ⟨manager.ipv6Exact, manager.installedFireholV6Exact⟩
  | .ipv4Lpm => ⟨manager.ipv4Lpm, manager.installedFireholV4Lpm⟩
  | .ipv6Lpm => ⟨manager.ipv6Lpm, manager.installedFireholV6Lpm⟩

structure Hashing where
  entryOrder : (kind : MapKind) → HashOrder kind.Key
  staleOrder : (kind : MapKind) → HashOrder kind.Key

noncomputable def Hashing.arbitrary : Hashing :=
  ⟨fun kind => .arbitrary kind.Key, fun kind => .arbitrary kind.Key⟩

-- Whether the n-th insert into each map succeeds during one call.
abbrev Outcomes := MapKind → Nat → Bool

def allSucceed : Outcomes := fun _ _ => true

abbrev SlotSynchronization :=
  {K : Type} → [DecidableEq K] → HashOrder K → (Nat → Bool) → Slot K RuleValue →
    List (K × RuleValue) → SlotSync K RuleValue

def synchronize (sync : SlotSynchronization) (hashing : Hashing) (ok : Outcomes)
    (manager : MapManager) (rules : ParsedRuleSet) : MapManager × SyncReport :=
  let one := fun kind => sync (hashing.staleOrder kind) (ok kind) (manager.slot kind)
    (rules.entries kind (hashing.entryOrder kind))
  ({ ipv4Exact := (one .ipv4Exact).slot.map
     ipv6Exact := (one .ipv6Exact).slot.map
     ipv4Lpm := (one .ipv4Lpm).slot.map
     ipv6Lpm := (one .ipv6Lpm).slot.map
     installedFireholV4Exact := (one .ipv4Exact).slot.firehol
     installedFireholV6Exact := (one .ipv6Exact).slot.firehol
     installedFireholV4Lpm := (one .ipv4Lpm).slot.firehol
     installedFireholV6Lpm := (one .ipv6Lpm).slot.firehol },
   { ipv4ExactInserted := (one .ipv4Exact).inserted
     ipv6ExactInserted := (one .ipv6Exact).inserted
     ipv4LpmInserted := (one .ipv4Lpm).inserted
     ipv6LpmInserted := (one .ipv6Lpm).inserted
     entriesRemoved := (one .ipv4Exact).removed + (one .ipv6Exact).removed +
       (one .ipv4Lpm).removed + (one .ipv6Lpm).removed })

def syncRules : Hashing → Outcomes → MapManager → ParsedRuleSet → MapManager × SyncReport :=
  synchronize syncStatic

def syncFireholRules : Hashing → Outcomes → MapManager → ParsedRuleSet → MapManager × SyncReport :=
  synchronize syncFirehol

theorem synchronize_slot (sync : SlotSynchronization) (hashing : Hashing) (ok : Outcomes)
    (manager : MapManager) (rules : ParsedRuleSet) (kind : MapKind) :
    (synchronize sync hashing ok manager rules).1.slot kind =
      (sync (hashing.staleOrder kind) (ok kind) (manager.slot kind)
        (rules.entries kind (hashing.entryOrder kind))).slot := by
  cases kind <;> rfl

theorem syncRules_slot (hashing : Hashing) (ok : Outcomes) (manager : MapManager)
    (rules : ParsedRuleSet) (kind : MapKind) :
    (syncRules hashing ok manager rules).1.slot kind =
      (syncStatic (hashing.staleOrder kind) (ok kind) (manager.slot kind)
        (rules.entries kind (hashing.entryOrder kind))).slot :=
  synchronize_slot syncStatic hashing ok manager rules kind

theorem syncFireholRules_slot (hashing : Hashing) (ok : Outcomes) (manager : MapManager)
    (rules : ParsedRuleSet) (kind : MapKind) :
    (syncFireholRules hashing ok manager rules).1.slot kind =
      (syncFirehol (hashing.staleOrder kind) (ok kind) (manager.slot kind)
        (rules.entries kind (hashing.entryOrder kind))).slot :=
  synchronize_slot syncFirehol hashing ok manager rules kind

def installs (hashing : Hashing) (ok : Outcomes) (rules : ParsedRuleSet) (kind : MapKind) :
    Finset kind.Key :=
  installedKeys (ok kind) (rules.entries kind (hashing.entryOrder kind))

theorem installs_subset (hashing : Hashing) (ok : Outcomes) (rules : ParsedRuleSet)
    (kind : MapKind) (key : kind.Key) (installed : key ∈ installs hashing ok rules kind) :
    key ∈ rules.keys kind := by
  rw [← rules.mem_entries_keys kind (hashing.entryOrder kind)]
  exact installedKeys_subset _ _ key installed

@[simp] theorem installs_allSucceed (hashing : Hashing) (rules : ParsedRuleSet) (kind : MapKind)
    (key : kind.Key) : key ∈ installs hashing allSucceed rules kind ↔ key ∈ rules.keys kind := by
  rw [← rules.mem_entries_keys kind (hashing.entryOrder kind)]
  exact installedKeys_all _ _ (fun _ => rfl) key

section Effects

variable (hashing : Hashing) (ok : Outcomes) (manager : MapManager) (rules : ParsedRuleSet)
  (kind : MapKind) (key : kind.Key)

theorem syncRules_firehol :
    ((syncRules hashing ok manager rules).1.slot kind).firehol = (manager.slot kind).firehol := by
  simp [syncRules_slot, syncStatic_firehol]

theorem syncFireholRules_firehol :
    ((syncFireholRules hashing ok manager rules).1.slot kind).firehol =
      installs hashing ok rules kind := by
  simp [syncFireholRules_slot, syncFirehol_firehol, installs]

theorem mem_syncRules :
    key ∈ ((syncRules hashing ok manager rules).1.slot kind).map ↔
      key ∈ installs hashing ok rules kind ∨
        key ∈ (manager.slot kind).map ∧ key ∈ (manager.slot kind).firehol := by
  simp [syncRules_slot, mem_syncStatic, installs]

theorem mem_syncFireholRules :
    key ∈ ((syncFireholRules hashing ok manager rules).1.slot kind).map ↔
      key ∈ installs hashing ok rules kind ∨
        key ∈ (manager.slot kind).map ∧ key ∉ (manager.slot kind).firehol := by
  simp [syncFireholRules_slot, mem_syncFirehol, installs]

theorem syncRules_lookup_installed (installed : key ∈ installs hashing ok rules kind) :
    ∃ value, rules.Assigns kind key value ∧
      ((syncRules hashing ok manager rules).1.slot kind).map.lookup key = some value := by
  obtain ⟨value, member, found⟩ :=
    mem_installedKeys_entry _ (manager.slot kind).map _ key installed
  refine ⟨value, (rules.mem_entries kind _ key value).mp member, ?_⟩
  simp only [installs] at installed
  simp [syncRules_slot, syncStatic_lookup, installed, found]

theorem syncRules_lookup_kept (skipped : key ∉ installs hashing ok rules kind) :
    ((syncRules hashing ok manager rules).1.slot kind).map.lookup key =
      if key ∈ (manager.slot kind).firehol then (manager.slot kind).map.lookup key else none := by
  simp only [installs] at skipped
  simp [syncRules_slot, syncStatic_lookup, skipped]

theorem syncFireholRules_lookup_kept (skipped : key ∉ installs hashing ok rules kind) :
    ((syncFireholRules hashing ok manager rules).1.slot kind).map.lookup key =
      if key ∈ (manager.slot kind).firehol then none else (manager.slot kind).map.lookup key := by
  simp only [installs] at skipped
  simp [syncFireholRules_slot, syncFirehol_lookup, skipped]

theorem lookup_accepted_allSucceed (map : Store kind.Key RuleValue) (order : HashOrder kind.Key)
    (listed : key ∈ rules.keys kind) :
    (insertAll map (accepted (allSucceed kind) 0 (rules.entries kind order))).lookup key =
      rules.finalValue kind key := by
  have some : (rules.finalValue kind key).isSome := by
    rwa [← rules.lastValue_entries kind order, lastValue_isSome, rules.mem_entries_keys]
  rw [accepted_all _ _ _ fun _ _ => rfl, lookup_insertAll, rules.lastValue_entries]
  exact Option.or_of_isSome some

theorem syncRules_lookup_listed (listed : key ∈ rules.keys kind) :
    ((syncRules hashing allSucceed manager rules).1.slot kind).map.lookup key =
      rules.finalValue kind key := by
  have installed := (installs_allSucceed hashing rules kind key).mpr listed
  simp only [installs] at installed
  rw [syncRules_slot, syncStatic_lookup, if_pos installed, lookup_accepted_allSucceed _ _ _ _ _ listed]

theorem syncFireholRules_lookup_listed (listed : key ∈ rules.keys kind) :
    ((syncFireholRules hashing allSucceed manager rules).1.slot kind).map.lookup key =
      rules.finalValue kind key := by
  have installed := (installs_allSucceed hashing rules kind key).mpr listed
  simp only [installs] at installed
  rw [syncFireholRules_slot, syncFirehol_lookup, if_pos installed,
    lookup_accepted_allSucceed _ _ _ _ _ listed]

end Effects

end ReputationFirewall.Maps
