import ReputationFirewall.Maps.InsertFailures

set_option autoImplicit false

namespace ReputationFirewall.Maps

open KeyedStore

section Ownership

variable (call : Call) (manager : MapManager) (kind : MapKind)

theorem Call.apply_firehol :
    ((call.apply allSucceed manager).1.slot kind).firehol =
      if call.source = .static then (manager.slot kind).firehol else call.rules.keys kind := by
  obtain ⟨source, rules, hashing⟩ := call
  cases source with
  | static => exact syncRules_firehol hashing allSucceed manager rules kind
  | firehol =>
      refine (syncFireholRules_firehol hashing allSucceed manager rules kind).trans ?_
      ext key
      exact installs_allSucceed hashing rules kind key

theorem Call.apply_present (fed : call.source = .firehol) :
    ∀ key ∈ ((call.apply allSucceed manager).1.slot kind).firehol,
      key ∈ ((call.apply allSucceed manager).1.slot kind).map := by
  intro key owned
  rw [call.apply_firehol, if_neg (by simp [fed])] at owned
  rw [mem_iff_of_lookup, call.apply_lookup, if_pos owned, Option.isSome_iff_ne_none, ne_eq, finalValue_unlisted,
    not_not]
  exact owned

end Ownership

theorem removedCount_eq_zero {before after : MapManager}
    (same : ∀ kind key, (after.slot kind).map.lookup key = (before.slot kind).map.lookup key) :
    removedCount before after = 0 := by
  refine List.sum_eq_zero fun count member => ?_
  obtain ⟨kind, _, rfl⟩ := List.mem_map.mp member
  rw [Finset.card_eq_zero, Finset.sdiff_eq_empty_iff_subset]
  intro key present
  rw [mem_keySet, mem_iff_of_lookup] at present ⊢
  rwa [same]

section Repetition

def Call.again (call : Call) (hashing : Hashing) : Call := { call with hashing }

variable (call : Call) (hashing : Hashing) (manager : MapManager)

theorem apply_again_lookup (kind : MapKind) (key : kind.Key) :
    (((call.again hashing).apply allSucceed (call.apply allSucceed manager).1).1.slot kind).map.lookup key =
      ((call.apply allSucceed manager).1.slot kind).map.lookup key := by
  rw [Call.apply_lookup, Call.apply_lookup, Call.apply_firehol, Call.again]
  by_cases listed : key ∈ call.rules.keys kind
  · rw [if_pos listed, if_pos listed]
  · rw [if_neg listed, if_neg listed]
    cases call.source with
    | static => by_cases owned : key ∈ (manager.slot kind).firehol <;> simp [owned]
    | firehol => simp [listed]

theorem sync_idempotent (call : Call) (hashing : Hashing) (manager : MapManager) :
    (∀ kind key, (((call.again hashing).apply allSucceed (call.apply allSucceed manager).1).1.slot kind).map.lookup key =
        ((call.apply allSucceed manager).1.slot kind).map.lookup key) ∧
      (∀ kind, (((call.again hashing).apply allSucceed (call.apply allSucceed manager).1).1.slot kind).firehol =
        ((call.apply allSucceed manager).1.slot kind).firehol) ∧
      ((call.again hashing).apply allSucceed (call.apply allSucceed manager).1).2.entriesRemoved = 0 := by
  have same := apply_again_lookup call hashing manager
  refine ⟨same, fun kind => ?_, ?_⟩
  · rw [Call.apply_firehol, Call.apply_firehol, Call.again]
    split_ifs <;> rfl
  · refine Eq.trans ?_ (removedCount_eq_zero same)
    obtain ⟨source, rules, first⟩ := call
    cases source with
    | static => exact syncRules_removed hashing allSucceed _ rules
    | firehol =>
        exact syncFireholRules_removed hashing allSucceed rules fun kind => Call.apply_present _ manager kind rfl

end Repetition

end ReputationFirewall.Maps
