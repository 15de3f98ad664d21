import ReputationFirewall.RingBuf.ConsumerLoop

set_option autoImplicit false

namespace ReputationFirewall.RingBuf

open CounterVec Firehol KeyedStore Metrics Rules Runs Xdp

section Registries

def SameCategories (first second : FireholMetadataRegistry) : Prop :=
  ∀ ruleId, ruleId ≠ 0 →
    (first.resolveRule ruleId).map RuleBlockEntry.category = (second.resolveRule ruleId).map RuleBlockEntry.category

structure Importable (metadata : List FireholMetadata) (nextMetadataId : BitVec 32)
    (batches : List (List FireholEntry)) : Prop where
  nonempty : ∀ batch ∈ batches, batch ≠ []
  range : ∀ entry ∈ batches.flatten, entry.target.PrefixInRange
  registered : ∀ entry ∈ batches.flatten, Registered metadata nextMetadataId entry
  numbered : ∀ record ∈ metadata, record.id ≠ 0

theorem sameCategories_of_resolves {metadata : List FireholMetadata} {entries : List FireholEntry}
    {first second : FireholMetadataRegistry} (resolvesFirst : ResolvesRules metadata entries first)
    (resolvesSecond : ResolvesRules metadata entries second) : SameCategories first second := by
  intro ruleId nonzero
  by_cases known : ∃ entry ∈ entries, entry.ruleId = ruleId
  · obtain ⟨entry, member, rfl⟩ := known
    obtain ⟨_, found⟩ := resolvesFirst.known entry member
    obtain ⟨_, foundToo⟩ := resolvesSecond.known entry member
    rw [found, foundToo]
    rfl
  · have outside : ∀ entry ∈ entries, entry.ruleId ≠ ruleId := fun entry member same => known ⟨entry, member, same⟩
    rw [resolvesFirst.unknown ruleId nonzero outside, resolvesSecond.unknown ruleId nonzero outside]

end Registries

section Runs

inductive SameAction : DaemonAction → DaemonAction → Prop where
  | reload {sizeInBytes : List Put → Nat} {orders otherOrders : IndexOrders} {storage otherStorage : Storage}
      {metadata : List FireholMetadata} {nextMetadataId : BitVec 32} {batches : List (List FireholEntry)}
      {imported otherImported : ImportedDataSet} (importable : Importable metadata nextMetadataId batches)
      (done : importBatches sizeInBytes storage orders metadata nextMetadataId batches = some (.ok imported))
      (otherDone : importBatches sizeInBytes otherStorage otherOrders metadata nextMetadataId batches =
        some (.ok otherImported)) :
      SameAction (.publishRegistry imported.registry) (.publishRegistry otherImported.registry)
  | same (action : DaemonAction) : SameAction action action

inductive SamePhase : Phase → Phase → Prop where
  | waiting : SamePhase .waiting .waiting
  | draining {snapshot other : Option FireholMetadataRegistry} (same : Option.Rel SameCategories snapshot other) :
      SamePhase (.draining snapshot) (.draining other)
  | stopped : SamePhase .stopped .stopped

structure Alike (state other : Daemon) : Prop where
  stats : state.stats = other.stats
  ring : state.ring = other.ring
  registry : Option.Rel SameCategories state.registry other.registry
  shutdown : state.shutdown = other.shutdown
  phase : SamePhase state.phase other.phase
  sampled : state.sampled = other.sampled
  metrics : state.metrics = other.metrics

theorem sameCategories_refl (registry : FireholMetadataRegistry) : SameCategories registry registry :=
  fun _ _ => rfl

theorem recordItem_same (metrics : TelemetryMetrics) {snapshot other : Option FireholMetadataRegistry}
    (same : Option.Rel SameCategories snapshot other) {event : PacketLogEvent} (nonzero : event.ruleId ≠ 0) :
    metrics.recordItem snapshot event.item = metrics.recordItem other event.item := by
  rw [recordItem_event (PacketLogEvent.ofItem_item event), recordItem_event (PacketLogEvent.ofItem_item event)]
  cases same with
  | none => rfl
  | some same =>
      rename_i first second
      have categories := same event.ruleId nonzero
      simp only [Option.bind_some]
      cases found : first.resolveRule event.ruleId <;> cases foundToo : second.resolveRule event.ruleId <;>
        simp_all [TelemetryMetrics.recordEvent]

variable {state other : Daemon}

theorem Alike.start (registry : Option FireholMetadataRegistry) (metrics : Option TelemetryMetrics) (quiet : Bool) :
    Alike (.start registry metrics quiet) (.start registry metrics quiet) := by
  refine ⟨rfl, rfl, ?_, rfl, .waiting, rfl, rfl⟩
  change Option.Rel SameCategories registry registry
  cases registry with
  | none => exact .none
  | some registry => exact .some (sameCategories_refl registry)

theorem Alike.receive (alike : Alike state other) (arrival : Arrival) :
    Alike (state.receive arrival) (other.receive arrival) := by
  obtain ⟨stats, ring, registry, shutdown, phase, sampled, metrics⟩ := alike
  refine ⟨?_, ?_, registry, shutdown, phase, sampled, metrics⟩
  · simp only [Daemon.receive, stats]
  · simp only [Daemon.receive, stats, ring]

theorem Alike.drain (alike : Alike state other) {snapshot otherSnapshot : Option FireholMetadataRegistry}
    (same : Option.Rel SameCategories snapshot otherSnapshot) (draining : SamePhase state.phase other.phase)
    (items : ∀ bytes ∈ state.ring, ∃ event : PacketLogEvent, bytes = event.item ∧ event.ruleId ≠ 0) :
    Alike (state.drain snapshot) (other.drain otherSnapshot) := by
  obtain ⟨stats, ring, registry, shutdown, phase, sampled, metrics⟩ := alike
  cases waiting : state.ring with
  | nil =>
      rw [Daemon.drain_empty waiting, Daemon.drain_empty (ring ▸ waiting)]
      exact ⟨stats, ring, registry, shutdown, .waiting, sampled, metrics⟩
  | cons bytes rest =>
      obtain ⟨event, rfl, nonzero⟩ := items bytes (waiting ▸ List.mem_cons_self)
      rw [Daemon.drain_item waiting, Daemon.drain_item (ring ▸ waiting)]
      refine ⟨stats, rfl, registry, shutdown, draining, sampled, ?_⟩
      simp only [← metrics, recordItem_same _ same nonzero]

theorem Alike.publishStats (alike : Alike state other) : Alike state.publishStats other.publishStats := by
  have same := alike
  obtain ⟨stats, ring, registry, shutdown, phase, sampled, metrics⟩ := alike
  unfold Daemon.publishStats
  rw [← sampled]
  cases state.sampled with
  | none => exact same
  | some read =>
      refine ⟨stats, ring, registry, shutdown, phase, rfl, ?_⟩
      simp only [metrics]

theorem Alike.publishRegistry (alike : Alike state other) {first second : FireholMetadataRegistry}
    (categories : SameCategories first second) :
    Alike (state.step (.publishRegistry first)) (other.step (.publishRegistry second)) := by
  obtain ⟨stats, ring, registry, shutdown, phase, sampled, metrics⟩ := alike
  refine ⟨stats, ring, ?_, shutdown, phase, sampled, metrics⟩
  simp only [Daemon.step]
  generalize state.registry = held at registry ⊢
  generalize other.registry = otherHeld at registry ⊢
  cases registry with
  | none => exact .none
  | some _ => exact .some categories

theorem Alike.consumer (alike : Alike state other)
    (items : ∀ bytes ∈ state.ring, ∃ event : PacketLogEvent, bytes = event.item ∧ event.ruleId ≠ 0)
    {action : DaemonAction} (own : action ∈ [.readable, .pollError, .next, .stop]) :
    Alike (state.step action) (other.step action) := by
  obtain ⟨stats, ring, registry, shutdown, phase, sampled, metrics⟩ := id alike
  have samePhase := phase
  generalize here : state.phase = held at phase
  generalize there : other.phase = otherHeld at phase
  simp only [List.mem_cons, List.not_mem_nil, or_false] at own
  rcases own with rfl | rfl | rfl | rfl
  all_goals
    simp only [Daemon.step, here, there]
    cases phase
  all_goals try exact alike
  · exact ⟨stats, ring, registry, shutdown, .draining registry, sampled, metrics⟩
  · refine ⟨stats, ring, registry, shutdown, .waiting, sampled, ?_⟩
    simp only [metrics]
  · exact alike.drain (by assumption) samePhase items
  · cases ends : state.shutdown with
    | false =>
        rw [if_neg (by simp), if_neg (by simp [← shutdown, ends])]
        exact alike
    | true =>
        rw [if_pos rfl, if_pos (by rw [← shutdown, ends])]
        exact ⟨stats, ring, registry, ends ▸ shutdown, .stopped, sampled, metrics⟩

theorem Alike.step (alike : Alike state other)
    (items : ∀ bytes ∈ state.ring, ∃ event : PacketLogEvent, bytes = event.item ∧ event.ruleId ≠ 0)
    {action otherAction : DaemonAction} (same : SameAction action otherAction) :
    Alike (state.step action) (other.step otherAction) := by
  cases same with
  | reload importable done otherDone =>
      apply alike.publishRegistry
      obtain ⟨nonempty, range, registered, numbered⟩ := importable
      exact sameCategories_of_resolves (imported_rules nonempty range registered numbered done)
        (imported_rules nonempty range registered numbered otherDone)
  | same =>
      cases action with
      | frame arrival => exact alike.receive arrival
      | publishRegistry registry => exact alike.publishRegistry (sameCategories_refl registry)
      | publishStats => exact alike.publishStats
      | readable | pollError | next | stop => exact alike.consumer items (by simp)
      | setStatic _ | setLogDrops _ =>
          exact ⟨alike.stats, alike.ring, alike.registry, alike.shutdown, alike.phase, alike.sampled, alike.metrics⟩
      | sendShutdown =>
          exact ⟨alike.stats, alike.ring, alike.registry, rfl, alike.phase, alike.sampled, alike.metrics⟩
      | sampleStats readable =>
          refine ⟨alike.stats, alike.ring, alike.registry, alike.shutdown, alike.phase, ?_, alike.metrics⟩
          simp only [Daemon.step, alike.stats]

theorem Daemon.Accounts.items (accounts : state.Accounts) {bytes : List UInt8} (waiting : bytes ∈ state.ring) :
    ∃ event ∈ state.emitted, bytes = event.item := by
  have listed : bytes ∈ state.emitted.map PacketLogEvent.item := by
    rw [← accounts.queued]
    exact List.mem_append_right _ waiting
  obtain ⟨event, member, image⟩ := List.mem_map.mp listed
  exact ⟨event, member, image.symm⟩

end Runs

end ReputationFirewall.RingBuf
