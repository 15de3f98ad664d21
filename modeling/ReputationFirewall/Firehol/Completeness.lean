import ReputationFirewall.Firehol.Accounting

set_option autoImplicit false

namespace ReputationFirewall.Firehol

section Runs

open BigEndian KeyedStore

def channelItems (channel : List (List FireholEntry)) : Multiset Item := (channel.map entryItems).sum

theorem assignIds_items {sequence : Nat} {batch entries : List FireholEntry}
    (assigned : assignIds sequence batch = some entries) :
    entryItems entries = entryItems batch ∧ entries.length = batch.length := by
  unfold assignIds at assigned
  split_ifs at assigned
  obtain rfl := Option.some.inj assigned
  refine ⟨?_, by simp⟩
  have same : ((batch.mapIdx fun offset entry =>
      { entry with ruleId := BitVec.ofNat 32 (sequence + offset + 1) }).map FireholEntry.item) =
      batch.map FireholEntry.item := by
    apply List.ext_getElem (by simp)
    intro offset _ _
    simp [FireholEntry.item]
  simp [entryItems, same]

namespace Pipeline

variable {workers : Nat}

def failure (state : Pipeline workers) : Option FireholParseError :=
  match state.consumer with
  | .receiving => none
  | .stopping failure | .joining failure => failure

def Healthy (state : Pipeline workers) : Prop :=
  state.failure = none ∧ ∀ index, (state.workers index).healthy = true

structure Conserves (config : ImportConfig) (state : Pipeline config.workers)
    (blocks : List (List FireholEntry)) : Prop where
  items : entryItems blocks.flatten + channelItems state.channel +
      ∑ index, (state.workers index).owes config.context +
      unclaimed config.context config.files state.shared =
    (config.files.map (fileItems config.context)).sum
  abort : state.shared.abort = false
  left : ∀ index, (state.workers index).leftLoop = true →
    config.files.length ≤ state.shared.fileIndex
  closed : state.consumer ≠ .receiving → state.channel = [] ∧ state.allEnded
  emptied : ∀ index, (state.workers index).phase = .finished → (state.workers index).buffer = []
  sent : ∀ batch ∈ state.channel, batch ≠ []
  nonempty : ∀ block ∈ blocks, block ≠ []
  sequence : state.sequence = blocks.flatten.length
  bounded : state.sequence < 2 ^ 32
  memory : (config.spool && config.cached) = false → state.allEntries = blocks.flatten
  spool : (config.spool && config.cached) = true → state.allEntries = [] ∧
    Spooled state.writer (keyedBlocks 0 blocks)
  flushed : state.consumer ≠ .receiving → config.cached = true → state.writer.batch = []

@[simp] theorem moveWorker_self (state : Pipeline workers) (index : Fin workers) (move : WorkerMove) :
    (state.moveWorker index move).workers index = move.worker := by
  simp [moveWorker, setWorker]

theorem moveWorker_other (state : Pipeline workers) {index other : Fin workers} (different : other ≠ index)
    (move : WorkerMove) : (state.moveWorker index move).workers other = state.workers other := by
  simp [moveWorker, setWorker, different]

theorem sum_update {M : Type} [AddCommMonoid M] (measure : Worker → M) (state : Pipeline workers)
    (index : Fin workers) (worker : Worker) :
    ∑ other, measure ((state.setWorker index worker).workers other) + measure (state.workers index) =
      ∑ other, measure (state.workers other) + measure worker := by
  have update : (fun other => measure ((state.setWorker index worker).workers other)) =
      Function.update (fun other => measure (state.workers other)) index (measure worker) := by
    funext other
    by_cases same : other = index
    · subst same
      simp [setWorker]
    · simp [setWorker, Function.update_of_ne same]
  have split := Finset.add_sum_erase Finset.univ (fun other => measure (state.workers other))
    (Finset.mem_univ index)
  rw [update, Finset.sum_update_of_mem (Finset.mem_univ index), ← split, Finset.sdiff_singleton_eq_erase]
  abel

theorem conserves_start (config : ImportConfig) : (start : Pipeline config.workers).Conserves config [] where
  items := by simp [start, channelItems, Worker.owes, Worker.start, unclaimed]
  abort := rfl
  left := by simp [start, Worker.leftLoop, Worker.start]
  closed := by simp [start]
  emptied := by simp [start, Worker.start]
  sent := by simp [start]
  nonempty := by simp
  sequence := rfl
  bounded := by simp [start]
  memory := by simp [start]
  spool := fun _ => ⟨rfl, [], by simp [keyedBlocks, start, BulkWriter.new], rfl⟩
  flushed := by simp [start]

theorem ended_step {worker : Worker} (ended : worker.ended = true) (config : ImportConfig) (port : Port)
    (shared : Shared) : worker.step config port shared = none := by
  cases phase : worker.phase <;> simp_all [Worker.ended, Worker.step]

theorem channelItems_sent (channel : List (List FireholEntry)) (sent : Option (List FireholEntry)) :
    channelItems (channel ++ sent.toList) = channelItems channel + entryItems (sent.getD []) := by
  cases sent <;> simp [channelItems]

section Steps

variable {config : ImportConfig} {state : Pipeline config.workers} {blocks : List (List FireholEntry)}

theorem Conserves.worker (conserves : state.Conserves config blocks) {index : Fin config.workers}
    {move : WorkerMove}
    (moved : (state.workers index).step config state.port state.shared = some move)
    (healthy : move.worker.healthy = true) :
    (state.moveWorker index move).Conserves config blocks where
  items := by
    have total := (step_workerStep moved).total healthy
    have sum := sum_update (Worker.owes config.context) state index move.worker
    have known := conserves.items
    unfold WorkerMove.total at total
    simp only [moveWorker, channelItems_sent]
    apply add_right_cancel (b := (state.workers index).owes config.context)
    rw [← known]
    calc
      _ = entryItems blocks.flatten + channelItems state.channel +
          entryItems (move.sent.getD []) + unclaimed config.context config.files move.shared +
          (∑ other, ((state.setWorker index move.worker).workers other).owes config.context +
            (state.workers index).owes config.context) := by abel
      _ = entryItems blocks.flatten + channelItems state.channel +
          ∑ other, (state.workers other).owes config.context +
          (entryItems (move.sent.getD []) + move.worker.owes config.context +
            unclaimed config.context config.files move.shared) := by
        rw [sum]
        abel
      _ = _ := by
        rw [total]
        abel
  abort := ((step_workerStep moved).frame healthy).abort.trans conserves.abort
  left := by
    have frame := (step_workerStep moved).frame healthy
    intro other
    by_cases same : other = index
    · subst same
      rw [moveWorker_self]
      intro left
      rcases frame.left left with before | aborted | past
      · exact le_trans (conserves.left other before) frame.index
      · simp [conserves.abort] at aborted
      · exact past
    · rw [moveWorker_other state same]
      intro left
      exact le_trans (conserves.left other left) frame.index
  closed := by
    intro stopped
    have ended := (conserves.closed stopped).2 index
    simp [ended_step ended] at moved
  emptied := by
    intro other
    by_cases same : other = index
    · subst same
      simpa using ((step_workerStep moved).frame healthy).emptied
    · simpa only [moveWorker_other state same] using conserves.emptied other
  sent := by
    intro batch member
    rcases List.mem_append.mp member with before | last
    · exact conserves.sent batch before
    · exact ((step_workerStep moved).frame healthy).sent batch (by simpa using last)
  nonempty := conserves.nonempty
  sequence := conserves.sequence
  bounded := conserves.bounded
  memory := conserves.memory
  spool := conserves.spool
  flushed := conserves.flushed

theorem Conserves.publish (conserves : state.Conserves config blocks) (receiving : state.consumer = .receiving)
    {batch entries : List FireholEntry} {rest : List (List FireholEntry)} (commits : Bool)
    (channel : state.channel = batch :: rest) (assigned : assignIds state.sequence batch = some entries) :
    (Pipeline.publish config { state with channel := rest } commits entries).Conserves config
      (blocks ++ [entries]) where
  items := by
    have known := conserves.items
    rw [channel] at known
    simp only [Pipeline.publish, List.flatten_append, List.flatten_cons, List.flatten_nil, List.append_nil,
      entryItems_append, (assignIds_items assigned).1, ← known, channelItems, List.map_cons, List.sum_cons]
    abel
  abort := conserves.abort
  left := conserves.left
  closed := fun stopped => absurd receiving stopped
  emptied := conserves.emptied
  sent := by
    intro other member
    exact conserves.sent other (channel ▸ List.mem_cons_of_mem batch member)
  nonempty := by
    intro block member
    rcases List.mem_append.mp member with before | last
    · exact conserves.nonempty block before
    · obtain rfl := List.mem_singleton.mp last
      have some := conserves.sent batch (by simp [channel])
      rw [← List.length_pos_iff] at some ⊢
      rwa [(assignIds_items assigned).2]
  sequence := by simp [Pipeline.publish, conserves.sequence]
  bounded := by
    have length := (assignIds_items assigned).2
    have some := conserves.sent batch (by simp [channel])
    unfold assignIds at assigned
    split_ifs at assigned with fits
    simp only [Pipeline.publish, length]
    exact fits.resolve_left some
  memory := by
    intro mode
    simp [Pipeline.publish, mode, conserves.memory mode]
  spool := by
    intro mode
    obtain ⟨empty, spooled⟩ := conserves.spool mode
    obtain ⟨spool, cached⟩ := Bool.and_eq_true_iff.mp mode
    refine ⟨by simp [Pipeline.publish, mode, empty], ?_⟩
    rw [keyedBlocks_concat, Nat.zero_add, ← conserves.sequence]
    simpa [Pipeline.publish, cached, spool] using spooled.entries entries state.sequence commits
  flushed := fun stopped => absurd receiving stopped

theorem Conserves.close (conserves : state.Conserves config blocks) (channel : state.channel = [])
    (ended : state.allEnded) :
    ({ state with
      consumer := .stopping none
      writer := if config.cached then state.writer.commit else state.writer } :
        Pipeline config.workers).Conserves config blocks where
  items := conserves.items
  abort := conserves.abort
  left := conserves.left
  closed := fun _ => ⟨channel, ended⟩
  emptied := conserves.emptied
  sent := conserves.sent
  nonempty := conserves.nonempty
  sequence := conserves.sequence
  bounded := conserves.bounded
  memory := conserves.memory
  spool := by
    intro mode
    obtain ⟨empty, spooled⟩ := conserves.spool mode
    refine ⟨empty, ?_⟩
    simpa [(Bool.and_eq_true_iff.mp mode).2] using spooled.commit
  flushed := by
    intro _ cached
    simp [cached, BulkWriter.commit]

theorem Conserves.dropReceiver (conserves : state.Conserves config blocks)
    (stopping : state.consumer = .stopping none) :
    ({ state with consumer := .joining none, channel := [] } : Pipeline config.workers).Conserves config
      blocks where
  items := by simpa [(conserves.closed (by simp [stopping])).1] using conserves.items
  abort := conserves.abort
  left := conserves.left
  closed := fun _ => ⟨rfl, (conserves.closed (by simp [stopping])).2⟩
  emptied := conserves.emptied
  sent := by simp
  nonempty := conserves.nonempty
  sequence := conserves.sequence
  bounded := conserves.bounded
  memory := conserves.memory
  spool := conserves.spool
  flushed := fun _ => conserves.flushed (by simp [stopping])

theorem healthy_worker {index : Fin config.workers} {worker : Worker}
    (healthy : (state.setWorker index worker).Healthy) : worker.healthy = true := by
  simpa [setWorker] using healthy.2 index

inductive Stepped (config : ImportConfig) (state : Pipeline config.workers) : Pipeline config.workers → Prop where
  | worker {index : Fin config.workers} {move : WorkerMove}
      (moved : (state.workers index).step config state.port state.shared = some move) :
      Stepped config state (state.moveWorker index move)
  | panic {index : Fin config.workers} (running : (state.workers index).ended = false) :
      Stepped config state (state.setWorker index { state.workers index with phase := .panicked })
  | receive {batch : List FireholEntry} {rest : List (List FireholEntry)} (commits : Bool)
      (fault : Option FirewallError) (receiving : state.consumer = .receiving)
      (channel : state.channel = batch :: rest) :
      Stepped config state (Pipeline.receive config { state with channel := rest } commits fault batch)
  | close (fault : Option FirewallError) (receiving : state.consumer = .receiving) (channel : state.channel = [])
      (ended : state.allEnded) : Stepped config state (Pipeline.close config state fault)
  | dropReceiver {failure : Option FireholParseError} (stopping : state.consumer = .stopping failure) :
      Stepped config state { state with consumer := .joining failure, channel := [] }

theorem step_stepped {action : Action config.workers} {next : Pipeline config.workers}
    (stepped : step config state action = some next) : Stepped config state next := by
  cases action with
  | worker index =>
      obtain ⟨move, moved, rfl⟩ := Option.map_eq_some_iff.mp stepped
      exact .worker moved
  | panic index =>
      simp only [step] at stepped
      split_ifs at stepped with ended
      cases stepped
      exact .panic (by simpa using ended)
  | receive commits fault =>
      simp only [step] at stepped
      split at stepped
      · next batch rest receiving channel =>
        cases stepped
        exact .receive commits fault receiving channel
      · exact absurd stepped nofun
  | close fault =>
      simp only [step] at stepped
      split_ifs at stepped with closing
      cases stepped
      exact .close fault closing.1 closing.2.1 closing.2.2
  | dropReceiver =>
      simp only [step] at stepped
      split at stepped
      · next failure stopping =>
        cases stepped
        exact .dropReceiver stopping
      · exact absurd stepped nofun

theorem receive_workers (commits : Bool) (fault : Option FirewallError) (batch : List FireholEntry) :
    (receive config state commits fault batch).workers = state.workers := by
  unfold receive
  split
  · rfl
  · split <;> rfl

theorem close_workers (fault : Option FirewallError) : (close config state fault).workers = state.workers := by
  unfold close
  split <;> rfl

theorem healthy_before {next : Pipeline config.workers} (stepped : Stepped config state next) (healthy : next.Healthy) :
    state.Healthy := by
  cases stepped with
  | @worker index move moved =>
      have own : move.worker.healthy = true := by simpa using healthy.2 index
      refine ⟨healthy.1, fun other => ?_⟩
      by_cases same : other = index
      · subst same
        exact ((step_workerStep moved).frame own).before
      · simpa only [moveWorker_other state same] using healthy.2 other
  | panic running => simpa [Worker.healthy] using healthy_worker healthy
  | receive commits fault receiving channel =>
      exact ⟨by simp [failure, receiving], by simpa only [receive_workers] using healthy.2⟩
  | close fault receiving channel ended =>
      exact ⟨by simp [failure, receiving], by simpa only [close_workers] using healthy.2⟩
  | dropReceiver stopping => exact ⟨by simpa [failure, stopping] using healthy.1, healthy.2⟩

inductive HealthyStep (config : ImportConfig) (state : Pipeline config.workers) :
    Pipeline config.workers → Option (List FireholEntry) → Prop where
  | worker {index : Fin config.workers} {move : WorkerMove}
      (moved : (state.workers index).step config state.port state.shared = some move)
      (healthy : move.worker.healthy = true) :
      HealthyStep config state (state.moveWorker index move) none
  | publish {batch entries : List FireholEntry} {rest : List (List FireholEntry)} (commits : Bool)
      (receiving : state.consumer = .receiving) (channel : state.channel = batch :: rest)
      (assigned : assignIds state.sequence batch = some entries) :
      HealthyStep config state (Pipeline.publish config { state with channel := rest } commits entries)
        (some entries)
  | close (channel : state.channel = []) (ended : state.allEnded) :
      HealthyStep config state { state with
        consumer := .stopping none
        writer := if config.cached then state.writer.commit else state.writer } none
  | dropReceiver (stopping : state.consumer = .stopping none) :
      HealthyStep config state { state with consumer := .joining none, channel := [] } none

theorem healthyStep_of_stepped {next : Pipeline config.workers} (stepped : Stepped config state next)
    (healthy : next.Healthy) : ∃ published, HealthyStep config state next published := by
  cases stepped with
  | @worker index move moved => exact ⟨none, .worker moved (by simpa using healthy.2 index)⟩
  | panic running => simpa [Worker.healthy] using healthy_worker healthy
  | @receive batch rest commits fault receiving channel =>
      cases assigned : assignIds state.sequence batch with
      | none => simp [receive, assigned, stop, Healthy, failure] at healthy
      | some entries =>
          cases written : if config.cached then fault else none with
          | some error => simp [receive, assigned, written, stop, Healthy, failure] at healthy
          | none =>
              refine ⟨some entries, ?_⟩
              simpa [receive, assigned, written] using HealthyStep.publish commits receiving channel assigned
  | close fault receiving channel ended =>
      cases written : if config.cached then fault else none with
      | some error => simp [close, written, stop, Healthy, failure] at healthy
      | none => exact ⟨none, by simpa [close, written] using HealthyStep.close channel ended⟩
  | @dropReceiver error stopping =>
      cases (show error = none from healthy.1)
      exact ⟨none, .dropReceiver stopping⟩

theorem Conserves.step (conserves : state.Conserves config blocks) {next : Pipeline config.workers}
    {published : Option (List FireholEntry)} (stepped : HealthyStep config state next published) :
    next.Conserves config (blocks ++ published.toList) := by
  cases stepped with
  | worker moved healthy => simpa using conserves.worker moved healthy
  | publish commits receiving channel assigned =>
      exact conserves.publish receiving commits channel assigned
  | close channel ended => simpa using conserves.close channel ended
  | dropReceiver stopping => simpa using conserves.dropReceiver stopping

end Steps

theorem run_published {config : ImportConfig}
    {invariant : Pipeline config.workers → List (List FireholEntry) → Prop} (initial : invariant start [])
    (preserved : ∀ {state next blocks published}, invariant state blocks →
      HealthyStep config state next published → invariant next (blocks ++ published.toList))
    {actions : List (Action config.workers)} {final : Pipeline config.workers}
    (reached : Runs.runSome (step config) start actions = some final) :
    final.Healthy → ∃ blocks, invariant final blocks := by
  apply Runs.runSome_invariant (fun _ => ⟨[], initial⟩) ?_ reached
  intro state action next kept stepped healthy
  obtain ⟨blocks, holds⟩ := kept (healthy_before (step_stepped stepped) healthy)
  obtain ⟨published, healthyStep⟩ := healthyStep_of_stepped (step_stepped stepped) healthy
  exact ⟨_, preserved holds healthyStep⟩

theorem run_conserves {config : ImportConfig} {actions : List (Action config.workers)}
    {final : Pipeline config.workers} (reached : Runs.runSome (step config) start actions = some final) :
    final.Healthy → ∃ blocks, final.Conserves config blocks :=
  run_published (conserves_start config) (fun conserves => conserves.step) reached

section Ending

theorem scopeResult_ok {state : Pipeline workers} (joined : state.scopeResult = some (.ok ())) :
    state.consumer = .joining none ∧ state.Healthy ∧ state.allEnded := by
  unfold scopeResult at joined
  split at joined
  · next failure joining =>
    split_ifs at joined with ended
    split at joined
    · simp at joined
    · next clean =>
      obtain ⟨none, workers⟩ := Option.or_eq_none_iff.mp clean
      subst none
      refine ⟨joining, ⟨by simp [Pipeline.failure, joining], fun index => ?_⟩, ended⟩
      have own := List.findSome?_eq_none_iff.mp workers (state.workers index) (by simp)
      cases phase : (state.workers index).phase <;> simp_all [workerFailure, Worker.healthy]
  · simp at joined

theorem finished_of_ended {worker : Worker} (healthy : worker.healthy = true) (ended : worker.ended = true) :
    worker.phase = .finished := by
  cases phase : worker.phase <;> simp_all [Worker.healthy, Worker.ended]

theorem Conserves.complete {config : ImportConfig} {state : Pipeline config.workers}
    {blocks : List (List FireholEntry)} (conserves : state.Conserves config blocks)
    (positive : 0 < config.workers) (joined : state.scopeResult = some (.ok ())) :
    entryItems blocks.flatten = (config.files.map (fileItems config.context)).sum := by
  obtain ⟨joining, healthy, ended⟩ := scopeResult_ok joined
  have finished (index : Fin config.workers) : (state.workers index).phase = .finished :=
    finished_of_ended (healthy.2 index) (ended index)
  have owed : ∑ index, (state.workers index).owes config.context = 0 := by
    apply Finset.sum_eq_zero
    intro index _
    simp [Worker.owes, finished index, conserves.emptied index (finished index)]
  have claimed : unclaimed config.context config.files state.shared = 0 :=
    unclaimed_past (conserves.left ⟨0, positive⟩ (by simp [Worker.leftLoop, finished]))
  have received : channelItems state.channel = 0 := by
    simp [(conserves.closed (by simp [joining])).1, channelItems]
  rw [← conserves.items, owed, claimed, received]
  simp

def dataset (config : ImportConfig) (state : Pipeline config.workers) : FireholDataSet where
  entries := state.allEntries
  storedEntries := if config.spool && config.cached then some ⟨state.writer.stored, none⟩ else none

theorem Conserves.visitEntries {config : ImportConfig} {state : Pipeline config.workers}
    {blocks : List (List FireholEntry)} (conserves : state.Conserves config blocks)
    (positive : 0 < config.workers) (joined : state.scopeResult = some (.ok ())) :
    (state.dataset config).visitEntries = .ok blocks.flatten := by
  cases mode : config.spool && config.cached with
  | false => simp [dataset, FireholDataSet.visitEntries, mode, conserves.memory mode]
  | true =>
      obtain ⟨empty, committed, puts, stored⟩ := conserves.spool mode
      have flushed := conserves.flushed (by simp [(scopeResult_ok joined).1])
        (Bool.and_eq_true_iff.mp mode).2
      rw [flushed, List.append_nil] at puts
      subst puts
      have bounded := conserves.bounded
      have spooled := visitEntries_spooled conserves.nonempty (by rw [← conserves.sequence]; omega)
        (published_range (conserves.complete positive joined)) state.allEntries
      simpa [dataset, mode, stored] using spooled

end Ending

end Pipeline

end Runs

end ReputationFirewall.Firehol
