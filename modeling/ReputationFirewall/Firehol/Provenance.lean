import ReputationFirewall.Firehol.Completeness
import ReputationFirewall.Firehol.SingleFile
import ReputationFirewall.Shared.Interleaving

set_option autoImplicit false

namespace ReputationFirewall.Firehol

open Interleaving

def FireholEntry.unnumbered (entry : FireholEntry) : FireholEntry := { entry with ruleId := 0 }

section Traces

variable (config : ImportConfig)

abbrev Tagged := List (Fin config.files.length × FireholEntry)

-- `owner` is the worker that claimed a file, `current` the file that a worker has open.
structure Trace where
  published : Tagged config
  queued : List (Tagged config)
  buffered : Fin config.workers → Tagged config
  owner : Fin config.files.length → Option (Fin config.workers)
  current : Fin config.workers → Option (Fin config.files.length)

variable {config}

def Trace.stream (trace : Trace config) (index : Fin config.workers) : Tagged config :=
  trace.published ++ trace.queued.flatten ++ trace.buffered index

def WorkerPhase.busy : WorkerPhase → Bool
  | .opening _ | .parsing _ => true
  | _ => false

def WorkerPhase.Works (context : ImportContext) (phase : WorkerPhase) (file : SourceFile)
    (produced : List FireholEntry) : Prop :=
  match phase with
  | .opening opened => opened = file ∧ produced = []
  | .parsing progress => progress.file = file ∧ progress.Reaches context (produced ++ progress.pending)
  | _ => False

structure Traced (state : Pipeline config.workers) (blocks : List (List FireholEntry))
    (trace : Trace config) : Prop where
  published : trace.published.map (fun item => item.2.unnumbered) =
    blocks.flatten.map FireholEntry.unnumbered
  queued : trace.queued.map (List.map Prod.snd) = state.channel
  buffered : ∀ index, (trace.buffered index).map Prod.snd = (state.workers index).buffer
  claimed : ∀ file, (trace.owner file).isSome = true ↔ file.1 < state.shared.fileIndex
  known : ∀ item ∈ trace.published ++ trace.queued.flatten, (trace.owner item.1).isSome = true
  owned : ∀ index, ∀ item ∈ trace.buffered index, trace.owner item.1 = some index
  working : ∀ index file, trace.current index = some file → trace.owner file = some index ∧
    (state.workers index).phase.Works config.context (config.files.get file)
      (picked file (trace.stream index))
  idle : ∀ index, trace.current index = none → (state.workers index).phase.busy = false
  finished : ∀ file index, trace.owner file = some index → trace.current index ≠ some file →
    Yields config.context (config.files.get file) (picked file (trace.stream index))

structure WorkerTraced (trace : Trace config) (index : Fin config.workers) (worker : Worker) : Prop where
  buffered : (trace.buffered index).map Prod.snd = worker.buffer
  owned : ∀ item ∈ trace.buffered index, trace.owner item.1 = some index
  working : ∀ file, trace.current index = some file → trace.owner file = some index ∧
    worker.phase.Works config.context (config.files.get file) (picked file (trace.stream index))
  idle : trace.current index = none → worker.phase.busy = false
  finished : ∀ file, trace.owner file = some index → trace.current index ≠ some file →
    Yields config.context (config.files.get file) (picked file (trace.stream index))

end Traces

section Steps

variable {config : ImportConfig} {state : Pipeline config.workers} {blocks : List (List FireholEntry)}
  {trace : Trace config}

theorem WorkerPhase.Works.busy {context : ImportContext} {phase : WorkerPhase} {file : SourceFile}
    {produced : List FireholEntry} (works : phase.Works context file produced) : phase.busy = true := by
  cases phase <;> first | rfl | exact works.elim

theorem Traced.current_none (traced : Traced state blocks trace) {index : Fin config.workers}
    (resting : (state.workers index).phase.busy = false) : trace.current index = none := by
  cases reading : trace.current index with
  | none => rfl
  | some file =>
      have busy := (traced.working index file reading).2.busy
      simp [resting] at busy

theorem Traced.current_some (traced : Traced state blocks trace) {index : Fin config.workers}
    (busy : (state.workers index).phase.busy = true) : ∃ file, trace.current index = some file := by
  cases reading : trace.current index with
  | none => simp [traced.idle index reading] at busy
  | some file => exact ⟨file, rfl⟩

variable {index : Fin config.workers}

theorem Traced.workerTraced (traced : Traced state blocks trace) (index : Fin config.workers) :
    WorkerTraced trace index (state.workers index) :=
  ⟨traced.buffered index, traced.owned index, traced.working index, traced.idle index,
    fun file => traced.finished file index⟩

theorem WorkerTraced.frame {worker : Worker} (traced : WorkerTraced trace index worker) {next : Trace config}
    (buffered : next.buffered index = trace.buffered index) (current : next.current index = trace.current index)
    (owner : ∀ file, next.owner file = some index ↔ trace.owner file = some index)
    (streams : ∀ file, trace.owner file = some index →
      picked file (next.stream index) = picked file (trace.stream index)) :
    WorkerTraced next index worker where
  buffered := by rw [buffered, traced.buffered]
  owned := by
    intro item member
    rw [buffered] at member
    exact (owner item.1).mpr (traced.owned item member)
  working := by
    intro file reading
    rw [current] at reading
    obtain ⟨owned, works⟩ := traced.working file reading
    rw [streams file owned]
    exact ⟨(owner file).mpr owned, works⟩
  idle := by
    rw [current]
    exact traced.idle
  finished := by
    intro file owned closed
    rw [current] at closed
    rw [owner] at owned
    rw [streams file owned]
    exact traced.finished file owned closed

theorem Traced.move (traced : Traced state blocks trace) {move : WorkerMove} {next : Trace config}
    (published : next.published = trace.published)
    (queued : next.queued.map (List.map Prod.snd) = (state.moveWorker index move).channel)
    (claimed : ∀ file, (next.owner file).isSome = true ↔ file.1 < move.shared.fileIndex)
    (known : ∀ item ∈ next.published ++ next.queued.flatten, (next.owner item.1).isSome = true)
    (own : WorkerTraced next index move.worker)
    (others : ∀ other, other ≠ index → WorkerTraced next other (state.workers other)) :
    Traced (state.moveWorker index move) blocks next := by
  have workers : ∀ other, WorkerTraced next other ((state.moveWorker index move).workers other) := by
    intro other
    by_cases same : other = index
    · subst same
      rw [Pipeline.moveWorker_self]
      exact own
    · rw [Pipeline.moveWorker_other state same]
      exact others other same
  exact
    { published := published ▸ traced.published
      queued
      buffered := fun other => (workers other).buffered
      claimed
      known
      owned := fun other => (workers other).owned
      working := fun other => (workers other).working
      idle := fun other => (workers other).idle
      finished := fun file other => (workers other).finished file }

theorem Traced.relabel (traced : Traced state blocks trace) {worker : Worker} {shared : Shared}
    (owner : Fin config.files.length → Option (Fin config.workers))
    (current : Option (Fin config.files.length))
    (buffer : worker.buffer = (state.workers index).buffer)
    (claimed : ∀ file, (owner file).isSome = true ↔ file.1 < shared.fileIndex)
    (keeps : ∀ file other, trace.owner file = some other → owner file = some other)
    (others : ∀ file other, other ≠ index → owner file = some other → trace.owner file = some other)
    (working : ∀ file, current = some file → owner file = some index ∧
      worker.phase.Works config.context (config.files.get file) (picked file (trace.stream index)))
    (idle : current = none → worker.phase.busy = false)
    (finished : ∀ file, owner file = some index → current ≠ some file →
      Yields config.context (config.files.get file) (picked file (trace.stream index))) :
    Traced (state.moveWorker index ⟨shared, worker, none⟩) blocks
      { trace with owner, current := Function.update trace.current index current } := by
  refine traced.move rfl (by simpa [Pipeline.moveWorker] using traced.queued) claimed ?_ ?_ ?_
  · intro item member
    obtain ⟨other, owned⟩ := Option.isSome_iff_exists.mp (traced.known item member)
    exact Option.isSome_iff_exists.mpr ⟨other, keeps item.1 other owned⟩
  · have now : Function.update trace.current index current index = current := Function.update_self index _ _
    exact ⟨buffer ▸ traced.buffered index, fun item member => keeps _ _ (traced.owned index item member),
      fun file reading => working file (now.symm.trans reading), fun resting => idle (now.symm.trans resting),
      fun file owned closed => finished file owned (mt now.trans closed)⟩
  · intro other different
    exact (traced.workerTraced other).frame rfl (Function.update_of_ne different _ _)
      (fun file => ⟨others file other different, keeps file other⟩) fun _ _ => rfl

theorem Traced.send (traced : Traced state blocks trace) {worker : Worker} {shared : Shared}
    (emptied : worker.buffer = []) (unclaimed : shared.fileIndex = state.shared.fileIndex)
    (works : ∀ file produced, (state.workers index).phase.Works config.context file produced →
      worker.phase.Works config.context file produced)
    (resting : (state.workers index).phase.busy = false → worker.phase.busy = false) :
    Traced (state.moveWorker index ⟨shared, worker, some (state.workers index).buffer⟩) blocks
      { trace with
        queued := trace.queued ++ [trace.buffered index]
        buffered := Function.update trace.buffered index [] } := by
  have own : Trace.stream { trace with
      queued := trace.queued ++ [trace.buffered index]
      buffered := Function.update trace.buffered index [] } index = trace.stream index := by
    simp [Trace.stream]
  refine traced.move rfl ?_ ?_ ?_ ?_ ?_
  · simp [Pipeline.moveWorker, traced.queued, traced.buffered]
  · rw [unclaimed]
    exact traced.claimed
  · intro item member
    simp only [List.flatten_append, List.flatten_cons, List.flatten_nil, List.append_nil, ← List.append_assoc] at member
    cases List.mem_append.mp member with
    | inl before => exact traced.known item before
    | inr sent => exact Option.isSome_iff_exists.mpr ⟨index, traced.owned index item sent⟩
  · refine ⟨by simp [emptied], by simp, ?_, fun none => resting (traced.idle index none), ?_⟩
    · intro file reading
      obtain ⟨owned, before⟩ := traced.working index file reading
      rw [own]
      exact ⟨owned, works _ _ before⟩
    · intro file owned closed
      rw [own]
      exact traced.finished file index owned closed
  · intro other different
    refine (traced.workerTraced other).frame (Function.update_of_ne different _ _) rfl (fun _ => Iff.rfl) ?_
    intro file owned
    have foreign : picked file (trace.buffered index) = [] := by
      apply picked_eq_nil
      intro item member same
      have claimant := traced.owned index item member
      rw [same, owned] at claimant
      exact different (Option.some.inj claimant)
    simp [Trace.stream, different, foreign]

theorem Traced.push (traced : Traced state blocks trace) {progress : FileProgress} {entry : FireholEntry}
    {pending : List FireholEntry} (phase : (state.workers index).phase = .parsing progress)
    (listed : progress.pending = entry :: pending) {file : Fin config.files.length}
    (reading : trace.current index = some file) :
    Traced (state.moveWorker index ⟨state.shared, { state.workers index with
        phase := .parsing { progress with pending }
        buffer := (state.workers index).buffer ++ [entry] }, none⟩) blocks
      { trace with
        buffered := Function.update trace.buffered index (trace.buffered index ++ [(file, entry)]) } := by
  have own : Trace.stream { trace with
      buffered := Function.update trace.buffered index (trace.buffered index ++ [(file, entry)]) } index =
        trace.stream index ++ [(file, entry)] := by
    simp [Trace.stream]
  obtain ⟨owner, works⟩ := traced.working index file reading
  refine traced.move rfl (by simpa [Pipeline.moveWorker] using traced.queued) traced.claimed traced.known ?_ ?_
  · refine ⟨by simp [traced.buffered], ?_, ?_, fun none => absurd (reading.symm.trans none) (Option.some_ne_none file), ?_⟩
    · intro item member
      simp only [Function.update_self] at member
      cases List.mem_append.mp member with
      | inl before => exact traced.owned index item before
      | inr last =>
          cases List.mem_singleton.mp last
          exact owner
    · intro opened current
      cases reading.symm.trans current
      rw [phase] at works
      obtain ⟨same, reaches⟩ := works
      rw [listed] at reaches
      refine ⟨owner, same, ?_⟩
      rw [own, picked_append, picked_self, List.append_assoc]
      exact reaches
    · intro done owned closed
      have different : file ≠ done := fun equal => closed (equal ▸ reading)
      rw [own, picked_append, picked_other different, List.append_nil]
      exact traced.finished done index owned closed
  · intro other different
    refine (traced.workerTraced other).frame (Function.update_of_ne different _ _) rfl (fun _ => Iff.rfl) fun _ _ => ?_
    simp [Trace.stream, different]

theorem Traced.rest (traced : Traced state blocks trace) {worker : Worker} {shared : Shared}
    (before : (state.workers index).phase.busy = false) (after : worker.phase.busy = false)
    (buffer : worker.buffer = (state.workers index).buffer)
    (claimed : ∀ file : Fin config.files.length,
      file.1 < state.shared.fileIndex ↔ file.1 < shared.fileIndex) :
    ∃ later, Traced (state.moveWorker index ⟨shared, worker, none⟩) blocks later := by
  have resting := traced.current_none before
  refine ⟨_, traced.relabel trace.owner none buffer
    (fun file => (traced.claimed file).trans (claimed file)) (fun _ _ owned => owned)
    (fun _ _ _ owned => owned) (by simp) (fun _ => after) ?_⟩
  intro file owned _
  exact traced.finished file index owned (by simp [resting])

theorem Traced.stay (traced : Traced state blocks trace) {worker : Worker} {shared : Shared}
    {file : Fin config.files.length} (reading : trace.current index = some file)
    (buffer : worker.buffer = (state.workers index).buffer)
    (claimed : shared.fileIndex = state.shared.fileIndex)
    (works : worker.phase.Works config.context (config.files.get file)
      (picked file (trace.stream index))) :
    ∃ later, Traced (state.moveWorker index ⟨shared, worker, none⟩) blocks later := by
  refine ⟨_, traced.relabel trace.owner (some file) buffer (by simpa [claimed] using traced.claimed)
    (fun _ _ owned => owned) (fun _ _ _ owned => owned) ?_ (by simp) ?_⟩
  · intro opened same
    obtain rfl := Option.some.inj same
    exact ⟨(traced.working index file reading).1, works⟩
  · intro done owned different
    exact traced.finished done index owned (by simpa [reading] using different)

theorem Traced.unclaimed (traced : Traced state blocks trace) {file : Fin config.files.length}
    (unowned : trace.owner file = none) : picked file (trace.stream index) = [] := by
  apply picked_eq_nil
  intro item member same
  rcases List.mem_append.mp member with known | buffered
  · have owned := traced.known item known
    simp [same, unowned] at owned
  · have owned := traced.owned index item buffered
    simp [same, unowned] at owned

theorem Traced.take (traced : Traced state blocks trace) {source : SourceFile}
    (phase : (state.workers index).phase = .taking)
    (found : config.files[state.shared.fileIndex]? = some source) :
    ∃ later, Traced (state.moveWorker index
      ⟨{ state.shared with fileIndex := state.shared.fileIndex + 1 },
        { state.workers index with phase := .opening source }, none⟩) blocks later := by
  obtain ⟨inside, rfl⟩ := List.getElem?_eq_some_iff.mp found
  obtain ⟨file, number⟩ : ∃ file : Fin config.files.length, file.1 = state.shared.fileIndex :=
    ⟨⟨_, inside⟩, rfl⟩
  have unowned : trace.owner file = none := by
    have claimed := traced.claimed file
    simpa [number] using claimed
  have resting := traced.current_none (by rw [phase]; rfl)
  refine ⟨_, traced.relabel (Function.update trace.owner file (some index)) (some file) rfl
    ?_ ?_ ?_ ?_ (by simp) ?_⟩
  · intro other
    by_cases same : other = file
    · subst same
      simp [number]
    · have different : other.1 ≠ file.1 := fun equal => same (Fin.ext equal)
      simp only [Function.update_of_ne same, traced.claimed other]
      omega
  · intro other claimant owned
    have different : other ≠ file := by
      rintro rfl
      simp [unowned] at owned
    simpa [different] using owned
  · intro other claimant foreign owned
    by_cases same : other = file
    · subst same
      simp only [Function.update_self, Option.some.injEq] at owned
      exact absurd owned.symm foreign
    · simpa [same] using owned
  · intro other same
    obtain rfl := Option.some.inj same
    exact ⟨by simp, by simp [number], traced.unclaimed unowned⟩
  · intro other owned different
    have distinct : other ≠ file := fun equal => different (congrArg some equal.symm)
    rw [Function.update_of_ne distinct] at owned
    exact traced.finished other index owned (by simp [resting])

theorem Traced.worker (traced : Traced state blocks trace) {move : WorkerMove}
    (step : WorkerStep config state.port (state.workers index) state.shared move)
    (healthy : move.worker.healthy = true) :
    ∃ later, Traced (state.moveWorker index move) blocks later := by
  cases step with
  | check phase => exact traced.rest (by rw [phase]; rfl) rfl rfl fun _ => Iff.rfl
  | leave phase => exact traced.rest (by rw [phase]; rfl) rfl rfl fun _ => Iff.rfl
  | take phase found => exact traced.take phase found
  | exhaust phase past =>
      refine traced.rest (by rw [phase]; rfl) rfl rfl fun file => ?_
      have inside := file.2
      simp only
      omega
  | opens phase =>
      obtain ⟨file, reading⟩ := traced.current_some (by rw [phase]; rfl)
      obtain ⟨-, works⟩ := traced.working index file reading
      rw [phase] at works
      obtain ⟨rfl, produced⟩ := works
      refine traced.stay reading rfl rfl ⟨rfl, fun _ => state.shared.nextMetadataId, [], [], ?_⟩
      simp [produced, parseLines, beginFile]
  | flush => exact ⟨_, traced.send rfl rfl (fun _ _ works => works) id⟩
  | push phase listed =>
      obtain ⟨file, reading⟩ := traced.current_some (by rw [phase]; rfl)
      exact ⟨_, traced.push phase listed reading⟩
  | line phase drained lines visited =>
      obtain ⟨file, reading⟩ := traced.current_some (by rw [phase]; rfl)
      obtain ⟨-, works⟩ := traced.working index file reading
      rw [phase] at works
      obtain ⟨same, reaches⟩ := works
      rw [drained, List.append_nil] at reaches
      exact traced.stay reading rfl rfl ⟨same, reaches.line lines visited _⟩
  | endFile phase drained lines read =>
      obtain ⟨file, reading⟩ := traced.current_some (by rw [phase]; rfl)
      obtain ⟨-, works⟩ := traced.working index file reading
      rw [phase] at works
      obtain ⟨same, reaches⟩ := works
      rw [drained, List.append_nil] at reaches
      refine ⟨_, traced.relabel trace.owner none rfl traced.claimed (fun _ _ owned => owned)
        (fun _ _ _ owned => owned) (by simp) (fun _ => rfl) ?_⟩
      intro done owned _
      by_cases current : file = done
      · subst current
        exact same ▸ reaches.finish lines read
      · exact traced.finished done index owned (by simpa [reading] using current)
  | finish phase => exact traced.rest (by rw [phase]; rfl) rfl rfl fun _ => Iff.rfl
  | lastFlush phase =>
      refine ⟨_, traced.send rfl rfl ?_ fun _ => rfl⟩
      intro file produced works
      simp [phase, WorkerPhase.Works] at works
  | fail => simp [Worker.fail, Worker.healthy] at healthy
  | refused => simp [Worker.healthy] at healthy

theorem assignIds_unnumbered {sequence : Nat} {batch entries : List FireholEntry}
    (assigned : assignIds sequence batch = some entries) :
    entries.map FireholEntry.unnumbered = batch.map FireholEntry.unnumbered := by
  unfold assignIds at assigned
  split_ifs at assigned
  obtain rfl := Option.some.inj assigned
  apply List.ext_getElem (by simp)
  intro offset _ _
  simp [FireholEntry.unnumbered]

theorem Traced.publish (traced : Traced state blocks trace) {batch entries : List FireholEntry}
    {rest : List (List FireholEntry)} (commits : Bool) (channel : state.channel = batch :: rest)
    (assigned : assignIds state.sequence batch = some entries) :
    ∃ later, Traced (Pipeline.publish config { state with channel := rest } commits entries)
      (blocks ++ [entries]) later := by
  have queued := traced.queued
  rw [channel] at queued
  obtain ⟨first, others, split, own, tail⟩ := List.map_eq_cons_iff.mp queued
  have streams : ∀ index, Trace.stream { trace with
      published := trace.published ++ first, queued := others } index = trace.stream index := by
    intro index
    simp [Trace.stream, split]
  refine ⟨{ trace with published := trace.published ++ first, queued := others }, ?_⟩
  exact
    { published := by
        rw [List.map_append, traced.published, List.flatten_append, List.map_append]
        simp [assignIds_unnumbered assigned, ← own]
      queued := tail
      buffered := traced.buffered
      claimed := traced.claimed
      known := by
        intro item member
        exact traced.known item (by simpa [split] using member)
      owned := traced.owned
      working := by
        intro index file reading
        rw [streams]
        exact traced.working index file reading
      idle := traced.idle
      finished := by
        intro file index owned closed
        rw [streams]
        exact traced.finished file index owned closed }

theorem Traced.step (traced : Traced state blocks trace) (conserves : state.Conserves config blocks)
    {next : Pipeline config.workers} {published : Option (List FireholEntry)}
    (stepped : Pipeline.HealthyStep config state next published) :
    ∃ later, Traced next (blocks ++ published.toList) later := by
  cases stepped with
  | worker moved healthy => simpa using traced.worker (step_workerStep moved) healthy
  | publish commits receiving channel assigned => exact traced.publish commits channel assigned
  | close channel ended =>
      rw [Option.toList_none, List.append_nil]
      exact ⟨trace, { traced with }⟩
  | dropReceiver stopping =>
      rw [Option.toList_none, List.append_nil]
      have empty := (conserves.closed (by simp [stopping])).1
      exact ⟨trace, { traced with queued := traced.queued.trans empty }⟩

end Steps

section Numbers

def Numbered (blocks : List (List FireholEntry)) : Prop :=
  blocks.flatten.map (fun entry => entry.ruleId.toNat) = List.range' 1 blocks.flatten.length

theorem assignIds_numbers {sequence : Nat} {batch entries : List FireholEntry}
    (assigned : assignIds sequence batch = some entries) :
    entries.map (fun entry => entry.ruleId.toNat) = List.range' (1 + sequence) entries.length := by
  unfold assignIds at assigned
  split_ifs at assigned with fits
  obtain rfl := Option.some.inj assigned
  apply List.ext_getElem (by simp)
  intro offset inside _
  simp only [List.length_map, List.length_mapIdx] at inside
  have below : sequence + offset + 1 < 2 ^ 32 := by
    rcases fits with rfl | small
    · simp at inside
    · omega
  simp only [List.getElem_map, List.getElem_mapIdx, BitVec.toNat_ofNat, List.getElem_range',
    Nat.mod_eq_of_lt below]
  omega

theorem Numbered.step {config : ImportConfig} {state next : Pipeline config.workers}
    {blocks : List (List FireholEntry)} {published : Option (List FireholEntry)}
    (numbered : Numbered blocks) (conserves : state.Conserves config blocks)
    (stepped : Pipeline.HealthyStep config state next published) :
    Numbered (blocks ++ published.toList) := by
  cases stepped with
  | worker => simpa using numbered
  | @publish batch entries rest commits receiving channel assigned =>
      have added := assignIds_numbers assigned
      rw [conserves.sequence] at added
      simp only [Numbered, Option.toList_some, List.flatten_append, List.map_append, List.flatten_cons,
        List.flatten_nil, List.append_nil, List.length_append] at numbered ⊢
      rw [numbered, added, ← List.range'_append_1]
  | close => simpa using numbered
  | dropReceiver => simpa using numbered

end Numbers

section Results

variable {config : ImportConfig} {actions : List (Action config.workers)}
  {final : Pipeline config.workers}

theorem start_traced : Traced (Pipeline.start : Pipeline config.workers) []
    ⟨[], [], fun _ => [], fun _ => none, fun _ => none⟩ where
  published := rfl
  queued := rfl
  buffered := fun _ => rfl
  claimed := by simp [Pipeline.start]
  known := by simp
  owned := by simp
  working := by simp
  idle := fun _ _ => rfl
  finished := by simp

theorem run_traced (reached : Runs.runSome (Pipeline.step config) .start actions = some final)
    (healthy : final.Healthy) :
    ∃ blocks, final.Conserves config blocks ∧ Numbered blocks ∧ ∃ trace, Traced final blocks trace := by
  refine @Pipeline.run_published config (fun state blocks =>
      state.Conserves config blocks ∧ Numbered blocks ∧ ∃ trace, Traced state blocks trace)
    ⟨Pipeline.conserves_start config, rfl, _, start_traced⟩ ?_ _ _ reached healthy
  intro state next blocks published kept stepped
  obtain ⟨conserves, numbered, trace, traced⟩ := kept
  exact ⟨conserves.step stepped, numbered.step conserves stepped, traced.step conserves stepped⟩

theorem Traced.interleaves {blocks : List (List FireholEntry)} {trace : Trace config}
    (traced : Traced final blocks trace) (conserves : final.Conserves config blocks)
    (positive : 0 < config.workers) (joined : final.scopeResult = some (.ok ())) :
    ∃ yields : Fin config.files.length → List FireholEntry,
      (∀ file, Yields config.context (config.files.get file) (yields file)) ∧
        Interleaves yields (blocks.flatten.map FireholEntry.unnumbered) := by
  obtain ⟨joining, healthy, ended⟩ := Pipeline.scopeResult_ok joined
  have phase (index : Fin config.workers) : (final.workers index).phase = .finished :=
    Pipeline.finished_of_ended (healthy.2 index) (ended index)
  have received : trace.queued = [] := by
    have empty := traced.queued.trans (conserves.closed (by simp [joining])).1
    simpa using empty
  have stream (index : Fin config.workers) : trace.stream index = trace.published := by
    have buffer := (traced.buffered index).trans (conserves.emptied index (phase index))
    rw [List.map_eq_nil_iff] at buffer
    simp [Trace.stream, received, buffer]
  have yields : ∀ file, Yields config.context (config.files.get file) (picked file trace.published) := by
    intro file
    have past := conserves.left ⟨0, positive⟩ (by simp [Worker.leftLoop, phase])
    obtain ⟨index, owned⟩ := Option.isSome_iff_exists.mp ((traced.claimed file).mpr (file.2.trans_le past))
    have resting : trace.current index = none := traced.current_none (by rw [phase]; rfl)
    have finished := traced.finished file index owned (by simp [resting])
    rwa [stream] at finished
  refine ⟨fun file => picked file trace.published, yields, trace.published, ?_, fun _ => rfl⟩
  -- Parsed entries are not numbered yet.
  rw [← traced.published]
  apply List.map_congr_left
  intro item member
  have plain := (yields item.1).unnumbered item.2 (mem_picked.mpr member)
  simp [FireholEntry.unnumbered, ← plain]

theorem import_publishes_files (positive : 0 < config.workers)
    (reached : Runs.runSome (Pipeline.step config) .start actions = some final)
    {result : Except FireholParseError Unit} (joined : final.scopeResult = some result) :
    (result = .ok () → ∃ entries, (final.dataset config).visitEntries = .ok entries ∧
      (∃ yields : Fin config.files.length → List FireholEntry,
        (∀ file, Yields config.context (config.files.get file) (yields file)) ∧
        (entries.map FireholEntry.unnumbered : Multiset FireholEntry) =
          ∑ file, (yields file : Multiset FireholEntry) ∧
        Interleaves yields (entries.map FireholEntry.unnumbered)) ∧
      entries.map (fun entry => entry.ruleId.toNat) = List.range' 1 entries.length) ∧
    ((∃ file ∈ config.files, file.Invalid config.context) → ∃ error, result = .error error) := by
  constructor
  · rintro rfl
    obtain ⟨blocks, conserves, numbered, trace, traced⟩ :=
      run_traced reached (Pipeline.scopeResult_ok joined).2.1
    obtain ⟨yields, each, woven⟩ := traced.interleaves conserves positive joined
    exact ⟨blocks.flatten, conserves.visitEntries positive joined, ⟨yields, each, woven.multiset, woven⟩,
      numbered⟩
  · rintro ⟨file, member, invalid⟩
    cases result with
    | error error => exact ⟨error, rfl⟩
    | ok =>
        obtain ⟨blocks, conserves⟩ := Pipeline.run_conserves reached (Pipeline.scopeResult_ok joined).2.1
        have complete := conserves.complete positive joined
        exact absurd (fileItems_invalid invalid) (published_valid complete member)

-- The files `a` with the line `1.2.3.4` and `b` with the line `5.6.7.8`.
def twoFiles : ImportConfig where
  context := ⟨.documented, fun _ => none, []⟩
  files := [⟨[97], 8, ⟨true, [49, 46, 50, 46, 51, 46, 52, 10], []⟩⟩,
    ⟨[98], 8, ⟨true, [53, 46, 54, 46, 55, 46, 56, 10], []⟩⟩]
  workers := 2
  cached := false
  spool := false

def takingTurns : List (Action twoFiles.workers) :=
  (List.replicate 9 [.worker (1 : Fin 2), .worker (0 : Fin 2)]).flatten ++
    [.receive false none, .receive false none, .close none, .dropReceiver]

theorem twoFiles_published : ∃ final,
    Runs.runSome (Pipeline.step twoFiles) .start takingTurns = some final ∧
    final.scopeResult = some (.ok ()) ∧
    ∃ entries, (final.dataset twoFiles).visitEntries = .ok entries ∧
      (∃ yields : Fin twoFiles.files.length → List FireholEntry,
        (∀ file, Yields twoFiles.context (twoFiles.files.get file) (yields file)) ∧
        (entries.map FireholEntry.unnumbered : Multiset FireholEntry) =
          ∑ file, (yields file : Multiset FireholEntry) ∧
        Interleaves yields (entries.map FireholEntry.unnumbered)) ∧
      entries.map (fun entry => entry.ruleId.toNat) = List.range' 1 entries.length := by
  have returned : ((Runs.runSome (Pipeline.step twoFiles) .start takingTurns).bind fun final =>
      final.scopeResult.bind Except.toOption).isSome = true := by decide +kernel
  obtain ⟨_, found⟩ := Option.isSome_iff_exists.mp returned
  obtain ⟨final, reached, succeeded⟩ := Option.bind_eq_some_iff.mp found
  obtain ⟨result, joined, ok⟩ := Option.bind_eq_some_iff.mp succeeded
  cases result with
  | error error => simp [Except.toOption] at ok
  | ok =>
      have published := import_publishes_files (show 0 < twoFiles.workers by decide) reached joined
      exact ⟨final, reached, joined, published.1 rfl⟩

end Results

end ReputationFirewall.Firehol
