import ReputationFirewall.Firehol.Completeness

set_option autoImplicit false

namespace ReputationFirewall.Firehol

section Work

variable (context : ImportContext)

-- Three for an entry: it is pushed, may fill a batch that is sent, and that is received.
def lineWork (line : List Char) : Nat := 1 + 3 * ((lineTargets context line).getD []).length

def linesWork (lines : List (List Char)) : Nat := (lines.map (lineWork context)).sum

def SourceFile.work (file : SourceFile) : Nat := linesWork context (visitFileLines file.source).lines

def WorkerPhase.work : WorkerPhase → Nat
  | .checking => 4
  | .taking => 3
  | .opening file => file.work context + 6
  | .parsing progress => 3 * progress.pending.length + linesWork context progress.lines + 5
  | .draining => 2
  | .finished | .failed _ | .panicked => 0

def Worker.work (worker : Worker) : Nat :=
  worker.phase.work context +
    if worker.ended = false ∧ workerBatchSize ≤ worker.buffer.length then 2 else 0

def unclaimedWork (files : List SourceFile) (shared : Shared) : Nat :=
  ((files.drop shared.fileIndex).map fun file => file.work context + 4).sum

def ConsumerPhase.work : ConsumerPhase → Nat
  | .receiving => 2
  | .stopping _ => 1
  | .joining _ => 0

def Pipeline.work (config : ImportConfig) (state : Pipeline config.workers) : Nat :=
  ∑ index, (state.workers index).work config.context + unclaimedWork config.context config.files state.shared +
    state.channel.length + state.consumer.work

end Work

section Workers

variable {config : ImportConfig} {port : Port} {worker : Worker} {shared : Shared} {move : WorkerMove}

theorem unclaimedWork_take {context : ImportContext} {files : List SourceFile} {file : SourceFile}
    (found : files[shared.fileIndex]? = some file) :
    unclaimedWork context files shared = file.work context + 4 +
      unclaimedWork context files { shared with fileIndex := shared.fileIndex + 1 } := by
  obtain ⟨inside, rfl⟩ := List.getElem?_eq_some_iff.mp found
  rw [unclaimedWork, List.drop_eq_getElem_cons inside, List.map_cons, List.sum_cons, unclaimedWork]

theorem unclaimedWork_past {context : ImportContext} {files : List SourceFile}
    (past : files.length ≤ shared.fileIndex) : unclaimedWork context files shared = 0 := by
  simp [unclaimedWork, List.drop_eq_nil_of_le past]

theorem visitLine_work {context : ImportContext} {path : List UInt8} {state : FileState}
    {nextMetadataId : BitVec 32} {lineNumber : Nat} {line : List Char} {result : LineResult}
    (visited : visitLine context path state nextMetadataId lineNumber line = .ok result) :
    lineWork context line = 1 + 3 * result.entries.length := by
  obtain ⟨targets, parsed, entries⟩ := visitLine_targets visited
  simp [lineWork, parsed, entries]

theorem Worker.work_ended {context : ImportContext} {worker : Worker} (ended : worker.ended = true) :
    worker.work context = 0 := by
  cases phase : worker.phase <;> simp_all [Worker.work, WorkerPhase.work, Worker.ended]

theorem Worker.work_pos {context : ImportContext} {worker : Worker} (running : worker.ended = false) :
    0 < worker.work context := by
  cases phase : worker.phase <;> simp_all [Worker.work, WorkerPhase.work, Worker.ended]

theorem WorkerStep.work (step : WorkerStep config port worker shared move) :
    move.worker.work config.context + unclaimedWork config.context config.files move.shared +
        move.sent.toList.length <
      worker.work config.context + unclaimedWork config.context config.files shared := by
  cases step with
  | check phase => simp [Worker.work, Worker.ended, WorkerPhase.work, phase]
  | leave phase => simp [Worker.work, Worker.ended, WorkerPhase.work, phase]
  | take phase found =>
      rw [unclaimedWork_take found]
      simp only [Worker.work, Worker.ended, WorkerPhase.work, phase, Option.toList_none, List.length_nil]
      omega
  | exhaust phase past =>
      rw [unclaimedWork_past past, unclaimedWork_past (Nat.le_succ_of_le past)]
      simp [Worker.work, Worker.ended, WorkerPhase.work, phase]
  | opens phase =>
      simp [Worker.openFile, Worker.work, Worker.ended, WorkerPhase.work, phase, unclaimedWork, SourceFile.work]
  | flush phase full =>
      have emptied : ¬ workerBatchSize ≤ ([] : List FireholEntry).length := by decide
      simp only [Worker.work, Worker.ended, WorkerPhase.work, phase, full, emptied, and_true, and_false,
        if_true, if_false, Option.toList_some, List.length_singleton]
      omega
  | push phase listed =>
      simp only [Worker.work, Worker.ended, WorkerPhase.work, phase, listed, List.length_cons,
        Option.toList_none, List.length_nil]
      split_ifs <;> omega
  | line phase drained lines visited =>
      simp only [Worker.work, Worker.ended, WorkerPhase.work, phase, drained, lines, linesWork, List.map_cons,
        List.sum_cons, visitLine_work visited, unclaimedWork, Option.toList_none, List.length_nil]
      omega
  | endFile phase drained lines =>
      simp [Worker.work, Worker.ended, WorkerPhase.work, phase, drained, lines, linesWork]
  | finish phase => simp [Worker.work, Worker.ended, WorkerPhase.work, phase]
  | lastFlush phase =>
      simp [Worker.work, Worker.ended, WorkerPhase.work, phase]
      omega
  | fail phase =>
      have positive : 0 < worker.work config.context := Worker.work_pos (by simp [Worker.ended, phase])
      simpa [Worker.fail, Worker.work, Worker.ended, WorkerPhase.work, unclaimedWork] using positive
  | refused phase => simp [Worker.work, Worker.ended, WorkerPhase.work, phase]

theorem Worker.parse_isSome (context : ImportContext) (shared : Shared) (progress : FileProgress)
    (sendable : port ≠ .full) : (worker.parse context port shared progress).isSome = true := by
  unfold Worker.parse
  split_ifs
  · cases port with
    | full => exact absurd rfl sendable
    | room => rfl
    | disconnected => rfl
  · split
    · rfl
    · split <;> rfl

theorem Worker.drain_isSome (shared : Shared) (sendable : port ≠ .full) :
    (worker.drain port shared).isSome = true := by
  unfold Worker.drain
  split_ifs
  · rfl
  · cases port with
    | full => exact absurd rfl sendable
    | room => rfl
    | disconnected => rfl

theorem Worker.step_isSome (config : ImportConfig) (shared : Shared) (running : worker.ended = false)
    (sendable : port ≠ .full) : (worker.step config port shared).isSome = true := by
  unfold Worker.step
  cases phase : worker.phase with
  | checking => rfl
  | taking => rfl
  | opening file => rfl
  | parsing progress => exact worker.parse_isSome config.context shared progress sendable
  | draining => exact worker.drain_isSome shared sendable
  | finished => simp [Worker.ended, phase] at running
  | failed error => simp [Worker.ended, phase] at running
  | panicked => simp [Worker.ended, phase] at running

end Workers

namespace Pipeline

variable {config : ImportConfig} {state next : Pipeline config.workers}

theorem work_receive (commits : Bool) (fault : Option FirewallError) (batch : List FireholEntry)
    (receiving : state.consumer = .receiving) :
    (receive config state commits fault batch).work config ≤ state.work config := by
  unfold receive
  split
  · simp [work, stop, ConsumerPhase.work, unclaimedWork, receiving]
  · split
    · simp [work, stop, ConsumerPhase.work, unclaimedWork, receiving]
    · exact le_rfl

theorem step_work {action : Action config.workers} (stepped : step config state action = some next) :
    next.work config < state.work config := by
  cases step_stepped stepped with
  | @worker index move moved =>
      have less := (step_workerStep moved).work
      have sum := sum_update (Worker.work config.context) state index move.worker
      simp only [work, moveWorker, List.length_append]
      simp only [setWorker] at sum ⊢
      omega
  | @panic index running =>
      have positive : 0 < (state.workers index).work config.context := Worker.work_pos running
      have sum := sum_update (Worker.work config.context) state index
        { state.workers index with phase := .panicked }
      have none : ({ state.workers index with phase := .panicked } : Worker).work config.context = 0 :=
        Worker.work_ended rfl
      rw [none] at sum
      simp only [work, setWorker] at sum ⊢
      omega
  | @receive batch rest commits fault receiving channel =>
      refine lt_of_le_of_lt (work_receive commits fault batch receiving) ?_
      simp only [work, channel, List.length_cons]
      omega
  | close fault receiving channel ended =>
      unfold close
      split <;> simp [work, stop, ConsumerPhase.work, unclaimedWork, receiving]
  | dropReceiver stopping =>
      simp only [work, ConsumerPhase.work, stopping, List.length_nil]
      omega

def Own {workers : Nat} : Action workers → Prop
  | .panic _ => False
  | _ => True

theorem worker_progress {index : Fin config.workers} (running : (state.workers index).ended = false)
    (sendable : state.port ≠ .full) : ∃ action, Own action ∧ (step config state action).isSome = true := by
  have moves := (state.workers index).step_isSome config state.shared running sendable
  exact ⟨.worker index, trivial, by simpa [step] using moves⟩

theorem running_of_not_allEnded (waiting : ¬ state.allEnded) :
    ∃ index, (state.workers index).ended = false := by
  simpa [allEnded] using waiting

theorem progress (unfinished : ¬ (state.scopeResult.isSome = true ∧ state.allEnded)) :
    ∃ action, Own action ∧ (step config state action).isSome = true := by
  cases consumer : state.consumer with
  | receiving =>
      cases channel : state.channel with
      | cons batch rest => exact ⟨.receive false none, trivial, by simp [step, consumer, channel]⟩
      | nil =>
          by_cases ended : state.allEnded
          · exact ⟨.close none, trivial, by simp [step, consumer, channel, ended]⟩
          · obtain ⟨index, running⟩ := running_of_not_allEnded ended
            have some : 0 < config.workers := lt_of_le_of_lt (Nat.zero_le _) index.2
            exact worker_progress running (by simp [port, consumer, channel, some])
  | stopping failure => exact ⟨.dropReceiver, trivial, by simp [step, consumer]⟩
  | joining failure =>
      by_cases ended : state.allEnded
      · refine absurd ⟨?_, ended⟩ unfinished
        simp only [scopeResult, consumer, if_pos ended]
        split <;> rfl
      · obtain ⟨index, running⟩ := running_of_not_allEnded ended
        exact worker_progress running (by simp [port, consumer])

end Pipeline

theorem import_ends (config : ImportConfig) (state : Pipeline config.workers) :
    Runs.Inevitable (Pipeline.step config) Pipeline.Own
      (fun state => state.scopeResult.isSome = true ∧ state.allEnded) state :=
  Runs.inevitable_of_measure (Pipeline.work config) (fun _ _ _ => Pipeline.step_work)
    (fun _ => Pipeline.progress) state

end ReputationFirewall.Firehol
