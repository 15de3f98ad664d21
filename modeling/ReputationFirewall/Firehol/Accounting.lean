import ReputationFirewall.Firehol.Items

set_option autoImplicit false

namespace ReputationFirewall.Firehol

open Text

section Moves

inductive WorkerStep (config : ImportConfig) (port : Port) (worker : Worker) (shared : Shared) :
    WorkerMove → Prop where
  | check (phase : worker.phase = .checking) (running : shared.abort = false) :
      WorkerStep config port worker shared ⟨shared, { worker with phase := .taking }, none⟩
  | leave (phase : worker.phase = .checking) (aborted : shared.abort = true) :
      WorkerStep config port worker shared ⟨shared, { worker with phase := .draining }, none⟩
  | take {file : SourceFile} (phase : worker.phase = .taking)
      (found : config.files[shared.fileIndex]? = some file) :
      WorkerStep config port worker shared ⟨{ shared with fileIndex := shared.fileIndex + 1 },
        { worker with phase := .opening file }, none⟩
  | exhaust (phase : worker.phase = .taking) (past : config.files.length ≤ shared.fileIndex) :
      WorkerStep config port worker shared ⟨{ shared with fileIndex := shared.fileIndex + 1 },
        { worker with phase := .draining }, none⟩
  | opens {file : SourceFile} (phase : worker.phase = .opening file) :
      WorkerStep config port worker shared (worker.openFile shared file)
  | flush {progress : FileProgress} (phase : worker.phase = .parsing progress)
      (full : workerBatchSize ≤ worker.buffer.length) (room : port = .room) :
      WorkerStep config port worker shared ⟨shared, { worker with buffer := [] }, some worker.buffer⟩
  | push {progress : FileProgress} {entry : FireholEntry} {pending : List FireholEntry}
      (phase : worker.phase = .parsing progress) (listed : progress.pending = entry :: pending) :
      WorkerStep config port worker shared ⟨shared, { worker with
        phase := .parsing { progress with pending }, buffer := worker.buffer ++ [entry] }, none⟩
  | line {progress : FileProgress} {line : List Char} {rest : List (List Char)} {result : LineResult}
      (phase : worker.phase = .parsing progress) (drained : progress.pending = [])
      (lines : progress.lines = line :: rest)
      (visited : visitLine config.context progress.file.path progress.state shared.nextMetadataId
        progress.lineNumber line = .ok result) :
      WorkerStep config port worker shared
        ⟨{ shared with nextMetadataId := result.nextMetadataId }, { worker with
          phase := .parsing { progress with
            state := result.state, lines := rest, lineNumber := progress.lineNumber + 1
            pending := result.entries }
          output := { worker.output with metadata := worker.output.metadata ++ result.emitted } }, none⟩
  | endFile {progress : FileProgress} {output : WorkerOutput} (phase : worker.phase = .parsing progress)
      (drained : progress.pending = []) (lines : progress.lines = []) (read : progress.bytes.isSome = true) :
      WorkerStep config port worker shared ⟨shared, { worker with phase := .checking, output }, none⟩
  | finish (phase : worker.phase = .draining) (empty : worker.buffer = []) :
      WorkerStep config port worker shared ⟨shared, { worker with phase := .finished }, none⟩
  | lastFlush (phase : worker.phase = .draining) (full : worker.buffer ≠ []) (room : port = .room) :
      WorkerStep config port worker shared
        ⟨shared, { worker with phase := .finished, buffer := [] }, some worker.buffer⟩
  | fail {progress : FileProgress} (phase : worker.phase = .parsing progress) (error : FireholParseError) :
      WorkerStep config port worker shared (worker.fail shared error)
  | refused (phase : worker.phase = .draining) (disconnected : port = .disconnected) :
      WorkerStep config port worker shared
        ⟨shared, { worker with phase := .failed writerStopped }, none⟩

variable {config : ImportConfig} {worker : Worker} {port : Port} {shared : Shared} {move : WorkerMove}

theorem parse_workerStep {progress : FileProgress} (phase : worker.phase = .parsing progress)
    (moved : worker.parse config.context port shared progress = some move) :
    WorkerStep config port worker shared move := by
  unfold Worker.parse at moved
  split_ifs at moved with full
  · cases port with
    | room =>
        cases moved
        exact .flush phase full rfl
    | full => simp at moved
    | disconnected =>
        cases moved
        exact .fail phase writerStopped
  · cases pending : progress.pending with
    | cons entry rest =>
        simp only [pending, Option.some.injEq] at moved
        exact moved ▸ .push phase pending
    | nil =>
        cases lines : progress.lines with
        | cons line rest =>
            simp only [pending, lines, Option.some.injEq, Worker.nextLine] at moved
            split at moved
            · exact moved ▸ .fail phase _
            · next result visited => exact moved ▸ .line phase pending lines visited
        | nil =>
            simp only [pending, lines, Option.some.injEq, Worker.endFile] at moved
            split at moved
            · exact moved ▸ .fail phase _
            · next bytes read => exact moved ▸ .endFile phase pending lines (by simp [read])

theorem drain_workerStep (phase : worker.phase = .draining)
    (moved : worker.drain port shared = some move) : WorkerStep config port worker shared move := by
  unfold Worker.drain at moved
  split_ifs at moved with empty
  · cases moved
    exact .finish phase empty
  · cases port with
    | room =>
        cases moved
        exact .lastFlush phase empty rfl
    | full => simp at moved
    | disconnected =>
        cases moved
        exact .refused phase rfl

theorem step_workerStep (moved : worker.step config port shared = some move) :
    WorkerStep config port worker shared move := by
  unfold Worker.step at moved
  cases phase : worker.phase with
  | checking =>
      simp only [phase, Option.some.injEq] at moved
      subst moved
      cases aborted : shared.abort with
      | true => simpa [aborted] using WorkerStep.leave phase aborted
      | false => simpa [aborted] using WorkerStep.check phase aborted
  | taking =>
      simp only [phase, Option.some.injEq, Worker.takeFile] at moved
      subst moved
      cases found : config.files[shared.fileIndex]? with
      | none => exact .exhaust phase (List.getElem?_eq_none_iff.mp found)
      | some file => exact .take phase found
  | opening file =>
      simp only [phase, Option.some.injEq] at moved
      exact moved ▸ .opens phase
  | parsing progress =>
      simp only [phase] at moved
      exact parse_workerStep phase moved
  | draining =>
      simp only [phase] at moved
      exact drain_workerStep phase moved
  | finished => simp [phase] at moved
  | failed error => simp [phase] at moved
  | panicked => simp [phase] at moved

end Moves

section Accounting

variable (context : ImportContext)

def Worker.owes (worker : Worker) : Multiset Item :=
  entryItems worker.buffer + match worker.phase with
    | .opening file => fileItems context file
    | .parsing progress =>
        entryItems progress.pending + linesItems context progress.lineNumber progress.lines +
          readItems progress.bytes
    | _ => 0

def unclaimed (files : List SourceFile) (shared : Shared) : Multiset Item :=
  ((files.drop shared.fileIndex).map (fileItems context)).sum

def Worker.healthy (worker : Worker) : Bool :=
  match worker.phase with
  | .failed _ | .panicked => false
  | _ => true

def WorkerMove.total (config : ImportConfig) (move : WorkerMove) : Multiset Item :=
  entryItems (move.sent.getD []) + move.worker.owes config.context +
    unclaimed config.context config.files move.shared

end Accounting

section Steps

variable {config : ImportConfig} {worker : Worker} {port : Port} {shared : Shared} {move : WorkerMove}

theorem unclaimed_take {context : ImportContext} {files : List SourceFile} {file : SourceFile}
    (found : files[shared.fileIndex]? = some file) :
    unclaimed context files shared =
      fileItems context file + unclaimed context files { shared with fileIndex := shared.fileIndex + 1 } := by
  obtain ⟨inside, rfl⟩ := List.getElem?_eq_some_iff.mp found
  rw [unclaimed, List.drop_eq_getElem_cons inside, List.map_cons, List.sum_cons, unclaimed]

theorem unclaimed_past {context : ImportContext} {files : List SourceFile}
    (past : files.length ≤ shared.fileIndex) : unclaimed context files shared = 0 := by
  simp [unclaimed, List.drop_eq_nil_of_le past]

theorem WorkerStep.total (step : WorkerStep config port worker shared move)
    (healthy : move.worker.healthy = true) :
    move.total config = worker.owes config.context + unclaimed config.context config.files shared := by
  unfold WorkerMove.total
  cases step with
  | check phase => simp [Worker.owes, phase]
  | leave phase => simp [Worker.owes, phase]
  | take phase found =>
      rw [unclaimed_take found]
      simp only [Worker.owes, phase, Option.getD_none, entryItems_nil]
      abel
  | exhaust phase past =>
      rw [unclaimed_past past, unclaimed_past (Nat.le_succ_of_le past)]
      simp [Worker.owes, phase]
  | opens phase => simp [Worker.openFile, Worker.owes, unclaimed, phase, fileItems]
  | flush phase => simp [Worker.owes, phase, add_assoc]
  | @push progress entry pending phase listed =>
      have cons : entryItems (entry :: pending) = entryItems [entry] + entryItems pending :=
        entryItems_append [entry] pending
      simp only [Worker.owes, phase, listed, entryItems_append, cons, Option.getD_none, entryItems_nil]
      abel
  | line phase drained lines visited =>
      simp [Worker.owes, unclaimed, phase, lines, drained, linesItems, visitLine_items visited]
  | endFile phase drained lines read => simp [Worker.owes, phase, lines, drained, linesItems, readItems, read]
  | finish phase empty => simp [Worker.owes, phase, empty]
  | lastFlush phase => simp [Worker.owes, phase]
  | fail => simp [Worker.fail, Worker.healthy] at healthy
  | refused => simp [Worker.healthy] at healthy

def Worker.leftLoop (worker : Worker) : Bool :=
  match worker.phase with
  | .draining | .finished => true
  | _ => false

structure StepFrame (config : ImportConfig) (worker : Worker) (shared : Shared) (move : WorkerMove) :
    Prop where
  before : worker.healthy = true
  abort : move.shared.abort = shared.abort
  index : shared.fileIndex ≤ move.shared.fileIndex
  left : move.worker.leftLoop = true →
    worker.leftLoop = true ∨ shared.abort = true ∨ config.files.length ≤ move.shared.fileIndex
  sent : ∀ batch, move.sent = some batch → batch ≠ []
  emptied : move.worker.phase = .finished → move.worker.buffer = []

theorem WorkerStep.frame (step : WorkerStep config port worker shared move)
    (healthy : move.worker.healthy = true) : StepFrame config worker shared move := by
  have before : worker.healthy = true := by cases step <;> simp_all [Worker.healthy]
  cases step with
  | check => exact ⟨before, rfl, le_rfl, by simp [Worker.leftLoop], by simp, by simp⟩
  | leave _ aborted => exact ⟨before, rfl, le_rfl, fun _ => Or.inr (Or.inl aborted), by simp, by simp⟩
  | take => exact ⟨before, rfl, Nat.le_succ _, by simp [Worker.leftLoop], by simp, by simp⟩
  | exhaust _ past =>
      exact ⟨before, rfl, Nat.le_succ _, fun _ => Or.inr (Or.inr (Nat.le_succ_of_le past)), by simp, by simp⟩
  | opens =>
      exact ⟨before, rfl, le_rfl, by simp [Worker.openFile, Worker.leftLoop], by simp [Worker.openFile],
        by simp [Worker.openFile]⟩
  | flush phase full =>
      refine ⟨before, rfl, le_rfl, by simp [Worker.leftLoop, phase], ?_, by simp [phase]⟩
      rintro _ ⟨rfl⟩ empty
      simp [empty, workerBatchSize] at full
  | push => exact ⟨before, rfl, le_rfl, by simp [Worker.leftLoop], by simp, by simp⟩
  | line => exact ⟨before, rfl, le_rfl, by simp [Worker.leftLoop], by simp, by simp⟩
  | endFile => exact ⟨before, rfl, le_rfl, by simp [Worker.leftLoop], by simp, by simp⟩
  | finish phase empty =>
      exact ⟨before, rfl, le_rfl, fun _ => Or.inl (by simp [Worker.leftLoop, phase]), by simp, fun _ => empty⟩
  | lastFlush phase full =>
      exact ⟨before, rfl, le_rfl, fun _ => Or.inl (by simp [Worker.leftLoop, phase]), by simpa using full,
        fun _ => rfl⟩
  | fail => simp [Worker.fail, Worker.healthy] at healthy
  | refused => simp [Worker.healthy] at healthy

end Steps

end ReputationFirewall.Firehol
