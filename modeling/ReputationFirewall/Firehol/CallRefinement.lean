import ReputationFirewall.Firehol.Categories
import ReputationFirewall.Firehol.Provenance

set_option autoImplicit false

namespace ReputationFirewall.Firehol

open Interleaving Runs Text

section Levels

def FileCall.entries : FileCall → List FireholEntry
  | .opening => []
  | .reading parsed _ _ => parsed.entries
  | .returned _ entries _ => entries

def Worker.held (worker : Worker) : List FireholEntry :=
  worker.buffer ++ match worker.phase with
    | .parsing progress => progress.pending
    | _ => []

def Pipeline.metadata {workers : Nat} (state : Pipeline workers) : List FireholMetadata :=
  (List.finRange workers).flatMap fun index => (state.workers index).output.metadata

def contents (entries : List FireholEntry) : Multiset FireholEntry := entries.map FireholEntry.unnumbered

@[simp] theorem contents_nil : contents [] = 0 := rfl

@[simp] theorem contents_append (first second : List FireholEntry) :
    contents (first ++ second) = contents first + contents second := by
  simp [contents]

abbrev ParseCalls.stepOf (config : ImportConfig) :
    ParseCalls config.files.length → Fin config.files.length → ParseCalls config.files.length :=
  ParseCalls.step config.context config.files.get

variable (config : ImportConfig)

inductive WorksOn (calls : Fin config.files.length → FileCall) :
    WorkerPhase → Option (Fin config.files.length) → Prop where
  | idle {phase : WorkerPhase} (resting : phase.busy = false) : WorksOn calls phase none
  | opening {file : Fin config.files.length} (unopened : calls file = .opening) :
      WorksOn calls (.opening (config.files.get file)) (some file)
  | parsing {file : Fin config.files.length} {progress : FileProgress} {parsed : ParsedFile}
      (source : progress.file = config.files.get file)
      (reading : calls file = .reading parsed progress.lineNumber progress.lines)
      (state : parsed.state = progress.state)
      (bytes : progress.bytes = (visitFileLines progress.file.source).bytes) :
      WorksOn calls (.parsing progress) (some file)

variable {config}

structure RefinesCalls (state : Pipeline config.workers) (blocks : List (List FireholEntry))
    (current : Fin config.workers → Option (Fin config.files.length))
    (calls : ParseCalls config.files.length) : Prop where
  counter : calls.nextMetadataId = state.shared.nextMetadataId
  works : ∀ index, WorksOn config calls.calls (state.workers index).phase (current index)
  alone : ∀ left right file, current left = some file → current right = some file → left = right
  claimed : ∀ index file, current index = some file → file.1 < state.shared.fileIndex
  unopened : ∀ file : Fin config.files.length, state.shared.fileIndex ≤ file.1 → calls.calls file = .opening
  returned : ∀ file : Fin config.files.length, file.1 < state.shared.fileIndex →
    (∀ index, current index ≠ some file) →
      ∃ metadata entries bytes, calls.calls file = .returned metadata entries (.ok bytes)
  records : ∑ index, ((state.workers index).output.metadata : Multiset FireholMetadata) =
    ∑ file, ((calls.calls file).pushed : Multiset FireholMetadata)
  entries : contents blocks.flatten + contents state.channel.flatten +
      ∑ index, contents (state.workers index).held = ∑ file, contents (calls.calls file).entries

end Levels

section Moves

variable {config : ImportConfig} {state : Pipeline config.workers} {blocks : List (List FireholEntry)}
  {current : Fin config.workers → Option (Fin config.files.length)} {calls : ParseCalls config.files.length}
  {index : Fin config.workers}

theorem WorksOn.resting {calls : Fin config.files.length → FileCall} {phase : WorkerPhase}
    {file : Option (Fin config.files.length)} (works : WorksOn config calls phase file)
    (idle : phase.busy = false) : file = none := by
  cases works with
  | idle => rfl
  | opening => simp [WorkerPhase.busy] at idle
  | parsing => simp [WorkerPhase.busy] at idle

theorem WorksOn.congr {calls later : Fin config.files.length → FileCall} {phase : WorkerPhase}
    {file : Option (Fin config.files.length)} (works : WorksOn config calls phase file)
    (same : ∀ own, file = some own → later own = calls own) : WorksOn config later phase file := by
  cases works with
  | idle resting => exact .idle resting
  | opening unopened => exact .opening ((same _ rfl).trans unopened)
  | parsing source reading state bytes => exact .parsing source ((same _ rfl).trans reading) state bytes

theorem RefinesCalls.move (refines : RefinesCalls state blocks current calls) {move : WorkerMove}
    {next : Option (Fin config.files.length)} {later : ParseCalls config.files.length}
    (own : WorksOn config later.calls move.worker.phase next)
    (counter : later.nextMetadataId = move.shared.nextMetadataId)
    (others : ∀ file, current index ≠ some file → later.calls file = calls.calls file)
    (forward : state.shared.fileIndex ≤ move.shared.fileIndex)
    (gained : ∀ file : Fin config.files.length, state.shared.fileIndex ≤ file.1 → file.1 < move.shared.fileIndex →
      next = some file)
    (taken : ∀ file, next = some file →
      current index = some file ∨ state.shared.fileIndex ≤ file.1 ∧ file.1 < move.shared.fileIndex)
    (ended : ∀ file, current index = some file → next = some file ∨
      ∃ metadata entries bytes, later.calls file = .returned metadata entries (.ok bytes))
    (records : (move.worker.output.metadata : Multiset FireholMetadata) +
        ∑ file, ((calls.calls file).pushed : Multiset FireholMetadata) =
      ((state.workers index).output.metadata : Multiset FireholMetadata) +
        ∑ file, ((later.calls file).pushed : Multiset FireholMetadata))
    (entries : contents move.sent.toList.flatten + contents move.worker.held +
        ∑ file, contents (calls.calls file).entries =
      contents (state.workers index).held + ∑ file, contents (later.calls file).entries) :
    RefinesCalls (state.moveWorker index move) blocks (Function.update current index next) later where
  counter := counter
  works := by
    intro other
    rcases eq_or_ne other index with rfl | different
    · rwa [Pipeline.moveWorker_self, Function.update_self]
    · rw [Pipeline.moveWorker_other _ different, Function.update_of_ne different]
      refine (refines.works other).congr fun file reading => others file fun shared => ?_
      exact different (refines.alone other index file reading shared)
  alone := by
    have apart : ∀ other file, other ≠ index → current other = some file → next ≠ some file := by
      intro other file different reading same
      rcases taken file same with before | ⟨past, _⟩
      · exact different (refines.alone other index file reading before)
      · exact absurd (refines.claimed other file reading) (Nat.not_lt.mpr past)
    intro left right file first second
    rcases eq_or_ne left index with rfl | leftOther <;> rcases eq_or_ne right left with rfl | different
    · rfl
    · rw [Function.update_self] at first
      rw [Function.update_of_ne different] at second
      exact absurd first (apart right file different second)
    · rfl
    · rw [Function.update_of_ne leftOther] at first
      rcases eq_or_ne right index with rfl | rightOther
      · rw [Function.update_self] at second
        exact absurd second (apart left file leftOther first)
      · rw [Function.update_of_ne rightOther] at second
        exact refines.alone left right file first second
  claimed := by
    intro other file reading
    rcases eq_or_ne other index with rfl | different
    · rw [Function.update_self] at reading
      rcases taken file reading with before | ⟨_, below⟩
      · exact (refines.claimed other file before).trans_le forward
      · exact below
    · rw [Function.update_of_ne different] at reading
      exact (refines.claimed other file reading).trans_le forward
  unopened := by
    intro file past
    have before : state.shared.fileIndex ≤ file.1 := forward.trans past
    rw [others file fun reading => absurd (refines.claimed index file reading) (Nat.not_lt.mpr before)]
    exact refines.unopened file before
  returned := by
    intro file below free
    have released : next ≠ some file := by simpa using free index
    rcases Nat.lt_or_ge file.1 state.shared.fileIndex with before | past
    · by_cases reading : current index = some file
      · exact (ended file reading).resolve_left released
      · rw [others file reading]
        refine refines.returned file before fun other => ?_
        rcases eq_or_ne other index with rfl | different
        · exact reading
        · simpa [Function.update_of_ne different] using free other
    · exact absurd (gained file past below) released
  records := by
    have sum := Pipeline.sum_update (fun worker => (worker.output.metadata : Multiset FireholMetadata)) state index
      move.worker
    rw [refines.records] at sum
    exact add_right_cancel (sum.trans ((add_comm _ _).trans (records.trans (add_comm _ _))))
  entries := by
    have sum := Pipeline.sum_update (fun worker => contents worker.held) state index move.worker
    have total := refines.entries
    have channel : (state.moveWorker index move).channel = state.channel ++ move.sent.toList := rfl
    rw [channel, List.flatten_append, contents_append]
    apply add_right_cancel (b := contents (state.workers index).held)
    calc
      _ = contents blocks.flatten + contents state.channel.flatten + contents move.sent.toList.flatten +
          (∑ other, contents ((state.setWorker index move.worker).workers other).held +
            contents (state.workers index).held) := by
        rw [← add_assoc, ← add_assoc]
        rfl
      _ = contents move.sent.toList.flatten + contents move.worker.held + (contents blocks.flatten +
          contents state.channel.flatten + ∑ other, contents (state.workers other).held) := by
        rw [sum]
        abel
      _ = _ := by
        rw [total, entries, add_comm]

theorem RefinesCalls.stutter (refines : RefinesCalls state blocks current calls) {move : WorkerMove}
    {next : Option (Fin config.files.length)} (own : WorksOn config calls.calls move.worker.phase next)
    (counter : move.shared.nextMetadataId = state.shared.nextMetadataId)
    (forward : state.shared.fileIndex ≤ move.shared.fileIndex)
    (gained : ∀ file : Fin config.files.length, state.shared.fileIndex ≤ file.1 → file.1 < move.shared.fileIndex →
      next = some file)
    (taken : ∀ file, next = some file →
      current index = some file ∨ state.shared.fileIndex ≤ file.1 ∧ file.1 < move.shared.fileIndex)
    (kept : ∀ file, current index = some file → next = some file)
    (output : move.worker.output = (state.workers index).output)
    (entries : contents move.sent.toList.flatten + contents move.worker.held = contents (state.workers index).held) :
    RefinesCalls (state.moveWorker index move) blocks (Function.update current index next) calls :=
  refines.move own (refines.counter.trans counter.symm) (fun _ _ => rfl) forward gained taken
    (fun file reading => Or.inl (kept file reading)) (by rw [output]) (by rw [entries])

theorem RefinesCalls.rest (refines : RefinesCalls state blocks current calls) {move : WorkerMove}
    (before : (state.workers index).phase.busy = false) (after : move.worker.phase.busy = false)
    (counter : move.shared.nextMetadataId = state.shared.nextMetadataId)
    (forward : state.shared.fileIndex ≤ move.shared.fileIndex)
    (noneGained : ∀ file : Fin config.files.length, state.shared.fileIndex ≤ file.1 → ¬ file.1 < move.shared.fileIndex)
    (output : move.worker.output = (state.workers index).output)
    (entries : contents move.sent.toList.flatten + contents move.worker.held = contents (state.workers index).held) :
    RefinesCalls (state.moveWorker index move) blocks (Function.update current index none) calls := by
  have free : current index = none := (refines.works index).resting before
  refine refines.stutter (.idle after) counter forward ?_ (fun _ reading => absurd reading (by simp)) ?_ output entries
  · exact fun file past below => absurd below (noneGained file past)
  · exact fun file reading => absurd (free.symm.trans reading) (by simp)

theorem RefinesCalls.stay (refines : RefinesCalls state blocks current calls) {move : WorkerMove}
    (own : WorksOn config calls.calls move.worker.phase (current index)) (shared : move.shared = state.shared)
    (output : move.worker.output = (state.workers index).output)
    (entries : contents move.sent.toList.flatten + contents move.worker.held = contents (state.workers index).held) :
    RefinesCalls (state.moveWorker index move) blocks (Function.update current index (current index)) calls := by
  refine refines.stutter own (by rw [shared]) (by rw [shared]) ?_ (fun _ => Or.inl) (fun _ => id) output entries
  intro file past below
  rw [shared] at below
  exact absurd below (Nat.not_lt.mpr past)

theorem RefinesCalls.advance (refines : RefinesCalls state blocks current calls) {move : WorkerMove}
    {file : Fin config.files.length} (reading : current index = some file)
    {next : Option (Fin config.files.length)} {call : FileCall} {pushed : List FireholMetadata}
    {read : List FireholEntry}
    (stepped : (calls.calls file).step config.context (config.files.get file) calls.nextMetadataId =
      (call, move.shared.nextMetadataId))
    (own : WorksOn config (Function.update calls.calls file call) move.worker.phase next)
    (indexKept : move.shared.fileIndex = state.shared.fileIndex)
    (goes : next = some file ∨ next = none ∧ ∃ metadata entries bytes, call = .returned metadata entries (.ok bytes))
    (output : move.worker.output.metadata = (state.workers index).output.metadata ++ pushed)
    (records : call.pushed = (calls.calls file).pushed ++ pushed) (sent : move.sent = none)
    (held : contents move.worker.held = contents (state.workers index).held + contents read)
    (entries : call.entries = (calls.calls file).entries ++ read) :
    RefinesCalls (state.moveWorker index move) blocks (Function.update current index next)
      (ParseCalls.stepOf config calls file) := by
  have after : ParseCalls.stepOf config calls file =
      ⟨move.shared.nextMetadataId, Function.update calls.calls file call⟩ := by
    simp only [ParseCalls.stepOf, ParseCalls.step, stepped]
  rw [after]
  refine refines.move own rfl ?_ indexKept.ge ?_ ?_ ?_ ?_ ?_
  · intro other elsewhere
    refine Function.update_of_ne ?_ _ _
    rintro rfl
    exact elsewhere reading
  · intro other past below
    rw [indexKept] at below
    exact absurd below (Nat.not_lt.mpr past)
  · intro other taken
    rcases goes with same | ⟨none, _⟩
    · exact Or.inl (reading.trans (same.symm.trans taken))
    · exact absurd (none.symm.trans taken) (by simp)
  · intro other before
    obtain rfl : file = other := Option.some.inj (reading.symm.trans before)
    rcases goes with same | ⟨_, returned⟩
    · exact Or.inl same
    · refine Or.inr ?_
      simpa using returned
  · have sum := sum_update_part (fun _ (call : FileCall) => (call.pushed : Multiset FireholMetadata)) calls.calls file call
    rw [records, ← Multiset.coe_add, add_comm ((calls.calls file).pushed : Multiset FireholMetadata),
      ← add_assoc] at sum
    rw [output, ← Multiset.coe_add, add_right_cancel sum]
    abel
  · have sum := sum_update_part (fun _ (call : FileCall) => contents call.entries) calls.calls file call
    rw [entries, contents_append, add_comm (contents (calls.calls file).entries), ← add_assoc] at sum
    rw [sent, held, add_right_cancel sum]
    simp only [Option.toList_none, List.flatten_nil, contents_nil]
    abel

end Moves

section Steps

variable {config : ImportConfig} {state : Pipeline config.workers} {blocks : List (List FireholEntry)}
  {current : Fin config.workers → Option (Fin config.files.length)} {calls : ParseCalls config.files.length}
  {index : Fin config.workers} {move : WorkerMove}

theorem step_endFile {worker : Worker} {port : Port} {shared : Shared} {progress : FileProgress}
    {output : WorkerOutput} (phase : worker.phase = .parsing progress)
    (drained : progress.pending = []) (lines : progress.lines = [])
    (moved : worker.step config port shared = some ⟨shared, { worker with phase := .checking, output }, none⟩) :
    output.metadata = worker.output.metadata ++ progress.state.unpushed := by
  simp only [Worker.step, phase, Worker.parse] at moved
  split_ifs at moved
  · cases port <;> simp [Worker.fail] at moved
  · simp only [drained, lines, Worker.endFile, Option.some.injEq] at moved
    split at moved
    · simp [Worker.fail] at moved
    · simp only [WorkerMove.mk.injEq, Worker.mk.injEq, true_and, and_true] at moved
      rw [← moved]
      rfl

theorem RefinesCalls.worker (refines : RefinesCalls state blocks current calls)
    (moved : (state.workers index).step config state.port state.shared = some move)
    (healthy : move.worker.healthy = true) :
    ∃ schedule next, RefinesCalls (state.moveWorker index move) blocks next
      (run (ParseCalls.stepOf config) calls schedule) := by
  have own := refines.works index
  cases step_workerStep moved with
  | check phase =>
      exact ⟨[], _, refines.rest (by rw [phase]; rfl) rfl rfl le_rfl (by simp) rfl (by simp [Worker.held, phase])⟩
  | leave phase =>
      exact ⟨[], _, refines.rest (by rw [phase]; rfl) rfl rfl le_rfl (by simp) rfl (by simp [Worker.held, phase])⟩
  | take phase found =>
      obtain ⟨inside, rfl⟩ := List.getElem?_eq_some_iff.mp found
      have free : current index = none := own.resting (by rw [phase]; rfl)
      have unopened := refines.unopened ⟨state.shared.fileIndex, inside⟩ le_rfl
      refine ⟨[], _, refines.stutter (.opening unopened) rfl (Nat.le_succ _) ?_ ?_ ?_ rfl (by simp [Worker.held, phase])⟩
      · intro file past below
        exact congrArg some (Fin.ext (by simp at below ⊢; omega))
      · intro file taken
        obtain rfl := Option.some.inj taken
        exact Or.inr ⟨le_rfl, Nat.lt_succ_self _⟩
      · intro file reading
        exact absurd (free.symm.trans reading) (by simp)
  | exhaust phase past =>
      refine ⟨[], _, refines.rest (by rw [phase]; rfl) rfl rfl (Nat.le_succ _) ?_ rfl (by simp [Worker.held, phase])⟩
      intro file behind
      exact absurd file.2 (by omega)
  | opens phase =>
      rw [phase] at own
      generalize reading : current index = file at own
      cases own with
      | idle resting => simp [WorkerPhase.busy] at resting
      | @opening file unopened =>
          have stepped : (calls.calls file).step config.context (config.files.get file) calls.nextMetadataId =
              (.reading (beginFile (config.files.get file).path fun _ => state.shared.nextMetadataId) 1
                (visitFileLines (config.files.get file).source).lines, state.shared.nextMetadataId + 1) := by
            rw [unopened, refines.counter]
            rfl
          refine ⟨[file], _, @RefinesCalls.advance _ _ _ _ _ _ refines _ _ reading _ _ [] [] stepped ?_ rfl (Or.inl rfl)
            ?_ ?_ rfl ?_ ?_⟩
          · exact .parsing rfl (Function.update_self _ _ _) rfl rfl
          · simp [Worker.openFile]
          · simp [unopened, FileCall.pushed, beginFile]
          · simp [Worker.openFile, Worker.held, phase]
          · simp [unopened, FileCall.entries, beginFile]
  | flush phase full room =>
      refine ⟨[], _, refines.stay own rfl rfl ?_⟩
      simp [Worker.held]
  | push phase listed =>
      rw [phase] at own
      generalize reading : current index = file at own
      cases own with
      | idle resting => simp [WorkerPhase.busy] at resting
      | parsing source read state bytes =>
          refine ⟨[], _, refines.stay ?_ rfl rfl ?_⟩
          · rw [reading]
            exact .parsing source read state bytes
          · simp [Worker.held, phase, listed]
  | @line progress line rest result phase drained lines visited =>
      rw [phase] at own
      generalize reading : current index = file at own
      cases own with
      | idle resting => simp [WorkerPhase.busy] at resting
      | @parsing file _ parsed source read same bytes =>
          rw [lines] at read
          have stepped : (calls.calls file).step config.context (config.files.get file) calls.nextMetadataId =
              (.reading ⟨result.state, parsed.metadata ++ result.emitted, parsed.entries ++ result.entries⟩
                (progress.lineNumber + 1) rest, result.nextMetadataId) := by
            rw [read, FileCall.step, same, refines.counter, ← source, visited]
          refine ⟨[file], _, @RefinesCalls.advance _ _ _ _ _ _ refines _ _ reading _ _ result.emitted result.entries
            stepped ?_ rfl (Or.inl rfl) rfl ?_ rfl ?_ ?_⟩
          · exact .parsing source (Function.update_self _ _ _) rfl bytes
          · rw [read]
            rfl
          · simp [Worker.held, phase, drained]
          · rw [read]
            rfl
  | @endFile progress output phase drained lines complete =>
      have pushed := step_endFile phase drained lines moved
      rw [phase] at own
      generalize reading : current index = file at own
      cases own with
      | idle resting => simp [WorkerPhase.busy] at resting
      | @parsing file _ parsed source read same bytes =>
          obtain ⟨total, known⟩ := Option.isSome_iff_exists.mp complete
          rw [lines] at read
          have stepped : (calls.calls file).step config.context (config.files.get file) calls.nextMetadataId =
              (.returned (parsed.metadata ++ parsed.state.unpushed) parsed.entries (.ok total),
                state.shared.nextMetadataId) := by
            rw [read, FileCall.step, ← source, ← bytes, known, refines.counter]
          refine ⟨[file], _, @RefinesCalls.advance _ _ _ _ _ _ refines _ _ reading none _ progress.state.unpushed []
            stepped (.idle rfl) rfl (Or.inr ⟨rfl, _, _, _, rfl⟩) pushed ?_ rfl ?_ ?_⟩
          · rw [read, same]
            rfl
          · simp [Worker.held, phase, drained]
          · rw [read]
            simp [FileCall.entries]
  | finish phase empty =>
      exact ⟨[], _, refines.rest (by rw [phase]; rfl) rfl rfl le_rfl (by simp) rfl (by simp [Worker.held, phase])⟩
  | lastFlush phase full room =>
      exact ⟨[], _, refines.rest (by rw [phase]; rfl) rfl rfl le_rfl (by simp) rfl (by simp [Worker.held, phase])⟩
  | fail => simp [Worker.fail, Worker.healthy] at healthy
  | refused => simp [Worker.healthy] at healthy

theorem RefinesCalls.publish (refines : RefinesCalls state blocks current calls) {batch entries : List FireholEntry}
    {rest : List (List FireholEntry)} (commits : Bool) (channel : state.channel = batch :: rest)
    (assigned : assignIds state.sequence batch = some entries) :
    RefinesCalls (Pipeline.publish config { state with channel := rest } commits entries) (blocks ++ [entries])
      current calls where
  counter := refines.counter
  works := refines.works
  alone := refines.alone
  claimed := refines.claimed
  unopened := refines.unopened
  returned := refines.returned
  records := refines.records
  entries := by
    have numbered : contents entries = contents batch := by
      rw [contents, assignIds_unnumbered assigned, contents]
    have total := refines.entries
    rw [channel, List.flatten_cons, contents_append, ← add_assoc] at total
    rw [List.flatten_append, contents_append, List.flatten_singleton, numbered]
    exact total

theorem RefinesCalls.step (refines : RefinesCalls state blocks current calls) (conserves : state.Conserves config blocks)
    {next : Pipeline config.workers} {published : Option (List FireholEntry)}
    (stepped : Pipeline.HealthyStep config state next published) :
    ∃ schedule working, RefinesCalls next (blocks ++ published.toList) working
      (run (ParseCalls.stepOf config) calls schedule) := by
  cases stepped with
  | worker moved healthy => simpa using refines.worker moved healthy
  | publish commits receiving channel assigned => exact ⟨[], current, refines.publish commits channel assigned⟩
  | close channel ended =>
      rw [Option.toList_none, List.append_nil]
      exact ⟨[], current, { refines with }⟩
  | dropReceiver stopping =>
      rw [Option.toList_none, List.append_nil]
      have empty := (conserves.closed (by simp [stopping])).1
      refine ⟨[], current, { refines with entries := ?_ }⟩
      simpa [empty] using refines.entries

theorem start_refines : RefinesCalls (Pipeline.start : Pipeline config.workers) [] (fun _ => none) (.start 1) where
  counter := rfl
  works := fun _ => .idle rfl
  alone := by simp
  claimed := by simp
  unopened := fun _ _ => rfl
  returned := by simp [Pipeline.start]
  records := by simp [Pipeline.start, Worker.start, ParseCalls.start, FileCall.pushed]
  entries := by simp [Pipeline.start, Worker.start, Worker.held, ParseCalls.start, FileCall.entries]

end Steps

section Results

variable {config : ImportConfig} {final : Pipeline config.workers} {blocks : List (List FireholEntry)}
  {current : Fin config.workers → Option (Fin config.files.length)} {calls : ParseCalls config.files.length}

structure Completes (final : Pipeline config.workers) (entries : List FireholEntry)
    (calls : ParseCalls config.files.length) : Prop where
  counter : calls.nextMetadataId = final.shared.nextMetadataId
  returned : ∀ file, ∃ metadata entries bytes, calls.calls file = .returned metadata entries (.ok bytes)
  records : (final.metadata : Multiset FireholMetadata) = calls.pushed
  entries : contents entries = ∑ file, contents (calls.calls file).entries

theorem RefinesCalls.completes (refines : RefinesCalls final blocks current calls)
    (conserves : final.Conserves config blocks) (positive : 0 < config.workers)
    (joined : final.scopeResult = some (.ok ())) : Completes final blocks.flatten calls := by
  obtain ⟨joining, healthy, ended⟩ := Pipeline.scopeResult_ok joined
  have finished (index : Fin config.workers) : (final.workers index).phase = .finished :=
    Pipeline.finished_of_ended (healthy.2 index) (ended index)
  have resting (index : Fin config.workers) : current index = none :=
    (refines.works index).resting (by rw [finished]; rfl)
  have past : config.files.length ≤ final.shared.fileIndex :=
    conserves.left ⟨0, positive⟩ (by simp [Worker.leftLoop, finished])
  refine ⟨refines.counter, fun file => ?_, ?_, ?_⟩
  · exact refines.returned file (file.2.trans_le past) fun index => by simp [resting]
  · rw [Pipeline.metadata, coe_flatMap_finRange, refines.records, ParseCalls.pushed, coe_flatMap_finRange]
  · have empty := (conserves.closed (by simp [joining])).1
    have held (index : Fin config.workers) : (final.workers index).held = [] := by
      simp [Worker.held, finished, conserves.emptied index (finished index)]
    rw [← refines.entries]
    simp [empty, held]

theorem import_refines_calls (positive : 0 < config.workers) {actions : List (Action config.workers)}
    (reached : runSome (Pipeline.step config) .start actions = some final)
    (joined : final.scopeResult = some (.ok ())) :
    ∃ entries schedule, (final.dataset config).visitEntries = .ok entries ∧
      Completes final entries (run (ParseCalls.stepOf config) (.start 1) schedule) := by
  obtain ⟨blocks, conserves, schedule, current, refines⟩ := @Pipeline.run_published config
    (fun state blocks => state.Conserves config blocks ∧ ∃ schedule current,
      RefinesCalls state blocks current (run (ParseCalls.stepOf config) (.start 1) schedule))
    ⟨Pipeline.conserves_start config, [], _, start_refines⟩ (by
      rintro state next blocks published ⟨conserves, schedule, current, refines⟩ stepped
      obtain ⟨more, working, kept⟩ := refines.step conserves stepped
      rw [← run_append] at kept
      exact ⟨conserves.step stepped, _, _, kept⟩) _ _ reached (Pipeline.scopeResult_ok joined).2.1
  exact ⟨blocks.flatten, schedule, conserves.visitEntries positive joined, refines.completes conserves positive joined⟩

theorem twoFiles_refines : ∃ final entries schedule, runSome (Pipeline.step twoFiles) .start takingTurns = some final ∧
    Completes final entries (run (ParseCalls.stepOf twoFiles) (.start 1) schedule) := by
  have returned : ((runSome (Pipeline.step twoFiles) .start takingTurns).bind fun final =>
      final.scopeResult.bind Except.toOption).isSome = true := by decide +kernel
  obtain ⟨_, found⟩ := Option.isSome_iff_exists.mp returned
  obtain ⟨final, reached, succeeded⟩ := Option.bind_eq_some_iff.mp found
  obtain ⟨result, joined, ok⟩ := Option.bind_eq_some_iff.mp succeeded
  cases result with
  | error error => simp [Except.toOption] at ok
  | ok =>
      obtain ⟨entries, schedule, _, completes⟩ :=
        import_refines_calls (show 0 < twoFiles.workers by decide) reached joined
      exact ⟨final, entries, schedule, reached, completes⟩

end Results

end ReputationFirewall.Firehol
