import Mathlib.Data.ENat.Basic
import Mathlib.Data.Prod.Lex
import ReputationFirewall.Maps.Operations

set_option autoImplicit false

namespace ReputationFirewall.Maps

open KeyedStore Runs

section Model

inductive Worker where
  | job
  | watcher (rules : ParsedRuleSet) (hashing : Hashing)
  | reporter

def Worker.isJob : Worker → Bool
  | .job => true
  | _ => false

def Worker.isWatcher : Worker → Bool
  | .watcher _ _ => true
  | _ => false

def Worker.isReporter : Worker → Bool
  | .reporter => true
  | _ => false

-- The ticket is ghost.
structure Place where
  ticket : Nat
  worker : Worker

-- `before` is ghost: the maps when the update began.
structure Update where
  call : Call
  ok : Outcomes
  before : MapManager
  rest : List MapOperation

-- The first of the line holds the lock. `journal` and `issued` are ghost.
structure Workers where
  manager : MapManager
  line : List Place
  syncing : Bool
  update : Option Update
  journal : List (Call × Outcomes)
  issued : Nat

inductive WorkerAction where
  | tick
  | change (rules : ParsedRuleSet) (hashing : Hashing)
  | report
  | advance (prepared : Option (ParsedRuleSet × Hashing)) (ok : Outcomes)

namespace Workers

def start (manager : MapManager) : Workers := ⟨manager, [], false, none, [], 0⟩

def enter (state : Workers) (worker : Worker) : Workers :=
  { state with line := state.line ++ [⟨state.issued, worker⟩], issued := state.issued + 1 }

def leave (state : Workers) : Workers := { state with line := state.line.tail, update := none }

def begin (state : Workers) (call : Call) (ok : Outcomes) : Workers :=
  { state with update := some ⟨call, ok, state.manager, call.operations ok state.manager⟩ }

-- The sets of installed keys are private to the manager; they are written with the last operation.
def finish (state : Workers) (update : Update) : Workers :=
  leave { state with
    manager := (update.call.apply update.ok update.before).1
    journal := state.journal ++ [(update.call, update.ok)]
    syncing := state.syncing && decide (update.call.source = .static) }

-- The next step of the worker that holds the lock. A job fetches and parses under the lock; it has no
-- rules if that fails or if nothing has changed.
def advance (state : Workers) (prepared : Option (ParsedRuleSet × Hashing)) (ok : Outcomes) : Workers :=
  match state.update with
  | some update =>
      match update.rest with
      | operation :: rest =>
          { state with manager := state.manager.perform operation, update := some { update with rest } }
      | [] => state.finish update
  | none =>
      match state.line with
      | [] => state
      | place :: _ =>
          match place.worker, prepared with
          | .job, some (rules, hashing) => state.begin ⟨.firehol, rules, hashing⟩ ok
          | .job, none => leave { state with syncing := false }
          | .watcher rules hashing, _ => state.begin ⟨.static, rules, hashing⟩ ok
          | .reporter, _ => state.leave

-- The watcher and the reporter are single tasks: they do not ask again while they wait.
def step (state : Workers) : WorkerAction → Workers
  | .tick => if state.syncing then state else enter { state with syncing := true } .job
  | .change rules hashing =>
      if state.line.any fun place => place.worker.isWatcher then state else state.enter (.watcher rules hashing)
  | .report => if state.line.any fun place => place.worker.isReporter then state else state.enter .reporter
  | .advance prepared ok => state.advance prepared ok

end Workers

end Model

section Order

def inTurn (manager : MapManager) (journal : List (Call × Outcomes)) : MapManager :=
  run (fun manager entry => (entry.1.apply entry.2 manager).1) manager journal

@[simp] theorem inTurn_concat (manager : MapManager) (journal : List (Call × Outcomes)) (call : Call) (ok : Outcomes) :
    inTurn manager (journal ++ [(call, ok)]) = (call.apply ok (inTurn manager journal)).1 := run_concat _ _ _ _

def Place.Makes (place : Place) (call : Call) : Prop :=
  match call.source with
  | .firehol => place.worker.isJob = true
  | .static => place.worker.isWatcher = true

inductive Advances (state : Workers) : Workers → Prop
  | idle (line : state.line = []) (present : state.update = none) : Advances state state
  | leaves {place : Place} {rest : List Place} (line : state.line = place :: rest) (present : state.update = none) :
      Advances state (Workers.leave { state with syncing := state.syncing && !place.worker.isJob })
  | begins {place : Place} {rest : List Place} (line : state.line = place :: rest) (present : state.update = none)
      {call : Call} (makes : place.Makes call) (ok : Outcomes) : Advances state (state.begin call ok)
  | operates {update : Update} (present : state.update = some update) {operation : MapOperation}
      {rest : List MapOperation} (remaining : update.rest = operation :: rest) :
      Advances state { state with
        manager := state.manager.perform operation, update := some { update with rest } }
  | finishes {update : Update} (present : state.update = some update) (remaining : update.rest = []) :
      Advances state (state.finish update)

theorem advances (state : Workers) (prepared : Option (ParsedRuleSet × Hashing)) (ok : Outcomes) :
    Advances state (state.advance prepared ok) := by
  cases present : state.update with
  | some update =>
      cases remaining : update.rest with
      | nil =>
          have step : state.advance prepared ok = state.finish update := by
            simp only [Workers.advance, present, remaining]
          exact step ▸ .finishes present remaining
      | cons operation rest =>
          have step : state.advance prepared ok = { state with
              manager := state.manager.perform operation, update := some { update with rest } } := by
            simp only [Workers.advance, present, remaining]
          exact step ▸ .operates present remaining
  | none =>
      cases line : state.line with
      | nil =>
          have step : state.advance prepared ok = state := by simp only [Workers.advance, present, line]
          rw [step]
          exact .idle line present
      | cons place rest =>
          have leaves := Advances.leaves line present
          cases worker : place.worker with
          | job =>
              rw [worker, Worker.isJob, Bool.not_true, Bool.and_false] at leaves
              cases prepared with
              | none =>
                  have step : state.advance none ok = Workers.leave { state with syncing := false } := by
                    simp only [Workers.advance, present, line, worker]
                  exact step ▸ leaves
              | some result =>
                  have step : state.advance (some result) ok = state.begin ⟨.firehol, result.1, result.2⟩ ok := by
                    simp only [Workers.advance, present, line, worker]
                  rw [step]
                  exact .begins line present (by simp [Place.Makes, worker, Worker.isJob]) ok
          | watcher rules hashing =>
              have step : state.advance prepared ok = state.begin ⟨.static, rules, hashing⟩ ok := by
                simp only [Workers.advance, present, line, worker]
              rw [step]
              exact .begins line present (by simp [Place.Makes, worker, Worker.isWatcher]) ok
          | reporter =>
              have step : state.advance prepared ok = state.leave := by
                simp only [Workers.advance, present, line, worker]
              have other : Worker.reporter.isJob = false := rfl
              rw [worker, other, Bool.not_false, Bool.and_true] at leaves
              exact step ▸ leaves

structure Update.Underway (update : Update) (manager : MapManager) : Prop where
  performed : ∃ done, done ++ update.rest = update.call.operations update.ok update.before ∧
    manager = run MapManager.perform update.before done

structure Orderly (initial : MapManager) (state : Workers) : Prop where
  jobs : (state.line.countP fun place => place.worker.isJob) = if state.syncing then 1 else 0
  watchers : (state.line.countP fun place => place.worker.isWatcher) ≤ 1
  reporters : (state.line.countP fun place => place.worker.isReporter) ≤ 1
  tickets : (state.line.map Place.ticket).Pairwise (· < ·)
  issued : ∀ place ∈ state.line, place.ticket < state.issued
  settled : state.update = none → state.manager = inTurn initial state.journal
  underway : ∀ update ∈ state.update, update.before = inTurn initial state.journal ∧ update.Underway state.manager ∧
    ∃ place rest, state.line = place :: rest ∧ place.Makes update.call

theorem orderly_start (initial : MapManager) : Orderly initial (.start initial) := by
  constructor <;> simp [Workers.start, inTurn]

variable {initial : MapManager} {state : Workers} (orderly : Orderly initial state)

include orderly

theorem Orderly.enter {worker : Worker} {syncing : Bool}
    (jobs : (state.line.countP fun place => place.worker.isJob) + (if worker.isJob then 1 else 0) =
      if syncing then 1 else 0)
    (watchers : (state.line.countP fun place => place.worker.isWatcher) + (if worker.isWatcher then 1 else 0) ≤ 1)
    (reporters : (state.line.countP fun place => place.worker.isReporter) + (if worker.isReporter then 1 else 0) ≤ 1) :
    Orderly initial (Workers.enter { state with syncing } worker) := by
  refine ⟨?_, ?_, ?_, ?_, ?_, orderly.settled, ?_⟩
  · refine Eq.trans ?_ jobs
    simp [Workers.enter, List.countP_append, List.countP_cons]
  · simpa [Workers.enter, List.countP_append, List.countP_cons] using watchers
  · simpa [Workers.enter, List.countP_append, List.countP_cons] using reporters
  · simp only [Workers.enter, List.map_append, List.pairwise_append]
    refine ⟨orderly.tickets, by simp, ?_⟩
    intro ticket member other last
    obtain ⟨place, listed, rfl⟩ := List.mem_map.mp member
    obtain rfl : other = state.issued := by simpa using last
    exact orderly.issued place listed
  · intro place member
    simp only [Workers.enter, List.mem_append, List.mem_singleton] at member ⊢
    rcases member with listed | rfl
    · exact Nat.lt_succ_of_lt (orderly.issued place listed)
    · exact Nat.lt_succ_self _
  · intro update present
    obtain ⟨before, performed, place, rest, line, makes⟩ := orderly.underway update present
    refine ⟨before, performed, place, rest ++ [⟨state.issued, worker⟩], ?_, makes⟩
    simp [Workers.enter, line]

theorem Orderly.leave {place : Place} {rest : List Place} (line : state.line = place :: rest)
    {manager : MapManager} {journal : List (Call × Outcomes)} (settled : manager = inTurn initial journal) {syncing : Bool}
    (released : syncing = (state.syncing && !place.worker.isJob)) :
    Orderly initial (Workers.leave { state with manager, journal, syncing }) := by
  have jobs := orderly.jobs
  have watchers := orderly.watchers
  have reporters := orderly.reporters
  have tickets := orderly.tickets
  rw [line] at jobs watchers reporters tickets
  rw [List.countP_cons] at jobs watchers reporters
  refine ⟨?_, ?_, ?_, ?_, ?_, fun _ => settled, by simp [Workers.leave]⟩
  · simp only [Workers.leave, line, List.tail_cons, released]
    cases busy : state.syncing <;> cases isJob : place.worker.isJob <;> simp [busy, isJob] at jobs ⊢ <;> exact jobs
  · simp only [Workers.leave, line, List.tail_cons]
    omega
  · simp only [Workers.leave, line, List.tail_cons]
    omega
  · simp only [Workers.leave, line, List.tail_cons]
    exact (List.pairwise_cons.mp tickets).2
  · intro other member
    simp only [Workers.leave, line, List.tail_cons] at member ⊢
    exact orderly.issued other (line ▸ List.mem_cons_of_mem _ member)

theorem Orderly.begin {place : Place} {rest : List Place} (line : state.line = place :: rest)
    (idle : state.update = none) {call : Call} (makes : place.Makes call) (ok : Outcomes) :
    Orderly initial (state.begin call ok) := by
  refine ⟨orderly.jobs, orderly.watchers, orderly.reporters, orderly.tickets, orderly.issued,
    by simp [Workers.begin], ?_⟩
  intro update present
  obtain rfl := Option.some.inj present
  exact ⟨orderly.settled idle, ⟨[], rfl, rfl⟩, place, rest, line, makes⟩

theorem Orderly.operate {update : Update} (present : state.update = some update) {operation : MapOperation}
    {rest : List MapOperation} (remaining : update.rest = operation :: rest) :
    Orderly initial { state with
      manager := state.manager.perform operation, update := some { update with rest } } := by
  obtain ⟨before, ⟨done, whole, reached⟩, holder⟩ := orderly.underway update present
  refine ⟨orderly.jobs, orderly.watchers, orderly.reporters, orderly.tickets, orderly.issued, by simp, ?_⟩
  intro other same
  obtain rfl := Option.some.inj same
  refine ⟨before, ⟨done ++ [operation], ?_, ?_⟩, holder⟩
  · rw [← whole, remaining]
    simp
  · rw [run_concat, ← reached]

theorem Orderly.finish {update : Update} (present : state.update = some update) :
    Orderly initial (state.finish update) := by
  obtain ⟨before, _, place, rest, line, makes⟩ := orderly.underway update present
  refine orderly.leave line ?_ ?_
  · rw [inTurn_concat, before]
  · unfold Place.Makes at makes
    cases source : update.call.source <;> rw [source] at makes
    · cases worker : place.worker <;> simp [worker, Worker.isWatcher, Worker.isJob] at makes ⊢
    · simp [makes]

theorem Orderly.advance (prepared : Option (ParsedRuleSet × Hashing)) (ok : Outcomes) :
    Orderly initial (state.advance prepared ok) := by
  have step := advances state prepared ok
  generalize state.advance prepared ok = next at step
  cases step with
  | idle line present => exact orderly
  | leaves line present => exact orderly.leave line (orderly.settled present) rfl
  | begins line present makes ok => exact orderly.begin line present makes ok
  | operates present remaining => exact orderly.operate present remaining
  | finishes present remaining => exact orderly.finish present

theorem Orderly.step (action : WorkerAction) : Orderly initial (state.step action) := by
  have jobs := orderly.jobs
  have watchers := orderly.watchers
  have reporters := orderly.reporters
  cases action with
  | advance prepared ok => exact orderly.advance prepared ok
  | tick =>
      dsimp only [Workers.step]
      split_ifs with busy
      · exact orderly
      · exact orderly.enter (by simpa [Worker.isJob, busy] using jobs) watchers reporters
  | change rules hashing =>
      dsimp only [Workers.step]
      split_ifs with waiting
      · exact orderly
      · have none : (state.line.countP fun place => place.worker.isWatcher) = 0 := by
          simpa [List.countP_eq_zero] using waiting
        exact @Orderly.enter _ _ orderly (.watcher rules hashing) state.syncing jobs (by rw [none]; exact Nat.le_refl 1)
          reporters
  | report =>
      dsimp only [Workers.step]
      split_ifs with waiting
      · exact orderly
      · have none : (state.line.countP fun place => place.worker.isReporter) = 0 := by
          simpa [List.countP_eq_zero] using waiting
        exact @Orderly.enter _ _ orderly .reporter state.syncing jobs watchers (by rw [none]; exact Nat.le_refl 1)

omit orderly

theorem orderly_run (initial : MapManager) (actions : List WorkerAction) :
    Orderly initial (run Workers.step (.start initial) actions) :=
  run_invariant _ _ _ (orderly_start initial) (fun _ action orderly => orderly.step action) actions

theorem line_kinds (line : List Place) :
    line.length = (line.countP fun place => place.worker.isJob) +
      (line.countP fun place => place.worker.isWatcher) + line.countP fun place => place.worker.isReporter := by
  induction line with
  | nil => rfl
  | cons place rest ih =>
      simp only [List.countP_cons, List.length_cons, ih]
      cases place.worker <;> simp [Worker.isJob, Worker.isWatcher, Worker.isReporter] <;> omega

theorem map_updates_serializable (initial : MapManager) (actions : List WorkerAction) :
    let state := run Workers.step (.start initial) actions
    let finished := inTurn initial state.journal
    state.line.length ≤ 3 ∧
      match state.update with
      | none => state.manager = finished
      | some update =>
          (∃ done, done ++ update.rest = update.call.operations update.ok finished ∧
            state.manager = run MapManager.perform finished done) ∧
          (update.rest = [] → ∀ kind, (state.manager.slot kind).map =
            ((update.call.apply update.ok finished).1.slot kind).map) := by
  intro state finished
  have orderly : Orderly initial state := orderly_run initial actions
  constructor
  · have jobs := orderly.jobs
    have watchers := orderly.watchers
    have reporters := orderly.reporters
    rw [line_kinds]
    split_ifs at jobs <;> omega
  · cases present : state.update with
    | none => exact orderly.settled present
    | some update =>
        obtain ⟨before, ⟨done, whole, reached⟩, _⟩ := orderly.underway update present
        rw [before] at whole reached
        refine ⟨⟨done, whole, reached⟩, fun complete kind => ?_⟩
        rw [complete, List.append_nil] at whole
        rw [reached, whole, run_operations_map]

end Order

section Waiting

def rank (ticket : Nat) (state : Workers) : Nat ×ₗ ℕ∞ :=
  toLex (state.line.countP fun place => place.ticket ≤ ticket,
    (state.update.map fun update => (update.rest.length : ℕ∞)).getD ⊤)

def Served (ticket : Nat) (state : Workers) : Prop := ∀ place ∈ state.line, place.ticket ≠ ticket

variable {initial : MapManager} {state : Workers} (orderly : Orderly initial state) {ticket : Nat}

theorem rank_enter (worker : Worker) (syncing : Bool) (issued : ticket < state.issued) :
    rank ticket (Workers.enter { state with syncing } worker) = rank ticket state := by
  have later : ¬ state.issued ≤ ticket := by omega
  simp [rank, Workers.enter, List.countP_append, later]

include orderly

theorem rank_leave {place : Place} {rest : List Place} (line : state.line = place :: rest) {next : Workers}
    (left : next.line = rest) : Served ticket next ∨ rank ticket next < rank ticket state := by
  by_cases waits : ∃ other ∈ rest, other.ticket = ticket
  · right
    obtain ⟨other, member, rfl⟩ := waits
    have tickets := orderly.tickets
    rw [line, List.map_cons, List.pairwise_cons] at tickets
    have ahead := tickets.1 other.ticket (List.mem_map_of_mem member)
    apply Prod.Lex.toLex_lt_toLex.mpr
    left
    simp [left, line, ahead.le]
  · left
    intro other member same
    exact waits ⟨other, left ▸ member, same⟩

theorem rank_advance (prepared : Option (ParsedRuleSet × Hashing)) (ok : Outcomes) :
    Served ticket (state.advance prepared ok) ∨ rank ticket (state.advance prepared ok) < rank ticket state := by
  have step := advances state prepared ok
  generalize state.advance prepared ok = next at step
  cases step with
  | idle line present =>
      left
      simp [Served, line]
  | leaves line present => exact rank_leave orderly line (by simp [Workers.leave, line])
  | finishes present remaining =>
      obtain ⟨_, _, place, rest, line, _⟩ := orderly.underway _ present
      exact rank_leave orderly line (by simp [Workers.finish, Workers.leave, line])
  | begins line present makes ok =>
      right
      apply Prod.Lex.toLex_lt_toLex.mpr
      right
      simp [Workers.begin, present]
  | operates present remaining =>
      right
      apply Prod.Lex.toLex_lt_toLex.mpr
      right
      simp only [present, Option.map_some, Option.getD_some, remaining, List.length_cons, true_and]
      exact_mod_cast Nat.lt_succ_self _

theorem rank_step (issued : ticket < state.issued) (action : WorkerAction) :
    Served ticket (state.step action) ∨ rank ticket (state.step action) ≤ rank ticket state := by
  cases action with
  | advance prepared ok => exact (rank_advance orderly prepared ok).imp_right le_of_lt
  | tick =>
      right
      dsimp only [Workers.step]
      split_ifs
      · exact le_rfl
      · exact (rank_enter .job true issued).le
  | change rules hashing =>
      right
      dsimp only [Workers.step]
      split_ifs
      · exact le_rfl
      · exact (rank_enter (.watcher rules hashing) state.syncing issued).le
  | report =>
      right
      dsimp only [Workers.step]
      split_ifs
      · exact le_rfl
      · exact (rank_enter .reporter state.syncing issued).le

omit orderly in
theorem issued_step (issued : ticket < state.issued) (action : WorkerAction) :
    ticket < (state.step action).issued := by
  cases action with
  | advance prepared ok =>
      have step := advances state prepared ok
      change ticket < (state.advance prepared ok).issued
      generalize state.advance prepared ok = next at step
      cases step <;> exact issued
  | tick | change _ _ | report =>
      dsimp only [Workers.step]
      split_ifs
      · exact issued
      · exact Nat.lt_succ_of_lt issued

omit orderly in
theorem map_lock_never_starves (initial : MapManager) (actions : List WorkerAction) (schedule : Nat → WorkerAction)
    (fair : ∀ count, ∃ later, count ≤ later ∧ ∃ prepared ok, schedule later = .advance prepared ok) :
    let state := run Workers.step (.start initial) actions
    ∀ place ∈ state.line, ∃ count, Served place.ticket (run Workers.step state (firstSteps schedule count)) := by
  intro state place member
  have orderly : Orderly initial state := orderly_run initial actions
  refine ends_of_fair_from (fun state => Orderly initial state ∧ place.ticket < state.issued)
    ⟨orderly, orderly.issued place member⟩ ?_ (Served place.ticket) (rank place.ticket)
    (fun action => ∃ prepared ok, action = .advance prepared ok) fair ?_ ?_
  · rintro state action ⟨orderly, issued⟩
    exact ⟨orderly.step action, issued_step issued action⟩
  · rintro state action ⟨orderly, issued⟩
    exact rank_step orderly issued action
  · rintro state action ⟨orderly, issued⟩ ⟨prepared, ok, rfl⟩
    exact rank_advance orderly prepared ok

omit orderly in
theorem map_lock_serves_reporter :
    ∃ count, Served 1 (run Workers.step (run Workers.step (.start .new) [.tick, .report])
      (firstSteps (fun _ => .advance none allSucceed) count)) :=
  map_lock_never_starves .new [.tick, .report] (fun _ => .advance none allSucceed)
    (fun count => ⟨count, le_rfl, none, allSucceed, rfl⟩)
    ⟨1, .reporter⟩ (by simp [run, Workers.step, Workers.start, Workers.enter, Worker.isReporter])

end Waiting

end ReputationFirewall.Maps
