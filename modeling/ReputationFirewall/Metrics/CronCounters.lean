import ReputationFirewall.Firehol.Scheduler

set_option autoImplicit false

namespace ReputationFirewall.Metrics

open Firehol NetAddr Runs

section Model

-- Timestamps and durations are left out.
structure CronMetrics where
  executions : BitVec 64
  success : BitVec 64
  noChange : BitVec 64
  failures : BitVec 64
  skipped : BitVec 64
  lastError : Int

def CronMetrics.zero : CronMetrics := ⟨0, 0, 0, 0, 0, 0⟩

-- What a call adds when it returns. A reload that was not needed is counted for a startup too.
def CronMetrics.record (metrics : CronMetrics) (isStartup : Bool) :
    Except FirewallError FireholSyncOutcome → CronMetrics
  | .ok .skippedAlreadyRunning => { metrics with skipped := metrics.skipped + 1 }
  | .ok (.upToDate _) => { metrics with noChange := metrics.noChange + 1, lastError := 0 }
  | .ok (.updated _) =>
      { metrics with success := if isStartup then metrics.success else metrics.success + 1, lastError := 0 }
  | .error _ =>
      { metrics with failures := if isStartup then metrics.failures else metrics.failures + 1, lastError := 1 }

-- `holder` tells whether the call that holds the lock is a startup; `scheduled` is ghost.
structure CronState where
  sync : SyncState
  metrics : CronMetrics
  holder : Option Bool
  waiting : Nat
  scheduled : Nat

inductive CronAction (Checkout Execution : Type) where
  | invoke (isStartup : Bool)
  | finish (env : SyncEnvironment Checkout Execution)

variable {Checkout Execution : Type} (parse : Checkout → Execution → Except (List Char) ImportedDataSet)

namespace CronState

def start (sync : SyncState) : CronState := ⟨sync, .zero, none, 0, 0⟩

def acquire (state : CronState) (isStartup : Bool) : CronState :=
  { state with
    holder := some isStartup
    metrics := if isStartup then state.metrics
      else { state.metrics with executions := state.metrics.executions + 1 } }

-- A lock that is released goes to the startup that waits for it.
def release (state : CronState) : CronState :=
  match state.waiting with
  | 0 => { state with holder := none }
  | rest + 1 => { state with waiting := rest }.acquire true

def invoke (state : CronState) (isStartup : Bool) : CronState :=
  let invoked := if isStartup then state else { state with scheduled := state.scheduled + 1 }
  match state.holder with
  | none => invoked.acquire isStartup
  | some _ =>
      if isStartup then { invoked with waiting := invoked.waiting + 1 }
      else { invoked with metrics := invoked.metrics.record false (.ok .skippedAlreadyRunning) }

def finish (state : CronState) (env : SyncEnvironment Checkout Execution) : CronState :=
  match state.holder with
  | none => state
  | some isStartup =>
      let (outcome, sync) := executeFireholSync parse env isStartup false state.sync
      { state with sync, metrics := state.metrics.record isStartup outcome }.release

def step (state : CronState) : CronAction Checkout Execution → CronState
  | .invoke isStartup => state.invoke isStartup
  | .finish env => state.finish parse env

def Idle (state : CronState) : Prop := state.holder = none ∧ state.waiting = 0

@[mk_iff]
structure Balanced (state : CronState) : Prop where
  returned : state.metrics.executions = state.metrics.success + state.metrics.noChange + state.metrics.failures
  invoked : BitVec.ofNat 64 state.scheduled = state.metrics.executions + state.metrics.skipped

def LoadsInfrastructure (state : CronState) : CronAction Checkout Execution → Prop
  | .invoke _ => False
  | .finish env => state.holder = some true ∧
      ∃ status dataset entries, ProvidesInfrastructure parse env true state.sync status dataset entries

end CronState

end Model

section Startups

variable {Checkout Execution : Type} {parse : Checkout → Execution → Except (List Char) ImportedDataSet}
  {env : SyncEnvironment Checkout Execution}

theorem startup_readsUnchanged_iff (sync : SyncState) :
    ReadsUnchanged (synchronizeAndLoadInternal parse env true sync) ↔
      ∃ status dataset entries, ProvidesInfrastructure parse env true sync status dataset entries := by
  constructor
  · intro reads
    have case := sync_cases parse env true sync
    generalize synchronizeAndLoadInternal parse env true sync = result at case reads
    obtain ⟨report, same, empty, active⟩ := reads
    cases case with
    | unreachable => exact absurd same nofun
    | failed => exact absurd same nofun
    | skipped status _ unchanged => cases status <;> simp [SyncState.skips] at unchanged
    | loaded status dataset rules draft prepares =>
        obtain ⟨entries, visited, _, counts⟩ := tryPrepareRules_ok prepares.prepared
        cases same
        rw [loadIntoMaps_totalRules, counts, prepareEntries_total_eq_zero_iff] at empty
        rw [publish_hasActiveRules, Bool.not_eq_true'] at active
        exact ⟨status, dataset, entries, prepares.synchronized, prepares.changed, prepares.parsed,
          prepares.nonempty, active, visited, prepares.cleared, empty⟩
  · intro loads
    obtain ⟨status, dataset, entries, provides⟩ := loads
    rw [sync_loaded provides.prepares]
    refine ⟨_, rfl, ?_, ?_⟩
    · rw [loadIntoMaps_totalRules, prepareEntries_total_eq_zero_iff]
      exact provides.infrastructure
    · rw [publish_hasActiveRules, provides.registered]
      rfl

theorem startup_upToDate_iff (sync : SyncState) :
    (∃ commit, (executeFireholSync parse env true false sync).1 = .ok (.upToDate commit)) ↔
      ∃ status dataset entries, ProvidesInfrastructure parse env true sync status dataset entries := by
  rw [← startup_readsUnchanged_iff]
  simp [executeFireholSync_free parse (Or.inl rfl), outcomeOf_ok_iff]

theorem executeFireholSync_not_skipped (isStartup : Bool) (sync : SyncState) :
    (executeFireholSync parse env isStartup false sync).1 ≠ .ok .skippedAlreadyRunning := by
  simp [executeFireholSync_free parse (Or.inr rfl), outcomeOf_ok_iff]

end Startups

section Balance

variable {Checkout Execution : Type} {parse : Checkout → Execution → Except (List Char) ImportedDataSet}
  {state : CronState} {quiet : Nat}

structure CronState.Counted (state : CronState) (quiet : Nat) : Prop where
  returned : state.metrics.executions + BitVec.ofNat 64 quiet =
    state.metrics.success + state.metrics.noChange + state.metrics.failures +
      if state.holder = some false then 1#64 else 0#64
  invoked : BitVec.ofNat 64 state.scheduled = state.metrics.executions + state.metrics.skipped
  free : state.holder = none → state.waiting = 0

theorem CronState.Counted.balanced_iff (counted : state.Counted quiet) (idle : state.Idle) :
    state.Balanced ↔ 2 ^ 64 ∣ quiet := by
  have returned := counted.returned
  rw [idle.1, if_neg nofun, BitVec.add_zero] at returned
  have cancels : BitVec.ofNat 64 quiet = 0#64 ↔ 2 ^ 64 ∣ quiet := by
    rw [← BitVec.toNat_inj, BitVec.toNat_ofNat, Nat.dvd_iff_mod_eq_zero]
    rfl
  rw [CronState.balanced_iff, and_iff_left counted.invoked, ← returned, ← cancels]
  constructor
  · intro same
    grind
  · intro none
    rw [none, BitVec.add_zero]

theorem CronState.Counted.invoke (counted : state.Counted quiet) (isStartup : Bool) :
    (state.invoke isStartup).Counted quiet := by
  obtain ⟨sync, metrics, holder, waiting, scheduled⟩ := state
  obtain ⟨returned, invoked, free⟩ := counted
  cases holder with
  | none =>
      cases isStartup with
      | true => exact ⟨by simpa [CronState.invoke, CronState.acquire] using returned, invoked, nofun⟩
      | false =>
          constructor
          · simp [CronState.invoke, CronState.acquire] at returned ⊢
            grind
          · simp [CronState.invoke, CronState.acquire, BitVec.ofNat_add] at invoked ⊢
            grind
          · exact nofun
  | some other =>
      cases isStartup with
      | true => exact ⟨returned, invoked, nofun⟩
      | false =>
          refine ⟨returned, ?_, nofun⟩
          simp [CronState.invoke, CronMetrics.record, BitVec.ofNat_add] at invoked ⊢
          grind

theorem CronState.release_counted
    (returned : state.metrics.executions + BitVec.ofNat 64 quiet =
      state.metrics.success + state.metrics.noChange + state.metrics.failures)
    (invoked : BitVec.ofNat 64 state.scheduled = state.metrics.executions + state.metrics.skipped) :
    state.release.Counted quiet := by
  obtain ⟨sync, metrics, holder, waiting, scheduled⟩ := state
  cases waiting with
  | zero => exact ⟨by simpa [CronState.release] using returned, invoked, fun _ => rfl⟩
  | succ rest => exact ⟨by simpa [CronState.release, CronState.acquire] using returned, invoked, nofun⟩

theorem CronMetrics.record_kept (metrics : CronMetrics) (isStartup : Bool)
    {outcome : Except FirewallError FireholSyncOutcome} (ran : outcome ≠ .ok .skippedAlreadyRunning) :
    (metrics.record isStartup outcome).executions = metrics.executions ∧
      (metrics.record isStartup outcome).skipped = metrics.skipped := by
  cases outcome with
  | error => exact ⟨rfl, rfl⟩
  | ok outcome =>
      cases outcome with
      | updated | upToDate => exact ⟨rfl, rfl⟩
      | skippedAlreadyRunning => exact absurd rfl ran

open Classical in
theorem CronMetrics.record_returned (metrics : CronMetrics) (isStartup : Bool)
    {outcome : Except FirewallError FireholSyncOutcome} (ran : outcome ≠ .ok .skippedAlreadyRunning) :
    (metrics.record isStartup outcome).success + (metrics.record isStartup outcome).noChange +
        (metrics.record isStartup outcome).failures =
      metrics.success + metrics.noChange + metrics.failures +
        if isStartup = true → ∃ commit, outcome = .ok (.upToDate commit) then 1#64 else 0#64 := by
  cases outcome with
  | error => cases isStartup <;> simp [CronMetrics.record, BitVec.add_assoc]
  | ok outcome =>
      cases outcome with
      | updated =>
          cases isStartup with
          | true => simp [CronMetrics.record]
          | false =>
              simp [CronMetrics.record]
              grind
      | upToDate =>
          simp [CronMetrics.record]
          grind
      | skippedAlreadyRunning => exact absurd rfl ran

open Classical in
theorem CronState.Counted.finish (counted : state.Counted quiet) (env : SyncEnvironment Checkout Execution) :
    (state.finish parse env).Counted
      (quiet + if state.LoadsInfrastructure parse (.finish env) then 1 else 0) := by
  obtain ⟨sync, metrics, holder, waiting, scheduled⟩ := state
  obtain ⟨returned, invoked, free⟩ := counted
  cases holder with
  | none =>
      rw [if_neg fun loads => absurd loads.1 nofun]
      exact ⟨returned, invoked, free⟩
  | some isStartup =>
      have ran := @executeFireholSync_not_skipped _ _ parse env isStartup sync
      have kept := metrics.record_kept isStartup ran
      have added := metrics.record_returned isStartup ran
      change (CronState.release ⟨(executeFireholSync parse env isStartup false sync).2,
        metrics.record isStartup (executeFireholSync parse env isStartup false sync).1, _, _, _⟩).Counted _
      apply CronState.release_counted
      · dsimp only
        rw [added, kept.1]
        cases isStartup with
        | true =>
            rw [if_neg (by simp), BitVec.add_zero] at returned
            simp only [CronState.LoadsInfrastructure, ← startup_upToDate_iff, true_and, forall_const]
            split_ifs with quietly
            · rw [BitVec.ofNat_add, ← BitVec.add_assoc, returned]
            · rw [Nat.add_zero, returned, BitVec.add_zero]
        | false => simpa [CronState.LoadsInfrastructure] using returned
      · dsimp only
        rw [kept.1, kept.2]
        exact invoked

open Classical in
theorem CronState.Counted.step (counted : state.Counted quiet) (action : CronAction Checkout Execution) :
    (state.step parse action).Counted (quiet + if state.LoadsInfrastructure parse action then 1 else 0) := by
  cases action with
  | invoke isStartup =>
      rw [if_neg fun loads : state.LoadsInfrastructure parse (.invoke isStartup) => loads.elim]
      exact counted.invoke isStartup
  | finish env => exact counted.finish env

theorem CronState.counted_run (sync : SyncState) (actions : List (CronAction Checkout Execution)) :
    (run (CronState.step parse) (.start sync) actions).Counted
      (countSteps (CronState.step parse) (CronState.LoadsInfrastructure parse) (.start sync) actions) := by
  induction actions using List.reverseRecOn with
  | nil => exact ⟨rfl, rfl, fun _ => rfl⟩
  | append_singleton actions action ih =>
      rw [run_concat, countSteps_concat]
      exact ih.step action

theorem cron_counters_balance_iff (parse : Checkout → Execution → Except (List Char) ImportedDataSet)
    (sync : SyncState) (actions : List (CronAction Checkout Execution)) :
    HoldsThroughout (CronState.step parse) (.start sync) (fun state => state.Idle → state.Balanced) actions ↔
      ∀ done, done <+: actions → (run (CronState.step parse) (.start sync) done).Idle →
        2 ^ 64 ∣ countSteps (CronState.step parse) (CronState.LoadsInfrastructure parse) (.start sync) done := by
  refine forall_congr' fun done => forall_congr' fun _ => forall_congr' fun idle => ?_
  exact (CronState.counted_run sync done).balanced_iff idle

theorem startup_counted_unchanged :
    let env := hostEnvironment (.cloned "e69de29".toList 1) (ipv4Octets 127 0 0 1)
    let final := run (CronState.step parseHost) (.start ⟨.new, some .new, ⟨0, 0, 0⟩⟩) [.invoke true, .finish env]
    final.Idle ∧ final.metrics.executions = 0 ∧ final.metrics.noChange = 1 ∧ ¬ final.Balanced := by
  intro env final
  have provides : ProvidesInfrastructure parseHost env true ⟨.new, some .new, ⟨0, 0, 0⟩⟩ (.cloned "e69de29".toList 1)
      (hostDataset (ipv4Octets 127 0 0 1)) [⟨.exactV4 (ipv4Octets 127 0 0 1), 1, 1, 1⟩] :=
    ⟨rfl, rfl, rfl, rfl, hostDataset_registered _, rfl, rfl, by decide⟩
  obtain ⟨commit, unchanged⟩ := (startup_upToDate_iff _).mpr ⟨_, _, _, provides⟩
  have counted : final.metrics = CronMetrics.zero.record true (.ok (.upToDate commit)) := by
    rw [← unchanged]
    rfl
  rw [CronState.balanced_iff, counted]
  exact ⟨⟨rfl, rfl⟩, rfl, rfl, fun balanced => absurd balanced.1 (show (0 : BitVec 64) ≠ 1 by decide)⟩

end Balance

end ReputationFirewall.Metrics
