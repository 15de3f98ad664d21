import Mathlib.Data.BitVec
import ReputationFirewall.Firehol.BlockList
import ReputationFirewall.Shared.Retries
import ReputationFirewall.Shared.Runs

set_option autoImplicit false

namespace ReputationFirewall.Firehol

open Retries Runs

section Model

inductive GitRepoError where
  | git (reason : List Char)
  | io (reason : List Char)
  | remoteUrlMismatch (expected actual : List Char)
  | missingHead
  | corrupted (path reason : List Char)
  deriving DecidableEq

structure Commit where
  id : List Char
  time : Int
  deriving DecidableEq

structure HeadRef where
  target : Option (List Char)
  commit : Option Commit
  deriving DecidableEq

structure GitWorld (Repository : Type) where
  -- Why the parent directory cannot be created; nothing if it can or the path has none.
  parentFault : Option (List Char)
  gitDirExists : Bool
  opensAtAll : Bool
  openExisting : Except (List Char) Repository
  clone : Except (List Char) Repository
  head : Repository → Option HeadRef
  originUrl : Repository → Except (List Char) (Option (List Char))
  -- A connection attempt, and the references that the remote lists if it does.
  connect : Repository → Nat → Except (List Char) (Option (List (List Char × List Char)))
  fetch : Repository → Nat → Except (List Char) Unit
  findReference : Repository → Except (List Char) Unit
  peelToCommit : Repository → Except (List Char) Commit
  reset : Repository → Commit → Except (List Char) Unit
  now : Int

structure GitMetrics where
  clonesTotal : BitVec 64
  fetchesTotal : BitVec 64
  upToDateTotal : BitVec 64
  errorsTotal : BitVec 64
  lastSyncTimestamp : Int
  lastCommitTimestamp : Int

structure GitState (Repository : Type) where
  repo : Option Repository
  lastCommitTime : Int
  lastCommitOid : Option (List Char)
  metrics : GitMetrics

def fireholDefaultGitUrl : List Char := "https://github.com/firehol/blocklist-ipsets".toList

def fireholDefaultBranch : List Char := "master".toList

def maxRetries : Nat := 3

variable {Repository : Type}

namespace GitState

variable (world : GitWorld Repository) (repoUrl defaultBranch : List Char) (state : GitState Repository)

def countError : GitState Repository :=
  { state with metrics := { state.metrics with errorsTotal := state.metrics.errorsTotal + 1 } }

def existsAt : Bool := world.gitDirExists && world.opensAtAll

def shallowClone : Except GitRepoError SyncStatus × GitState Repository :=
  match world.clone with
  | .error reason => (.error (.git reason), state.countError)
  | .ok cloned =>
      let commit := (world.head cloned).bind HeadRef.commit
      let commitOid := commit.elim [] Commit.id
      let commitTime := commit.elim 0 Commit.time
      (.ok (.cloned commitOid commitTime),
        { repo := some cloned, lastCommitTime := commitTime, lastCommitOid := some commitOid
          metrics := { state.metrics with lastCommitTimestamp := commitTime } })

-- Only a listed branch head that is the local commit makes the fetch unnecessary.
def needsFetch (localOid : Option (List Char)) (listed : Option (List (List Char × List Char))) : Bool :=
  match (listed.getD []).find? fun head => head.1 = "refs/heads/".toList ++ defaultBranch with
  | some head => localOid ≠ some head.2
  | none => true

def resetHard (repo : Repository) : Except (List Char) Commit :=
  match world.findReference repo with
  | .error reason => .error reason
  | .ok _ =>
      match world.peelToCommit repo with
      | .error reason => .error reason
      | .ok commit =>
          match world.reset repo commit with
          | .error reason => .error reason
          | .ok _ => .ok commit

def fetchAndReset : Except GitRepoError SyncStatus × GitState Repository :=
  match state.repo with
  | none => (.error (.corrupted [] "Repository instance uninitialized".toList), state)
  | some repo =>
      match world.originUrl repo with
      | .error reason => (.error (.git reason), state)
      | .ok originUrl =>
          if originUrl.getD [] ≠ repoUrl then
            (.error (.remoteUrlMismatch repoUrl (originUrl.getD [])), state)
          else
            let localOid := (world.head repo).bind HeadRef.target
            let localTime := ((world.head repo).bind HeadRef.commit).elim 0 Commit.time
            match retry (world.connect repo) (maxRetries - 1) 1 with
            | .error reason => (.error (.git reason), state.countError)
            | .ok listed =>
                if !needsFetch defaultBranch localOid listed then
                  let localOidStr := localOid.getD []
                  (.ok (.upToDate localOidStr localTime),
                    { state with
                      lastCommitTime := localTime
                      lastCommitOid := some localOidStr
                      metrics := { state.metrics with upToDateTotal := state.metrics.upToDateTotal + 1 } })
                else
                  match retry (world.fetch repo) (maxRetries - 1) 1 with
                  | .error reason => (.error (.git reason), state.countError)
                  | .ok _ =>
                      let fetched := { state with
                        metrics := { state.metrics with fetchesTotal := state.metrics.fetchesTotal + 1 } }
                      match resetHard world repo with
                      | .error reason => (.error (.git reason), fetched)
                      | .ok commit =>
                          (.ok (.updated commit.id commit.time),
                            { fetched with
                              lastCommitTime := commit.time
                              lastCommitOid := some commit.id
                              metrics := { fetched.metrics with lastCommitTimestamp := commit.time } })

def synchronizeOpen : Except GitRepoError SyncStatus × GitState Repository :=
  let (syncResult, state) := fetchAndReset world repoUrl defaultBranch state
  match syncResult with
  | .error error => (.error error, state.countError)
  | .ok status =>
      (.ok status, { state with metrics := { state.metrics with lastSyncTimestamp := world.now } })

def synchronize : Except GitRepoError SyncStatus × GitState Repository :=
  match world.parentFault with
  | some reason => (.error (.io reason), state)
  | none =>
      if !existsAt world then
        let (result, state) := shallowClone world state
        match result with
        | .error error => (.error error, state)
        | .ok status =>
            (.ok status,
              { state with metrics := { state.metrics with
                clonesTotal := state.metrics.clonesTotal + 1
                lastSyncTimestamp := world.now } })
      else
        match state.repo with
        | some _ => synchronizeOpen world repoUrl defaultBranch state
        | none =>
            match world.openExisting with
            | .error reason => (.error (.git reason), state)
            | .ok repo => synchronizeOpen world repoUrl defaultBranch { state with repo := some repo }

end GitState

end Model

section Counting

variable {Repository : Type} (world : GitWorld Repository) (repoUrl defaultBranch : List Char)

def GivesUp (repo : Repository) : Prop :=
  (∃ originUrl, world.originUrl repo = .ok originUrl ∧ originUrl.getD [] = repoUrl) ∧
    (Exhausted (world.connect repo) (maxRetries - 1) 1 ∨
      (∃ listed, retry (world.connect repo) (maxRetries - 1) 1 = .ok listed ∧
        GitState.needsFetch defaultBranch ((world.head repo).bind HeadRef.target) listed = true) ∧
      Exhausted (world.fetch repo) (maxRetries - 1) 1)

def workingRepo (state : GitState Repository) : Option Repository := state.repo.or world.openExisting.toOption

def CountsOnce (state : GitState Repository) : Prop :=
  world.parentFault = none ∧
    (GitState.existsAt world = true →
      ∃ repo, workingRepo world state = some repo ∧ ¬ GivesUp world repoUrl defaultBranch repo)

def errorOf {E A : Type} (result : Except E A) : BitVec 64 :=
  match result with
  | .error _ => 1
  | .ok _ => 0

def CountedExactly (before : GitState Repository) (outcome : Except GitRepoError SyncStatus × GitState Repository) : Prop :=
  outcome.2.metrics.errorsTotal = before.metrics.errorsTotal + errorOf outcome.1

variable {world repoUrl defaultBranch} {state : GitState Repository} {repo : Repository}

theorem exhausted_of_error {A : Type} {action : Nat → Except (List Char) A} {reason : List Char}
    (failed : retry action (maxRetries - 1) 1 = .error reason) : Exhausted action (maxRetries - 1) 1 :=
  (retry_error_iff action (maxRetries - 1) 1).mp ⟨reason, failed⟩

theorem not_exhausted_of_ok {A : Type} {action : Nat → Except (List Char) A} {value : A}
    (succeeded : retry action (maxRetries - 1) 1 = .ok value) : ¬ Exhausted action (maxRetries - 1) 1 := by
  intro exhausted
  obtain ⟨reason, failed⟩ := (retry_error_iff action (maxRetries - 1) 1).mpr exhausted
  rw [succeeded] at failed
  cases failed

inductive FetchOutcome (world : GitWorld Repository) (repoUrl defaultBranch : List Char) (before : GitState Repository)
    (repo : Repository) : Except GitRepoError SyncStatus × GitState Repository → Prop
  | gaveUp (error : GitRepoError) (exhausted : GivesUp world repoUrl defaultBranch repo) :
      FetchOutcome world repoUrl defaultBranch before repo (.error error, before.countError)
  | ended (result : Except GitRepoError SyncStatus) (after : GitState Repository)
      (unchanged : after.metrics.errorsTotal = before.metrics.errorsTotal)
      (succeeded : ¬ GivesUp world repoUrl defaultBranch repo) :
      FetchOutcome world repoUrl defaultBranch before repo (result, after)

theorem fetchAndReset_cases (held : state.repo = some repo) :
    FetchOutcome world repoUrl defaultBranch state repo (GitState.fetchAndReset world repoUrl defaultBranch state) := by
  rw [GitState.fetchAndReset, held]
  dsimp only
  cases origin : world.originUrl repo with
  | error reason =>
      refine .ended _ _ rfl ?_
      rintro ⟨⟨_, found, _⟩, _⟩
      rw [origin] at found
      cases found
  | ok originUrl =>
      dsimp only
      split_ifs with mismatch
      · refine .ended _ _ rfl ?_
        rintro ⟨⟨_, found, same⟩, _⟩
        rw [origin] at found
        cases found
        exact mismatch same
      · have origins : ∃ url, world.originUrl repo = .ok url ∧ url.getD [] = repoUrl :=
          ⟨originUrl, origin, not_not.mp mismatch⟩
        cases connected : retry (world.connect repo) (maxRetries - 1) 1 with
        | error reason => exact .gaveUp _ ⟨origins, Or.inl (exhausted_of_error connected)⟩
        | ok listed =>
            have reached := not_exhausted_of_ok connected
            dsimp only
            cases needed : GitState.needsFetch defaultBranch ((world.head repo).bind HeadRef.target) listed with
            | false =>
                refine .ended _ _ rfl ?_
                rintro ⟨_, exhausted | ⟨⟨other, again, needs⟩, _⟩⟩
                · exact reached exhausted
                · rw [connected] at again
                  cases again
                  exact Bool.false_ne_true (needed.symm.trans needs)
            | true =>
                cases fetched : retry (world.fetch repo) (maxRetries - 1) 1 with
                | error reason =>
                    exact .gaveUp _ ⟨origins, Or.inr ⟨⟨listed, connected, needed⟩, exhausted_of_error fetched⟩⟩
                | ok _ =>
                    have ends : ¬ GivesUp world repoUrl defaultBranch repo := by
                      rintro ⟨_, exhausted | ⟨_, exhausted⟩⟩
                      · exact reached exhausted
                      · exact not_exhausted_of_ok fetched exhausted
                    dsimp only
                    cases GitState.resetHard world repo with
                    | error reason => exact .ended _ _ rfl ends
                    | ok commit => exact .ended _ _ rfl ends

-- The caller counts every failure; the loop that gave up has counted its own already.
theorem synchronizeOpen_counted (held : state.repo = some repo) :
    CountedExactly state (GitState.synchronizeOpen world repoUrl defaultBranch state) ↔
      ¬ GivesUp world repoUrl defaultBranch repo := by
  have outcome := @fetchAndReset_cases _ world repoUrl defaultBranch state repo held
  rw [GitState.synchronizeOpen]
  generalize GitState.fetchAndReset world repoUrl defaultBranch state = fetched at outcome ⊢
  cases outcome with
  | gaveUp error exhausted =>
      have twice : state.metrics.errorsTotal + 1 + 1 ≠ state.metrics.errorsTotal + 1 := by
        rw [ne_eq, BitVec.add_assoc, BitVec.add_right_inj]
        decide
      exact iff_of_false twice (not_not.mpr exhausted)
  | ended result after unchanged ends =>
      refine iff_of_true ?_ ends
      cases result with
      | error error => exact congrArg (· + 1) unchanged
      | ok status => exact unchanged.trans (BitVec.add_zero _).symm

theorem synchronize_counted_iff :
    CountedExactly state (GitState.synchronize world repoUrl defaultBranch state) ↔
      CountsOnce world repoUrl defaultBranch state := by
  have uncounted (error : GitRepoError) : ¬ CountedExactly state (.error error, state) := by
    intro counted
    have zero : state.metrics.errorsTotal + 0 = state.metrics.errorsTotal + 1 := (BitVec.add_zero _).trans counted
    exact absurd ((BitVec.add_right_inj _).mp zero) (by decide)
  have only (repo : Repository) : (∃ other, some repo = some other ∧ ¬ GivesUp world repoUrl defaultBranch other) ↔
      ¬ GivesUp world repoUrl defaultBranch repo := by simp
  rw [GitState.synchronize, CountsOnce]
  cases world.parentFault with
  | some reason => exact iff_of_false (uncounted _) (fun counts => Option.some_ne_none _ counts.1)
  | none =>
      rw [and_iff_right rfl]
      cases existing : GitState.existsAt world with
      | false =>
          refine iff_of_true ?_ (fun claimed => absurd claimed Bool.false_ne_true)
          simp only [Bool.not_false, if_true, GitState.shallowClone]
          cases world.clone with
          | error reason => exact rfl
          | ok cloned => exact (BitVec.add_zero _).symm
      | true =>
          simp only [Bool.not_true, Bool.false_eq_true, if_false, forall_const, workingRepo]
          cases held : state.repo with
          | some repo =>
              rw [Option.some_or]
              exact (synchronizeOpen_counted held).trans (only repo).symm
          | none =>
              cases world.openExisting with
              | error reason =>
                  refine iff_of_false (uncounted _) ?_
                  rintro ⟨_, missing, _⟩
                  exact Option.some_ne_none _ missing.symm
              | ok repo =>
                  have counted := @synchronizeOpen_counted _ world repoUrl defaultBranch { state with repo := some repo } repo rfl
                  exact counted.trans (only repo).symm

end Counting

section Runs

structure GitCall (Repository : Type) where
  world : GitWorld Repository
  repoUrl : List Char
  defaultBranch : List Char

variable {Repository : Type}

def GitCall.outcome (call : GitCall Repository) (state : GitState Repository) :
    Except GitRepoError SyncStatus × GitState Repository :=
  GitState.synchronize call.world call.repoUrl call.defaultBranch state

def GitState.step (state : GitState Repository) (call : GitCall Repository) : GitState Repository := (call.outcome state).2

theorem git_errors_counted_iff (start : GitState Repository) (calls : List (GitCall Repository)) :
    StepsMeet GitState.step start (fun state call => CountedExactly state (call.outcome state)) calls ↔
      StepsMeet GitState.step start
        (fun state call => CountsOnce call.world call.repoUrl call.defaultBranch state) calls := by
  refine forall_congr' fun done => forall_congr' fun call => forall_congr' fun _ => ?_
  exact synchronize_counted_iff

def GitState.new (Repository : Type) : GitState Repository := ⟨none, 0, none, ⟨0, 0, 0, 0, 0, 0⟩⟩

def offline : GitCall Unit where
  world :=
    { parentFault := none, gitDirExists := true, opensAtAll := true, openExisting := .ok (), clone := .error []
      head := fun _ => none, originUrl := fun _ => .ok (some fireholDefaultGitUrl)
      connect := fun _ _ => .error "unreachable".toList, fetch := fun _ _ => .error []
      findReference := fun _ => .error [], peelToCommit := fun _ => .error [], reset := fun _ _ => .error [], now := 1 }
  repoUrl := fireholDefaultGitUrl
  defaultBranch := fireholDefaultBranch

def readOnly : GitCall Unit := { offline with world := { offline.world with parentFault := some "read-only".toList } }

theorem offline_counted_twice :
    (offline.outcome (.new Unit)).1 = .error (.git "unreachable".toList) ∧
      ((GitState.new Unit).step offline).metrics.errorsTotal = 2 ∧
      (readOnly.outcome (.new Unit)).1 = .error (.io "read-only".toList) ∧
      ((GitState.new Unit).step readOnly).metrics.errorsTotal = 0 := by
  decide

end Runs

end ReputationFirewall.Firehol
