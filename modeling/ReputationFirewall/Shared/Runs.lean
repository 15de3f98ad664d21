import Mathlib.Tactic

set_option autoImplicit false

namespace Runs

universe u v

variable {S : Type u} {A : Type v}

def run (step : S → A → S) (initial : S) (actions : List A) : S :=
  actions.foldl step initial

@[simp] theorem run_nil (step : S → A → S) (initial : S) : run step initial [] = initial := rfl

@[simp] theorem run_concat (step : S → A → S) (initial : S) (actions : List A) (action : A) :
    run step initial (actions ++ [action]) = step (run step initial actions) action := by
  simp [run, List.foldl_append]

theorem run_append (step : S → A → S) (initial : S) (first second : List A) :
    run step initial (first ++ second) = run step (run step initial first) second :=
  List.foldl_append

theorem run_invariant (step : S → A → S) (invariant : S → Prop) (initial : S)
    (start : invariant initial)
    (preserved : ∀ state action, invariant state → invariant (step state action))
    (actions : List A) :
    invariant (run step initial actions) := by
  induction actions using List.reverseRecOn with
  | nil => exact start
  | append_singleton actions action ih =>
      rw [run_concat]
      exact preserved _ action ih

def HoldsThroughout (step : S → A → S) (initial : S) (property : S → Prop)
    (actions : List A) : Prop :=
  ∀ done, done <+: actions → property (run step initial done)

def StepsMeet (step : S → A → S) (initial : S) (guard : S → A → Prop)
    (actions : List A) : Prop :=
  ∀ done action, done ++ [action] <+: actions → guard (run step initial done) action

theorem holdsThroughout_concat (step : S → A → S) (initial : S) (property : S → Prop)
    (actions : List A) (action : A) :
    HoldsThroughout step initial property (actions ++ [action]) ↔
      HoldsThroughout step initial property actions ∧
        property (step (run step initial actions) action) := by
  constructor
  · intro holds
    refine ⟨fun done before => holds done (before.trans (List.prefix_append _ _)), ?_⟩
    simpa using holds _ (List.prefix_refl _)
  · rintro ⟨before, last⟩ done isPrefix
    rcases List.prefix_concat_iff.mp isPrefix with rfl | earlier
    · simpa using last
    · exact before done earlier

theorem stepsMeet_concat (step : S → A → S) (initial : S) (guard : S → A → Prop)
    (actions : List A) (action : A) :
    StepsMeet step initial guard (actions ++ [action]) ↔
      StepsMeet step initial guard actions ∧ guard (run step initial actions) action := by
  constructor
  · intro meets
    refine ⟨fun done next before => meets done next (before.trans (List.prefix_append _ _)), ?_⟩
    exact meets actions action (List.prefix_refl _)
  · rintro ⟨before, last⟩ done next isPrefix
    rcases List.prefix_concat_iff.mp isPrefix with same | earlier
    · obtain ⟨rfl, rfl⟩ := List.append_singleton_inj.mp same
      exact last
    · exact before done next earlier

@[simp] theorem stepsMeet_nil (step : S → A → S) (initial : S) (guard : S → A → Prop) :
    StepsMeet step initial guard [] := by
  intro done action isPrefix
  simp at isPrefix

theorem stepsMeet_cons (step : S → A → S) (initial : S) (guard : S → A → Prop) (action : A) (rest : List A) :
    StepsMeet step initial guard (action :: rest) ↔
      guard initial action ∧ StepsMeet step (step initial action) guard rest := by
  constructor
  · intro meets
    refine ⟨meets [] action (List.prefix_append [action] rest), fun done next inside => ?_⟩
    exact meets (action :: done) next (List.prefix_cons_inj action |>.mpr inside)
  · rintro ⟨first, later⟩ done next inside
    cases done with
    | nil =>
        obtain rfl : next = action := (List.cons_prefix_cons.mp inside).1
        exact first
    | cons start done =>
        obtain ⟨rfl, behind⟩ := List.cons_prefix_cons.mp inside
        exact later done next behind

theorem StepsMeet.run_invariant {step : S → A → S} {initial : S} {guard : S → A → Prop} {actions : List A}
    (meets : StepsMeet step initial guard actions) (invariant : S → Prop) (start : invariant initial)
    (preserved : ∀ state action, invariant state → guard state action → invariant (step state action)) :
    invariant (run step initial actions) := by
  induction actions using List.reverseRecOn with
  | nil => exact start
  | append_singleton actions action ih =>
      rw [stepsMeet_concat] at meets
      rw [run_concat]
      exact preserved _ action (ih meets.1) meets.2

theorem holdsThroughout_iff_stepsMeet (step : S → A → S) (initial : S)
    (invariant property : S → Prop) (guard : S → A → Prop)
    (invariantStart : invariant initial)
    (preserved : ∀ state action, invariant state → invariant (step state action))
    (start : property initial)
    (exact_step : ∀ state action, invariant state → property state →
      (property (step state action) ↔ guard state action))
    (actions : List A) :
    HoldsThroughout step initial property actions ↔ StepsMeet step initial guard actions := by
  induction actions using List.reverseRecOn with
  | nil =>
      constructor
      · intro _
        exact stepsMeet_nil step initial guard
      · intro _ done isPrefix
        obtain rfl := List.prefix_nil.mp isPrefix
        exact start
  | append_singleton actions action ih =>
      rw [holdsThroughout_concat, stepsMeet_concat, ih]
      have reached := run_invariant step invariant initial invariantStart preserved actions
      constructor
      · rintro ⟨meets, last⟩
        have before := ih.mpr meets actions (List.prefix_refl _)
        exact ⟨meets, (exact_step _ action reached before).mp last⟩
      · rintro ⟨meets, last⟩
        have before := ih.mpr meets actions (List.prefix_refl _)
        exact ⟨meets, (exact_step _ action reached before).mpr last⟩

section Counting

open Classical

/-- How many steps of a run are taken from a state in which a guard holds. -/
noncomputable def countSteps (step : S → A → S) (guard : S → A → Prop) : S → List A → Nat
  | _, [] => 0
  | state, action :: rest => (if guard state action then 1 else 0) + countSteps step guard (step state action) rest

theorem countSteps_concat (step : S → A → S) (guard : S → A → Prop) (initial : S) (actions : List A) (action : A) :
    countSteps step guard initial (actions ++ [action]) =
      countSteps step guard initial actions + if guard (run step initial actions) action then 1 else 0 := by
  induction actions generalizing initial with
  | nil => exact Nat.add_comm _ 0
  | cons first rest ih =>
      rw [List.cons_append, countSteps, ih, countSteps, Nat.add_assoc]
      rfl

theorem countSteps_le_length (step : S → A → S) (guard : S → A → Prop) (initial : S) (actions : List A) :
    countSteps step guard initial actions ≤ actions.length := by
  induction actions generalizing initial with
  | nil => exact Nat.le_refl 0
  | cons action rest ih =>
      have later := ih (step initial action)
      rw [countSteps, List.length_cons]
      split_ifs <;> omega

end Counting

section Blocking

/-- A run of a step function that may refuse an action. -/
def runSome (step : S → A → Option S) (initial : S) (actions : List A) : Option S :=
  actions.foldlM step initial

theorem runSome_invariant {step : S → A → Option S} {invariant : S → Prop} {initial final : S}
    (start : invariant initial)
    (preserved : ∀ state action next, invariant state → step state action = some next → invariant next)
    {actions : List A} (reached : runSome step initial actions = some final) : invariant final := by
  induction actions generalizing initial with
  | nil =>
      obtain rfl : initial = final := Option.some.inj reached
      exact start
  | cons action rest ih =>
      rw [runSome, List.foldlM_cons] at reached
      obtain ⟨next, stepped, remaining⟩ := Option.bind_eq_some_iff.mp reached
      exact ih (preserved initial action next start stepped) remaining

/-- However a run continues, it comes to the goal: until then some action of the system itself is possible,
and whatever happens leads on. -/
inductive Inevitable (step : S → A → Option S) (own : A → Prop) (goal : S → Prop) : S → Prop where
  | reached {state : S} (done : goal state) : Inevitable step own goal state
  | later {state : S} (possible : ∃ action, own action ∧ (step state action).isSome = true)
      (each : ∀ action next, step state action = some next → Inevitable step own goal next) :
      Inevitable step own goal state

theorem inevitable_of_measure {step : S → A → Option S} {own : A → Prop} {goal : S → Prop}
    (measure : S → Nat)
    (decreases : ∀ state action next, step state action = some next → measure next < measure state)
    (progress : ∀ state, ¬ goal state → ∃ action, own action ∧ (step state action).isSome = true)
    (state : S) : Inevitable step own goal state := by
  induction bound : measure state using Nat.strongRecOn generalizing state with
  | ind size ih =>
      by_cases done : goal state
      · exact .reached done
      · refine .later (progress state done) fun action next stepped => ?_
        exact ih (measure next) (bound ▸ decreases state action next stepped) next rfl

end Blocking

section Schedules

def firstSteps (schedule : Nat → A) (count : Nat) : List A := (List.range count).map schedule

theorem run_firstSteps_succ (step : S → A → S) (initial : S) (schedule : Nat → A) (count : Nat) :
    run step initial (firstSteps schedule (count + 1)) =
      step (run step initial (firstSteps schedule count)) (schedule count) := by
  rw [firstSteps, List.range_succ, List.map_append]
  exact run_concat step initial _ _

theorem mem_firstSteps {schedule : Nat → A} {count : Nat} {action : A} :
    action ∈ firstSteps schedule count ↔ ∃ index < count, schedule index = action := by
  simp [firstSteps]

theorem ends_of_fair_from {R : Type} [Preorder R] [WellFoundedLT R] {step : S → A → S} {initial : S}
    {schedule : Nat → A} (invariant : S → Prop) (start : invariant initial)
    (preserved : ∀ state action, invariant state → invariant (step state action)) (ended : S → Prop) (rank : S → R)
    (useful : A → Prop) (fair : ∀ count, ∃ later, count ≤ later ∧ useful (schedule later))
    (kept : ∀ state action, invariant state → ended (step state action) ∨ rank (step state action) ≤ rank state)
    (nearer : ∀ state action, invariant state → useful action →
      ended (step state action) ∨ rank (step state action) < rank state) :
    ∃ count, ended (run step initial (firstSteps schedule count)) := by
  by_contra never
  rw [not_exists] at never
  have holds (count : Nat) : invariant (run step initial (firstSteps schedule count)) :=
    run_invariant step invariant initial start preserved _
  have antitone : Antitone fun count => rank (run step initial (firstSteps schedule count)) := by
    apply antitone_nat_of_succ_le
    intro count
    have running := never (count + 1)
    rw [run_firstSteps_succ] at running ⊢
    exact (kept _ _ (holds count)).resolve_left running
  -- A rank below which no other lies would be left by the next useful action.
  obtain ⟨lowest, ⟨count, rfl⟩, least⟩ := WellFounded.has_min (@wellFounded_lt R _ _)
    (Set.range fun count => rank (run step initial (firstSteps schedule count))) ⟨_, 0, rfl⟩
  obtain ⟨later, after, acts⟩ := fair count
  have running := never (later + 1)
  rw [run_firstSteps_succ] at running
  have less := (nearer _ _ (holds later) acts).resolve_left running
  refine least _ ⟨later + 1, rfl⟩ ?_
  dsimp only
  rw [run_firstSteps_succ]
  exact less.trans_le (antitone after)

theorem ends_of_fair {step : S → A → S} {initial : S} {schedule : Nat → A} (ended : S → Prop) (rank : S → Nat)
    (useful : A → Prop) (fair : ∀ count, ∃ later, count ≤ later ∧ useful (schedule later))
    (kept : ∀ state action, ended (step state action) ∨ rank (step state action) ≤ rank state)
    (nearer : ∀ state action, useful action → ended (step state action) ∨ rank (step state action) < rank state) :
    ∃ count, ended (run step initial (firstSteps schedule count)) :=
  ends_of_fair_from (fun _ => True) trivial (fun _ _ _ => trivial) ended rank useful fair
    (fun state action _ => kept state action) (fun state action _ => nearer state action)

end Schedules

end Runs
