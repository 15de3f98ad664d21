import Mathlib.Tactic

set_option autoImplicit false

namespace Retries

variable {E A : Type}

/-- The attempts from `attempt` on, with `left` more of them: the first success, or the last error. -/
def retry (action : Nat → Except E A) : Nat → Nat → Except E A
  | 0, attempt => action attempt
  | left + 1, attempt =>
      match action attempt with
      | .ok value => .ok value
      | .error _ => retry action left (attempt + 1)

/-- Each attempt of the range fails. -/
def Exhausted (action : Nat → Except E A) (left attempt : Nat) : Prop :=
  ∀ index, index ≤ left → ∃ error, action (attempt + index) = .error error

theorem retry_error_iff (action : Nat → Except E A) (left attempt : Nat) :
    (∃ error, retry action left attempt = .error error) ↔ Exhausted action left attempt := by
  induction left generalizing attempt with
  | zero =>
      constructor
      · intro failed index first
        obtain rfl := Nat.le_zero.mp first
        exact failed
      · intro exhausted
        exact exhausted 0 (Nat.le_refl 0)
  | succ left ih =>
      rw [retry]
      cases first : action attempt with
      | ok value =>
          constructor
          · rintro ⟨error, failed⟩
            cases failed
          · intro exhausted
            obtain ⟨error, failed⟩ := exhausted 0 (Nat.zero_le _)
            rw [Nat.add_zero, first] at failed
            cases failed
      | error error =>
          refine (ih (attempt + 1)).trans ⟨fun later index inside => ?_, fun exhausted index inside => ?_⟩
          · cases index with
            | zero => exact ⟨error, first⟩
            | succ index =>
                rw [← Nat.add_assoc, Nat.add_right_comm]
                exact later index (Nat.le_of_succ_le_succ inside)
          · rw [Nat.add_right_comm]
            exact exhausted (index + 1) (Nat.succ_le_succ inside)

end Retries
