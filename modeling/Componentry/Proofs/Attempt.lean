import Componentry.Attempt

/-!
# Laws of attempts

Attempts form a lawful monad: notices are gathered in the order of the steps,
and the first structural error ends the attempt. An attempt that succeeds has
succeeded at each of its steps, which is how the proofs about resolution and
expansion take a successful run apart.

An attempt with a budget of nested calls either ends as an attempt does or
gives nothing because the budget is spent. Termination is stated by saying
that a large enough budget is never spent.
-/

namespace Componentry

namespace Attempt

variable {α β : Type}

instance : LawfulMonad Attempt :=
  .mk' Attempt
    (by
      rintro α ⟨outcome, notices⟩
      cases outcome with
      | error failure => rfl
      | ok value => simp [Functor.map, andThen])
    (by
      intro α β value next
      rfl)
    (by
      rintro α β γ ⟨outcome, notices⟩ next after
      cases outcome with
      | error failure => rfl
      | ok value =>
        simp only [bind, andThen]
        cases (next value).outcome with
        | error failure => rfl
        | ok middle => simp [List.append_assoc])

@[simp]
theorem outcome_pure (value : α) : (pure value : Attempt α).outcome = .ok value :=
  rfl

theorem outcome_bind (attempt : Attempt α) (next : α → Attempt β) :
    (attempt >>= next).outcome = attempt.outcome >>= fun value => (next value).outcome := by
  rcases attempt with ⟨outcome, notices⟩
  cases outcome with
  | error failure => rfl
  | ok value => rfl

@[simp]
theorem outcome_bind_eq_ok {attempt : Attempt α} {next : α → Attempt β} {value : β} :
    (attempt >>= next).outcome = .ok value ↔
      ∃ middle, attempt.outcome = .ok middle ∧ (next middle).outcome = .ok value := by
  rcases attempt with ⟨outcome, notices⟩
  cases outcome with
  | error failure | ok middle => simp [bind, andThen]

end Attempt

/-- An attempt with a budget; it gives nothing when the budget is spent. -/
abbrev Budgeted := OptionT Attempt

@[simp]
theorem Budgeted.run_liftM {α : Type} (attempt : Attempt α) :
    (liftM attempt : Budgeted α).run = some <$> attempt := by
  rw [map_eq_pure_bind]
  exact OptionT.run_lift attempt

end Componentry
