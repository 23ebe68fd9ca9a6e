import Componentry.Proofs.Attempt.Composition

/-!
# Causes of failures

What an attempt fails with is composed from what its steps fail with. `FailsBy` says that an
attempt fails exactly if there is a cause, and then with one of the causes. A sequence of steps has
the causes of all of them: if an earlier step fails, it is for a cause of its own, and otherwise the
later steps are reached.
-/

namespace Componentry

namespace Attempt

variable {α β : Type}

/-- The attempt fails if there is a cause, and with one of the causes. -/
structure FailsBy (attempt : Attempt α) (Cause : StructuralError → Prop) : Prop where
  caused : ∀ failure, attempt.outcome = .error failure → Cause failure
  fails : ∀ failure, Cause failure → ∃ first, attempt.outcome = .error first

namespace FailsBy

variable {attempt : Attempt α} {next : α → Attempt β} {Cause Later : StructuralError → Prop}

theorem congr (failsBy : attempt.FailsBy Cause) (same : ∀ failure, Cause failure ↔ Later failure) :
    attempt.FailsBy Later := by
  refine ⟨?_, ?_⟩
  · intro failure failed
    exact (same failure).1 (failsBy.caused failure failed)
  · intro failure cause
    exact failsBy.fails failure ((same failure).2 cause)

theorem exists_ok (failsBy : attempt.FailsBy fun _ => False) :
    ∃ value, attempt.outcome = .ok value := by
  cases outcome : attempt.outcome with
  | ok value => exact ⟨value, rfl⟩
  | error failure => exact (failsBy.caused failure outcome).elim

theorem exists_error_iff (failsBy : attempt.FailsBy Cause) :
    (∃ failure, attempt.outcome = .error failure) ↔ ∃ failure, Cause failure := by
  constructor
  · rintro ⟨failure, failed⟩
    exact ⟨failure, failsBy.caused failure failed⟩
  · rintro ⟨failure, cause⟩
    exact failsBy.fails failure cause

theorem ok (value : α) : (pure value : Attempt α).FailsBy fun _ => False := by
  refine ⟨?_, ?_⟩
  · intro failure failed
    cases failed
  · intro failure cause
    exact cause.elim

theorem raise (notices : List Notice) : (Attempt.raise notices).FailsBy fun _ => False := by
  refine ⟨?_, ?_⟩
  · intro failure failed
    cases failed
  · intro failure cause
    exact cause.elim

theorem require (error : Option StructuralError) :
    (Attempt.require error).FailsBy fun failure => error = some failure := by
  cases error with
  | none => exact (ok ()).congr fun failure => by simp
  | some error =>
    refine ⟨?_, ?_⟩
    · intro failure failed
      cases failed
      rfl
    · intro failure _
      exact ⟨error, rfl⟩

theorem bind (first : attempt.FailsBy Cause)
    (rest : ∀ value, attempt.outcome = .ok value → (next value).FailsBy Later) :
    (attempt >>= next).FailsBy fun failure => Cause failure ∨ Later failure := by
  cases outcome : attempt.outcome with
  | error earlier =>
    have whole : (attempt >>= next).outcome = .error earlier := by
      rw [outcome_bind, outcome]
      rfl
    refine ⟨?_, fun _ _ => ⟨earlier, whole⟩⟩
    intro failure failed
    cases whole.symm.trans failed
    exact .inl (first.caused earlier outcome)
  | ok value =>
    have whole : (attempt >>= next).outcome = (next value).outcome := by
      rw [outcome_bind, outcome]
      rfl
    have later := rest value outcome
    refine ⟨?_, ?_⟩
    · intro failure failed
      exact .inr (later.caused failure (whole ▸ failed))
    · rintro failure (cause | cause)
      · rcases first.fails failure cause with ⟨earlier, failed⟩
        cases outcome.symm.trans failed
      · rw [whole]
        exact later.fails failure cause

theorem composes : Composes FailsBy :=
  ⟨congr, ok, bind⟩

end FailsBy

end Attempt

end Componentry
