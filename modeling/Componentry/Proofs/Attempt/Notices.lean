import Componentry.Proofs.Attempt.Composition

/-!
# Deprecated declarations that an attempt notes

An attempt that succeeds has gone through all of its steps, so it has noted exactly what each of
them notes. `Notes` says which deprecated declarations these are. An attempt that fails has noted
some of them, those of the steps before the failure.
-/

namespace Componentry

namespace Attempt

variable {α β : Type}

theorem notices_bind {attempt : Attempt α} {next : α → Attempt β} {value : α}
    (first : attempt.outcome = .ok value) :
    (attempt >>= next).notices = attempt.notices ++ (next value).notices := by
  rcases attempt with ⟨outcome, notices⟩
  subst first
  rfl

theorem notices_bind_of_error {attempt : Attempt α} {next : α → Attempt β}
    {failure : StructuralError} (first : attempt.outcome = .error failure) :
    (attempt >>= next).notices = attempt.notices := by
  rcases attempt with ⟨outcome, notices⟩
  subst first
  rfl

/-- The notices about deprecated declarations are among the given ones, and if the attempt succeeds,
they are all of them. -/
structure Notes (attempt : Attempt α) (Noted : Notice → Prop) : Prop where
  only : ∀ notice ∈ attempt.notices, notice.category? = some .deprecatedType → Noted notice
  every : ∀ value, attempt.outcome = .ok value →
    ∀ notice, notice.category? = some .deprecatedType → Noted notice → notice ∈ attempt.notices

namespace Notes

variable {attempt : Attempt α} {next : α → Attempt β} {Noted Later : Notice → Prop}

theorem mem_iff (notes : attempt.Notes Noted) {value : α} (succeeded : attempt.outcome = .ok value)
    {notice : Notice} (deprecated : notice.category? = some .deprecatedType) :
    notice ∈ attempt.notices ↔ Noted notice :=
  ⟨fun mem => notes.only notice mem deprecated, notes.every value succeeded notice deprecated⟩

theorem congr (notes : attempt.Notes Noted) (same : ∀ notice, Noted notice ↔ Later notice) :
    attempt.Notes Later where
  only notice mem deprecated := (same notice).1 (notes.only notice mem deprecated)
  every value succeeded notice deprecated noted :=
    notes.every value succeeded notice deprecated ((same notice).2 noted)

theorem ok (value : α) : (pure value : Attempt α).Notes fun _ => False :=
  ⟨nofun, nofun⟩

theorem fail (failure : StructuralError) (Noted : Notice → Prop) :
    (Attempt.fail failure : Attempt α).Notes Noted :=
  ⟨nofun, nofun⟩

theorem bind (first : attempt.Notes Noted)
    (rest : ∀ value, attempt.outcome = .ok value → (next value).Notes Later) :
    (attempt >>= next).Notes fun notice => Noted notice ∨ Later notice := by
  constructor
  · intro notice mem deprecated
    cases outcome : attempt.outcome with
    | error failure =>
      rw [notices_bind_of_error outcome] at mem
      exact .inl (first.only notice mem deprecated)
    | ok value =>
      rw [notices_bind outcome, List.mem_append] at mem
      exact mem.imp (fun mem => first.only notice mem deprecated)
        fun mem => (rest value outcome).only notice mem deprecated
  · intro value succeeded notice deprecated noted
    rcases outcome_bind_eq_ok.1 succeeded with ⟨middle, first_ok, rest_ok⟩
    rw [notices_bind first_ok, List.mem_append]
    exact noted.imp (first.every middle first_ok notice deprecated)
      ((rest middle first_ok).every value rest_ok notice deprecated)

theorem composes : Composes Notes :=
  ⟨congr, ok, bind⟩

theorem raise (notices : List Notice) :
    (Attempt.raise notices).Notes fun notice => notice ∈ notices :=
  ⟨fun _ mem _ => mem, fun _ _ _ _ mem => mem⟩

theorem raise_other {notices : List Notice}
    (other : ∀ notice ∈ notices, notice.category? ≠ some .deprecatedType) :
    (Attempt.raise notices).Notes fun _ => False :=
  ⟨fun notice mem deprecated => other notice mem deprecated, nofun⟩

end Notes

end Attempt

end Componentry
