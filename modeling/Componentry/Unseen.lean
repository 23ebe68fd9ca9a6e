/-!
# Names not yet seen

A walk that never enters a name twice ends because the number of names that it has not seen goes
down with each name that it enters.
-/

namespace Componentry

/-- How many of the names have not been seen. -/
def unseen (names seen : List String) : Nat :=
  names.countP (· ∉ seen)

theorem unseen_le_of_subset (names : List String) {seen wider : List String}
    (subset : seen ⊆ wider) : unseen names wider ≤ unseen names seen := by
  refine List.countP_mono_left fun name _ fresh => ?_
  simp only [decide_eq_true_eq] at fresh ⊢
  exact fun mem => fresh (subset mem)

theorem unseen_lt_of_subset {names seen wider : List String} {name : String} (mem : name ∈ names)
    (subset : seen ⊆ wider) (entered : name ∈ wider) (fresh : name ∉ seen) :
    unseen names wider < unseen names seen := by
  induction names with
  | nil => simp at mem
  | cons head rest ih =>
    have rest_le := unseen_le_of_subset rest subset
    simp only [unseen] at ih rest_le ⊢
    rw [List.countP_cons, List.countP_cons]
    by_cases same : head = name
    · have counted : decide (head ∉ seen) = true := by simpa [same] using fresh
      have skipped : decide (head ∉ wider) = false := by simpa [same] using entered
      rw [counted, skipped]
      simp only [if_true, Bool.false_eq_true, if_false]
      omega
    · have rest_lt := ih ((List.mem_cons.1 mem).resolve_left fun equal => same equal.symm)
      have head_le : (if decide (head ∉ wider) = true then 1 else 0) ≤
          (if decide (head ∉ seen) = true then 1 else 0) := by
        by_cases head_seen : head ∈ seen
        · simp [subset head_seen]
        · simp only [head_seen, not_false_eq_true, decide_true, if_true]
          split <;> omega
      omega

end Componentry
