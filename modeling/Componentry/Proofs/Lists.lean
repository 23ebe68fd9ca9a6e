import Mathlib.Data.List.Forall2
import Mathlib.Data.List.Nodup

/-!
# Lists

What proofs throughout the library use about lists without repetitions and about steps that are
made on each element and may give nothing.
-/

namespace Componentry

theorem nodup_eraseDups (items : List String) : items.eraseDups.Nodup := by
  induction length : items.length using Nat.strongRecOn generalizing items with
  | ind length ih =>
    cases items with
    | nil => exact .nil
    | cons first rest =>
      rw [List.eraseDups_cons]
      apply List.nodup_cons.2
      refine ⟨?_, ih _ ?_ _ rfl⟩
      · intro mem
        have different := List.mem_filter.1 (List.mem_eraseDups.1 mem)
        simp at different
      · have shorter := List.length_filter_le (fun item => !item == first) rest
        rw [List.length_cons] at length
        omega

theorem mapM_eq_some_iff {α β : Type} {step : α → Option β} {items : List α} {results : List β} :
    items.mapM step = some results ↔ items.map step = results.map some := by
  induction items generalizing results with
  | nil => cases results <;> simp
  | cons item rest ih =>
    cases results with
    | nil => simp [Option.bind_eq_some_iff]
    | cons result others => simp [Option.bind_eq_some_iff, ih]

/-- What is said of some result can be said of the item that it is the result of. -/
theorem exists_mem_iff_of_forall₂ {α β : Type} {Results : α → β → Prop} {items : List α}
    {results : List β} (paired : List.Forall₂ Results items results) {Said : α → Prop}
    {Holds : β → Prop}
    (agree : ∀ item result, Results item result → (Holds result ↔ Said item)) :
    (∃ result ∈ results, Holds result) ↔ ∃ item ∈ items, Said item := by
  induction paired with
  | nil => simp
  | cons here _ ih => simp [agree _ _ here, ih]

end Componentry
