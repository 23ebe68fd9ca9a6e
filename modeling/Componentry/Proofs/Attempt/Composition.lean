import Componentry.Proofs.Attempt

/-!
# Properties composed from steps

What an attempt fails with and what it notes are known from its steps: a sequence of steps has what
the first step has and what the rest has. `Composes` says this of a way to attribute things to
attempts. Whatever composes can be followed through loops, and through all of expansion and
assembly, without looking again at how these are made from resolution.
-/

namespace Componentry

namespace Attempt

/-- `Has attempt Part` attributes things to attempts in a way that is composed from their steps. -/
structure Composes {ι : Type} (Has : {α : Type} → Attempt α → (ι → Prop) → Prop) : Prop where
  congr {α : Type} {attempt : Attempt α} {Part Other : ι → Prop} (has : Has attempt Part)
    (same : ∀ thing, Part thing ↔ Other thing) : Has attempt Other
  ok {α : Type} (value : α) : Has (pure value : Attempt α) fun _ => False
  bind {α β : Type} {attempt : Attempt α} {next : α → Attempt β} {Part Later : ι → Prop}
    (first : Has attempt Part)
    (rest : ∀ value, attempt.outcome = .ok value → Has (next value) Later) :
    Has (attempt >>= next) fun thing => Part thing ∨ Later thing

namespace Composes

variable {ι α β : Type} {Has : {α : Type} → Attempt α → (ι → Prop) → Prop}
  {attempt : Attempt α} {next : α → Attempt β} {Part Later : ι → Prop}

theorem ok_of_not (composes : Composes Has) {value : α} (none_part : ∀ thing, ¬Part thing) :
    Has (pure value) Part :=
  composes.congr (composes.ok value) fun thing => by simp [none_part]

/-- A step that has nothing leaves what the rest has. -/
theorem after (composes : Composes Has) (first : Has attempt fun _ => False)
    (rest : ∀ value, attempt.outcome = .ok value → Has (next value) Later) :
    Has (attempt >>= next) Later :=
  composes.congr (composes.bind first rest) fun thing => by simp

/-- A rest that has nothing leaves what the first step has. -/
theorem before (composes : Composes Has) (first : Has attempt Part)
    (rest : ∀ value, attempt.outcome = .ok value → Has (next value) fun _ => False) :
    Has (attempt >>= next) Part :=
  composes.congr (composes.bind first rest) fun thing => by simp

theorem traverse (composes : Composes Has) {step : α → Attempt β} {items : List α}
    {Part : α → ι → Prop} (each : ∀ item ∈ items, Has (step item) (Part item)) :
    Has (Attempt.traverse step items) fun thing => ∃ item ∈ items, Part item thing := by
  induction items with
  | nil => exact composes.ok_of_not fun thing => by simp
  | cons item rest ih =>
    have others := ih fun other mem => each other (List.mem_cons_of_mem item mem)
    have whole := composes.bind (each item List.mem_cons_self) fun first _ =>
      composes.before others fun found _ => composes.ok (first :: found)
    exact composes.congr whole fun thing => by simp

theorem traverseMap (composes : Composes Has) {step : String → α → Attempt β} {map : OrderedMap α}
    {Part : String → α → ι → Prop}
    (each : ∀ key value, (key, value) ∈ map.entries → Has (step key value) (Part key value)) :
    Has (Attempt.traverseMap step map) fun thing =>
      ∃ key value, (key, value) ∈ map.entries ∧ Part key value thing := by
  have steps : Has (Attempt.traverse (fun entry => step entry.1 entry.2 >>= fun result =>
      pure (entry.1, result)) map.entries) fun thing =>
        ∃ entry ∈ map.entries, Part entry.1 entry.2 thing :=
    composes.traverse fun entry mem =>
      composes.before (each entry.1 entry.2 mem) fun result _ => composes.ok (entry.1, result)
  have whole := composes.before steps fun entries _ => composes.ok (OrderedMap.ofList entries)
  exact composes.congr whole fun thing => by simp

end Composes

end Attempt

end Componentry
