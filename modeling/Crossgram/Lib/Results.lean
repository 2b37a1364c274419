import Mathlib.Logic.Basic
/-!
# Results — computations that may fail

A computation of two steps succeeds where both do.
-/
namespace Results

theorem bind_ok {ε α β : Type} {x : Except ε α} {f : α → Except ε β} {b : β} :
    (x >>= f) = .ok b ↔ ∃ a, x = .ok a ∧ f a = .ok b := by
  cases x with
  | error e => simp [bind, Except.bind]
  | ok a    => simp [bind, Except.bind]

end Results
