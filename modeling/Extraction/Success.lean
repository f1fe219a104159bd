/-! # Steps that succeed

A chain of steps that may fail succeeds only if each of its steps does, and a
choice only by one of its branches.
-/

namespace Extraction

theorem ok_of_bind {ε α β : Type} {x : Except ε α} {f : α → Except ε β} {b : β}
    (h : (x >>= f) = .ok b) : ∃ a, x = .ok a ∧ f a = .ok b := by
  cases x with
  | error => cases h
  | ok a => exact ⟨a, rfl, h⟩

theorem ok_of_map {ε α β : Type} {x : Except ε α} {f : α → β} {b : β}
    (h : x.map f = .ok b) : ∃ a, x = .ok a ∧ f a = b := by
  cases x with
  | error => cases h
  | ok a => cases h; exact ⟨a, rfl, rfl⟩

theorem ok_of_mapError {ε ε' α : Type} {x : Except ε α} {f : ε → ε'} {a : α}
    (h : x.mapError f = .ok a) : x = .ok a := by
  cases x with
  | error => cases h
  | ok => cases h; rfl

theorem exists_error_of_not_ok {ε α : Type} {x : Except ε α} (h : x.isOk = false) :
    ∃ e, x = .error e := by
  cases x with
  | error e => exact ⟨e, rfl⟩
  | ok => cases h

/-- What holds of the result of either branch holds of the result. -/
theorem of_branches {p q : Prop} [Decidable p] {α : Type} {x y a : α}
    (h : (if p then x else y) = a) (hx : x = a → q) (hy : y = a → q) : q := by
  split at h
  next => exact hx h
  next => exact hy h

end Extraction
