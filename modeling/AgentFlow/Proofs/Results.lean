import Mathlib.Logic.Basic

/-!
# Results that are not errors
-/

namespace AgentFlow

variable {ε α β : Type} {x : Except ε α}

/-- What is bound to a result has a result only if there was one. -/
theorem exists_of_bind_eq_ok {f : α → Except ε β} {b : β} (h : x >>= f = .ok b) :
    ∃ a, x = .ok a ∧ f a = .ok b := by
  cases x with
  | ok a => exact ⟨a, rfl, h⟩
  | error e => cases h

/-- There is an error if one of the two parts has it. -/
theorem error_or_exists_of_bind_eq_error {f : α → Except ε β} {e : ε} (h : x >>= f = .error e) :
    x = .error e ∨ ∃ a, x = .ok a ∧ f a = .error e := by
  cases x with
  | ok a => exact .inr ⟨a, rfl, h⟩
  | error e' => exact .inl (congrArg Except.error (Except.error.inj h))

/-- What is made of a result has a result only if there was one. -/
theorem exists_of_map_eq_ok {f : α → β} {b : β} (h : x.map f = .ok b) :
    ∃ a, x = .ok a ∧ f a = b := by
  cases x with
  | ok a => exact ⟨a, rfl, Except.ok.inj h⟩
  | error e => cases h

/-- An error in what is made of a result is an error of that. -/
theorem eq_error_of_map_eq_error {f : α → β} {e : ε} (h : x.map f = .error e) : x = .error e := by
  cases x with
  | ok a => cases h
  | error e' => exact congrArg Except.error (Except.error.inj h)

/-- What follows a result matters only for the results there are. -/
theorem bind_congr_of_ok {f g : α → Except ε β} (h : ∀ a, x = .ok a → f a = g a) :
    x >>= f = x >>= g := by
  cases x with
  | ok a => exact h a rfl
  | error e => rfl

end AgentFlow
