/-!
# Results that may be errors

When a chain of checks succeeds, and what a change of the error does to success and failure.
-/

namespace Keybox

universe u

variable {ε ε' : Type u} {α β : Type u}

theorem ok_bind
    (a : α)
    (f : α → Except ε β) :
    (Except.ok a >>= f) = f a :=
  rfl

theorem bind_eq_ok_iff
    {x : Except ε α}
    {f : α → Except ε β}
    {b : β} :
    (x >>= f) = .ok b ↔ ∃ a, x = .ok a ∧ f a = .ok b := by
  cases x with
  | error e =>
      simp [bind, Except.bind]
  | ok a =>
      simp [bind, Except.bind]

theorem bind_eq_error_iff
    {x : Except ε α}
    {f : α → Except ε β}
    {e : ε} :
    (x >>= f) = .error e ↔ x = .error e ∨ ∃ a, x = .ok a ∧ f a = .error e := by
  cases x with
  | error e' =>
      simp [bind, Except.bind]
  | ok a =>
      simp [bind, Except.bind]

@[simp] theorem mapError_ok
    (f : ε → ε')
    (a : α) :
    (Except.ok a).mapError f = .ok a :=
  rfl

@[simp] theorem mapError_error
    (f : ε → ε')
    (e : ε) :
    (Except.error e : Except ε α).mapError f = .error (f e) :=
  rfl

theorem eq_ok_of_toOption
    {ε α : Type}
    {r : Except ε α}
    {a : α}
    (h : r.toOption = some a) :
    r = .ok a := by
  cases r with
  | ok b =>
      rw [Option.some.inj h]
  | error e =>
      cases h

theorem map_eq_ok_iff
    {f : α → β}
    {x : Except ε α}
    {b : β} :
    x.map f = .ok b ↔ ∃ a, x = .ok a ∧ f a = b := by
  cases x with
  | error e =>
      simp [Except.map]
  | ok a =>
      simp [Except.map]

theorem map_eq_error_iff
    {f : α → β}
    {x : Except ε α}
    {e : ε} :
    x.map f = .error e ↔ x = .error e := by
  cases x with
  | error e' =>
      simp [Except.map]
  | ok a =>
      simp [Except.map]

theorem mapError_eq_ok_iff
    {f : ε → ε'}
    {x : Except ε α}
    {a : α} :
    x.mapError f = .ok a ↔ x = .ok a := by
  cases x with
  | error e =>
      simp
  | ok a =>
      simp

theorem mapError_eq_error_iff
    {f : ε → ε'}
    {x : Except ε α}
    {e' : ε'} :
    x.mapError f = .error e' ↔ ∃ e, x = .error e ∧ f e = e' := by
  cases x with
  | error e =>
      simp
  | ok a =>
      simp

end Keybox
