import Longhand.ArithmeticError
/-!
# Outcomes of chains of checks

A check either passes on a value or stops with an error. What comes out of a chain of checks has
passed every one of them, and an error is that of one of them. Two chains of checks whose steps have
matching outcomes have matching outcomes (`Matching.bind`).
-/

namespace Longhand

variable {ε ε' α β : Type}

theorem exists_of_bind_eq_ok {x : Except ε α} {f : α → Except ε β} {b : β}
    (h : x >>= f = .ok b) : ∃ a, x = .ok a ∧ f a = .ok b := by
  cases x with
  | error e => cases h
  | ok a => exact ⟨a, rfl, h⟩

/-- An error of a chain is that of its first check, or of what comes after it. -/
theorem error_cases_of_bind {x : Except ε α} {f : α → Except ε β} {e : ε}
    (h : x >>= f = .error e) : x = .error e ∨ ∃ a, x = .ok a ∧ f a = .error e := by
  cases x with
  | error e' => exact .inl (congrArg Except.error (Except.error.inj h))
  | ok a => exact .inr ⟨a, rfl, h⟩

theorem exists_of_map_eq_ok {f : α → β} {x : Except ε α} {b : β} (h : f <$> x = .ok b) :
    ∃ a, x = .ok a ∧ f a = b := by
  cases x with
  | error e => cases h
  | ok a => exact ⟨a, rfl, Except.ok.inj h⟩

theorem map_eq_ok_iff {f : α → β} {x : Except ε α} {b : β} :
    f <$> x = .ok b ↔ ∃ a, x = .ok a ∧ f a = b := by
  constructor
  · exact exists_of_map_eq_ok
  · rintro ⟨a, rfl, rfl⟩
    rfl

theorem eq_ok_of_mapError {f : ε → ε'} {x : Except ε α} {a : α} (h : x.mapError f = .ok a) :
    x = .ok a := by
  cases x with
  | error e => cases h
  | ok b => exact congrArg Except.ok (Except.ok.inj h)

theorem exists_of_mapError_eq_error {f : ε → ε'} {x : Except ε α} {e' : ε'}
    (h : x.mapError f = .error e') : ∃ e, x = .error e ∧ f e = e' := by
  cases x with
  | error e => exact ⟨e, rfl, Except.error.inj h⟩
  | ok a => cases h

theorem eq_error_of_map {f : α → β} {x : Except ε α} {e : ε} (h : f <$> x = .error e) :
    x = .error e := by
  cases x with
  | error f => exact congrArg Except.error (Except.error.inj h)
  | ok a => cases h

theorem eq_ok_of_toOption {x : Except ε α} {a : α} (h : x.toOption = some a) : x = .ok a := by
  cases x with
  | error e => simp [Except.toOption] at h
  | ok b => exact congrArg Except.ok (Option.some.inj h)

/-- Outcomes that match: two values that are related, or two errors that are. -/
inductive Matching (E : ε → ε' → Prop) (R : α → β → Prop) : Except ε α → Except ε' β → Prop
  | ok {a : α} {b : β} (h : R a b) : Matching E R (.ok a) (.ok b)
  | error {e : ε} {e' : ε'} (h : E e e') : Matching E R (.error e) (.error e')

section

variable {γ δ : Type} {E : ε → ε' → Prop} {R : α → β → Prop} {S : γ → δ → Prop}
  {x : Except ε α} {y : Except ε' β}

theorem Matching.bind {f : α → Except ε γ} {g : β → Except ε' δ} (h : Matching E R x y)
    (hfg : ∀ a b, R a b → Matching E S (f a) (g b)) : Matching E S (x >>= f) (y >>= g) := by
  cases h with
  | ok h => exact hfg _ _ h
  | error h => exact .error h

theorem Matching.mono {T : α → β → Prop} (h : Matching E R x y) (hRT : ∀ a b, R a b → T a b) :
    Matching E T x y := by
  cases h with
  | ok h => exact .ok (hRT _ _ h)
  | error h => exact .error h

theorem Matching.map {f : α → γ} {g : β → δ} (h : Matching E R x y)
    (hfg : ∀ a b, R a b → S (f a) (g b)) : Matching E S (f <$> x) (g <$> y) := by
  cases h with
  | ok h => exact .ok (hfg _ _ h)
  | error h => exact .error h

end

/-- Outcomes that match by being the same are the same. -/
theorem Matching.eq {x y : Except ε α} (h : Matching Eq Eq x y) : x = y := by
  cases h with
  | ok h => rw [h]
  | error h => rw [h]

end Longhand
