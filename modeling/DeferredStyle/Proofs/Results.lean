/-!
# Results that may fail

* `map_eq_ok_iff`, `map_eq_error_iff` — what the image of a result says of the result.
* `bind_eq_ok_iff` — what the result of two steps says of each.
* `Meets` — a result that succeeds or fails as foreseen.
* `Related` — two results that fail alike or succeed alike.
-/

set_option autoImplicit false

namespace DeferredStyle

universe u v w x y z

variable {ε : Type u} {δ : Type v} {α : Type w} {β : Type x} {γ : Type y} {η : Type z}

theorem map_eq_ok_iff {result : Except ε α} {f : α → β} {b : β} :
    result.map f = .ok b ↔ ∃ a, result = .ok a ∧ f a = b := by
  cases result <;> simp [Except.map]

theorem map_eq_error_iff {result : Except ε α} {f : α → β} {e : ε} :
    result.map f = .error e ↔ result = .error e := by
  cases result <;> simp [Except.map]

theorem bind_eq_ok_iff {α β : Type w} {result : Except ε α} {f : α → Except ε β} {b : β} :
    (result >>= f) = .ok b ↔ ∃ a, result = .ok a ∧ f a = .ok b := by
  cases result with
  | error e => exact ⟨nofun, fun ⟨_, h, _⟩ => nomatch h⟩
  | ok a => exact ⟨fun h => ⟨a, rfl, h⟩, fun ⟨_, h, hf⟩ => Except.ok.inj h ▸ hf⟩

theorem toOption_eq_some_iff {result : Except ε α} {a : α} :
    result.toOption = some a ↔ result = .ok a := by
  cases result <;> simp [Except.toOption]

theorem exists_ok_of_isOk {result : Except ε α} (h : result.isOk = true) :
    ∃ a, result = .ok a := by
  cases result with
  | error e => cases h
  | ok a => exact ⟨a, rfl⟩

/-! ## One result -/

/-- The result is an error that `E` holds of, or a value that `P` holds of. -/
inductive Meets (E : ε → Prop) (P : α → Prop) : Except ε α → Prop
  | error {e : ε} (h : E e) : Meets E P (.error e)
  | ok {a : α} (h : P a) : Meets E P (.ok a)

namespace Meets

variable {E : ε → Prop} {P Q : α → Prop} {result : Except ε α}

theorem imp (h : Meets E P result) (hPQ : ∀ a, P a → Q a) : Meets E Q result := by
  cases h with
  | error h => exact .error h
  | ok h => exact .ok (hPQ _ h)

theorem map {R : β → Prop} {f : α → β} (h : Meets E P result) (hf : ∀ a, P a → R (f a)) :
    Meets E R (result.map f) := by
  cases h with
  | error h => exact .error h
  | ok h => exact .ok (hf _ h)

end Meets

/-- A step after a result that meets its conditions. -/
theorem Meets.bind {α β : Type w} {E : ε → Prop} {P : α → Prop} {Q : β → Prop}
    {result : Except ε α} {f : α → Except ε β} (h : Meets E P result)
    (hf : ∀ a, P a → Meets E Q (f a)) : Meets E Q (result >>= f) := by
  cases h with
  | error h => exact .error h
  | ok h => exact hf _ h

/-! ## Two results -/

/-- Both results are errors that `E` relates, or both are values that `R` relates. -/
inductive Related (E : ε → δ → Prop) (R : α → β → Prop) : Except ε α → Except δ β → Prop
  | error {e : ε} {e' : δ} (h : E e e') : Related E R (.error e) (.error e')
  | ok {a : α} {b : β} (h : R a b) : Related E R (.ok a) (.ok b)

namespace Related

variable {E : ε → δ → Prop} {R : α → β → Prop}

theorem refl {E : ε → ε → Prop} {R : α → α → Prop} (hE : ∀ e, E e e) (hR : ∀ a, R a a)
    (result : Except ε α) : Related E R result result := by
  cases result with
  | error e => exact .error (hE e)
  | ok a => exact .ok (hR a)

theorem eq {first second : Except ε α} (h : Related Eq Eq first second) : first = second := by
  cases h with
  | error h => rw [h]
  | ok h => rw [h]

theorem map {S : γ → η → Prop} {f : α → γ} {g : β → η} {first : Except ε α}
    {second : Except δ β} (h : Related E R first second) (hfg : ∀ a b, R a b → S (f a) (g b)) :
    Related E S (first.map f) (second.map g) := by
  cases h with
  | error h => exact .error h
  | ok h => exact .ok (hfg _ _ h)

/-- Results that fail with the same error or succeed with the same image. -/
theorem iff_map_eq {f : α → γ} {g : β → γ} {first : Except ε α} {second : Except ε β} :
    Related Eq (fun a b => f a = g b) first second ↔ first.map f = second.map g := by
  constructor
  · intro h
    cases h with
    | error h => exact congrArg _ h
    | ok h => exact congrArg _ h
  · intro h
    cases first with
    | error e =>
      cases second with
      | error e' => exact .error (Except.error.inj h)
      | ok b => cases h
    | ok a =>
      cases second with
      | error e' => cases h
      | ok b => exact .ok (Except.ok.inj h)

end Related

end DeferredStyle
