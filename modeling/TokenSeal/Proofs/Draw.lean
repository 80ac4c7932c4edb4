import Mathlib
import TokenSeal.Entropy

/-! Taking apart computations that may fail, and those that draw random bytes too. -/

namespace TokenSeal

variable {ε δ α β γ : Type}

/-! ### Without randomness -/

@[simp]
theorem ok_bind (a : α) (f : α → Except ε β) : (Except.ok a >>= f) = f a := rfl

@[simp]
theorem error_bind (e : ε) (f : α → Except ε β) : (Except.error e >>= f) = .error e := rfl

@[simp]
theorem pure_eq_ok (a : α) : (pure a : Except ε α) = .ok a := rfl

@[simp]
theorem throw_eq_error (e : ε) : (throw e : Except ε α) = .error e := rfl

@[simp]
theorem mapError_ok (f : ε → δ) (a : α) : (Except.ok a : Except ε α).mapError f = .ok a := rfl

@[simp]
theorem mapError_error (f : ε → δ) (e : ε) :
    (Except.error e : Except ε α).mapError f = .error (f e) := rfl

@[simp]
theorem map_ok (f : α → β) (a : α) : (Except.ok a : Except ε α).map f = .ok (f a) := rfl

@[simp]
theorem map_error (f : α → β) (e : ε) : (Except.error e : Except ε α).map f = .error e := rfl

theorem bind_eq_ok {x : Except ε α} {f : α → Except ε β} {b : β} :
    (x >>= f) = .ok b ↔ ∃ a, x = .ok a ∧ f a = .ok b := by
  cases x <;> simp

theorem mapError_eq_ok {f : ε → δ} {x : Except ε α} {a : α} :
    x.mapError f = .ok a ↔ x = .ok a := by
  cases x <;> simp

theorem map_eq_ok {f : α → β} {x : Except ε α} {b : β} :
    x.map f = .ok b ↔ ∃ a, x = .ok a ∧ f a = b := by
  cases x <;> simp

theorem map_bind_except (g : α → β) (x : Except ε α) (f : β → Except ε γ) :
    (x.map g >>= f) = x >>= fun a => f (g a) := by
  cases x <;> rfl

/-! ### With randomness -/

namespace Draw

@[simp]
theorem pure_apply (a : α) (e : Entropy) : (pure a : Draw ε α) e = (.ok a, e) := rfl

@[simp]
theorem throw_apply (err : ε) (e : Entropy) : (throw err : Draw ε α) e = (.error err, e) := rfl

@[simp]
theorem ofExcept_apply (x : Except ε α) (e : Entropy) : ofExcept x e = (x, e) := rfl

@[simp]
theorem bytes_apply (n : Nat) (e : Entropy) :
    (bytes n : Draw ε Bytes) e = (.ok (e.take n), e.advance n) := rfl

theorem bind_apply (x : Draw ε α) (f : α → Draw ε β) (e : Entropy) :
    (x >>= f) e =
      match x e with
      | (.ok a, e') => f a e'
      | (.error err, e') => (.error err, e') := by
  change ExceptT.bindCont f (x e).1 (x e).2 = _
  rcases x e with ⟨_ | _, _⟩ <;> rfl

theorem bind_ok {x : Draw ε α} {f : α → Draw ε β} {e e' : Entropy} {a : α}
    (h : x e = (.ok a, e')) : (x >>= f) e = f a e' := by
  rw [bind_apply, h]

theorem ofExcept_ok_bind (a : α) (f : α → Draw ε β) (e : Entropy) :
    (ofExcept (.ok a) >>= f) e = f a e :=
  bind_ok rfl

theorem ofExcept_error_bind (err : ε) (f : α → Draw ε β) (e : Entropy) :
    (ofExcept (.error err) >>= f) e = (.error err, e) := by
  rw [bind_apply]
  rfl

theorem ofExcept_map_bind (g : α → β) (x : Except ε α) (f : β → Draw ε γ) :
    (ofExcept (x.map g) >>= f) = ofExcept x >>= fun a => f (g a) := by
  cases x <;> rfl

theorem bind_error {x : Draw ε α} {f : α → Draw ε β} {e e' : Entropy} {err : ε}
    (h : x e = (.error err, e')) : (x >>= f) e = (.error err, e') := by
  rw [bind_apply, h]

theorem bind_eq_ok {x : Draw ε α} {f : α → Draw ε β} {e e'' : Entropy} {b : β} :
    (x >>= f) e = (.ok b, e'') ↔ ∃ a e', x e = (.ok a, e') ∧ f a e' = (.ok b, e'') := by
  rw [bind_apply]
  rcases h : x e with ⟨_ | a, e'⟩
  · constructor
    · rintro ⟨⟩
    · rintro ⟨_, _, ⟨⟩, _⟩
  · constructor
    · exact fun hf => ⟨a, e', rfl, hf⟩
    · rintro ⟨_, _, ⟨⟩, hf⟩
      exact hf

theorem ofExcept_eq_ok {x : Except ε α} {e e' : Entropy} {a : α} :
    ofExcept x e = (.ok a, e') ↔ x = .ok a ∧ e = e' := by
  rw [ofExcept_apply, Prod.mk.injEq]

theorem ofExcept_bind_eq_ok {x : Except ε α} {f : α → Draw ε β} {e e' : Entropy} {b : β} :
    (ofExcept x >>= f) e = (.ok b, e') ↔ ∃ a, x = .ok a ∧ f a e = (.ok b, e') := by
  rw [bind_eq_ok]
  constructor
  · rintro ⟨a, _, ⟨rfl, rfl⟩, hf⟩
    exact ⟨a, rfl, hf⟩
  · rintro ⟨a, rfl, hf⟩
    exact ⟨a, e, rfl, hf⟩

theorem mapError_eq_ok {f : ε → δ} {x : Draw ε α} {e e' : Entropy} {a : α} :
    mapError f x e = (.ok a, e') ↔ x e = (.ok a, e') := by
  rw [mapError]
  rcases x e with ⟨_ | _, _⟩ <;> constructor <;> rintro ⟨⟩ <;> rfl

/-- Draws nothing, so that the result does not depend on the stream. -/
def Still (x : Draw ε α) : Prop := ∃ y, x = ofExcept y

theorem still_ofExcept (y : Except ε α) : Still (ofExcept y) := ⟨y, rfl⟩

theorem still_throw (err : ε) : Still (throw err : Draw ε α) := ⟨.error err, rfl⟩

theorem Still.bind {x : Draw ε α} {f : α → Draw ε β} (hx : Still x) (hf : ∀ a, Still (f a)) :
    Still (x >>= f) := by
  obtain ⟨y, rfl⟩ := hx
  cases y with
  | error err => exact ⟨.error err, funext fun e => ofExcept_error_bind err f e⟩
  | ok a =>
    obtain ⟨z, hz⟩ := hf a
    exact ⟨z, funext fun e => by rw [ofExcept_ok_bind, hz]⟩

/-- Whatever the stream is, it fails with none but these. -/
def FailsOnly (P : ε → Prop) (x : Draw ε α) : Prop :=
  ∀ e cause e', x e = (.error cause, e') → P cause

section FailsOnly

variable {P : ε → Prop}

theorem failsOnly_ok (a : α) : FailsOnly P (ofExcept (.ok a)) := by
  rintro e cause e' ⟨⟩

theorem failsOnly_error {cause : ε} (h : P cause) :
    FailsOnly P (ofExcept (.error cause) : Draw ε α) := by
  rintro e cause e' ⟨⟩
  exact h

theorem failsOnly_bytes (n : Nat) : FailsOnly P (bytes n : Draw ε Bytes) := by
  rintro e cause e' ⟨⟩

theorem FailsOnly.bind {x : Draw ε α} {f : α → Draw ε β} (hx : FailsOnly P x)
    (hf : ∀ a, FailsOnly P (f a)) : FailsOnly P (x >>= f) := by
  intro e cause e' h
  rcases hxe : x e with ⟨err | a, e₁⟩
  · rw [bind_error hxe] at h
    cases h
    exact hx e cause e' hxe
  · rw [bind_ok hxe] at h
    exact hf a e₁ cause e' h

theorem FailsOnly.ofExcept_bind {x : Except ε α} {f : α → Except ε β}
    (hx : FailsOnly P (ofExcept x)) (hf : ∀ a, x = .ok a → FailsOnly P (ofExcept (f a))) :
    FailsOnly P (ofExcept (x >>= f)) := by
  cases x with
  | error cause => exact failsOnly_error (hx ⟨fun _ => 0, 0⟩ cause _ rfl)
  | ok a => exact hf a rfl

end FailsOnly

end Draw

end TokenSeal
