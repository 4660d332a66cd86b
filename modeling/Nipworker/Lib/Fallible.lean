/-
Fallible actions on a state.

An action changes the state and returns a value or an error; what it did to
the state before an error stays done.  This is a Rust `async fn` that returns a
`Result` and is run to its end.
-/
import Mathlib

/-- An action on states `σ` with errors `ε`. -/
def Fallible (σ ε α : Type) : Type := σ → σ × Except ε α

namespace Fallible

variable {σ ε α β : Type}

def ret (a : α) : Fallible σ ε α := fun w => (w, .ok a)

/-- One action after the other; an error ends the sequence. -/
def andThen (x : Fallible σ ε α) (f : α → Fallible σ ε β) : Fallible σ ε β := fun w =>
  match x w with
  | (w', .ok a) => f a w'
  | (w', .error e) => (w', .error e)

instance : Monad (Fallible σ ε) where
  pure := ret
  bind := andThen

def fail (e : ε) : Fallible σ ε α := fun w => (w, .error e)

def read : Fallible σ ε σ := fun w => (w, .ok w)

def change (f : σ → σ) : Fallible σ ε Unit := fun w => (f w, .ok ())

@[simp] theorem pure_apply (a : α) (w : σ) : (pure a : Fallible σ ε α) w = (w, .ok a) := rfl

@[simp] theorem change_apply (f : σ → σ) (w : σ) : (change f : Fallible σ ε Unit) w = (f w, .ok ()) :=
  rfl

variable {x : Fallible σ ε α} {f : α → Fallible σ ε β}

theorem bind_ok {w w' : σ} {a : α} (h : x w = (w', .ok a)) : (x >>= f) w = f a w' := by
  show andThen x f w = f a w'
  rw [andThen, h]

theorem bind_error {w w' : σ} {e : ε}
    (h : x w = (w', .error e)) : (x >>= f) w = (w', .error e) := by
  show andThen x f w = (w', .error e)
  rw [andThen, h]

/-- A sequence succeeds when both parts do. -/
theorem bind_eq_ok {w w'' : σ} {b : β} :
    (x >>= f) w = (w'', .ok b) ↔ ∃ w' a, x w = (w', .ok a) ∧ f a w' = (w'', .ok b) := by
  rcases hx : x w with ⟨w', e | a⟩
  · rw [bind_error hx]
    constructor
    · intro h
      cases h
    · rintro ⟨w₁, a, h, -⟩
      cases h
  · rw [bind_ok hx]
    constructor
    · exact fun h => ⟨w', a, rfl, h⟩
    · rintro ⟨w₁, a₁, h, hf⟩
      cases h
      exact hf

/-! ### What an action keeps -/

/-- The states before and after are related, whatever the outcome. -/
def Keeps (R : σ → σ → Prop) (x : Fallible σ ε α) : Prop := ∀ w, R w (x w).1

variable {R : σ → σ → Prop}

theorem keeps_change {f : σ → σ} (h : ∀ w, R w (f w)) :
    Keeps R (change f : Fallible σ ε Unit) := h

theorem keeps_pure [Std.Refl R] (a : α) : Keeps R (pure a : Fallible σ ε α) :=
  fun w => Std.Refl.refl w

theorem keeps_read [Std.Refl R] : Keeps R (read : Fallible σ ε σ) :=
  fun w => Std.Refl.refl w

theorem keeps_bind_at [IsTrans σ R] {w : σ}
    (hx : R w (x w).1) (hf : ∀ a, Keeps R (f a)) : R w ((x >>= f) w).1 := by
  rcases hxw : x w with ⟨w', e | a⟩ <;> rw [hxw] at hx
  · rw [bind_error hxw]
    exact hx
  · rw [bind_ok hxw]
    exact IsTrans.trans _ _ _ hx (hf a w')

theorem Keeps.bind [IsTrans σ R] (hx : Keeps R x) (hf : ∀ a, Keeps R (f a)) : Keeps R (x >>= f) :=
  fun w => keeps_bind_at (hx w) hf

end Fallible
