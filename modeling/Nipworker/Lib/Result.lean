/-
Results: a value or an error.

When a result that is made of others is a value, so are the others.
-/
import Mathlib

namespace Result

variable {ε δ α β σ : Type}

variable {x : Except ε α}

theorem bind_eq_ok {f : α → Except ε β} {b : β} :
    (x >>= f) = .ok b ↔ ∃ a, x = .ok a ∧ f a = .ok b := by
  cases x with
  | error e =>
    refine iff_of_false nofun ?_
    rintro ⟨a, ha, -⟩
    exact nomatch ha
  | ok a =>
    constructor
    · exact fun h => ⟨a, rfl, h⟩
    · rintro ⟨a', ha, h⟩
      obtain rfl := Except.ok.inj ha
      exact h

theorem map_eq_ok {f : α → β} {b : β} : x.map f = .ok b ↔ ∃ a, x = .ok a ∧ f a = b := by
  cases x with
  | error e =>
    refine iff_of_false nofun ?_
    rintro ⟨a, ha, -⟩
    exact nomatch ha
  | ok a =>
    rw [Except.map, Except.ok.injEq]
    constructor
    · exact fun h => ⟨a, rfl, h⟩
    · rintro ⟨a', ha, h⟩
      obtain rfl := Except.ok.inj ha
      exact h

theorem map_eq_error {f : α → β} {e : ε} : x.map f = .error e ↔ x = .error e := by
  cases x with
  | error e' => exact ⟨fun h => congrArg _ (Except.error.inj h), fun h => congrArg _ (Except.error.inj h)⟩
  | ok a => exact iff_of_false nofun nofun

theorem mapError_eq_ok {f : ε → δ} {a : α} : x.mapError f = .ok a ↔ x = .ok a := by
  cases x with
  | error e => exact iff_of_false nofun nofun
  | ok b => rw [Except.mapError, Except.ok.injEq, Except.ok.injEq]

theorem bind_eq_error {f : α → Except ε β} {e : ε} :
    (x >>= f) = .error e ↔ x = .error e ∨ ∃ a, x = .ok a ∧ f a = .error e := by
  cases x with
  | error e' =>
    show Except.error e' = .error e ↔ _
    refine ⟨fun h => .inl (congrArg Except.error (Except.error.inj h)), ?_⟩
    rintro (h | ⟨a, ha, -⟩)
    · exact congrArg Except.error (Except.error.inj h)
    · exact nomatch ha
  | ok a =>
    show f a = .error e ↔ _
    refine ⟨fun h => .inr ⟨a, rfl, h⟩, ?_⟩
    rintro (h | ⟨a', ha, h⟩)
    · exact nomatch h
    · obtain rfl := Except.ok.inj ha
      exact h

theorem mapError_eq_error {f : ε → δ} {d : δ} :
    x.mapError f = .error d ↔ ∃ e, x = .error e ∧ f e = d := by
  cases x with
  | error e =>
    rw [Except.mapError, Except.error.injEq]
    refine ⟨fun h => ⟨e, rfl, h⟩, ?_⟩
    rintro ⟨e', he, h⟩
    obtain rfl := Except.error.inj he
    exact h
  | ok a =>
    refine iff_of_false nofun ?_
    rintro ⟨e, he, -⟩
    exact nomatch he

/-- A fold succeeds exactly when all steps do, where a step succeeds or fails whatever the
state. -/
theorem foldlM_eq_ok_iff {step : σ → α → Except ε σ} {P : α → Prop}
    (h : ∀ st a, (∃ st', step st a = .ok st') ↔ P a) (l : List α) (st : σ) :
    (∃ st', l.foldlM step st = .ok st') ↔ ∀ a ∈ l, P a := by
  induction l generalizing st with
  | nil => exact iff_of_true ⟨st, rfl⟩ (by simp)
  | cons a l ih =>
    rw [List.foldlM_cons, List.forall_mem_cons, ← h st a]
    constructor
    · rintro ⟨st', hst⟩
      obtain ⟨st₁, h1, h2⟩ := bind_eq_ok.mp hst
      exact ⟨⟨st₁, h1⟩, (ih st₁).mp ⟨st', h2⟩⟩
    · rintro ⟨⟨st₁, h1⟩, hl⟩
      obtain ⟨st', h2⟩ := (ih st₁).mpr hl
      exact ⟨st', bind_eq_ok.mpr ⟨st₁, h1, h2⟩⟩

end Result
