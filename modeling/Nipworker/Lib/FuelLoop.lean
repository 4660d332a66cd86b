/-
Loops that are run with fuel.

A turn leads to the next position or ends the loop with a result.  When every turn
makes the position smaller, as much fuel as the size of the first position is enough.
-/
import Mathlib

namespace FuelLoop

variable {σ ρ : Type} {turn : σ → σ ⊕ ρ} {out : ρ}

/-- The loop, and `out` when the fuel is used up. -/
def run (turn : σ → σ ⊕ ρ) (out : ρ) : ℕ → σ → ρ
  | 0, _ => out
  | n + 1, s =>
    match turn s with
    | .inl s' => run turn out n s'
    | .inr r => r

/-- From `s` on, the turns lead to a position with `p`. -/
def ComesTo (turn : σ → σ ⊕ ρ) (p : σ → Prop) (s : σ) : Prop :=
  ∃ s', Relation.ReflTransGen (fun s s' => turn s = .inl s') s s' ∧ p s'

theorem run_next {s s' : σ} (h : turn s = .inl s') (n : ℕ) :
    run turn out (n + 1) s = run turn out n s' := by
  rw [run, h]

theorem run_end {s : σ} {r : ρ} (h : turn s = .inr r) (n : ℕ) : run turn out (n + 1) s = r := by
  rw [run, h]

theorem comesTo_next {p : σ → Prop} {s s' : σ} (h : turn s = .inl s') (hs : ¬ p s) :
    ComesTo turn p s ↔ ComesTo turn p s' := by
  constructor
  · rintro ⟨t, hleads, hp⟩
    rcases hleads.cases_head with rfl | ⟨s₁, hturn, hrest⟩
    · exact absurd hp hs
    · rw [h] at hturn
      rw [← Sum.inl.inj hturn] at hrest
      exact ⟨t, hrest, hp⟩
  · rintro ⟨t, hleads, hp⟩
    exact ⟨t, hleads.head h, hp⟩

theorem comesTo_end {p : σ → Prop} {s : σ} {r : ρ} (h : turn s = .inr r) :
    ComesTo turn p s ↔ p s := by
  constructor
  · rintro ⟨t, hleads, hp⟩
    rcases hleads.cases_head with rfl | ⟨s₁, hturn, -⟩
    · exact hp
    · rw [h] at hturn
      contradiction
  · exact fun hp => ⟨s, .refl, hp⟩

/-- **Loops with enough fuel**: the result is one of a kind exactly if the loop comes to
a position where a turn ends with such a result. -/
theorem run_iff {size : σ → ℕ} (hsize : ∀ s s', turn s = .inl s' → size s' < size s)
    {good : ρ → Prop} {p : σ → Prop} (hnext : ∀ s s', turn s = .inl s' → ¬ p s)
    (hend : ∀ s r, turn s = .inr r → (good r ↔ p s)) (out : ρ) (n : ℕ) : ∀ s, size s < n →
      (good (run turn out n s) ↔ ComesTo turn p s) := by
  induction n with
  | zero => exact fun s hs => absurd hs (Nat.not_lt_zero _)
  | succ n ih =>
    intro s hs
    cases hturn : turn s with
    | inl s' =>
      have hlt := hsize s s' hturn
      rw [run_next hturn, comesTo_next hturn (hnext s s' hturn)]
      exact ih s' (by omega)
    | inr r => rw [run_end hturn, comesTo_end hturn, hend s r hturn]

/-- With enough fuel, what the last turn says of the result. -/
theorem run_of_ends {size : σ → ℕ} (hsize : ∀ s s', turn s = .inl s' → size s' < size s)
    {good : ℕ → ρ → Prop} (hgood : ∀ s r, turn s = .inr r → good (size s) r)
    (hmono : ∀ m k r, m ≤ k → good m r → good k r) (n : ℕ) : ∀ s, size s < n →
      good (size s) (run turn out n s) := by
  induction n with
  | zero => exact fun s hs => absurd hs (Nat.not_lt_zero _)
  | succ n ih =>
    intro s hs
    cases hturn : turn s with
    | inl s' =>
      have hlt := hsize s s' hturn
      rw [run_next hturn]
      exact hmono _ _ _ hlt.le (ih s' (by omega))
    | inr r =>
      rw [run_end hturn]
      exact hgood s r hturn

end FuelLoop
