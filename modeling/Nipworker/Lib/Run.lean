/-
Runs of a deterministic machine.

A machine is a step function on states and actions; a run is a list of actions.
`Run.Along` says something of every step a run takes, with the state the step is
taken in, so that conditions on the environment and properties of the machine
are stated alike.
-/
import Mathlib

namespace Run

open List

variable {σ α : Type*} {step : σ → α → σ} {P Q : σ → α → Prop} {Inv : σ → Prop}

def exec (step : σ → α → σ) (s : σ) (acts : List α) : σ := acts.foldl step s

/-- Every step of the run has `P`, in the state it is taken in. -/
def Along (step : σ → α → σ) (P : σ → α → Prop) : σ → List α → Prop
  | _, [] => True
  | s, a :: acts => P s a ∧ Along step P (step s a) acts

instance Along.decidable [∀ s a, Decidable (P s a)] :
    ∀ s acts, Decidable (Along step P s acts)
  | _, [] => inferInstanceAs (Decidable True)
  | s, a :: acts =>
    have := Along.decidable (step s a) acts
    inferInstanceAs (Decidable (P s a ∧ Along step P (step s a) acts))

@[simp] theorem exec_nil (s : σ) : exec step s [] = s := rfl

@[simp] theorem exec_cons (s : σ) (a : α) (acts : List α) :
    exec step s (a :: acts) = exec step (step s a) acts := rfl

theorem exec_append (s : σ) (acts more : List α) :
    exec step s (acts ++ more) = exec step (exec step s acts) more :=
  foldl_append

/-- A run cut in two. -/
theorem along_append (s : σ) (acts more : List α) :
    Along step P s (acts ++ more) ↔ Along step P s acts ∧ Along step P (exec step s acts) more := by
  induction acts generalizing s with
  | nil => simp [Along]
  | cons a acts ih =>
    rw [cons_append, Along, Along, ih, exec_cons, and_assoc]

variable {acts : List α}

/-- **Invariants.**  What every step keeps, under a condition all steps meet,
holds after the run. -/
theorem Along.exec (hkeep : ∀ s a, Inv s → P s a → Inv (step s a)) {s : σ}
    (hs : Inv s) (h : Along step P s acts) : Inv (exec step s acts) := by
  induction acts generalizing s with
  | nil => exact hs
  | cons a acts ih => exact ih (hkeep s a hs h.1) h.2

/-- **Steps.**  Under an invariant, a condition on every step gives a property
of every step. -/
theorem Along.imp (hkeep : ∀ s a, Inv s → P s a → Inv (step s a))
    (himp : ∀ s a, Inv s → P s a → Q s a) {s : σ}
    (hs : Inv s) (h : Along step P s acts) : Along step Q s acts := by
  induction acts generalizing s with
  | nil => trivial
  | cons a acts ih => exact ⟨himp s a hs h.1, ih (hkeep s a hs h.1) h.2⟩

theorem Along.mono (himp : ∀ s a, P s a → Q s a) {s : σ}
    (h : Along step P s acts) : Along step Q s acts := by
  induction acts generalizing s with
  | nil => trivial
  | cons a acts ih => exact ⟨himp s a h.1, ih h.2⟩

theorem along_of_mem (h : ∀ a ∈ acts, ∀ s, P s a) (s : σ) : Along step P s acts := by
  induction acts generalizing s with
  | nil => trivial
  | cons a acts ih =>
    exact ⟨h a mem_cons_self s, ih (fun b hb => h b (mem_cons_of_mem a hb)) (step s a)⟩

theorem Along.and {s : σ} (hp : Along step P s acts) (hq : Along step Q s acts) :
    Along step (fun s a => P s a ∧ Q s a) s acts := by
  induction acts generalizing s with
  | nil => trivial
  | cons a acts ih => exact ⟨⟨hp.1, hq.1⟩, ih hp.2 hq.2⟩

end Run
