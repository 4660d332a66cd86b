/-
Histories.

A history is the list of what happened, oldest first.  `History.Always` says something
of every entry, given the history before it, so that a property of a run can be read off
the history the run leaves behind.

`History.Since Q x` says that `x` happened, and only entries with `Q` after it.
-/
import Mathlib

namespace History

open List

variable {α : Type*} {P : List α → α → Prop}

/-- Every entry has `P`, at the moment it was written. -/
def Always (P : List α → α → Prop) (history : List α) : Prop :=
  ∀ before entry after, history = before ++ entry :: after → P before entry

theorem always_nil : Always P [] := by
  intro before entry after h
  simp at h

/-- One more entry. -/
theorem always_concat {history : List α} {entry : α} :
    Always P (history ++ [entry]) ↔ Always P history ∧ P history entry := by
  constructor
  · intro h
    exact ⟨fun before e after heq => h before e (after ++ [entry]) (by rw [heq]; simp),
      h history entry [] rfl⟩
  · rintro ⟨h, hlast⟩ before e after heq
    -- the entry is the last one, or lies in the old history
    rcases eq_nil_or_concat after with rfl | ⟨rest, last, rfl⟩
    · obtain ⟨hbefore, he⟩ := append_inj' heq rfl
      rw [← hbefore, ← (List.cons.inj he).1]
      exact hlast
    · rw [concat_eq_append, ← cons_append, ← append_assoc] at heq
      exact h before e rest (append_inj' heq rfl).1

/-- Entries of which the property holds at any time. -/
theorem always_append {added : List α} (h : ∀ e ∈ added, ∀ before, P before e)
    (history : List α) : Always P (history ++ added) ↔ Always P history := by
  induction added generalizing history with
  | nil => rw [append_nil]
  | cons e added ih =>
    rw [append_cons, ih fun e' he' => h e' (mem_cons_of_mem e he'), always_concat]
    exact and_iff_left (h e mem_cons_self history)

/-! ### What happened last -/

/-- The entry `x` was written, and after it only entries with `Q`. -/
def Since (Q : α → Prop) (x : α) (history : List α) : Prop :=
  ∃ before after, history = before ++ x :: after ∧ ∀ e ∈ after, Q e

theorem not_since_nil {Q : α → Prop} {x : α} : ¬ Since Q x [] := by
  rintro ⟨before, after, h, -⟩
  simp at h

/-- One more entry. -/
theorem since_concat {Q : α → Prop} {x : α} {history : List α} {entry : α} :
    Since Q x (history ++ [entry]) ↔ entry = x ∨ (Q entry ∧ Since Q x history) := by
  constructor
  · rintro ⟨before, after, heq, hafter⟩
    rcases eq_nil_or_concat after with rfl | ⟨rest, last, rfl⟩
    · exact .inl (List.cons.inj (append_inj' heq rfl).2).1
    · rw [concat_eq_append] at heq hafter
      rw [← cons_append, ← append_assoc] at heq
      obtain ⟨hhistory, hlast⟩ := append_inj' heq rfl
      rw [(List.cons.inj hlast).1]
      exact .inr ⟨hafter last (by simp), before, rest, hhistory,
        fun e he => hafter e (mem_append_left _ he)⟩
  · rintro (rfl | ⟨hentry, before, after, rfl, hafter⟩)
    · exact ⟨history, [], rfl, by simp⟩
    · refine ⟨before, after ++ [entry], by simp, fun e he => ?_⟩
      rcases List.mem_append.mp he with hold | hnew
      · exact hafter e hold
      · rw [List.mem_singleton.mp hnew]
        exact hentry

/-- Entries that are neither `x` nor break `Q` do not count. -/
theorem since_filter {Q : α → Prop} {x : α} {keep : α → Bool} (hx : keep x = true)
    (hQ : ∀ e, keep e = false → Q e) (history : List α) :
    Since Q x (history.filter keep) ↔ Since Q x history := by
  induction history using List.reverseRecOn with
  | nil => rfl
  | append_singleton history entry ih =>
    rw [filter_append, since_concat]
    cases hkeep : keep entry with
    | true => rw [filter_singleton, hkeep, cond_true, since_concat, ih]
    | false =>
      have hne : entry ≠ x := by
        rintro rfl
        rw [hx] at hkeep
        contradiction
      rw [filter_singleton, hkeep, cond_false, append_nil, ih, or_iff_right hne,
        and_iff_right (hQ entry hkeep)]

end History
