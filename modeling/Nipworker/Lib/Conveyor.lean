/-
Items on a conveyor.

A chain of queues hands items on from stage to stage.  Read from the delivered
end backwards, the items form one list, and whatever a stage does with an item
short of letting it overtake another one — keep it, lose it, hand on several
things made from it — leaves a list that `Conveys` relates to the old one.
-/
import Mathlib

namespace Conveyor

variable {α β : Type*}

/-- The second list has every item of the first any number of times, also none,
in the place it had. -/
inductive Conveys : List α → List α → Prop
  | nil : Conveys [] []
  | drop {a : α} {l l' : List α} (h : Conveys l l') : Conveys (a :: l) l'
  | copy {a : α} {l l' : List α} (h : Conveys (a :: l) l') : Conveys (a :: l) (a :: l')

namespace Conveys

variable {l l' : List α}

theorem keep {a : α} (h : Conveys l l') : Conveys (a :: l) (a :: l') :=
  copy (drop h)

theorem of_sublist (h : l'.Sublist l) : Conveys l l' := by
  induction h with
  | slnil => exact nil
  | cons a _ ih => exact drop ih
  | cons_cons a _ ih => exact keep ih

theorem refl (l : List α) : Conveys l l := of_sublist (List.Sublist.refl l)

theorem append {l₁ l₁' l₂ l₂' : List α} (h₁ : Conveys l₁ l₁') (h₂ : Conveys l₂ l₂') :
    Conveys (l₁ ++ l₂) (l₁' ++ l₂') := by
  induction h₁ with
  | nil => exact h₂
  | drop _ ih => exact drop ih
  | copy _ ih => exact copy ih

theorem trans {l₁ l₂ l₃ : List α} (h₁ : Conveys l₁ l₂) (h₂ : Conveys l₂ l₃) : Conveys l₁ l₃ := by
  induction h₁ generalizing l₃ with
  | nil => exact h₂
  | drop _ ih => exact drop (ih h₂)
  | @copy a l l' _ ih =>
    -- the copies of `a` made by the second stage are copies made by both
    generalize hmid : a :: l' = mid at h₂
    induction h₂ with
    | nil => cases hmid
    | drop h _ =>
      cases hmid
      exact ih h
    | copy _ ih' =>
      cases hmid
      exact copy (ih' rfl)

theorem replicate (n : ℕ) (a : α) : Conveys [a] (List.replicate n a) := by
  induction n with
  | zero => exact drop nil
  | succ n ih => exact copy ih

theorem subset (h : Conveys l l') : l' ⊆ l := by
  induction h with
  | nil => exact List.Subset.refl _
  | drop _ ih => exact fun x hx => List.mem_cons_of_mem _ (ih hx)
  | copy _ ih =>
    intro x hx
    rcases List.mem_cons.mp hx with rfl | hx
    · exact List.mem_cons_self
    · exact ih hx

/-- **What was in order stays in order.** -/
theorem pairwise {R : α → α → Prop} (hrefl : ∀ a, R a a) (h : Conveys l l')
    (hl : l.Pairwise R) : l'.Pairwise R := by
  induction h with
  | nil => exact hl
  | drop _ ih => exact ih (List.pairwise_cons.mp hl).2
  | @copy a l l' h ih =>
    refine List.pairwise_cons.mpr ⟨fun b hb => ?_, ih hl⟩
    rcases List.mem_cons.mp (h.subset hb) with rfl | hb
    · exact hrefl b
    · exact (List.pairwise_cons.mp hl).1 b hb

end Conveys

end Conveyor
