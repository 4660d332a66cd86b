/-
A window over the most recent items of a history.

The window holds the last `n` items in the order they came, and an item enters
only while it is not in the window.  So the items of the window are distinct, and
the window is the last `n` distinct items of the history.
-/
import Mathlib

namespace List

variable {α : Type*}

/-- The window moves on by one item. -/
theorem rtake_append_singleton (l : List α) (x : α) (n : ℕ) :
    (l ++ [x]).rtake n = ((l.rtake n) ++ [x]).rtake n := by
  cases n with
  | zero => simp
  | succ n =>
    rw [rtake_concat_succ, rtake_concat_succ]
    congr 1
    simp only [rtake_eq_reverse_take_reverse, reverse_reverse, take_take]
    rw [Nat.min_eq_left (Nat.le_succ n)]

/-- The window drops its oldest item when it is full. -/
theorem rtake_concat_eq {window : List α} {n : ℕ} (h : window.length ≤ n) (x : α) :
    (window ++ [x]).rtake n =
      if n < (window ++ [x]).length then (window ++ [x]).tail else window ++ [x] := by
  rw [rtake]
  split
  · next hlong =>
    have hlen : (window ++ [x]).length - n = 1 := by
      rw [length_append, length_singleton] at hlong ⊢
      omega
    rw [hlen, drop_one]
  · next hshort => rw [Nat.sub_eq_zero_of_le (by omega), drop_zero]

theorem length_rtake_le (l : List α) (n : ℕ) : (l.rtake n).length ≤ n := by
  rw [rtake_eq_reverse_take_reverse, length_reverse, length_take]
  exact Nat.min_le_left _ _

theorem exists_append_rtake (l : List α) (n : ℕ) :
    ∃ older, l = older ++ l.rtake n ∧ (older ≠ [] → (l.rtake n).length = n) := by
  refine ⟨l.take (l.length - n), (take_append_drop _ l).symm, ?_⟩
  intro hne
  have hlen : 0 < (l.take (l.length - n)).length := length_pos_iff.mpr hne
  rw [length_take] at hlen
  rw [rtake, length_drop]
  omega

variable [DecidableEq α]

/-- **The last `n` distinct items**, when the last `n` items are distinct. -/
theorem rtake_dedup {l : List α} {n : ℕ} (h : (l.rtake n).Nodup) :
    l.dedup.rtake n = l.rtake n := by
  obtain ⟨older, hl, hfull⟩ := exists_append_rtake l n
  have hlen := length_rtake_le l n
  generalize l.rtake n = window at h hl hfull hlen
  obtain ⟨t, ht, hunion⟩ := sublist_suffix_of_union older window
  rw [hl, dedup_append, h.dedup, ← hunion, rtake]
  by_cases holder : older = []
  · subst holder
    rw [sublist_nil.mp ht, nil_append, Nat.sub_eq_zero_of_le hlen, drop_zero]
  · have hn := hfull holder
    rw [length_append, hn, Nat.add_sub_cancel]
    exact drop_left

end List
