/-
An allowance with a threshold.

Of a stream of items, the first ones pass, up to a limit; a later item passes when it is
above one of them.  Whoever keeps their number and the least of them can tell.
-/
import Mathlib

namespace Allowance

open List

variable {T : Type*} [LinearOrder T] {limit : ℕ} {earlier : List T} {least : T}

/-- What passes, by the items that came before. -/
def Admits (limit : ℕ) (earlier : List T) (t : T) : Prop :=
  earlier.length < limit ∨ ∃ e ∈ earlier.take limit, e < t

/-- The least of the first items. -/
def Threshold (limit : ℕ) (earlier : List T) (least : T) : Prop :=
  IsLeast {e | e ∈ earlier.take limit} least

/-- The number and the least of the first items decide what passes. -/
theorem Threshold.admits_iff (h : Threshold limit earlier least) (t : T) :
    Admits limit earlier t ↔ earlier.length < limit ∨ least < t := by
  refine or_congr Iff.rfl ⟨?_, fun hlt => ⟨least, h.1, hlt⟩⟩
  rintro ⟨e, he, hlt⟩
  exact lt_of_le_of_lt (h.2 he) hlt

theorem threshold_single (hlimit : 0 < limit) (t : T) : Threshold limit [t] t := by
  obtain ⟨n, rfl⟩ := Nat.exists_eq_succ_of_ne_zero hlimit.ne'
  rw [Threshold, take_succ_cons, take_nil]
  simp [IsLeast, lowerBounds]

/-- How the least of the first items moves. -/
theorem Threshold.concat (h : Threshold limit earlier least) (t : T) :
    Threshold limit (earlier ++ [t])
      (if earlier.length < limit then min least t else least) := by
  rw [Threshold, take_append]
  split
  · next hroom =>
    rw [take_of_length_le (i := limit - earlier.length) (by simp; omega)]
    refine ⟨?_, ?_⟩
    · rcases min_choice least t with hmin | hmin
      · rw [hmin]
        exact mem_append_left _ h.1
      · rw [hmin]
        exact mem_append_right _ (mem_singleton_self t)
    · intro e he
      rcases List.mem_append.mp he with hold | hnew
      · exact (min_le_left least t).trans (h.2 hold)
      · rw [List.mem_singleton.mp hnew]
        exact min_le_right least t
  · next hfull =>
    rw [Nat.sub_eq_zero_of_le (Nat.le_of_not_lt hfull), take_zero, append_nil]
    exact h

end Allowance
