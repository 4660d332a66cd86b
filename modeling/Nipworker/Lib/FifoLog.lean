/-
A first-in first-out log of bounded size.

Items are accepted in order, and the oldest ones are evicted to make room: every item
that is accepted evicts the shortest prefix without which it fits.  An item that does
not fit alone is refused.
-/
import Nipworker.Lib.Run

/-- A bounded log: everything that was accepted, and how much of it is gone. -/
structure FifoLog (α : Type*) where
  capacity : ℕ
  accepted : List α
  evicted : ℕ

namespace FifoLog

variable {α : Type*} (size : α → ℕ)

def new (capacity : ℕ) : FifoLog α := { capacity := capacity, accepted := [], evicted := 0 }

def live (l : FifoLog α) : List α := l.accepted.drop l.evicted

def total (items : List α) : ℕ := (items.map size).sum

/-- The length of the shortest prefix without which the items fit. -/
def toEvict (room : ℕ) (items : List α) : ℕ :=
  Nat.find (p := fun n => total size (items.drop n) ≤ room) ⟨items.length, by simp [total]⟩

/-- One more item. -/
def add (l : FifoLog α) (item : α) : FifoLog α :=
  if l.capacity < size item then l
  else
    { l with
      accepted := l.accepted ++ [item]
      evicted := l.evicted + toEvict size (l.capacity - size item) l.live }

variable {size}

theorem toEvict_le (room : ℕ) (items : List α) : toEvict size room items ≤ items.length :=
  Nat.find_min' _ (by simp [total])

/-- A prefix that is enough while no shorter one is, is the one to evict. -/
theorem eq_toEvict {room n : ℕ} {items : List α} (hfits : total size (items.drop n) ≤ room)
    (hmin : ∀ m < n, room < total size (items.drop m)) : n = toEvict size room items := by
  symm
  rw [toEvict, Nat.find_eq_iff]
  exact ⟨hfits, fun m hm => Nat.not_le.mpr (hmin m hm)⟩

variable (size) in
/-- What was accepted or evicted stays so. -/
theorem prefix_exec (l : FifoLog α) (items : List α) :
    l.accepted <+: (Run.exec (add size) l items).accepted ∧
      l.evicted ≤ (Run.exec (add size) l items).evicted := by
  induction items generalizing l with
  | nil => exact ⟨List.prefix_refl _, le_refl _⟩
  | cons item items ih =>
    obtain ⟨haccepted, hevicted⟩ := ih (add size l item)
    rw [Run.exec_cons]
    rw [add] at haccepted hevicted ⊢
    split at haccepted
    · rename_i hlarge
      rw [if_pos hlarge] at hevicted ⊢
      exact ⟨haccepted, hevicted⟩
    · rename_i hfits
      rw [if_neg hfits] at hevicted ⊢
      exact ⟨(List.prefix_append _ _).trans haccepted, le_trans (Nat.le_add_right _ _) hevicted⟩

end FifoLog
