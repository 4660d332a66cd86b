/-
Counted holders.

A `Holders K` lists who holds a shared resource, with the references of each, in the
order in which they came.  Nobody is listed twice, and nobody without a reference.
-/
import Mathlib

universe u

namespace Holders

open List

variable {K : Type u} [DecidableEq K]

/-! ### Lists of holders -/

def countIn (k : K) : List (K × ℕ) → ℕ
  | [] => 0
  | (holder, references) :: rest => if holder = k then references else countIn k rest

/-- One more reference; a holder that is not listed comes last. -/
def addTo (k : K) : List (K × ℕ) → List (K × ℕ)
  | [] => [(k, 1)]
  | (holder, references) :: rest =>
    if holder = k then (holder, references + 1) :: rest else (holder, references) :: addTo k rest

/-- One reference less; the last one takes the holder off the list. -/
def dropFrom (k : K) : List (K × ℕ) → List (K × ℕ)
  | [] => []
  | (holder, references) :: rest =>
    if holder = k then
      if 1 < references then (holder, references - 1) :: rest else rest
    else (holder, references) :: dropFrom k rest

variable {l : List (K × ℕ)}

theorem mem_keys_addTo {k x : K} : x ∈ (addTo k l).map Prod.fst ↔ x = k ∨ x ∈ l.map Prod.fst := by
  induction l with
  | nil => simp [addTo]
  | cons e rest ih =>
    obtain ⟨holder, references⟩ := e
    by_cases h : holder = k
    · subst h
      simp [addTo]
    · rw [addTo, if_neg h, map_cons, mem_cons, ih, map_cons, mem_cons]
      exact or_left_comm

theorem nodup_addTo {k : K} (hl : (l.map Prod.fst).Nodup) : ((addTo k l).map Prod.fst).Nodup := by
  induction l with
  | nil => simp [addTo]
  | cons e rest ih =>
    obtain ⟨holder, references⟩ := e
    obtain ⟨hnew, hrest⟩ := List.nodup_cons.mp hl
    by_cases h : holder = k
    · rw [addTo, if_pos h]
      exact hl
    · rw [addTo, if_neg h]
      refine List.nodup_cons.mpr ⟨fun hmem => ?_, ih hrest⟩
      rcases mem_keys_addTo.mp hmem with heq | hold
      · exact h heq
      · exact hnew hold

theorem positive_addTo {k : K} (hl : ∀ e ∈ l, 0 < e.2) : ∀ e ∈ addTo k l, 0 < e.2 := by
  induction l with
  | nil => simp [addTo]
  | cons e rest ih =>
    obtain ⟨holder, references⟩ := e
    intro x hx
    by_cases h : holder = k
    · rw [addTo, if_pos h] at hx
      rcases List.mem_cons.mp hx with rfl | hx
      · exact Nat.succ_pos references
      · exact hl x (mem_cons_of_mem _ hx)
    · rw [addTo, if_neg h] at hx
      rcases List.mem_cons.mp hx with rfl | hx
      · exact hl _ mem_cons_self
      · exact ih (fun y hy => hl y (mem_cons_of_mem _ hy)) x hx

theorem keys_dropFrom (k : K) (l : List (K × ℕ)) :
    ((dropFrom k l).map Prod.fst).Sublist (l.map Prod.fst) := by
  induction l with
  | nil => exact List.Sublist.refl _
  | cons e rest ih =>
    obtain ⟨holder, references⟩ := e
    rw [dropFrom]
    split
    · split
      · exact List.Sublist.refl _
      · exact sublist_cons_self _ _
    · exact ih.cons_cons holder

theorem positive_dropFrom {k : K} (hl : ∀ e ∈ l, 0 < e.2) : ∀ e ∈ dropFrom k l, 0 < e.2 := by
  induction l with
  | nil => simp [dropFrom]
  | cons e rest ih =>
    obtain ⟨holder, references⟩ := e
    have hrest : ∀ y ∈ rest, 0 < y.2 := fun y hy => hl y (mem_cons_of_mem _ hy)
    intro x hx
    rw [dropFrom] at hx
    split at hx
    · split at hx
      next hmore =>
        rcases List.mem_cons.mp hx with rfl | hx
        · exact Nat.sub_pos_of_lt hmore
        · exact hrest x hx
      · exact hrest x hx
    · rcases List.mem_cons.mp hx with rfl | hx
      · exact hl _ mem_cons_self
      · exact ih hrest x hx

theorem countIn_eq_zero {k : K} (h : k ∉ l.map Prod.fst) : countIn k l = 0 := by
  induction l with
  | nil => rfl
  | cons e rest ih =>
    obtain ⟨holder, references⟩ := e
    rw [map_cons, mem_cons, not_or] at h
    rw [countIn, if_neg (Ne.symm h.1), ih h.2]

theorem countIn_addTo (k d : K) (l : List (K × ℕ)) :
    countIn d (addTo k l) = countIn d l + if d = k then 1 else 0 := by
  induction l with
  | nil => simp [addTo, countIn, eq_comm]
  | cons e rest ih =>
    obtain ⟨holder, references⟩ := e
    by_cases h : holder = k
    · subst h
      by_cases hd : holder = d
      · simp [addTo, countIn, hd]
      · simp [addTo, countIn, hd, Ne.symm hd]
    · rw [addTo, if_neg h, countIn, countIn, ih]
      by_cases hd : holder = d
      · subst hd
        rw [if_pos rfl, if_pos rfl, if_neg h, Nat.add_zero]
      · rw [if_neg hd, if_neg hd]

theorem countIn_dropFrom (hl : (l.map Prod.fst).Nodup) (hpos : ∀ e ∈ l, 0 < e.2) (k d : K) :
    countIn d (dropFrom k l) = countIn d l - if d = k then 1 else 0 := by
  induction l with
  | nil => simp [dropFrom, countIn]
  | cons e rest ih =>
    obtain ⟨holder, references⟩ := e
    obtain ⟨hnew, hrest⟩ := List.nodup_cons.mp hl
    by_cases h : holder = k
    · subst h
      rw [dropFrom, if_pos rfl]
      by_cases hd : holder = d
      · subst hd
        have hzero : countIn holder rest = 0 := countIn_eq_zero hnew
        have hone : 0 < references := hpos _ mem_cons_self
        split
        · rw [countIn, if_pos rfl, countIn, if_pos rfl, if_pos rfl]
        · rw [hzero, countIn, if_pos rfl, if_pos rfl]
          omega
      · rw [if_neg (Ne.symm hd), Nat.sub_zero]
        split
        · rw [countIn, if_neg hd, countIn, if_neg hd]
        · rw [countIn, if_neg hd]
    · rw [dropFrom, if_neg h, countIn, countIn,
        ih hrest fun x hx => hpos x (mem_cons_of_mem _ hx)]
      by_cases hd : holder = d
      · subst hd
        rw [if_pos rfl, if_pos rfl, if_neg h, Nat.sub_zero]
      · rw [if_neg hd, if_neg hd]

theorem countIn_filter (k d : K) (l : List (K × ℕ)) :
    countIn d (l.filter fun e => e.1 ≠ k) = if d = k then 0 else countIn d l := by
  induction l with
  | nil => simp [countIn]
  | cons e rest ih =>
    obtain ⟨holder, references⟩ := e
    by_cases h : holder = k
    · subst h
      rw [filter_cons_of_neg (by simp), ih, countIn]
      by_cases hd : d = holder
      · rw [if_pos hd, if_pos hd]
      · rw [if_neg hd, if_neg hd, if_neg (Ne.symm hd)]
    · rw [filter_cons_of_pos (by simpa using h), countIn, ih, countIn]
      by_cases hd : holder = d
      · subst hd
        rw [if_pos rfl, if_neg h, if_pos rfl]
      · rw [if_neg hd, if_neg hd]

end Holders

/-- Who holds a shared resource, and with how many references. -/
@[ext] structure Holders (K : Type u) where
  entries : List (K × ℕ)
  nodup : (entries.map Prod.fst).Nodup
  positive : ∀ e ∈ entries, 0 < e.2

namespace Holders

variable {K : Type u}

instance [DecidableEq K] : DecidableEq (Holders K) := fun a b =>
  decidable_of_iff (a.entries = b.entries) Holders.ext_iff.symm

def empty : Holders K := ⟨[], List.nodup_nil, by simp⟩

def single (k : K) : Holders K := ⟨[(k, 1)], by simp, by simp⟩

variable [DecidableEq K]

/-- The references of a holder; none for someone who is not listed. -/
def count (k : K) (h : Holders K) : ℕ := countIn k h.entries

def add (k : K) (h : Holders K) : Holders K :=
  ⟨addTo k h.entries, nodup_addTo h.nodup, positive_addTo h.positive⟩

def drop (k : K) (h : Holders K) : Holders K :=
  ⟨dropFrom k h.entries, h.nodup.sublist (keys_dropFrom k h.entries),
    positive_dropFrom h.positive⟩

/-- A holder taken off the list, with all its references. -/
def remove (k : K) (h : Holders K) : Holders K :=
  ⟨h.entries.filter fun e => e.1 ≠ k,
    h.nodup.sublist (List.filter_sublist.map Prod.fst),
    fun e he => h.positive e (List.mem_of_mem_filter he)⟩

variable (k : K)

@[simp] theorem count_empty : (empty : Holders K).count k = 0 := rfl

@[simp] theorem count_single (d : K) : (single k).count d = if k = d then 1 else 0 := rfl

/-- One reference more. -/
theorem count_add (d : K) (h : Holders K) :
    (h.add k).count d = h.count d + if d = k then 1 else 0 :=
  countIn_addTo k d h.entries

/-- One reference less. -/
theorem count_drop (d : K) (h : Holders K) :
    (h.drop k).count d = h.count d - if d = k then 1 else 0 :=
  countIn_dropFrom h.nodup h.positive k d

/-- All references of one holder gone. -/
theorem count_remove (d : K) (h : Holders K) :
    (h.remove k).count d = if d = k then 0 else h.count d :=
  countIn_filter k d h.entries

/-- Nobody is listed exactly when every count is zero. -/
theorem eq_empty_iff {h : Holders K} : h = empty ↔ ∀ k, h.count k = 0 := by
  constructor
  · rintro rfl k
    rfl
  · intro hzero
    obtain ⟨entries, hnodup, hpos⟩ := h
    cases entries with
    | nil => rfl
    | cons e rest =>
      -- the first holder listed has a reference
      have hfirst : countIn e.1 (e :: rest) = e.2 := by rw [countIn, if_pos rfl]
      have := hpos e List.mem_cons_self
      have := hzero e.1
      rw [count, hfirst] at this
      omega

theorem add_ne_empty (h : Holders K) : h.add k ≠ empty := by
  intro heq
  have := eq_empty_iff.mp heq k
  rw [count_add, if_pos rfl] at this
  omega

theorem remove_single : (single k).remove k = empty :=
  eq_empty_iff.mpr fun d => by
    rw [count_remove]
    split
    · rfl
    next h => rw [count_single, if_neg (Ne.symm h)]

end Holders
