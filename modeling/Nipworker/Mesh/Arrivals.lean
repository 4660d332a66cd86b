/-
Fragments arriving from several messages at once.

What a list of arrivals amounts to, before any data structure: which messages
are complete, which are unfinished, how many bytes are held for them and since
when; and what one further arrival changes.
-/
import Mathlib

namespace Nipworker

open List Option

/-- A write arrives: fragment `fragment` of message `message`, counted from
zero, at time `time`. -/
structure Arrival where
  message : ℕ
  fragment : ℕ
  time : ℕ
  deriving DecidableEq, Repr

namespace Arrival

/-! ### What has arrived -/

/-- Fragment `j` of message `k` has arrived. -/
def Arrived (seen : List Arrival) (k j : ℕ) : Prop :=
  ∃ a ∈ seen, a.message = k ∧ a.fragment = j

instance (seen : List Arrival) (k j : ℕ) : Decidable (Arrived seen k j) :=
  inferInstanceAs (Decidable (∃ a ∈ seen, a.message = k ∧ a.fragment = j))

/-- Some fragment of message `k` has arrived. -/
def Started (seen : List Arrival) (k : ℕ) : Prop := ∃ a ∈ seen, a.message = k

instance (seen : List Arrival) (k : ℕ) : Decidable (Started seen k) :=
  inferInstanceAs (Decidable (∃ a ∈ seen, a.message = k))

/-- When the first fragment of message `k` arrived. -/
def firstAt (seen : List Arrival) (k : ℕ) : ℕ :=
  ((seen.find? fun a => a.message = k).map time).getD 0

section Parts

variable (parts : ℕ → ℕ) (weight : ℕ → ℕ → ℕ)

/-- All fragments of message `k` have arrived. -/
def Complete (seen : List Arrival) (k : ℕ) : Prop := ∀ j < parts k, Arrived seen k j

instance (seen : List Arrival) (k : ℕ) : Decidable (Complete parts seen k) :=
  inferInstanceAs (Decidable (∀ j < parts k, Arrived seen k j))

/-- Message `k` has started and is not complete. -/
def Unfinished (seen : List Arrival) (k : ℕ) : Prop :=
  Started seen k ∧ ¬ Complete parts seen k

instance (seen : List Arrival) (k : ℕ) : Decidable (Unfinished parts seen k) :=
  inferInstanceAs (Decidable (_ ∧ _))

/-- The bytes of the fragments of message `k` that have arrived, each counted
once. -/
def held (seen : List Arrival) (k : ℕ) : ℕ :=
  ∑ j ∈ Finset.range (parts k), if Arrived seen k j then weight k j else 0

/-- The messages under assembly when `a` comes in: the unfinished ones and the
one it belongs to. -/
def assembling (n : ℕ) (seen : List Arrival) (a : Arrival) : Finset ℕ :=
  (Finset.range n).filter fun k => Unfinished parts seen k ∨ k = a.message

/-- `a` is a fragment of one of the `n` messages, and its message is not
complete yet. -/
def Expected (n : ℕ) (seen : List Arrival) (a : Arrival) : Prop :=
  a.message < n ∧ a.fragment < parts a.message ∧ ¬ Complete parts seen a.message

instance (n : ℕ) (seen : List Arrival) (a : Arrival) : Decidable (Expected parts n seen a) :=
  inferInstanceAs (Decidable (_ ∧ _ ∧ _))

end Parts

/-- A property of every arrival and of what came before it. -/
def Along (p : List Arrival → Arrival → Prop) (arrivals : List Arrival) : Prop :=
  ∀ i, ∀ _ : i < arrivals.length, p (arrivals.take i) arrivals[i]

instance (p : List Arrival → Arrival → Prop) [∀ seen a, Decidable (p seen a)]
    (arrivals : List Arrival) : Decidable (Along p arrivals) :=
  inferInstanceAs (Decidable (∀ i, ∀ _ : i < arrivals.length, p (arrivals.take i) arrivals[i]))

variable {parts : ℕ → ℕ} {weight : ℕ → ℕ → ℕ} {seen : List Arrival} {a : Arrival} {k j : ℕ}

theorem arrived_append :
    Arrived (seen ++ [a]) k j ↔ Arrived seen k j ∨ (a.message = k ∧ a.fragment = j) := by
  simp [Arrived, or_and_right, exists_or]

theorem started_append : Started (seen ++ [a]) k ↔ Started seen k ∨ a.message = k := by
  simp [Started, or_and_right, exists_or]

theorem Arrived.started (h : Arrived seen k j) : Started seen k := by
  obtain ⟨a, hmem, hk, -⟩ := h
  exact ⟨a, hmem, hk⟩

theorem arrived_append_of_ne (h : a.message ≠ k) :
    Arrived (seen ++ [a]) k j ↔ Arrived seen k j := by
  rw [arrived_append, or_iff_left fun hk => h hk.1]

/-- An arrival completes no other message. -/
theorem complete_append_of_ne (h : a.message ≠ k) :
    Complete parts (seen ++ [a]) k ↔ Complete parts seen k :=
  forall₂_congr fun _ _ => arrived_append_of_ne h

theorem unfinished_append_of_ne (h : a.message ≠ k) :
    Unfinished parts (seen ++ [a]) k ↔ Unfinished parts seen k := by
  rw [Unfinished, Unfinished, complete_append_of_ne h, started_append, or_iff_left h]

/-- An arrival adds nothing to other messages. -/
theorem held_append_of_ne (h : a.message ≠ k) :
    held parts weight (seen ++ [a]) k = held parts weight seen k :=
  Finset.sum_congr rfl fun _ _ => if_congr (arrived_append_of_ne h) rfl rfl

theorem arrived_append_of_arrived (h : Arrived seen a.message a.fragment) :
    Arrived (seen ++ [a]) k j ↔ Arrived seen k j := by
  rw [arrived_append, or_iff_left_iff_imp]
  rintro ⟨rfl, rfl⟩
  exact h

/-- A new fragment adds its bytes. -/
theorem held_append_of_new (hj : a.fragment < parts a.message)
    (hnew : ¬ Arrived seen a.message a.fragment) :
    held parts weight (seen ++ [a]) a.message
      = held parts weight seen a.message + weight a.message a.fragment := by
  have hmem : a.fragment ∈ Finset.range (parts a.message) := Finset.mem_range.mpr hj
  rw [held, held, ← Finset.add_sum_erase _ _ hmem, ← Finset.add_sum_erase _ _ hmem,
    if_pos (arrived_append.mpr (.inr ⟨rfl, rfl⟩)), if_neg hnew]
  have hrest : ∀ j ∈ (Finset.range (parts a.message)).erase a.fragment,
      (if Arrived (seen ++ [a]) a.message j then weight a.message j else 0)
        = if Arrived seen a.message j then weight a.message j else 0 := by
    intro j hj
    have hne : a.fragment ≠ j := (Finset.ne_of_mem_erase hj).symm
    exact if_congr (arrived_append.trans (or_iff_left fun h => hne h.2)) rfl rfl
  rw [Finset.sum_congr rfl hrest]
  omega

theorem held_of_not_started (h : ¬ Started seen k) : held parts weight seen k = 0 :=
  Finset.sum_eq_zero fun _ _ => if_neg fun harr => h harr.started

theorem held_of_complete (h : Complete parts seen k) :
    held parts weight seen k = ∑ j ∈ Finset.range (parts k), weight k j :=
  Finset.sum_congr rfl fun j hj => if_pos (h j (Finset.mem_range.mp hj))

theorem firstAt_append_of_started (h : Started seen k) :
    firstAt (seen ++ [a]) k = firstAt seen k := by
  obtain ⟨b, hmem, hk⟩ := h
  have hfound : (seen.find? fun a => a.message = k).isSome := by
    rw [List.find?_isSome]
    exact ⟨b, hmem, decide_eq_true hk⟩
  obtain ⟨c, hc⟩ := Option.isSome_iff_exists.mp hfound
  rw [firstAt, firstAt, List.find?_append, hc, some_or]

theorem firstAt_append_of_not_started (h : ¬ Started seen a.message) :
    firstAt (seen ++ [a]) a.message = a.time := by
  have hnone : (seen.find? fun b => b.message = a.message) = none := by
    rw [List.find?_eq_none]
    intro b hb heq
    exact h ⟨b, hb, of_decide_eq_true heq⟩
  rw [firstAt, List.find?_append, hnone, none_or, List.find?_cons_of_pos]
  · rfl
  · exact decide_eq_true rfl

theorem firstAt_append_of_ne (h : a.message ≠ k) : firstAt (seen ++ [a]) k = firstAt seen k := by
  rw [firstAt, firstAt, List.find?_append, List.find?_cons_of_neg (by simpa using h),
    List.find?_nil, or_none]

variable {arrivals : List Arrival}

theorem Along.split {p : List Arrival → Arrival → Prop}
    (h : Along p arrivals) {rest : List Arrival} (hsplit : arrivals = seen ++ a :: rest) :
    p seen a := by
  have hp := h seen.length (by rw [hsplit, length_append, length_cons]; omega)
  have htake : arrivals.take seen.length = seen := by rw [hsplit, take_left]
  have hget : arrivals[seen.length]? = some a := by
    rw [hsplit, List.getElem?_append_right le_rfl, Nat.sub_self, List.getElem?_cons_zero]
  rw [htake] at hp
  rwa [← some.inj ((List.getElem?_eq_getElem _).symm.trans hget)]

theorem along_cons {p : List Arrival → Arrival → Prop} {seen : List Arrival} {a : Arrival}
    {rest : List Arrival} (h : ∀ mid b tail, a :: rest = mid ++ b :: tail → p (seen ++ mid) b) :
    p seen a ∧ ∀ mid b tail, rest = mid ++ b :: tail → p (seen ++ [a] ++ mid) b := by
  constructor
  · simpa using h [] a rest rfl
  · intro mid b tail hrest
    have := h (a :: mid) b tail (by rw [hrest, cons_append])
    rwa [append_assoc]

/-- A message becomes complete with one of its own fragments. -/
theorem exists_completing {parts : ℕ → ℕ} {k : ℕ} (hparts : 0 < parts k)
    (h : Complete parts arrivals k) :
    ∃ (i : ℕ) (a : Arrival), arrivals[i]? = some a ∧ a.message = k
      ∧ Complete parts (arrivals.take (i + 1)) k := by
  have hex : ∃ m, Complete parts (arrivals.take m) k := ⟨arrivals.length, by rwa [take_length]⟩
  have hspec := Nat.find_spec hex
  have hmin := fun m (hm : m < Nat.find hex) => Nat.find_min hex hm
  rcases hfind : Nat.find hex with _ | i
  · -- nothing is complete before the first arrival
    rw [hfind, take_zero] at hspec
    obtain ⟨a, hmem, -⟩ := hspec 0 hparts
    exact absurd hmem not_mem_nil
  · rw [hfind] at hspec hmin
    have hbefore := hmin i (Nat.lt_succ_self i)
    rcases hi : arrivals[i]? with _ | a
    · rw [take_add_one, hi] at hspec
      exact absurd (by simpa using hspec) hbefore
    · refine ⟨i, a, hi, ?_, hspec⟩
      by_contra hne
      have htake : arrivals.take (i + 1) = arrivals.take i ++ [a] := by
        rw [take_add_one, hi]
        rfl
      rw [htake, complete_append_of_ne hne] at hspec
      exact hbefore hspec

theorem Complete.mono {parts : ℕ → ℕ} {k i i' : ℕ} (hle : i ≤ i')
    (h : Complete parts (arrivals.take i) k) : Complete parts (arrivals.take i') k := by
  intro j hj
  obtain ⟨a, hmem, hk⟩ := h j hj
  exact ⟨a, (take_subset_take_left arrivals hle) hmem, hk⟩

end Arrival

end Nipworker
