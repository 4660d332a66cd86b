/-
Selecting the largest elements of a list.

`select_nth_unstable_by` of the Rust standard library puts one element in its
sorted place, everything larger in front of it and everything smaller behind,
and says nothing about the order within the two parts.  `SelectNth` is that
contract.
-/
import Mathlib

universe u v

variable {α : Type u} {β : Type v}

/-- `select_nth_unstable_by` with a comparison by descending key. -/
structure SelectNth (α : Type u) (key : α → ℕ) where
  select : ℕ → List α → List α
  perm : ∀ n xs, (select n xs).Perm xs
  split : ∀ n xs, n < xs.length → ∀ a ∈ (select n xs).take (n + 1),
    ∀ b ∈ (select n xs).drop (n + 1), key b ≤ key a

instance total_key (key : α → ℕ) : Std.Total fun a b : α => key b ≤ key a :=
  ⟨fun a b => le_total (key b) (key a)⟩

instance isTrans_key (key : α → ℕ) : IsTrans α fun a b : α => key b ≤ key a :=
  ⟨fun _ _ _ hab hbc => hbc.trans hab⟩

def sortDesc (key : α → ℕ) (xs : List α) : List α :=
  List.insertionSort (fun a b => key b ≤ key a) xs

theorem perm_sortDesc (key : α → ℕ) (xs : List α) : (sortDesc key xs).Perm xs :=
  List.perm_insertionSort _ _

theorem pairwise_sortDesc (key : α → ℕ) (xs : List α) :
    (sortDesc key xs).Pairwise fun a b => key b ≤ key a :=
  List.pairwise_insertionSort _ _

def SelectNth.sort (key : α → ℕ) : SelectNth α key where
  select _ xs := sortDesc key xs
  perm _ xs := perm_sortDesc key xs
  split n xs _ a ha b hb := by
    have hpw := pairwise_sortDesc key xs
    rw [← List.take_append_drop (n + 1) (sortDesc key xs), List.pairwise_append] at hpw
    exact hpw.2.2 a ha b hb

/-- `chosen` are `min k n` of the `n` elements of a list, and no element that
was left out is larger than one of them. -/
def TopOf (key : α → ℕ) (k : ℕ) (chosen xs : List α) : Prop :=
  chosen.length = min k xs.length ∧
    ∃ rest, (chosen ++ rest).Perm xs ∧ ∀ a ∈ chosen, ∀ b ∈ rest, key b ≤ key a

variable {key : α → ℕ} {xs : List α}

theorem TopOf.of_perm {k : ℕ} {chosen chosen' xs' : List α}
    (h : TopOf key k chosen xs) (hchosen : chosen'.Perm chosen) (hxs : xs.Perm xs') :
    TopOf key k chosen' xs' := by
  obtain ⟨hlen, rest, hperm, hmax⟩ := h
  refine ⟨by rw [hchosen.length_eq, hlen, hxs.length_eq], rest,
    (hchosen.append_right rest).trans (hperm.trans hxs), ?_⟩
  intro a ha b hb
  exact hmax a (hchosen.mem_iff.mp ha) b hb

/-- Keep at most `limit` elements, the largest ones. -/
def applyLimit {key : α → ℕ} (sel : SelectNth α key) (limit : Option ℕ) (xs : List α) : List α :=
  match limit with
  | none => xs
  | some limit =>
    if limit = 0 then []
    else if xs.length > limit then (sel.select (limit - 1) xs).take limit
    else xs

/-- Cutting off behind the selected element leaves the largest ones, whichever way the
selection is done. -/
theorem topOf_applyLimit (sel : SelectNth α key) (limit : Option ℕ) (xs : List α) :
    TopOf key (limit.getD xs.length) (applyLimit sel limit xs) xs := by
  have hall : TopOf key xs.length xs xs :=
    ⟨by omega, [], by rw [List.append_nil], fun _ _ b hb => absurd hb List.not_mem_nil⟩
  rcases limit with _ | limit
  · exact hall
  · unfold applyLimit
    rw [Option.getD_some]
    dsimp only
    by_cases hzero : limit = 0
    · rw [if_pos hzero]
      exact ⟨by rw [hzero]; simp, xs, .refl _, fun a ha => absurd ha List.not_mem_nil⟩
    · rw [if_neg hzero]
      by_cases hlong : xs.length > limit
      · rw [if_pos hlong]
        have hsplit := sel.split (limit - 1) xs (by omega)
        rw [Nat.sub_add_cancel (by omega)] at hsplit
        refine ⟨?_, (sel.select (limit - 1) xs).drop limit, ?_, hsplit⟩
        · rw [List.length_take, (sel.perm _ _).length_eq]
        · rw [List.take_append_drop]
          exact sel.perm _ _
      · rw [if_neg hlong]
        refine ⟨by omega, hall.2⟩

/-- A rearrangement of an image is the image of a rearrangement. -/
theorem exists_perm_of_perm_map {f : α → β} {ys : List β} (h : ys.Perm (xs.map f)) :
    ∃ zs : List α, zs.Perm xs ∧ ys = zs.map f := by
  have hrel : List.Forall₂ (fun b a => b = f a) (xs.map f) xs := by
    rw [List.forall₂_map_left_iff, List.forall₂_same]
    exact fun _ _ => rfl
  obtain ⟨zs, hzs, hperm⟩ := List.perm_comp_forall₂ h hrel
  refine ⟨zs, hperm, ?_⟩
  rw [← List.forall₂_eq_eq_eq, List.forall₂_map_right_iff]
  exact hzs

theorem TopOf.exists_of_map {key : β → ℕ} {f : α → β} {k : ℕ} {ys : List β}
    (h : TopOf key k ys (xs.map f)) :
    ∃ chosen, ys = chosen.map f ∧ TopOf (fun x => key (f x)) k chosen xs := by
  obtain ⟨hlen, rest, hperm, hmax⟩ := h
  obtain ⟨zs, hzs, hmap⟩ := exists_perm_of_perm_map hperm
  obtain ⟨chosen, rest', rfl, rfl, rfl⟩ := List.append_eq_map_iff.mp hmap
  refine ⟨chosen, rfl, ?_, rest', hzs, ?_⟩
  · rw [List.length_map, List.length_map] at hlen
    exact hlen
  · intro a ha b hb
    exact hmax _ (List.mem_map_of_mem ha) _ (List.mem_map_of_mem hb)

theorem TopOf.subset {k : ℕ} {chosen : List α} (h : TopOf key k chosen xs) :
    ∀ a ∈ chosen, a ∈ xs := by
  obtain ⟨-, rest, hperm, -⟩ := h
  exact fun a ha => hperm.mem_iff.mp (List.mem_append_left rest ha)

theorem TopOf.congr_key {key' : α → ℕ} {k : ℕ} {chosen : List α}
    (h : TopOf key k chosen xs) (hkey : ∀ a ∈ xs, key a = key' a) : TopOf key' k chosen xs := by
  obtain ⟨hlen, rest, hperm, hmax⟩ := h
  refine ⟨hlen, rest, hperm, ?_⟩
  intro a ha b hb
  rw [← hkey a (hperm.mem_iff.mp (List.mem_append_left _ ha)),
    ← hkey b (hperm.mem_iff.mp (List.mem_append_right _ hb))]
  exact hmax a ha b hb
