/-
Cutting a text at a pattern, and at every separator.
-/
import Mathlib

namespace Text

open List

/-- The parts before and behind the first occurrence of a pattern. -/
def splitAt (pat : List Char) : List Char → Option (List Char × List Char)
  | [] => if pat = [] then some ([], []) else none
  | c :: cs =>
    if pat.isPrefixOf (c :: cs) then some ([], (c :: cs).drop pat.length)
    else (splitAt pat cs).map fun p => (c :: p.1, p.2)

variable {pat : List Char}

theorem splitAt_cons (c : Char) (cs : List Char) : splitAt pat (c :: cs) =
    if pat <+: c :: cs then some ([], (c :: cs).drop pat.length)
    else (splitAt pat cs).map fun p => (c :: p.1, p.2) := by
  rw [splitAt]
  by_cases h : pat <+: c :: cs
  · rw [if_pos h, if_pos (List.isPrefixOf_iff_prefix.mpr h)]
  · rw [if_neg h, if_neg fun hno => h (List.isPrefixOf_iff_prefix.mp hno)]

/-- There is no cut exactly when the pattern does not occur. -/
theorem splitAt_eq_none_iff {cs : List Char} : splitAt pat cs = none ↔ ¬ pat <:+: cs := by
  induction cs with
  | nil =>
    rw [splitAt, infix_nil]
    by_cases hpat : pat = []
    · rw [if_pos hpat]
      exact iff_of_false (fun h => nomatch h) fun h => h hpat
    · rw [if_neg hpat]
      exact iff_of_true rfl hpat
  | cons c cs ih =>
    rw [splitAt_cons, infix_cons_iff]
    by_cases hprefix : pat <+: c :: cs
    · rw [if_pos hprefix]
      exact iff_of_false (fun h => nomatch h) fun h => h (.inl hprefix)
    · rw [if_neg hprefix, Option.map_eq_none_iff, ih, or_iff_right hprefix]

theorem splitAt_inside {cs a b : List Char} (h : splitAt pat cs = some (a, b)) (more : List Char) :
    splitAt pat (cs ++ more) = some (a, b ++ more) := by
  induction cs generalizing a with
  | nil =>
    rw [splitAt] at h
    by_cases hpat : pat = []
    · rw [if_pos hpat] at h
      cases h
      cases more with
      | nil => rw [append_nil, splitAt, if_pos hpat]
      | cons d more =>
        rw [nil_append, splitAt_cons, if_pos (hpat ▸ nil_prefix), hpat]
        rfl
    · rw [if_neg hpat] at h
      exact nomatch h
  | cons c cs ih =>
    rw [splitAt_cons] at h
    rw [cons_append, splitAt_cons]
    by_cases hprefix : pat <+: c :: cs
    · rw [if_pos hprefix] at h
      cases h
      have hlen : pat.length ≤ (c :: cs).length := hprefix.length_le
      have hmore : pat <+: c :: (cs ++ more) := hprefix.trans (prefix_append (c :: cs) more)
      rw [if_pos hmore, ← cons_append, drop_append_of_le_length hlen]
    · rw [if_neg hprefix] at h
      obtain ⟨p, hp, heq⟩ := Option.map_eq_some_iff.mp h
      have hnot : ¬ pat <+: c :: (cs ++ more) := by
        intro hno
        -- the pattern would end behind the text, though it occurs further on inside it
        have hin : pat <:+: cs := by
          by_contra hout
          rw [splitAt_eq_none_iff.mpr hout] at hp
          exact nomatch hp
        have hlen := hin.length_le
        rw [← cons_append] at hno
        exact hprefix (prefix_of_prefix_length_le hno (prefix_append _ more)
          (hlen.trans (Nat.le_succ _)))
      obtain ⟨a', b'⟩ := p
      obtain ⟨rfl, rfl⟩ := Prod.ext_iff.mp heq
      rw [if_neg hnot, ih hp]
      rfl

/-- **The first occurrence** of a pattern is where it was put, when the text in front has
none and does not end in a character of it. -/
theorem splitAt_append (hne : pat ≠ []) {cs : List Char} (hcs : ¬ pat <:+: cs)
    (hlast : ∀ c ∈ cs.getLast?, c ∉ pat) (rest : List Char) :
    splitAt pat (cs ++ (pat ++ rest)) = some (cs, rest) := by
  induction cs with
  | nil =>
    obtain ⟨d, tail, rfl⟩ := exists_cons_of_ne_nil hne
    rw [nil_append, cons_append, splitAt_cons, ← cons_append,
      if_pos (prefix_append _ rest), drop_left]
  | cons d cs ih =>
    have hnot : ¬ pat <+: d :: cs ++ (pat ++ rest) := by
      intro h
      obtain hle | hlt := Nat.lt_or_ge (d :: cs).length pat.length
      · -- the text would be the beginning of the pattern, its last character with it
        have hin : d :: cs <+: pat :=
          prefix_of_prefix_length_le (prefix_append _ _) h hle.le
        exact hlast _ (List.getLast?_eq_some_getLast (cons_ne_nil d cs))
          (hin.subset (getLast_mem (cons_ne_nil d cs)))
      · exact hcs (prefix_of_prefix_length_le h (prefix_append _ _) hlt).isInfix
    have htail : splitAt pat (cs ++ (pat ++ rest)) = some (cs, rest) := by
      refine ih (fun h => hcs (h.trans (suffix_cons d cs).isInfix)) fun c hc => hlast c ?_
      rw [Option.mem_def, List.getLast?_cons, Option.mem_def.mp hc]
      rfl
    rw [cons_append, splitAt_cons, ← cons_append, if_neg hnot, htail]
    rfl

/-! ### Pieces between separators -/

section Pieces

variable {α : Type*}

def prependHead (pre : List α) : List (List α) → List (List α)
  | [] => []
  | p :: ps => (pre ++ p) :: ps

def appendLast (post : List α) : List (List α) → List (List α)
  | [] => []
  | [p] => [p ++ post]
  | p :: ps => p :: appendLast post ps

variable {ps : List (List α)} (sep : List α)

theorem appendLast_cons (post p : List α) (h : ps ≠ []) :
    appendLast post (p :: ps) = p :: appendLast post ps := by
  cases ps with
  | nil => exact absurd rfl h
  | cons q ps => rfl

theorem prependHead_append (pre : List α) (h : ps ≠ []) (qs : List (List α)) :
    prependHead pre (ps ++ qs) = prependHead pre ps ++ qs := by
  cases ps with
  | nil => exact absurd rfl h
  | cons p ps => rfl

/-- Pieces with something in front of the first. -/
theorem intercalate_prependHead (pre : List α) (h : ps ≠ []) :
    sep.intercalate (prependHead pre ps) = pre ++ sep.intercalate ps := by
  cases ps with
  | nil => exact absurd rfl h
  | cons p ps =>
    cases ps with
    | nil => simp [prependHead]
    | cons q ps =>
      rw [prependHead, intercalate_cons_cons, intercalate_cons_cons]
      simp

/-- Pieces with something behind the last. -/
theorem intercalate_appendLast (post : List α) (h : ps ≠ []) :
    sep.intercalate (appendLast post ps) = sep.intercalate ps ++ post := by
  induction ps with
  | nil => exact absurd rfl h
  | cons p ps ih =>
    cases ps with
    | nil => simp [appendLast]
    | cons q ps =>
      have hne : appendLast post (q :: ps) ≠ [] := by
        cases ps with
        | nil => exact cons_ne_nil _ _
        | cons r ps => exact cons_ne_nil _ _
      obtain ⟨q', qs, hqs⟩ := exists_cons_of_ne_nil hne
      rw [appendLast_cons post p (cons_ne_nil q ps), hqs, intercalate_cons_cons, ← hqs,
        ih (cons_ne_nil q ps), intercalate_cons_cons]
      simp

/-- The pieces of two texts, one after the other. -/
theorem intercalate_append {qs : List (List α)} (hps : ps ≠ []) (hqs : qs ≠ []) :
    sep.intercalate (ps ++ qs) = sep.intercalate ps ++ (sep ++ sep.intercalate qs) := by
  induction ps with
  | nil => exact absurd rfl hps
  | cons p ps ih =>
    cases ps with
    | nil =>
      obtain ⟨q, qs, rfl⟩ := exists_cons_of_ne_nil hqs
      rw [singleton_append, intercalate_cons_cons, intercalate_singleton,
        append_assoc]
    | cons p' ps =>
      rw [cons_append, cons_append, intercalate_cons_cons, ← cons_append,
        ih (cons_ne_nil _ _), intercalate_cons_cons]
      simp

theorem mem_intercalate {sep : List α} {x : α} (h : x ∈ sep.intercalate ps) :
    (∃ p ∈ ps, x ∈ p) ∨ x ∈ sep := by
  induction ps with
  | nil => exact absurd h not_mem_nil
  | cons p ps ih =>
    cases ps with
    | nil =>
      rw [intercalate_singleton] at h
      exact .inl ⟨p, mem_cons_self, h⟩
    | cons q ps =>
      rw [intercalate_cons_cons, mem_append, mem_append] at h
      obtain (h | h) | h := h
      · exact .inl ⟨p, mem_cons_self, h⟩
      · exact .inr h
      · exact (ih h).imp_left fun ⟨r, hr, hx⟩ => ⟨r, mem_cons_of_mem _ hr, hx⟩

theorem mem_intercalate_of_mem {p : List α} (hp : p ∈ ps) {x : α}
    (hx : x ∈ p) : x ∈ sep.intercalate ps := by
  induction ps with
  | nil => exact absurd hp not_mem_nil
  | cons q ps ih =>
    cases ps with
    | nil =>
      rw [intercalate_singleton, ← List.mem_singleton.mp hp]
      exact hx
    | cons r ps =>
      rw [intercalate_cons_cons, mem_append, mem_append]
      obtain rfl | hp := List.mem_cons.mp hp
      · exact .inl (.inl hx)
      · exact .inr (ih hp)

end Pieces

end Text
