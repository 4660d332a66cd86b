/-
Splitting text at a separator, searching it, and decimal numerals.
-/
import Mathlib

namespace Text

open List

/-- Cut a text at the first occurrence of `c`; `none` when there is none. -/
def splitOnce (c : Char) : List Char → Option (List Char × List Char)
  | [] => none
  | x :: xs =>
    if x = c then some ([], xs)
    else (splitOnce c xs).map fun p => (x :: p.1, p.2)

/-- Cutting at the first separator, exactly. -/
theorem splitOnce_eq_some {c : Char} : ∀ {l a b : List Char},
    splitOnce c l = some (a, b) ↔ l = a ++ c :: b ∧ c ∉ a := by
  intro l
  induction l with
  | nil =>
    intro a b
    simp [splitOnce]
  | cons x xs ih =>
    intro a b
    rw [splitOnce]
    by_cases hx : x = c
    · rw [if_pos hx]
      subst hx
      constructor
      · rintro h
        cases h
        simp
      · rintro ⟨h, hc⟩
        rcases a with _ | ⟨y, a⟩
        · simp at h
          rw [h]
        · simp only [cons_append, List.cons.injEq] at h
          exact absurd (h.1 ▸ mem_cons_self) hc
    · rw [if_neg hx]
      constructor
      · intro h
        obtain ⟨⟨a', b'⟩, hp, heq⟩ := Option.map_eq_some_iff.mp h
        cases heq
        obtain ⟨h1, h2⟩ := ih.mp hp
        refine ⟨by rw [h1]; rfl, ?_⟩
        simpa [h2] using Ne.symm hx
      · rintro ⟨h, hc⟩
        rcases a with _ | ⟨y, a⟩
        · simp only [nil_append, List.cons.injEq] at h
          exact absurd h.1 hx
        · simp only [cons_append, List.cons.injEq] at h
          obtain ⟨rfl, h⟩ := h
          rw [ih.mpr ⟨h, fun hm => hc (mem_cons_of_mem _ hm)⟩]
          rfl

/-- `splitn(3, c)` when it yields three fields. -/
def splitn3 (c : Char) (s : String) : Option (String × String × String) := do
  let (a, rest) ← splitOnce c s.toList
  let (b, d) ← splitOnce c rest
  some (String.ofList a, String.ofList b, String.ofList d)

/-- Cutting into three fields, the last one free to hold further separators. -/
theorem splitn3_eq_some {c : Char} {s x y z : String} :
    splitn3 c s = some (x, y, z) ↔
      s.toList = x.toList ++ c :: (y.toList ++ c :: z.toList) ∧
        c ∉ x.toList ∧ c ∉ y.toList := by
  rw [splitn3]
  simp only [Option.bind_eq_bind, Option.bind_eq_some_iff, Option.some.injEq, Prod.mk.injEq]
  constructor
  · rintro ⟨⟨a, rest⟩, ha, ⟨b, d⟩, hb, rfl, rfl, rfl⟩
    obtain ⟨h1, h2⟩ := splitOnce_eq_some.mp ha
    obtain ⟨h3, h4⟩ : rest = b ++ c :: d ∧ c ∉ b := splitOnce_eq_some.mp hb
    simp only [String.toList_ofList]
    exact ⟨by rw [h1, h3], h2, h4⟩
  · rintro ⟨h, hx, hy⟩
    refine ⟨(x.toList, y.toList ++ c :: z.toList), splitOnce_eq_some.mpr ⟨h, hx⟩,
      (y.toList, z.toList), splitOnce_eq_some.mpr ⟨rfl, hy⟩, ?_⟩
    simp only [String.ofList_toList, and_self]

/-- What follows the first occurrence of `pat`: `str::find` and the slice after
the match. -/
def afterFirst (pat : List Char) : List Char → Option (List Char)
  | [] => if pat = [] then some [] else none
  | c :: cs =>
    if pat.isPrefixOf (c :: cs) then some ((c :: cs).drop pat.length) else afterFirst pat cs

/-- The Unicode `White_Space` property. -/
def isWhitespace (c : Char) : Bool :=
  (9 ≤ c.toNat ∧ c.toNat ≤ 13) ∨ c.toNat = 0x20 ∨ c.toNat = 0x85 ∨ c.toNat = 0xA0 ∨
    c.toNat = 0x1680 ∨ (0x2000 ≤ c.toNat ∧ c.toNat ≤ 0x200A) ∨ c.toNat = 0x2028 ∨
    c.toNat = 0x2029 ∨ c.toNat = 0x202F ∨ c.toNat = 0x205F ∨ c.toNat = 0x3000

/-- Drop the characters with `p` from both ends (`str::trim_matches`). -/
def trimMatches (p : Char → Bool) (cs : List Char) : List Char :=
  ((cs.dropWhile p).reverse.dropWhile p).reverse

def trim (cs : List Char) : List Char := trimMatches isWhitespace cs

theorem mem_of_mem_trim {cs : List Char} {c : Char} (h : c ∈ trim cs) : c ∈ cs := by
  rw [trim, trimMatches, mem_reverse] at h
  have hback := (dropWhile_sublist _).subset h
  rw [mem_reverse] at hback
  exact (dropWhile_sublist _).subset hback

theorem trim_of_ends {c d : Char} {cs : List Char} (hc : isWhitespace c = false)
    (hd : isWhitespace d = false) : trim (c :: (cs ++ [d])) = c :: (cs ++ [d]) := by
  have hback : (c :: (cs ++ [d])).reverse = d :: (cs.reverse ++ [c]) := by simp
  rw [trim, trimMatches, dropWhile_cons_of_neg (by simp [hc]), hback,
    dropWhile_cons_of_neg (by simp [hd]), ← hback, reverse_reverse]

theorem trim_eq_nil_iff {cs : List Char} : trim cs = [] ↔ ∀ c ∈ cs, isWhitespace c = true := by
  rw [trim, trimMatches, reverse_eq_nil_iff, dropWhile_eq_nil_iff]
  constructor
  · intro h
    have hdrop : cs.dropWhile isWhitespace = [] := by
      by_contra hne
      -- the first character that is left is no whitespace, and it is left at both ends
      have hhead := head_dropWhile_not isWhitespace hne
      rw [h _ (List.mem_reverse.mpr (head_mem hne))] at hhead
      exact absurd hhead (by decide)
    exact List.dropWhile_eq_nil_iff.mp hdrop
  · intro h c hc
    rw [mem_reverse] at hc
    exact h c ((dropWhile_sublist _).subset hc)

def parseDecimal (cs : List Char) : Option ℕ :=
  if cs ≠ [] ∧ cs.all Char.isDigit then some (Nat.ofDigitChars 10 cs 0) else none

/-- Reading back a printed number. -/
theorem parseDecimal_toDigits (n : ℕ) : parseDecimal (Nat.toDigits 10 n) = some n := by
  have hne : Nat.toDigits 10 n ≠ [] :=
    List.length_pos_iff.mp Nat.length_toDigits_pos
  have hall : (Nat.toDigits 10 n).all Char.isDigit = true :=
    List.all_eq_true.mpr fun c hc =>
      Nat.isDigit_of_mem_toDigits (by decide) (by decide) hc
  rw [parseDecimal, if_pos ⟨hne, hall⟩, Nat.ofDigitChars_ten_toDigits]

end Text
