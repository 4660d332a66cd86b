/-
Strings as JavaScript has them: lists of UTF-16 code units, read by index.
-/
import Mathlib

namespace Js

open List

/-- A string of code units. -/
abbrev JsString := List UInt16

instance : LawfulBEq JsString := inferInstance

def unit (c : Char) : UInt16 := UInt16.ofNat c.toNat

def units (cs : List Char) : JsString := cs.map unit

@[simp] theorem units_nil : units [] = [] := rfl

theorem units_cons (c : Char) (cs : List Char) : units (c :: cs) = unit c :: units cs := rfl

theorem units_append (cs ds : List Char) : units (cs ++ ds) = units cs ++ units ds :=
  map_append

theorem length_units (cs : List Char) : (units cs).length = cs.length := length_map _

theorem toNat_unit {c : Char} (h : c.toNat < 65536) : (unit c).toNat = c.toNat := by
  rw [unit, UInt16.toNat_ofNat']
  exact Nat.mod_eq_of_lt h

/-- `String.prototype.charCodeAt`; `none` is the `NaN` behind the end. -/
def charCodeAt (s : JsString) (i : ℕ) : Option UInt16 := s[i]?

/-- `String.prototype.slice`, for positions counted from the start. -/
def slice (s : JsString) (start stop : ℕ) : JsString := (s.take stop).drop start

/-- `String.prototype.startsWith` with a position. -/
def startsWith (s part : JsString) (i : ℕ) : Bool := part.isPrefixOf (s.drop i)

theorem charCodeAt_lt {s : JsString} {i : ℕ} {c : UInt16} (h : charCodeAt s i = some c) :
    i < s.length := (List.getElem?_eq_some_iff.mp h).1

/-- `rest` is what is left at the position. -/
def At (s : JsString) (i : ℕ) (rest : JsString) : Prop :=
  ∃ before, s = before ++ rest ∧ i = before.length

variable {s rest : JsString} {i : ℕ}

theorem at_zero (s : JsString) : At s 0 s := ⟨[], rfl, rfl⟩

theorem At.length (h : At s i rest) : i + rest.length = s.length := by
  obtain ⟨before, rfl, rfl⟩ := h
  rw [length_append]

theorem At.drop (h : At s i rest) : s.drop i = rest := by
  obtain ⟨before, rfl, rfl⟩ := h
  rw [drop_left' rfl]

theorem At.advance (part : JsString) (h : At s i (part ++ rest)) :
    At s (i + part.length) rest := by
  obtain ⟨before, rfl, rfl⟩ := h
  exact ⟨before ++ part, by rw [append_assoc], by rw [length_append]⟩

theorem At.next {c : UInt16} (h : At s i (c :: rest)) : At s (i + 1) rest := h.advance [c]

theorem At.charCodeAt_cons {c : UInt16} (h : At s i (c :: rest)) : charCodeAt s i = some c := by
  obtain ⟨before, rfl, rfl⟩ := h
  rw [charCodeAt, List.getElem?_append_right le_rfl, Nat.sub_self, List.getElem?_cons_zero]

theorem At.charCodeAt_nil (h : At s i []) : charCodeAt s i = none := by
  rw [charCodeAt, List.getElem?_eq_none]
  have := h.length
  rw [length_nil] at this
  omega

/-- **A part of a text is cut out.** -/
theorem At.slice_eq {part : JsString} {stop : ℕ} (h : At s i (part ++ rest))
    (hstop : At s stop rest) : slice s i stop = part := by
  have hlen := (h.advance part).length
  have hlen' := hstop.length
  obtain ⟨before, rfl, rfl⟩ := h
  have hstop' : stop = (before ++ part).length := by
    rw [length_append]
    omega
  rw [slice, hstop', ← append_assoc, take_left' rfl, drop_left' rfl]

theorem At.startsWith_eq (part : JsString) (h : At s i rest) :
    startsWith s part i = part.isPrefixOf rest := by rw [startsWith, h.drop]

/-! ### Characters -/

def isLead (u : UInt16) : Bool := 0xD800 ≤ u ∧ u < 0xDC00

def isTrail (u : UInt16) : Bool := 0xDC00 ≤ u ∧ u < 0xE000

def pairChar (lead trail : UInt16) : Char :=
  Char.ofNat (0x10000 + (lead.toNat - 0xD800) * 0x400 + (trail.toNat - 0xDC00))

def utf16 (c : Char) : JsString :=
  if c.toNat < 0x10000 then [UInt16.ofNat c.toNat]
  else [UInt16.ofNat (0xD800 + (c.toNat - 0x10000) / 0x400),
    UInt16.ofNat (0xDC00 + (c.toNat - 0x10000) % 0x400)]

/-- A text of Unicode characters, in code units. -/
def ofChars (cs : List Char) : JsString := cs.flatMap utf16

/-- `String.prototype.isWellFormed`: no half of a pair stands alone. -/
def isWellFormed : JsString → Bool
  | [] => true
  | [u] => !(isLead u || isTrail u)
  | u :: v :: rest =>
    if isLead u && isTrail v then isWellFormed rest
    else !(isLead u || isTrail u) && isWellFormed (v :: rest)

/-- The characters of a string; the replacement character stands for a half of a pair. -/
def scalars : JsString → List Char
  | [] => []
  | [u] => [if isLead u || isTrail u then Char.ofNat 0xFFFD else Char.ofNat u.toNat]
  | u :: v :: rest =>
    if isLead u && isTrail v then pairChar u v :: scalars rest
    else (if isLead u || isTrail u then Char.ofNat 0xFFFD else Char.ofNat u.toNat) ::
      scalars (v :: rest)

theorem isLead_iff (u : UInt16) : isLead u = true ↔ 0xD800 ≤ u.toNat ∧ u.toNat < 0xDC00 := by
  rw [isLead, decide_eq_true_eq, UInt16.le_iff_toNat_le, UInt16.lt_iff_toNat_lt]
  exact Iff.rfl

theorem isTrail_iff (u : UInt16) : isTrail u = true ↔ 0xDC00 ≤ u.toNat ∧ u.toNat < 0xE000 := by
  rw [isTrail, decide_eq_true_eq, UInt16.le_iff_toNat_le, UInt16.lt_iff_toNat_lt]
  exact Iff.rfl

theorem char_ranges (c : Char) : c.toNat < 0xD800 ∨ 0xE000 ≤ c.toNat ∧ c.toNat < 0x110000 := by
  rcases c.valid with h | h
  · exact .inl h
  · exact .inr ⟨h.1, h.2⟩

theorem toNat_ofNat_char {n : ℕ} (h : n < 0xD800 ∨ 0xE000 ≤ n ∧ n < 0x110000) :
    (Char.ofNat n).toNat = n := by
  rw [Char.toNat_ofNat, if_pos]
  rcases h with h | h
  · exact .inl h
  · exact .inr ⟨by omega, h.2⟩

theorem utf16_low {c : Char} (h : c.toNat < 0x10000) :
    utf16 c = [unit c] ∧ isLead (unit c) = false ∧ isTrail (unit c) = false := by
  have hrange := char_ranges c
  refine ⟨if_pos h, ?_, ?_⟩
  · rw [← Bool.not_eq_true, isLead_iff, toNat_unit h]
    omega
  · rw [← Bool.not_eq_true, isTrail_iff, toNat_unit h]
    omega

theorem utf16_high {c : Char} (h : ¬ c.toNat < 0x10000) :
    ∃ u v, utf16 c = [u, v] ∧ isLead u = true ∧ isTrail v = true ∧ pairChar u v = c := by
  have hrange := char_ranges c
  have hu : (UInt16.ofNat (0xD800 + (c.toNat - 0x10000) / 0x400)).toNat =
      0xD800 + (c.toNat - 0x10000) / 0x400 := by
    rw [UInt16.toNat_ofNat']
    omega
  have hv : (UInt16.ofNat (0xDC00 + (c.toNat - 0x10000) % 0x400)).toNat =
      0xDC00 + (c.toNat - 0x10000) % 0x400 := by
    rw [UInt16.toNat_ofNat']
    omega
  refine ⟨_, _, if_neg h, ?_, ?_, ?_⟩
  · rw [isLead_iff, hu]
    omega
  · rw [isTrail_iff, hv]
    omega
  · rw [pairChar, hu, hv, ← Char.toNat_inj, toNat_ofNat_char (by omega)]
    omega

theorem scalars_cons {u : UInt16} (hlead : isLead u = false) (htrail : isTrail u = false)
    (s : JsString) : scalars (u :: s) = Char.ofNat u.toNat :: scalars s := by
  cases s with
  | nil => simp only [scalars, hlead, htrail, Bool.or_self, Bool.false_eq_true, if_false]
  | cons v s =>
    rw [scalars, hlead, htrail, Bool.false_and, Bool.or_self, if_neg Bool.false_ne_true,
      if_neg Bool.false_ne_true]

theorem utf16_ofNat {u : UInt16} (hlead : isLead u = false) (htrail : isTrail u = false) :
    utf16 (Char.ofNat u.toNat) = [u] := by
  have hlt : u.toNat < 65536 := u.toNat_lt
  rw [← Bool.not_eq_true, isLead_iff] at hlead
  rw [← Bool.not_eq_true, isTrail_iff] at htrail
  have hnat : (Char.ofNat u.toNat).toNat = u.toNat := toNat_ofNat_char (by omega)
  rw [utf16, hnat, if_pos hlt, UInt16.ofNat_toNat]

theorem utf16_pairChar {u v : UInt16} (hlead : isLead u = true) (htrail : isTrail v = true) :
    utf16 (pairChar u v) = [u, v] := by
  rw [isLead_iff] at hlead
  rw [isTrail_iff] at htrail
  have hnat : (pairChar u v).toNat =
      0x10000 + (u.toNat - 0xD800) * 0x400 + (v.toNat - 0xDC00) := toNat_ofNat_char (by omega)
  have hu : 0xD800 + ((pairChar u v).toNat - 0x10000) / 0x400 = u.toNat := by omega
  have hv : 0xDC00 + ((pairChar u v).toNat - 0x10000) % 0x400 = v.toNat := by omega
  rw [utf16, if_neg (by omega), hu, hv, UInt16.ofNat_toNat, UInt16.ofNat_toNat]

theorem ofChars_scalars {s : JsString} (h : isWellFormed s = true) : ofChars (scalars s) = s := by
  induction s using scalars.induct with
  | case1 => rfl
  | case2 u =>
    rw [isWellFormed, Bool.not_eq_true'] at h
    rw [scalars, h, if_neg Bool.false_ne_true]
    rw [Bool.or_eq_false_iff] at h
    exact congrArg (· ++ []) (utf16_ofNat h.1 h.2)
  | case3 u v rest hpair ih =>
    rw [isWellFormed, if_pos hpair] at h
    rw [Bool.and_eq_true] at hpair
    rw [scalars, if_pos (Bool.and_eq_true_iff.mpr hpair)]
    show utf16 (pairChar u v) ++ ofChars (scalars rest) = _
    rw [utf16_pairChar hpair.1 hpair.2, ih h]
    rfl
  | case4 u v rest hpair ih =>
    rw [isWellFormed, if_neg hpair, Bool.and_eq_true, Bool.not_eq_true'] at h
    rw [scalars, if_neg hpair, h.1, if_neg Bool.false_ne_true]
    have hor := Bool.or_eq_false_iff.mp h.1
    show utf16 (Char.ofNat u.toNat) ++ ofChars (scalars (v :: rest)) = _
    rw [utf16_ofNat hor.1 hor.2, ih h.2]
    rfl

end Js
