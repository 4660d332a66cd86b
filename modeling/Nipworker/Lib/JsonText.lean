/-
JSON string literals as text.

A literal is a list of pieces, each written for one character: the character
itself, a short escape, a `\u` escape, or two of them for a character outside
the basic plane.  The same text can be written in many ways; what a literal
denotes and how it is written are kept apart.
-/
import Mathlib

namespace JsonText

open List Option

def isWs (c : Char) : Bool := c = ' ' ∨ c = '\t' ∨ c = '\n' ∨ c = '\r'

def hexDigit (c : Char) : Option ℕ :=
  if '0' ≤ c ∧ c ≤ '9' then some (c.toNat - '0'.toNat)
  else if 'a' ≤ c ∧ c ≤ 'f' then some (c.toNat - 'a'.toNat + 10)
  else if 'A' ≤ c ∧ c ≤ 'F' then some (c.toNat - 'A'.toNat + 10)
  else none

def hex4 : List Char → Option ℕ
  | [a, b, c, d] => do
    let a ← hexDigit a
    let b ← hexDigit b
    let c ← hexDigit c
    let d ← hexDigit d
    some (((a * 16 + b) * 16 + c) * 16 + d)
  | _ => none

/-- The letter of a short escape, and the character it stands for. -/
inductive ShortEscape
  | quote | backslash | slash | backspace | formFeed | newline | carriageReturn | tab
  deriving DecidableEq

def ShortEscape.letter : ShortEscape → Char
  | .quote => '"'
  | .backslash => '\\'
  | .slash => '/'
  | .backspace => 'b'
  | .formFeed => 'f'
  | .newline => 'n'
  | .carriageReturn => 'r'
  | .tab => 't'

def ShortEscape.char : ShortEscape → Char
  | .quote => '"'
  | .backslash => '\\'
  | .slash => '/'
  | .backspace => Char.ofNat 8
  | .formFeed => Char.ofNat 12
  | .newline => '\n'
  | .carriageReturn => '\r'
  | .tab => '\t'

/-- A character of a string literal, plain or escaped. -/
inductive Piece
  | plain (c : Char)
  | short (e : ShortEscape)
  | unicode (c : Char) (hex : List Char)
  | surrogates (c : Char) (high low : List Char)

namespace Piece

/-- What a piece is written for. -/
def char : Piece → Char
  | .plain c => c
  | .short e => e.char
  | .unicode c _ => c
  | .surrogates c _ _ => c

/-- How a piece is written. -/
def text : Piece → List Char
  | .plain c => [c]
  | .short e => ['\\', e.letter]
  | .unicode _ hex => '\\' :: 'u' :: hex
  | .surrogates _ high low => '\\' :: 'u' :: (high ++ '\\' :: 'u' :: low)

/-- The piece is JSON: a plain character is no quote, no backslash and no
control character; hexadecimal digits spell the character. -/
def Wf : Piece → Prop
  | .plain c => c ≠ '"' ∧ c ≠ '\\' ∧ 0x20 ≤ c.toNat
  | .short _ => True
  | .unicode c hex => hex4 hex = some c.toNat
  | .surrogates c high low => ∃ h l, hex4 high = some h ∧ hex4 low = some l ∧
      0xD800 ≤ h ∧ h < 0xDC00 ∧ 0xDC00 ≤ l ∧ l < 0xE000 ∧
      c.toNat = 0x10000 + (h - 0xD800) * 0x400 + (l - 0xDC00)

def Closed : Piece → Prop
  | .plain c => c ≠ '"' ∧ c ≠ '\\'
  | .short _ => True
  | .unicode _ hex => ∃ n, hex4 hex = some n
  | .surrogates _ high low => (∃ n, hex4 high = some n) ∧ ∃ n, hex4 low = some n

theorem Wf.closed {p : Piece} (h : p.Wf) : p.Closed := by
  cases p with
  | plain c => exact ⟨h.1, h.2.1⟩
  | short e => trivial
  | unicode c hex => exact ⟨_, h⟩
  | surrogates c high low =>
    obtain ⟨n, m, hn, hm, -⟩ := h
    exact ⟨⟨n, hn⟩, ⟨m, hm⟩⟩

def isPlain : Piece → Bool
  | .plain _ => true
  | _ => false

theorem text_of_isPlain {p : Piece} (h : p.isPlain = true) : p.text = [p.char] := by
  cases p with
  | plain c => rfl
  | _ => cases h

theorem text_of_not_isPlain {p : Piece} (h : p.isPlain = false) :
    ∃ rest, p.text = '\\' :: rest := by
  cases p with
  | plain c => cases h
  | short e => exact ⟨_, rfl⟩
  | unicode c hex => exact ⟨_, rfl⟩
  | surrogates c high low => exact ⟨_, rfl⟩

theorem length_text_pos (p : Piece) : 1 ≤ p.text.length := by
  cases p <;> simp [text]

end Piece

theorem hex4_length {hex : List Char} {n : ℕ} (h : hex4 hex = some n) : hex.length = 4 := by
  unfold hex4 at h
  split at h
  · rfl
  · cases h

theorem hexDigit_ne {c : Char} {n : ℕ} (h : hexDigit c = some n) : c ≠ '"' ∧ c ≠ '\\' := by
  have hquote : hexDigit '"' = none := by decide
  have hback : hexDigit '\\' = none := by decide
  constructor
  · rintro rfl
    rw [hquote] at h
    cases h
  · rintro rfl
    rw [hback] at h
    cases h

theorem mem_hex4_ne {hex : List Char} {n : ℕ} (h : hex4 hex = some n) :
    ∀ c ∈ hex, c ≠ '"' ∧ c ≠ '\\' := by
  unfold hex4 at h
  split at h
  · next a b c d =>
    simp only [bind_eq_bind, bind_eq_some_iff] at h
    obtain ⟨_, ha, _, hb, _, hc, _, hd, -⟩ := h
    intro x hx
    simp only [mem_cons, not_mem_nil, or_false] at hx
    rcases hx with rfl | rfl | rfl | rfl
    · exact hexDigit_ne ha
    · exact hexDigit_ne hb
    · exact hexDigit_ne hc
    · exact hexDigit_ne hd
  · cases h

theorem hexDigit_ascii {c : Char} {n : ℕ} (h : hexDigit c = some n) : c.toNat < 128 := by
  have hle : ∀ d : Char, c ≤ d → d.toNat < 128 → c.toNat < 128 := by
    intro d hcd hd
    have : c.toNat ≤ d.toNat := UInt32.le_iff_toNat_le.mp hcd
    omega
  unfold hexDigit at h
  split at h
  · next hd => exact hle _ hd.2 (by decide)
  · split at h
    · next hd => exact hle _ hd.2 (by decide)
    · split at h
      · next hd => exact hle _ hd.2 (by decide)
      · cases h

theorem mem_hex4_ascii {hex : List Char} {n : ℕ} (h : hex4 hex = some n) :
    ∀ c ∈ hex, c.toNat < 128 := by
  unfold hex4 at h
  split at h
  · next a b c d =>
    simp only [bind_eq_bind, bind_eq_some_iff] at h
    obtain ⟨_, ha, _, hb, _, hc, _, hd, -⟩ := h
    intro x hx
    simp only [mem_cons, not_mem_nil, or_false] at hx
    rcases hx with rfl | rfl | rfl | rfl
    · exact hexDigit_ascii ha
    · exact hexDigit_ascii hb
    · exact hexDigit_ascii hc
    · exact hexDigit_ascii hd
  · cases h

theorem Piece.mem_text_ascii {p : Piece} (hp : p.Wf) (hchar : p.char.toNat < 128) :
    ∀ c ∈ p.text, c.toNat < 128 := by
  intro c hc
  cases p with
  | plain d => rwa [List.mem_singleton.mp hc]
  | short e =>
    simp only [text, mem_cons, not_mem_nil, or_false] at hc
    rcases hc with rfl | rfl
    · decide
    · cases e <;> decide
  | unicode d hex =>
    simp only [text, mem_cons] at hc
    rcases hc with rfl | rfl | hc
    · decide
    · decide
    · exact mem_hex4_ascii hp c hc
  | surrogates d high low =>
    obtain ⟨h, l, -, -, -, -, -, -, hd⟩ := hp
    have hlt : d.toNat < 128 := hchar
    omega

theorem Piece.length_text_le {p : Piece} (hp : p.Wf) (hchar : p.char.toNat < 0x10000) :
    p.text.length ≤ 6 := by
  cases p with
  | plain c => simp [text]
  | short e => simp [text]
  | unicode c hex => simp [text, hex4_length hp]
  | surrogates c high low =>
    obtain ⟨h, l, -, -, -, -, -, -, hc⟩ := hp
    have hlt : c.toNat < 0x10000 := hchar
    omega

/-! ### Literals -/

def literalText (lit : List Piece) : List Char := lit.flatMap Piece.text

def literalValue (lit : List Piece) : List Char := lit.map Piece.char

def Plain (lit : List Piece) : Prop := ∀ p ∈ lit, p.isPlain = true

theorem literalText_cons (p : Piece) (lit : List Piece) :
    literalText (p :: lit) = p.text ++ literalText lit := rfl

theorem flatMap_eq_map_iff {α β : Type*} {f : α → List β} {g : α → β} {l : List α}
    (hf : ∀ a ∈ l, f a ≠ []) : l.flatMap f = l.map g ↔ ∀ a ∈ l, f a = [g a] := by
  induction l with
  | nil => simp
  | cons a l ih =>
    have hl : ∀ b ∈ l, f b ≠ [] := fun b hb => hf b (mem_cons_of_mem _ hb)
    rw [forall_mem_cons, flatMap_cons, map_cons, ← ih hl]
    constructor
    · intro h
      -- nothing is shorter than one, so the first cannot be longer
      have hlen : l.length ≤ (l.flatMap f).length := by
        rw [length_flatMap]
        calc l.length = (l.map fun _ => 1).sum := by simp
          _ ≤ (l.map fun b => (f b).length).sum :=
            sum_le_sum fun b hb => List.length_pos_iff.mpr (hl b hb)
      have htotal := congrArg List.length h
      rw [length_append, length_cons, length_map] at htotal
      have hpos := List.length_pos_iff.mpr (hf a mem_cons_self)
      obtain ⟨b, hb⟩ := List.length_eq_one_iff.mp (show (f a).length = 1 by omega)
      rw [hb, singleton_append, List.cons.injEq] at h
      exact ⟨by rw [hb, h.1], h.2⟩
    · rintro ⟨h1, h2⟩
      rw [h1, h2, singleton_append]

theorem Piece.text_ne_nil (p : Piece) : p.text ≠ [] :=
  List.length_pos_iff.mp p.length_text_pos

theorem Piece.text_eq_char_iff (p : Piece) : p.text = [p.char] ↔ p.isPlain = true := by
  refine ⟨fun h => ?_, text_of_isPlain⟩
  cases p with
  | plain c => rfl
  | _ => simp [Piece.text] at h

/-- A literal reads as its own value exactly when it uses no escape. -/
theorem literalText_eq_value_iff (lit : List Piece) :
    literalText lit = literalValue lit ↔ Plain lit := by
  rw [literalText, literalValue, flatMap_eq_map_iff fun p _ => p.text_ne_nil]
  exact forall₂_congr fun p _ => p.text_eq_char_iff

variable {lit : List Piece}

theorem literalText_of_plain (h : Plain lit) :
    literalText lit = literalValue lit := (literalText_eq_value_iff lit).mpr h

theorem backslash_mem_of_not_plain (h : ¬ Plain lit) : '\\' ∈ literalText lit := by
  simp only [Plain, not_forall] at h
  obtain ⟨p, hp, hplain⟩ := h
  obtain ⟨rest, htext⟩ := Piece.text_of_not_isPlain (Bool.eq_false_iff.mpr hplain)
  refine List.mem_flatMap.mpr ⟨p, hp, ?_⟩
  rw [htext]
  exact mem_cons_self

theorem length_literalText_le (hwf : ∀ p ∈ lit, p.Wf)
    (hchar : ∀ c ∈ literalValue lit, c.toNat < 0x10000) :
    (literalText lit).length ≤ 6 * (literalValue lit).length := by
  induction lit with
  | nil => exact Nat.le_refl _
  | cons p rest ih =>
    have hp := Piece.length_text_le (hwf p mem_cons_self) (hchar _ mem_cons_self)
    have hrest := ih (fun q hq => hwf q (mem_cons_of_mem _ hq))
      fun c hc => hchar c (mem_cons_of_mem _ hc)
    rw [literalText, flatMap_cons, length_append, literalValue, map_cons,
      length_cons]
    unfold literalText literalValue at hrest
    omega

theorem mem_literalText_ascii (hwf : ∀ p ∈ lit, p.Wf)
    (hchar : ∀ c ∈ literalValue lit, c.toNat < 128) : ∀ c ∈ literalText lit, c.toNat < 128 := by
  intro c hc
  obtain ⟨p, hp, hcp⟩ := List.mem_flatMap.mp hc
  exact Piece.mem_text_ascii (hwf p hp) (hchar _ (mem_map_of_mem hp)) c hcp

end JsonText
