/-
Base64, with the standard alphabet and padding.

Three bytes go into four digits of six bits each; a last group of one or two bytes is filled
up with `=`.
-/
import Nipworker.Lib.Bytes

namespace Base64

open List Option

def digit (n : ℕ) : Char :=
  if n < 26 then Char.ofNat (65 + n)
  else if n < 52 then Char.ofNat (71 + n)
  else if n < 62 then Char.ofNat (n - 4)
  else if n = 62 then '+'
  else '/'

def digitValue (c : Char) : Option ℕ :=
  if 'A' ≤ c ∧ c ≤ 'Z' then some (c.toNat - 65)
  else if 'a' ≤ c ∧ c ≤ 'z' then some (c.toNat - 71)
  else if '0' ≤ c ∧ c ≤ '9' then some (c.toNat + 4)
  else if c = '+' then some 62
  else if c = '/' then some 63
  else none

def encode : Bytes → List Char
  | [] => []
  | [a] => [digit (a.toNat / 4), digit (a.toNat % 4 * 16), '=', '=']
  | [a, b] => [digit (a.toNat / 4), digit (a.toNat % 4 * 16 + b.toNat / 16),
      digit (b.toNat % 16 * 4), '=']
  | a :: b :: c :: rest =>
    digit (a.toNat / 4) :: digit (a.toNat % 4 * 16 + b.toNat / 16) ::
      digit (b.toNat % 16 * 4 + c.toNat / 64) :: digit (c.toNat % 64) :: encode rest

/-- The bytes of a text.  The bits a last group has too many are zero. -/
def decode : List Char → Option Bytes
  | [] => some []
  | [c₁, c₂, '=', '='] => do
    let n₁ ← digitValue c₁
    let n₂ ← digitValue c₂
    if n₂ % 16 = 0 then some [UInt8.ofNat (n₁ * 4 + n₂ / 16)] else none
  | [c₁, c₂, c₃, '='] => do
    let n₁ ← digitValue c₁
    let n₂ ← digitValue c₂
    let n₃ ← digitValue c₃
    if n₃ % 4 = 0 then
      some [UInt8.ofNat (n₁ * 4 + n₂ / 16), UInt8.ofNat (n₂ % 16 * 16 + n₃ / 4)]
    else none
  | c₁ :: c₂ :: c₃ :: c₄ :: rest => do
    let n₁ ← digitValue c₁
    let n₂ ← digitValue c₂
    let n₃ ← digitValue c₃
    let n₄ ← digitValue c₄
    let bytes ← decode rest
    some (UInt8.ofNat (n₁ * 4 + n₂ / 16) :: UInt8.ofNat (n₂ % 16 * 16 + n₃ / 4) ::
      UInt8.ofNat (n₃ % 4 * 64 + n₄) :: bytes)
  | _ => none

theorem digitValue_digit : ∀ n < 64, digitValue (digit n) = some n := by
  decide

theorem digit_ne_filler : ∀ n < 64, digit n ≠ '=' := by
  decide

theorem ofNat_eq {n : ℕ} {b : UInt8} (h : n = b.toNat) : UInt8.ofNat n = b := by
  rw [h, UInt8.ofNat_toNat]

theorem decode_cons {n₁ n₂ n₃ n₄ : ℕ} (h₁ : n₁ < 64) (h₂ : n₂ < 64) (h₃ : n₃ < 64) (h₄ : n₄ < 64)
    (rest : List Char) : decode (digit n₁ :: digit n₂ :: digit n₃ :: digit n₄ :: rest) =
      (decode rest).map fun bytes => UInt8.ofNat (n₁ * 4 + n₂ / 16) ::
        UInt8.ofNat (n₂ % 16 * 16 + n₃ / 4) :: UInt8.ofNat (n₃ % 4 * 64 + n₄) :: bytes := by
  have hne := digit_ne_filler n₄ h₄
  rw [decode.eq_4 _ _ _ _ _ (fun _ h _ => hne h) (fun h _ => hne h)]
  simp only [digitValue_digit _ h₁, digitValue_digit _ h₂, digitValue_digit _ h₃,
    digitValue_digit _ h₄, bind_eq_bind, bind_some]
  cases decode rest <;> rfl

variable (bytes : Bytes)

/-- **What is written reads back.** -/
theorem decode_encode : decode (encode bytes) = some bytes := by
  induction bytes using encode.induct with
  | case1 => rfl
  | case2 a =>
    have ha := a.toNat_lt
    rw [encode, decode]
    simp only [digitValue_digit _ (show a.toNat / 4 < 64 by omega),
      digitValue_digit _ (show a.toNat % 4 * 16 < 64 by omega), bind_eq_bind, bind_some]
    rw [if_pos (by omega), ofNat_eq (b := a) (by omega)]
  | case3 a b =>
    have ha := a.toNat_lt
    have hb := b.toNat_lt
    rw [encode, decode.eq_3 _ _ _ (digit_ne_filler _ (by omega))]
    simp only [digitValue_digit _ (show a.toNat / 4 < 64 by omega),
      digitValue_digit _ (show a.toNat % 4 * 16 + b.toNat / 16 < 64 by omega),
      digitValue_digit _ (show b.toNat % 16 * 4 < 64 by omega), bind_eq_bind, bind_some]
    rw [if_pos (by omega), ofNat_eq (b := a) (by omega), ofNat_eq (b := b) (by omega)]
  | case4 a b c rest ih =>
    have ha := a.toNat_lt
    have hb := b.toNat_lt
    have hc := c.toNat_lt
    rw [encode, decode_cons (by omega) (by omega) (by omega) (by omega), ih, map_some,
      ofNat_eq (b := a) (by omega), ofNat_eq (b := b) (by omega), ofNat_eq (b := c) (by omega)]

/-- A text has four characters for each group of three bytes. -/
theorem length_encode : (encode bytes).length = 4 * ((bytes.length + 2) / 3) := by
  induction bytes using encode.induct with
  | case1 => rfl
  | case2 a => simp [encode]
  | case3 a b => simp [encode]
  | case4 a b c rest ih =>
    rw [encode, length_cons, length_cons, length_cons, length_cons, ih,
      length_cons, length_cons, length_cons]
    omega

theorem forall_mem_encode {P : Char → Prop} (hdigit : ∀ n < 64, P (digit n)) (hfiller : P '=')
    (bytes : Bytes) : ∀ c ∈ encode bytes, P c := by
  induction bytes using encode.induct with
  | case1 => exact fun c hc => absurd hc not_mem_nil
  | case2 a =>
    have ha := a.toNat_lt
    simp only [encode, forall_mem_cons]
    exact ⟨hdigit _ (by omega), hdigit _ (by omega), hfiller, hfiller,
      fun c hc => absurd hc not_mem_nil⟩
  | case3 a b =>
    have ha := a.toNat_lt
    have hb := b.toNat_lt
    simp only [encode, forall_mem_cons]
    exact ⟨hdigit _ (by omega), hdigit _ (by omega), hdigit _ (by omega), hfiller,
      fun c hc => absurd hc not_mem_nil⟩
  | case4 a b c rest ih =>
    have ha := a.toNat_lt
    have hb := b.toNat_lt
    have hc := c.toNat_lt
    simp only [encode, forall_mem_cons]
    exact ⟨hdigit _ (by omega), hdigit _ (by omega), hdigit _ (by omega), hdigit _ (by omega), ih⟩

/-- The characters of a text are digits, or the filler. -/
theorem mem_encode : ∀ c ∈ encode bytes, c.isAlphanum ∨ c = '+' ∨ c = '/' ∨ c = '=' :=
  forall_mem_encode (by decide) (by decide) bytes

theorem ascii_encode : ∀ c ∈ encode bytes, c.toNat < 128 :=
  forall_mem_encode (by decide) (by decide) bytes

end Base64
