/-
Text as UTF-8 bytes.
-/
import Nipworker.Lib.Bytes

namespace Utf8

open List

/-- The bytes of a text (`str::as_bytes`). -/
def encode (s : String) : Bytes := s.toList.flatMap String.utf8EncodeChar

def isContinuation (b : UInt8) : Bool := 0x80 ≤ b ∧ b ≤ 0xBF

/-- The second bytes that can follow a lead byte of a sequence of three or
four. -/
def acceptsSecond (lead second : UInt8) : Bool :=
  if lead = 0xE0 then 0xA0 ≤ second ∧ second ≤ 0xBF
  else if lead = 0xED then 0x80 ≤ second ∧ second ≤ 0x9F
  else if lead = 0xF0 then 0x90 ≤ second ∧ second ≤ 0xBF
  else if lead = 0xF4 then 0x80 ≤ second ∧ second ≤ 0x8F
  else 0xE1 ≤ lead ∧ lead ≤ 0xF3 ∧ isContinuation second

/-- How many bytes a malformed part takes: the longest beginning of a
well-formed sequence, at least one. -/
def malformedLength : Bytes → ℕ
  | lead :: second :: third :: _ =>
    if acceptsSecond lead second then
      if 0xF0 ≤ lead ∧ isContinuation third then 3 else 2
    else 1
  | [lead, second] => if acceptsSecond lead second then 2 else 1
  | _ => 1

/-- The characters of at most `fuel` parts of `bytes`. -/
def decodeLossyChars : ℕ → Bytes → List Char
  | 0, _ => []
  | _ + 1, [] => []
  | fuel + 1, bytes@(_ :: _) =>
    match bytes.toByteArray.utf8DecodeChar? 0 with
    | some c => c :: decodeLossyChars fuel (bytes.drop c.utf8Size)
    | none => Char.ofNat 0xFFFD :: decodeLossyChars fuel (bytes.drop (malformedLength bytes))

/-- `String::from_utf8_lossy`. -/
def decodeLossy (bytes : Bytes) : String :=
  String.ofList (decodeLossyChars bytes.length bytes)

theorem decodeLossyChars_encode (cs : List Char) : ∀ fuel : ℕ,
    (cs.flatMap String.utf8EncodeChar).length ≤ fuel →
      decodeLossyChars fuel (cs.flatMap String.utf8EncodeChar) = cs := by
  induction cs with
  | nil =>
    intro fuel _
    cases fuel <;> rfl
  | cons c cs ih =>
    intro fuel hfuel
    rw [flatMap_cons, length_append, String.length_utf8EncodeChar] at hfuel
    have hpos := c.utf8Size_pos
    obtain ⟨fuel, rfl⟩ : ∃ n, fuel = n + 1 := ⟨fuel - 1, by omega⟩
    rw [flatMap_cons]
    have hread : ((String.utf8EncodeChar c ++ cs.flatMap String.utf8EncodeChar).toByteArray).utf8DecodeChar?
        0 = some c := by
      rw [toByteArray_append]
      exact ByteArray.utf8DecodeChar?_utf8EncodeChar_append
    rcases hb : String.utf8EncodeChar c ++ cs.flatMap String.utf8EncodeChar with _ | ⟨b, rest⟩
    · have := congrArg List.length hb
      rw [length_append, String.length_utf8EncodeChar, length_nil] at this
      omega
    · rw [hb] at hread
      rw [decodeLossyChars, hread]
      dsimp only
      rw [← hb, drop_left' (String.length_utf8EncodeChar c), ih fuel (by omega)]

/-- Well-formed text reads back unchanged. -/
theorem decodeLossy_encode (s : String) : decodeLossy (encode s) = s := by
  rw [decodeLossy, encode, decodeLossyChars_encode _ _ (le_refl _), String.ofList_toList]

theorem length_encode_of_ascii {s : String} (h : ∀ c ∈ s.toList, c.toNat < 128) :
    (encode s).length = s.toList.length := by
  rw [encode]
  generalize s.toList = cs at h
  induction cs with
  | nil => rfl
  | cons c cs ih =>
    have hc : c.utf8Size = 1 := by
      rw [Char.utf8Size_eq_one_iff]
      have := h c mem_cons_self
      show c.val ≤ 127
      rw [UInt32.le_iff_toNat_le]
      exact Nat.le_of_lt_succ this
    rw [flatMap_cons, length_append, String.length_utf8EncodeChar, hc, length_cons,
      ih fun d hd => h d (mem_cons_of_mem _ hd), Nat.add_comm]

theorem toByteArray_encode (s : String) : (encode s).toByteArray = s.toByteArray := by
  rw [← String.utf8Encode_toList]
  rfl

theorem fromUTF8_encode (s : String) : String.fromUTF8? (encode s).toByteArray = some s := by
  rw [toByteArray_encode]
  exact dif_pos s.isValidUTF8

end Utf8
