/-
Bytes in hexadecimal.

Two digits to a byte, the high one first.  Both cases are read; only lower case
is written.
-/
import Nipworker.Lib.Bytes

namespace Hex

open List

def digitValue (c : Char) : Option ℕ :=
  if '0' ≤ c ∧ c ≤ '9' then some (c.toNat - 48)
  else if 'a' ≤ c ∧ c ≤ 'f' then some (c.toNat - 87)
  else if 'A' ≤ c ∧ c ≤ 'F' then some (c.toNat - 55)
  else none

/-- Read digits in pairs; `none` when there is another character or an odd
number of them. -/
def decodeChars : List Char → Option Bytes
  | [] => some []
  | [_] => none
  | high :: low :: rest =>
    match digitValue high, digitValue low, decodeChars rest with
    | some x, some y, some bytes => some (UInt8.ofNat (16 * x + y) :: bytes)
    | _, _, _ => none

def decode (text : String) : Option Bytes := decodeChars text.toList

def digits (byte : UInt8) : List Char :=
  [Nat.digitChar (byte.toNat / 16), Nat.digitChar (byte.toNat % 16)]

def encode (bytes : Bytes) : String := String.ofList (bytes.flatMap digits)

theorem length_encode (bytes : Bytes) : (encode bytes).length = 2 * bytes.length := by
  rw [encode, String.length_ofList]
  induction bytes with
  | nil => rfl
  | cons byte bytes ih =>
    rw [flatMap_cons, length_append, ih, length_cons, digits]
    show 2 + 2 * bytes.length = _
    omega

theorem ascii_digitChar : ∀ n < 16, (Nat.digitChar n).toNat < 128 := by
  decide

theorem ascii_encode (bytes : Bytes) : ∀ c ∈ (encode bytes).toList, c.toNat < 128 := by
  intro c hc
  rw [encode, String.toList_ofList, mem_flatMap] at hc
  obtain ⟨byte, -, hdigit⟩ := hc
  have hlt : byte.toNat < 256 := byte.toNat_lt
  obtain rfl | hlow := List.mem_cons.mp hdigit
  · exact ascii_digitChar _ (by omega)
  · rw [List.mem_singleton.mp hlow]
    exact ascii_digitChar _ (by omega)

theorem digitValue_digitChar : ∀ n < 16, digitValue (Nat.digitChar n) = some n := by
  decide

theorem decodeChars_digits (byte : UInt8) (rest : List Char) :
    decodeChars (digits byte ++ rest) = (decodeChars rest).map (byte :: ·) := by
  have hlt : byte.toNat < 256 := byte.toNat_lt
  have hhigh := digitValue_digitChar (byte.toNat / 16) (by omega)
  have hlow := digitValue_digitChar (byte.toNat % 16) (by omega)
  have hbyte : UInt8.ofNat (16 * (byte.toNat / 16) + byte.toNat % 16) = byte := by
    rw [Nat.div_add_mod, UInt8.ofNat_toNat]
  rw [digits, cons_append, singleton_append, decodeChars, hhigh, hlow]
  rcases decodeChars rest with _ | bytes
  · rfl
  · dsimp only
    rw [hbyte, Option.map_some]

theorem digitValue_of_mem : ∀ {cs : List Char} {bytes : Bytes}, decodeChars cs = some bytes →
    ∀ c ∈ cs, ∃ n, digitValue c = some n
  | [], _, _, c, hc => nomatch hc
  | [_], _, h, _, _ => nomatch h
  | high :: low :: rest, _, h, c, hc => by
    rw [decodeChars] at h
    split at h
    · next x y bs hx hy hrest =>
      rcases List.mem_cons.mp hc with rfl | hc
      · exact ⟨x, hx⟩
      · rcases List.mem_cons.mp hc with rfl | hc
        · exact ⟨y, hy⟩
        · exact digitValue_of_mem hrest c hc
    · cases h

/-- **Reading back** what was written. -/
theorem decode_encode (bytes : Bytes) : decode (encode bytes) = some bytes := by
  rw [decode, encode, String.toList_ofList]
  induction bytes with
  | nil => rfl
  | cons byte rest ih => rw [flatMap_cons, decodeChars_digits, ih, Option.map_some]

end Hex
