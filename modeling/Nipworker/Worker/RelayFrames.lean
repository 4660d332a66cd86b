/-
Subscription ids on the wire (`worker/connections_worker.rs`).

Relays take subscription ids of at most 64 characters, so the connections
worker replaces an id of 64 bytes or more by a hash of it in base 36, and keeps
the two directions of the replacement in two maps.
-/
import Nipworker.Lib.Json
import Nipworker.Lib.Map
import Nipworker.Lib.Utf8

namespace Nipworker

open List

/-- The ids that were replaced, both ways. -/
structure SubIdMaps where
  fullToRelay : Map String String
  relayToFull : Map String String

def SubIdMaps.empty : SubIdMaps := { fullToRelay := ∅, relayToFull := ∅ }

/-! ### The replacement -/

def utf16Units (c : Char) : List ℕ :=
  if c.toNat < 0x10000 then [c.toNat]
  else [0xD800 + (c.toNat - 0x10000) / 0x400, 0xDC00 + (c.toNat - 0x10000) % 0x400]

def encodeUtf16 (s : String) : List ℕ := s.toList.flatMap utf16Units

/-- The 32-bit string hash, with the wrapping arithmetic of `i32`. -/
def subIdHash (input : String) : Int32 :=
  (encodeUtf16 input).foldl (fun hash unit => (hash <<< 5) - hash + Int32.ofNat unit) 0

def base36Digit (digit : ℕ) : Char :=
  if digit < 10 then Char.ofNat ('0'.toNat + digit) else Char.ofNat ('a'.toNat + digit - 10)

/-- The text of a hash: `"0"`, or the digits of its absolute value from the
highest one on. -/
def base36 (value : ℕ) : List Char :=
  if value = 0 then ['0'] else (((Nat.digits 36 value).map base36Digit).reverse).take 63

def isLongSubId (input : String) : Bool := 64 ≤ (Utf8.encode input).length

/-- The id a relay gets to see. -/
def relaySafeSubId (input : String) : String :=
  if isLongSubId input then String.ofList (base36 (subIdHash input).toInt.natAbs) else input

/-- The way out. -/
def encodeRelayFrame (serde : SerdeJson) (maps : SubIdMaps) (frame : String) :
    String × SubIdMaps :=
  match serde.fromStr frame with
  | some (.array (.string kind :: .string fullSubId :: rest)) =>
    if kind ≠ "REQ" ∧ kind ≠ "CLOSE" then (frame, maps)
    else
      let relaySubId := relaySafeSubId fullSubId
      if relaySubId ≠ fullSubId then
        (serde.toText (.array (.string kind :: .string relaySubId :: rest)),
          { fullToRelay := maps.fullToRelay.insert fullSubId relaySubId
            relayToFull := maps.relayToFull.insert relaySubId fullSubId })
      else (frame, maps)
  | _ => (frame, maps)

/-- The way in. -/
def decodeRelaySubId (maps : SubIdMaps) (subId : String) : String :=
  (maps.relayToFull.lookup subId).getD subId

def relayFrameState (serde : SerdeJson) (frame : String) : Option (String × String) :=
  match serde.fromStr frame with
  | some (.array (.string kind :: second :: _)) =>
    if kind ≠ "REQ" ∧ kind ≠ "CLOSE" then none
    else second.asStr.map fun subId => (kind, subId)
  | _ => none

/-! ### Replaced ids are short -/

theorem length_base36_le {value : ℕ} (h : value < 2 ^ 32) : (base36 value).length ≤ 7 := by
  unfold base36
  split
  · exact by decide
  · have hdigits : (Nat.digits 36 value).length ≤ 7 := by
      rw [Nat.digits_length_le_iff (by decide)]
      omega
    simp only [length_take, length_reverse, length_map]
    omega

theorem base36_chars {value : ℕ} {c : Char} (h : c ∈ base36 value) :
    ∃ d < 36, c = base36Digit d := by
  unfold base36 at h
  split at h
  · exact ⟨0, by decide, by rw [List.mem_singleton.mp h]; decide⟩
  · have hmem := List.mem_reverse.mp (mem_of_mem_take h)
    obtain ⟨d, hd, rfl⟩ := List.mem_map.mp hmem
    exact ⟨d, Nat.digits_lt_base (by decide) hd, rfl⟩

theorem base36Digit_spec : ∀ d < 36, base36Digit d ≠ '"' ∧ base36Digit d ≠ '\\' ∧
    0x20 ≤ (base36Digit d).toNat ∧ (base36Digit d).toNat < 128 := by
  decide

theorem subIdHash_natAbs_lt (input : String) : (subIdHash input).toInt.natAbs < 2 ^ 32 := by
  have hlo := Int32.le_toInt (subIdHash input)
  have hhi := Int32.toInt_lt (subIdHash input)
  omega

/-- A replaced id is at most seven digits long. -/
theorem length_relaySafeSubId {input : String} (h : isLongSubId input = true) :
    (relaySafeSubId input).toList.length ≤ 7 := by
  rw [relaySafeSubId, if_pos h, String.toList_ofList]
  exact length_base36_le (subIdHash_natAbs_lt input)

theorem relaySafeSubId_chars {input : String} (h : isLongSubId input = true) {c : Char}
    (hc : c ∈ (relaySafeSubId input).toList) :
    c ≠ '"' ∧ c ≠ '\\' ∧ 0x20 ≤ c.toNat ∧ c.toNat < 128 := by
  rw [relaySafeSubId, if_pos h, String.toList_ofList] at hc
  obtain ⟨d, hd, rfl⟩ := base36_chars hc
  exact base36Digit_spec d hd

theorem isLongSubId_relaySafeSubId (input : String) :
    isLongSubId (relaySafeSubId input) = false := by
  by_cases h : isLongSubId input = true
  · have hlen := length_relaySafeSubId h
    have hascii := Utf8.length_encode_of_ascii fun c hc => (relaySafeSubId_chars h hc).2.2.2
    rw [isLongSubId, decide_eq_false_iff_not, hascii]
    omega
  · rw [relaySafeSubId, if_neg h]
    exact Bool.eq_false_iff.mpr h

theorem relaySafeSubId_ne_iff (input : String) :
    relaySafeSubId input ≠ input ↔ isLongSubId input = true := by
  constructor
  · intro hne
    by_contra h
    exact hne (by rw [relaySafeSubId, if_neg h])
  · intro h heq
    have hshort := isLongSubId_relaySafeSubId input
    rw [heq, h] at hshort
    cases hshort

end Nipworker
