/-
The slices of the JSON parsers, on the bytes of a text (`utils/mod.rs`).

`parse_string` steps over the byte behind a backslash, which may be the first of a
longer character.  It then stands inside that character, on bytes that are neither
quotes nor backslashes, and leaves it before it cuts: what is cut out are the bytes
of whole characters.  `parse_raw_json_value` looks at ASCII bytes only.
-/
import Nipworker.Lib.StrSlice
import Nipworker.Parser.Json

namespace Nipworker

open Utf8 List

namespace BaseJsonParser

def bytesOfParts (p : List Char × List Char) : Bytes × Bytes := (bytes p.1, bytes p.2)

theorem map_bytesOfParts {r : Option (Bytes × Bytes)} {r' : Option (List Char × List Char)}
    (h : r = r'.map bytesOfParts) (c : Char) :
    (r.map fun p => (String.utf8EncodeChar c ++ p.1, p.2)) =
      (r'.map fun p => (c :: p.1, p.2)).map bytesOfParts := by
  rw [h, Option.map_map, Option.map_map]
  rfl

/-! ### Strings -/

/-- The loop of `parse_string`: the slice in front of the closing quote, and what
follows the quote. -/
def stringBytes : Bytes → Option (Bytes × Bytes)
  | [] => none
  | [b] => if b = byteOf '"' then some ([], []) else none
  | b :: d :: rest =>
    if b = byteOf '"' then some ([], d :: rest)
    else if b = byteOf '\\' then (stringBytes rest).map fun p => (b :: d :: p.1, p.2)
    else (stringBytes (d :: rest)).map fun p => (b :: p.1, p.2)

theorem stringBytes_cons {b : UInt8} (hquote : b ≠ byteOf '"') (hback : b ≠ byteOf '\\')
    (rest : Bytes) :
    stringBytes (b :: rest) = (stringBytes rest).map fun p => (b :: p.1, p.2) := by
  cases rest with
  | nil => rw [stringBytes.eq_1, stringBytes.eq_2, if_neg hquote, Option.map_none]
  | cons d rest => rw [stringBytes, if_neg hquote, if_neg hback]

theorem stringBytes_append {part : Bytes} (hquote : byteOf '"' ∉ part) (hback : byteOf '\\' ∉ part)
    (rest : Bytes) :
    stringBytes (part ++ rest) = (stringBytes rest).map fun p => (part ++ p.1, p.2) := by
  induction part with
  | nil => exact Option.map_id'.symm
  | cons b part ih =>
    rw [mem_cons, not_or] at hquote hback
    rw [cons_append, stringBytes_cons (Ne.symm hquote.1) (Ne.symm hback.1),
      ih hquote.2 hback.2, Option.map_map]
    rfl

theorem not_mem_encodeChar {c d : Char} (hd : d.toNat < 128) (h : c ≠ d) :
    byteOf d ∉ String.utf8EncodeChar c := fun hmem => h (byteOf_mem_encodeChar hd hmem)

/-- **Strings** are cut between characters. -/
theorem stringBytes_bytes (cs : List Char) :
    stringBytes (bytes cs) = (skipString cs).map bytesOfParts := by
  induction cs using skipString.induct with
  | case1 => rfl
  | case2 => rfl
  | case3 c hc =>
    rw [skipString, if_neg hc]
    by_cases hback : c = '\\'
    · rw [hback]
      rfl
    · rw [bytes_cons, stringBytes_append (not_mem_encodeChar (by decide) hc)
        (not_mem_encodeChar (by decide) hback)]
      rfl
  | case4 d rest =>
    rw [skipString, if_pos rfl, bytes_cons, encodeChar_ascii (by decide)]
    obtain ⟨lead, more, hlead, -⟩ := encodeChar_head d
    rw [bytes_cons, hlead, singleton_append, cons_append, stringBytes, if_pos rfl]
    show some ([], lead :: (more ++ bytes rest)) = some ([], bytes (d :: rest))
    rw [bytes_cons, hlead, cons_append]
  | case5 d rest hc ih =>
    -- the byte behind the backslash is skipped, then the others of its character
    obtain ⟨lead, more, hlead, -⟩ := encodeChar_head d
    have hquote := byteOf_not_mem_tail (c := d) (d := '"') (by decide)
    have hback := byteOf_not_mem_tail (c := d) (d := '\\') (by decide)
    rw [hlead, tail_cons] at hquote hback
    rw [skipString, if_neg hc, if_pos rfl, bytes_cons, encodeChar_ascii (by decide), bytes_cons,
      hlead, singleton_append, cons_append, stringBytes, if_neg (by decide), if_pos rfl,
      stringBytes_append hquote hback, ih, Option.map_map, Option.map_map, Option.map_map]
    congr 1
    funext p
    show (byteOf '\\' :: lead :: (more ++ bytes p.1), bytes p.2) =
      (bytes ('\\' :: d :: p.1), bytes p.2)
    rw [bytes_cons, encodeChar_ascii (by decide), bytes_cons, hlead]
    rfl
  | case6 c d rest hc hback ih =>
    rw [skipString, if_neg hc, if_neg hback, bytes_cons,
      stringBytes_append (not_mem_encodeChar (by decide) hc)
        (not_mem_encodeChar (by decide) hback), ih, Option.map_map, Option.map_map]
    rfl

/-! ### Raw values -/

/-- The loop of `parse_raw_json_value`. -/
def rawBytes : ℤ → Bool → Bool → Bytes → Option (Bytes × Bytes)
  | _, _, _, [] => none
  | depth, inString, escaped, b :: rest =>
    if b = byteOf '\\' then (rawBytes depth inString (!escaped) rest).map fun p => (b :: p.1, p.2)
    else if b = byteOf '"' then
      let inString := if escaped then inString else !inString
      (rawBytes depth inString false rest).map fun p => (b :: p.1, p.2)
    else if (b = byteOf '{' ∨ b = byteOf '[') ∧ ¬ inString then
      (rawBytes (depth + 1) inString false rest).map fun p => (b :: p.1, p.2)
    else if (b = byteOf '}' ∨ b = byteOf ']') ∧ ¬ inString then
      if depth - 1 = 0 then some ([b], rest)
      else (rawBytes (depth - 1) inString false rest).map fun p => (b :: p.1, p.2)
    else if b = byteOf ',' ∧ ¬ inString ∧ depth = 0 then some ([], b :: rest)
    else (rawBytes depth inString false rest).map fun p => (b :: p.1, p.2)

theorem rawBytes_cons {b : UInt8} (hb : 128 ≤ b.toNat) (depth : ℤ) (inString escaped : Bool)
    (rest : Bytes) : rawBytes depth inString escaped (b :: rest) =
      (rawBytes depth inString false rest).map fun p => (b :: p.1, p.2) := by
  have hne : ∀ d : Char, d.toNat < 128 → b ≠ byteOf d := by
    rintro d hd rfl
    rw [toNat_byteOf hd] at hb
    omega
  rw [rawBytes, if_neg (hne _ (by decide)), if_neg (hne _ (by decide)),
    if_neg fun h => h.1.elim (hne _ (by decide)) (hne _ (by decide)),
    if_neg fun h => h.1.elim (hne _ (by decide)) (hne _ (by decide)),
    if_neg fun h => hne _ (by decide) h.1]

theorem rawBytes_append {part : Bytes} (hpart : ∀ b ∈ part, 128 ≤ b.toNat) (depth : ℤ)
    (inString : Bool) (rest : Bytes) : rawBytes depth inString false (part ++ rest) =
      (rawBytes depth inString false rest).map fun p => (part ++ p.1, p.2) := by
  induction part with
  | nil => exact Option.map_id'.symm
  | cons b part ih =>
    rw [cons_append, rawBytes_cons (hpart b mem_cons_self),
      ih fun b' hb' => hpart b' (mem_cons_of_mem b hb'), Option.map_map]
    rfl

/-- **Raw values** are cut between characters. -/
theorem rawBytes_bytes (cs : List Char) : ∀ (depth : ℤ) (inString escaped : Bool),
    rawBytes depth inString escaped (bytes cs) =
      (rawValue depth inString escaped cs).map bytesOfParts := by
  induction cs with
  | nil => exact fun _ _ _ => rfl
  | cons c cs ih =>
    intro depth inString escaped
    have hstep : ∀ (depth : ℤ) (inString escaped : Bool),
        ((rawBytes depth inString escaped (bytes cs)).map
            fun p => (String.utf8EncodeChar c ++ p.1, p.2)) =
          ((rawValue depth inString escaped cs).map fun p => (c :: p.1, p.2)).map bytesOfParts :=
      fun depth inString escaped => map_bytesOfParts (ih depth inString escaped) c
    by_cases hc : c.toNat < 128
    · -- an ASCII character is one byte, and the tests on it are the same
      have htest : ∀ d : Char, d.toNat < 128 → (byteOf c = byteOf d ↔ c = d) :=
        fun d hd => byteOf_inj hc hd
      rw [encodeChar_ascii hc] at hstep
      rw [bytes_cons, encodeChar_ascii hc, singleton_append, rawBytes, rawValue]
      simp only [htest '\\' (by decide), htest '"' (by decide), htest '{' (by decide),
        htest '[' (by decide), htest '}' (by decide), htest ']' (by decide), htest ',' (by decide)]
      split_ifs
      · exact hstep _ _ _
      · exact hstep _ _ _
      · exact hstep _ _ _
      · exact hstep _ _ _
      · show some ([byteOf c], bytes cs) = some (bytes [c], bytes cs)
        rw [bytes_cons, encodeChar_ascii hc]
        rfl
      · exact hstep _ _ _
      · show some ([], byteOf c :: bytes cs) = some (bytes [], bytes (c :: cs))
        rw [bytes_cons, encodeChar_ascii hc]
        rfl
      · exact hstep _ _ _
    · obtain ⟨lead, more, hlead, hhigh, hmore⟩ := encodeChar_long (Nat.le_of_not_lt hc)
      have hne : ∀ d : Char, d.toNat < 128 → c ≠ d := by
        rintro d hd rfl
        exact hc hd
      have htail : ∀ b ∈ more, 128 ≤ b.toNat := fun b hb => (toNat_of_isContinuation (hmore b hb)).1
      rw [rawValue, if_neg (hne _ (by decide)), if_neg (hne _ (by decide)),
        if_neg fun h => h.1.elim (hne _ (by decide)) (hne _ (by decide)),
        if_neg fun h => h.1.elim (hne _ (by decide)) (hne _ (by decide)),
        if_neg fun h => hne _ (by decide) h.1, ← hstep, bytes_cons, hlead, cons_append,
        rawBytes_cons (by omega), rawBytes_append htail, Option.map_map]
      rfl

end BaseJsonParser

end Nipworker
