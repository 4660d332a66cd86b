/-
The two BOLT11 validators agree.
-/
import Nipworker.Client.Bolt11Steps
import Nipworker.Lib.BigEndian

namespace Nipworker

open Js List
open Bolt11 (Body)

namespace ParseContent

open Bolt11 (toAsciiLowercase isAsciiUppercase isAsciiLowercase bech32Value)
open Bolt11.Body (ok_bind orReturn_some index_ok slice_ok add_ok sub_ok)

/-! ### The tagged fields -/

theorem valueAt_map {data : Bytes} {i : ℕ} (h : i < data.length) :
    valueAt (data.map lowered) (i : ℕ) = indexOf bech32Charset (lowered data[i]) := by
  rw [valueAt, Int.toNat_natCast, List.getElem?_map, List.getElem?_eq_getElem h]
  exact if_neg (by omega)

theorem fieldLength_same {high low : UInt8} (hhigh : high.toNat < 32) (hlow : low.toNat < 32) :
    bitOr (shiftLeft (high.toNat : ℕ) 5) (low.toNat : ℕ) =
      (((high.toNat <<< 5) ||| low.toNat : ℕ) : ℤ) ∧ (high.toNat <<< 5) ||| low.toNat < 1024 := by
  have hshift : high.toNat <<< 5 < 1024 := by
    rw [Nat.shiftLeft_eq]
    omega
  have h : shiftLeft (high.toNat : ℕ) ((5 : ℕ) : ℤ) = ((high.toNat <<< 5 : ℕ) : ℤ) :=
    shiftLeft_natCast (by decide) (by omega)
  have hor := bitOr_natCast (a := high.toNat <<< 5) (b := low.toNat) (by omega) (by omega)
  rw [← h] at hor
  exact ⟨hor, Nat.or_lt_two_pow (n := 10) (by omega) (by omega)⟩

theorem hashFieldOk_same {data : Bytes} {fieldLength fieldEnd : ℕ} (hpos : 0 < fieldEnd)
    (hend : fieldEnd ≤ data.length) :
    Bolt11.hashFieldOk data fieldLength fieldEnd =
      .ok (hashFieldOk (data.map lowered) fieldLength fieldEnd) := by
  rw [Bolt11.hashFieldOk]
  by_cases hlength : fieldLength = 52
  · have hlt : fieldEnd - 1 < data.length := by omega
    have hcast : (fieldEnd : ℤ) - 1 = ((fieldEnd - 1 : ℕ) : ℤ) := by omega
    rw [if_neg (not_not_intro hlength), sub_ok hpos, hashFieldOk, hcast, valueAt_map hlt]
    rw [ok_bind, index_ok hlt, ok_bind]
    refine congrArg Except.ok ?_
    obtain ⟨value, hvalue, hbound, hindex⟩ | ⟨hvalue, hindex⟩ := indexOf_lowered data[fieldEnd - 1]
    · rw [hvalue, hindex]
      have hand : bitAnd (value.toNat : ℕ) ((15 : ℕ) : ℤ) = ((value.toNat &&& 15 : ℕ) : ℤ) :=
        bitAnd_natCast (by omega) (by decide)
      have hzero : value &&& 0x0f = 0 ↔ value.toNat &&& 15 = 0 := by
        rw [← UInt8.toNat_inj, UInt8.toNat_and]
        rfl
      have hcast : bitAnd (value.toNat : ℕ) 15 ≠ 0 ↔ ¬ value.toNat &&& 15 = 0 := by
        rw [← Nat.cast_eq_zero (R := ℤ), ← hand]
        rfl
      rw [Bool.eq_iff_iff, beq_iff_eq, hzero, decide_eq_true_iff, hcast, not_or, not_not, not_not]
      exact (and_iff_right (by rw [hlength]; rfl)).symm
    · rw [hvalue, hindex]
      exact (decide_eq_false fun h => h (.inr (by decide))).symm
  · rw [if_pos hlength]
    refine congrArg Except.ok (decide_eq_false fun h => h (.inl ?_)).symm
    exact_mod_cast hlength

/-- The counters of the walks: saturated at 255, and unbounded. -/
def SameCounts (counts : ℕ × ℕ) (numbers : ℤ × ℤ) : Prop :=
  ∃ paymentHashes descriptions : ℕ, counts = (min paymentHashes 255, min descriptions 255) ∧
    numbers = ((paymentHashes : ℤ), (descriptions : ℤ))

theorem saturatingInc_min (n : ℕ) : Bolt11.saturatingInc (min n 255) = min (n + 1) 255 := by
  rw [Bolt11.saturatingInc]
  omega

/-- The fields, side by side. -/
theorem walkFields_same {data : Bytes} (hlen : data.length < 2 ^ 63) {taggedEnd : ℕ}
    (hend : taggedEnd ≤ data.length) (rounds : ℕ) :
    ∀ i paymentHashes descriptions : ℕ,
      InStep SameCounts
        (Bolt11.walkFields data taggedEnd rounds i (min paymentHashes 255) (min descriptions 255))
        (walkFields (data.map lowered) taggedEnd rounds i paymentHashes descriptions) := by
  induction rounds with
  | zero => exact fun i paymentHashes descriptions => .goesOn ⟨_, _, rfl, rfl⟩
  | succ rounds ih =>
    intro i paymentHashes descriptions
    rw [Bolt11.walkFields, walkFields]
    by_cases hi : i < taggedEnd
    · rw [if_pos hi, if_pos (by exact_mod_cast hi), add_ok (by rw [Bolt11.usize]; omega)]
      refine InStep.bind (x := Body.require (i + 3 ≤ taggedEnd))
        (InStep.require (by rw [decide_eq_true_iff]; exact_mod_cast Iff.rfl)) fun _ _ hheader => ?_
      have hheader : i + 3 ≤ taggedEnd := by exact_mod_cast hheader
      have htag := @valueAt_map data i (by omega)
      have hhigh := @valueAt_map data (i + 1) (by omega)
      have hlow := @valueAt_map data (i + 2) (by omega)
      push_cast at hhigh hlow
      have hadd1 : Body.add Bolt11.usize i 1 = .ok (i + 1) := add_ok (by rw [Bolt11.usize]; omega)
      have hadd2 : Body.add Bolt11.usize i 2 = .ok (i + 2) := add_ok (by rw [Bolt11.usize]; omega)
      simp only [ok_bind, hadd1, hadd2, @index_ok data i (by omega), @index_ok data (i + 1) (by omega),
        @index_ok data (i + 2) (by omega), htag, hhigh, hlow]
      -- the three words of the header are looked up one by one, and together
      obtain ⟨tag, htag, -, htagi⟩ | ⟨htag, htagi⟩ := indexOf_lowered data[i]
      case inr =>
        rw [htag, htagi, guard, if_neg (by omega)]
        exact .returned
      obtain ⟨high, hhigh, hhighlt, hhighi⟩ | ⟨hhigh, hhighi⟩ := indexOf_lowered data[i + 1]
      case inr =>
        rw [htag, hhigh, hhighi, guard, if_neg (by omega)]
        exact .returned
      obtain ⟨low, hlow, hlowlt, hlowi⟩ | ⟨hlow, hlowi⟩ := indexOf_lowered data[i + 2]
      case inr =>
        rw [htag, hhigh, hlow, hlowi, guard, if_neg (by omega)]
        exact .returned
      rw [htag, hhigh, hlow, htagi, hhighi, hlowi, guard, if_pos (by omega), pure_bind]
      simp only [orReturn_some, ok_bind]
      obtain ⟨hlength, hlt⟩ := fieldLength_same hhighlt hlowlt
      rw [hlength]
      generalize high.toNat <<< 5 ||| low.toNat = fieldLength at hlt ⊢
      rw [if_pos (by rw [Bolt11.usize]; omega), orReturn_some, ok_bind]
      have hcast : (i : ℤ) + 3 + (fieldLength : ℕ) = ((i + 3 + fieldLength : ℕ) : ℤ) := by
        push_cast
        rfl
      rw [hcast]
      refine InStep.bind (x := Body.require (i + 3 + fieldLength ≤ taggedEnd))
        (InStep.require (by rw [decide_eq_true_iff]; exact_mod_cast Iff.rfl)) fun _ _ hfield => ?_
      have hfield : i + 3 + fieldLength ≤ taggedEnd := by exact_mod_cast hfield
      have htags : ∀ n : UInt8, tag = n ↔ (tag.toNat : ℤ) = (n.toNat : ℕ) := by
        intro n
        rw [← UInt8.toNat_inj]
        exact_mod_cast Iff.rfl
      have hhash := @hashFieldOk_same data fieldLength (i + 3 + fieldLength) (by omega) (by omega)
      have hguard := @InStep.require
        (hashFieldOk (data.map lowered) fieldLength (i + 3 + fieldLength : ℕ))
        (hashFieldOk (data.map lowered) fieldLength (i + 3 + fieldLength : ℕ) = true) _ Iff.rfl
      rw [hhash, saturatingInc_min, saturatingInc_min]
      have heq1 : (tag.toNat : ℤ) = 1 ↔ tag = 1 := (htags 1).symm
      have heq13 : (tag.toNat : ℤ) = 13 ↔ tag = 13 := (htags 13).symm
      have heq23 : (tag.toNat : ℤ) = 23 ↔ tag = 23 := (htags 23).symm
      by_cases h1 : tag = 1
      · rw [if_pos h1, if_pos (heq1.mpr h1)]
        exact hguard.bind fun _ _ _ => ih _ _ _
      · rw [if_neg h1, if_neg (mt heq1.mp h1)]
        by_cases h13 : tag = 13
        · rw [if_pos h13, if_pos (heq13.mpr h13)]
          exact ih _ _ _
        · rw [if_neg h13, if_neg (mt heq13.mp h13)]
          by_cases h23 : tag = 23
          · rw [if_pos h23, if_pos (heq23.mpr h23)]
            exact hguard.bind fun _ _ _ => ih _ _ _
          · rw [if_neg h23, if_neg (mt heq23.mp h23)]
            exact ih _ _ _
    · rw [if_neg hi, if_neg (by exact_mod_cast hi)]
      exact .goesOn ⟨_, _, rfl, rfl⟩

/-! ### The signature -/

/-- Where both decodings stand when there are some words to come: the array filled up to the
count, and the list. The bits seen so far and those to come are 65 bytes. -/
structure SameWords (left : ℕ) (words : Bolt11.Words) (numbers : Words) (bytes : Bytes) : Prop where
  accumulator : toInt32 numbers.accumulator = words.accumulator
  bits : numbers.bits = (words.bits : ℤ)
  few : words.bits < 8
  count : words.byteCount = bytes.length
  array : words.signatureBytes = bytes ++ List.replicate (65 - bytes.length) 0
  list : numbers.signatureBytes = bytes.map fun byte => (byte.toNat : ℤ)
  total : 8 * bytes.length + words.bits + 5 * left = 520

theorem mask_same : ∀ bits < 8,
    toInt32 (shiftLeft 1 (bits : ℕ) - 1) = (1#32 <<< bits) - 1 := by
  decide

variable (bytes : Bytes) (byte : UInt8)

theorem set_concat (n : ℕ) :
    (bytes ++ List.replicate (n + 1) 0).set bytes.length byte =
      (bytes ++ [byte]) ++ List.replicate n 0 := by
  rw [set_append_right _ _ le_rfl, Nat.sub_self, replicate_succ, set_cons_zero,
    append_assoc, singleton_append]

theorem decoded_same {x : ℤ} {b : BitVec 32} (h : toInt32 x = b) {bits : ℕ} (hbits : bits < 8) :
    bitAnd (shiftRight x (bits : ℕ)) 0xff =
      (((⟨((b >>> bits) &&& 0xff#32).setWidth 8⟩ : UInt8).toNat : ℕ) : ℤ) := by
  have hlt : ((b >>> bits) &&& 0xff#32).toNat < 256 := by
    rw [BitVec.toNat_and]
    exact lt_of_le_of_lt Nat.and_le_right (by decide)
  have hbyte : (⟨((b >>> bits) &&& 0xff#32).setWidth 8⟩ : UInt8).toNat =
      ((b >>> bits) &&& 0xff#32).toNat := by
    show (((b >>> bits) &&& 0xff#32).setWidth 8).toNat = _
    rw [BitVec.toNat_setWidth]
    omega
  rw [hbyte]
  refine toInt_of_lt ?_ (by omega)
  rw [toInt32_shiftRight, h, shiftCount_natCast (by omega)]
  rfl

theorem decodeWord_same {left : ℕ} {words : Bolt11.Words} {numbers : Words} {bytes : Bytes}
    (h : SameWords (left + 1) words numbers bytes) (byte : UInt8) :
    InStep (fun words numbers => ∃ bytes, SameWords left words numbers bytes)
      (Bolt11.decodeWord words byte) (decodeWord numbers (lowered byte)) := by
  have hfew := h.few
  have htotal := h.total
  rw [Bolt11.decodeWord, decodeWord]
  obtain ⟨value, hvalue, -, hindex⟩ | ⟨hvalue, hindex⟩ := indexOf_lowered byte
  case inr =>
    rw [hvalue, hindex]
    exact .returned
  rw [hvalue, hindex, orReturn_some, ok_bind]
  dsimp only
  rw [guard, if_pos (by omega), pure_bind]
  have hacc : toInt32 (bitOr (shiftLeft numbers.accumulator 5) (value.toNat : ℕ)) =
      (words.accumulator <<< 5) ||| Bolt11.toU32 value := by
    rw [toInt32_bitOr, toInt32_shiftLeft, h.accumulator, toInt32_value rfl]
    rfl
  rw [add_ok (by omega), ok_bind]
  have hcast : numbers.bits + 5 = ((words.bits + 5 : ℕ) : ℤ) := by
    rw [h.bits]
    rfl
  rw [hcast]
  by_cases hbits : 8 ≤ words.bits + 5
  · have hsub : ((words.bits + 5 : ℕ) : ℤ) - 8 = ((words.bits + 5 - 8 : ℕ) : ℤ) := by omega
    rw [if_pos hbits, if_pos (by omega), sub_ok hbits, ok_bind, hsub]
    have hroom : words.byteCount < words.signatureBytes.length := by
      rw [h.count, h.array, length_append, length_replicate]
      omega
    rw [Body.require, if_pos (decide_eq_true hroom), ok_bind]
    refine .goesOn ⟨bytes ++ [⟨((((words.accumulator <<< 5) ||| Bolt11.toU32 value) >>>
      (words.bits + 5 - 8)) &&& 0xff#32).setWidth 8⟩], ?_, rfl, ?_, ?_, ?_, ?_, ?_⟩
    · rw [toInt32_bitAnd, hacc, mask_same _ (by omega)]
    · show words.bits + 5 - 8 < 8
      omega
    · rw [length_append, h.count, length_singleton]
    · have hleft : 65 - bytes.length = (65 - (bytes.length + 1)) + 1 := by omega
      rw [h.array, h.count, hleft, set_concat, length_append, length_singleton]
      rfl
    · rw [h.list, map_append, map_singleton, decoded_same hacc (by omega)]
    · rw [length_append, length_singleton]
      dsimp only
      omega
  · rw [if_neg hbits, if_neg (by omega)]
    refine .goesOn ⟨bytes, hacc, rfl, ?_, h.count, h.array, h.list, ?_⟩
    · show words.bits + 5 < 8
      omega
    · show 8 * bytes.length + (words.bits + 5) + 5 * left = 520
      omega

/-- The words, side by side. -/
theorem decodeWords_same : ∀ (encoded : Bytes) {words : Bolt11.Words} {numbers : Words}
    {bytes : Bytes}, SameWords encoded.length words numbers bytes →
      InStep (fun words numbers => ∃ bytes, SameWords 0 words numbers bytes)
        (encoded.foldlM Bolt11.decodeWord words) ((encoded.map lowered).foldlM decodeWord numbers)
  | [], _, _, bytes, h => .goesOn ⟨bytes, h⟩
  | byte :: encoded, words, numbers, bytes, h => by
    rw [foldlM_cons, map_cons, foldlM_cons]
    exact (decodeWord_same h byte).bind fun _ _ ⟨_, hnext⟩ => decodeWords_same encoded hnext

/-! ### The scalars -/

theorem scalar_eq :
    (bytes.map fun byte => (byte.toNat : ℤ)).foldl
      (fun scalar byte => (scalar <<< 8) ||| byte.toNat) 0 = ofBeBytes bytes := by
  rw [foldl_map, ofBeBytes]
  refine congrArg (List.foldl · 0 bytes) (funext fun scalar => funext fun byte => ?_)
  rw [Int.toNat_natCast, ← Nat.shiftLeft_add_eq_or_of_lt byte.toNat_lt, Nat.shiftLeft_eq]

/-- The scalars, side by side. -/
theorem scalar_same {bytes : Bytes} (h : bytes.length = 32) :
    isValidSecp256k1Scalar (bytes.map fun byte => (byte.toNat : ℤ)) =
      Bolt11.isValidSecp256k1Scalar bytes := by
  have horder : ofBeBytes Bolt11.curveOrder = secp256k1Order := by decide
  rw [isValidSecp256k1Scalar, Bolt11.isValidSecp256k1Scalar, scalar_eq, ← horder, Bool.eq_iff_iff,
    Bool.and_eq_true, Bool.and_eq_true, decide_eq_true_iff, decide_eq_true_iff, decide_eq_true_iff,
    ofBeBytes_pos_iff, lt_iff_ofBeBytes (h.trans (show 32 = Bolt11.curveOrder.length by decide))]

theorem signatureOk_same {words : Bolt11.Words} {numbers : Words} {bytes : Bytes}
    (h : SameWords 0 words numbers bytes) :
    (Bolt11.signatureOk words).answer = some (signatureOk numbers) := by
  have htotal := h.total
  have hfew := h.few
  have hlen : bytes.length = 65 := by omega
  have hbits : words.bits = 0 := by omega
  have harray : words.signatureBytes = bytes := by
    rw [h.array, hlen]
    exact append_nil _
  have hcount : words.byteCount = 65 := h.count.trans hlen
  have hlist : numbers.signatureBytes.length = 65 := by rw [h.list, length_map, hlen]
  have hnumbits : numbers.bits = 0 := by
    rw [h.bits, hbits]
    rfl
  have hget : numbers.signatureBytes[64]? = some ((bytes[64].toNat : ℕ) : ℤ) := by
    rw [h.list, List.getElem?_map, List.getElem?_eq_getElem (by omega)]
    rfl
  have hfirst : isValidSecp256k1Scalar (numbers.signatureBytes.take 32) =
      Bolt11.isValidSecp256k1Scalar ((bytes.take 32).drop 0) := by
    rw [h.list, ← map_take, drop_zero,
      scalar_same (by rw [length_take, hlen]; rfl)]
  have hsecond : isValidSecp256k1Scalar ((numbers.signatureBytes.take 64).drop 32) =
      Bolt11.isValidSecp256k1Scalar ((bytes.take 64).drop 32) := by
    rw [h.list, ← map_take, ← map_drop,
      scalar_same (by rw [length_drop, length_take, hlen]; rfl)]
  rw [Bolt11.signatureOk, signatureOk, hcount, hbits, harray, hget, hlist, hnumbits, hfirst, hsecond,
    slice_ok (by decide) (by omega), slice_ok (by decide) (by omega),
    @index_ok bytes 64 (by omega)]
  have hrecovery : bytes[64] ≤ 3 ↔ ((bytes[64].toNat : ℕ) : ℤ) ≤ 3 := by
    rw [UInt8.le_iff_toNat_le]
    exact_mod_cast Iff.rfl
  simp only [ok_bind]
  generalize Bolt11.isValidSecp256k1Scalar ((bytes.take 32).drop 0) = first
  generalize Bolt11.isValidSecp256k1Scalar ((bytes.take 64).drop 32) = second
  show Body.answer (do
    Body.require (decide (bytes[64] ≤ 3))
    Body.require first
    pure second) = some (decide (((bytes[64].toNat : ℕ) : ℤ) ≤ 3) && first && second)
  by_cases h3 : bytes[64] ≤ 3
  · rw [decide_eq_true h3, decide_eq_true (hrecovery.mp h3)]
    cases first <;> rfl
  · rw [decide_eq_false h3, decide_eq_false (mt hrecovery.mpr h3)]
    rfl

/-! ### The whole -/

theorem dataOk_same (hrp : Bytes) {data : Bytes} (hlen : data.length < 2 ^ 63) :
    (Bolt11.dataOk hrp data).answer =
      some ((dataOk (hrp.map lowered) (data.map lowered)).getD false) := by
  rw [Bolt11.dataOk, dataOk, length_map]
  refine InStep.answers (InStep.require decide_eq_true_iff) fun _ _ hwords => ?_
  refine InStep.answers (invoiceChecksum_same hrp data) fun checksum number hchecksum => ?_
  refine InStep.answers (x := Body.require (checksum == 1)) (InStep.require ?_) fun _ _ _ => ?_
  · rw [hchecksum, beq_iff_eq, ← BitVec.toNat_inj]
    exact_mod_cast Iff.rfl
  rw [sub_ok (by omega), ok_bind, sub_ok (by omega), ok_bind]
  have hcast : (data.length : ℤ) - 6 - 104 = ((data.length - 6 - 104 : ℕ) : ℤ) := by omega
  dsimp only
  rw [hcast]
  generalize htagged : data.length - 6 - 104 = taggedEnd
  refine InStep.answers (x := Body.require (7 ≤ taggedEnd)) (InStep.require ?_) fun _ _ _ => ?_
  · rw [decide_eq_true_iff]
    exact_mod_cast Iff.rfl
  have hrounds : ((taggedEnd : ℤ) - 7).toNat = taggedEnd - 7 := by omega
  rw [hrounds]
  refine InStep.answers
    (walkFields_same hlen (show taggedEnd ≤ data.length by omega) (taggedEnd - 7) 7 0 0)
    fun counts numbers hcounts => ?_
  obtain ⟨p, d, rfl, rfl⟩ := hcounts
  refine InStep.answers (x := Body.require (min p 255 == 1 && min d 255 == 1)) (InStep.require ?_)
    fun _ _ _ => ?_
  · rw [Bool.and_eq_true, beq_iff_eq, beq_iff_eq]
    dsimp only
    omega
  have hslice : slice (data.map lowered) ((taggedEnd : ℕ) : ℤ).toNat (data.length - 6) =
      ((data.take (data.length - 6)).drop taggedEnd).map lowered := by
    rw [slice, Int.toNat_natCast, map_drop, map_take]
  have hleft : ((data.take (data.length - 6)).drop taggedEnd).length = 104 := by
    rw [length_drop, length_take]
    omega
  rw [slice_ok (by omega) (by omega), ok_bind, hslice]
  refine InStep.answers (@decodeWords_same _ _ _ [] ?_) fun words numbers h => ?_
  · rw [hleft]
    exact ⟨rfl, rfl, by decide, rfl, rfl, rfl, rfl⟩
  · obtain ⟨bytes, hwords⟩ := h
    exact signatureOk_same hwords

theorem isUpper_wide : 65 ≤ byte.toUInt16 ∧ byte.toUInt16 ≤ 90 ↔ isAsciiUppercase byte = true := by
  rw [isAsciiUppercase, decide_eq_true_iff, UInt16.le_iff_toNat_le, UInt16.le_iff_toNat_le,
    UInt8.le_iff_toNat_le, UInt8.le_iff_toNat_le, UInt8.toNat_toUInt16]
  rfl

theorem isLower_wide : 97 ≤ byte.toUInt16 ∧ byte.toUInt16 ≤ 122 ↔ isAsciiLowercase byte = true := by
  rw [isAsciiLowercase, decide_eq_true_iff, UInt16.le_iff_toNat_le, UInt16.le_iff_toNat_le,
    UInt8.le_iff_toNat_le, UInt8.le_iff_toNat_le, UInt8.toNat_toUInt16]
  rfl

theorem add_wide {byte : UInt8} (h : isAsciiUppercase byte = true) :
    byte.toUInt16 + 32 = (byte + 32).toUInt16 := by
  have hle : byte.toNat ≤ 90 := (of_decide_eq_true h).2
  rw [← UInt16.toNat_inj, UInt16.toNat_add, UInt8.toNat_toUInt16, UInt8.toNat_toUInt16,
    UInt8.toNat_add]
  show (byte.toNat + 32) % 2 ^ 16 = (byte.toNat + 32) % 2 ^ 8
  omega

theorem toLowerCase_wide : toLowerCase (wide bytes) = bytes.map lowered := by
  rw [toLowerCase, wide, map_map]
  refine map_congr_left fun byte _ => ?_
  rw [Function.comp, lowered, toAsciiLowercase]
  by_cases h : isAsciiUppercase byte = true
  · rw [if_pos ((isUpper_wide byte).mpr h), if_pos h, add_wide h]
  · rw [if_neg (mt (isUpper_wide byte).mp h), if_neg h]

theorem eq_map_iff {wides : UInt16 → UInt16} {p : UInt8 → Bool}
    (h : ∀ byte : UInt8, byte.toUInt16 = wides byte.toUInt16 ↔ p byte = false) :
    wide bytes = (wide bytes).map wides ↔ bytes.any p = false := by
  rw [wide, map_map, map_inj_left, any_eq_false]
  refine forall₂_congr fun byte _ => ?_
  rw [Function.comp, h, Bool.not_eq_true]

theorem eq_toLowerCase_iff :
    wide bytes = toLowerCase (wide bytes) ↔ bytes.any isAsciiUppercase = false := by
  refine eq_map_iff bytes fun byte => ?_
  by_cases h : isAsciiUppercase byte = true
  · rw [if_pos ((isUpper_wide byte).mpr h), h]
    refine iff_of_false (fun heq => ?_) (by decide)
    have hle := ((isUpper_wide byte).mpr h).2
    have hnat := congrArg UInt16.toNat heq
    rw [UInt16.le_iff_toNat_le] at hle
    rw [UInt16.toNat_add] at hnat
    have hle : byte.toUInt16.toNat ≤ 90 := hle
    have hnat : byte.toUInt16.toNat = (byte.toUInt16.toNat + 32) % 2 ^ 16 := hnat
    omega
  · rw [if_neg (mt (isUpper_wide byte).mp h)]
    exact iff_of_true rfl (Bool.not_eq_true _ |>.mp h)

theorem eq_toUpperCase_iff :
    wide bytes = toUpperCase (wide bytes) ↔ bytes.any isAsciiLowercase = false := by
  refine eq_map_iff bytes fun byte => ?_
  by_cases h : isAsciiLowercase byte = true
  · rw [if_pos ((isLower_wide byte).mpr h), h]
    refine iff_of_false (fun heq => ?_) (by decide)
    have hbounds := (isLower_wide byte).mpr h
    rw [UInt16.le_iff_toNat_le, UInt16.le_iff_toNat_le] at hbounds
    have hge : 97 ≤ byte.toUInt16.toNat := hbounds.1
    have hnat := congrArg UInt16.toNat heq
    rw [UInt16.toNat_sub_of_le _ _ (by rw [UInt16.le_iff_toNat_le]; exact le_trans (by decide) hge)]
      at hnat
    have hnat : byte.toUInt16.toNat = byte.toUInt16.toNat - 32 := hnat
    omega
  · rw [if_neg (mt (isLower_wide byte).mp h)]
    exact iff_of_true rfl (Bool.not_eq_true _ |>.mp h)

theorem lowered_eq_separator : (lowered byte == 49) = (byte == 49) := by
  rw [Bool.eq_iff_iff, beq_iff_eq, beq_iff_eq, lowered, toAsciiLowercase]
  by_cases h : isAsciiUppercase byte = true
  · have hbounds := of_decide_eq_true h
    rw [UInt8.le_iff_toNat_le, UInt8.le_iff_toNat_le] at hbounds
    have hge : 65 ≤ byte.toNat := hbounds.1
    have hle : byte.toNat ≤ 90 := hbounds.2
    rw [if_pos h, ← add_wide h, ← UInt16.toNat_inj, UInt16.toNat_add, UInt8.toNat_toUInt16,
      ← UInt8.toNat_inj]
    show (byte.toNat + 32) % 2 ^ 16 = 49 ↔ byte.toNat = 49
    omega
  · rw [if_neg h]
    exact ⟨fun heq => @toUInt16_injective byte 49 heq, fun heq => by rw [heq]; rfl⟩

theorem separator_same :
    Bolt11.separatorPosition bytes = none ∧ lastIndexOf (bytes.map lowered) 49 = -1 ∨
    ∃ separator < bytes.length, Bolt11.separatorPosition bytes = some separator ∧
      lastIndexOf (bytes.map lowered) 49 = (separator : ℤ) := by
  have hfind : (bytes.map lowered).reverse.idxOf? 49 = bytes.reverse.idxOf? 49 := by
    rw [← map_reverse, List.idxOf?, List.idxOf?, List.findIdx?_map]
    exact congrArg (List.findIdx? · bytes.reverse) (funext lowered_eq_separator)
  rw [lastIndexOf, Bolt11.separatorPosition, hfind, length_map]
  cases hidx : bytes.reverse.idxOf? 49 with
  | none => exact .inl ⟨rfl, rfl⟩
  | some i =>
    obtain ⟨hlt, -⟩ := List.findIdx?_eq_some_iff_getElem.mp hidx
    rw [length_reverse] at hlt
    refine .inr ⟨bytes.length - 1 - i, by omega, rfl, ?_⟩
    show (bytes.length : ℤ) - 1 - i = _
    omega

/-- Both bodies answer alike on the bytes and the code units of an ASCII string. -/
theorem body_same {bytes : Bytes} (hascii : bytes.all (· < 128) = true)
    (hlen : bytes.length < 2 ^ 63) :
    (Bolt11.body bytes).answer = some ((body (wide bytes)).getD false) := by
  by_cases hne : bytes = []
  · rw [hne]
    rfl
  have hunits : wide bytes ≠ [] ∧ (wide bytes).all (· ≤ 0x7f) = true := by
    refine ⟨fun h => hne (List.map_eq_nil_iff.mp h), ?_⟩
    rw [wide, all_map, all_eq_true]
    intro byte hbyte
    have hlow := of_decide_eq_true (List.all_eq_true.mp hascii byte hbyte)
    rw [UInt8.lt_iff_toNat_lt] at hlow
    have hlow : byte.toNat < 128 := hlow
    refine decide_eq_true ?_
    rw [UInt16.le_iff_toNat_le, UInt8.toNat_toUInt16]
    exact Nat.le_of_lt_succ hlow
  rw [Bolt11.body, body]
  refine InStep.answers (InStep.require (iff_of_true hascii hunits)) fun _ _ _ => ?_
  refine InStep.answers (InStep.require ?_) fun _ _ _ => ?_
  · rw [eq_toLowerCase_iff, eq_toUpperCase_iff]
    cases bytes.any isAsciiLowercase <;> cases bytes.any isAsciiUppercase <;> decide
  dsimp only
  rw [toLowerCase_wide, length_map]
  obtain ⟨hnone, hlast⟩ | ⟨separator, hlt, hsome, hlast⟩ := separator_same bytes
  · rw [hnone, hlast, guard, if_neg (by omega)]
    rfl
  rw [hsome, hlast, orReturn_some, ok_bind, add_ok (by rw [Bolt11.usize]; omega), ok_bind]
  refine InStep.answers (InStep.require ?_) fun _ _ hinside => ?_
  · rw [Bool.not_eq_true', Bool.or_eq_false_iff, beq_eq_false_iff_ne, decide_eq_false_iff_not]
    omega
  have hhrp : slice (bytes.map lowered) 0 ((separator : ℕ) : ℤ).toNat =
      (bytes.take separator).map lowered := by
    rw [slice, Int.toNat_natCast, map_take, drop_zero]
  have hdata : (bytes.map lowered).drop ((separator : ℤ) + 1).toNat =
      (bytes.drop (separator + 1)).map lowered := by
    rw [← map_drop]
    rfl
  have hrest : bytes.length - separator ≥ 1 := by omega
  rw [slice_ok (by omega) (by omega), slice_ok (by omega) le_rfl, ok_bind, ok_bind, hhrp, hdata,
    slice_ok (by rw [length_drop, length_take]; omega) le_rfl, ok_bind, hrp_same, ok_bind,
    drop_zero, take_length, take_length, drop_drop]
  refine InStep.answers (InStep.require Iff.rfl) fun _ _ _ => ?_
  exact dataOk_same _ (by rw [length_drop]; omega)

end ParseContent

/-! ### Strings -/

namespace RustStr

/-- The string in the client: the same characters in UTF-16. -/
def units (s : RustStr) : JsString := ofChars s.chars

theorem units_ascii {cs : List Char} (h : ∀ c ∈ cs, c.toNat < 128) :
    ofChars cs = ParseContent.wide (Utf8.bytes cs) ∧
      (Utf8.bytes cs).all (· < 128) = true := by
  induction cs with
  | nil => exact ⟨rfl, rfl⟩
  | cons c cs ih =>
    have hc := h c mem_cons_self
    obtain ⟨hunits, hall⟩ := ih fun d hd => h d (mem_cons_of_mem _ hd)
    have hunit : unit c = (Utf8.byteOf c).toUInt16 := by
      rw [← UInt16.toNat_inj, UInt8.toNat_toUInt16, toNat_unit (by omega), Utf8.toNat_byteOf hc]
    have hbyte : Utf8.byteOf c < 128 := by
      rw [UInt8.lt_iff_toNat_lt, Utf8.toNat_byteOf hc]
      exact hc
    rw [Utf8.bytes_cons, Utf8.encodeChar_ascii hc, singleton_append, all_cons, hall,
      decide_eq_true hbyte]
    refine ⟨?_, rfl⟩
    rw [ofChars, flatMap_cons, (utf16_low (show c.toNat < 0x10000 by omega)).1, hunit]
    exact congrArg (_ :: ·) hunits

theorem not_ascii {cs : List Char} {c : Char} (hc : c ∈ cs) (h : ¬ c.toNat < 128) :
    (Utf8.bytes cs).all (· < 128) = false ∧ (ofChars cs).all (· ≤ 0x7f) = false := by
  constructor
  · obtain ⟨lead, more, hencode, hlead, -⟩ := Utf8.encodeChar_long (Nat.not_lt.mp h)
    refine List.all_eq_false.mpr ⟨lead, List.mem_flatMap.mpr ⟨c, hc, ?_⟩, ?_⟩
    · rw [hencode]
      exact mem_cons_self
    · rw [decide_eq_true_iff, UInt8.lt_iff_toNat_lt]
      show ¬ lead.toNat < 128
      omega
  · have hunit : ∃ u ∈ utf16 c, 128 ≤ u.toNat := by
      by_cases hlow : c.toNat < 0x10000
      · refine ⟨unit c, ?_, ?_⟩
        · rw [(utf16_low hlow).1]
          exact mem_singleton_self _
        · rw [toNat_unit hlow]
          omega
      · obtain ⟨u, v, huv, hlead, -⟩ := utf16_high hlow
        refine ⟨u, ?_, ?_⟩
        · rw [huv]
          exact mem_cons_self
        · have := (isLead_iff u).mp hlead
          omega
    obtain ⟨u, hu, hge⟩ := hunit
    refine List.all_eq_false.mpr ⟨u, List.mem_flatMap.mpr ⟨c, hc, hu⟩, ?_⟩
    rw [decide_eq_true_iff, UInt16.le_iff_toNat_le]
    show ¬ u.toNat ≤ 127
    omega

end RustStr

theorem isWellFormedBolt11_eq (invoice : RustStr) :
    isWellFormedBolt11 invoice.bytes = some (ParseContent.isWellFormedBolt11 invoice.units) := by
  by_cases h : ∀ c ∈ invoice.chars, c.toNat < 128
  · obtain ⟨hunits, hascii⟩ := RustStr.units_ascii h
    rw [ParseContent.isWellFormedBolt11, RustStr.units, hunits]
    exact ParseContent.body_same hascii invoice.fits
  · -- both refuse the string at once
    push Not at h
    obtain ⟨c, hc, hlong⟩ := h
    obtain ⟨hbytes, hunits⟩ := RustStr.not_ascii hc (Nat.not_lt.mpr hlong)
    have hts : ParseContent.body invoice.units = none := by
      rw [ParseContent.body, guard, if_neg]
      · rfl
      · rintro ⟨-, hall⟩
        rw [RustStr.units, hunits] at hall
        contradiction
    have hrust : Bolt11.body invoice.bytes = .error (.returned false) := by
      rw [Bolt11.body, RustStr.bytes, hbytes]
      rfl
    rw [isWellFormedBolt11, hrust, ParseContent.isWellFormedBolt11, hts]
    rfl

/-- **The two validators agree**: on every string the one in Rust does not fault, and gives
the answer of the one in TypeScript. -/
theorem bolt11_validators_agree (invoice : RustStr) :
    isWellFormedBolt11 invoice.bytes = some (ParseContent.isWellFormedBolt11 invoice.units) :=
  isWellFormedBolt11_eq invoice

end Nipworker
