/-
What the checksum of an invoice notices.
-/
import Nipworker.Client.Bolt11Agreement

namespace Nipworker

open List Option

namespace Bolt11

/-! ### What an accepted invoice has passed -/

theorem of_require {c : Bool} {f : Unit → Body Bool}
    (h : (Body.require c >>= f).answer = some true) : c = true ∧ (f ()).answer = some true := by
  cases c with
  | true => exact ⟨rfl, h⟩
  | false =>
    have hfalse : (Body.require false >>= f).answer = some false := rfl
    rw [hfalse] at h
    contradiction

theorem of_orReturn {α : Type} {o : Option α} {f : α → Body Bool}
    (h : (Body.orReturn o >>= f).answer = some true) :
    ∃ a, o = some a ∧ (f a).answer = some true := by
  cases o with
  | some a => exact ⟨a, rfl, h⟩
  | none =>
    have hfalse : (Body.orReturn none >>= f).answer = some false := rfl
    rw [hfalse] at h
    contradiction

theorem of_add {values a b : ℕ} {f : ℕ → Body Bool}
    (h : (Body.add values a b >>= f).answer = some true) : (f (a + b)).answer = some true := by
  by_cases hlt : a + b < values
  · rw [Body.add_ok hlt] at h
    exact h
  · rw [Body.add, if_neg hlt] at h
    contradiction

theorem of_call {x : Body Bool} {f : Bool → Body Bool}
    (h : (x.call >>= f).answer = some true) :
    ∃ answer, x.answer = some answer ∧ (f answer).answer = some true := by
  rw [Body.call] at h
  cases hx : x.answer with
  | some answer =>
    rw [hx] at h
    exact ⟨answer, rfl, h⟩
  | none =>
    rw [hx] at h
    contradiction

variable {hrp data : Bytes}

theorem separatorPosition_append (h : 49 ∉ data) :
    separatorPosition (hrp ++ 49 :: data) = some hrp.length := by
  have hnone : data.reverse.findIdx? (· == (49 : UInt8)) = none := by
    rw [List.findIdx?_eq_none_iff]
    intro byte hbyte
    rw [beq_eq_false_iff_ne]
    rintro rfl
    exact h (List.mem_reverse.mp hbyte)
  have hfind : (hrp ++ 49 :: data).reverse.idxOf? 49 = some data.length := by
    rw [reverse_append, reverse_cons, append_assoc, List.idxOf?, List.findIdx?_append,
      hnone, singleton_append, List.findIdx?_cons, length_reverse]
    exact congrArg some (Nat.zero_add _)
  rw [separatorPosition, hfind, length_append, length_cons]
  show some (hrp.length + (data.length + 1) - 1 - data.length) = _
  exact congrArg some (by omega)

def word (byte : UInt8) : BitVec 32 := toU32 ((bech32Value byte).getD 0)

def hrpChecksum (hrp : Bytes) : BitVec 32 :=
  hrp.foldl (fun checksum byte => bech32PolymodStep checksum (toAsciiLowercase byte &&& 0x1f))
    (bech32PolymodStep
      (hrp.foldl (fun checksum byte => bech32PolymodStep checksum (toAsciiLowercase byte >>> 5)) 1)
      0)

theorem invoiceChecksum_ok {checksum : BitVec 32} (h : invoiceChecksum hrp data = .ok checksum) :
    (∀ byte ∈ data, (bech32Value byte).isSome = true) ∧
      checksum = Bech32.polymod (hrpChecksum hrp) (data.map word) := by
  have hloop : ∀ (data : Bytes) (start : BitVec 32),
      (data.foldlM (fun checksum byte => do
        let value ← Body.orReturn (bech32Value byte)
        pure (bech32PolymodStep checksum value)) start : Body (BitVec 32)) = .ok checksum →
      (∀ byte ∈ data, (bech32Value byte).isSome = true) ∧
        checksum = Bech32.polymod start (data.map word) := by
    intro data
    induction data with
    | nil =>
      intro start hstart
      exact ⟨fun _ hmem => absurd hmem not_mem_nil, (Except.ok.inj hstart).symm⟩
    | cons byte data ih =>
      intro start hstart
      rw [foldlM_cons] at hstart
      cases hvalue : bech32Value byte with
      | none =>
        rw [hvalue] at hstart
        contradiction
      | some value =>
        rw [hvalue] at hstart
        obtain ⟨hall, hchecksum⟩ := ih _ hstart
        refine ⟨?_, ?_⟩
        · intro b hb
          rcases List.mem_cons.mp hb with rfl | hmem
          · rw [hvalue, isSome_some]
          · exact hall b hmem
        · have hword : word byte = toU32 value := by rw [word, hvalue, getD_some]
          rw [hchecksum, map_cons, hword]
          rfl
  exact hloop data _ h

theorem parts_of_accepted (hdata : 49 ∉ data)
    (h : isWellFormedBolt11 (hrp ++ 49 :: data) = some true) :
    ¬ ((hrp ++ 49 :: data).any isAsciiLowercase = true ∧
      (hrp ++ 49 :: data).any isAsciiUppercase = true) ∧
    (isValidBolt11Hrp hrp).answer = some true ∧ (dataOk hrp data).answer = some true := by
  rw [isWellFormedBolt11, body] at h
  obtain ⟨-, h⟩ := of_require h
  obtain ⟨hcase, h⟩ := of_require h
  rw [separatorPosition_append hdata, Body.orReturn_some, Body.ok_bind] at h
  have hslice : Body.slice (hrp ++ 49 :: data) 0 hrp.length = .ok hrp := by
    rw [Body.slice_ok (Nat.zero_le _) (by rw [length_append]; omega), take_left']
    · rfl
    · rfl
  have hrest : Body.slice (hrp ++ 49 :: data) hrp.length (hrp ++ 49 :: data).length =
      .ok (49 :: data) := by
    rw [Body.slice_ok (by rw [length_append]; omega) le_rfl, take_length,
      drop_left' rfl]
  have hdata : Body.slice (49 :: data) 1 (49 :: data).length = .ok data := by
    rw [Body.slice_ok (by rw [length_cons]; omega) le_rfl, take_length]
    rfl
  have h := of_add h
  obtain ⟨-, h⟩ := of_require h
  rw [hslice, hrest, Body.ok_bind, Body.ok_bind, hdata, Body.ok_bind] at h
  obtain ⟨answer, hhrp, h⟩ := of_call h
  obtain ⟨hanswer, hdataOk⟩ := of_require h
  rw [hanswer] at hhrp
  refine ⟨?_, hhrp, hdataOk⟩
  rw [Bool.not_eq_true', Bool.and_eq_false_iff] at hcase
  rintro ⟨hlower, hupper⟩
  rw [hlower, hupper] at hcase
  contradiction

/-- Behind the separator of an accepted invoice stands a text with checksum 1. -/
theorem checksum_of_accepted (hdata : 49 ∉ data)
    (h : isWellFormedBolt11 (hrp ++ 49 :: data) = some true) :
    ¬ ((hrp ++ 49 :: data).any isAsciiLowercase = true ∧
      (hrp ++ 49 :: data).any isAsciiUppercase = true) ∧
    (∃ first ∈ hrp, toAsciiLowercase first = 108) ∧
    invoiceChecksum hrp data = .ok 1 := by
  obtain ⟨hcase, hhrp, hdataOk⟩ := parts_of_accepted hdata h
  refine ⟨hcase, ?_, ?_⟩
  · -- the prefix begins with the letters `ln`
    rw [isValidBolt11Hrp] at hhrp
    obtain ⟨rest, hstrip, -⟩ := of_orReturn hhrp
    cases hrp with
    | nil => contradiction
    | cons first hrp =>
      refine ⟨first, mem_cons_self, ?_⟩
      by_contra hne
      have hprefix : ([108, 110] : Bytes).isPrefixOf ((first :: hrp).map toAsciiLowercase) = false := by
        rw [map_cons, isPrefixOf_cons_cons, beq_eq_false_iff_ne.mpr (Ne.symm hne),
          Bool.false_and]
      rw [strip, hprefix] at hstrip
      contradiction
  · rw [dataOk] at hdataOk
    obtain ⟨-, hsum⟩ := of_require hdataOk
    cases hchecksum : invoiceChecksum hrp data with
    | error exit =>
      rw [hchecksum, (ParseContent.invoiceChecksum_same hrp data).exit hchecksum] at hsum
      exact absurd (some.inj hsum) (by decide)
    | ok checksum =>
      rw [hchecksum, Body.ok_bind] at hsum
      obtain ⟨hone, -⟩ := of_require hsum
      rw [beq_iff_eq.mp hone]

/-! ### One character changed -/

theorem toU32_lt {value : UInt8} (h : value.toNat < 32) : (toU32 value).toNat < 32 := by
  rw [toU32, BitVec.toNat_setWidth, UInt8.toNat_toBitVec]
  omega

theorem word_lt (byte : UInt8) : (word byte).toNat < 32 := by
  refine toU32_lt ?_
  obtain ⟨value, hvalue, hlt, -⟩ | ⟨hvalue, -⟩ := ParseContent.indexOf_lowered byte
  · rw [hvalue, getD_some]
    exact hlt
  · rw [hvalue]
    decide

theorem fits_hrpChecksum (hrp : Bytes) : Bech32.Fits (hrpChecksum hrp) := by
  have hfold : ∀ (value : UInt8 → UInt8), (∀ byte, (value byte).toNat < 32) →
      ∀ (hrp : Bytes) {checksum : BitVec 32}, Bech32.Fits checksum →
        Bech32.Fits (hrp.foldl (fun checksum byte => bech32PolymodStep checksum (value byte))
          checksum) := by
    intro value hvalue hrp
    induction hrp with
    | nil => exact fun h => h
    | cons byte hrp ih => exact fun h => ih (Bech32.fits_polymodStep h (toU32_lt (hvalue byte)))
  refine hfold (fun byte => toAsciiLowercase byte &&& 0x1f) (fun byte => ?_) hrp
    (Bech32.fits_polymodStep (hfold (fun byte => toAsciiLowercase byte >>> 5) (fun byte => ?_) hrp
      (by decide)) (by decide))
  · rw [UInt8.toNat_and]
    exact Nat.lt_succ_of_le Nat.and_le_right
  · have hlt := (toAsciiLowercase byte).toNat_lt
    rw [UInt8.toNat_shiftRight]
    show (toAsciiLowercase byte).toNat >>> 5 < 32
    rw [Nat.shiftRight_eq_div_pow]
    omega

theorem index_of_isSome {byte : UInt8} (h : (bech32Value byte).isSome = true) :
    ∃ i < 32, bech32Charset[i]? = some (toAsciiLowercase byte) ∧
      bech32Value byte = some i.toUInt8 := by
  rw [bech32Value, isSome_map] at h
  obtain ⟨i, hi⟩ := Option.isSome_iff_exists.mp h
  obtain ⟨hlt, hbyte, -⟩ := List.findIdx?_eq_some_iff_getElem.mp hi
  refine ⟨i, hlt, ?_, ?_⟩
  · rw [List.getElem?_eq_getElem hlt, beq_iff_eq.mp hbyte]
  · rw [bech32Value, hi]
    rfl

/-- Bech32 characters of one value are one letter, up to its case. -/
theorem word_inj {a b : UInt8} (ha : (bech32Value a).isSome = true)
    (hb : (bech32Value b).isSome = true) (h : word a = word b) :
    toAsciiLowercase a = toAsciiLowercase b := by
  obtain ⟨i, hi, hgeti, hvaluei⟩ := index_of_isSome ha
  obtain ⟨j, hj, hgetj, hvaluej⟩ := index_of_isSome hb
  have hword : ∀ {byte : UInt8} {n : ℕ}, n < 32 → bech32Value byte = some n.toUInt8 →
      (word byte).toNat = n := by
    intro byte n hn hvalue
    rw [word, hvalue, getD_some, toU32, BitVec.toNat_setWidth, UInt8.toNat_toBitVec,
      Nat.toUInt8, UInt8.toNat_ofNat']
    omega
  have hij : i = j := by
    rw [← hword hi hvaluei, ← hword hj hvaluej, h]
  rw [hij, hgetj] at hgeti
  exact (some.inj hgeti).symm

theorem cases_of_toAsciiLowercase_eq {a b : UInt8} (h : toAsciiLowercase a = toAsciiLowercase b)
    (hne : a ≠ b) :
    isAsciiUppercase a = true ∧ isAsciiLowercase b = true ∨
      isAsciiLowercase a = true ∧ isAsciiUppercase b = true := by
  have hlower : ∀ {x y : UInt8}, isAsciiUppercase x = true → x + 32 = y →
      isAsciiLowercase y = true := by
    intro x y hx hxy
    have hbounds := of_decide_eq_true hx
    rw [UInt8.le_iff_toNat_le, UInt8.le_iff_toNat_le] at hbounds
    have hge : 65 ≤ x.toNat := hbounds.1
    have hle : x.toNat ≤ 90 := hbounds.2
    have hnat : (x.toNat + 32) % 2 ^ 8 = y.toNat := by
      rw [← hxy, UInt8.toNat_add]
      rfl
    rw [isAsciiLowercase, decide_eq_true_iff, UInt8.le_iff_toNat_le, UInt8.le_iff_toNat_le]
    show 97 ≤ y.toNat ∧ y.toNat ≤ 122
    omega
  rw [toAsciiLowercase, toAsciiLowercase] at h
  by_cases ha : isAsciiUppercase a = true <;> by_cases hb : isAsciiUppercase b = true
  · rw [if_pos ha, if_pos hb] at h
    exact absurd ((UInt8.add_left_inj 32).mp h) hne
  · rw [if_pos ha, if_neg hb] at h
    exact .inl ⟨ha, hlower ha h⟩
  · rw [if_neg ha, if_pos hb] at h
    exact .inr ⟨hlower hb h.symm, hb⟩
  · rw [if_neg ha, if_neg hb] at h
    exact absurd h hne

/-- An accepted text and another one that differs from it in one character behind the separator
are not both accepted. -/
theorem not_both_accepted {front back : Bytes} {old new : UInt8} (hold : 49 ∉ front ++ old :: back)
    (hnew : 49 ∉ front ++ new :: back) (hne : new ≠ old)
    (h : isWellFormedBolt11 (hrp ++ 49 :: (front ++ old :: back)) = some true)
    (h' : isWellFormedBolt11 (hrp ++ 49 :: (front ++ new :: back)) = some true) : False := by
  obtain ⟨hcase, ⟨first, hfirst, hletter⟩, hsum⟩ := checksum_of_accepted hold h
  obtain ⟨hcase', -, hsum'⟩ := checksum_of_accepted hnew h'
  obtain ⟨hvalues, hsum⟩ := invoiceChecksum_ok hsum
  obtain ⟨hvalues', hsum'⟩ := invoiceChecksum_ok hsum'
  have hmem : ∀ byte : UInt8, byte ∈ front ++ byte :: back := fun byte =>
    mem_append_right _ mem_cons_self
  -- the checksum tells the values apart, so that only the case of the letter can differ
  rw [hsum, map_append, map_append, map_cons, map_cons] at hsum'
  have hword : word old = word new := by
    refine Bech32.polymod_substitution (fits_hrpChecksum hrp) ?_ (word_lt old) (word_lt new) ?_ hsum'
    · exact fun s hs => by obtain ⟨byte, -, rfl⟩ := List.mem_map.mp hs; exact word_lt byte
    · exact fun s hs => by obtain ⟨byte, -, rfl⟩ := List.mem_map.mp hs; exact word_lt byte
  have hsame := word_inj (hvalues _ (hmem old)) (hvalues' _ (hmem new)) hword
  -- and then one of the texts has letters of both cases, since its prefix begins with `l`
  have hany : ∀ {p : UInt8 → Bool} {byte b : UInt8}, byte ∈ hrp ++ 49 :: (front ++ b :: back) →
      p byte = true → (hrp ++ 49 :: (front ++ b :: back)).any p = true :=
    fun hbyte hp => List.any_eq_true.mpr ⟨_, hbyte, hp⟩
  have hin : ∀ byte : UInt8, byte ∈ hrp ++ 49 :: (front ++ byte :: back) := fun byte =>
    mem_append_right _ (mem_cons_of_mem _ (hmem byte))
  have hfirst_in : ∀ byte : UInt8, first ∈ hrp ++ 49 :: (front ++ byte :: back) := fun byte =>
    mem_append_left _ hfirst
  have hfirstcase : isAsciiLowercase first = true ∨ isAsciiUppercase first = true := by
    by_cases hl : first = 108
    · exact .inl (by rw [hl]; decide)
    · have := cases_of_toAsciiLowercase_eq (hletter.trans (show (108 : UInt8) = toAsciiLowercase 108
        by decide)) hl
      rcases this with ⟨hupper, -⟩ | ⟨hlower, -⟩
      · exact .inr hupper
      · exact .inl hlower
  rcases cases_of_toAsciiLowercase_eq hsame hne.symm with ⟨hupper, hlower⟩ | ⟨hlower, hupper⟩
  · rcases hfirstcase with hl | hu
    · exact hcase ⟨hany (hfirst_in old) hl, hany (hin old) hupper⟩
    · exact hcase' ⟨hany (hin new) hlower, hany (hfirst_in new) hu⟩
  · rcases hfirstcase with hl | hu
    · exact hcase' ⟨hany (hfirst_in new) hl, hany (hin new) hupper⟩
    · exact hcase ⟨hany (hin old) hlower, hany (hfirst_in old) hu⟩

end Bolt11

open Bolt11 in
/-- **The validator answers on every string, and one substitution is noticed**: an accepted
invoice with another Bech32 character, of whichever case, put in anywhere behind the last
separator is refused. -/
theorem substitution_detected (invoice : RustStr) :
    (∃ answer, isWellFormedBolt11 invoice.bytes = some answer) ∧
    ∀ (hrp front back : Bytes) (old new : UInt8) (changed : RustStr),
      isWellFormedBolt11 invoice.bytes = some true →
      invoice.bytes = hrp ++ 49 :: (front ++ old :: back) → 49 ∉ front ++ old :: back →
      (bech32Value new).isSome = true → new ≠ old →
      changed.bytes = hrp ++ 49 :: (front ++ new :: back) →
      isWellFormedBolt11 changed.bytes = some false := by
  refine ⟨⟨_, isWellFormedBolt11_eq invoice⟩, ?_⟩
  intro hrp front back old new changed haccepted hinvoice hlast hnew hne hchanged
  have hone : new ≠ 49 := by
    rintro rfl
    exact absurd hnew (by decide)
  have hlast' : 49 ∉ front ++ new :: back := by
    rw [mem_append, mem_cons, not_or, not_or]
    rw [mem_append, mem_cons, not_or, not_or] at hlast
    exact ⟨hlast.1, hone.symm, hlast.2.2⟩
  rw [isWellFormedBolt11_eq]
  cases hanswer : ParseContent.isWellFormedBolt11 changed.units with
  | false => rfl
  | true =>
    -- otherwise both texts were accepted
    have hboth := isWellFormedBolt11_eq changed
    rw [hanswer, hchanged] at hboth
    rw [hinvoice] at haccepted
    exact (not_both_accepted hlast hlast' hne haccepted hboth).elim

/-- An invoice over any amount, with a description, behind its first word. -/
def sampleRest : List Char :=
  ['v', 'j', 'l', 'u', 'e', 'z', 's', 'p', '5', 'z', 'y', 'g', '3', 'z', 'y', 'g', '3', 'z', 'y',
    'g', '3', 'z', 'y', 'g', '3', 'z', 'y', 'g', '3', 'z', 'y', 'g', '3', 'z', 'y', 'g', '3', 'z',
    'y', 'g', '3', 'z', 'y', 'g', '3', 'z', 'y', 'g', '3', 'z', 'y', 'g', '3', 'z', 'y', 'g', '3',
    'z', 'y', 'g', 's', 'p', 'p', '5', 'q', 'q', 'q', 's', 'y', 'q', 'c', 'y', 'q', '5', 'r', 'q',
    'w', 'z', 'q', 'f', 'q', 'q', 'q', 's', 'y', 'q', 'c', 'y', 'q', '5', 'r', 'q', 'w', 'z', 'q',
    'f', 'q', 'q', 'q', 's', 'y', 'q', 'c', 'y', 'q', '5', 'r', 'q', 'w', 'z', 'q', 'f', 'q', 'y',
    'p', 'q', 'd', 'p', 'l', '2', 'p', 'k', 'x', '2', 'c', 't', 'n', 'v', '5', 's', 'x', 'x', 'm',
    'm', 'w', 'w', 'd', '5', 'k', 'g', 'e', 't', 'j', 'y', 'p', 'e', 'h', '2', 'u', 'r', 's', 'd',
    'a', 'e', '8', 'g', '6', 't', 'w', 'v', 'u', 's', '8', 'g', '6', 'r', 'f', 'w', 'v', 's', '8',
    'q', 'u', 'n', '0', 'd', 'f', 'j', 'k', 'x', 'a', 'q', '9', 'q', 'r', 's', 'g', 'q', '3', '5',
    '7', 'w', 'n', 'c', '5', 'r', '2', 'u', 'e', 'h', '7', 'c', 'k', '6', 'q', '9', '3', 'd', 'j',
    '3', '2', 'd', 'l', 'q', 'n', 'l', 's', '0', '8', '7', 'f', 'x', 'd', 'w', 'k', '8', 'q', 'a',
    'k', 'd', 'y', 'a', 'f', 'k', 'q', '3', 'y', 'a', 'p', '9', 'u', 's', '6', 'v', '5', '2', 'v',
    'j', 'j', 's', 'r', 'v', 'y', 'w', 'a', '6', 'r', 't', '5', '2', 'c', 'm', '9', 'r', '9', 'z',
    'q', 't', '8', 'r', '2', 't', '7', 'm', 'l', 'c', 'w', 's', 'p', 'y', 'e', 't', 'p', '5', 'h',
    '2', 't', 'z', 't', 'u', 'g', 'p', '9', 'l', 'f', 'y', 'q', 'l']

set_option maxRecDepth 20000 in
def sampleInvoice (word : Char) (h : word.toNat < 128) : RustStr where
  chars := ['l', 'n', 'b', 'c', '1'] ++ word :: sampleRest
  fits := by
    rw [Utf8.bytes_append, Utf8.bytes_cons word, Utf8.encodeChar_ascii h, length_append,
      length_append, length_singleton]
    decide

set_option maxRecDepth 20000 in
theorem substitution_detected_sample :
    isWellFormedBolt11 (sampleInvoice 'q' (by decide)).bytes = some false :=
  (substitution_detected (sampleInvoice 'p' (by decide))).2 [108, 110, 98, 99] []
    (Utf8.bytes sampleRest) 112 113 (sampleInvoice 'q' (by decide)) (by decide) rfl (by decide)
    (by decide) (by decide) rfl

end Nipworker
