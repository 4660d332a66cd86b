/-
Percent encoding as JavaScript has it.
-/
import Nipworker.Lib.JsJson
import Nipworker.Lib.StrSlice
import Nipworker.Lib.Split

namespace Js

open JsJson (hexUnit)

/-! ### Pieces between separators -/

section

variable {α : Type*} [DecidableEq α]

theorem length_splitOn (a : α) (xs : List α) : (xs.splitOn a).length = xs.count a + 1 := by
  induction xs with
  | nil => rfl
  | cons x xs ih =>
    rw [List.splitOn_cons_eq_if_modifyHead, List.count_cons]
    by_cases h : (x == a) = true
    · rw [if_pos h, if_pos h, List.length_cons, ih]
    · rw [if_neg h, if_neg h, List.length_modifyHead, ih, Nat.add_zero]

theorem not_mem_of_mem_splitOn {a : α} {xs : List α} : ∀ p ∈ xs.splitOn a, a ∉ p := by
  induction xs with
  | nil =>
    intro p hp
    rw [List.mem_singleton.mp hp]
    exact List.not_mem_nil
  | cons x xs ih =>
    intro p hp
    rw [List.splitOn_cons_eq_if_modifyHead] at hp
    by_cases h : (x == a) = true
    · rw [if_pos h] at hp
      rcases List.mem_cons.mp hp with rfl | hp
      · exact List.not_mem_nil
      · exact ih p hp
    · rw [if_neg h] at hp
      obtain ⟨q, qs, hq⟩ := List.exists_cons_of_ne_nil (List.splitOn_ne_nil a xs)
      rw [hq] at hp ih
      rcases List.mem_cons.mp hp with rfl | hp
      · rw [List.mem_cons, not_or]
        exact ⟨fun heq => h (beq_iff_eq.mpr heq.symm), ih q List.mem_cons_self⟩
      · exact ih p (List.mem_cons_of_mem _ hp)

theorem count_intercalate (a : α) {xss : List (List α)} (h : xss ≠ []) :
    ([a].intercalate xss).count a + 1 = xss.length + (xss.map (List.count a)).sum := by
  induction xss with
  | nil => contradiction
  | cons xs xss ih =>
    cases xss with
    | nil =>
      rw [List.intercalate_singleton, List.map_singleton, List.sum_singleton, List.length_singleton]
      omega
    | cons ys xss =>
      have hrest := ih (List.cons_ne_nil ys xss)
      rw [List.intercalate_cons_cons, List.count_append, List.count_append, List.count_singleton_self,
        List.map_cons, List.sum_cons, List.length_cons]
      omega

end

/-! ### Encoding -/

def ofBytes (bytes : Bytes) : JsString := bytes.map UInt8.toUInt16

def hexUpper (b : UInt8) : UInt8 := if b < 10 then 48 + b else 55 + b

def percentByte (b : UInt8) : Bytes := [37, hexUpper (b / 16), hexUpper (b % 16)]

/-- The characters that `encodeURIComponent` leaves alone: letters, digits and `-_.!~*'()`. -/
def isUnreserved (c : Char) : Bool :=
  c.isAlphanum || [45, 95, 46, 33, 126, 42, 39, 40, 41].contains c.toNat

def encodeChar (c : Char) : Bytes :=
  if isUnreserved c then [Utf8.byteOf c] else (String.utf8EncodeChar c).flatMap percentByte

/-- `encodeURIComponent`; `none` is a `URIError`. -/
def encodeURIComponent (s : JsString) : Option JsString :=
  if isWellFormed s then some (ofBytes ((scalars s).flatMap encodeChar)) else none

/-! ### Decoding -/

def takePercent : JsString → Option (UInt8 × JsString)
  | p :: a :: b :: rest =>
    if p = 37 then
      match hexUnit a, hexUnit b with
      | some x, some y => some ((x * 16 + y).toUInt8, rest)
      | _, _ => none
    else none
  | _ => none

def takePercents : ℕ → JsString → Option (Bytes × JsString)
  | 0, s => some ([], s)
  | n + 1, s => do
    let (b, s) ← takePercent s
    let (bs, s) ← takePercents n s
    some (b :: bs, s)

def sequenceLength (lead : UInt8) : Option ℕ :=
  if lead < 0x80 then some 1
  else if lead < 0xC0 then none
  else if lead < 0xE0 then some 2
  else if lead < 0xF0 then some 3
  else if lead < 0xF8 then some 4
  else none

def takeChar (s : JsString) : Option (Char × JsString) := do
  let (lead, _) ← takePercent s
  let n ← sequenceLength lead
  let (octets, rest) ← takePercents n s
  let c ← octets.toByteArray.utf8DecodeChar? 0
  some (c, rest)

/-- At most `fuel` characters are decoded. -/
def decodeLoop : ℕ → JsString → Option JsString
  | _, [] => some []
  | 0, _ :: _ => none
  | fuel + 1, u :: rest =>
    if u = 37 then do
      let (c, rest) ← takeChar (u :: rest)
      let decoded ← decodeLoop fuel rest
      some (utf16 c ++ decoded)
    else do
      let decoded ← decodeLoop fuel rest
      some (u :: decoded)

/-- `decodeURIComponent`; `none` is a `URIError`. -/
def decodeURIComponent (s : JsString) : Option JsString := decodeLoop s.length s

variable {s : JsString}

theorem length_takePercent {rest : JsString} {b : UInt8} (h : takePercent s = some (b, rest)) :
    s.length = rest.length + 3 := by
  rw [takePercent.eq_def] at h
  split at h
  · split at h
    · split at h
      · rw [← (Prod.mk.inj (Option.some.inj h)).2]
        rfl
      · contradiction
    · contradiction
  · contradiction

theorem length_takePercents {n : ℕ} {rest : JsString} {bs : Bytes}
    (h : takePercents n s = some (bs, rest)) : s.length = rest.length + 3 * n := by
  induction n generalizing s bs with
  | zero =>
    rw [← (Prod.mk.inj (Option.some.inj h)).2]
    rfl
  | succ n ih =>
    rw [takePercents] at h
    simp only [Option.bind_eq_bind, Option.bind_eq_some_iff, Option.some.injEq, Prod.exists,
      Prod.mk.injEq] at h
    obtain ⟨b, t, hb, bs', rest', hbs, -, rfl⟩ := h
    have h1 := length_takePercent hb
    have h2 := ih hbs
    omega

theorem length_utf16_le (c : Char) : (utf16 c).length ≤ 2 := by
  rw [utf16]
  by_cases h : c.toNat < 0x10000
  · rw [if_pos h]
    exact Nat.le_succ 1
  · rw [if_neg h]
    exact Nat.le_refl 2

theorem length_takeChar {rest : JsString} {c : Char} (h : takeChar s = some (c, rest)) :
    rest.length + (utf16 c).length < s.length := by
  rw [takeChar] at h
  simp only [Option.bind_eq_bind, Option.bind_eq_some_iff, Option.some.injEq, Prod.exists,
    Prod.mk.injEq] at h
  obtain ⟨lead, t, -, n, hn, octets, rest', hoctets, c', -, rfl, rfl⟩ := h
  have hpos : 1 ≤ n := by
    rw [sequenceLength] at hn
    split at hn
    · rw [← Option.some.inj hn]
    split at hn
    · contradiction
    split at hn
    · rw [← Option.some.inj hn]
      exact Nat.le_succ 1
    split at hn
    · rw [← Option.some.inj hn]
      omega
    split at hn
    · rw [← Option.some.inj hn]
      omega
    · contradiction
  have h1 := length_takePercents hoctets
  have h2 := length_utf16_le c'
  omega

theorem length_decodeLoop {fuel : ℕ} {t : JsString} (h : decodeLoop fuel s = some t) :
    t.length ≤ s.length ∧ (37 ∈ s → t.length < s.length) := by
  induction fuel generalizing s t with
  | zero =>
    cases s with
    | nil =>
      rw [← Option.some.inj h]
      exact ⟨Nat.le_refl _, fun hmem => absurd hmem List.not_mem_nil⟩
    | cons u s => contradiction
  | succ fuel ih =>
    cases s with
    | nil =>
      rw [← Option.some.inj h]
      exact ⟨Nat.le_refl _, fun hmem => absurd hmem List.not_mem_nil⟩
    | cons u s =>
      rw [decodeLoop] at h
      by_cases hu : u = 37
      · rw [if_pos hu] at h
        simp only [Option.bind_eq_bind, Option.bind_eq_some_iff, Option.some.injEq,
          Prod.exists] at h
        obtain ⟨c, rest, hchar, decoded, hrest, rfl⟩ := h
        have h1 := length_takeChar hchar
        have h2 := (ih hrest).1
        rw [List.length_append]
        exact ⟨by omega, fun _ => by omega⟩
      · rw [if_neg hu] at h
        simp only [Option.bind_eq_bind, Option.bind_eq_some_iff, Option.some.injEq] at h
        obtain ⟨decoded, hrest, rfl⟩ := h
        obtain ⟨hle, hlt⟩ := ih hrest
        rw [List.length_cons, List.length_cons]
        refine ⟨by omega, fun hmem => ?_⟩
        rcases List.mem_cons.mp hmem with heq | hmem
        · exact absurd heq.symm hu
        · have := hlt hmem
          omega

theorem decodeLoop_plain (h : 37 ∉ s) {fuel : ℕ} (hfuel : s.length ≤ fuel) :
    decodeLoop fuel s = some s := by
  induction s generalizing fuel with
  | nil => cases fuel <;> rfl
  | cons u s ih =>
    rw [List.mem_cons, not_or] at h
    rw [List.length_cons] at hfuel
    obtain ⟨fuel, rfl⟩ : ∃ n, fuel = n + 1 := ⟨fuel - 1, by omega⟩
    rw [decodeLoop, if_neg (Ne.symm h.1), ih h.2 (by omega)]
    rfl

/-- **Decoding gives the text itself** exactly when it has no escape. -/
theorem decodeURIComponent_eq_self_iff : decodeURIComponent s = some s ↔ 37 ∉ s := by
  constructor
  · intro h hmem
    exact Nat.lt_irrefl _ ((length_decodeLoop h).2 hmem)
  · intro h
    exact decodeLoop_plain h (Nat.le_refl _)

/-! ### Query strings -/

def utf8Bytes (s : JsString) : Bytes := Utf8.bytes (scalars s)

def percentDecode : Bytes → Bytes
  | b :: x :: y :: rest =>
    match if b = 37 then hexUnit x.toUInt16 else none, hexUnit y.toUInt16 with
    | some high, some low => (high * 16 + low).toUInt8 :: percentDecode rest
    | _, _ => b :: percentDecode (x :: y :: rest)
  | short => short

def formText (bytes : Bytes) : JsString :=
  let decoded := percentDecode (bytes.map fun b => if b = 43 then 32 else b)
  ofChars (Utf8.decodeLossyChars decoded.length decoded)

/-- `new URLSearchParams`: the pairs of names and values. -/
def urlSearchParams (s : JsString) : List (JsString × JsString) :=
  let query := if s.head? = some 63 then s.tail else s
  (((utf8Bytes query).splitOn 38).filter (· ≠ [])).map fun part =>
    (formText (part.takeWhile (· ≠ 61)), formText (part.dropWhile (· ≠ 61)).tail)

/-- `URLSearchParams.prototype.get`. -/
def searchParam (params : List (JsString × JsString)) (name : JsString) : Option JsString :=
  (params.find? (·.1 = name)).map Prod.snd

/-! ### What was encoded is decoded -/

theorem hexUnit_hexUpper {b : UInt8} (h : b < 16) :
    hexUnit (hexUpper b).toUInt16 = some b.toUInt16 := by
  have hall : ∀ n < 16, hexUnit (hexUpper (UInt8.ofNat n)).toUInt16 =
      some (UInt8.ofNat n).toUInt16 := by decide
  have := hall b.toNat (UInt8.lt_iff_toNat_lt.mp h)
  rwa [UInt8.ofNat_toNat] at this

theorem percentDecode_percentByte (b : UInt8) (rest : Bytes) :
    percentDecode (percentByte b ++ rest) = b :: percentDecode rest := by
  have hlt : b.toNat < 256 := b.toNat_lt
  have hhigh : b / 16 < 16 := by
    rw [UInt8.lt_iff_toNat_lt, UInt8.toNat_div]
    show b.toNat / 16 < 16
    omega
  have hlow : b % 16 < 16 := UInt8.mod_lt b (by decide)
  have hvalue : ((b / 16).toUInt16 * 16 + (b % 16).toUInt16).toUInt8 = b := by
    apply UInt8.toNat_inj.mp
    simp only [UInt16.toNat_toUInt8, UInt16.toNat_add, UInt16.toNat_mul, UInt8.toNat_toUInt16,
      UInt8.toNat_div, UInt8.toNat_mod, UInt8.reduceToNat, UInt16.reduceToNat]
    omega
  rw [percentByte, List.cons_append, List.cons_append, List.cons_append, List.nil_append,
    percentDecode, if_pos rfl, hexUnit_hexUpper hhigh, hexUnit_hexUpper hlow]
  dsimp only
  rw [hvalue]

theorem percentDecode_cons {b : UInt8} (h : b ≠ 37) (rest : Bytes) :
    percentDecode (b :: rest) = b :: percentDecode rest := by
  cases rest with
  | nil => rfl
  | cons x rest =>
    cases rest with
    | nil => rfl
    | cons y rest =>
      rw [percentDecode, if_neg h]

theorem percentDecode_percentBytes (bytes rest : Bytes) :
    percentDecode (bytes.flatMap percentByte ++ rest) = bytes ++ percentDecode rest := by
  induction bytes with
  | nil => rfl
  | cons b bytes ih =>
    rw [List.flatMap_cons, List.append_assoc, percentDecode_percentByte, ih]
    rfl

theorem isUnreserved_ascii {c : Char} (h : isUnreserved c = true) :
    c.toNat < 128 ∧ c.toNat ≠ 37 ∧ c.toNat ≠ 38 ∧ c.toNat ≠ 43 ∧ c.toNat ≠ 44 ∧ c.toNat ≠ 61 ∧
      c.toNat ≠ 63 := by
  rw [isUnreserved, Bool.or_eq_true] at h
  rcases h with h | h
  · have hle : ∀ a b : Char, a.val ≤ b.val → a.toNat ≤ b.toNat := fun a b hab =>
      UInt32.le_iff_toNat_le.mp hab
    simp only [Char.isAlphanum, Char.isAlpha, Char.isUpper, Char.isLower, Char.isDigit,
      Bool.or_eq_true, decide_eq_true_eq, Bool.and_eq_true] at h
    rcases h with (h | h) | h
    · have h1 : 65 ≤ c.toNat := UInt32.le_iff_toNat_le.mp h.1
      have h2 : c.toNat ≤ 90 := UInt32.le_iff_toNat_le.mp h.2
      omega
    · have h1 : 97 ≤ c.toNat := UInt32.le_iff_toNat_le.mp h.1
      have h2 : c.toNat ≤ 122 := UInt32.le_iff_toNat_le.mp h.2
      omega
    · have h1 : 48 ≤ c.toNat := UInt32.le_iff_toNat_le.mp h.1
      have h2 : c.toNat ≤ 57 := UInt32.le_iff_toNat_le.mp h.2
      omega
  · have hmem := List.contains_iff_mem.mp h
    simp only [List.mem_cons, List.not_mem_nil, or_false] at hmem
    omega

/-- A byte that is neither layout of a query string nor a comma. -/
def isEncoded (b : UInt8) : Prop :=
  b.toNat < 128 ∧ b ≠ 38 ∧ b ≠ 43 ∧ b ≠ 44 ∧ b ≠ 61 ∧ b ≠ 63

theorem isEncoded_hexUpper {b : UInt8} (h : b < 16) : isEncoded (hexUpper b) := by
  have hall : ∀ n < 16, (hexUpper (UInt8.ofNat n)).toNat < 128 ∧ hexUpper (UInt8.ofNat n) ≠ 38 ∧
      hexUpper (UInt8.ofNat n) ≠ 43 ∧ hexUpper (UInt8.ofNat n) ≠ 44 ∧
      hexUpper (UInt8.ofNat n) ≠ 61 ∧ hexUpper (UInt8.ofNat n) ≠ 63 := by decide
  have := hall b.toNat (UInt8.lt_iff_toNat_lt.mp h)
  rwa [UInt8.ofNat_toNat] at this

theorem mem_encodeChar {c : Char} : ∀ b ∈ encodeChar c, isEncoded b := by
  intro b hb
  rw [encodeChar] at hb
  by_cases h : isUnreserved c = true
  · rw [if_pos h, List.mem_singleton] at hb
    obtain ⟨hlt, -, h38, h43, h44, h61, h63⟩ := isUnreserved_ascii h
    have hnat : b.toNat = c.toNat := by rw [hb, Utf8.toNat_byteOf hlt]
    have hne : ∀ v : UInt8, c.toNat ≠ v.toNat → b ≠ v := by
      rintro v hv rfl
      exact hv hnat.symm
    exact ⟨hnat ▸ hlt, hne 38 h38, hne 43 h43, hne 44 h44, hne 61 h61, hne 63 h63⟩
  · rw [if_neg h, List.mem_flatMap] at hb
    obtain ⟨byte, -, hb⟩ := hb
    have hlt : byte.toNat < 256 := byte.toNat_lt
    rcases List.mem_cons.mp hb with rfl | hb
    · exact ⟨by decide, by decide, by decide, by decide, by decide, by decide⟩
    · rcases List.mem_cons.mp hb with rfl | hb
      · refine isEncoded_hexUpper ?_
        rw [UInt8.lt_iff_toNat_lt, UInt8.toNat_div]
        show byte.toNat / 16 < 16
        omega
      · rw [List.mem_singleton.mp hb]
        exact isEncoded_hexUpper (UInt8.mod_lt byte (by decide))

theorem percentDecode_encodeChar (c : Char) (rest : Bytes) :
    percentDecode (encodeChar c ++ rest) = String.utf8EncodeChar c ++ percentDecode rest := by
  rw [encodeChar]
  by_cases h : isUnreserved c = true
  · obtain ⟨hlt, h37, -⟩ := isUnreserved_ascii h
    have hne : Utf8.byteOf c ≠ 37 := by
      intro heq
      have := congrArg UInt8.toNat heq
      rw [Utf8.toNat_byteOf hlt] at this
      exact h37 this
    rw [if_pos h, List.singleton_append, percentDecode_cons hne, Utf8.encodeChar_ascii hlt]
    rfl
  · rw [if_neg h, percentDecode_percentBytes]

theorem percentDecode_encodeChars (cs : List Char) (rest : Bytes) :
    percentDecode (cs.flatMap encodeChar ++ rest) = Utf8.bytes cs ++ percentDecode rest := by
  induction cs with
  | nil => rfl
  | cons c cs ih =>
    rw [List.flatMap_cons, List.append_assoc, percentDecode_encodeChar, ih, Utf8.bytes_cons,
      List.append_assoc]

theorem percentDecode_intercalate {css : List (List Char)} :
    percentDecode ([44].intercalate (css.map fun cs => cs.flatMap encodeChar)) =
      Utf8.bytes ([','].intercalate css) := by
  induction css with
  | nil => rfl
  | cons cs css ih =>
    cases css with
    | nil =>
      have h := percentDecode_encodeChars cs []
      rw [List.append_nil] at h
      rw [List.map_singleton, List.intercalate_singleton, List.intercalate_singleton, h]
      exact List.append_nil _
    | cons ds css =>
      rw [List.map_cons, List.map_cons, List.intercalate_cons_cons, List.intercalate_cons_cons,
        ← List.map_cons, List.append_assoc, List.append_assoc, percentDecode_encodeChars,
        List.singleton_append, percentDecode_cons (by decide), ih, Utf8.bytes_append,
        List.singleton_append, Utf8.bytes_cons]
      rfl

theorem utf8Bytes_ofBytes {bytes : Bytes} (h : ∀ b ∈ bytes, b.toNat < 128) :
    utf8Bytes (ofBytes bytes) = bytes := by
  induction bytes with
  | nil => rfl
  | cons b bytes ih =>
    have hb := h b List.mem_cons_self
    have hnat : b.toUInt16.toNat = b.toNat := UInt8.toNat_toUInt16 b
    have hlead : isLead b.toUInt16 = false := by
      rw [← Bool.not_eq_true, isLead_iff, hnat]
      omega
    have htrail : isTrail b.toUInt16 = false := by
      rw [← Bool.not_eq_true, isTrail_iff, hnat]
      omega
    have hchar : (Char.ofNat b.toNat).toNat = b.toNat := toNat_ofNat_char (by omega)
    have hcons : ofBytes (b :: bytes) = b.toUInt16 :: ofBytes bytes := rfl
    rw [hcons, utf8Bytes, scalars_cons hlead htrail, hnat, Utf8.bytes_cons,
      Utf8.encodeChar_ascii (by omega), Utf8.byteOf, hchar, UInt8.ofNat_toNat]
    exact congrArg (b :: ·) (ih fun c hc => h c (List.mem_cons_of_mem _ hc))

theorem formText_encoded {bytes : Bytes} (hplus : 43 ∉ bytes) {cs : List Char}
    (h : percentDecode bytes = Utf8.bytes cs) : formText bytes = ofChars cs := by
  have hmap : (bytes.map fun b => if b = 43 then 32 else b) = bytes := by
    calc (bytes.map fun b => if b = 43 then 32 else b) = bytes.map id :=
          List.map_congr_left fun b hb => if_neg fun heq : b = 43 => hplus (heq ▸ hb)
      _ = bytes := List.map_id bytes
  rw [formText, hmap, h]
  exact congrArg ofChars (Utf8.decodeLossyChars_encode cs _ (Nat.le_refl _))

theorem urlSearchParams_one {name value : Bytes} (hname : ∀ b ∈ name, isEncoded b)
    (hname_ne : name ≠ []) (hvalue : ∀ b ∈ value, b.toNat < 128 ∧ b ≠ 38) :
    urlSearchParams (ofBytes (name ++ 61 :: value)) = [(formText name, formText value)] := by
  have hhead : ¬ (ofBytes (name ++ 61 :: value)).head? = some 63 := by
    obtain ⟨b, name, rfl⟩ := List.exists_cons_of_ne_nil hname_ne
    intro heq
    have hunit : b.toUInt16 = 63 := Option.some.inj heq
    refine (hname b List.mem_cons_self).2.2.2.2.2 (UInt8.toNat_inj.mp ?_)
    rw [← UInt8.toNat_toUInt16 b, hunit]
    rfl
  have hascii : ∀ b ∈ name ++ 61 :: value, b.toNat < 128 ∧ b ≠ 38 := by
    intro b hb
    rcases List.mem_append.mp hb with hb | hb
    · exact ⟨(hname b hb).1, (hname b hb).2.1⟩
    · rcases List.mem_cons.mp hb with rfl | hb
      · decide
      · exact hvalue b hb
  have hone : (name ++ 61 :: value).splitOn 38 = [name ++ 61 :: value] :=
    List.splitOn_eq_singleton fun hmem => (hascii 38 hmem).2 rfl
  have htake : (name ++ 61 :: value).takeWhile (· ≠ 61) = name ∧
      (name ++ 61 :: value).dropWhile (· ≠ 61) = 61 :: value := by
    have hall : ∀ b ∈ name, decide (b ≠ 61) = true := fun b hb =>
      decide_eq_true (hname b hb).2.2.2.2.1
    rw [List.takeWhile_append_of_pos hall, List.dropWhile_append_of_pos hall,
      List.takeWhile_cons_of_neg (by decide), List.dropWhile_cons_of_neg (by decide),
      List.append_nil]
    exact ⟨rfl, rfl⟩
  have hne : name ++ 61 :: value ≠ [] := by simp
  rw [urlSearchParams, if_neg hhead, utf8Bytes_ofBytes fun b hb => (hascii b hb).1, hone, List.filter_singleton,
    decide_eq_true hne, cond_true, List.map_singleton, htake.1, htake.2, List.tail_cons]

theorem mem_encodeChars {cs : List Char} : ∀ b ∈ cs.flatMap encodeChar, isEncoded b := by
  intro b hb
  obtain ⟨c, -, hb⟩ := List.mem_flatMap.mp hb
  exact mem_encodeChar b hb

theorem encodeChar_ne_nil (c : Char) : encodeChar c ≠ [] := by
  intro hnil
  have hlen := congrArg List.length (percentDecode_encodeChar c [])
  rw [hnil, List.length_append, String.length_utf8EncodeChar] at hlen
  have hpos := c.utf8Size_pos
  have hzero : (percentDecode ([] ++ [])).length = 0 := rfl
  omega

theorem mem_components {css : List (List Char)} :
    ∀ b ∈ [44].intercalate (css.map fun cs => cs.flatMap encodeChar), isEncoded b ∨ b = 44 := by
  intro b hb
  rcases Text.mem_intercalate hb with ⟨p, hp, hb⟩ | hb
  · obtain ⟨cs, -, rfl⟩ := List.mem_map.mp hp
    exact .inl (mem_encodeChars b hb)
  · exact .inr (List.mem_singleton.mp hb)

/-- **Components that were encoded one by one are decoded** when the query string is read. -/
theorem searchParam_encoded {name : List Char} (hne : name ≠ []) (css : List (List Char)) :
    searchParam (urlSearchParams (ofBytes (name.flatMap encodeChar ++
        61 :: [44].intercalate (css.map fun cs => cs.flatMap encodeChar)))) (ofChars name) =
      some (ofChars ([','].intercalate css)) := by
  have hname : formText (name.flatMap encodeChar) = ofChars name := by
    refine formText_encoded (fun hmem => (mem_encodeChars _ hmem).2.2.1 rfl) ?_
    have h := percentDecode_encodeChars name []
    rw [List.append_nil] at h
    exact h.trans (List.append_nil _)
  have hvalue : formText ([44].intercalate (css.map fun cs => cs.flatMap encodeChar)) =
      ofChars ([','].intercalate css) := by
    refine formText_encoded (fun hmem => ?_) percentDecode_intercalate
    rcases mem_components _ hmem with hencoded | heq
    · exact hencoded.2.2.1 rfl
    · exact absurd heq (by decide)
  have hname_ne : name.flatMap encodeChar ≠ [] := by
    obtain ⟨c, cs, rfl⟩ := List.exists_cons_of_ne_nil hne
    intro hnil
    exact encodeChar_ne_nil c (List.append_eq_nil_iff.mp hnil).1
  rw [urlSearchParams_one mem_encodeChars hname_ne, hname, hvalue, searchParam]
  · have hsame : decide (ofChars name = ofChars name) = true := decide_eq_true rfl
    rw [List.find?_cons, hsame]
    rfl
  · intro b hb
    rcases mem_components b hb with hencoded | rfl
    · exact ⟨hencoded.1, hencoded.2.1⟩
    · decide

end Js
