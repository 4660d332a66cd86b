/-
The two BOLT11 validators side by side: checksum and prefix.

At every step both have returned `false`, or both go on with values that mean the same, and
neither is ever at a fault.
-/
import Nipworker.Client.Bolt11
import Nipworker.Parser.Bolt11

namespace Nipworker

open Js List
open Bolt11 (Body)

/-- Two bodies side by side: both have returned `false`, or both go on with related values. -/
inductive InStep {α β : Type} (R : α → β → Prop) : Body α → Option β → Prop
  | returned : InStep R (.error (.returned false)) none
  | goesOn {a : α} {b : β} : R a b → InStep R (.ok a) (some b)

namespace InStep

variable {α β γ δ : Type} {R : α → β → Prop} {S : γ → δ → Prop}

theorem bind {x : Body α} {y : Option β} {f : α → Body γ} {g : β → Option δ} (h : InStep R x y)
    (hnext : ∀ a b, R a b → InStep S (f a) (g b)) : InStep S (x >>= f) (y >>= g) := by
  cases h with
  | returned => exact .returned
  | goesOn hab => exact hnext _ _ hab

theorem exit {x : Body α} {y : Option β} (h : InStep R x y) {exit : Bolt11.Exit}
    (hx : x = .error exit) : exit = .returned false := by
  cases h with
  | returned => exact (Except.error.inj hx).symm
  | goesOn _ => contradiction

theorem require {c : Bool} {p : Prop} [Decidable p] (h : c = true ↔ p) :
    InStep (fun _ _ => p) (Body.require c) (guard p) := by
  by_cases hp : p
  · rw [Body.require, if_pos (h.mpr hp), guard, if_pos hp]
    exact .goesOn hp
  · rw [Body.require, if_neg (fun hc => hp (h.mp hc)), guard, if_neg hp]
    exact .returned

theorem answers {x : Body α} {y : Option β} {f : α → Body Bool} {g : β → Option Bool}
    (h : InStep R x y) (hnext : ∀ a b, R a b → (f a).answer = some ((g b).getD false)) :
    (x >>= f).answer = some ((y >>= g).getD false) := by
  cases h with
  | returned => rfl
  | goesOn hab => exact hnext _ _ hab

theorem foldlM {ι κ : Type} (f : α → ι → Body α) (g : β → κ → Option β) (w : ι → κ)
    (hstep : ∀ a b i, R a b → InStep R (f a i) (g b (w i))) :
    ∀ (is : List ι) {a : α} {b : β}, R a b → InStep R (is.foldlM f a) ((is.map w).foldlM g b)
  | [], _, _, hab => .goesOn hab
  | i :: is, a, b, hab => by
    rw [foldlM_cons, map_cons, foldlM_cons]
    exact (hstep a b i hab).bind fun a' b' h => foldlM f g w hstep is h

end InStep

namespace ParseContent

open Bolt11 (toAsciiLowercase isAsciiUppercase isAsciiLowercase isAsciiDigit bech32Value toU32)

def lowered (byte : UInt8) : UInt16 := (toAsciiLowercase byte).toUInt16

/-! ### Characters -/

theorem idxOf?_map {α β : Type} [BEq α] [LawfulBEq α] [BEq β] [LawfulBEq β] {f : α → β}
    (hf : Function.Injective f) (l : List α) (a : α) : (l.map f).idxOf? (f a) = l.idxOf? a := by
  rw [List.idxOf?, List.idxOf?, List.findIdx?_map]
  refine congrArg (List.findIdx? · l) (funext fun b => ?_)
  rw [Function.comp, Bool.eq_iff_iff, beq_iff_eq, beq_iff_eq, hf.eq_iff]

theorem toUInt16_injective : Function.Injective UInt8.toUInt16 := by
  intro a b h
  rw [← UInt8.toNat_inj, ← UInt8.toNat_toUInt16, ← UInt8.toNat_toUInt16, h]

variable (byte : UInt8) (bytes digits : Bytes)

theorem bech32Value_eq : ∃ i : Option ℕ, (∀ n ∈ i, n < 32) ∧
    bech32Value byte = i.map Nat.toUInt8 ∧ bech32Charset.idxOf? (lowered byte) = i := by
  refine ⟨Bolt11.bech32Charset.idxOf? (toAsciiLowercase byte), fun n hn => ?_, rfl, ?_⟩
  · obtain ⟨hlt, -⟩ := List.findIdx?_eq_some_iff_getElem.mp hn
    exact hlt
  · exact idxOf?_map toUInt16_injective Bolt11.bech32Charset (toAsciiLowercase byte)

theorem indexOf_lowered :
    (∃ value, bech32Value byte = some value ∧ value.toNat < 32 ∧
      indexOf bech32Charset (lowered byte) = (value.toNat : ℤ)) ∨
    bech32Value byte = none ∧ indexOf bech32Charset (lowered byte) = -1 := by
  obtain ⟨i, hlt, hvalue, hindex⟩ := bech32Value_eq byte
  rw [hvalue, indexOf, hindex]
  cases i with
  | none => exact .inr ⟨rfl, rfl⟩
  | some n =>
    have hn := hlt n rfl
    have hnat : (Nat.toUInt8 n).toNat = n := by
      rw [Nat.toUInt8, UInt8.toNat_ofNat']
      omega
    exact .inl ⟨_, rfl, by omega, congrArg Nat.cast hnat.symm⟩

/-- Both read a Bech32 character alike. -/
theorem value_same {γ δ : Type} {S : γ → δ → Prop} {f : UInt8 → Body γ} {g : ℤ → Option δ}
    (hnext : ∀ value, value.toNat < 32 → InStep S (f value) (g (value.toNat : ℕ))) :
    InStep S (Body.orReturn (bech32Value byte) >>= f) (do
      guard (indexOf bech32Charset (lowered byte) ≠ -1)
      g (indexOf bech32Charset (lowered byte))) := by
  obtain ⟨value, hvalue, hlt, hindex⟩ | ⟨hvalue, hindex⟩ := indexOf_lowered byte
  · rw [hvalue, hindex, guard, if_pos (by omega)]
    exact hnext value hlt
  · rw [hvalue, hindex]
    exact .returned

/-! ### The checksum -/

def SameChecksum (register : BitVec 32) (checksum : ℤ) : Prop := checksum = (register.toNat : ℤ)

theorem shiftRight_zero (b : BitVec 32) (x : ℤ) (h : toInt32 x = b) :
    shiftRight x 0 = (b.toNat : ℤ) := by
  rw [shiftRight, h]
  rfl

theorem feed_same (top : BitVec 32) (t : ℤ) (ht : t = (top.toNat : ℤ)) :
    ∀ (gs : List (BitVec 32 × ℕ)) {register : BitVec 32} {checksum : ℤ},
      (∀ g ∈ gs, g.2 < 32) → SameChecksum register checksum →
      SameChecksum
        (gs.foldl (fun register generator =>
          if (top >>> generator.2) &&& 1 ≠ 0 then register ^^^ generator.1 else register) register)
        ((gs.map fun g => ((g.1.toNat : ℤ), g.2)).foldl (fun next generator =>
          if bitAnd (shiftRight t generator.2) 1 ≠ 0 then
            shiftRight (bitXor next generator.1) 0
          else next) checksum)
  | [], _, _, _, h => h
  | g :: gs, register, checksum, hgs, h => by
    have hbit : bitAnd (shiftRight t (g.2 : ℕ)) 1 ≠ 0 ↔ (top >>> g.2) &&& 1 ≠ 0 := by
      have hone : toInt32 1 = 1#32 := rfl
      have hzero : (0 : ℤ) = (0#32).toInt := rfl
      rw [bitAnd, toInt32_shiftRight, shiftCount_natCast (hgs g mem_cons_self), ht,
        toInt32_toNat, hone, hzero, Ne, BitVec.toInt_inj]
      rfl
    rw [foldl_cons, map_cons, foldl_cons]
    refine feed_same top t ht gs (fun g' hg' => hgs g' (mem_cons_of_mem _ hg')) ?_
    by_cases hset : (top >>> g.2) &&& 1 ≠ 0
    · rw [if_pos hset, if_pos (hbit.mpr hset)]
      refine shiftRight_zero _ _ ?_
      rw [toInt32_bitXor, h, toInt32_toNat, toInt32_toNat]
    · rw [if_neg hset, if_neg (mt hbit.mp hset)]
      exact h

theorem toInt32_value {value : UInt8} {v : ℤ} (hv : v = (value.toNat : ℤ)) :
    toInt32 v = Bolt11.toU32 value := by
  rw [hv, toInt32_natCast, Bolt11.toU32, ← UInt8.toNat_toBitVec, BitVec.ofNat_toNat]

theorem polymodStep_same {register : BitVec 32} {checksum v : ℤ} {value : UInt8}
    (h : SameChecksum register checksum) (hv : v = (value.toNat : ℤ)) :
    SameChecksum (Bolt11.bech32PolymodStep register value) (bech32PolymodStep checksum v) := by
  have hbits : toInt32 checksum = register := by rw [h, toInt32_toNat]
  have htop : shiftRight checksum 25 = ((register >>> 25).toNat : ℤ) := by
    rw [shiftRight, hbits]
    rfl
  have hnext : shiftRight (bitXor (shiftLeft (bitAnd checksum 0x01ffffff) 5) v) 0 =
      ((((register &&& 0x01ffffff#32) <<< 5) ^^^ Bolt11.toU32 value).toNat : ℤ) := by
    refine shiftRight_zero _ _ ?_
    rw [toInt32_bitXor, toInt32_shiftLeft, toInt32_bitAnd, hbits, toInt32_value hv]
    rfl
  exact feed_same _ _ htop Bech32.generators.zipIdx (by decide) hnext

theorem lowered_high :
    shiftRight ((lowered byte).toNat : ℕ) 5 = ((toAsciiLowercase byte >>> 5).toNat : ℤ) := by
  have hlt := (toAsciiLowercase byte).toNat_lt
  have h : shiftRight ((lowered byte).toNat : ℕ) ((5 : ℕ) : ℤ) = (((lowered byte).toNat >>> 5 : ℕ) : ℤ) :=
    shiftRight_natCast (by rw [lowered, UInt8.toNat_toUInt16]; omega) (by decide)
  rw [lowered, UInt8.toNat_toUInt16] at h
  rw [UInt8.toNat_shiftRight]
  exact h

theorem lowered_low :
    bitAnd ((lowered byte).toNat : ℕ) 31 = ((toAsciiLowercase byte &&& 0x1f).toNat : ℤ) := by
  have hlt := (toAsciiLowercase byte).toNat_lt
  have h : bitAnd ((lowered byte).toNat : ℕ) ((31 : ℕ) : ℤ) = (((lowered byte).toNat &&& 31 : ℕ) : ℤ) :=
    bitAnd_natCast (by rw [lowered, UInt8.toNat_toUInt16]; omega) (by decide)
  rw [lowered, UInt8.toNat_toUInt16] at h
  rw [UInt8.toNat_and]
  exact h

/-- The register in 32-bit words and in numbers is one. -/
theorem invoiceChecksum_same (hrp data : Bytes) :
    InStep SameChecksum (Bolt11.invoiceChecksum hrp data)
      (invoiceChecksum (hrp.map lowered) (data.map lowered)) := by
  rw [Bolt11.invoiceChecksum, invoiceChecksum, foldl_map, foldl_map]
  refine InStep.foldlM _ _ lowered (fun register checksum byte h => ?_) data ?_
  · exact value_same (g := fun v => some (bech32PolymodStep checksum v)) byte fun value _ =>
      .goesOn (polymodStep_same h rfl)
  · refine foldl_rel (polymodStep_same (foldl_rel rfl ?_) rfl) ?_
    · exact fun byte _ register checksum h => polymodStep_same h (lowered_high byte)
    · exact fun byte _ register checksum h => polymodStep_same h (lowered_low byte)

/-! ### Prefix, network and amount -/

def wide (bytes : Bytes) : JsString := bytes.map UInt8.toUInt16

theorem map_lowered : bytes.map lowered = wide (bytes.map toAsciiLowercase) := by
  rw [wide, map_map]
  rfl

theorem startsWith_wide (part bytes : Bytes) :
    startsWith (wide bytes) (wide part) 0 = part.isPrefixOf bytes := by
  rw [startsWith, drop_zero, Bool.eq_iff_iff, isPrefixOf_iff_prefix,
    isPrefixOf_iff_prefix, wide, wide]
  exact prefix_map_iff_of_injective toUInt16_injective

theorem strip_same (part bytes : Bytes) :
    InStep (fun rest _ => (wide bytes).drop part.length = wide rest)
      (Body.orReturn (Bolt11.strip part bytes))
      (guard (startsWith (wide bytes) (wide part) 0 = true)) := by
  rw [startsWith_wide, Bolt11.strip]
  by_cases h : part.isPrefixOf bytes = true
  · rw [if_pos h, guard, if_pos h]
    exact .goesOn List.map_drop.symm
  · rw [if_neg h, guard, if_neg h]
    exact .returned

theorem network_cons (part : Bytes) (parts : List Bytes) (bytes : Bytes) {others : Option Bytes}
    (h : InStep (fun (amount : Bytes) (network : JsString) =>
        (wide bytes).drop network.length = wide amount)
      (Body.orReturn others)
      ((parts.map wide).find? fun candidate => startsWith (wide bytes) candidate 0)) :
    InStep (fun amount network => (wide bytes).drop network.length = wide amount)
      (Body.orReturn ((Bolt11.strip part bytes).or others))
      (((part :: parts).map wide).find? fun candidate => startsWith (wide bytes) candidate 0) := by
  rw [map_cons, List.find?_cons, startsWith_wide, Bolt11.strip]
  by_cases hpart : part.isPrefixOf bytes = true
  · rw [if_pos hpart, hpart]
    refine .goesOn ?_
    rw [wide, wide, wide, length_map, map_drop]
  · rw [if_neg hpart, Bool.not_eq_true _ |>.mp hpart]
    exact h

theorem network_same :
    InStep (fun amount network => (wide bytes).drop network.length = wide amount)
      (Body.orReturn ((Bolt11.strip [98, 99, 114, 116] bytes).or
        ((Bolt11.strip [116, 98, 115] bytes).or
          ((Bolt11.strip [116, 98] bytes).or (Bolt11.strip [98, 99] bytes)))))
      (networks.find? fun candidate => startsWith (wide bytes) candidate 0) := by
  refine network_cons _ [[116, 98, 115], [116, 98], [98, 99]] bytes ?_
  refine network_cons _ [[116, 98], [98, 99]] bytes ?_
  refine network_cons _ [[98, 99]] bytes ?_
  rw [← Option.or_none (o := Bolt11.strip [98, 99] bytes)]
  exact network_cons _ [] bytes .returned

theorem slice_dropLast (front : Bytes) (last : UInt8) :
    (do Body.slice (front ++ [last]) 0 (← Body.sub (front ++ [last]).length 1)) =
      Except.ok front := by
  have hsub : Body.sub (front ++ [last]).length 1 = .ok front.length := by
    rw [Body.sub, length_append, length_singleton, if_pos (by omega)]
    rfl
  rw [hsub]
  show Body.slice (front ++ [last]) 0 front.length = _
  rw [Body.slice, length_append, if_pos (by omega), take_left', drop_zero]
  rfl

theorem amountParts_eq (front : Bytes) (last : UInt8) :
    Bolt11.amountParts (front ++ [last]) =
      .ok (if (multipliers last.toUInt16).isSome then front else front ++ [last],
        (multipliers last.toUInt16).getD 1000000000000) := by
  rw [Bolt11.amountParts, List.getLast?_concat, slice_dropLast]
  split
  · next h =>
    cases h
    rfl
  · next h =>
    cases h
    rfl
  · next h =>
    cases h
    rfl
  · next h =>
    cases h
    rfl
  · next hm hu hn hp =>
    have hnone : multipliers last.toUInt16 = none := by
      rw [multipliers.eq_def]
      split
      · next h => exact absurd (congrArg some (@toUInt16_injective last 109 h)) hm
      · next h => exact absurd (congrArg some (@toUInt16_injective last 117 h)) hu
      · next h => exact absurd (congrArg some (@toUInt16_injective last 110 h)) hn
      · next h => exact absurd (congrArg some (@toUInt16_injective last 112 h)) hp
      · rfl
    rw [hnone]
    rfl

theorem isDigit_wide : (wide bytes).all isDigitUnit = bytes.all isAsciiDigit := by
  rw [wide, all_map]
  refine congrArg bytes.all (funext fun byte => ?_)
  rw [Function.comp, isDigitUnit, isAsciiDigit, decide_eq_decide, UInt16.le_iff_toNat_le,
    UInt16.le_iff_toNat_le, UInt8.le_iff_toNat_le, UInt8.le_iff_toNat_le, UInt8.toNat_toUInt16]
  rfl

theorem digitsOk_eq : Bolt11.digitsOk digits = .ok (isPositiveDecimal (wide digits)) := by
  cases digits with
  | nil => rfl
  | cons first rest =>
    show Except.ok (first != 48 && (first :: rest).all isAsciiDigit) = _
    have hwide : wide (first :: rest) = first.toUInt16 :: wide rest := rfl
    rw [hwide, isPositiveDecimal, isDigit_wide, all_cons, ← Bool.and_assoc]
    refine congrArg (fun ok => Except.ok (ok && rest.all isAsciiDigit)) ?_
    have hfirst : first != 48 ↔ first.toNat ≠ 48 := by
      rw [bne_iff_ne, Ne, ← UInt8.toNat_inj]
      rfl
    rw [Bool.eq_iff_iff, Bool.and_eq_true, Bool.and_eq_true, hfirst, isAsciiDigit,
      decide_eq_true_iff, decide_eq_true_iff, decide_eq_true_iff, UInt16.le_iff_toNat_le,
      UInt16.le_iff_toNat_le, UInt8.le_iff_toNat_le, UInt8.le_iff_toNat_le, UInt8.toNat_toUInt16]
    show first.toNat ≠ 48 ∧ 48 ≤ first.toNat ∧ first.toNat ≤ 57 ↔
      49 ≤ first.toNat ∧ first.toNat ≤ 57
    omega

def amountOf (digits : Bytes) (amount : ℕ) : ℕ :=
  digits.foldl (fun amount digit => amount * 10 + (digit.toNat - 48)) amount

theorem le_amountOf : ∀ amount, amount ≤ amountOf digits amount := by
  induction digits with
  | nil => exact fun _ => le_rfl
  | cons digit digits ih =>
    intro amount
    exact le_trans (show amount ≤ amount * 10 + (digit.toNat - 48) by omega) (ih _)

/-- What a loop over digits gives that stops when the amount leaves a set, if the amount can
only grow and a smaller amount never leaves the set. -/
theorem foldlM_within (within : ℕ → Prop) [DecidablePred within]
    (hdown : ∀ {m n : ℕ}, m ≤ n → within n → within m) :
    ∀ (digits : Bytes) (amount : ℕ), within amount →
      digits.foldlM (fun amount digit =>
        if within (amount * 10 + (digit.toNat - 48)) then some (amount * 10 + (digit.toNat - 48))
        else none) amount =
      if within (amountOf digits amount) then some (amountOf digits amount) else none
  | [], _, h => (if_pos h).symm
  | digit :: digits, amount, h => by
    rw [foldlM_cons]
    by_cases hnext : within (amount * 10 + (digit.toNat - 48))
    · rw [if_pos hnext]
      exact foldlM_within within hdown digits _ hnext
    · have hall : ¬ within (amountOf (digit :: digits) amount) := fun hall =>
        hnext (hdown (le_amountOf digits _) hall)
      rw [if_neg hnext, if_neg hall]
      rfl

theorem parseU64_eq : Bolt11.parseU64 digits =
    if amountOf digits 0 < 2 ^ 64 then some (amountOf digits 0) else none :=
  foldlM_within (· < 2 ^ 64) (fun h h' => lt_of_le_of_lt h h') digits 0 (by decide)

theorem rawAmount_eq (maxRawAmount : ℕ) :
    (wide digits).foldlM (fun rawAmount digit =>
      if rawAmount * 10 + (digit.toNat - 48) > maxRawAmount then none
      else some (rawAmount * 10 + (digit.toNat - 48))) 0 =
    if amountOf digits 0 ≤ maxRawAmount then some (amountOf digits 0) else none := by
  rw [wide, foldlM_map, ← foldlM_within (· ≤ maxRawAmount) le_trans digits 0 (Nat.zero_le _)]
  refine congrArg (List.foldlM · 0 digits) (funext fun amount => funext fun digit => ?_)
  rw [UInt8.toNat_toUInt16]
  by_cases h : amount * 10 + (digit.toNat - 48) ≤ maxRawAmount
  · rw [if_pos h, if_neg (by omega)]
  · rw [if_neg h, if_pos (by omega)]

theorem multipliers_pos {u : UInt16} {m : ℕ} (h : multipliers u = some m) : 0 < m := by
  rw [multipliers.eq_def] at h
  split at h <;> cases h <;> decide

theorem amount_same (amount : Bytes) :
    Body.answer (if amount.isEmpty then pure true
      else do
        let (digits, multiplier) ← Bolt11.amountParts amount
        Body.require (← Bolt11.digitsOk digits)
        let rawAmount ← Body.orReturn (Bolt11.parseU64 digits)
        pure (rawAmount * multiplier < 2 ^ 64 && rawAmount * multiplier % 10 == 0)) =
    some (Option.getD (if (wide amount).isEmpty then pure true
      else do
        let found := (wide amount).getLast?.bind multipliers
        let multiplier := found.getD 1000000000000
        let digits := if found.isSome then (wide amount).dropLast else wide amount
        guard (isPositiveDecimal digits = true)
        let maxRawAmount := (2 ^ 64 - 1) / multiplier
        let rawAmount ← digits.foldlM (fun rawAmount digit =>
          let next := rawAmount * 10 + (digit.toNat - 48)
          if next > maxRawAmount then none else some next) 0
        pure (rawAmount * multiplier % 10 == 0)) false) := by
  rcases eq_nil_or_concat' amount with rfl | ⟨front, last, rfl⟩
  · rfl
  · have hempty : (front ++ [last]).isEmpty = false := by simp
    have hwide : (wide (front ++ [last])).isEmpty = false := by simp [wide]
    have hlast : (wide (front ++ [last])).getLast? = some last.toUInt16 := by
      rw [wide, map_append, map_singleton, List.getLast?_concat]
    have hfront : (wide (front ++ [last])).dropLast = wide front := by
      rw [wide, map_append, map_singleton, dropLast_concat]
      rfl
    rw [hempty, hwide, if_neg (by decide), if_neg (by decide), amountParts_eq, hlast, hfront]
    dsimp only
    rw [Option.bind_some]
    have hmultiplier : 0 < (multipliers last.toUInt16).getD 1000000000000 := by
      cases h : multipliers last.toUInt16 with
      | none => decide
      | some m => exact multipliers_pos h
    have hdigits : (if (multipliers last.toUInt16).isSome then wide front
        else wide (front ++ [last])) =
        wide (if (multipliers last.toUInt16).isSome then front else front ++ [last]) := by
      split <;> rfl
    rw [hdigits]
    generalize (multipliers last.toUInt16).getD 1000000000000 = multiplier at hmultiplier ⊢
    generalize (if (multipliers last.toUInt16).isSome then front else front ++ [last]) = digits
    show Body.answer (do
        Body.require (← Bolt11.digitsOk digits)
        let rawAmount ← Body.orReturn (Bolt11.parseU64 digits)
        pure (rawAmount * multiplier < 2 ^ 64 && rawAmount * multiplier % 10 == 0)) = _
    rw [digitsOk_eq]
    refine InStep.answers (x := Body.require (isPositiveDecimal (wide digits)))
      (InStep.require Iff.rfl) fun _ _ _ => ?_
    -- both loops give the amount, if it is within the bound
    rw [parseU64_eq, rawAmount_eq]
    generalize amountOf digits 0 = amount
    have hbound : amount ≤ (2 ^ 64 - 1) / multiplier ↔ amount * multiplier < 2 ^ 64 := by
      rw [Nat.le_div_iff_mul_le hmultiplier]
      omega
    by_cases hfits : amount * multiplier < 2 ^ 64
    · have hraw : amount < 2 ^ 64 :=
        lt_of_le_of_lt (Nat.le_mul_of_pos_right amount hmultiplier) hfits
      rw [if_pos hraw, if_pos (hbound.mpr hfits)]
      show some (decide (amount * multiplier < 2 ^ 64) && _) = _
      rw [decide_eq_true hfits]
      rfl
    · rw [if_neg (mt hbound.mp hfits)]
      by_cases hraw : amount < 2 ^ 64
      · rw [if_pos hraw]
        show some (decide (amount * multiplier < 2 ^ 64) && _) = _
        rw [decide_eq_false hfits]
        rfl
      · rw [if_neg hraw]
        rfl

/-- The checked product and the bound computed beforehand accept the same amounts. -/
theorem hrp_same (hrp : Bytes) :
    (Bolt11.isValidBolt11Hrp hrp).call = .ok ((isValidBolt11Hrp (hrp.map lowered)).getD false) := by
  have h : (Bolt11.isValidBolt11Hrp hrp).answer =
      some ((isValidBolt11Hrp (hrp.map lowered)).getD false) := by
    rw [Bolt11.isValidBolt11Hrp, isValidBolt11Hrp, map_lowered]
    refine InStep.answers (strip_same [108, 110] _) fun networkAndAmount _ hrest => ?_
    have hrest' : (wide (hrp.map toAsciiLowercase)).drop 2 = wide networkAndAmount := hrest
    rw [hrest']
    refine InStep.answers (network_same networkAndAmount) fun amount network hamount => ?_
    rw [hamount]
    exact amount_same amount
  rw [Body.call, h]

end ParseContent

end Nipworker
