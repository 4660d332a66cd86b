/-
What zap amounts are read as.

The amount of an invoice stands in front of its last `1`; it is read in front of the
first one, and without a multiplier as satoshis.
-/
import Nipworker.Lib.Result
import Nipworker.Parser.Bolt11Checksum
import Nipworker.Parser.ZapReceipt

namespace Nipworker

open List
namespace ZapReceipt

open Bolt11

/-! ### What an invoice denotes -/

/-- The human-readable part, in lower case: what stands in front of the last `1`. -/
def hrpOf (invoice : Bytes) : Bytes :=
  (invoice.take ((separatorPosition invoice).getD 0)).map toAsciiLowercase

/-- The amount behind the letters of the prefix and the network. -/
def amountText (invoice : Bytes) : Bytes := (hrpOf invoice).dropWhile fun byte => !isAsciiDigit byte

def invoiceDigits (invoice : Bytes) : Bytes := (amountText invoice).takeWhile isAsciiDigit

def invoiceUnit (invoice : Bytes) : Option UInt8 := ((amountText invoice).dropWhile isAsciiDigit).head?

def units : Bytes := [109, 117, 110, 112]

/-- The pico-bitcoins that an amount counts: milli-, micro-, nano- or pico-bitcoins, or
bitcoins. -/
def pico (unit : Option UInt8) : ℕ :=
  if unit = some 109 then 10 ^ 9
  else if unit = some 117 then 10 ^ 6
  else if unit = some 110 then 10 ^ 3
  else if unit = some 112 then 1
  else 10 ^ 12

/-- The whole satoshis of an amount, of 10 000 pico-bitcoins each. -/
def denotedSats (digits : Bytes) (unit : Option UInt8) : Option ℕ :=
  if decimal digits * pico unit / 10 ^ 4 = 0 then none
  else some (decimal digits * pico unit / 10 ^ 4)

/-- The digits from the first `1` on, which are taken for data. -/
def lostDigits (digits : Bytes) : Bytes := digits.dropWhile (· != 49)

/-- The digits in front of the first `1`. -/
def keptDigits (digits : Bytes) : Bytes := digits.takeWhile (· != 49)

/-- The amounts that are read as they are: none at all; one with a multiplier and without
a `1`; nano-bitcoins of which one digit is lost, pico-bitcoins of which four are; and fewer
pico-bitcoins, all of which are lost. -/
def AmountRead (digits : Bytes) (unit : Option UInt8) : Prop :=
  digits = [] ∨ (lostDigits digits = [] ∧ unit ≠ none) ∨
    ((lostDigits digits).length = 1 ∧ unit = some 110) ∨
    ((lostDigits digits).length = 4 ∧ unit = some 112) ∨
    (keptDigits digits = [] ∧ (lostDigits digits).length < 4 ∧ unit = some 112)

/-! ### Decimal numbers -/

section Decimal

variable {a b digits : Bytes}

theorem amountOf_eq (digits : Bytes) (start : ℕ) :
    ParseContent.amountOf digits start = start * 10 ^ digits.length + decimal digits := by
  induction digits generalizing start with
  | nil =>
    show start = start * 10 ^ 0 + 0
    rw [Nat.pow_zero, Nat.mul_one, Nat.add_zero]
  | cons digit digits ih =>
    show ParseContent.amountOf digits (start * 10 + (digit.toNat - 48)) =
      start * 10 ^ (digits.length + 1) + ParseContent.amountOf digits (0 * 10 + (digit.toNat - 48))
    rw [ih, ih (0 * 10 + _), Nat.pow_succ]
    ring

theorem decimal_append (a b : Bytes) : decimal (a ++ b) = decimal a * 10 ^ b.length + decimal b := by
  rw [← amountOf_eq, decimal, decimal, ParseContent.amountOf, foldl_append]
  rfl

theorem decimal_cons (digit : UInt8) (digits : Bytes) :
    decimal (digit :: digits) = (digit.toNat - 48) * 10 ^ digits.length + decimal digits := by
  rw [← singleton_append, decimal_append]
  have hone : decimal [digit] = digit.toNat - 48 := Nat.zero_add _
  rw [hone]

theorem digit_bounds {digit : UInt8} (h : isAsciiDigit digit = true) :
    48 ≤ digit.toNat ∧ digit.toNat ≤ 57 := by
  rw [isAsciiDigit, decide_eq_true_iff, UInt8.le_iff_toNat_le, UInt8.le_iff_toNat_le] at h
  exact h

theorem decimal_lt (h : digits.all isAsciiDigit = true) : decimal digits < 10 ^ digits.length := by
  induction digits with
  | nil => exact Nat.one_pos
  | cons digit digits ih =>
    rw [all_cons, Bool.and_eq_true] at h
    have hlt := ih h.2
    have hdigit := digit_bounds h.1
    rw [decimal_cons, length_cons, Nat.pow_succ]
    have hmul : (digit.toNat - 48) * 10 ^ digits.length ≤ 9 * 10 ^ digits.length :=
      Nat.mul_le_mul_right _ (by omega)
    omega

theorem le_decimal (h : digits.all isAsciiDigit = true) (hne : digits ≠ [])
    (hhead : digits.head? ≠ some 48) : 10 ^ (digits.length - 1) ≤ decimal digits := by
  cases digits with
  | nil => exact absurd rfl hne
  | cons digit digits =>
    rw [all_cons, Bool.and_eq_true] at h
    have hdigit := digit_bounds h.1
    have hnot : digit.toNat ≠ 48 := fun heq =>
      hhead (congrArg some (UInt8.toNat_inj.mp heq))
    rw [decimal_cons, length_cons, Nat.add_sub_cancel]
    have hmul : 1 * 10 ^ digits.length ≤ (digit.toNat - 48) * 10 ^ digits.length :=
      Nat.mul_le_mul_right _ (by omega)
    omega

theorem kept_append_lost (digits : Bytes) : keptDigits digits ++ lostDigits digits = digits :=
  takeWhile_append_dropWhile

theorem lostDigits_cons (h : lostDigits digits ≠ []) : ∃ rest, lostDigits digits = 49 :: rest := by
  obtain ⟨first, rest, heq⟩ := exists_cons_of_ne_nil h
  have hhead : (first != 49) = false := by
    have hnot := List.head?_dropWhile_not (fun byte : UInt8 => byte != 49) digits
    rw [lostDigits] at heq
    rw [heq] at hnot
    exact hnot
  rw [bne_eq_false_iff_eq] at hhead
  exact ⟨rest, by rw [heq, hhead]⟩

end Decimal

/-! ### What an accepted invoice says -/

/-- The digits and the unit pass the checks. -/
structure Accepted (digits : Bytes) (unit : Option UInt8) : Prop where
  all : digits.all isAsciiDigit = true
  known : ∀ u ∈ unit, u ∈ units
  alone : digits = [] → unit = none
  head : digits.head? ≠ some 48
  fits : decimal digits * pico unit < 2 ^ 64
  whole : decimal digits * pico unit % 10 = 0

theorem strip_eq_some_iff {part bytes rest : Bytes} :
    strip part bytes = some rest ↔ bytes = part ++ rest := by
  rw [strip]
  by_cases h : part.isPrefixOf bytes = true
  · rw [if_pos h, Option.some.injEq]
    obtain ⟨tail, rfl⟩ := List.isPrefixOf_iff_prefix.mp h
    rw [drop_left' rfl, append_cancel_left_eq, eq_comm]
  · rw [if_neg h]
    refine iff_of_false (Option.some_ne_none rest).symm fun heq => h ?_
    rw [List.isPrefixOf_iff_prefix, heq]
    exact prefix_append part rest

/-- The networks: `bcrt`, `tbs`, `tb`, `bc`. -/
def networks : List Bytes := [[98, 99, 114, 116], [116, 98, 115], [116, 98], [98, 99]]

theorem of_network {bytes rest : Bytes}
    (h : (strip [98, 99, 114, 116] bytes).or ((strip [116, 98, 115] bytes).or
      ((strip [116, 98] bytes).or (strip [98, 99] bytes))) = some rest) :
    ∃ network ∈ networks, bytes = network ++ rest := by
  simp only [Option.or_eq_some_iff, strip_eq_some_iff] at h
  rcases h with h | ⟨-, h | ⟨-, h | ⟨-, h⟩⟩⟩
  · exact ⟨_, by decide, h⟩
  · exact ⟨_, by decide, h⟩
  · exact ⟨_, by decide, h⟩
  · exact ⟨_, by decide, h⟩

theorem amountParts_concat (front : Bytes) (last : UInt8) :
    amountParts (front ++ [last]) =
      .ok (if last ∈ units then (front, pico (some last)) else (front ++ [last], pico none)) := by
  rw [amountParts, List.getLast?_concat, ParseContent.slice_dropLast]
  split
  · next h =>
    rw [Option.some.inj h]
    rfl
  · next h =>
    rw [Option.some.inj h]
    rfl
  · next h =>
    rw [Option.some.inj h]
    rfl
  · next h =>
    rw [Option.some.inj h]
    rfl
  · next hm hu hn hp =>
    have hnot : last ∉ units := by
      rw [units]
      simp only [mem_cons, not_mem_nil, or_false]
      rintro (rfl | rfl | rfl | rfl)
      · exact hm rfl
      · exact hu rfl
      · exact hn rfl
      · exact hp rfl
    rw [if_neg hnot]
    rfl

variable {unit : Option UInt8} {parsed : Kind9735Parsed}

theorem accepted_of_checks {digits : Bytes} (hunit : ∀ u ∈ unit, u ∈ units) (h : Body.answer (do
        Body.require (← digitsOk digits)
        let rawAmount ← Body.orReturn (parseU64 digits)
        pure (rawAmount * pico unit < 2 ^ 64 && rawAmount * pico unit % 10 == 0)) = some true) :
    Accepted digits unit := by
  cases digits with
  | nil => exact absurd (Option.some.inj h) (by decide)
  | cons first rest =>
    have hdigitsOk : digitsOk (first :: rest) = .ok (first != 48 && (first :: rest).all isAsciiDigit) :=
      rfl
    rw [hdigitsOk, Body.ok_bind] at h
    obtain ⟨hdigits, h⟩ := of_require h
    obtain ⟨amount, hamount, h⟩ := of_orReturn h
    rw [Bool.and_eq_true, bne_iff_ne] at hdigits
    rw [ParseContent.parseU64_eq] at hamount
    split at hamount
    · rw [Option.some.injEq] at hamount
      have hchecks := Option.some.inj h
      rw [Bool.and_eq_true, decide_eq_true_iff, beq_iff_eq, ← hamount] at hchecks
      exact ⟨hdigits.2, hunit, fun hnil => absurd hnil (cons_ne_nil _ _),
        fun hhead => hdigits.1 (Option.some.inj hhead), hchecks.1, hchecks.2⟩
    · exact absurd hamount.symm (Option.some_ne_none amount)

theorem accepted_hrp {hrp : Bytes} (h : (isValidBolt11Hrp hrp).answer = some true) :
    ∃ network ∈ networks, ∃ digits unit, Accepted digits unit ∧
      hrp.map toAsciiLowercase = [108, 110] ++ (network ++ (digits ++ unit.toList)) := by
  rw [isValidBolt11Hrp] at h
  obtain ⟨networkAndAmount, hln, h⟩ := of_orReturn h
  obtain ⟨amount, hnetwork, h⟩ := of_orReturn h
  obtain ⟨network, hmem, hparts⟩ := of_network hnetwork
  rw [strip_eq_some_iff, hparts] at hln
  rcases eq_nil_or_concat' amount with rfl | ⟨front, last, rfl⟩
  · refine ⟨network, hmem, [], none, ⟨rfl, ?_, fun _ => rfl, ?_, by decide, by decide⟩, ?_⟩
    · intro u hu
      exact absurd hu.symm (Option.some_ne_none u)
    · exact (Option.some_ne_none _).symm
    · exact hln
  · have hempty : (front ++ [last]).isEmpty = false := by simp
    rw [hempty, if_neg Bool.false_ne_true, amountParts_concat, Body.ok_bind] at h
    by_cases hunit : last ∈ units
    · rw [if_pos hunit] at h
      refine ⟨network, hmem, front, some last, accepted_of_checks ?_ h, hln⟩
      intro u hu
      rw [← Option.some.inj hu]
      exact hunit
    · rw [if_neg hunit] at h
      refine ⟨network, hmem, front ++ [last], none, accepted_of_checks ?_ h, ?_⟩
      · intro u hu
        exact absurd hu.symm (Option.some_ne_none u)
      · rw [hln, Option.toList_none, append_nil]

theorem split_of_accepted {invoice : Bytes} (h : isWellFormedBolt11 invoice = some true) :
    ∃ hrp data, invoice = hrp ++ 49 :: data ∧ 49 ∉ data := by
  have hmem : (49 : UInt8) ∈ invoice.reverse := by
    rw [isWellFormedBolt11, body] at h
    obtain ⟨-, h⟩ := of_require h
    obtain ⟨-, h⟩ := of_require h
    obtain ⟨separator, hseparator, -⟩ := of_orReturn h
    rw [separatorPosition, Option.map_eq_some_iff] at hseparator
    obtain ⟨i, hi, -⟩ := hseparator
    obtain ⟨hlt, hbyte, -⟩ := List.findIdx?_eq_some_iff_getElem.mp hi
    rw [← beq_iff_eq.mp hbyte]
    exact getElem_mem hlt
  obtain ⟨before, after, heq, hnot⟩ := eq_append_cons_of_mem hmem
  refine ⟨after.reverse, before.reverse, ?_, fun hmem => hnot (List.mem_reverse.mp hmem)⟩
  rw [← reverse_reverse invoice, heq]
  simp

theorem hrpOf_append {hrp data : Bytes} (h : 49 ∉ data) :
    hrpOf (hrp ++ 49 :: data) = hrp.map toAsciiLowercase := by
  rw [hrpOf, separatorPosition_append h, Option.getD_some, take_left' rfl]

/-! ### What is read of it -/

section Read

variable {digits : Bytes} {unit : Option UInt8}

def readText (digits : Bytes) (unit : Option UInt8) : Bytes :=
  if lostDigits digits = [] then digits ++ unit.toList else keptDigits digits

theorem unit_letter {u : UInt8} (h : u ∈ units) :
    isAsciiDigit u = false ∧ isAsciiAlphabetic u = true ∧ u ≠ 49 := by
  rw [units, mem_cons, mem_cons, mem_cons, mem_singleton] at h
  rcases h with rfl | rfl | rfl | rfl <;> decide

theorem network_letters {network : Bytes} (h : network ∈ networks) :
    (∀ byte ∈ network, isAsciiDigit byte = false) ∧ ∀ byte ∈ network, byte ≠ 49 := by
  have hall : network.all (fun byte => !isAsciiDigit byte && byte != 49) = true := by
    rw [networks, mem_cons, mem_cons, mem_cons, mem_singleton] at h
    rcases h with rfl | rfl | rfl | rfl <;> rfl
  rw [all_eq_true] at hall
  refine ⟨fun byte hbyte => ?_, fun byte hbyte => ?_⟩
  · exact Bool.not_eq_true' _ ▸ (Bool.and_eq_true _ _ ▸ hall byte hbyte).1
  · exact bne_iff_ne.mp (Bool.and_eq_true _ _ ▸ hall byte hbyte).2

theorem Accepted.unit_cases (h : Accepted digits unit) :
    unit = none ∨ ∃ u ∈ units, unit = some u := by
  cases unit with
  | none => exact .inl rfl
  | some u => exact .inr ⟨u, h.known u rfl, rfl⟩

theorem dropWhile_amount {rest : Bytes} (h : digits.all isAsciiDigit = true)
    (hnil : digits = [] → rest = []) :
    (digits ++ rest).dropWhile (fun byte => !isAsciiDigit byte) = digits ++ rest := by
  cases digits with
  | nil => rw [hnil rfl]; rfl
  | cons first digits =>
    rw [all_cons, Bool.and_eq_true] at h
    rw [cons_append, dropWhile_cons_of_neg (by rw [h.1]; decide)]

theorem amountText_eq {hrp data network : Bytes} (hdata : 49 ∉ data) (hnetwork : network ∈ networks)
    (h : Accepted digits unit)
    (hhrp : hrp.map toAsciiLowercase = [108, 110] ++ (network ++ (digits ++ unit.toList))) :
    amountText (hrp ++ 49 :: data) = digits ++ unit.toList := by
  have hln : ∀ byte ∈ ([108, 110] : Bytes), (!isAsciiDigit byte) = true :=
    List.all_eq_true.mp rfl
  have hletters : ∀ byte ∈ network, (!isAsciiDigit byte) = true := fun byte hbyte => by
    rw [(network_letters hnetwork).1 byte hbyte, Bool.not_false]
  rw [amountText, hrpOf_append hdata, hhrp, dropWhile_append_of_pos hln,
    dropWhile_append_of_pos hletters]
  refine dropWhile_amount h.all fun hnil => ?_
  rw [h.alone hnil, Option.toList_none]

theorem invoiceParts_eq {invoice : Bytes} (h : Accepted digits unit)
    (htext : amountText invoice = digits ++ unit.toList) :
    invoiceDigits invoice = digits ∧ invoiceUnit invoice = unit := by
  have hall := List.all_eq_true.mp h.all
  rw [invoiceDigits, invoiceUnit, htext, takeWhile_append_of_pos hall,
    dropWhile_append_of_pos hall]
  rcases h.unit_cases with rfl | ⟨u, hu, rfl⟩
  · exact ⟨append_nil _, rfl⟩
  · have hdigit := (unit_letter hu).1
    rw [Option.toList_some, takeWhile_cons_of_neg (by rw [hdigit]; decide),
      dropWhile_cons_of_neg (by rw [hdigit]; decide)]
    exact ⟨append_nil _, rfl⟩

theorem takeWhile_amount (h : Accepted digits unit) (data : Bytes) :
    ((digits ++ unit.toList) ++ 49 :: data).takeWhile (· != 49) = readText digits unit := by
  rw [readText]
  by_cases hlost : lostDigits digits = []
  · rw [if_pos hlost]
    have hno : ∀ byte ∈ digits ++ unit.toList, (byte != 49) = true := by
      intro byte hbyte
      rcases List.mem_append.mp hbyte with hbyte | hbyte
      · exact List.dropWhile_eq_nil_iff.mp hlost byte hbyte
      · rw [bne_iff_ne]
        exact (unit_letter (h.known byte (Option.mem_toList.mp hbyte))).2.2
    rw [takeWhile_append_of_pos hno, takeWhile_cons_of_neg (by decide), append_nil]
  · rw [if_neg hlost]
    obtain ⟨rest, hrest⟩ := lostDigits_cons hlost
    have hkept : ∀ byte ∈ keptDigits digits, (byte != 49) = true := fun byte hbyte =>
      mem_takeWhile_imp (p := fun byte => byte != 49) hbyte
    have hcut : digits ++ unit.toList ++ 49 :: data =
        keptDigits digits ++ 49 :: (rest ++ unit.toList ++ 49 :: data) := by
      conv => lhs; rw [← kept_append_lost digits, hrest]
      simp
    rw [hcut, takeWhile_append_of_pos hkept, takeWhile_cons_of_neg (by decide),
      append_nil]

theorem satsFromBolt11Hrp_append {hrp data network : Bytes} (hnetwork : network ∈ networks)
    (h : Accepted digits unit)
    (hhrp : hrp.map toAsciiLowercase = [108, 110] ++ (network ++ (digits ++ unit.toList))) :
    satsFromBolt11Hrp (hrp ++ 49 :: data) = satsOfAmount (readText digits unit) := by
  obtain ⟨hdigit, hone⟩ := network_letters hnetwork
  have hlower : (hrp ++ 49 :: data).map toAsciiLowercase =
      108 :: 110 :: (network ++ (digits ++ unit.toList ++ 49 :: data.map toAsciiLowercase)) := by
    rw [map_append, hhrp]
    show 108 :: 110 :: (network ++ (digits ++ unit.toList)) ++ 49 :: data.map toAsciiLowercase = _
    simp
  have hcontains : ((hrp ++ 49 :: data).map toAsciiLowercase).contains 49 = true := by
    rw [hlower]
    simp
  have hread : ((hrp ++ 49 :: data).map toAsciiLowercase).takeWhile (· != 49) =
      108 :: 110 :: (network ++ readText digits unit) := by
    rw [hlower, takeWhile_cons_of_pos (by decide), takeWhile_cons_of_pos (by decide),
      takeWhile_append_of_pos (fun byte hbyte => bne_iff_ne.mpr (hone byte hbyte)),
      takeWhile_amount h]
  have hprefix : ([108, 110] : Bytes).isPrefixOf ((hrp ++ 49 :: data).map toAsciiLowercase) = true := by
    rw [hlower]
    rfl
  rw [satsFromBolt11Hrp, if_pos hprefix, if_pos hcontains, hread, satsOfHrp]
  -- a network has at least two letters
  have hlength : ¬ (108 :: 110 :: (network ++ readText digits unit)).length ≤ 2 := by
    have hpos : 0 < network.length := by
      rw [networks, mem_cons, mem_cons, mem_cons, mem_singleton] at hnetwork
      rcases hnetwork with rfl | rfl | rfl | rfl <;> decide
    rw [length_cons, length_cons, length_append]
    omega
  rw [if_neg hlength]
  show satsOfAmount ((network ++ readText digits unit).dropWhile _) = _
  rw [dropWhile_append_of_pos fun byte hbyte => by rw [hdigit byte hbyte, Bool.not_false]]
  congr 1
  rw [readText]
  by_cases hlost : lostDigits digits = []
  · rw [if_pos hlost]
    exact dropWhile_amount h.all fun hnil => by rw [h.alone hnil, Option.toList_none]
  · rw [if_neg hlost]
    have hkept : (keptDigits digits).all isAsciiDigit = true :=
      List.all_eq_true.mpr fun byte hbyte =>
        List.all_eq_true.mp h.all byte ((takeWhile_sublist _).subset hbyte)
    have hdrop := @dropWhile_amount _ [] hkept fun _ => rfl
    rwa [append_nil] at hdrop

theorem satsOfAmount_eq {text : Bytes} {msat : ℕ} (htext : text ≠ [])
    (hsplit : splitUnit text = (digits, unit)) (hne : digits ≠ [])
    (hall : digits.all isAsciiDigit = true) (hfits : decimal digits < 2 ^ 128)
    (hmsat : msatOf (decimal digits) unit = some msat) (hsats : msat / 1000 < 2 ^ 63) :
    satsOfAmount text = if msat / 1000 = 0 then none else some (msat / 1000) := by
  have htext' : text.isEmpty = false := List.isEmpty_eq_false_iff.mpr htext
  have hne' : digits.isEmpty = false := List.isEmpty_eq_false_iff.mpr hne
  rw [satsOfAmount, if_neg (by rw [htext']; exact Bool.false_ne_true), hsplit]
  dsimp only
  rw [if_neg (by rw [hne']; exact Bool.false_ne_true), parseU128, if_pos hall, if_pos hfits]
  show (msatOf (decimal digits) unit >>= fun msat => _) = _
  rw [hmsat]
  show (if msat / 1000 = 0 then none else if msat / 1000 < 2 ^ 63 then some (msat / 1000)
    else none) = _
  rw [if_pos hsats]

theorem satsOfAmount_digits (h : digits.all isAsciiDigit = true) (hne : digits ≠ [])
    (hfits : decimal digits < 2 ^ 63) :
    satsOfAmount digits = if decimal digits = 0 then none else some (decimal digits) := by
  obtain ⟨front, last, hlast⟩ := (eq_nil_or_concat' digits).resolve_left hne
  have hsplit : splitUnit digits = (digits, none) := by
    have hbounds := digit_bounds (List.all_eq_true.mp h last (by rw [hlast]; simp))
    have hletter : isAsciiAlphabetic last = false := by
      rw [isAsciiAlphabetic, isAsciiLowercase, isAsciiUppercase, Bool.or_eq_false_iff,
        decide_eq_false_iff_not, decide_eq_false_iff_not, UInt8.le_iff_toNat_le,
        UInt8.le_iff_toNat_le, UInt8.le_iff_toNat_le, UInt8.le_iff_toNat_le]
      show ¬ (97 ≤ last.toNat ∧ _) ∧ ¬ (65 ≤ last.toNat ∧ _)
      omega
    rw [hlast, splitUnit, List.getLast?_concat]
    dsimp only
    rw [if_neg (by rw [hletter]; exact Bool.false_ne_true)]
  have hmsat : msatOf (decimal digits) none = some (decimal digits * 1000) := by
    rw [msatOf, if_pos rfl, saturatingMul, min_eq_left (by omega)]
  have hback : decimal digits * 1000 / 1000 = decimal digits := Nat.mul_div_cancel _ (by decide)
  rw [satsOfAmount_eq hne hsplit hne h (by omega) hmsat (by omega), hback]

theorem satsOfAmount_unit {u : UInt8} (h : Accepted digits (some u)) :
    satsOfAmount (digits ++ [u]) = denotedSats digits (some u) := by
  have hu := h.known u rfl
  have hne : digits ≠ [] := fun hnil => Option.some_ne_none u (h.alone hnil)
  have hsplit : splitUnit (digits ++ [u]) = (digits, some u) := by
    rw [splitUnit, List.getLast?_concat]
    dsimp only
    rw [if_pos (unit_letter hu).2.1, dropLast_concat]
  have hpico : 1 ≤ pico (some u) := by
    rw [pico]
    split_ifs <;> decide
  have hvalue : decimal digits < 2 ^ 64 :=
    lt_of_le_of_lt (Nat.le_mul_of_pos_right _ hpico) h.fits
  obtain ⟨msat, hmsat, hsats⟩ : ∃ msat, msatOf (decimal digits) (some u) = some msat ∧
      msat / 1000 = decimal digits * pico (some u) / 10 ^ 4 := by
    have hwhole := h.whole
    rw [units, mem_cons, mem_cons, mem_cons, mem_singleton] at hu
    generalize decimal digits = value at hvalue hwhole ⊢
    rcases hu with rfl | rfl | rfl | rfl
    · have hp : pico (some 109) = 10 ^ 9 := rfl
      refine ⟨value * 100000000, ?_, by rw [hp]; omega⟩
      show some (saturatingMul value 100000000) = _
      rw [saturatingMul, min_eq_left (by omega)]
    · have hp : pico (some 117) = 10 ^ 6 := rfl
      refine ⟨value * 100000, ?_, by rw [hp]; omega⟩
      show some (saturatingMul value 100000) = _
      rw [saturatingMul, min_eq_left (by omega)]
    · have hp : pico (some 110) = 10 ^ 3 := rfl
      refine ⟨value * 100, ?_, by rw [hp]; omega⟩
      show some (saturatingMul value 100) = _
      rw [saturatingMul, min_eq_left (by omega)]
    · have hp : pico (some 112) = 1 := rfl
      rw [hp, Nat.mul_one] at hwhole
      refine ⟨value / 10, ?_, by rw [hp]; omega⟩
      show (if value % 10 ≠ 0 then none else some (value / 10)) = _
      rw [if_neg (by omega)]
  have hfits := h.fits
  rw [satsOfAmount_eq (by simp) hsplit hne h.all (by omega) hmsat (by omega), hsats, denotedSats]

theorem pico_pos (unit : Option UInt8) : 1 ≤ pico unit := by
  rw [pico]
  split_ifs <;> decide

theorem Accepted.decimal_lt (h : Accepted digits unit) : decimal digits < 2 ^ 64 :=
  lt_of_le_of_lt (Nat.le_mul_of_pos_right _ (pico_pos unit)) h.fits

theorem all_kept (h : digits.all isAsciiDigit = true) : (keptDigits digits).all isAsciiDigit = true :=
  List.all_eq_true.mpr fun byte hbyte =>
    List.all_eq_true.mp h byte ((takeWhile_sublist _).subset hbyte)

theorem all_lost (h : digits.all isAsciiDigit = true) : (lostDigits digits).all isAsciiDigit = true :=
  List.all_eq_true.mpr fun byte hbyte =>
    List.all_eq_true.mp h byte ((dropWhile_sublist _).subset hbyte)

theorem decimal_eq (digits : Bytes) : decimal digits =
    decimal (keptDigits digits) * 10 ^ (lostDigits digits).length + decimal (lostDigits digits) := by
  rw [← decimal_append, kept_append_lost]

theorem Accepted.kept_pos (h : Accepted digits unit) (hkept : keptDigits digits ≠ []) :
    1 ≤ decimal (keptDigits digits) := by
  have hhead : (keptDigits digits).head? ≠ some 48 := by
    have := h.head
    rwa [← kept_append_lost digits, List.head?_append_of_ne_nil _ hkept] at this
  exact le_trans (Nat.one_le_pow _ _ (by decide)) (le_decimal (all_kept h.all) hkept hhead)

theorem lost_bounds (h : digits.all isAsciiDigit = true) (hlost : lostDigits digits ≠ []) :
    10 ^ ((lostDigits digits).length - 1) ≤ decimal (lostDigits digits) ∧
      decimal (lostDigits digits) < 10 ^ (lostDigits digits).length := by
  refine ⟨le_decimal (all_lost h) hlost ?_, ZapReceipt.decimal_lt (all_lost h)⟩
  obtain ⟨rest, hrest⟩ := lostDigits_cons hlost
  rw [hrest, List.head?_cons]
  decide

theorem satsOfAmount_readText (h : Accepted digits unit) :
    satsOfAmount (readText digits unit) =
      if lostDigits digits = [] ∧ unit ≠ none then denotedSats digits unit
      else if keptDigits digits = [] then none
      else some (decimal (keptDigits digits)) := by
  by_cases hlost : lostDigits digits = []
  · have hkept : keptDigits digits = digits := by
      have := kept_append_lost digits
      rwa [hlost, append_nil] at this
    rw [readText, if_pos hlost]
    rcases h.unit_cases with rfl | ⟨u, -, rfl⟩
    · -- without a multiplier the digits are taken for satoshis
      rw [if_neg (fun hunit => hunit.2 rfl), Option.toList_none, append_nil, hkept]
      by_cases hne : digits = []
      · rw [if_pos hne, hne]
        rfl
      · have hpos := h.kept_pos (by rwa [hkept])
        rw [hkept] at hpos
        have hfits := h.fits
        have hp : pico none = 10 ^ 12 := rfl
        rw [hp] at hfits
        rw [if_neg hne, satsOfAmount_digits h.all hne (by omega), if_neg (by omega)]
    · rw [if_pos ⟨hlost, Option.some_ne_none u⟩, Option.toList_some, satsOfAmount_unit h]
  · rw [readText, if_neg hlost, if_neg (fun hall => hlost hall.1)]
    by_cases hkept : keptDigits digits = []
    · rw [if_pos hkept, hkept]
      rfl
    · have hpos := h.kept_pos hkept
      have hvalue := decimal_eq digits
      have hpow : 10 ≤ 10 ^ (lostDigits digits).length :=
        le_self_pow₀ (by decide) (List.length_pos_iff.mpr hlost).ne'
      have hmul := Nat.mul_le_mul_left (decimal (keptDigits digits)) hpow
      have hlt := h.decimal_lt
      rw [if_neg hkept, satsOfAmount_digits (all_kept h.all) hkept (by omega), if_neg (by omega)]

theorem pico_cases (hunit : unit = none ∨ ∃ u ∈ units, unit = some u) :
    (unit ≠ some 110 ∧ unit ≠ some 112 ∧ 10 ^ 6 ≤ pico unit) ∨
      (unit = some 110 ∧ pico unit = 10 ^ 3) ∨ (unit = some 112 ∧ pico unit = 1) := by
  rcases hunit with rfl | ⟨u, hu, rfl⟩
  · exact .inl ⟨by decide, by decide, by decide⟩
  · rw [units, mem_cons, mem_cons, mem_cons, mem_singleton] at hu
    rcases hu with rfl | rfl | rfl | rfl
    · exact .inl ⟨by decide, by decide, by decide⟩
    · exact .inl ⟨by decide, by decide, by decide⟩
    · exact .inr (.inl ⟨rfl, rfl⟩)
    · exact .inr (.inr ⟨rfl, rfl⟩)

theorem below_sat_iff {value k : ℕ} (hunit : unit = none ∨ ∃ u ∈ units, unit = some u)
    (hk : 0 < k) (hlow : 10 ^ (k - 1) ≤ value) (hhigh : value < 10 ^ k) :
    value * pico unit / 10 ^ 4 = 0 ↔
      (k = 1 ∧ unit = some 110) ∨ (k = 4 ∧ unit = some 112) ∨ (k < 4 ∧ unit = some 112) := by
  have hpos : 1 ≤ value := le_trans (Nat.one_le_pow _ _ (by decide)) hlow
  rcases pico_cases hunit with ⟨hn, hp, hpico⟩ | ⟨rfl, hpico⟩ | ⟨rfl, hpico⟩
  · have hmul := Nat.mul_le_mul hpos hpico
    have hdiv : value * pico unit / 10 ^ 4 ≠ 0 := by
      generalize value * pico unit = all at hmul
      omega
    simp only [hdiv, hn, hp, and_false, or_false]
  · rw [hpico]
    have hiff : k = 1 ↔ value < 10 := by
      constructor
      · rintro rfl
        exact hhigh
      · intro hlt
        by_contra hne
        have := Nat.pow_le_pow_right (show 0 < 10 by decide) (show 1 ≤ k - 1 by omega)
        omega
    simp only [hiff, and_true, show ¬ (some 110 : Option UInt8) = some 112 by decide, and_false,
      or_false]
    omega
  · rw [hpico]
    have hiff : k ≤ 4 ↔ value < 10 ^ 4 := by
      constructor
      · intro hle
        exact lt_of_lt_of_le hhigh (Nat.pow_le_pow_right (by decide) hle)
      · intro hlt
        by_contra hne
        have := Nat.pow_le_pow_right (show 0 < 10 by decide) (show 4 ≤ k - 1 by omega)
        omega
    simp only [and_true, show ¬ (some 112 : Option UInt8) = some 110 by decide, and_false,
      false_or]
    omega

theorem kept_sats_iff {kept lost k : ℕ} (hunit : unit = none ∨ ∃ u ∈ units, unit = some u)
    (hkept : 1 ≤ kept) (hlost : lost < 10 ^ k) (hk : k = 0 → unit = none) :
    (kept * 10 ^ k + lost) * pico unit / 10 ^ 4 = kept ↔
      (k = 1 ∧ unit = some 110) ∨ (k = 4 ∧ unit = some 112) := by
  have hle : kept ≤ kept * 10 ^ k + lost :=
    le_trans (Nat.le_mul_of_pos_right _ (by positivity)) (Nat.le_add_right _ _)
  rcases pico_cases hunit with ⟨hn, hp, hpico⟩ | ⟨rfl, hpico⟩ | ⟨rfl, hpico⟩
  · have hmul := Nat.mul_le_mul hle hpico
    have hdiv : (kept * 10 ^ k + lost) * pico unit / 10 ^ 4 ≠ kept := by
      generalize (kept * 10 ^ k + lost) * pico unit = all at hmul
      omega
    simp only [hdiv, hn, hp, and_false, or_false]
  · have hpos : k ≠ 0 := fun h0 => absurd (hk h0) (by decide)
    simp only [hpico, and_true, show ¬ (some 110 : Option UInt8) = some 112 by decide, and_false,
      or_false]
    constructor
    · intro heq
      by_contra hne
      have hpow := Nat.pow_le_pow_right (show 0 < 10 by decide) (show 2 ≤ k by omega)
      have hmul := Nat.mul_le_mul_left kept hpow
      omega
    · rintro rfl
      omega
  · have hpos : k ≠ 0 := fun h0 => absurd (hk h0) (by decide)
    simp only [hpico, and_true, show ¬ (some 112 : Option UInt8) = some 110 by decide, and_false,
      false_or, Nat.mul_one]
    by_cases hlarge : 5 ≤ k
    · have hmul := Nat.mul_le_mul_left kept (Nat.pow_le_pow_right (show 0 < 10 by decide) hlarge)
      constructor
      · intro heq
        omega
      · intro heq
        omega
    · interval_cases k
      · exact absurd rfl hpos
      · omega
      · omega
      · omega
      · omega

theorem read_iff (h : Accepted digits unit) :
    satsOfAmount (readText digits unit) = denotedSats digits unit ↔ AmountRead digits unit := by
  rw [satsOfAmount_readText h, AmountRead]
  by_cases hread : lostDigits digits = [] ∧ unit ≠ none
  · rw [if_pos hread]
    exact iff_of_true rfl (.inr (.inl hread))
  rw [if_neg hread]
  by_cases hnil : digits = []
  · refine iff_of_true ?_ (.inl hnil)
    rw [hnil, h.alone hnil]
    rfl
  have hvalue := decimal_eq digits
  simp only [hnil, hread, false_or]
  by_cases hkept : keptDigits digits = []
  · -- nothing is read, which is right below one satoshi
    have hlost : lostDigits digits ≠ [] := by
      intro hlost
      rw [← kept_append_lost digits, hkept, hlost] at hnil
      exact hnil rfl
    obtain ⟨hlow, hhigh⟩ := lost_bounds h.all hlost
    have hzero : decimal (keptDigits digits) = 0 := by rw [hkept]; rfl
    rw [hzero, Nat.zero_mul, Nat.zero_add] at hvalue
    have hnone : denotedSats digits unit = none ↔
        decimal (lostDigits digits) * pico unit / 10 ^ 4 = 0 := by
      rw [denotedSats, hvalue]
      by_cases h0 : decimal (lostDigits digits) * pico unit / 10 ^ 4 = 0
      · rw [if_pos h0]
        exact iff_of_true rfl h0
      · rw [if_neg h0]
        exact iff_of_false (Option.some_ne_none _) h0
    rw [if_pos hkept, eq_comm, hnone,
      below_sat_iff h.unit_cases (List.length_pos_iff.mpr hlost) hlow hhigh]
    simp only [hkept, true_and]
  · -- the digits that are kept are taken for satoshis
    have hpos := h.kept_pos hkept
    have hlt : decimal (lostDigits digits) < 10 ^ (lostDigits digits).length :=
      ZapReceipt.decimal_lt (all_lost h.all)
    have hzero : (lostDigits digits).length = 0 → unit = none := fun h0 => by
      by_contra hunit
      exact hread ⟨List.length_eq_zero_iff.mp h0, hunit⟩
    have hsome : some (decimal (keptDigits digits)) = denotedSats digits unit ↔
        decimal digits * pico unit / 10 ^ 4 = decimal (keptDigits digits) := by
      rw [denotedSats]
      by_cases h0 : decimal digits * pico unit / 10 ^ 4 = 0
      · rw [if_pos h0]
        exact iff_of_false (Option.some_ne_none _) (by omega)
      · rw [if_neg h0, Option.some.injEq, eq_comm]
    rw [if_neg hkept, hsome, hvalue, kept_sats_iff h.unit_cases hpos hlt hzero]
    simp only [hkept, false_and, or_false]

end Read

theorem accepted_of_invoice {invoice : Bytes} (h : isWellFormedBolt11 invoice = some true) :
    Accepted (invoiceDigits invoice) (invoiceUnit invoice) ∧
      satsFromBolt11Hrp invoice =
        satsOfAmount (readText (invoiceDigits invoice) (invoiceUnit invoice)) := by
  obtain ⟨hrp, data, rfl, hdata⟩ := split_of_accepted h
  obtain ⟨-, hhrp, -⟩ := parts_of_accepted hdata h
  obtain ⟨network, hnetwork, digits, unit, haccepted, hparts⟩ := accepted_hrp hhrp
  obtain ⟨hdigits, hunit⟩ :=
    invoiceParts_eq haccepted (amountText_eq hdata hnetwork haccepted hparts)
  rw [hdigits, hunit]
  exact ⟨haccepted, satsFromBolt11Hrp_append hnetwork haccepted hparts⟩

/-! ### What a receipt reports -/

/-- The amount of the invoice of a receipt: what it denotes, if it is an invoice, and else
what is read of it. -/
def invoiceAmount (bolt11 : String) : Option ℕ :=
  let bytes := Utf8.bytes bolt11.toList
  if isWellFormedBolt11 bytes = some true then
    denotedSats (invoiceDigits bytes) (invoiceUnit bytes)
  else satsFromBolt11Hrp bytes

/-- The amount is `0`, that of the request, or that of the invoice. -/
def AmountReported (parsed : Kind9735Parsed) : Prop :=
  parsed.amount = 0 ∨
    (∃ msat, taggedMsat parsed.description = some msat ∧
      parsed.amount.toInt = msat.tdiv 1000) ∨
    ∃ sats : ℕ, invoiceAmount parsed.bolt11 = some sats ∧ parsed.amount.toInt = sats

/-- The satoshis of the request are a multiple of 2³², or there are none. -/
def NoRequested (request : ZapRequest) : Prop :=
  ∀ msat, taggedMsat request = some msat → ((2 ^ 32 : ℕ) : ℤ) ∣ msat.tdiv 1000

/-- The receipts that are reported as they are: the satoshis of the request fit into 32
bits, are a multiple of 2³², or wrap to the amount of the invoice; and where they do not
count, an invoice is read as it is, is not read at all, or is read as too much. -/
structure ReceiptRead (request : ZapRequest) (bolt11 : String) : Prop where
  requested : ∀ msat, taggedMsat request = some msat →
    (-2 ^ 31 ≤ msat.tdiv 1000 ∧ msat.tdiv 1000 < 2 ^ 31) ∨
      ((2 ^ 32 : ℕ) : ℤ) ∣ msat.tdiv 1000 ∨
      ∃ sats : ℕ, invoiceAmount bolt11 = some sats ∧ (msat.tdiv 1000).bmod (2 ^ 32) = sats
  paid : NoRequested request → isWellFormedBolt11 (Utf8.bytes bolt11.toList) = some true →
    AmountRead (invoiceDigits (Utf8.bytes bolt11.toList)) (invoiceUnit (Utf8.bytes bolt11.toList)) ∨
      keptDigits (invoiceDigits (Utf8.bytes bolt11.toList)) = [] ∨
      2 ^ 31 ≤ decimal (keptDigits (invoiceDigits (Utf8.bytes bolt11.toList)))

theorem amount_of_parsed {event : SignedEvent} (h : parseKind9735 event = .ok parsed) :
    parsed.amount = amountOf parsed.description parsed.bolt11 := by
  rw [parseKind9735] at h
  by_cases hkind : event.kind ≠ 9735
  · rw [if_pos hkind] at h
    contradiction
  · rw [if_neg hkind] at h
    dsimp only at h
    split at h
    · obtain ⟨request, -, h⟩ := Result.bind_eq_ok.mp h
      split at h
      · contradiction
      · rw [← Except.ok.inj h]
    · contradiction

theorem ofInt_eq_zero_iff (n : ℤ) : Int32.ofInt n = 0 ↔ ((2 ^ 32 : ℕ) : ℤ) ∣ n := by
  rw [Int.dvd_iff_bmod_eq_zero, ← Int32.toInt_inj, Int32.toInt_ofInt]
  exact Iff.rfl

theorem requestedAmount_eq_zero_iff (request : ZapRequest) :
    requestedAmount request = 0 ↔ NoRequested request := by
  rw [requestedAmount, NoRequested]
  cases htag : taggedMsat request with
  | none => simp
  | some msat =>
    rw [Option.map_some, Option.getD_some, ofInt_eq_zero_iff]
    constructor
    · intro h m hm
      rw [← Option.some.inj hm]
      exact h
    · intro h
      exact h msat rfl

theorem bmod_eq_self_iff (n : ℤ) : n.bmod (2 ^ 32) = n ↔ -2 ^ 31 ≤ n ∧ n < 2 ^ 31 := by
  rw [Int.bmod_eq_iff (by decide)]
  constructor
  · rintro ⟨h1, h2, -⟩
    omega
  · rintro ⟨h1, h2⟩
    exact ⟨by omega, by omega, by simp⟩

theorem satsOfAmount_unread {digits : Bytes} (h : Accepted digits unit)
    (hno : ¬ AmountRead digits unit) : satsOfAmount (readText digits unit) =
      if keptDigits digits = [] then none else some (decimal (keptDigits digits)) := by
  rw [satsOfAmount_readText h, if_neg]
  intro hread
  exact hno (.inr (.inl hread))

theorem paidAmount_iff (read denoted : Option ℕ) :
    (paidAmount read = 0 ∨ ∃ sats : ℕ, denoted = some sats ∧ (paidAmount read).toInt = sats) ↔
      ∀ sats, read = some sats → sats < 2 ^ 31 → sats = 0 ∨ denoted = some sats := by
  cases read with
  | none =>
    refine iff_of_true (.inl rfl) fun sats h => ?_
    exact absurd h.symm (Option.some_ne_none sats)
  | some sats =>
    rw [paidAmount]
    by_cases hfits : sats < 2 ^ 31
    · have htoInt := Int32.toInt_ofNat_of_lt hfits
      rw [if_pos hfits, htoInt, ← Int32.toInt_inj, htoInt, Int32.toInt_zero]
      constructor
      · rintro (h | ⟨n, hn, heq⟩) m hm -
        · exact .inl (by rw [← Option.some.inj hm]; omega)
        · exact .inr (by rw [hn, ← Option.some.inj hm]; exact congrArg some (by omega))
      · intro h
        rcases h sats rfl hfits with h | h
        · exact .inl (by omega)
        · exact .inr ⟨sats, h, rfl⟩
    · rw [if_neg hfits]
      refine iff_of_true (.inl rfl) fun m hm hlt => ?_
      rw [← Option.some.inj hm] at hlt
      exact absurd hlt hfits

theorem invoice_reported_iff {digits : Bytes} (h : Accepted digits unit) :
    (∀ sats, satsOfAmount (readText digits unit) = some sats → sats < 2 ^ 31 →
      sats = 0 ∨ denotedSats digits unit = some sats) ↔
      AmountRead digits unit ∨ keptDigits digits = [] ∨ 2 ^ 31 ≤ decimal (keptDigits digits) := by
  by_cases hread : AmountRead digits unit
  · refine iff_of_true (fun sats hsats _ => ?_) (.inl hread)
    rw [(read_iff h).mpr hread] at hsats
    exact .inr hsats
  · have hno : satsOfAmount (readText digits unit) ≠ denotedSats digits unit :=
      mt (read_iff h).mp hread
    rw [satsOfAmount_unread h hread] at hno ⊢
    simp only [hread, false_or]
    by_cases hkept : keptDigits digits = []
    · rw [if_pos hkept]
      refine iff_of_true (fun sats hsats => ?_) (.inl hkept)
      exact absurd hsats.symm (Option.some_ne_none sats)
    · rw [if_neg hkept] at hno ⊢
      have hpos := h.kept_pos hkept
      constructor
      · intro hall
        by_contra hlt
        rw [not_or, Nat.not_le] at hlt
        rcases hall _ rfl hlt.2 with h0 | hdenoted
        · omega
        · exact hno hdenoted.symm
      · rintro (hnil | hlarge) sats hsats hlt
        · exact absurd hnil hkept
        · rw [← Option.some.inj hsats] at hlt
          omega

theorem paid_iff (hnone : NoRequested parsed.description) :
    AmountReported parsed ↔
      parsed.amount = 0 ∨
        ∃ sats : ℕ, invoiceAmount parsed.bolt11 = some sats ∧ parsed.amount.toInt = sats := by
  rw [AmountReported]
  refine ⟨fun h => ?_, fun h => ?_⟩
  · rcases h with h | ⟨msat, htag, heq⟩ | h
    · exact .inl h
    · -- a multiple of 2³² within 32 bits is zero
      have hdvd := hnone msat htag
      rw [← heq] at hdvd
      have hlow := Int32.le_toInt parsed.amount
      have hhigh := Int32.toInt_lt parsed.amount
      refine .inl (Int32.toInt_inj.mp ?_)
      rw [Int32.toInt_zero]
      omega
    · exact .inr h
  · rcases h with h | h
    · exact .inl h
    · exact .inr (.inr h)

/-- **A receipt is reported as it is exactly under these conditions.** -/
theorem receipt_read_iff (hamount : parsed.amount = amountOf parsed.description parsed.bolt11) :
    AmountReported parsed ↔ ReceiptRead parsed.description parsed.bolt11 := by
  by_cases hnone : NoRequested parsed.description
  · have hread : ReceiptRead parsed.description parsed.bolt11 ↔
        (isWellFormedBolt11 (Utf8.bytes parsed.bolt11.toList) = some true →
          AmountRead (invoiceDigits (Utf8.bytes parsed.bolt11.toList))
              (invoiceUnit (Utf8.bytes parsed.bolt11.toList)) ∨
            keptDigits (invoiceDigits (Utf8.bytes parsed.bolt11.toList)) = [] ∨
            2 ^ 31 ≤ decimal (keptDigits (invoiceDigits (Utf8.bytes parsed.bolt11.toList)))) :=
      ⟨fun h => h.paid hnone, fun h => ⟨fun msat htag => .inr (.inl (hnone msat htag)), fun _ => h⟩⟩
    have hvalue : amountOf parsed.description parsed.bolt11 =
        paidAmount (satsFromBolt11Hrp (Utf8.bytes parsed.bolt11.toList)) :=
      if_pos ((requestedAmount_eq_zero_iff _).mpr hnone)
    rw [paid_iff hnone, hread, hamount, hvalue, paidAmount_iff, invoiceAmount]
    generalize Utf8.bytes parsed.bolt11.toList = bytes
    by_cases hformed : isWellFormedBolt11 bytes = some true
    · obtain ⟨haccepted, hsats⟩ := accepted_of_invoice hformed
      simp only [hformed, if_true, true_imp_iff]
      rw [hsats, invoice_reported_iff haccepted]
    · -- what is no invoice has no other amount
      simp only [hformed, if_false, false_imp_iff, iff_true]
      exact fun sats hsats _ => .inr hsats
  · have hrequested : requestedAmount parsed.description ≠ 0 := fun h0 =>
      hnone ((requestedAmount_eq_zero_iff _).mp h0)
    obtain ⟨msat, htag, hdvd⟩ : ∃ msat, taggedMsat parsed.description = some msat ∧
        ¬ ((2 ^ 32 : ℕ) : ℤ) ∣ msat.tdiv 1000 := by
      rw [NoRequested] at hnone
      push Not at hnone
      exact hnone
    have hvalue : parsed.amount = Int32.ofInt (msat.tdiv 1000) := by
      rw [hamount, amountOf, if_neg hrequested, requestedAmount, htag, Option.map_some,
        Option.getD_some]
    have htoInt : parsed.amount.toInt = (msat.tdiv 1000).bmod (2 ^ 32) := by
      rw [hvalue, Int32.toInt_ofInt]
      rfl
    have hzero : parsed.amount ≠ 0 := by
      rw [hvalue, Ne, ofInt_eq_zero_iff]
      exact hdvd
    rw [AmountReported, htoInt]
    constructor
    · intro h
      refine ⟨fun m hm => ?_, fun hno => absurd hno hnone⟩
      rw [htag, Option.some.injEq] at hm
      rw [← hm]
      rcases h with h | ⟨m', hm', heq⟩ | h
      · exact absurd h hzero
      · rw [htag, Option.some.injEq] at hm'
        rw [← hm'] at heq
        exact .inl ((bmod_eq_self_iff _).mp heq)
      · exact .inr (.inr h)
    · intro h
      rcases h.requested msat htag with h | h | h
      · exact .inr (.inl ⟨msat, htag, (bmod_eq_self_iff _).mpr h⟩)
      · exact absurd h hdvd
      · exact .inr (.inr h)

/-- **Zap amounts are read correctly exactly for these amounts**: those of accepted
invoices, and those of receipts. -/
theorem zap_amounts_read_iff (invoice : Bytes) (event : SignedEvent) (parsed : Kind9735Parsed) :
    (isWellFormedBolt11 invoice = some true →
      (satsFromBolt11Hrp invoice = denotedSats (invoiceDigits invoice) (invoiceUnit invoice) ↔
        AmountRead (invoiceDigits invoice) (invoiceUnit invoice))) ∧
    (parseKind9735 event = .ok parsed →
      (AmountReported parsed ↔ ReceiptRead parsed.description parsed.bolt11)) := by
  refine ⟨fun h => ?_, fun h => receipt_read_iff (amount_of_parsed h)⟩
  obtain ⟨haccepted, hsats⟩ := accepted_of_invoice h
  rw [hsats]
  exact read_iff haccepted

def sampleRequest : ZapRequest where
  kind := 9734
  pubkey := "k"
  content := ""
  tags := [["amount", "21000"]]
  signature := none

theorem length_wallet : (List.replicate 32 (1 : UInt8)).length = 32 := length_alike 1

def sampleReceipt : SignedEvent where
  id := ⟨List.replicate 32 0, length_zeros⟩
  pubkey := ⟨List.replicate 32 1, length_wallet⟩
  createdAt := 0
  kind := 9735
  tags := [["p", "r"], ["bolt11", "x"], ["description",
    "\x7b\"kind\":9734,\"pubkey\":\"k\",\"content\":\"\",\"tags\":[[\"amount\",\"21000\"]]\x7d"]]
  content := ""
  sig := ""

def sampleParsed : Kind9735Parsed where
  id := sampleReceipt.id.toHex
  amount := 21
  content := ""
  bolt11 := "x"
  preimage := none
  sender := "k"
  recipient := "r"
  event := none
  eventCoordinate := none
  timestamp := 0
  valid := false
  description := sampleRequest

/-- An invoice of 2500 micro-bitcoins. -/
def microInvoice : Bytes :=
  Utf8.bytes (['l', 'n', 'b', 'c', '2', '5', '0', '0', 'u', '1', 'p'] ++ sampleRest.take 292 ++
    ['g', '0', 'a', 'q', '4', 't'])

set_option maxRecDepth 20000 in
theorem zap_amounts_read_sample :
    satsFromBolt11Hrp microInvoice = denotedSats [50, 53, 48, 48] (some 117) ∧
      AmountReported sampleParsed := by
  have hread := zap_amounts_read_iff microInvoice sampleReceipt sampleParsed
  have hparts : invoiceDigits microInvoice = [50, 53, 48, 48] ∧
      invoiceUnit microInvoice = some 117 := by decide
  have hinvoice := hread.1 (by decide)
  rw [hparts.1, hparts.2] at hinvoice
  have hparsed : parseKind9735 sampleReceipt = .ok sampleParsed := rfl
  refine ⟨hinvoice.mpr (.inr (.inl ⟨by decide, by decide⟩)),
    (hread.2 hparsed).mpr ⟨fun msat htag => ?_, fun hnone => ?_⟩⟩
  · have hmsat : taggedMsat sampleRequest = some 21000 := rfl
    rw [show sampleParsed.description = sampleRequest from rfl, hmsat, Option.some.injEq] at htag
    rw [← htag]
    exact .inl (by decide)
  · exact absurd (hnone 21000 rfl) (by decide)

def bitcoinInvoice : Bytes :=
  Utf8.bytes (['l', 'n', 'b', 'c', '2', '1', 'p'] ++ sampleRest.take 292 ++
    ['5', '5', 'm', 'k', 'y', 'a'])

set_option maxRecDepth 20000 in
/-- It is read as two satoshis. -/
theorem bitcoins_read_as_sats :
    isWellFormedBolt11 bitcoinInvoice = some true ∧ satsFromBolt11Hrp bitcoinInvoice = some 2 ∧
      denotedSats (invoiceDigits bitcoinInvoice) (invoiceUnit bitcoinInvoice) = some 200000000 := by
  decide

end ZapReceipt
end Nipworker
