/-
The Bech32 checksum.

A shift register of six symbols of five bits: a step moves the register up by one symbol,
puts the new symbol in at the bottom, and feeds the symbol that left back in.
-/
import Mathlib

namespace Bech32

open List

/-- The generators of the checksum, one for each bit of the symbol that leaves. -/
def generators : List (BitVec 32) :=
  [0x3b6a57b2, 0x26508e6d, 0x1ea119fa, 0x3d4233dd, 0x2a1462b3]

/-- Put the generators of the bits that are set into a register. -/
def feed (top register : BitVec 32) : BitVec 32 :=
  generators.zipIdx.foldl (fun register generator =>
    if (top >>> generator.2) &&& 1 ≠ 0 then register ^^^ generator.1 else register) register

/-- One step of the register. -/
def polymodStep (register symbol : BitVec 32) : BitVec 32 :=
  feed (register >>> 25) (((register &&& 0x01ffffff#32) <<< 5) ^^^ symbol)

def polymod (register : BitVec 32) (symbols : List (BitVec 32)) : BitVec 32 :=
  symbols.foldl polymodStep register

def feedback (top : BitVec 32) : BitVec 32 := feed top 0

/-! ### A step -/

theorem foldl_xor_if (gs : List (BitVec 32 × ℕ)) (set : ℕ → Prop) [DecidablePred set]
    (a b : BitVec 32) :
    gs.foldl (fun r g => if set g.2 then r ^^^ g.1 else r) (a ^^^ b) =
      a ^^^ gs.foldl (fun r g => if set g.2 then r ^^^ g.1 else r) b := by
  induction gs generalizing b with
  | nil => rfl
  | cons g gs ih =>
    rw [foldl_cons, foldl_cons]
    by_cases hset : set g.2
    · rw [if_pos hset, if_pos hset, BitVec.xor_assoc]
      exact ih (b ^^^ g.1)
    · rw [if_neg hset, if_neg hset]
      exact ih b

theorem feed_eq (top register : BitVec 32) : feed top register = register ^^^ feedback top := by
  have h := foldl_xor_if generators.zipIdx (fun bit => (top >>> bit) &&& 1 ≠ 0) register 0#32
  rw [BitVec.xor_zero] at h
  exact h

theorem polymodStep_eq (register symbol : BitVec 32) :
    polymodStep register symbol =
      ((register &&& 0x01ffffff#32) <<< 5 ^^^ feedback (register >>> 25)) ^^^ symbol := by
  rw [polymodStep, feed_eq, BitVec.xor_assoc, BitVec.xor_assoc, BitVec.xor_comm symbol]

def Fits (register : BitVec 32) : Prop := register.toNat < 2 ^ 30

instance (register : BitVec 32) : Decidable (Fits register) := Nat.decLt _ _

/-- The symbol that leaves can be read off the lowest symbol it feeds back. -/
theorem feedback_low : ∀ t < 32, Fits (feedback (BitVec.ofNat 32 t)) ∧
    ∀ t' < 32, feedback (BitVec.ofNat 32 t) &&& 31#32 = feedback (BitVec.ofNat 32 t') &&& 31#32 →
      t = t' := by
  decide

variable {register : BitVec 32}

theorem toNat_top (h : Fits register) : (register >>> 25).toNat < 32 := by
  rw [Fits] at h
  rw [BitVec.toNat_ushiftRight, Nat.shiftRight_eq_div_pow]
  omega

theorem fits_feedback (h : Fits register) : Fits (feedback (register >>> 25)) := by
  have hfit := (feedback_low _ (toNat_top h)).1
  rw [BitVec.ofNat_toNat, BitVec.setWidth_eq] at hfit
  exact hfit

theorem fits_xor {a b : BitVec 32} (ha : Fits a) (hb : Fits b) : Fits (a ^^^ b) := by
  rw [Fits, BitVec.toNat_xor]
  exact Nat.xor_lt_two_pow ha hb

theorem fits_polymodStep {symbol : BitVec 32} (h : Fits register)
    (hsymbol : symbol.toNat < 32) : Fits (polymodStep register symbol) := by
  rw [polymodStep_eq]
  refine fits_xor (fits_xor ?_ (fits_feedback h)) (by rw [Fits]; omega)
  have hmask : (register &&& 0x01ffffff#32).toNat < 2 ^ 25 := by
    rw [BitVec.toNat_and]
    exact lt_of_le_of_lt Nat.and_le_right (by decide)
  rw [Fits, BitVec.toNat_shiftLeft, Nat.shiftLeft_eq]
  omega

/-! ### Nothing is lost -/

/-- A step does not lose the symbol. -/
theorem polymodStep_symbol_inj {a b : BitVec 32}
    (h : polymodStep register a = polymodStep register b) : a = b := by
  rw [polymodStep_eq, polymodStep_eq] at h
  exact (BitVec.xor_right_inj _).mp h

theorem getLsbD_ones (k i : ℕ) (hi : i < 32) :
    (BitVec.ofNat 32 (2 ^ k - 1)).getLsbD i = decide (i < k) := by
  rw [BitVec.getLsbD_ofNat, Nat.testBit_two_pow_sub_one, decide_eq_true hi, Bool.true_and]

theorem moved_low (register f : BitVec 32) :
    (register <<< 5 ^^^ f) &&& 31#32 = f &&& 31#32 := by
  refine BitVec.eq_of_getLsbD_eq fun i hi => ?_
  have hones : (31#32).getLsbD i = decide (i < 5) := getLsbD_ones 5 i hi
  rw [BitVec.getLsbD_and, BitVec.getLsbD_and, BitVec.getLsbD_xor, BitVec.getLsbD_shiftLeft, hones]
  by_cases hlow : i < 5 <;> simp [hlow]

theorem moved_inj {r r' : BitVec 32}
    (h : (r &&& 0x01ffffff#32) <<< 5 = (r' &&& 0x01ffffff#32) <<< 5) {i : ℕ} (hi : i < 25) :
    r.getLsbD i = r'.getLsbD i := by
  have hones : (0x01ffffff#32).getLsbD i = true := by
    have h := getLsbD_ones 25 i (by omega)
    rw [decide_eq_true hi] at h
    exact h
  have hbit := congrArg (BitVec.getLsbD · (i + 5)) h
  simp only [BitVec.getLsbD_shiftLeft, Nat.add_sub_cancel, BitVec.getLsbD_and, hones,
    Bool.and_true] at hbit
  rw [decide_eq_true (show i + 5 < 32 by omega), decide_eq_false (show ¬ i + 5 < 5 by omega)] at hbit
  exact hbit

/-- A step does not lose the register. -/
theorem polymodStep_register_inj {r r' symbol : BitVec 32} (hr : Fits r) (hr' : Fits r')
    (h : polymodStep r symbol = polymodStep r' symbol) : r = r' := by
  rw [polymodStep_eq, polymodStep_eq] at h
  have hsum := (BitVec.xor_left_inj _).mp h
  -- the symbols that left are the same, by what they feed back
  have htop : r >>> 25 = r' >>> 25 := by
    have hlow := congrArg (· &&& 31#32) hsum
    rw [moved_low, moved_low] at hlow
    have heq := (feedback_low _ (toNat_top hr)).2 _ (toNat_top hr')
    rw [BitVec.ofNat_toNat, BitVec.ofNat_toNat, BitVec.setWidth_eq, BitVec.setWidth_eq] at heq
    exact BitVec.eq_of_toNat_eq (heq hlow)
  rw [htop] at hsum
  have hmoved := (BitVec.xor_left_inj _).mp hsum
  refine BitVec.eq_of_getLsbD_eq fun i hi => ?_
  by_cases hlow : i < 25
  · exact moved_inj hmoved hlow
  · have hbit := congrArg (BitVec.getLsbD · (i - 25)) htop
    simp only [BitVec.getLsbD_ushiftRight] at hbit
    rw [Nat.add_sub_cancel' (by omega)] at hbit
    exact hbit

/-! ### Texts -/

theorem polymod_append (register : BitVec 32) (front back : List (BitVec 32)) :
    polymod register (front ++ back) = polymod (polymod register front) back :=
  foldl_append

theorem fits_polymod {symbols : List (BitVec 32)} (hsymbols : ∀ s ∈ symbols, s.toNat < 32) :
    ∀ {register : BitVec 32}, Fits register → Fits (polymod register symbols) := by
  induction symbols with
  | nil => exact fun h => h
  | cons s symbols ih =>
    intro register h
    exact ih (fun s' hs' => hsymbols s' (mem_cons_of_mem _ hs'))
      (fits_polymodStep h (hsymbols s mem_cons_self))

theorem polymod_register_inj {symbols : List (BitVec 32)} (hsymbols : ∀ s ∈ symbols, s.toNat < 32) :
    ∀ {r r' : BitVec 32}, Fits r → Fits r' → polymod r symbols = polymod r' symbols → r = r' := by
  induction symbols with
  | nil => exact fun _ _ h => h
  | cons s symbols ih =>
    intro r r' hr hr' h
    have hs := hsymbols s mem_cons_self
    exact polymodStep_register_inj hr hr'
      (ih (fun s' hs' => hsymbols s' (mem_cons_of_mem _ hs')) (fits_polymodStep hr hs)
        (fits_polymodStep hr' hs) h)

/-- **One substitution is noticed**: texts of any length that differ in one symbol leave
different registers. -/
theorem polymod_substitution (hregister : Fits register)
    {front back : List (BitVec 32)} {a b : BitVec 32} (hfront : ∀ s ∈ front, s.toNat < 32)
    (ha : a.toNat < 32) (hb : b.toNat < 32) (hback : ∀ s ∈ back, s.toNat < 32)
    (h : polymod register (front ++ a :: back) = polymod register (front ++ b :: back)) : a = b := by
  rw [polymod_append, polymod_append] at h
  have hfits := fits_polymod hfront hregister
  exact polymodStep_symbol_inj
    (polymod_register_inj hback (fits_polymodStep hfits ha) (fits_polymodStep hfits hb) h)

end Bech32
