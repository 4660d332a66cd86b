/-
The 32-bit operators of JavaScript, on integral numbers.

An operand is taken modulo `2 ^ 32`; `&`, `|`, `^` and `<<` answer with a signed number,
`>>>` with an unsigned one; a shift counts modulo 32.

* `toInt32_bitAnd` and its companions — the bits of a result are the operation on the bits;
* `bitOr_natCast` and its companions — on small non-negative numbers the operators are
  those of the natural numbers.
-/
import Mathlib

namespace Js

def toInt32 (x : ℤ) : BitVec 32 := BitVec.ofInt 32 x

/-- `x & y`. -/
def bitAnd (x y : ℤ) : ℤ := (toInt32 x &&& toInt32 y).toInt

/-- `x | y`. -/
def bitOr (x y : ℤ) : ℤ := (toInt32 x ||| toInt32 y).toInt

/-- `x ^ y`. -/
def bitXor (x y : ℤ) : ℤ := (toInt32 x ^^^ toInt32 y).toInt

def shiftCount (y : ℤ) : ℕ := (toInt32 y).toNat % 32

/-- `x << y`. -/
def shiftLeft (x y : ℤ) : ℤ := (toInt32 x <<< shiftCount y).toInt

/-- `x >>> y`. -/
def shiftRight (x y : ℤ) : ℤ := ((toInt32 x >>> shiftCount y).toNat : ℕ)

/-! ### The bits of a result -/

theorem toInt32_toInt (b : BitVec 32) : toInt32 b.toInt = b := BitVec.ofInt_toInt

theorem toInt32_toNat (b : BitVec 32) : toInt32 (b.toNat : ℕ) = b := by
  rw [toInt32, BitVec.ofInt_natCast, BitVec.ofNat_toNat, BitVec.setWidth_eq]

theorem toInt32_natCast (n : ℕ) : toInt32 (n : ℤ) = BitVec.ofNat 32 n := BitVec.ofInt_natCast 32 n

theorem toInt32_bitAnd (x y : ℤ) : toInt32 (bitAnd x y) = toInt32 x &&& toInt32 y :=
  toInt32_toInt _

theorem toInt32_bitOr (x y : ℤ) : toInt32 (bitOr x y) = toInt32 x ||| toInt32 y :=
  toInt32_toInt _

theorem toInt32_bitXor (x y : ℤ) : toInt32 (bitXor x y) = toInt32 x ^^^ toInt32 y :=
  toInt32_toInt _

theorem toInt32_shiftLeft (x y : ℤ) : toInt32 (shiftLeft x y) = toInt32 x <<< shiftCount y :=
  toInt32_toInt _

theorem toInt32_shiftRight (x y : ℤ) : toInt32 (shiftRight x y) = toInt32 x >>> shiftCount y :=
  toInt32_toNat _

theorem shiftCount_natCast {n : ℕ} (h : n < 32) : shiftCount (n : ℤ) = n := by
  rw [shiftCount, toInt32_natCast, BitVec.toNat_ofNat]
  omega

/-! ### Small numbers -/

theorem toInt_of_lt {b : BitVec 32} {n : ℕ} (h : b.toNat = n) (hn : n < 2 ^ 31) :
    b.toInt = (n : ℤ) := by
  rw [BitVec.toInt_eq_toNat_of_lt (by omega), h]

theorem bitAnd_natCast {a b : ℕ} (ha : a < 2 ^ 32) (hb : b < 2 ^ 31) :
    bitAnd (a : ℤ) (b : ℤ) = ((a &&& b : ℕ) : ℤ) := by
  refine toInt_of_lt ?_ (lt_of_le_of_lt Nat.and_le_right hb)
  rw [toInt32_natCast, toInt32_natCast, BitVec.toNat_and, BitVec.toNat_ofNat, BitVec.toNat_ofNat,
    Nat.mod_eq_of_lt ha, Nat.mod_eq_of_lt (by omega)]

theorem bitOr_natCast {a b : ℕ} (ha : a < 2 ^ 31) (hb : b < 2 ^ 31) :
    bitOr (a : ℤ) (b : ℤ) = ((a ||| b : ℕ) : ℤ) := by
  refine toInt_of_lt ?_ (Nat.or_lt_two_pow ha hb)
  rw [toInt32_natCast, toInt32_natCast, BitVec.toNat_or, BitVec.toNat_ofNat, BitVec.toNat_ofNat,
    Nat.mod_eq_of_lt (by omega), Nat.mod_eq_of_lt (by omega)]

theorem shiftLeft_natCast {a k : ℕ} (hk : k < 32) (h : a <<< k < 2 ^ 31) :
    shiftLeft (a : ℤ) (k : ℤ) = ((a <<< k : ℕ) : ℤ) := by
  have ha : a ≤ a <<< k := by
    rw [Nat.shiftLeft_eq]
    exact Nat.le_mul_of_pos_right a (Nat.two_pow_pos k)
  refine toInt_of_lt ?_ h
  rw [shiftCount_natCast hk, toInt32_natCast, BitVec.toNat_shiftLeft, BitVec.toNat_ofNat,
    Nat.mod_eq_of_lt (show a < 2 ^ 32 by omega), Nat.mod_eq_of_lt (by omega)]

theorem shiftRight_natCast {a k : ℕ} (ha : a < 2 ^ 32) (hk : k < 32) :
    shiftRight (a : ℤ) (k : ℤ) = ((a >>> k : ℕ) : ℤ) := by
  rw [shiftRight, shiftCount_natCast hk, toInt32_natCast, BitVec.toNat_ushiftRight,
    BitVec.toNat_ofNat, Nat.mod_eq_of_lt ha]

end Js
