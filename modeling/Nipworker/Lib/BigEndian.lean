/-
Bytes of a number, most significant first, and their order.
-/
import Nipworker.Lib.Wire

theorem foldl_ofBeBytes (bytes : Bytes) : ∀ high : ℕ,
    bytes.foldl (fun acc byte => acc * 256 + byte.toNat) high =
      high * 256 ^ bytes.length + ofBeBytes bytes := by
  induction bytes with
  | nil =>
    intro high
    show high = high * 256 ^ 0 + 0
    rw [pow_zero, mul_one, Nat.add_zero]
  | cons byte bytes ih =>
    intro high
    have hzero : ofBeBytes (byte :: bytes) = (0 * 256 + byte.toNat) * 256 ^ bytes.length +
        ofBeBytes bytes := ih _
    rw [List.foldl_cons, ih, hzero, List.length_cons, Nat.pow_succ']
    ring

/-- The first byte stands for the highest place. -/
theorem ofBeBytes_cons (byte : UInt8) (bytes : Bytes) :
    ofBeBytes (byte :: bytes) = byte.toNat * 256 ^ bytes.length + ofBeBytes bytes := by
  have h : ofBeBytes (byte :: bytes) = (0 * 256 + byte.toNat) * 256 ^ bytes.length +
      ofBeBytes bytes := foldl_ofBeBytes bytes _
  rw [h, Nat.zero_mul, Nat.zero_add]

/-- Byte strings of one length are ordered as the numbers they write. -/
theorem lt_iff_ofBeBytes : ∀ {a b : Bytes}, a.length = b.length →
    (a < b ↔ ofBeBytes a < ofBeBytes b)
  | [], [], _ => iff_of_false (List.not_lt_nil _) (lt_irrefl _)
  | x :: a, y :: b, h => by
    have hlen : a.length = b.length := Nat.succ.inj h
    have ha := ofBeBytes_lt a
    have hb := ofBeBytes_lt b
    rw [List.cons_lt_cons_iff, ofBeBytes_cons, ofBeBytes_cons, lt_iff_ofBeBytes hlen, ← hlen,
      UInt8.lt_iff_toNat_lt, ← UInt8.toNat_inj]
    rw [← hlen] at hb
    generalize 256 ^ a.length = place at ha hb
    rcases Nat.lt_trichotomy x.toNat y.toNat with hlt | heq | hgt
    · have hplace : (x.toNat + 1) * place ≤ y.toNat * place := Nat.mul_le_mul_right _ hlt
      rw [Nat.succ_mul] at hplace
      exact iff_of_true (.inl hlt) (by omega)
    · rw [heq]
      omega
    · have hplace : (y.toNat + 1) * place ≤ x.toNat * place := Nat.mul_le_mul_right _ hgt
      rw [Nat.succ_mul] at hplace
      exact iff_of_false (by omega) (by omega)

/-- Only zeros write zero. -/
theorem ofBeBytes_pos_iff (bytes : Bytes) :
    0 < ofBeBytes bytes ↔ bytes.any (· != 0) = true := by
  induction bytes with
  | nil => decide
  | cons byte bytes ih =>
    rw [ofBeBytes_cons, List.any_cons, Bool.or_eq_true, ← ih, bne_iff_ne, Ne, ← UInt8.toNat_inj]
    have hplace : 0 < 256 ^ bytes.length := Nat.pow_pos (by decide)
    rcases Nat.eq_zero_or_pos byte.toNat with hzero | hpos
    · rw [hzero, Nat.zero_mul, Nat.zero_add]
      exact (or_iff_right fun h => h rfl).symm
    · have hhigh := Nat.mul_pos hpos hplace
      exact iff_of_true (by omega) (.inl (show ¬ byte.toNat = 0 by omega))
