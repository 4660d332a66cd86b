/-
Events as flatbuffers (`types/nostr.rs`).
-/
import Nipworker.Pipeline.SeenIds

namespace Nipworker

/-- `created_at as i32`, and `as u64` when it is read back. -/
def narrowed (createdAt : ℕ) : ℕ := (((createdAt : ℤ).bmod (2 ^ 32)) % 2 ^ 64).toNat

theorem bmod_two_pow_32 (x : ℤ) : x.bmod (2 ^ 32) =
    if x % 4294967296 < 2147483648 then x % 4294967296 else x % 4294967296 - 4294967296 := by
  have hpow : (2 : ℕ) ^ 32 = 4294967296 := by norm_num
  rw [hpow, Int.bmod_def]
  rfl

end Nipworker
