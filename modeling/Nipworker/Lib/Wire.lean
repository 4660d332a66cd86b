/-
Big-endian fields and fixed-size chunks.
-/
import Nipworker.Lib.Bytes

/-- The low `w` bytes of a number, most significant byte first. -/
def beBytes : ℕ → ℕ → Bytes
  | 0, _ => []
  | w + 1, n => beBytes w (n / 256) ++ [UInt8.ofNat n]

def ofBeBytes (bytes : Bytes) : ℕ := bytes.foldl (fun acc byte => acc * 256 + byte.toNat) 0

@[simp] theorem length_beBytes (w n : ℕ) : (beBytes w n).length = w := by
  induction w generalizing n with
  | zero => rfl
  | succ w ih => rw [beBytes, List.length_append, ih, List.length_singleton]

/-- A field of `w` bytes reads back what fits into it. -/
theorem ofBeBytes_beBytes (w n : ℕ) : ofBeBytes (beBytes w n) = n % 256 ^ w := by
  induction w generalizing n with
  | zero =>
    show 0 = n % 1
    rw [Nat.mod_one]
  | succ w ih =>
    have hlast : ofBeBytes (beBytes w (n / 256) ++ [UInt8.ofNat n])
        = ofBeBytes (beBytes w (n / 256)) * 256 + (UInt8.ofNat n).toNat := by
      rw [ofBeBytes, List.foldl_append]
      rfl
    have hsplit : n % 256 ^ (w + 1) = n % 256 + 256 * (n / 256 % 256 ^ w) := by
      rw [pow_succ', Nat.mod_mul]
    rw [beBytes, hlast, ih, UInt8.toNat_ofNat', hsplit]
    omega

theorem ofBeBytes_concat (bytes : Bytes) (byte : UInt8) :
    ofBeBytes (bytes ++ [byte]) = ofBeBytes bytes * 256 + byte.toNat := by
  rw [ofBeBytes, List.foldl_append]
  rfl

theorem ofBeBytes_lt (bytes : Bytes) : ofBeBytes bytes < 256 ^ bytes.length := by
  induction bytes using List.reverseRecOn with
  | nil => exact Nat.one_pos
  | append_singleton bytes byte ih =>
    have hbyte := byte.toNat_lt
    rw [ofBeBytes_concat, List.length_append, List.length_singleton, pow_succ]
    omega

/-- Bytes are the field of their number. -/
theorem beBytes_ofBeBytes (bytes : Bytes) : beBytes bytes.length (ofBeBytes bytes) = bytes := by
  induction bytes using List.reverseRecOn with
  | nil => rfl
  | append_singleton bytes byte ih =>
    have hbyte := byte.toNat_lt
    have hdiv : (ofBeBytes bytes * 256 + byte.toNat) / 256 = ofBeBytes bytes := by omega
    have hlast : UInt8.ofNat (ofBeBytes bytes * 256 + byte.toNat) = byte := by
      rw [← UInt8.toNat_inj, UInt8.toNat_ofNat']
      omega
    rw [ofBeBytes_concat, List.length_append, List.length_singleton, beBytes, hdiv, ih, hlast]

/-- The first field of a stream. -/
theorem take_beBytes (w n : ℕ) (rest : Bytes) : (beBytes w n ++ rest).take w = beBytes w n :=
  List.take_left' (length_beBytes w n)

/-- The stream behind its first field. -/
theorem drop_beBytes (w n : ℕ) (rest : Bytes) : (beBytes w n ++ rest).drop w = rest :=
  List.drop_left' (length_beBytes w n)

section Chunks

variable {α : Type*}

def divCeil (a b : ℕ) : ℕ := (a + b - 1) / b

/-- The `i`-th piece of `size` elements. -/
def chunk (size : ℕ) (xs : List α) (i : ℕ) : List α := (xs.drop (i * size)).take size

/-- Pieces of `size` elements, the last one with the rest. -/
def chunks (size : ℕ) (xs : List α) : List (List α) :=
  (List.range (divCeil xs.length size)).map (chunk size xs)

@[simp] theorem length_chunks (size : ℕ) (xs : List α) :
    (chunks size xs).length = divCeil xs.length size := by
  rw [chunks, List.length_map, List.length_range]

/-- How long a piece is. -/
theorem length_chunk (size : ℕ) (xs : List α) (i : ℕ) :
    (chunk size xs i).length = min size (xs.length - i * size) := by
  rw [chunk, List.length_take, List.length_drop]

variable {size : ℕ}

theorem length_le_divCeil_mul {n : ℕ} (h : 0 < size) : n ≤ divCeil n size * size := by
  have hdiv := Nat.div_add_mod (n + size - 1) size
  have hmod := Nat.mod_lt (n + size - 1) h
  have hcomm : divCeil n size * size = size * ((n + size - 1) / size) := Nat.mul_comm _ _
  omega

theorem divCeil_pos {n : ℕ} (hn : 0 < n) (h : 0 < size) : 0 < divCeil n size := by
  rcases Nat.eq_zero_or_pos (divCeil n size) with hzero | hpos
  · have hle := length_le_divCeil_mul (n := n) h
    rw [hzero] at hle
    omega
  · exact hpos

theorem flatten_chunk_range (size : ℕ) (xs : List α) (m : ℕ) :
    ((List.range m).map (chunk size xs)).flatten = xs.take (m * size) := by
  induction m with
  | zero => simp
  | succ m ih =>
    rw [List.range_succ, List.map_append, List.flatten_append, ih, Nat.succ_mul, List.take_add]
    simp [chunk]

/-- The pieces in order are the list. -/
theorem flatten_chunks (h : 0 < size) (xs : List α) : (chunks size xs).flatten = xs := by
  rw [chunks, flatten_chunk_range]
  exact List.take_of_length_le (length_le_divCeil_mul h)

theorem chunks_append (h : 0 < size) {piece : List α} (hpiece : piece.length = size)
    (rest : List α) : chunks size (piece ++ rest) = piece :: chunks size rest := by
  have hcount : divCeil (piece ++ rest).length size = divCeil rest.length size + 1 := by
    rw [divCeil, divCeil, List.length_append, hpiece, ← Nat.add_div_right _ h]
    congr 1
    omega
  have hshift : ∀ i, chunk size (piece ++ rest) (i + 1) = chunk size rest i := by
    intro i
    rw [chunk, chunk, Nat.succ_mul, Nat.add_comm, ← hpiece, List.drop_append,
      List.drop_eq_nil_of_le (Nat.le_add_right _ _), List.nil_append, Nat.add_sub_cancel_left]
  have hfirst : chunk size (piece ++ rest) 0 = piece := by
    rw [chunk, Nat.zero_mul, List.drop_zero, List.take_left' hpiece]
  rw [chunks, hcount, List.range_succ_eq_map, List.map_cons, List.map_map, hfirst, chunks]
  congr 1
  exact List.map_congr_left fun i _ => hshift i

/-- Pieces of full size are cut out again. -/
theorem chunks_flatten (h : 0 < size) {pieces : List (List α)}
    (hpieces : ∀ piece ∈ pieces, piece.length = size) : chunks size pieces.flatten = pieces := by
  induction pieces with
  | nil =>
    show (List.range ((0 + size - 1) / size)).map _ = []
    rw [Nat.div_eq_of_lt (by omega)]
    rfl
  | cons piece pieces ih =>
    rw [List.flatten_cons, chunks_append h (hpieces piece List.mem_cons_self),
      ih fun p hp => hpieces p (List.mem_cons_of_mem _ hp)]

end Chunks
