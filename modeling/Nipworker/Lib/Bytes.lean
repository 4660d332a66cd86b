/-
Byte strings, 32-bit little-endian numbers and length-prefixed frames.
-/
import Mathlib

/-- A sequence of bytes. -/
abbrev Bytes := List UInt8

namespace U32

/-- `(n as u32).to_le_bytes()`: the low 32 bits, least significant byte first. -/
def toLeBytes (n : ℕ) : Bytes :=
  [UInt8.ofNat n, UInt8.ofNat (n / 256), UInt8.ofNat (n / 65536), UInt8.ofNat (n / 16777216)]

/-- `u32::from_le_bytes` on the first four bytes; a reader checks first that
they are there. -/
def ofLeBytes : Bytes → ℕ
  | a :: b :: c :: d :: _ => a.toNat + 256 * b.toNat + 65536 * c.toNat + 16777216 * d.toNat
  | _ => 0

@[simp] theorem length_toLeBytes (n : ℕ) : (toLeBytes n).length = 4 := rfl

/-- A number below `2 ^ 32` reads back. -/
theorem ofLeBytes_toLeBytes {n : ℕ} (h : n < 2 ^ 32) (rest : Bytes) :
    ofLeBytes (toLeBytes n ++ rest) = n := by
  show (UInt8.ofNat n).toNat + 256 * (UInt8.ofNat (n / 256)).toNat
    + 65536 * (UInt8.ofNat (n / 65536)).toNat
    + 16777216 * (UInt8.ofNat (n / 16777216)).toNat = n
  simp only [UInt8.toNat_ofNat']
  omega

theorem ofLeBytes_lt (bytes : Bytes) : ofLeBytes bytes < 2 ^ 32 := by
  unfold ofLeBytes
  split
  · next a b c d _ =>
    have := a.toNat_lt
    have := b.toNat_lt
    have := c.toNat_lt
    have := d.toNat_lt
    omega
  · decide

theorem toLeBytes_ofLeBytes (a b c d : UInt8) (rest : Bytes) :
    toLeBytes (ofLeBytes (a :: b :: c :: d :: rest)) = [a, b, c, d] := by
  have ha := a.toNat_lt
  have hb := b.toNat_lt
  have hc := c.toNat_lt
  have hd := d.toNat_lt
  have hbyte : ∀ {n : ℕ} {x : UInt8}, n % 256 = x.toNat → UInt8.ofNat n = x := by
    intro n x h
    rw [← UInt8.toNat_inj, UInt8.toNat_ofNat', h]
  simp only [toLeBytes, ofLeBytes]
  rw [hbyte (x := a) (by omega), hbyte (x := b) (by omega), hbyte (x := c) (by omega),
    hbyte (x := d) (by omega)]

end U32

/-- A payload behind its 32-bit length. -/
def frame (payload : Bytes) : Bytes := U32.toLeBytes payload.length ++ payload

variable {bytes rest : Bytes} {payloads : List Bytes} (payload : Bytes)

theorem length_frame : (frame payload).length = 4 + payload.length := by
  rw [frame, List.length_append, U32.length_toLeBytes]

/-- Cut the first frame off a stream: `none` when the stream is too short for
the length or for the payload it announces. -/
def takeFrame (bytes : Bytes) : Option (Bytes × Bytes) :=
  if bytes.length < 4 then none
  else
    let len := U32.ofLeBytes bytes
    if bytes.length < 4 + len then none
    else some ((bytes.drop 4).take len, bytes.drop (4 + len))

/-- The first frame of a stream reads back, whatever follows it. -/
theorem takeFrame_frame {payload : Bytes} (h : payload.length < 2 ^ 32) (rest : Bytes) :
    takeFrame (frame payload ++ rest) = some (payload, rest) := by
  have hlen : (frame payload ++ rest).length = 4 + payload.length + rest.length := by
    rw [List.length_append, length_frame]
  have hnum : U32.ofLeBytes (frame payload ++ rest) = payload.length := by
    rw [frame, List.append_assoc, U32.ofLeBytes_toLeBytes h]
  have hdrop : (frame payload ++ rest).drop 4 = payload ++ rest := by
    rw [frame, List.append_assoc]
    exact List.drop_left' (U32.length_toLeBytes _)
  unfold takeFrame
  rw [if_neg (by omega), hnum]
  dsimp only
  rw [if_neg (by omega), hdrop, List.take_left' rfl, ← List.drop_drop, hdrop, List.drop_left' rfl]

theorem takeFrame_length {payload : Bytes} (h : takeFrame bytes = some (payload, rest)) :
    bytes.length = 4 + payload.length + rest.length := by
  unfold takeFrame at h
  split at h
  · cases h
  · dsimp only at h
    split at h
    · cases h
    · cases h
      simp only [List.length_take, List.length_drop]
      omega

theorem takeFrame_shorter {payload : Bytes} (h : takeFrame bytes = some (payload, rest)) :
    rest.length < bytes.length := by
  have := takeFrame_length h
  omega

theorem eq_frame_append {payload : Bytes} (h : takeFrame bytes = some (payload, rest)) :
    bytes = frame payload ++ rest ∧ payload.length < 2 ^ 32 := by
  unfold takeFrame at h
  split at h
  · cases h
  · next hshort =>
    dsimp only at h
    split at h
    · cases h
    · next hlen =>
      cases h
      have hlt := U32.ofLeBytes_lt bytes
      have hpay : ((bytes.drop 4).take (U32.ofLeBytes bytes)).length = U32.ofLeBytes bytes := by
        rw [List.length_take, List.length_drop]
        omega
      refine ⟨?_, by rw [hpay]; exact hlt⟩
      rcases bytes with _ | ⟨a, _ | ⟨b, _ | ⟨c, _ | ⟨d, rest⟩⟩⟩⟩
      · exact absurd (show ([] : Bytes).length < 4 by decide) hshort
      · exact absurd (show [a].length < 4 by simp) hshort
      · exact absurd (show [a, b].length < 4 by simp) hshort
      · exact absurd (show [a, b, c].length < 4 by simp) hshort
      · rw [frame, hpay, U32.toLeBytes_ofLeBytes, ← List.drop_drop]
        show a :: b :: c :: d :: rest = a :: b :: c :: d :: (rest.take _ ++ rest.drop _)
        rw [List.take_append_drop]

/-- A log: the frames of some payloads, one after the other. -/
def frameLog (payloads : List Bytes) : Bytes := payloads.flatMap frame

@[simp] theorem frameLog_nil : frameLog [] = [] := rfl

theorem frameLog_cons (rest : List Bytes) :
    frameLog (payload :: rest) = frame payload ++ frameLog rest := rfl

@[simp] theorem frameLog_singleton : frameLog [payload] = frame payload :=
  List.append_nil _

theorem frameLog_append (xs ys : List Bytes) : frameLog (xs ++ ys) = frameLog xs ++ frameLog ys :=
  List.flatMap_append

theorem length_frameLog_cons (rest : List Bytes) :
    (frameLog (payload :: rest)).length = 4 + payload.length + (frameLog rest).length := by
  rw [frameLog_cons, List.length_append, length_frame]

theorem frameLog_eq_nil_iff : frameLog payloads = [] ↔ payloads = [] := by
  cases payloads with
  | nil => exact iff_of_true rfl rfl
  | cons payload rest =>
    refine iff_of_false (fun hnil => ?_) nofun
    have hlen := length_frameLog_cons payload rest
    rw [hnil, List.length_nil] at hlen
    omega

theorem ofLeBytes_frameLog {payload : Bytes} (h : payload.length < 2 ^ 32) (rest : Bytes) :
    U32.ofLeBytes (frame payload ++ rest) = payload.length := by
  rw [frame, List.append_assoc, U32.ofLeBytes_toLeBytes h]

theorem take_drop_frame (rest : Bytes) :
    ((frame payload ++ rest).drop 4).take payload.length = payload := by
  rw [frame, List.append_assoc, List.drop_left' (U32.length_toLeBytes _), List.take_left' rfl]

/-- Where the `i`-th frame of a log begins. -/
def framePos (payloads : List Bytes) (i : ℕ) : ℕ := (frameLog (payloads.take i)).length

@[simp] theorem framePos_zero (payloads : List Bytes) : framePos payloads 0 = 0 := rfl

theorem framePos_length (payloads : List Bytes) :
    framePos payloads payloads.length = (frameLog payloads).length := by
  rw [framePos, List.take_length]

theorem framePos_append {xs : List Bytes} {i : ℕ} (h : i ≤ xs.length) (ys : List Bytes) :
    framePos (xs ++ ys) i = framePos xs i := by
  rw [framePos, framePos, List.take_append_of_le_length h]

theorem framePos_add (payloads : List Bytes) (k j : ℕ) :
    framePos payloads (k + j) = framePos payloads k + framePos (payloads.drop k) j := by
  rw [framePos, framePos, framePos, List.take_add, frameLog_append, List.length_append]

theorem framePos_cons_succ (rest : List Bytes) (i : ℕ) :
    framePos (payload :: rest) (i + 1) = 4 + payload.length + framePos rest i := by
  rw [framePos, List.take_succ_cons, length_frameLog_cons, framePos]

theorem framePos_lt {i j : ℕ} (hij : i < j) (hj : j ≤ payloads.length) :
    framePos payloads i < framePos payloads j := by
  obtain ⟨m, rfl⟩ : ∃ m, j = i + (m + 1) := ⟨j - i - 1, by omega⟩
  rcases hdrop : payloads.drop i with _ | ⟨payload, rest⟩
  · have := congrArg List.length hdrop
    simp only [List.length_drop, List.length_nil] at this
    omega
  · rw [framePos_add, hdrop, framePos_cons_succ]
    omega

theorem framePos_le {i j : ℕ} (hij : i ≤ j) (hj : j ≤ payloads.length) :
    framePos payloads i ≤ framePos payloads j := by
  rcases Nat.eq_or_lt_of_le hij with rfl | hlt
  · exact le_refl _
  · exact (framePos_lt hlt hj).le

theorem drop_frameLog (payloads : List Bytes) (i : ℕ) :
    (frameLog payloads).drop (framePos payloads i) = frameLog (payloads.drop i) := by
  have hsplit : frameLog payloads = frameLog (payloads.take i) ++ frameLog (payloads.drop i) := by
    rw [← frameLog_append, List.take_append_drop]
  rw [hsplit]
  exact List.drop_left' rfl

/-- The whole frames at the front of a stream. -/
def unframe (bytes : Bytes) : List Bytes :=
  match _h : takeFrame bytes with
  | none => []
  | some (payload, rest) => payload :: unframe rest
termination_by bytes.length
decreasing_by
  have := takeFrame_length _h
  omega

theorem unframe_of_takeFrame {payload : Bytes}
    (h : takeFrame bytes = some (payload, rest)) : unframe bytes = payload :: unframe rest := by
  rw [unframe]
  split
  · next h' =>
    rw [h] at h'
    cases h'
  · next h' =>
    rw [h] at h'
    cases h'
    rfl

theorem unframe_of_takeFrame_none (h : takeFrame bytes = none) : unframe bytes = [] := by
  rw [unframe]
  split
  · rfl
  · next h' =>
    rw [h] at h'
    cases h'

@[simp] theorem unframe_nil : unframe [] = [] := unframe_of_takeFrame_none rfl

theorem unframe_frameLog
    (h : ∀ payload ∈ payloads, payload.length < 2 ^ 32) : unframe (frameLog payloads) = payloads := by
  induction payloads with
  | nil => exact unframe_nil
  | cons payload rest ih =>
    rw [frameLog_cons, unframe_of_takeFrame (takeFrame_frame (h payload List.mem_cons_self) _),
      ih fun x hx => h x (List.mem_cons_of_mem _ hx)]

theorem frameLog_unframe (bytes : Bytes) :
    (∃ rest, bytes = frameLog (unframe bytes) ++ rest) ∧
      ∀ payload ∈ unframe bytes, payload.length < 2 ^ 32 := by
  induction hn : bytes.length using Nat.strong_induction_on generalizing bytes with
  | _ n ih =>
    rcases htake : takeFrame bytes with _ | ⟨payload, rest⟩
    · rw [unframe_of_takeFrame_none htake]
      exact ⟨⟨bytes, rfl⟩, fun payload hp => absurd hp List.not_mem_nil⟩
    · obtain ⟨heq, hlt⟩ := eq_frame_append htake
      have hlen := takeFrame_length htake
      obtain ⟨⟨tail, htail⟩, hall⟩ := ih rest.length (by omega) rest rfl
      rw [unframe_of_takeFrame htake]
      refine ⟨⟨tail, ?_⟩, ?_⟩
      · rw [frameLog_cons, List.append_assoc, ← htail]
        exact heq
      · intro x hx
        rcases List.mem_cons.mp hx with rfl | hx
        · exact hlt
        · exact hall x hx
