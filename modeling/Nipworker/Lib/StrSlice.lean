/-
Slices of text by byte positions.

A `&str` is cut at byte positions, and a cut inside a character is a panic.  Code that
searches the bytes of a text for ASCII never meets such a position, since no byte of a
longer sequence is ASCII.
-/
import Nipworker.Lib.Utf8

namespace Utf8

open List

def bytes (cs : List Char) : Bytes := cs.flatMap String.utf8EncodeChar

@[simp] theorem bytes_nil : bytes [] = [] := rfl

theorem bytes_cons (c : Char) (cs : List Char) :
    bytes (c :: cs) = String.utf8EncodeChar c ++ bytes cs := rfl

theorem bytes_append (cs ds : List Char) : bytes (cs ++ ds) = bytes cs ++ bytes ds :=
  flatMap_append

theorem encode_eq_bytes (s : String) : encode s = bytes s.toList := rfl

def byteOf (c : Char) : UInt8 := UInt8.ofNat c.toNat

variable {c : Char}

theorem toNat_byteOf (h : c.toNat < 128) : (byteOf c).toNat = c.toNat := by
  rw [byteOf, UInt8.toNat_ofNat']
  omega

theorem byteOf_inj {d : Char} (hc : c.toNat < 128) (hd : d.toNat < 128) :
    byteOf c = byteOf d ↔ c = d := by
  rw [← UInt8.toNat_inj, toNat_byteOf hc, toNat_byteOf hd, Char.toNat_inj]

/-- A character of one byte. -/
theorem encodeChar_ascii (h : c.toNat < 128) : String.utf8EncodeChar c = [byteOf c] := by
  unfold String.utf8EncodeChar
  exact if_pos (Nat.le_of_lt_succ h)

theorem encodeChar_two (h : 128 ≤ c.toNat) (h' : c.toNat < 2048) :
    String.utf8EncodeChar c =
      [UInt8.ofNat (c.toNat / 64 % 32 + 0xC0), UInt8.ofNat (c.toNat % 64 + 0x80)] := by
  unfold String.utf8EncodeChar
  exact (if_neg (show ¬ c.toNat ≤ 0x7F by omega)).trans
    (if_pos (show c.toNat ≤ 0x7FF by omega))

theorem encodeChar_three (h : 2048 ≤ c.toNat) (h' : c.toNat < 65536) :
    String.utf8EncodeChar c =
      [UInt8.ofNat (c.toNat / 4096 % 16 + 0xE0), UInt8.ofNat (c.toNat / 64 % 64 + 0x80),
        UInt8.ofNat (c.toNat % 64 + 0x80)] := by
  unfold String.utf8EncodeChar
  exact (if_neg (show ¬ c.toNat ≤ 0x7F by omega)).trans
    ((if_neg (show ¬ c.toNat ≤ 0x7FF by omega)).trans
      (if_pos (show c.toNat ≤ 0xFFFF by omega)))

theorem encodeChar_four (h : 65536 ≤ c.toNat) :
    String.utf8EncodeChar c =
      [UInt8.ofNat (c.toNat / 262144 % 8 + 0xF0), UInt8.ofNat (c.toNat / 4096 % 64 + 0x80),
        UInt8.ofNat (c.toNat / 64 % 64 + 0x80), UInt8.ofNat (c.toNat % 64 + 0x80)] := by
  unfold String.utf8EncodeChar
  exact (if_neg (show ¬ c.toNat ≤ 0x7F by omega)).trans
    ((if_neg (show ¬ c.toNat ≤ 0x7FF by omega)).trans
      (if_neg (show ¬ c.toNat ≤ 0xFFFF by omega)))

theorem isContinuation_ofNat (n : ℕ) : isContinuation (UInt8.ofNat (n % 64 + 0x80)) = true := by
  rw [isContinuation, decide_eq_true_eq, UInt8.le_iff_toNat_le, UInt8.le_iff_toNat_le,
    UInt8.toNat_ofNat']
  show 128 ≤ _ ∧ _ ≤ 191
  omega

/-- **The bytes of a character** beyond ASCII: a lead byte and continuation bytes. -/
theorem encodeChar_long (h : 128 ≤ c.toNat) :
    ∃ lead more, String.utf8EncodeChar c = lead :: more ∧ 0xC0 ≤ lead.toNat ∧
      ∀ b ∈ more, isContinuation b = true := by
  have hmax : c.toNat < 0x110000 := by
    rcases c.valid with hlow | hhigh
    · exact hlow.trans (by decide)
    · exact hhigh.2
  rcases Nat.lt_or_ge c.toNat 2048 with h2 | h2
  · refine ⟨_, _, encodeChar_two h h2, ?_, ?_⟩
    · rw [UInt8.toNat_ofNat']
      omega
    · intro b hb
      rw [List.mem_singleton.mp hb]
      exact isContinuation_ofNat c.toNat
  rcases Nat.lt_or_ge c.toNat 65536 with h3 | h3
  · refine ⟨_, _, encodeChar_three h2 h3, ?_, ?_⟩
    · rw [UInt8.toNat_ofNat']
      omega
    · simp only [mem_cons, not_mem_nil, or_false]
      rintro b (rfl | rfl)
      · exact isContinuation_ofNat (c.toNat / 64)
      · exact isContinuation_ofNat c.toNat
  · refine ⟨_, _, encodeChar_four h3, ?_, ?_⟩
    · rw [UInt8.toNat_ofNat']
      omega
    · simp only [mem_cons, not_mem_nil, or_false]
      rintro b (rfl | rfl | rfl)
      · exact isContinuation_ofNat (c.toNat / 4096)
      · exact isContinuation_ofNat (c.toNat / 64)
      · exact isContinuation_ofNat c.toNat

theorem toNat_of_isContinuation {b : UInt8} (h : isContinuation b = true) :
    128 ≤ b.toNat ∧ b.toNat < 192 := by
  rw [isContinuation, decide_eq_true_eq, UInt8.le_iff_toNat_le, UInt8.le_iff_toNat_le] at h
  have h1 : 128 ≤ b.toNat := h.1
  have h2 : b.toNat ≤ 191 := h.2
  omega

theorem encodeChar_head (c : Char) :
    ∃ lead more, String.utf8EncodeChar c = lead :: more ∧ isContinuation lead = false := by
  by_cases h : c.toNat < 128
  · refine ⟨_, _, encodeChar_ascii h, ?_⟩
    cases hb : isContinuation (byteOf c) with
    | false => rfl
    | true =>
      have := toNat_of_isContinuation hb
      rw [toNat_byteOf h] at this
      omega
  · obtain ⟨lead, more, heq, hlead, -⟩ := encodeChar_long (Nat.le_of_not_lt h)
    refine ⟨lead, more, heq, ?_⟩
    cases hb : isContinuation lead with
    | false => rfl
    | true =>
      have := toNat_of_isContinuation hb
      omega

theorem byteOf_mem_encodeChar {d : Char} (hd : d.toNat < 128)
    (h : byteOf d ∈ String.utf8EncodeChar c) : c = d := by
  by_cases hc : c.toNat < 128
  · rw [encodeChar_ascii hc, mem_singleton, byteOf_inj hd hc] at h
    exact h.symm
  · obtain ⟨lead, more, heq, hlead, hmore⟩ := encodeChar_long (Nat.le_of_not_lt hc)
    rw [heq] at h
    have hbyte := toNat_byteOf hd
    rcases List.mem_cons.mp h with rfl | hm
    · omega
    · have := toNat_of_isContinuation (hmore _ hm)
      omega

theorem byteOf_not_mem_tail {d : Char} (hd : d.toNat < 128) :
    byteOf d ∉ (String.utf8EncodeChar c).tail := by
  intro h
  by_cases hc : c.toNat < 128
  · rw [encodeChar_ascii hc] at h
    contradiction
  · obtain ⟨lead, more, heq, -, hmore⟩ := encodeChar_long (Nat.le_of_not_lt hc)
    rw [heq] at h
    have := toNat_of_isContinuation (hmore _ h)
    have := toNat_byteOf hd
    omega

end Utf8

namespace StrSlice

open Utf8 List

def isCharBoundary (text : Bytes) (pos : ℕ) : Bool :=
  pos = 0 ∨ pos = text.length ∨ (text[pos]?).any fun b => !isContinuation b

/-- `&text[start..stop]`, or `none` for a panic: the range lies in the text and its ends
lie between characters. -/
def slice (text : Bytes) (start stop : ℕ) : Option Bytes :=
  if start ≤ stop ∧ stop ≤ text.length ∧ isCharBoundary text start ∧ isCharBoundary text stop then
    some ((text.take stop).drop start)
  else none

theorem isCharBoundary_bytes (before rest : List Char) :
    isCharBoundary (bytes (before ++ rest)) (bytes before).length = true := by
  rw [isCharBoundary, decide_eq_true_eq, bytes_append]
  cases rest with
  | nil => exact .inr (.inl (by simp))
  | cons c rest =>
    obtain ⟨lead, more, heq, hlead⟩ := encodeChar_head c
    refine .inr (.inr ?_)
    rw [bytes_cons, heq, List.getElem?_append_right le_rfl, Nat.sub_self]
    simp [hlead]

/-- **A part of a text is cut out.** -/
theorem slice_parts (before part rest : List Char) :
    slice (bytes (before ++ (part ++ rest))) (bytes before).length
      ((bytes before).length + (bytes part).length) = some (bytes part) := by
  have hlen : (bytes before).length + (bytes part).length = (bytes (before ++ part)).length := by
    rw [bytes_append, length_append]
  have hstop := isCharBoundary_bytes (before ++ part) rest
  rw [append_assoc, ← hlen] at hstop
  rw [slice, if_pos]
  · rw [← append_assoc, bytes_append, hlen, take_left' rfl, bytes_append,
      drop_left' rfl]
  · refine ⟨Nat.le_add_right _ _, ?_, isCharBoundary_bytes before _, hstop⟩
    rw [bytes_append, bytes_append, length_append, length_append]
    omega

/-- The position lies between characters, and `rest` is what follows it. -/
def At (chars : List Char) (pos : ℕ) (rest : List Char) : Prop :=
  ∃ before, chars = before ++ rest ∧ pos = (bytes before).length

variable {chars rest : List Char} {pos : ℕ}

theorem At.length (h : At chars pos rest) : pos + (bytes rest).length = (bytes chars).length := by
  obtain ⟨before, rfl, rfl⟩ := h
  rw [bytes_append, length_append]

theorem At.le (h : At chars pos rest) : pos ≤ (bytes chars).length :=
  h.length ▸ Nat.le_add_right _ _

theorem At.drop (h : At chars pos rest) : (bytes chars).drop pos = bytes rest := by
  obtain ⟨before, rfl, rfl⟩ := h
  rw [bytes_append, drop_left' rfl]

theorem at_zero (cs : List Char) : At cs 0 cs := ⟨[], rfl, rfl⟩

theorem At.advance (part : List Char) (h : At chars pos (part ++ rest)) :
    At chars (pos + (bytes part).length) rest := by
  obtain ⟨before, rfl, rfl⟩ := h
  exact ⟨before ++ part, by rw [append_assoc], by rw [bytes_append, length_append]⟩

theorem At.next {c : Char} (hc : c.toNat < 128) (h : At chars pos (c :: rest)) :
    At chars (pos + 1) rest := by
  have := h.advance [c]
  rwa [show (bytes [c]).length = 1 by rw [bytes_cons, encodeChar_ascii hc]; rfl] at this

theorem At.getElem? (h : At chars pos rest) : (bytes chars)[pos]? = (bytes rest)[0]? := by
  rw [← h.drop, List.getElem?_drop, Nat.add_zero]

theorem At.getElem?_nil (h : At chars pos []) : (bytes chars)[pos]? = none := by
  rw [h.getElem?, bytes_nil]
  rfl

theorem At.getElem?_cons {c : Char} (h : At chars pos (c :: rest)) :
    ∃ b, (bytes chars)[pos]? = some b ∧ ∀ d : Char, d.toNat < 128 → (b = byteOf d ↔ c = d) := by
  obtain ⟨lead, more, heq, -⟩ := encodeChar_head c
  refine ⟨lead, ?_, fun d hd => ?_⟩
  · rw [h.getElem?, bytes_cons, heq]
    rfl
  · constructor
    · rintro rfl
      exact byteOf_mem_encodeChar hd (heq ▸ mem_cons_self)
    · rintro rfl
      rw [encodeChar_ascii hd] at heq
      exact (List.cons.inj heq).1.symm

/-- **A slice between two positions.** -/
theorem slice_at (part : List Char) {start stop : ℕ} (hstart : At chars start (part ++ rest))
    (hstop : At chars stop rest) : slice (bytes chars) start stop = some (bytes part) := by
  have hend := (hstart.advance part).length
  have hlen := hstop.length
  have hstop' : stop = start + (bytes part).length := by omega
  obtain ⟨before, rfl, rfl⟩ := hstart
  rw [hstop']
  exact slice_parts before part rest

/-! ### Tests for ASCII -/

/-- `p` asks of a byte what `q` asks of a character, and only ASCII passes. -/
structure AsciiTest (p : UInt8 → Bool) (q : Char → Bool) : Prop where
  byteOf : ∀ c, c.toNat < 128 → p (byteOf c) = q c
  char : ∀ c, q c = true → c.toNat < 128
  byte : ∀ b, p b = true → b.toNat < 128

theorem AsciiTest.eq {d : Char} (hd : d.toNat < 128) :
    AsciiTest (fun b => b = Utf8.byteOf d) (fun c => c = d) := by
  refine ⟨fun c hc => ?_, fun c h => ?_, fun b h => ?_⟩
  · simp only [byteOf_inj hc hd]
  · rw [of_decide_eq_true h]
    exact hd
  · rw [of_decide_eq_true h, toNat_byteOf hd]
    exact hd

theorem AsciiTest.or {p p' : UInt8 → Bool} {q q' : Char → Bool} (h : AsciiTest p q)
    (h' : AsciiTest p' q') : AsciiTest (fun b => p b || p' b) (fun c => q c || q' c) := by
  refine ⟨fun c hc => ?_, fun c hc => ?_, fun b hb => ?_⟩
  · rw [h.byteOf c hc, h'.byteOf c hc]
  · rcases Bool.or_eq_true_iff.mp hc with hq | hq
    · exact h.char c hq
    · exact h'.char c hq
  · rcases Bool.or_eq_true_iff.mp hb with hp | hp
    · exact h.byte b hp
    · exact h'.byte b hp

variable {p : UInt8 → Bool} {q : Char → Bool}

theorem AsciiTest.fails (h : AsciiTest p q) {c : Char} (hc : q c = false) :
    ∀ b ∈ String.utf8EncodeChar c, p b = false := by
  intro b hb
  by_cases hascii : c.toNat < 128
  · rw [encodeChar_ascii hascii, mem_singleton] at hb
    rw [hb, h.byteOf c hascii, hc]
  · cases hp : p b with
    | false => rfl
    | true =>
      -- the byte is ASCII, so that it is the whole character
      have hbyte : Utf8.byteOf (Char.ofNat b.toNat) = b := by
        have hb128 := h.byte b hp
        rw [Utf8.byteOf, Char.toNat_ofNat, if_pos (.inl (by omega)), UInt8.ofNat_toNat]
      rw [← hbyte] at hb
      have hd : (Char.ofNat b.toNat).toNat < 128 := by
        have hb128 := h.byte b hp
        rw [Char.toNat_ofNat, if_pos (.inl (by omega))]
        exact hb128
      rw [byteOf_mem_encodeChar hd hb] at hascii
      exact absurd hd hascii

theorem AsciiTest.passes (h : AsciiTest p q) {c : Char} (hc : q c = true) :
    String.utf8EncodeChar c = [Utf8.byteOf c] ∧ p (Utf8.byteOf c) = true := by
  have hascii := h.char c hc
  exact ⟨encodeChar_ascii hascii, by rw [h.byteOf c hascii, hc]⟩

theorem AsciiTest.takeWhile (h : AsciiTest p q) (cs : List Char) :
    (bytes cs).takeWhile p = bytes (cs.takeWhile q) := by
  induction cs with
  | nil => rfl
  | cons c cs ih =>
    cases hc : q c with
    | true =>
      obtain ⟨hbytes, hp⟩ := h.passes hc
      rw [takeWhile_cons_of_pos hc, bytes_cons, bytes_cons, hbytes, singleton_append,
        singleton_append, takeWhile_cons_of_pos hp, ih]
    | false =>
      obtain ⟨lead, more, heq, -⟩ := encodeChar_head c
      have hlead : p lead = false := h.fails hc lead (by rw [heq]; exact mem_cons_self)
      rw [takeWhile_cons_of_neg (by simp [hc]), bytes_cons, heq, cons_append,
        takeWhile_cons_of_neg (by simp [hlead]), bytes_nil]

theorem AsciiTest.takeWhile_not (h : AsciiTest p q) (cs : List Char) :
    (bytes cs).takeWhile (fun b => !p b) = bytes (cs.takeWhile fun c => !q c) := by
  induction cs with
  | nil => rfl
  | cons c cs ih =>
    cases hc : q c with
    | true =>
      obtain ⟨hbytes, hp⟩ := h.passes hc
      rw [takeWhile_cons_of_neg (by simp [hc]), bytes_cons, hbytes, singleton_append,
        takeWhile_cons_of_neg (by simp [hp]), bytes_nil]
    | false =>
      have hall : ∀ b ∈ String.utf8EncodeChar c, (!p b) = true := by
        intro b hb
        rw [h.fails hc b hb, Bool.not_false]
      rw [takeWhile_cons_of_pos (by simp [hc]), bytes_cons, bytes_cons,
        takeWhile_append_of_pos hall, ih]

theorem At.skip (h : AsciiTest p q) {cs : List Char} (hat : At chars pos cs) :
    At chars (pos + (((bytes chars).drop pos).takeWhile p).length) (cs.dropWhile q) := by
  rw [hat.drop, h.takeWhile]
  refine At.advance (cs.takeWhile q) ?_
  rwa [takeWhile_append_dropWhile]

theorem At.skip_not (h : AsciiTest p q) {cs : List Char} (hat : At chars pos cs) :
    At chars (pos + (((bytes chars).drop pos).takeWhile fun b => !p b).length)
      (cs.dropWhile fun c => !q c) := by
  rw [hat.drop, h.takeWhile_not]
  refine At.advance (cs.takeWhile fun c => !q c) ?_
  rwa [takeWhile_append_dropWhile]

end StrSlice
