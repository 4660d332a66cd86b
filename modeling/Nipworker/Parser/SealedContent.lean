/-
What the readers of a content make of the texts they do not know (`utils/mod.rs`,
`parser/nip51.rs`).

The parsers tell plaintext from ciphertext by reading it: what is not read as JSON
is decrypted.  So a ciphertext must never be read.
-/
import Nipworker.Crypto.PrivateKeyCalls
import Nipworker.Parser.EncryptedKinds

namespace Nipworker

open List

/-- The texts of base64, which is what a NIP-44 call returns. -/
def Sealed (text : String) : Prop :=
  text.toList ≠ [] ∧ ∀ c ∈ text.toList, isBase64Char c = true

namespace BaseJsonParser

theorem needsUnescape_eq_false {cs : List Char} (h1 : '\\' ∉ cs) (h2 : '{' ∉ cs) :
    needsUnescape cs = false := by
  match cs with
  | [] => rfl
  | c :: rest =>
    have hc1 : c ≠ '\\' := fun h => h1 (h ▸ mem_cons_self)
    have hc2 : c ≠ '{' := fun h => h2 (h ▸ mem_cons_self)
    rw [needsUnescape.eq_3]
    · rintro d rest' heq
      exact hc1 (List.cons.inj heq).1
    · rintro rest' heq
      exact hc2 (List.cons.inj heq).1

theorem unescapeIfNeeded_eq {cs : List Char} (h1 : '\\' ∉ cs) (h2 : '{' ∉ cs) :
    unescapeIfNeeded cs = cs := by
  have hno : needsUnescape (Text.trim cs) = false :=
    needsUnescape_eq_false (fun h => h1 (Text.mem_of_mem_trim h)) fun h => h2 (Text.mem_of_mem_trim h)
  rw [unescapeIfNeeded]
  simp only [hno, Bool.false_eq_true, if_false]

end BaseJsonParser

open BaseJsonParser

namespace Sealed

variable {text : String}

theorem not_mem (h : Sealed text) {c : Char} (hc : isBase64Char c = false) : c ∉ text.toList := by
  intro hmem
  rw [h.2 c hmem] at hc
  exact absurd hc (by decide)

theorem unescapeIfNeeded (h : Sealed text) :
    BaseJsonParser.unescapeIfNeeded text.toList = text.toList :=
  unescapeIfNeeded_eq (h.not_mem (by decide)) (h.not_mem (by decide))

theorem not_whitespace {c : Char} (hc : isBase64Char c = true) :
    isAsciiWhitespace c = false ∧ Text.isWhitespace c = false := by
  constructor
  · by_contra hws
    rw [Bool.not_eq_false, isAsciiWhitespace, decide_eq_true_iff] at hws
    obtain rfl | rfl | rfl | rfl | rfl := hws
    all_goals exact absurd hc (by decide)
  · -- the code points of base64 lie between those of the two kinds of whitespace
    have hrange : 43 ≤ c.toNat ∧ c.toNat ≤ 122 := by
      simp only [isBase64Char, Char.isAlphanum, Char.isAlpha, Char.isUpper, Char.isLower,
        Char.isDigit, Bool.or_eq_true, Bool.and_eq_true, decide_eq_true_eq, ge_iff_le,
        UInt32.le_iff_toNat_le] at hc
      have htoNat : c.val.toNat = c.toNat := rfl
      obtain ((h | h) | h) | rfl | rfl | rfl := hc
      all_goals simp_all <;> omega
    rw [Text.isWhitespace, decide_eq_false_iff_not]
    omega

theorem skipWs_eq (h : Sealed text) : skipWs text.toList = text.toList := by
  match hcs : text.toList with
  | [] => rfl
  | c :: rest =>
    have hc : isBase64Char c = true := h.2 c (hcs ▸ mem_cons_self)
    rw [skipWs, dropWhile_cons_of_neg]
    rw [(not_whitespace hc).1]
    exact Bool.false_ne_true

theorem trim_ne_nil (h : Sealed text) : Text.trim text.toList ≠ [] := by
  rw [Ne, Text.trim_eq_nil_iff]
  intro hall
  obtain ⟨c, hc⟩ := exists_mem_of_ne_nil _ h.1
  have hno := (not_whitespace (h.2 c hc)).2
  rw [hall c hc] at hno
  exact absurd hno (by decide)

end Sealed

/-! ### Tags and tokens -/

theorem expect_of_not_mem {size : ℕ} {c : Char} {cs : List Char} (h : c ∉ cs) :
    ∃ e, expect size c cs = .error (.error e) := by
  match cs with
  | [] => exact ⟨_, rfl⟩
  | d :: rest =>
    have hne : d ≠ c := fun heq => h (heq ▸ mem_cons_self)
    rw [expect, if_neg hne]
    exact ⟨_, rfl⟩

theorem expectByte_of_not_mem {size : ℕ} {c : Char} {cs : List Char} (h : c ∉ cs) :
    ∃ position : ℕ, expectByte size c cs =
      .error (formatError ("Unexpected byte at position " ++ toString position)) := by
  match cs with
  | [] => exact ⟨_, rfl⟩
  | d :: rest =>
    have hne : d ≠ c := fun heq => h (heq ▸ mem_cons_self)
    rw [expectByte, if_neg hne]
    exact ⟨_, rfl⟩

theorem unexpectedByte_ne (position : ℕ) :
    formatError ("Unexpected byte at position " ++ toString position) ≠
      formatError "index out of bounds" := by
  intro h
  have hlist := congrArg String.toList (TypesError.other.inj h)
  rw [String.toList_append, String.toList_append, String.toList_append] at hlist
  exact absurd (append_cancel_left hlist) (by simp)

variable {text : String}

/-- Sealed text is not read as tags. -/
theorem NostrTags.fromText_sealed (h : Sealed text) :
    ∃ e, NostrTags.fromText text = .error (.error e) := by
  obtain ⟨position, hbyte⟩ : ∃ position : ℕ, expectByte (byteLength text.toList) '[' text.toList =
      .error (formatError ("Unexpected byte at position " ++ toString position)) :=
    expectByte_of_not_mem (h.not_mem (by decide))
  have hread : NostrTags.fromJson text.toList =
      .error (formatError ("Unexpected byte at position " ++ toString position)) := by
    rw [NostrTags.fromJson, h.skipWs_eq, hbyte]
    rfl
  rw [NostrTags.fromText, h.unescapeIfNeeded, hread]
  dsimp only
  rw [if_neg (unexpectedByte_ne position)]
  exact ⟨_, rfl⟩

/-- Sealed text is not read as a token. -/
theorem TokenContent.fromJson_sealed (h : Sealed text) :
    ∃ e, TokenContent.fromJson text = .error (.error e) := by
  obtain ⟨e, he⟩ : ∃ e, expect (byteLength text.toList) '{' text.toList = .error (.error e) :=
    expect_of_not_mem (h.not_mem (by decide))
  refine ⟨e, ?_⟩
  rw [TokenContent.fromJson, h.unescapeIfNeeded, h.skipWs_eq, BaseJsonParser.object, he]
  rfl

theorem TokenContent.fromJson_empty : ∃ e, TokenContent.fromJson "" = .error (.error e) := ⟨_, rfl⟩

/-- Tags are read back from the text written of them. -/
theorem NostrTags.fromText_toJson (tags : List (List String)) :
    NostrTags.fromText (String.ofList (NostrTags.toJson tags)) = .ok tags := by
  have htrim : needsUnescape (Text.trim (NostrTags.toJson tags)) = false := by
    rw [NostrTags.toJson, Text.trim_of_ends (by decide) (by decide)]
    rfl
  have hread : NostrTags.fromJson (NostrTags.toJson tags) = .ok tags := by
    rw [← text_tagsDoc, NostrTags.fromJson_tags (isTags_tagsDoc tags), map_map]
    simp [Function.comp_def, readStrings_written]
  rw [NostrTags.fromText, String.toList_ofList, BaseJsonParser.unescapeIfNeeded]
  simp only [htrim, Bool.false_eq_true, if_false, hread]

/-! ### Private tags of a list -/

theorem mem_of_mem_skipWs {c : Char} {cs : List Char} (h : c ∈ skipWs cs) : c ∈ cs :=
  (dropWhile_sublist _).subset h

/-- What is read as private tags has a bracket. -/
theorem tagArrays_bracket {tags : List (List String)}
    (h : tagArrays text = .ok tags) : '[' ∈ text.toList := by
  by_contra hno
  obtain ⟨e, he⟩ : ∃ e, expect (byteLength text.toList) '[' (skipWs text.toList) =
    .error (.error e) := expect_of_not_mem fun hc => hno (mem_of_mem_skipWs hc)
  rw [tagArrays, he] at h
  exact nomatch h

/-- A blank text is not read as private tags. -/
theorem tagArrays_blank (h : Text.trim text.toList = []) :
    ∃ e, tagArrays text = .error (.error e) := by
  have hno : '[' ∉ skipWs text.toList := fun hc =>
    absurd (Text.trim_eq_nil_iff.mp h _ (mem_of_mem_skipWs hc)) (by decide)
  obtain ⟨e, he⟩ : ∃ e, expect (byteLength text.toList) '[' (skipWs text.toList) =
    .error (.error e) := expect_of_not_mem hno
  refine ⟨e, ?_⟩
  rw [tagArrays, he]
  rfl

end Nipworker
