/-
The text an event id is the hash of (`crypto/nostr_crypto.rs`).
-/
import Nipworker.Lib.Split
import Nipworker.Types.ProofJson

namespace Nipworker

open JsonText BaseJsonParser List

/-! ### The text of NIP-01 -/

namespace Nip01

def escape (c : Char) : List Char :=
  if c = '\n' then ['\\', 'n']
  else if c = '"' then ['\\', '"']
  else if c = '\\' then ['\\', '\\']
  else if c = '\r' then ['\\', 'r']
  else if c = '\t' then ['\\', 't']
  else if c = '\x08' then ['\\', 'b']
  else if c = '\x0c' then ['\\', 'f']
  else [c]

def string (s : String) : List Char := '"' :: (s.toList.flatMap escape ++ ['"'])

def array (items : List (List Char)) : List Char := '[' :: ([','].intercalate items ++ [']'])

/-- What NIP-01 asks for: an array of six values, without whitespace, with seven escapes in
its strings and every other character as it is. -/
def text (pubkey : Bytes32) (createdAt : ℕ) (kind : UInt16) (tags : List (List String))
    (content : String) : List Char :=
  array [['0'], string pubkey.toHex, Nat.toDigits 10 createdAt, Nat.toDigits 10 kind.toNat,
    array (tags.map fun tag => array (tag.map string)), string content]

end Nip01

/-! ### Different events -/

theorem digits_append_inj {m n : ℕ} {rest rest' : List Char}
    (h : Nat.toDigits 10 m ++ ',' :: rest = Nat.toDigits 10 n ++ ',' :: rest') :
    m = n ∧ rest = rest' := by
  have hcomma : ∀ n, ',' ∉ Nat.toDigits 10 n := fun n hmem =>
    absurd (Nat.isDigit_of_mem_toDigits (by decide) (by decide) hmem) (by decide)
  have hm : Text.splitOnce ',' (Nat.toDigits 10 m ++ ',' :: rest) = some (Nat.toDigits 10 m, rest) :=
    Text.splitOnce_eq_some.mpr ⟨rfl, hcomma m⟩
  have hn : Text.splitOnce ',' (Nat.toDigits 10 n ++ ',' :: rest') =
      some (Nat.toDigits 10 n, rest') := Text.splitOnce_eq_some.mpr ⟨rfl, hcomma n⟩
  rw [h] at hm
  obtain ⟨hdigits, hrest⟩ := Prod.mk.inj (Option.some.inj (hn.symm.trans hm))
  refine ⟨?_, hrest.symm⟩
  have hparse := Text.parseDecimal_toDigits m
  rw [← hdigits, Text.parseDecimal_toDigits] at hparse
  exact (Option.some.inj hparse).symm

theorem string_append_inj {s t : String} {rest rest' : List Char}
    (h : quoted (escapeString s) ++ rest = quoted (escapeString t) ++ rest') :
    s = t ∧ rest = rest' := by
  have hread : ∀ (s : String) (rest : List Char),
      stringUnescaped 0 (quoted (escapeString s) ++ rest) = .ok (s, rest) := by
    intro s rest
    rw [← literalText_written, stringUnescaped_literal 0 (closed_written s), tagRead_written]
  have hs := hread s rest
  rw [h, hread] at hs
  exact (Prod.mk.inj (Except.ok.inj hs)).imp Eq.symm Eq.symm

theorem tags_append_inj {tags tags' : List (List String)} {rest rest' : List Char}
    (h : NostrTags.toJson tags ++ rest = NostrTags.toJson tags' ++ rest') :
    tags = tags' ∧ rest = rest' := by
  have hread : ∀ (tags : List (List String)) (rest : List Char),
      SignedEvent.readTags ("\"tags\"".toList ++ (NostrTags.toJson tags ++ rest)) = .ok tags :=
    fun tags rest => by
      have hgap : '[' ∉ ([] : List Char) := not_mem_nil
      exact NostrTags.readTags_toJson hgap (Written.afterFirst_self _ _ (by decide))
  have htags := hread tags rest
  rw [h, hread] at htags
  obtain rfl := Except.ok.inj htags
  exact ⟨rfl, append_cancel_left h⟩

/-- **Different events have different texts.** -/
theorem eventIdText_inj {pubkey pubkey' : Bytes32} {createdAt createdAt' : ℕ} {kind kind' : UInt16}
    {tags tags' : List (List String)} {content content' : String}
    (h : eventIdText pubkey createdAt kind tags content =
      eventIdText pubkey' createdAt' kind' tags' content') :
    pubkey = pubkey' ∧ createdAt = createdAt' ∧ kind = kind' ∧ tags = tags' ∧
      content = content' := by
  have hhex : ∀ key : Bytes32, escapeString key.toHex = key.toHex.toList := fun key =>
    (hexText_encode key.bytes).escapeString
  have hkey : quoted pubkey.toHex.toList ++ _ = quoted pubkey'.toHex.toList ++ _ :=
    append_cancel_left (show ['[', '0', ','] ++ _ = ['[', '0', ','] ++ _ from h)
  rw [← hhex, ← hhex] at hkey
  obtain ⟨htext, hcreatedAt⟩ := string_append_inj hkey
  obtain ⟨rfl, hnumber⟩ := digits_append_inj (List.cons.inj hcreatedAt).2
  obtain ⟨hkind, hlist⟩ := digits_append_inj hnumber
  obtain ⟨rfl, hlast⟩ := tags_append_inj hlist
  obtain ⟨rfl, -⟩ := string_append_inj (List.cons.inj hlast).2
  refine ⟨?_, rfl, UInt16.toNat_inj.mp hkind, rfl, rfl⟩
  have hread : Hex.decode pubkey.toHex = some pubkey.bytes := Hex.decode_encode pubkey.bytes
  have hread' : Hex.decode pubkey'.toHex = some pubkey'.bytes := Hex.decode_encode pubkey'.bytes
  rw [htext, hread'] at hread
  obtain ⟨bytes, hsize⟩ := pubkey
  obtain ⟨bytes', hsize'⟩ := pubkey'
  obtain rfl : bytes' = bytes := Option.some.inj hread
  rfl

/-! ### The text of the code -/

/-- No character of a string is a backspace or a form feed. -/
def KeptAsIs (s : String) : Prop := '\x08' ∉ s.toList ∧ '\x0c' ∉ s.toList

namespace Nip01

variable {c : Char}

theorem escapedChar_eq (h : c ≠ '\x08' ∧ c ≠ '\x0c') : escapedChar c = escape c := by
  rw [escapedChar, escape]
  by_cases h1 : c = '\n'
  · rw [h1]
    rfl
  by_cases h2 : c = '"'
  · rw [h2]
    rfl
  simp only [h1, h2, h.1, h.2, if_false]

theorem string_eq {s : String} (h : KeptAsIs s) : quoted (escapeString s) = string s := by
  have hflat : s.toList.flatMap escapedChar = s.toList.flatMap escape :=
    flatMap_congr fun c hc =>
      escapedChar_eq ⟨fun heq => h.1 (heq ▸ hc), fun heq => h.2 (heq ▸ hc)⟩
  rw [quoted, escapeString, hflat]
  rfl

/-- A character that is written as it is, and that no escape has. -/
def verbatim (c : Char) : Prop := c = '\x08' ∨ c = '\x0c'

theorem verbatim_mem_escaped (h : verbatim c) {s : String} (hc : c ∈ s.toList) :
    c ∈ quoted (escapeString s) := by
  have hkept : escapedChar c = [c] := by
    obtain rfl | rfl := h <;> rfl
  refine mem_cons_of_mem _ (mem_append_left _ (List.mem_flatMap.mpr ⟨c, hc, ?_⟩))
  rw [hkept]
  exact mem_singleton_self c

theorem verbatim_not_mem_string (h : verbatim c) (s : String) : c ∉ string s := by
  have hescape : ∀ d, c ∉ escape d := by
    intro d hmem
    rw [escape] at hmem
    have hc : c ≠ '\\' ∧ c ≠ 'n' ∧ c ≠ '"' ∧ c ≠ 'r' ∧ c ≠ 't' ∧ c ≠ 'b' ∧ c ≠ 'f' := by
      obtain rfl | rfl := h <;> decide
    split_ifs at hmem with _ _ _ _ _ hback hfeed
    all_goals simp only [mem_cons, not_mem_nil, or_false, hc] at hmem
    · obtain rfl | rfl := h
      · exact hback hmem.symm
      · exact hfeed hmem.symm
  intro hmem
  rw [string, mem_cons, mem_append, mem_flatMap, mem_singleton] at hmem
  have hquote : c ≠ '"' := by
    obtain rfl | rfl := h <;> decide
  obtain hmem | ⟨d, -, hmem⟩ | hmem := hmem
  · exact hquote hmem
  · exact hescape d hmem
  · exact hquote hmem

theorem mem_array {items : List (List Char)} {item : List Char} (h : item ∈ items)
    (hc : c ∈ item) : c ∈ array items :=
  mem_cons_of_mem _ (mem_append_left _ (Text.mem_intercalate_of_mem _ h hc))

theorem verbatim_not_mem_array (h : verbatim c) {items : List (List Char)}
    (hitems : ∀ item ∈ items, c ∉ item) : c ∉ array items := by
  have hc : c ≠ '[' ∧ c ≠ ',' ∧ c ≠ ']' := by
    obtain rfl | rfl := h <;> decide
  intro hmem
  rw [array, mem_cons, mem_append, mem_singleton] at hmem
  obtain hmem | hmem | hmem := hmem
  · exact hc.1 hmem
  · obtain ⟨item, hitem, hmem⟩ | hmem := Text.mem_intercalate hmem
    · exact hitems item hitem hmem
    · exact hc.2.1 (List.mem_singleton.mp hmem)
  · exact hc.2.2 hmem

theorem verbatim_not_mem_digits (h : verbatim c) (n : ℕ) : c ∉ Nat.toDigits 10 n := by
  intro hmem
  have hdigit := Nat.isDigit_of_mem_toDigits (by decide) (by decide) hmem
  obtain rfl | rfl := h
  all_goals exact absurd hdigit (by decide)

theorem verbatim_not_mem_text (h : verbatim c) (pubkey : Bytes32) (createdAt : ℕ)
    (kind : UInt16) (tags : List (List String)) (content : String) :
    c ∉ text pubkey createdAt kind tags content := by
  have htag : ∀ tag : List String, c ∉ array (tag.map string) := by
    refine fun tag => verbatim_not_mem_array h fun item hitem => ?_
    obtain ⟨s, -, rfl⟩ := List.mem_map.mp hitem
    exact verbatim_not_mem_string h s
  have hzero : c ∉ ['0'] := by
    obtain rfl | rfl := h <;> decide
  refine verbatim_not_mem_array h ?_
  simp only [forall_mem_cons]
  refine ⟨hzero, verbatim_not_mem_string h _, verbatim_not_mem_digits h _,
    verbatim_not_mem_digits h _, verbatim_not_mem_array h fun item hitem => ?_,
    verbatim_not_mem_string h _, fun item hitem => absurd hitem not_mem_nil⟩
  obtain ⟨tag, -, rfl⟩ := List.mem_map.mp hitem
  exact htag tag

end Nip01

theorem toJson_eq (tags : List (List String)) : NostrTags.toJson tags =
    Nip01.array (tags.map fun tag => Nip01.array (tag.map fun part => quoted (escapeString part))) :=
  rfl

theorem eventIdText_eq (pubkey : Bytes32) (createdAt : ℕ) (kind : UInt16)
    (tags : List (List String)) (content : String) : eventIdText pubkey createdAt kind tags content =
      Nip01.array [['0'], quoted pubkey.toHex.toList, Nat.toDigits 10 createdAt,
        Nat.toDigits 10 kind.toNat, NostrTags.toJson tags, quoted (escapeString content)] := by
  simp [eventIdText, Nip01.array]

/-- No string of the event is changed by the writer. -/
def AllKept (tags : List (List String)) (content : String) : Prop :=
  (∀ tag ∈ tags, ∀ s ∈ tag, KeptAsIs s) ∧ KeptAsIs content

/-- The text is the one of NIP-01 where no string has a backspace or a form feed in it,
which `escape_string` leaves as they are. -/
theorem eventIdText_eq_iff (pubkey : Bytes32) (createdAt : ℕ) (kind : UInt16)
    (tags : List (List String)) (content : String) :
    eventIdText pubkey createdAt kind tags content = Nip01.text pubkey createdAt kind tags content ↔
      AllKept tags content := by
  constructor
  · intro heq
    -- a character that is kept as it is would be in the text of NIP-01
    have hno : ∀ c, Nip01.verbatim c → c ∉ eventIdText pubkey createdAt kind tags content :=
      fun c hc => heq ▸ Nip01.verbatim_not_mem_text hc _ _ _ _ _
    have hcontent : ∀ c, Nip01.verbatim c → c ∉ content.toList := by
      intro c hc hmem
      refine hno c hc ?_
      rw [eventIdText_eq]
      exact Nip01.mem_array (by simp) (Nip01.verbatim_mem_escaped hc hmem)
    have htags : ∀ c, Nip01.verbatim c → ∀ tag ∈ tags, ∀ s ∈ tag, c ∉ s.toList := by
      intro c hc tag htag s hs hmem
      refine hno c hc ?_
      have hitem : c ∈ NostrTags.toJson tags :=
        Nip01.mem_array (mem_map_of_mem htag)
          (Nip01.mem_array (mem_map_of_mem hs) (Nip01.verbatim_mem_escaped hc hmem))
      rw [eventIdText_eq]
      exact Nip01.mem_array (by simp) hitem
    exact ⟨fun tag htag s hs => ⟨htags _ (.inl rfl) tag htag s hs, htags _ (.inr rfl) tag htag s hs⟩,
      hcontent _ (.inl rfl), hcontent _ (.inr rfl)⟩
  · rintro ⟨htags, hcontent⟩
    have hhex : HexText pubkey.toHex := hexText_encode pubkey.bytes
    have hkept : KeptAsIs pubkey.toHex :=
      ⟨fun hmem => hhex.ne hmem (by decide) rfl, fun hmem => hhex.ne hmem (by decide) rfl⟩
    have hkey : quoted pubkey.toHex.toList = Nip01.string pubkey.toHex := by
      rw [← Nip01.string_eq hkept, hhex.escapeString]
    have hlist : (tags.map fun tag => Nip01.array (tag.map fun part => quoted (escapeString part))) =
        tags.map fun tag => Nip01.array (tag.map Nip01.string) :=
      map_congr_left fun tag htag => congrArg Nip01.array
        (map_congr_left fun s hs => Nip01.string_eq (htags tag htag s hs))
    rw [eventIdText_eq, hkey, toJson_eq, hlist, Nip01.string_eq hcontent]
    rfl

/-- **What is hashed tells events apart, and is the text of NIP-01 exactly when no string has a
backspace or a form feed.** -/
theorem eventIdText_canonical_iff (pubkey : Bytes32) (createdAt : ℕ) (kind : UInt16)
    (tags : List (List String)) (content : String) :
    (∀ pubkey' createdAt' kind' tags' content',
      eventIdText pubkey createdAt kind tags content =
        eventIdText pubkey' createdAt' kind' tags' content' →
      pubkey = pubkey' ∧ createdAt = createdAt' ∧ kind = kind' ∧ tags = tags' ∧
        content = content') ∧
    (eventIdText pubkey createdAt kind tags content = Nip01.text pubkey createdAt kind tags content ↔
      AllKept tags content) :=
  ⟨fun _ _ _ _ _ h => eventIdText_inj h, eventIdText_eq_iff pubkey createdAt kind tags content⟩

/-- A content that is a backspace. -/
theorem backspace_unescaped : eventIdText ⟨List.replicate 32 0, rfl⟩ 0 1 [] "\x08" ≠
    Nip01.text ⟨List.replicate 32 0, rfl⟩ 0 1 [] "\x08" := by
  intro heq
  have hmem : '\x08' ∈ eventIdText ⟨List.replicate 32 0, rfl⟩ 0 1 [] "\x08" := by
    rw [eventIdText_eq]
    have hquoted : '\x08' ∈ quoted (escapeString "\x08") := by decide
    exact Nip01.mem_array (by simp) hquoted
  exact Nip01.verbatim_not_mem_text (.inl rfl) _ _ _ _ _ (heq ▸ hmem)

end Nipworker
