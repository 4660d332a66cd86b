/-
What is written of strings and tags (`types/nostr.rs`).

`to_json` escapes five characters and puts no whitespace anywhere.  The text it
makes is a row of string literals with parts without quotes between them, so it is
known where a search for a quoted word ends.
-/
import Nipworker.Types.TagReads

namespace Nipworker

open JsonText List

/-! ### Strings -/

/-- What `escape_string` writes for a character. -/
def escapedChar (c : Char) : List Char :=
  if c = '\\' then ['\\', '\\']
  else if c = '"' then ['\\', '"']
  else if c = '\n' then ['\\', 'n']
  else if c = '\r' then ['\\', 'r']
  else if c = '\t' then ['\\', 't']
  else [c]

/-- `escape_string`; templates, events, tags and the computation of the id have a
copy each. -/
def escapeString (s : String) : List Char := s.toList.flatMap escapedChar

def writtenPiece (c : Char) : Piece :=
  if c = '\\' then .short .backslash
  else if c = '"' then .short .quote
  else if c = '\n' then .short .newline
  else if c = '\r' then .short .carriageReturn
  else if c = '\t' then .short .tab
  else .plain c

def written (s : String) : List Piece := s.toList.map writtenPiece

theorem writtenPiece_cases {P : Char → Piece → Prop} (hback : P '\\' (.short .backslash))
    (hquote : P '"' (.short .quote)) (hnewline : P '\n' (.short .newline))
    (hreturn : P '\r' (.short .carriageReturn)) (htab : P '\t' (.short .tab))
    (hplain : ∀ c, c ≠ '"' → c ≠ '\\' → escapedChar c = [c] → P c (.plain c)) (c : Char) :
    P c (writtenPiece c) := by
  by_cases h1 : c = '\\'
  · rwa [h1]
  by_cases h2 : c = '"'
  · rwa [h2]
  by_cases h3 : c = '\n'
  · rwa [h3]
  by_cases h4 : c = '\r'
  · rwa [h4]
  by_cases h5 : c = '\t'
  · rwa [h5]
  have hself : escapedChar c = [c] := by
    rw [escapedChar, if_neg h1, if_neg h2, if_neg h3, if_neg h4, if_neg h5]
  rw [writtenPiece, if_neg h1, if_neg h2, if_neg h3, if_neg h4, if_neg h5]
  exact hplain c h2 h1 hself

variable {word : String} (c : Char) (s : String)

theorem text_writtenPiece : (writtenPiece c).text = escapedChar c :=
  writtenPiece_cases (P := fun c p => p.text = escapedChar c) rfl rfl rfl rfl rfl
    (fun _ _ _ h => h.symm) c

theorem char_writtenPiece : (writtenPiece c).char = c :=
  writtenPiece_cases (P := fun c p => p.char = c) rfl rfl rfl rfl rfl (fun _ _ _ _ => rfl) c

theorem closed_writtenPiece : (writtenPiece c).Closed :=
  writtenPiece_cases (P := fun _ p => p.Closed) trivial trivial trivial trivial trivial
    (fun _ h1 h2 _ => ⟨h1, h2⟩) c

theorem knownInTag_writtenPiece : BaseJsonParser.KnownInTag (writtenPiece c) :=
  writtenPiece_cases (P := fun _ p => BaseJsonParser.KnownInTag p) trivial trivial trivial trivial
    trivial (fun _ _ _ _ => trivial) c

theorem knownInContent_writtenPiece : SignedEvent.KnownInContent (writtenPiece c) :=
  writtenPiece_cases (P := fun _ p => SignedEvent.KnownInContent p) ⟨nofun, nofun⟩
    ⟨nofun, nofun⟩ ⟨nofun, nofun⟩ ⟨nofun, nofun⟩ ⟨nofun, nofun⟩ (fun _ _ _ _ => trivial) c

theorem literalText_written : literalText (written s) = escapeString s := by
  rw [literalText, written, flatMap_map, escapeString]
  simp only [text_writtenPiece]

theorem literalValue_written : literalValue (written s) = s.toList := by
  rw [literalValue, written, map_map]
  simp [Function.comp_def, char_writtenPiece]

theorem closed_written : ∀ p ∈ written s, p.Closed := by
  intro p hp
  obtain ⟨c, -, rfl⟩ := List.mem_map.mp hp
  exact closed_writtenPiece c

theorem tagRead_written : String.ofList ((written s).flatMap BaseJsonParser.tagRead) = s := by
  have hknown : ∀ p ∈ written s, BaseJsonParser.KnownInTag p := by
    intro p hp
    obtain ⟨c, -, rfl⟩ := List.mem_map.mp hp
    exact knownInTag_writtenPiece c
  rw [(BaseJsonParser.tagRead_iff _).mpr hknown, literalValue_written, String.ofList_toList]

theorem contentRead_written : String.ofList ((written s).flatMap SignedEvent.contentRead) = s := by
  have hknown : ∀ p ∈ written s, SignedEvent.KnownInContent p := by
    intro p hp
    obtain ⟨c, -, rfl⟩ := List.mem_map.mp hp
    exact knownInContent_writtenPiece c
  rw [(SignedEvent.contentRead_iff (closed_written s)).mpr hknown, literalValue_written,
    String.ofList_toList]

/-! ### Strings that end in a word -/

/-- The string is the word, or ends in a quote and the word. -/
def EndsIn (word : String) (s : String) : Prop := ('"' :: word.toList) <:+ ('"' :: s.toList)

instance (word s : String) : Decidable (EndsIn word s) := inferInstanceAs (Decidable (_ <:+ _))

theorem endsIn_self (word : String) : EndsIn word word := suffix_refl _

theorem escapeString_of_plain {s : String} (h : ∀ c ∈ s.toList, escapedChar c = [c]) :
    escapeString s = s.toList := by
  rw [escapeString, (flatMap_eq_map_iff fun c hc => by simp [h c hc]).mpr h]
  exact map_id _

theorem escapedChar_of_isWordChar {c : Char} (h : isWordChar c = true) : escapedChar c = [c] := by
  unfold escapedChar
  split_ifs with h1 h2 h3 h4 h5
  · exact absurd h (by rw [h1]; decide)
  · exact absurd h (by rw [h2]; decide)
  · exact absurd h (by rw [h3]; decide)
  · exact absurd h (by rw [h4]; decide)
  · exact absurd h (by rw [h5]; decide)
  · rfl

theorem word_eq_escape_iff (hword : IsWord word.toList) (cs : List Char) :
    word.toList = cs.flatMap escapedChar ↔ word.toList = cs := by
  have hne : ∀ c ∈ cs, escapedChar c ≠ [] := by
    intro c _
    rw [← text_writtenPiece]
    exact Piece.text_ne_nil _
  have hself : cs.flatMap escapedChar = cs.map (fun c => c) ↔ ∀ c ∈ cs, escapedChar c = [c] :=
    flatMap_eq_map_iff hne
  rw [map_id'] at hself
  constructor
  · intro h
    -- an escape would put a backslash into the word
    have hplain : ∀ c ∈ cs, escapedChar c = [c] := by
      intro c hc
      by_contra hesc
      have hp : (writtenPiece c).isPlain = false := by
        rw [← Bool.not_eq_true, ← Piece.text_eq_char_iff, text_writtenPiece, char_writtenPiece]
        exact hesc
      obtain ⟨rest, hrest⟩ := Piece.text_of_not_isPlain hp
      have hmem : '\\' ∈ word.toList := by
        rw [h, mem_flatMap]
        exact ⟨c, hc, by rw [← text_writtenPiece, hrest]; exact mem_cons_self⟩
      exact (hword.ne hmem).2 rfl
    rw [h, hself.mpr hplain]
  · rintro rfl
    exact (hself.mpr fun c hc => escapedChar_of_isWordChar (hword.2 c hc)).symm

/-- Escaping keeps the ends that such a search looks for. -/
theorem spells_written_iff (hword : IsWord word.toList) (s : String) :
    Spells word.toList (written s) ↔ EndsIn word s := by
  rw [Spells, EndsIn, literalText_written, escapeString]
  generalize s.toList = cs
  have hinner : ('"' :: word.toList) <:+ cs.flatMap escapedChar ↔ ('"' :: word.toList) <:+ cs := by
    induction cs with
    | nil => simp
    | cons c cs ih =>
      rw [flatMap_cons, suffix_cons_iff, ← ih]
      by_cases hc : c = '"'
      · subst hc
        have hquote : escapedChar '"' ++ cs.flatMap escapedChar =
            '\\' :: '"' :: cs.flatMap escapedChar := rfl
        rw [hquote, suffix_cons_iff, suffix_cons_iff, List.cons.injEq, List.cons.injEq,
          List.cons.injEq, word_eq_escape_iff hword]
        simp
      · have hno : '"' ∉ escapedChar c := by
          intro hmem
          rw [← text_writtenPiece] at hmem
          have hp := quote_of_mem (closed_writtenPiece c) hmem
          rw [← char_writtenPiece c, hp] at hc
          exact hc rfl
        rw [suffix_append_iff hno, or_iff_right]
        exact fun h => hc (List.cons.inj h).1.symm
  rw [suffix_cons_iff, suffix_cons_iff, hinner, List.cons.injEq, List.cons.injEq,
    word_eq_escape_iff hword]

/-! ### Tags -/

namespace NostrTags

/-- One tag of `NostrTags::to_json`. -/
def tagJson (tag : List String) : List Char :=
  '[' :: ([','].intercalate (tag.map fun part => quoted (escapeString part)) ++ [']'])

/-- `NostrTags::to_json`, which is also `format_tags_json`. -/
def toJson (tags : List (List String)) : List Char :=
  '[' :: ([','].intercalate (tags.map tagJson) ++ [']'])

def tagDoc (tag : List String) : Doc := .arr [] (compactItems (tag.map fun part => .str (written part)))

def tagsDoc (tags : List (List String)) : Doc := .arr [] (compactItems (tags.map tagDoc))

theorem text_tagDoc (tag : List String) : (tagDoc tag).text = tagJson tag := by
  rw [tagDoc, Doc.text, text_compactItems, map_map, tagJson]
  simp only [Function.comp_def, Doc.text, literalText_written, quoted, nil_append]

variable (tags : List (List String))

theorem text_tagsDoc : (tagsDoc tags).text = toJson tags := by
  rw [tagsDoc, Doc.text, text_compactItems, map_map, toJson]
  simp only [Function.comp_def, text_tagDoc, nil_append]

theorem isTags_tagsDoc : IsTags (tagsDoc tags) (tags.map fun tag => tag.map written) := by
  have htag : ∀ tag : List String, IsTag (tagDoc tag) (tag.map written) := fun tag =>
    ⟨[], _, rfl, blank_nil, listed_compactItems (fun part => ⟨rfl, closed_written part⟩) tag⟩
  exact ⟨[], _, rfl, blank_nil, listed_compactItems htag tags⟩

theorem readStrings_written (tag : List String) : readStrings (tag.map written) = tag := by
  rw [readStrings, map_map]
  simp [Function.comp_def, tagRead_written]

theorem readTags_toJson {json gap following : List Char} {tags : List (List String)}
    (hgap : '[' ∉ gap) (hkey : Text.afterFirst "\"tags\"".toList json =
      some (gap ++ (toJson tags ++ following))) : SignedEvent.readTags json = .ok tags := by
  rw [← text_tagsDoc] at hkey
  rw [SignedEvent.readTags_eq (isTags_tagsDoc tags) hgap hkey, map_map]
  simp [Function.comp_def, readStrings_written]

def Stop (c : Char) : Prop := c = ',' ∨ c = ']'

theorem Stop.isWordChar {c : Char} (h : Stop c) : isWordChar c = false := by
  obtain rfl | rfl := h
  all_goals decide

theorem tokenized_parts (tag : List String) {rest : List Char} {lits : List (List Piece)}
    (h : Tokenized Stop (']' :: rest) lits) :
    Tokenized Stop ((compactItems (tag.map fun part => .str (written part))).text ++ ']' :: rest)
      (tag.map written ++ lits) := by
  induction tag with
  | nil => exact h
  | cons part tag ih =>
    cases tag with
    | nil =>
      have htext : (compactItems ([part].map fun part => .str (written part))).text ++ ']' :: rest =
          [] ++ '"' :: (literalText (written part) ++ '"' :: ']' :: rest) := by
        simp [compactItems, Items.text, Items.comma, Doc.text]
      rw [htext]
      exact .cons (by simp) (closed_written part) (.inr rfl) ih
    | cons next tag =>
      have htext : (compactItems ((part :: next :: tag).map fun part => .str (written part))).text ++
          ']' :: rest = [] ++ '"' :: (literalText (written part) ++ '"' :: ',' ::
            ((compactItems ((next :: tag).map fun part => .str (written part))).text ++
              ']' :: rest)) := by
        simp [compactItems, Items.text, Items.comma, Doc.text]
      have hcomma : '"' ∉ [','] := by simp
      rw [htext]
      exact .cons (by simp) (closed_written part) (.inl rfl) (ih.prepend hcomma)

theorem tokenized_items {rest : List Char} {lits : List (List Piece)}
    (h : Tokenized Stop (']' :: rest) lits) :
    Tokenized Stop ((compactItems (tags.map tagDoc)).text ++ ']' :: rest)
      (tags.flatten.map written ++ lits) := by
  induction tags with
  | nil => exact h
  | cons tag tags ih =>
    have hopen : '"' ∉ ['['] := by simp
    have hcomma : '"' ∉ ']' :: (compactItems (tags.map tagDoc)).comma := by
      cases tags with
      | nil => simp [compactItems, Items.comma]
      | cons => simp [compactItems, Items.comma]
    have htext : (compactItems ((tag :: tags).map tagDoc)).text ++ ']' :: rest =
        ['['] ++ ((compactItems (tag.map fun part => .str (written part))).text ++
          ']' :: ((compactItems (tags.map tagDoc)).comma ++
            ((compactItems (tags.map tagDoc)).text ++ ']' :: rest))) := by
      simp [compactItems, Items.text, Doc.text, tagDoc]
    rw [htext, flatten_cons, map_append, append_assoc]
    exact (tokenized_parts tag (ih.prepend hcomma)).prepend hopen

/-- **The text of the tags** is made of their strings. -/
theorem tokenized_toJson : Tokenized Stop (toJson tags) (tags.flatten.map written) := by
  have hclose : Tokenized Stop [']'] [] := .gap (by simp)
  have hopen : '"' ∉ ['['] := by simp
  have htext : toJson tags = ['['] ++ ((compactItems (tags.map tagDoc)).text ++ [']']) := by
    rw [← text_tagsDoc, tagsDoc, Doc.text]
    rfl
  have hitems := (tokenized_items tags hclose).prepend hopen
  rw [append_nil] at hitems
  rw [htext]
  exact hitems

end NostrTags

/-! ### Members -/

/-- The string behind the first one that ends in the word. -/
def following (word : String) : List String → Option String
  | [] => none
  | s :: rest => if EndsIn word s then rest.head? else following word rest

theorem following_eq_some {x : String} {strings : List String}
    (h : following word strings = some x) : ∃ before s after,
      strings = before ++ s :: x :: after ∧ (∀ t ∈ before, ¬ EndsIn word t) ∧ EndsIn word s := by
  induction strings with
  | nil => exact nomatch h
  | cons s rest ih =>
    rw [following] at h
    by_cases hs : EndsIn word s
    · rw [if_pos hs] at h
      obtain ⟨after, rfl⟩ := List.head?_eq_some_iff.mp h
      exact ⟨[], s, after, rfl, by simp, hs⟩
    · rw [if_neg hs] at h
      obtain ⟨before, t, after, rfl, hbefore, ht⟩ := ih h
      exact ⟨s :: before, t, after, rfl, List.forall_mem_cons.mpr ⟨hs, hbefore⟩, ht⟩

theorem first_endsIn {strings : List String} (h : ∃ s ∈ strings, EndsIn word s) :
    ∃ before s after, strings = before ++ s :: after ∧ (∀ t ∈ before, ¬ EndsIn word t) ∧
      EndsIn word s := by
  obtain ⟨s, hs, hends⟩ := h
  have hfind : (strings.find? fun t => decide (EndsIn word t)).isSome := by
    rw [List.find?_isSome]
    exact ⟨s, hs, decide_eq_true hends⟩
  obtain ⟨t, ht⟩ := Option.isSome_iff_exists.mp hfind
  obtain ⟨hends, before, after, hsplit, hbefore⟩ := List.find?_eq_some_iff_append.mp ht
  exact ⟨before, t, after, hsplit, fun r hr => by simpa using hbefore r hr, of_decide_eq_true hends⟩

theorem following_append {before : List String}
    (h : ∀ s ∈ before, ¬ EndsIn word s) (rest : List String) :
    following word (before ++ rest) = following word rest := by
  induction before with
  | nil => rfl
  | cons s before ih =>
    rw [cons_append, following, if_neg (h s mem_cons_self)]
    exact ih fun t ht => h t (mem_cons_of_mem _ ht)

theorem following_isSome (word : String) (before : List String) (x : String) (after : List String) :
    ∃ y, following word (before ++ word :: x :: after) = some y := by
  induction before with
  | nil =>
    rw [nil_append, following, if_pos (endsIn_self word)]
    exact ⟨x, rfl⟩
  | cons s before ih =>
    rw [cons_append, following]
    by_cases hs : EndsIn word s
    · rw [if_pos hs]
      cases before with
      | nil => exact ⟨word, rfl⟩
      | cons t before => exact ⟨t, rfl⟩
    · rw [if_neg hs]
      exact ih

/-- A text that is made of strings as they are written, and of parts without
quotes. -/
def Written (text : List Char) (strings : List String) : Prop :=
  Tokenized (fun c => isWordChar c = false) text (strings.map written)

def member (name : String) (text : List Char) : List Char := quoted name.toList ++ ':' :: text

namespace Written

variable {text : List Char} {strings : List String} {word : String}

theorem brace : Written ['{'] [] := .gap (by simp)

theorem tags (tags : List (List String)) : Written (NostrTags.toJson tags) tags.flatten :=
  (NostrTags.tokenized_toJson tags).mono fun _ hc => hc.isWordChar

theorem append {more : List Char} {others : List String} (h : Written text strings)
    (hmore : Written more others) : Written (text ++ more) (strings ++ others) := by
  rw [Written, map_append]
  exact Tokenized.append h hmore

theorem string {s : String} {c : Char} (hc : isWordChar c = false) (h : Written (c :: text) strings) :
    Written (quoted (escapeString s) ++ c :: text) (s :: strings) := by
  have htext : quoted (escapeString s) ++ c :: text =
      [] ++ '"' :: (literalText (written s) ++ '"' :: c :: text) := by
    simp [quoted, literalText_written]
  rw [htext]
  exact .cons (by simp) (closed_written s) hc h

theorem key {name : String} (hname : IsWord name.toList) (h : Written text strings) :
    Written (member name text) (name :: strings) := by
  have hplain : escapeString name = name.toList :=
    escapeString_of_plain fun c hc => escapedChar_of_isWordChar (hname.2 c hc)
  have hcolon : '"' ∉ [':'] := by simp
  rw [member, ← hplain]
  exact string (by decide) (Tokenized.prepend hcolon h)

theorem quote_not_mem_toDigits (n : ℕ) : '"' ∉ Nat.toDigits 10 n := fun h =>
  absurd (Nat.isDigit_of_mem_toDigits (by decide) (by decide) h) (by decide)

theorem number (n : ℕ) (h : Written text strings) : Written (Nat.toDigits 10 n ++ text) strings :=
  Tokenized.prepend (quote_not_mem_toDigits n) h

theorem stringMember (h : Written text strings) {name : String} (hname : IsWord name.toList)
    (s : String) :
    Written (text ++ (member name (quoted (escapeString s)) ++ [','])) (strings ++ [name, s]) := by
  have hcomma : Written [','] [] := .gap (by simp)
  have hcat : member name (quoted (escapeString s)) ++ [','] =
      member name (quoted (escapeString s) ++ [',']) := by simp [member]
  rw [hcat]
  exact h.append (key hname (string (by decide) hcomma))

theorem numberMember (h : Written text strings) {name : String} (hname : IsWord name.toList)
    (n : ℕ) : Written (text ++ (member name (Nat.toDigits 10 n) ++ [','])) (strings ++ [name]) := by
  have hcomma : Written [','] [] := .gap (by simp)
  have hcat : member name (Nat.toDigits 10 n) ++ [','] = member name (Nat.toDigits 10 n ++ [',']) := by
    simp [member]
  rw [hcat]
  exact h.append (key hname (number n hcomma))

theorem pass (hword : IsWord word.toList) (h : Written text strings)
    (hno : ∀ s ∈ strings, ¬ EndsIn word s) (rest : List Char) :
    Text.afterFirst (quoted word.toList) (text ++ rest) =
      Text.afterFirst (quoted word.toList) rest := by
  refine Tokenized.afterFirst_pass hword (fun _ hc => hc) h (fun lit hlit => ?_) rest
  obtain ⟨s, hs, rfl⟩ := List.mem_map.mp hlit
  rw [spells_written_iff hword]
  exact hno s hs

theorem afterFirst_self (pat rest : List Char) (hpat : pat ≠ []) :
    Text.afterFirst pat (pat ++ rest) = some rest := by
  obtain ⟨c, cs, rfl⟩ := exists_cons_of_ne_nil hpat
  have hprefix : (c :: cs).isPrefixOf (c :: (cs ++ rest)) = true := by
    rw [List.isPrefixOf_iff_prefix]
    exact ⟨rest, rfl⟩
  rw [cons_append, Text.afterFirst, if_pos hprefix]
  simp

theorem afterFirst_member (hword : IsWord word.toList) (h : Written text strings)
    (hno : ∀ s ∈ strings, ¬ EndsIn word s) (value rest : List Char) :
    Text.afterFirst (quoted word.toList) (text ++ (member word value ++ rest)) =
      some (':' :: (value ++ rest)) := by
  have hcat : member word value ++ rest = quoted word.toList ++ (':' :: (value ++ rest)) := by
    simp [member]
  rw [h.pass hword hno, hcat, afterFirst_self _ _ (by simp [quoted])]

theorem afterFirst_string (hword : IsWord word.toList) (s : String) {c : Char}
    (hc : isWordChar c = false) (rest : List Char) :
    Text.afterFirst (quoted word.toList) (quoted (escapeString s) ++ c :: rest) =
      if EndsIn word s then some (c :: rest)
      else Text.afterFirst (quoted word.toList) (c :: rest) := by
  have htext : quoted (escapeString s) ++ c :: rest =
      '"' :: (literalText (written s) ++ '"' :: c :: rest) := by
    simp [quoted, literalText_written]
  obtain ⟨hfound, hpass⟩ := afterFirst_literal hword (closed_written s) (EndsWord.cons hc rest)
  rw [spells_written_iff hword] at hfound hpass
  rw [htext]
  by_cases hs : EndsIn word s
  · rw [if_pos hs, hfound hs]
  · rw [if_neg hs, hpass hs]

/-- The string that stands behind the place found. -/
theorem afterFirst_following (hword : IsWord word.toList) (h : Written text strings) {x : String}
    (hx : following word strings = some x) (rest : List Char) :
    ∃ gap more, '"' ∉ gap ∧ Text.afterFirst (quoted word.toList) (text ++ rest) =
      some (gap ++ '"' :: (literalText (written x) ++ '"' :: more)) := by
  obtain ⟨before, s, after, rfl, hbefore, hs⟩ := following_eq_some hx
  have hno : ∀ lit ∈ before.map written, ¬ Spells word.toList lit := by
    intro lit hlit
    obtain ⟨t, ht, rfl⟩ := List.mem_map.mp hlit
    rw [spells_written_iff hword]
    exact hbefore t ht
  have hlits : (before ++ s :: x :: after).map written =
      before.map written ++ written s :: (x :: after).map written := by simp
  obtain ⟨c, more, -, htok, hfound⟩ := Tokenized.afterFirst_found hword (fun _ hc => hc) h hlits hno
    ((spells_written_iff hword s).mpr hs) rest
  obtain ⟨gap, tail, hgap, -, htail⟩ := Tokenized.next_cons htok rest
  exact ⟨gap, tail, hgap, by rw [hfound, htail]⟩

end Written

/-! ### Hexadecimal digits -/

/-- A text of hexadecimal digits. -/
def HexText (s : String) : Prop := ∀ c ∈ s.toList, (Hex.digitValue c).isSome = true

theorem hexText_encode (bytes : Bytes) : HexText (Hex.encode bytes) := by
  intro c hc
  have hdecode := Hex.decode_encode bytes
  rw [Hex.decode] at hdecode
  obtain ⟨n, hn⟩ := Hex.digitValue_of_mem hdecode c hc
  rw [hn]
  rfl

theorem HexText.ne {s : String} (h : HexText s) {c : Char} (hc : c ∈ s.toList) {d : Char}
    (hd : Hex.digitValue d = none) : c ≠ d := by
  rintro rfl
  have := h c hc
  rw [hd] at this
  exact absurd this Bool.false_ne_true

theorem HexText.escapeString {s : String} (h : HexText s) : escapeString s = s.toList := by
  refine escapeString_of_plain fun c hc => ?_
  rw [escapedChar, if_neg (h.ne hc (by decide)), if_neg (h.ne hc (by decide)),
    if_neg (h.ne hc (by decide)), if_neg (h.ne hc (by decide)), if_neg (h.ne hc (by decide))]

theorem HexText.not_endsIn {s : String} (h : HexText s)
    (hword : (word.toList.any fun c => (Hex.digitValue c).isNone) = true) : ¬ EndsIn word s := by
  obtain ⟨c, hc, hnone⟩ := List.any_eq_true.mp hword
  have hno : Hex.digitValue c = none := Option.isNone_iff_eq_none.mp hnone
  rw [EndsIn, suffix_cons_iff, not_or, List.cons.injEq]
  constructor
  · rintro ⟨-, heq⟩
    exact h.ne (heq ▸ hc) hno rfl
  · intro hsuffix
    exact h.ne (hsuffix.subset mem_cons_self) (by decide) rfl

/-! ### Numbers -/

namespace SignedEvent

theorem numberAfter_digits {n bound : ℕ} (hn : n < bound) {c : Char} (hc : c.isDigit = false)
    (rest : List Char) (invalid : String) :
    numberAfter (':' :: (Nat.toDigits 10 n ++ c :: rest)) bound invalid = .ok n := by
  have hdigits : ∀ d ∈ Nat.toDigits 10 n, d.isDigit = true := fun d hd =>
    Nat.isDigit_of_mem_toDigits (by decide) (by decide) hd
  have hdrop : (':' :: (Nat.toDigits 10 n ++ c :: rest)).dropWhile isKeySeparator =
      Nat.toDigits 10 n ++ c :: rest := by
    obtain ⟨d, ds, hds⟩ := exists_cons_of_ne_nil
      (List.length_pos_iff.mp (Nat.length_toDigits_pos (b := 10) (n := n)))
    have hd : isKeySeparator d = false :=
      isKeySeparator_of_isDigit (hdigits d (by rw [hds]; exact mem_cons_self))
    rw [dropWhile_cons_of_pos (by decide), hds, cons_append,
      dropWhile_cons_of_neg (by rw [hd]; decide)]
  have htake : (Nat.toDigits 10 n ++ c :: rest).takeWhile Char.isDigit = Nat.toDigits 10 n := by
    rw [takeWhile_append_of_pos hdigits, takeWhile_cons_of_neg (by rw [hc]; decide),
      append_nil]
  rw [numberAfter, hdrop, htake, Text.parseDecimal_toDigits]
  dsimp only
  rw [if_pos hn]

theorem numberAfter_stop {c : Char} (hc : NostrTags.Stop c) (rest : List Char) (bound : ℕ)
    (invalid : String) : numberAfter (c :: rest) bound invalid = .error (.invalidFormat invalid) := by
  have hsep : isKeySeparator c = false ∧ c.isDigit = false := by
    obtain rfl | rfl := hc
    all_goals decide
  rw [numberAfter, dropWhile_cons_of_neg (by rw [hsep.1]; decide),
    takeWhile_cons_of_neg (by rw [hsep.2]; decide)]
  rfl

end SignedEvent

end Nipworker
