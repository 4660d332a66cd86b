/-
Searching JSON text for a quoted word.

A reader that looks for `"key"` in the text of an object finds the first place
where the word stands between two quotes.  That is a string written as the word,
or one that ends in an escaped quote and the word; no other place of a document
has a word between quotes.
-/
import Nipworker.Lib.JsonDoc
import Nipworker.Lib.Text

namespace JsonText

open List

def quoted (word : List Char) : List Char := '"' :: (word ++ ['"'])

def isWordChar (c : Char) : Bool := c.isAlphanum ∨ c = '_'

/-- A word: not empty, of letters, digits and underscores. -/
def IsWord (word : List Char) : Prop := word ≠ [] ∧ ∀ c ∈ word, isWordChar c = true

instance (word : List Char) : Decidable (IsWord word) :=
  decidable_of_iff (word ≠ [] ∧ word.all isWordChar = true) (by rw [IsWord, all_eq_true])

/-- The literal, with its opening quote, ends in a quote and the word. -/
def Spells (word : List Char) (lit : List Piece) : Prop :=
  ('"' :: word) <:+ ('"' :: literalText lit)

theorem IsWord.ne {word : List Char} (h : IsWord word) {c : Char} (hc : c ∈ word) :
    c ≠ '"' ∧ c ≠ '\\' := by
  have hw := h.2 c hc
  constructor <;> rintro rfl <;> exact absurd hw (by decide)

/-! ### String literals -/

section Literal

variable {word : List Char}

theorem afterFirst_skip {c : Char} (hc : c ≠ '"') (cs : List Char) :
    Text.afterFirst (quoted word) (c :: cs) = Text.afterFirst (quoted word) cs := by
  have hno : (quoted word).isPrefixOf (c :: cs) = false := by
    simp [quoted, List.isPrefixOf, hc.symm]
  rw [Text.afterFirst, hno]
  rfl

theorem afterFirst_skipAll {part : List Char} (hpart : ∀ c ∈ part, c ≠ '"') (cs : List Char) :
    Text.afterFirst (quoted word) (part ++ cs) = Text.afterFirst (quoted word) cs := by
  induction part with
  | nil => rfl
  | cons c part ih =>
    rw [cons_append, afterFirst_skip (hpart c mem_cons_self),
      ih fun d hd => hpart d (mem_cons_of_mem _ hd)]

theorem quote_of_mem {p : Piece} (hp : p.Closed) (h : '"' ∈ p.text) : p = .short .quote := by
  cases p with
  | plain c =>
    have hc : '"' = c := by simpa [Piece.text] using h
    exact absurd hc.symm hp.1
  | short e =>
    cases e with
    | quote => rfl
    | _ => exact absurd h (by decide)
  | unicode c hex =>
    obtain ⟨n, hn⟩ := hp
    have hhex : '"' ∈ hex := by simpa [Piece.text] using h
    exact absurd rfl (mem_hex4_ne hn _ hhex).1
  | surrogates c high low =>
    obtain ⟨⟨n, hn⟩, ⟨m, hm⟩⟩ := hp
    have hhex : '"' ∈ high ∨ '"' ∈ low := by simpa [Piece.text] using h
    obtain hhex | hhex := hhex
    · exact absurd rfl (mem_hex4_ne hn _ hhex).1
    · exact absurd rfl (mem_hex4_ne hm _ hhex).1

variable {lit : List Piece}

theorem literalText_quote (hlit : ∀ p ∈ lit, p.Closed) :
    '"' ∉ literalText lit ∨ ∃ a b, literalText lit = a ++ '\\' :: '"' :: b ∧ '"' ∉ a := by
  induction lit with
  | nil => exact .inl (by simp [literalText])
  | cons p lit ih =>
    rw [literalText_cons]
    by_cases hp : '"' ∈ p.text
    · obtain rfl := quote_of_mem (hlit p mem_cons_self) hp
      exact .inr ⟨[], literalText lit, rfl, by simp⟩
    · -- a piece without a quote only moves what is found in the rest
      obtain hno | ⟨a, b, hab, ha⟩ := ih fun q hq => hlit q (mem_cons_of_mem _ hq)
      · exact .inl fun h => (List.mem_append.mp h).elim hp hno
      · refine .inr ⟨p.text ++ a, b, by rw [hab, append_assoc], ?_⟩
        exact fun h => (List.mem_append.mp h).elim hp ha

theorem wordQuote_prefix_iff (hword : IsWord word) (hlit : ∀ p ∈ lit, p.Closed) (rest : List Char) :
    word ++ ['"'] <+: literalText lit ++ '"' :: rest ↔ literalText lit = word := by
  constructor
  · rintro ⟨t, ht⟩
    have hcut : Text.splitOnce '"' (literalText lit ++ '"' :: rest) = some (word, t) :=
      Text.splitOnce_eq_some.mpr ⟨by rw [← ht]; simp, fun h => (hword.ne h).1 rfl⟩
    obtain hno | ⟨a, b, hab, ha⟩ := literalText_quote hlit
    · have hcut' : Text.splitOnce '"' (literalText lit ++ '"' :: rest) =
          some (literalText lit, rest) := Text.splitOnce_eq_some.mpr ⟨rfl, hno⟩
      rw [hcut] at hcut'
      simp only [Option.some.injEq, Prod.mk.injEq] at hcut'
      exact hcut'.1.symm
    · -- an escaped quote first: the word would end in a backslash
      have hcut' : Text.splitOnce '"' (literalText lit ++ '"' :: rest) =
          some (a ++ ['\\'], b ++ '"' :: rest) := by
        refine Text.splitOnce_eq_some.mpr ⟨by rw [hab]; simp, fun h => ?_⟩
        obtain h | h := List.mem_append.mp h
        · exact ha h
        · exact absurd h (by decide)
      rw [hcut] at hcut'
      simp only [Option.some.injEq, Prod.mk.injEq] at hcut'
      have hmem : '\\' ∈ word := by rw [hcut'.1]; simp
      exact absurd rfl (hword.ne hmem).2
  · rintro rfl
    exact ⟨rest, by simp⟩

def EndsWord (cs : List Char) : Prop := ∀ c ∈ cs.head?, isWordChar c = false

theorem EndsWord.cons {c : Char} (hc : isWordChar c = false) (cs : List Char) : EndsWord (c :: cs) := by
  intro d hd
  obtain rfl : c = d := by simpa using hd
  exact hc

theorem afterFirst_closing (hword : IsWord word) {rest : List Char} (hrest : EndsWord rest) :
    Text.afterFirst (quoted word) ('"' :: rest) = Text.afterFirst (quoted word) rest := by
  have hno : (quoted word).isPrefixOf ('"' :: rest) = false := by
    obtain ⟨hne, hall⟩ := hword
    obtain ⟨c, cs, rfl⟩ := exists_cons_of_ne_nil hne
    cases rest with
    | nil => simp [quoted, List.isPrefixOf]
    | cons d rest =>
      have hcd : c ≠ d := by
        rintro rfl
        have h1 := hrest c (by simp)
        rw [hall c mem_cons_self] at h1
        exact absurd h1 (by decide)
      simp [quoted, List.isPrefixOf, hcd]
  rw [Text.afterFirst, hno]
  rfl

theorem afterFirst_quote (hword : IsWord word) (hlit : ∀ p ∈ lit, p.Closed) (rest : List Char) :
    Text.afterFirst (quoted word) ('"' :: (literalText lit ++ '"' :: rest)) =
      if literalText lit = word then some rest
      else Text.afterFirst (quoted word) (literalText lit ++ '"' :: rest) := by
  have hiff : (quoted word).isPrefixOf ('"' :: (literalText lit ++ '"' :: rest)) = true ↔
      literalText lit = word := by
    rw [List.isPrefixOf_iff_prefix, quoted, cons_prefix_cons]
    simp only [true_and]
    exact wordQuote_prefix_iff hword hlit rest
  by_cases h : literalText lit = word
  · rw [if_pos h, Text.afterFirst, if_pos (hiff.mpr h), h]
    simp [quoted]
  · rw [if_neg h, Text.afterFirst, if_neg fun hp => h (hiff.mp hp)]

theorem suffix_append_iff {part : List Char} (hpart : '"' ∉ part) {cs : List Char} :
    ('"' :: word) <:+ part ++ cs ↔ ('"' :: word) <:+ cs := by
  induction part with
  | nil => rfl
  | cons c part ih =>
    simp only [mem_cons, not_or] at hpart
    rw [cons_append, suffix_cons_iff, ih hpart.2]
    refine or_iff_right fun h => ?_
    exact hpart.1 (List.cons.inj h).1

theorem afterFirst_inside (hword : IsWord word) (hlit : ∀ p ∈ lit, p.Closed) (rest : List Char) :
    (('"' :: word) <:+ literalText lit →
      Text.afterFirst (quoted word) (literalText lit ++ '"' :: rest) = some rest) ∧
    (¬ ('"' :: word) <:+ literalText lit →
      Text.afterFirst (quoted word) (literalText lit ++ '"' :: rest) =
        Text.afterFirst (quoted word) ('"' :: rest)) := by
  induction lit with
  | nil => exact ⟨fun h => by simp [literalText] at h, fun _ => rfl⟩
  | cons p lit ih =>
    have hlit' : ∀ q ∈ lit, q.Closed := fun q hq => hlit q (mem_cons_of_mem _ hq)
    have hrest := ih hlit'
    by_cases hp : '"' ∈ p.text
    · -- an escaped quote: the rest of the literal stands like one of its own
      obtain rfl : p = .short .quote := quote_of_mem (hlit p mem_cons_self) hp
      have htext : literalText (.short .quote :: lit) = '\\' :: '"' :: literalText lit := by
        rw [literalText_cons]; rfl
      rw [htext, cons_append, cons_append, afterFirst_skip (by decide),
        afterFirst_quote hword hlit', suffix_cons_iff, suffix_cons_iff]
      have hfirst : ¬ ('"' :: word = '\\' :: '"' :: literalText lit) := by simp
      by_cases heq : literalText lit = word
      · rw [if_pos heq]
        exact ⟨fun _ => rfl, fun h => absurd (.inr (.inl (by rw [heq]))) h⟩
      · rw [if_neg heq]
        have hsecond : ¬ ('"' :: word = '"' :: literalText lit) := by
          simpa using fun h : word = literalText lit => heq h.symm
        rw [or_iff_right hfirst, or_iff_right hsecond]
        exact hrest
    · -- a piece without a quote is passed over
      have hskip : ∀ c ∈ p.text, c ≠ '"' := fun c hc h => hp (h ▸ hc)
      rw [literalText_cons, append_assoc, afterFirst_skipAll hskip, suffix_append_iff hp]
      exact hrest

/-- **A literal under the search**: it is found when it ends in the word after a
quote, and passed over when it does not. -/
theorem afterFirst_literal (hword : IsWord word) (hlit : ∀ p ∈ lit, p.Closed)
    {rest : List Char} (hrest : EndsWord rest) :
    (Spells word lit →
      Text.afterFirst (quoted word) ('"' :: (literalText lit ++ '"' :: rest)) = some rest) ∧
    (¬ Spells word lit →
      Text.afterFirst (quoted word) ('"' :: (literalText lit ++ '"' :: rest)) =
        Text.afterFirst (quoted word) rest) := by
  have hspells : Spells word lit ↔ literalText lit = word ∨ ('"' :: word) <:+ literalText lit := by
    rw [Spells, suffix_cons_iff]
    simp only [List.cons.injEq, true_and, eq_comm]
  obtain ⟨hin, hout⟩ := afterFirst_inside hword hlit rest
  rw [hspells, afterFirst_quote hword hlit]
  by_cases heq : literalText lit = word
  · rw [if_pos heq]
    exact ⟨fun _ => rfl, fun h => absurd (.inl heq) h⟩
  · rw [if_neg heq, or_iff_right heq]
    exact ⟨hin, fun h => (hout h).trans (afterFirst_closing hword hrest)⟩

end Literal

/-! ### Documents -/

mutual

/-- The strings of a document, keys among them, in the order they are written. -/
def Doc.strings : Doc → List (List Piece)
  | .atom _ => []
  | .str lit => [lit]
  | .arr _ items => items.strings
  | .obj _ members => members.strings

def Items.strings : Items → List (List Piece)
  | .nil => []
  | .cons _ value _ rest => value.strings ++ rest.strings

def Members.strings : Members → List (List Piece)
  | .nil => []
  | .cons _ key _ _ value _ rest => key :: (value.strings ++ rest.strings)

end

section Documents

variable {word : List Char}

theorem ne_quote_of_isWs {c : Char} (h : isWs c = true) : c ≠ '"' := by
  rintro rfl
  exact absurd h (by decide)

theorem afterFirst_blank {blank : List Char} (h : Blank blank) (cs : List Char) :
    Text.afterFirst (quoted word) (blank ++ cs) = Text.afterFirst (quoted word) cs :=
  afterFirst_skipAll (fun c hc => ne_quote_of_isWs (h c hc)) cs

theorem isWordChar_of_isWs {c : Char} (h : isWs c = true) : isWordChar c = false := by
  simp only [isWs, decide_eq_true_eq] at h
  obtain rfl | rfl | rfl | rfl := h
  all_goals decide

theorem EndsWord.blank {blank cs : List Char} (h : Blank blank) (hcs : EndsWord cs) :
    EndsWord (blank ++ cs) := by
  cases blank with
  | nil => exact hcs
  | cons c blank => exact EndsWord.cons (isWordChar_of_isWs (h c mem_cons_self)) _

theorem EndsWord.items {items : Items} {cs : List Char} (hcs : EndsWord cs) :
    EndsWord (items.comma ++ (items.text ++ cs)) := by
  cases items with
  | nil => exact hcs
  | cons => exact EndsWord.cons (by decide) _

theorem EndsWord.members {members : Members} {cs : List Char} (hcs : EndsWord cs) :
    EndsWord (members.comma ++ (members.text ++ cs)) := by
  cases members with
  | nil => exact hcs
  | cons => exact EndsWord.cons (by decide) _

theorem afterFirst_itemsComma (items : Items) (cs : List Char) :
    Text.afterFirst (quoted word) (items.comma ++ cs) = Text.afterFirst (quoted word) cs := by
  cases items with
  | nil => rfl
  | cons => exact afterFirst_skip (by decide) _

theorem afterFirst_membersComma (members : Members) (cs : List Char) :
    Text.afterFirst (quoted word) (members.comma ++ cs) = Text.afterFirst (quoted word) cs := by
  cases members with
  | nil => rfl
  | cons => exact afterFirst_skip (by decide) _

theorem Members.text_cons_append (before : List Char) (key : List Piece)
    (afterKey beforeValue : List Char) (value : Doc) (after : List Char) (rest : Members)
    (cs : List Char) :
    (Members.cons before key afterKey beforeValue value after rest).text ++ cs =
      before ++ ('"' :: (literalText key ++ '"' :: (afterKey ++ ':' :: (beforeValue ++
        (value.text ++ (after ++ (rest.comma ++ (rest.text ++ cs)))))))) := by
  simp [Members.text]

theorem afterFirst_key (hword : IsWord word) {before afterKey beforeValue : List Char}
    {key : List Piece} (hbefore : Blank before) (hkey : ∀ p ∈ key, p.Wf)
    (hafterKey : Blank afterKey) (hbeforeValue : Blank beforeValue) (hno : ¬ Spells word key)
    (cs : List Char) :
    Text.afterFirst (quoted word) (before ++ ('"' :: (literalText key ++ '"' :: (afterKey ++
      ':' :: (beforeValue ++ cs))))) = Text.afterFirst (quoted word) cs := by
  have hfollows : EndsWord (afterKey ++ ':' :: (beforeValue ++ cs)) :=
    EndsWord.blank hafterKey (EndsWord.cons (by decide) _)
  rw [afterFirst_blank hbefore,
    (afterFirst_literal hword (fun p hp => (hkey p hp).closed) hfollows).2 hno,
    afterFirst_blank hafterKey, afterFirst_skip (by decide), afterFirst_blank hbeforeValue]

mutual

/-- **A document is passed over** when none of its strings ends in the word. -/
theorem afterFirst_doc (hword : IsWord word) : ∀ {d : Doc}, d.Wf →
    (∀ lit ∈ d.strings, ¬ Spells word lit) → ∀ {rest : List Char}, EndsWord rest →
      Text.afterFirst (quoted word) (d.text ++ rest) = Text.afterFirst (quoted word) rest
  | .atom text, h, _, rest, _ => by
    refine afterFirst_skipAll (fun c hc => ?_) rest
    rintro rfl
    exact absurd (h.2 _ hc) (by decide)
  | .str lit, h, hno, rest, hrest => by
    have htext : (Doc.str lit).text ++ rest = '"' :: (literalText lit ++ '"' :: rest) := by
      simp [Doc.text]
    rw [htext]
    exact (afterFirst_literal hword (fun p hp => (h p hp).closed) hrest).2
      (hno lit (by simp [Doc.strings]))
  | .arr blank items, h, hno, rest, hrest => by
    have htext : (Doc.arr blank items).text ++ rest =
        '[' :: (blank ++ (items.text ++ ']' :: rest)) := by
      simp [Doc.text]
    rw [htext, afterFirst_skip (by decide), afterFirst_blank h.1,
      afterFirst_items hword h.2 hno (EndsWord.cons (by decide) _), afterFirst_skip (by decide)]
  | .obj blank members, h, hno, rest, hrest => by
    have htext : (Doc.obj blank members).text ++ rest =
        '{' :: (blank ++ (members.text ++ '}' :: rest)) := by
      simp [Doc.text]
    rw [htext, afterFirst_skip (by decide), afterFirst_blank h.1,
      afterFirst_members hword h.2 hno (EndsWord.cons (by decide) _), afterFirst_skip (by decide)]

theorem afterFirst_items (hword : IsWord word) : ∀ {l : Items}, l.Wf →
    (∀ lit ∈ l.strings, ¬ Spells word lit) → ∀ {rest : List Char}, EndsWord rest →
      Text.afterFirst (quoted word) (l.text ++ rest) = Text.afterFirst (quoted word) rest
  | .nil, _, _, _, _ => rfl
  | .cons before value after more, h, hno, rest, hrest => by
    obtain ⟨hbefore, hvalue, hafter, hmore⟩ := h
    have htext : (Items.cons before value after more).text ++ rest =
        before ++ (value.text ++ (after ++ (more.comma ++ (more.text ++ rest)))) := by
      simp [Items.text]
    have hno1 : ∀ lit ∈ value.strings, ¬ Spells word lit := fun lit hlit =>
      hno lit (by simp [Items.strings, hlit])
    have hno2 : ∀ lit ∈ more.strings, ¬ Spells word lit := fun lit hlit =>
      hno lit (by simp [Items.strings, hlit])
    rw [htext, afterFirst_blank hbefore,
      afterFirst_doc hword hvalue hno1 (EndsWord.blank hafter (EndsWord.items hrest)),
      afterFirst_blank hafter, afterFirst_itemsComma, afterFirst_items hword hmore hno2 hrest]

theorem afterFirst_members (hword : IsWord word) : ∀ {l : Members}, l.Wf →
    (∀ lit ∈ l.strings, ¬ Spells word lit) → ∀ {rest : List Char}, EndsWord rest →
      Text.afterFirst (quoted word) (l.text ++ rest) = Text.afterFirst (quoted word) rest
  | .nil, _, _, _, _ => rfl
  | .cons before key afterKey beforeValue value after more, h, hno, rest, hrest => by
    obtain ⟨hbefore, hkey, hafterKey, hbeforeValue, hvalue, hafter, hmore⟩ := h
    have hno1 : ∀ lit ∈ value.strings, ¬ Spells word lit := fun lit hlit =>
      hno lit (by simp [Members.strings, hlit])
    have hno2 : ∀ lit ∈ more.strings, ¬ Spells word lit := fun lit hlit =>
      hno lit (by simp [Members.strings, hlit])
    rw [Members.text_cons_append,
      afterFirst_key hword hbefore hkey hafterKey hbeforeValue
        (hno key (by simp [Members.strings])),
      afterFirst_doc hword hvalue hno1 (EndsWord.blank hafter (EndsWord.members hrest)),
      afterFirst_blank hafter, afterFirst_membersComma, afterFirst_members hword hmore hno2 hrest]

end

end Documents

/-! ### The member's own key -/

/-- What is written after a key, up to the end of the text. -/
structure Entry where
  afterKey : List Char
  beforeValue : List Char
  value : Doc
  following : List Char

def Entry.tail (e : Entry) : List Char :=
  e.afterKey ++ ':' :: (e.beforeValue ++ (e.value.text ++ e.following))

namespace Members

/-- The first member with a key, in a text that goes on with `rest`. -/
def entry (key : List Char) (rest : List Char) : Members → Option Entry
  | .nil => none
  | .cons _ lit afterKey beforeValue value after more =>
    if literalValue lit = key then
      some ⟨afterKey, beforeValue, value, after ++ (more.comma ++ (more.text ++ rest))⟩
    else more.entry key rest

/-- The key is written as it is, and no string before it ends in it after a
quote: in particular none is spelled like it. -/
def OwnFirst (key : List Char) : Members → Prop
  | .nil => True
  | .cons _ lit _ _ value _ more =>
    if literalValue lit = key then literalText lit = key
    else ¬ Spells key lit ∧ (∀ l ∈ value.strings, ¬ Spells key l) ∧ more.OwnFirst key

instance (word : List Char) (lit : List Piece) : Decidable (Spells word lit) :=
  inferInstanceAs (Decidable (('"' :: word) <:+ ('"' :: literalText lit)))

instance decidableOwnFirst (key : List Char) : ∀ l : Members, Decidable (l.OwnFirst key)
  | .nil => inferInstanceAs (Decidable True)
  | .cons _ lit _ _ value _ more =>
    have := decidableOwnFirst key more
    inferInstanceAs (Decidable (if literalValue lit = key then literalText lit = key
      else ¬ Spells key lit ∧ (∀ l ∈ value.strings, ¬ Spells key l) ∧ more.OwnFirst key))

/-- **The member's own key is found.** -/
theorem afterFirst_own {key : List Char} (hkey : IsWord key) : ∀ {l : Members}, l.Wf →
    l.OwnFirst key → ∀ {rest : List Char}, EndsWord rest → ∀ {e : Entry},
      l.entry key rest = some e →
        Text.afterFirst (quoted key) (l.text ++ rest) = some e.tail
  | .nil, _, _, _, _, _, he => nomatch he
  | .cons before lit afterKey beforeValue value after more, h, hown, rest, hrest, e, he => by
    obtain ⟨hbefore, hlit, hafterKey, hbeforeValue, hvalue, hafter, hmore⟩ := h
    rw [entry] at he
    rw [OwnFirst] at hown
    rw [text_cons_append]
    by_cases hval : literalValue lit = key
    · rw [if_pos hval] at he hown
      rw [afterFirst_blank hbefore, afterFirst_quote hkey fun p hp => (hlit p hp).closed,
        if_pos hown]
      rw [← Option.some.inj he]
      rfl
    · rw [if_neg hval] at he hown
      obtain ⟨hno, hno1, hown⟩ := hown
      rw [afterFirst_key hkey hbefore hlit hafterKey hbeforeValue hno,
        afterFirst_doc hkey hvalue hno1 (EndsWord.blank hafter (EndsWord.members hrest)),
        afterFirst_blank hafter, afterFirst_membersComma]
      exact afterFirst_own hkey hmore hown hrest he

theorem entry_of_valuesOf {key : List Char} (rest : List Char) : ∀ {l : Members} {d : Doc},
    l.Wf → EndsWord rest → l.valuesOf key = [d] →
      ∃ e, l.entry key rest = some e ∧ e.value = d ∧ Blank e.afterKey ∧ Blank e.beforeValue ∧
        d.Wf ∧ EndsWord e.following
  | .nil, _, _, _, h => nomatch h
  | .cons _ lit afterKey beforeValue value after more, d, hwf, hrest, h => by
    obtain ⟨-, -, hafterKey, hbeforeValue, hvalue, hafter, hmore⟩ := hwf
    rw [valuesOf] at h
    rw [entry]
    by_cases hval : literalValue lit = key
    · rw [if_pos hval] at h ⊢
      obtain rfl := (List.cons.inj h).1
      exact ⟨_, rfl, rfl, hafterKey, hbeforeValue, hvalue,
        EndsWord.blank hafter (EndsWord.members hrest)⟩
    · rw [if_neg hval] at h ⊢
      exact entry_of_valuesOf rest hmore hrest h

end Members

/-! ### Strings one after the other -/

/-- A text made of literals, each with one of certain characters behind it, and of
parts without quotes. -/
inductive Tokenized (stop : Char → Prop) : List Char → List (List Piece) → Prop
  | gap {gap : List Char} : '"' ∉ gap → Tokenized stop gap []
  | cons {gap rest : List Char} {c : Char} {lit : List Piece} {lits : List (List Piece)} :
      '"' ∉ gap → (∀ p ∈ lit, p.Closed) → stop c → Tokenized stop (c :: rest) lits →
        Tokenized stop (gap ++ '"' :: (literalText lit ++ '"' :: c :: rest)) (lit :: lits)

namespace Tokenized

variable {stop : Char → Prop} {word text : List Char} {lits : List (List Piece)}

theorem prepend {part : List Char} (hpart : '"' ∉ part) (h : Tokenized stop text lits) :
    Tokenized stop (part ++ text) lits := by
  have hjoin {gap : List Char} (hgap : '"' ∉ gap) : '"' ∉ part ++ gap := fun hmem =>
    (List.mem_append.mp hmem).elim hpart hgap
  cases h with
  | gap hgap => exact .gap (hjoin hgap)
  | cons hgap hlit hc hrest =>
    rw [← append_assoc]
    exact .cons (hjoin hgap) hlit hc hrest

theorem append {more : List Char} {lits' : List (List Piece)} (h : Tokenized stop text lits)
    (hmore : Tokenized stop more lits') : Tokenized stop (text ++ more) (lits ++ lits') := by
  induction h with
  | gap hgap => exact hmore.prepend hgap
  | @cons gap rest c lit lits hgap hlit hc _ ih =>
    have hcat : gap ++ '"' :: (literalText lit ++ '"' :: c :: rest) ++ more =
        gap ++ '"' :: (literalText lit ++ '"' :: c :: (rest ++ more)) := by simp
    rw [hcat]
    exact .cons hgap hlit hc ih

theorem mono {stop' : Char → Prop} (hstop : ∀ c, stop c → stop' c) (h : Tokenized stop text lits) :
    Tokenized stop' text lits := by
  induction h with
  | gap hgap => exact .gap hgap
  | cons hgap hlit hc _ ih => exact .cons hgap hlit (hstop _ hc) ih

theorem afterFirst_pass (hword : IsWord word) (hstop : ∀ c, stop c → isWordChar c = false)
    (h : Tokenized stop text lits) (hno : ∀ lit ∈ lits, ¬ Spells word lit) (rest : List Char) :
    Text.afterFirst (quoted word) (text ++ rest) = Text.afterFirst (quoted word) rest := by
  induction h with
  | gap hgap => exact afterFirst_skipAll (fun c hc hq => hgap (hq ▸ hc)) rest
  | @cons gap more c lit lits hgap hlit hc _ ih =>
    have hfollows : EndsWord (c :: more ++ rest) := EndsWord.cons (hstop c hc) _
    have hcat : gap ++ '"' :: (literalText lit ++ '"' :: c :: more) ++ rest =
        gap ++ '"' :: (literalText lit ++ '"' :: (c :: more ++ rest)) := by simp
    rw [hcat, afterFirst_skipAll fun d hd hq => hgap (hq ▸ hd),
      (afterFirst_literal hword hlit hfollows).2 (hno lit mem_cons_self)]
    exact ih fun l hl => hno l (mem_cons_of_mem _ hl)

/-- **The first string that ends in the word** is where the search stops; behind
it are the other strings. -/
theorem afterFirst_found (hword : IsWord word) (hstop : ∀ c, stop c → isWordChar c = false)
    (h : Tokenized stop text lits) {before after : List (List Piece)} {lit : List Piece}
    (hlits : lits = before ++ lit :: after) (hno : ∀ l ∈ before, ¬ Spells word l)
    (hlit : Spells word lit) (rest : List Char) :
    ∃ c more, stop c ∧ Tokenized stop (c :: more) after ∧
      Text.afterFirst (quoted word) (text ++ rest) = some (c :: more ++ rest) := by
  induction h generalizing before with
  | gap hgap => exact absurd hlits (by simp)
  | @cons gap more c first lits hgap hfirst hc htok ih =>
    have hfollows : EndsWord (c :: more ++ rest) := EndsWord.cons (hstop c hc) _
    have hcat : gap ++ '"' :: (literalText first ++ '"' :: c :: more) ++ rest =
        gap ++ '"' :: (literalText first ++ '"' :: (c :: more ++ rest)) := by simp
    rw [hcat, afterFirst_skipAll fun d hd hq => hgap (hq ▸ hd)]
    cases before with
    | nil =>
      obtain ⟨rfl, rfl⟩ : first = lit ∧ lits = after := by simpa using hlits
      exact ⟨c, more, hc, htok, (afterFirst_literal hword hfirst hfollows).1 hlit⟩
    | cons l before =>
      obtain ⟨hfl, hmore⟩ : first = l ∧ lits = before ++ lit :: after := by simpa using hlits
      have hpass : ¬ Spells word first := hfl ▸ hno l mem_cons_self
      rw [(afterFirst_literal hword hfirst hfollows).2 hpass]
      exact ih hmore fun k hk => hno k (mem_cons_of_mem _ hk)

theorem next_cons {lit : List Piece} (h : Tokenized stop text (lit :: lits)) (rest : List Char) :
    ∃ gap more, '"' ∉ gap ∧ (∀ p ∈ lit, p.Closed) ∧
      text ++ rest = gap ++ '"' :: (literalText lit ++ '"' :: more) := by
  cases h with
  | @cons gap more c _ _ hgap hlit _ _ =>
    exact ⟨gap, c :: more ++ rest, hgap, hlit, by simp⟩

end Tokenized

end JsonText
