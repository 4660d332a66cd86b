/-
What the reader of the tags makes of JSON text (`types/nostr.rs`, `utils/mod.rs`).

`Event::from_json` cuts the array of the tags out of the text and hands it to
`NostrTagsParser`, which reads an array of arrays of strings in any layout.
-/
import Nipworker.Types.EventReads

namespace Nipworker

open JsonText List

/-! ### Strings -/

namespace BaseJsonParser

/-- What `unescape_string` makes of a piece. -/
def tagRead : Piece → List Char
  | .plain c => [c]
  | .short e => [e.char]
  | p => p.text

theorem unescapeString_plain {c : Char} (h : c ≠ '\\') (cs : List Char) :
    unescapeString (c :: cs) = c :: unescapeString cs := by
  cases cs with
  | nil => rfl
  | cons d cs => rw [unescapeString, if_neg h]

theorem unescapeString_plains {part : List Char} (hpart : ∀ c ∈ part, c ≠ '"' ∧ c ≠ '\\')
    (cs : List Char) : unescapeString (part ++ cs) = part ++ unescapeString cs := by
  induction part with
  | nil => rfl
  | cons c part ih =>
    rw [cons_append, unescapeString_plain (hpart c mem_cons_self).2,
      ih fun d hd => hpart d (mem_cons_of_mem _ hd)]
    rfl

theorem unescapeString_unicode (cs : List Char) :
    unescapeString ('\\' :: 'u' :: cs) = '\\' :: 'u' :: unescapeString cs := by
  rw [unescapeString, if_pos rfl]
  rfl

theorem unescapeString_piece {p : Piece} (hp : p.Closed) (cs : List Char) :
    unescapeString (p.text ++ cs) = tagRead p ++ unescapeString cs := by
  cases p with
  | plain c => exact unescapeString_plain hp.2 cs
  | short e =>
    have hletter : escapeChar e.letter = some e.char := by cases e <;> decide
    show unescapeString ('\\' :: e.letter :: cs) = _
    rw [unescapeString, if_pos rfl, hletter]
    rfl
  | unicode c hex =>
    obtain ⟨n, hn⟩ := hp
    show unescapeString ('\\' :: 'u' :: (hex ++ cs)) = _
    rw [unescapeString_unicode, unescapeString_plains (mem_hex4_ne hn)]
    rfl
  | surrogates c high low =>
    obtain ⟨⟨n, hn⟩, ⟨m, hm⟩⟩ := hp
    have htext : (Piece.surrogates c high low).text ++ cs =
        '\\' :: 'u' :: (high ++ '\\' :: 'u' :: (low ++ cs)) := by simp [Piece.text]
    rw [htext, unescapeString_unicode, unescapeString_plains (mem_hex4_ne hn),
      unescapeString_unicode, unescapeString_plains (mem_hex4_ne hm)]
    simp [tagRead, Piece.text]

theorem unescapeString_literal {lit : List Piece} (hlit : ∀ p ∈ lit, p.Closed) :
    unescapeString (literalText lit) = lit.flatMap tagRead := by
  induction lit with
  | nil => rfl
  | cons p lit ih =>
    rw [literalText_cons, unescapeString_piece (hlit p mem_cons_self),
      ih fun q hq => hlit q (mem_cons_of_mem _ hq)]
    rfl

/-- The piece is no `\u` escape. -/
def KnownInTag : Piece → Prop
  | .plain _ | .short _ => True
  | .unicode _ _ | .surrogates _ _ _ => False

/-- A string is read as what it denotes only without a `\u` escape. -/
theorem tagRead_iff (lit : List Piece) :
    lit.flatMap tagRead = literalValue lit ↔ ∀ p ∈ lit, KnownInTag p := by
  have hne : ∀ p ∈ lit, tagRead p ≠ [] := by
    intro p _
    cases p <;> simp [tagRead, Piece.text]
  rw [literalValue, flatMap_eq_map_iff hne]
  refine forall₂_congr fun p _ => ?_
  cases p with
  | plain c => exact iff_of_true rfl trivial
  | short e => exact iff_of_true rfl trivial
  | unicode c hex => exact iff_of_false (by simp [tagRead, Piece.text]) id
  | surrogates c high low => exact iff_of_false (by simp [tagRead, Piece.text]) id

theorem parseStringUnescaped_literal (size : ℕ) {lit : List Piece} (hlit : ∀ p ∈ lit, p.Closed)
    (rest : List Char) :
    parseStringUnescaped size ('"' :: (literalText lit ++ '"' :: rest)) =
      .ok (String.ofList (lit.flatMap tagRead), rest) := by
  have hparse : parseString size ('"' :: (literalText lit ++ '"' :: rest)) =
      .ok (literalText lit, rest) := by
    have hquote : expectByte size '"' ('"' :: (literalText lit ++ '"' :: rest)) =
        .ok (literalText lit ++ '"' :: rest) := rfl
    simp only [parseString, hquote, bind, Except.bind, skipString_literal hlit]
  show (parseString size ('"' :: (literalText lit ++ '"' :: rest)) >>= _) = _
  rw [hparse, ← unescapeString_literal hlit]
  rfl

end BaseJsonParser

/-! ### Arrays -/

namespace NostrTags

open BaseJsonParser

theorem skipCommaOrEnd_items {after : List Char} (hafter : Blank after) (more : Items)
    (rest : List Char) :
    skipCommaOrEnd (after ++ (more.comma ++ (more.text ++ ']' :: rest))) =
      more.text ++ ']' :: rest := by
  have hskip : ∀ (c : Char) (tail : List Char), isAsciiWhitespace c = false →
      skipCommaOrEnd (after ++ c :: tail) = if c = ',' then tail else c :: tail := by
    intro c tail hc
    rw [skipCommaOrEnd, skipWs_append hafter hc]
  cases more with
  | nil => exact hskip ']' rest (by decide)
  | cons before value after' more => exact hskip ',' _ (by decide)

theorem loop_items {α ρ : Type} {R : Doc → α → Prop} {loop : ℕ → List Char → ρ}
    (result : List α → List Char → ρ)
    (hfirst : ∀ d a, R d a → ∃ c cs, d.text = c :: cs ∧ isAsciiWhitespace c = false ∧ c ≠ ']')
    (hend : ∀ n cs rest, skipWs cs = ']' :: rest → loop (n + 1) cs = result [] rest)
    (hitem : ∀ d a as after (more : Items) n cs rest, R d a → Blank after →
      skipWs cs = d.text ++ (after ++ (more.comma ++ (more.text ++ ']' :: rest))) →
        loop n (more.text ++ ']' :: rest) = result as rest → loop (n + 1) cs = result (a :: as) rest)
    {items : Items} {as : List α} (h : Listed R items as) :
    ∀ (n : ℕ) (gap rest : List Char), as.length < n → Blank gap →
      loop n (gap ++ (items.text ++ ']' :: rest)) = result as rest := by
  induction h with
  | nil =>
    intro n gap rest hn hgap
    obtain ⟨n, rfl⟩ : ∃ k, n = k + 1 := ⟨n - 1, by omega⟩
    exact hend n _ rest (skipWs_append hgap (by decide) rest)
  | @cons before after value more a as hbefore ha hafter _ ih =>
    intro n gap rest hn hgap
    rw [length_cons] at hn
    obtain ⟨n, rfl⟩ : ∃ k, n = k + 1 := ⟨n - 1, by omega⟩
    obtain ⟨c, cs, htext, hws, -⟩ := hfirst value a ha
    have hcat : gap ++ ((Items.cons before value after more).text ++ ']' :: rest) =
        (gap ++ before) ++ (value.text ++ (after ++ (more.comma ++ (more.text ++ ']' :: rest)))) := by
      simp [Items.text]
    have hblank : ∀ d ∈ gap ++ before, isWs d = true := fun d hd =>
      (List.mem_append.mp hd).elim (hgap d) (hbefore d)
    refine hitem value a as after more n _ rest ha hafter ?_ (ih n [] rest (by omega) (by simp [Blank]))
    rw [hcat, htext, cons_append]
    exact skipWs_append hblank hws _

theorem parseElements_of_skipWs {β : Type} {parse : List Char → Except TypesError (β × List Char)}
    {n : ℕ} {cs rest : List Char} {c : Char} (hskip : skipWs cs = c :: rest) :
    parseElements parse (n + 1) cs = if c = ']' then .ok ([], rest) else do
      let (value, rest) ← parse (c :: rest)
      let (values, rest) ← parseElements parse n (skipCommaOrEnd rest)
      return (value :: values, rest) := by
  cases cs with
  | nil => exact absurd hskip (by simp [skipWs])
  | cons d ds =>
    rw [parseElements, hskip]
    rfl

theorem parseElements_items {α β : Type} {R : Doc → α → Prop} {f : α → β}
    {parse : List Char → Except TypesError (β × List Char)}
    (hfirst : ∀ d a, R d a → ∃ c cs, d.text = c :: cs ∧ isAsciiWhitespace c = false ∧ c ≠ ']')
    (hparse : ∀ d a rest, R d a → parse (d.text ++ rest) = .ok (f a, rest))
    {items : Items} {as : List α} (h : Listed R items as) :
    ∀ (fuel : ℕ) (gap rest : List Char), as.length < fuel → Blank gap →
      parseElements parse fuel (gap ++ (items.text ++ ']' :: rest)) = .ok (as.map f, rest) := by
  refine loop_items (fun as rest => Except.ok (as.map f, rest)) hfirst ?_ ?_ h
  · intro n cs rest hskip
    rw [parseElements_of_skipWs hskip, if_pos rfl]
    rfl
  · intro d a as after more n cs rest ha hafter hskip hrest
    obtain ⟨c, ds, htext, -, hclose⟩ := hfirst d a ha
    have hread := hparse d a (after ++ (more.comma ++ (more.text ++ ']' :: rest))) ha
    rw [htext, cons_append] at hskip hread
    rw [parseElements_of_skipWs hskip, if_neg hclose, hread]
    show (parseElements parse n (skipCommaOrEnd _) >>= _) = _
    rw [skipCommaOrEnd_items hafter, hrest]
    rfl

def readStrings (lits : List (List Piece)) : List String :=
  lits.map fun lit => String.ofList (lit.flatMap tagRead)

theorem isString_first {d : Doc} {lit : List Piece} (h : IsString d lit) :
    ∃ c cs, d.text = c :: cs ∧ isAsciiWhitespace c = false ∧ c ≠ ']' := by
  obtain ⟨rfl, -⟩ := h
  exact ⟨_, _, rfl, by decide, by decide⟩

theorem isTag_first {d : Doc} {lits : List (List Piece)} (h : IsTag d lits) :
    ∃ c cs, d.text = c :: cs ∧ isAsciiWhitespace c = false ∧ c ≠ ']' := by
  obtain ⟨blank, items, rfl, -, -⟩ := h
  exact ⟨_, _, rfl, by decide, by decide⟩

theorem length_lt_of_listed {α : Type} {R : Doc → α → Prop}
    (hfirst : ∀ d a, R d a → ∃ c cs, d.text = c :: cs ∧ isAsciiWhitespace c = false ∧ c ≠ ']')
    {items : Items} {as : List α} (h : Listed R items as) (blank rest : List Char) :
    as.length < (blank ++ (items.text ++ ']' :: rest)).length := by
  have hle : as.length ≤ items.text.length := by
    induction h with
    | nil => exact Nat.le_refl _
    | @cons before after value more a as _ ha _ _ ih =>
      obtain ⟨c, cs, htext, -⟩ := hfirst value a ha
      simp only [Items.text, htext, length_append, length_cons]
      omega
  simp only [length_append, length_cons]
  omega

theorem parseTag_tag (size : ℕ) {d : Doc} {lits : List (List Piece)} (h : IsTag d lits)
    (rest : List Char) : parseTag size (d.text ++ rest) = .ok (readStrings lits, rest) := by
  obtain ⟨blank, items, rfl, hblank, hitems⟩ := h
  have htext : (Doc.arr blank items).text ++ rest =
      '[' :: (blank ++ (items.text ++ ']' :: rest)) := by simp [Doc.text]
  have hstring : ∀ d lit rest, IsString d lit → parseStringUnescaped size (d.text ++ rest) =
      .ok (String.ofList (lit.flatMap tagRead), rest) := by
    rintro _ lit rest ⟨rfl, hlit⟩
    have htext : (Doc.str lit).text ++ rest = '"' :: (literalText lit ++ '"' :: rest) := by
      simp [Doc.text]
    rw [htext]
    exact parseStringUnescaped_literal size hlit rest
  rw [htext]
  exact parseElements_items (fun _ _ => isString_first) hstring hitems _ blank rest
    (length_lt_of_listed (fun _ _ => isString_first) hitems blank rest) hblank

/-- **The tags** are read tag by tag. -/
theorem fromJson_tags {d : Doc} {tags : List (List (List Piece))} (h : IsTags d tags) :
    fromJson d.text = .ok (tags.map readStrings) := by
  obtain ⟨blank, items, rfl, hblank, hitems⟩ := h
  have hskip : skipWs (Doc.arr blank items).text = '[' :: (blank ++ (items.text ++ [']'])) :=
    dropWhile_cons_of_neg (by decide)
  have hread : parseElements (parseTag (byteLength (Doc.arr blank items).text))
      (blank ++ (items.text ++ [']'])).length (blank ++ (items.text ++ [']'])) =
        .ok (tags.map readStrings, []) :=
    parseElements_items (f := readStrings) (fun _ _ => isTag_first)
      (fun _ _ rest hd => parseTag_tag _ hd rest) hitems _ blank []
      (length_lt_of_listed (fun _ _ => isTag_first) hitems blank []) hblank
  unfold fromJson
  rw [hskip]
  show (parseElements _ _ _ >>= _) = _
  rw [hread]
  rfl

end NostrTags

/-! ### Cutting the tags out -/

namespace SignedEvent

/-- `bracketed` passes over a part of the text. -/
def Inside (part : List Char) : Prop :=
  ∀ (depth : ℕ) (rest : List Char), 1 ≤ depth →
    bracketed depth .outside (part ++ rest) = (bracketed depth .outside rest).map (part ++ ·)

theorem Inside.nil : Inside [] := by
  intro depth rest _
  show bracketed depth .outside rest = (bracketed depth .outside rest).map fun cs => cs
  rw [Option.map_id']

theorem Inside.append {a b : List Char} (ha : Inside a) (hb : Inside b) : Inside (a ++ b) := by
  intro depth rest hdepth
  rw [append_assoc, ha depth _ hdepth, hb depth rest hdepth, Option.map_map]
  refine congrArg (fun f => Option.map f _) (funext fun cs => ?_)
  simp

theorem Inside.plain {c : Char} (hquote : c ≠ '"') (hopen : c ≠ '[') (hclose : c ≠ ']') :
    Inside [c] := by
  intro depth rest _
  show bracketed depth .outside (c :: rest) = _
  rw [bracketed, if_neg hquote, if_neg hopen, if_neg hclose]
  rfl

theorem Inside.blank {cs : List Char} (h : Blank cs) : Inside cs := by
  induction cs with
  | nil => exact Inside.nil
  | cons c cs ih =>
    refine Inside.append (a := [c]) ?_ (ih fun d hd => h d (mem_cons_of_mem _ hd))
    have hws := h c mem_cons_self
    simp only [isWs, decide_eq_true_eq] at hws
    obtain rfl | rfl | rfl | rfl := hws
    all_goals exact Inside.plain (by decide) (by decide) (by decide)

theorem bracketed_plains {part : List Char} (hpart : ∀ c ∈ part, c ≠ '"' ∧ c ≠ '\\') (depth : ℕ)
    (cs : List Char) :
    bracketed depth .inString (part ++ cs) = (bracketed depth .inString cs).map (part ++ ·) := by
  induction part with
  | nil =>
    show bracketed depth .inString cs = (bracketed depth .inString cs).map fun cs => cs
    rw [Option.map_id']
  | cons c part ih =>
    obtain ⟨h1, h2⟩ := hpart c mem_cons_self
    rw [cons_append, bracketed, if_neg h2, if_neg h1,
      ih fun d hd => hpart d (mem_cons_of_mem _ hd), Option.map_map]
    rfl

theorem bracketed_escape (depth : ℕ) (c : Char) (cs : List Char) :
    bracketed depth .inString ('\\' :: c :: cs) =
      (bracketed depth .inString cs).map fun cs => '\\' :: c :: cs := by
  rw [bracketed, if_pos rfl, bracketed, Option.map_map]
  rfl

theorem bracketed_piece {p : Piece} (hp : p.Closed) (depth : ℕ) (cs : List Char) :
    bracketed depth .inString (p.text ++ cs) = (bracketed depth .inString cs).map (p.text ++ ·) := by
  cases p with
  | plain c =>
    refine bracketed_plains (fun d hd => ?_) depth cs
    rw [List.mem_singleton.mp hd]
    exact hp
  | short e => exact bracketed_escape depth _ cs
  | unicode c hex =>
    obtain ⟨n, hn⟩ := hp
    show bracketed depth .inString ('\\' :: 'u' :: (hex ++ cs)) = _
    rw [bracketed_escape, bracketed_plains (mem_hex4_ne hn), Option.map_map]
    rfl
  | surrogates c high low =>
    obtain ⟨⟨n, hn⟩, ⟨m, hm⟩⟩ := hp
    have htext : (Piece.surrogates c high low).text ++ cs =
        '\\' :: 'u' :: (high ++ '\\' :: 'u' :: (low ++ cs)) := by simp [Piece.text]
    rw [htext, bracketed_escape, bracketed_plains (mem_hex4_ne hn), bracketed_escape,
      bracketed_plains (mem_hex4_ne hm)]
    simp only [Option.map_map]
    refine congrArg (fun f => Option.map f _) (funext fun ds => ?_)
    simp [Piece.text]

theorem bracketed_literal {lit : List Piece} (hlit : ∀ p ∈ lit, p.Closed) (depth : ℕ)
    (rest : List Char) :
    bracketed depth .inString (literalText lit ++ '"' :: rest) =
      (bracketed depth .outside rest).map fun cs => literalText lit ++ '"' :: cs := by
  induction lit with
  | nil => exact congrArg (Option.map _) rfl
  | cons p lit ih =>
    rw [literalText_cons, append_assoc, bracketed_piece (hlit p mem_cons_self),
      ih fun q hq => hlit q (mem_cons_of_mem _ hq), Option.map_map]
    refine congrArg (fun f => Option.map f _) (funext fun cs => ?_)
    simp

theorem Inside.string {d : Doc} {lit : List Piece} (h : IsString d lit) : Inside d.text := by
  obtain ⟨rfl, hlit⟩ := h
  intro depth rest _
  have htext : (Doc.str lit).text ++ rest = '"' :: (literalText lit ++ '"' :: rest) := by
    simp [Doc.text]
  rw [htext, bracketed, if_pos rfl, bracketed_literal hlit, Option.map_map]
  refine congrArg (fun f => Option.map f _) (funext fun cs => ?_)
  simp [Doc.text]

theorem Inside.items {α : Type} {R : Doc → α → Prop} (hR : ∀ d a, R d a → Inside d.text)
    {items : Items} {as : List α} (h : Listed R items as) : Inside items.text := by
  induction h with
  | nil => exact Inside.nil
  | @cons before after value more a as hbefore ha hafter _ ih =>
    have hcomma : Inside more.comma := by
      cases more with
      | nil => exact Inside.nil
      | cons => exact Inside.plain (by decide) (by decide) (by decide)
    exact (Inside.blank hbefore).append ((hR value a ha).append
      ((Inside.blank hafter).append (hcomma.append ih)))

theorem Inside.array {blank : List Char} {items : Items} (hblank : Blank blank)
    (hitems : Inside items.text) : Inside (Doc.arr blank items).text := by
  intro depth rest hdepth
  have hinner := (Inside.blank hblank).append hitems
  have htext : (Doc.arr blank items).text ++ rest =
      '[' :: ((blank ++ items.text) ++ ']' :: rest) := by simp [Doc.text]
  rw [htext, bracketed, if_neg (by decide), if_pos rfl, hinner _ _ (by omega), bracketed,
    if_neg (by decide), if_neg (by decide), if_pos rfl, if_neg (by omega)]
  simp only [Option.map_map]
  refine congrArg (fun f => Option.map f _) (funext fun cs => ?_)
  simp [Doc.text]

theorem bracketed_tags {d : Doc} {tags : List (List (List Piece))} (h : IsTags d tags)
    (rest : List Char) : bracketed 0 .outside (d.text ++ rest) = some d.text := by
  obtain ⟨blank, items, rfl, hblank, hitems⟩ := h
  have htag : ∀ d lits, IsTag d lits → Inside d.text := by
    rintro _ lits ⟨blank, items, rfl, hblank, hitems⟩
    exact Inside.array hblank (Inside.items (fun _ _ => Inside.string) hitems)
  have hinner := (Inside.blank hblank).append (Inside.items htag hitems)
  have htext : (Doc.arr blank items).text ++ rest =
      '[' :: ((blank ++ items.text) ++ ']' :: rest) := by simp [Doc.text]
  rw [htext, bracketed, if_neg (by decide), if_pos rfl, hinner _ _ (by omega), bracketed,
    if_neg (by decide), if_neg (by decide), if_pos rfl, if_pos (by omega)]
  simp [Doc.text]

/-- The tags behind their key. -/
theorem readTags_eq {json gap following : List Char} {d : Doc}
    {tags : List (List (List Piece))} (h : IsTags d tags) (hgap : '[' ∉ gap)
    (hkey : Text.afterFirst "\"tags\"".toList json = some (gap ++ (d.text ++ following))) :
    readTags json = .ok (tags.map NostrTags.readStrings) := by
  have hcut := bracketed_tags h following
  have hread := NostrTags.fromJson_tags h
  obtain ⟨blank, items, rfl, -, -⟩ := h
  have hdrop : (gap ++ ((Doc.arr blank items).text ++ following)).dropWhile (fun c => c ≠ '[') =
      (Doc.arr blank items).text ++ following := by
    have hall : ∀ c ∈ gap, decide (c ≠ '[') = true := fun c hc =>
      decide_eq_true fun h => hgap (h ▸ hc)
    rw [dropWhile_append_of_pos hall]
    exact dropWhile_cons_of_neg (by decide)
  have hcons : (Doc.arr blank items).text ++ following =
      '[' :: ((blank ++ (items.text ++ [']'])) ++ following) := rfl
  rw [readTags, afterKey_of_first _ hkey]
  simp only [bind, Except.bind]
  rw [hdrop, hcons]
  dsimp only
  rw [← hcons, hcut]
  exact hread

end SignedEvent

end Nipworker
