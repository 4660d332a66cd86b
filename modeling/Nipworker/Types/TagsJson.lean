/-
The tags as JSON text, written and read back (`types/nostr.rs`).

`NostrTagsParser` first looks at the front of the text: JSON that seems to be
escaped once more is unescaped as a whole.  `to_json` begins with a bracket, so
its own texts are never taken for such, whatever the strings look like.
-/
import Nipworker.Types.ProofJson

namespace Nipworker

open JsonText BaseJsonParser List

namespace NostrTagsParser

def parseTag (size : ℕ) (cs : List Char) : ParserResult (List String × List Char) :=
  array size (stringUnescaped size) cs

/-- `NostrTagsParser::parse`, which is `NostrTags::from_json`. -/
def parse (json : List Char) : ParserResult (List (List String)) := do
  let text := unescapeIfNeeded json
  let size := byteLength text
  let (tags, _) ← array size (parseTag size) (skipWs text)
  .ok tags

end NostrTagsParser

/-! ### Arrays in any layout -/

namespace BaseJsonParser

theorem elements_of_skipWs {α : Type} {parse : List Char → ParserResult (α × List Char)}
    {cs rest : List Char} {d : Char} (hskip : skipWs cs = d :: rest) (fuel : ℕ) :
    elements parse (fuel + 1) cs =
      if d = ']' then .ok ([], rest)
      else parse (d :: rest) >>= fun p =>
        elements parse fuel (skipCommaOrEnd p.2) >>= fun q => .ok (p.1 :: q.1, q.2) := by
  cases cs with
  | nil =>
    rw [skipWs, dropWhile_nil] at hskip
    contradiction
  | cons c cs =>
    rw [elements, hskip]

/-- The loop over an array in any layout. -/
theorem elements_items {α β : Type} {R : Doc → α → Prop} {f : α → β}
    {parse : List Char → ParserResult (β × List Char)}
    (hfirst : ∀ d a, R d a → ∃ c cs, d.text = c :: cs ∧ isAsciiWhitespace c = false ∧ c ≠ ']')
    (hparse : ∀ d a rest, R d a → parse (d.text ++ rest) = .ok (f a, rest))
    {items : Items} {as : List α} (h : Listed R items as) :
    ∀ (fuel : ℕ) (gap rest : List Char), as.length < fuel → Blank gap →
      elements parse fuel (gap ++ (items.text ++ ']' :: rest)) = .ok (as.map f, rest) := by
  refine NostrTags.loop_items (fun as rest => Except.ok (as.map f, rest)) hfirst ?_ ?_ h
  · intro n cs rest hskip
    rw [elements_of_skipWs hskip, if_pos rfl]
    rfl
  · intro d a as after more n cs rest ha hafter hskip hrest
    obtain ⟨c, ds, htext, -, hclose⟩ := hfirst d a ha
    have hread := hparse d a (after ++ (more.comma ++ (more.text ++ ']' :: rest))) ha
    rw [htext, cons_append] at hskip hread
    rw [elements_of_skipWs hskip, if_neg hclose, hread]
    show (elements parse n (skipCommaOrEnd _) >>= _) = _
    rw [NostrTags.skipCommaOrEnd_items hafter, hrest]
    rfl

theorem array_items {α β : Type} {R : Doc → α → Prop} {f : α → β} {size : ℕ}
    {parse : List Char → ParserResult (β × List Char)}
    (hfirst : ∀ d a, R d a → ∃ c cs, d.text = c :: cs ∧ isAsciiWhitespace c = false ∧ c ≠ ']')
    (hparse : ∀ d a rest, R d a → parse (d.text ++ rest) = .ok (f a, rest))
    {blank : List Char} (hblank : Blank blank) {items : Items} {as : List α}
    (h : Listed R items as) (rest : List Char) :
    array size parse ((Doc.arr blank items).text ++ rest) = .ok (as.map f, rest) := by
  have htext : (Doc.arr blank items).text ++ rest =
      '[' :: (blank ++ (items.text ++ ']' :: rest)) := by simp [Doc.text]
  rw [htext]
  show elements parse ((blank ++ (items.text ++ ']' :: rest)).length + 1)
    (blank ++ (items.text ++ ']' :: rest)) = _
  have hlen := NostrTags.length_lt_of_listed hfirst h blank rest
  exact elements_items hfirst hparse h _ blank rest (by omega) hblank

theorem unescapeIfNeeded_brackets (inner : List Char) :
    unescapeIfNeeded ('[' :: (inner ++ [']'])) = '[' :: (inner ++ [']']) := by
  have htrim : Text.trim ('[' :: (inner ++ [']'])) = '[' :: (inner ++ [']']) :=
    Text.trim_of_ends (by decide) (by decide)
  have hneeds : needsUnescape ('[' :: (inner ++ [']'])) = false := rfl
  rw [unescapeIfNeeded, htrim, hneeds]
  exact if_neg Bool.false_ne_true

end BaseJsonParser

/-! ### Tags -/

namespace NostrTagsParser

theorem parseTag_isTag (size : ℕ) {d : Doc} {lits : List (List Piece)} (h : IsTag d lits)
    (rest : List Char) : parseTag size (d.text ++ rest) = .ok (NostrTags.readStrings lits, rest) := by
  obtain ⟨blank, items, rfl, hblank, hitems⟩ := h
  refine array_items (fun _ _ => NostrTags.isString_first) ?_ hblank hitems rest
  rintro _ lit rest ⟨rfl, hlit⟩
  exact stringUnescaped_literal size hlit rest

/-- **Tags in any layout** are read string by string, unless the text seems to be
escaped once more. -/
theorem parse_isTags {d : Doc} {tags : List (List (List Piece))} (h : IsTags d tags) :
    parse d.text = .ok (tags.map NostrTags.readStrings) := by
  obtain ⟨blank, items, rfl, hblank, hitems⟩ := h
  have htext : (Doc.arr blank items).text = '[' :: ((blank ++ items.text) ++ [']']) := by
    simp [Doc.text]
  have hskip : skipWs (Doc.arr blank items).text = (Doc.arr blank items).text ++ [] := by
    rw [append_nil, htext]
    exact skipWs_cons (by decide) _
  have hunescaped : unescapeIfNeeded (Doc.arr blank items).text = (Doc.arr blank items).text := by
    rw [htext, unescapeIfNeeded_brackets]
  have hread : array (byteLength (Doc.arr blank items).text)
      (parseTag (byteLength (Doc.arr blank items).text)) ((Doc.arr blank items).text ++ []) =
        .ok (tags.map NostrTags.readStrings, []) :=
    array_items (f := NostrTags.readStrings) (fun _ _ => NostrTags.isTag_first) (fun _ _ rest hd => parseTag_isTag _ hd rest)
      hblank hitems []
  rw [parse]
  dsimp only
  rw [hunescaped, hskip, hread]
  rfl

/-- **The round trip of the tags.**  Whatever the strings are, `from_json` reads
back what `to_json` writes. -/
theorem parse_toJson (tags : List (List String)) : parse (NostrTags.toJson tags) = .ok tags := by
  rw [← NostrTags.text_tagsDoc, parse_isTags (NostrTags.isTags_tagsDoc tags), map_map]
  simp [Function.comp_def, NostrTags.readStrings_written]

example : parse (NostrTags.toJson [[], ["\\\x7b\"a\"", "\\u0041\n"]]) = .ok [[], ["\\\x7b\"a\"", "\\u0041\n"]] := by
  decide

end NostrTagsParser

end Nipworker
