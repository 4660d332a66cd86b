/-
Frames that are JSON arrays (`transport/frame_scan.rs`).

A relay frame is an array whose first element is a string.  Whatever the elements are and
however they are written, the scanner returns the first four as they stand in the text.
-/
import Nipworker.Lib.JsonGrammar
import Nipworker.Transport.FrameBytes

namespace Nipworker

open JsonText List

def ScannedValue.ofDoc (d : Doc) : ScannedValue := { raw := d.text, isString := d.isString }

/-- What ends a token that is no string. -/
def EndsToken (text : List Char) : Prop := ∃ c rest, text = c :: rest ∧ endsPrimitive c = true

theorem endsPrimitive_of_ws {c : Char} (h : isWs c = true) : endsPrimitive c = true := by
  rw [isWs, decide_eq_true_eq] at h
  rcases h with rfl | rfl | rfl | rfl <;> decide

theorem endsToken_gap {gap : List Char} (hgap : Blank gap) (items : Items) (rest : List Char) :
    EndsToken (gap ++ (items.comma ++ (items.text ++ ']' :: rest))) := by
  cases gap with
  | nil =>
    cases items with
    | nil => exact ⟨']', _, rfl, by decide⟩
    | cons before value after more => exact ⟨',', _, rfl, by decide⟩
  | cons c gap => exact ⟨c, _, rfl, endsPrimitive_of_ws (hgap c mem_cons_self)⟩

theorem scanNested_bracket {opening closing : Char} {inner : List Char}
    (hopen : opening = '{' ∨ opening = '[') (hclose : closing = '}' ∨ closing = ']')
    (hinner : Passes inner) (rest : List Char) :
    scanNested 0 .outside (opening :: (inner ++ closing :: rest)) =
      some (opening :: (inner ++ [closing]), rest) := by
  have hq : opening ≠ '"' := by rcases hopen with rfl | rfl <;> decide
  have hq' : closing ≠ '"' := by rcases hclose with rfl | rfl <;> decide
  have ho' : ¬ (closing = '{' ∨ closing = '[') := by rcases hclose with rfl | rfl <;> decide
  rw [scanNested, if_neg hq, if_pos hopen, hinner 1 _ le_rfl, scanNested, if_neg hq', if_neg ho',
    if_pos hclose, if_pos (by omega)]
  rfl

theorem scanElement_bracket {opening closing : Char} {inner : List Char}
    (hopen : opening = '{' ∨ opening = '[') (hclose : closing = '}' ∨ closing = ']')
    (hinner : Passes inner) (rest : List Char) :
    scanElement (opening :: (inner ++ closing :: rest)) =
      some ({ raw := opening :: (inner ++ [closing]), isString := false }, rest) := by
  have hq : opening ≠ '"' := by rcases hopen with rfl | rfl <;> decide
  rw [scanElement, if_neg hq, if_pos hopen, scanNested_bracket hopen hclose hinner]
  rfl

/-- **One element** is cut off as it stands. -/
theorem scanElement_doc {d : Doc} (h : d.Json) {rest : List Char} (hrest : EndsToken rest) :
    scanElement (d.text ++ rest) = some (.ofDoc d, rest) := by
  cases d with
  | atom text =>
    obtain ⟨hne, htokens⟩ := IsAtom.tokens h
    obtain ⟨c, more, rfl, hc⟩ := hrest
    have hin : ∀ d ∈ text, (!endsPrimitive d) = true := by
      intro d hd
      have hends : endsPrimitive d = false := by
        rw [endsPrimitive, decide_eq_false_iff_not]
        have htoken := htokens d hd
        rintro (rfl | rfl | rfl | rfl | rfl | rfl) <;> exact absurd htoken (by decide)
      rw [hends, Bool.not_false]
    have htake : (text ++ c :: more).takeWhile (fun d => !endsPrimitive d) = text := by
      rw [takeWhile_append_of_pos hin, takeWhile_cons_of_neg (by simp [hc]),
        append_nil]
    have hdrop : (text ++ c :: more).dropWhile (fun d => !endsPrimitive d) = c :: more := by
      rw [dropWhile_append_of_pos hin, dropWhile_cons_of_neg (by simp [hc])]
    show scanElement (text ++ c :: more) = _
    cases text with
    | nil => exact absurd rfl hne
    | cons t ts =>
      have htoken := htokens t mem_cons_self
      rw [cons_append] at htake hdrop ⊢
      rw [scanElement, if_neg (token_ne htoken (by decide)), if_neg]
      · simp only [htake, hdrop, if_neg hne]
        rfl
      · rintro (rfl | rfl) <;> exact absurd htoken (by decide)
  | str lit =>
    have hscan : scanElement ('"' :: (literalText lit ++ '"' :: rest)) =
        some (ScannedValue.literal lit, rest) := scanElement_literal h rest
    show scanElement (('"' :: (literalText lit ++ ['"'])) ++ rest) = _
    rw [cons_append, append_assoc]
    exact hscan
  | arr blank items =>
    have hinner := (Passes.blank h.1).append (Passes.items (Items.Json.wf h.2))
    have hscan := scanElement_bracket (.inr rfl) (.inr rfl) hinner rest
    simpa [Doc.text, ScannedValue.ofDoc, Doc.isString] using hscan
  | obj blank members =>
    have hinner := (Passes.blank h.1).append (Passes.members (Members.Json.wf h.2))
    have hscan := scanElement_bracket (.inl rfl) (.inl rfl) hinner rest
    simpa [Doc.text, ScannedValue.ofDoc, Doc.isString] using hscan

theorem doc_head {d : Doc} (h : d.Json) :
    ∃ c rest, d.text = c :: rest ∧ isAsciiWhitespace c = false ∧ c ≠ ']' := by
  cases d with
  | atom text =>
    obtain ⟨hne, htokens⟩ := IsAtom.tokens h
    cases text with
    | nil => exact absurd rfl hne
    | cons t ts =>
      have htoken := htokens t mem_cons_self
      refine ⟨t, ts, rfl, ?_, token_ne htoken (by decide)⟩
      rw [isAsciiWhitespace, decide_eq_false_iff_not]
      rintro (rfl | rfl | rfl | rfl | rfl) <;> exact absurd htoken (by decide)
  | str lit => exact ⟨'"', _, rfl, by decide, by decide⟩
  | arr blank items => exact ⟨'[', _, rfl, by decide, by decide⟩
  | obj blank members => exact ⟨'{', _, rfl, by decide, by decide⟩

theorem skipWs_doc {gap : List Char} (hgap : Blank gap) {d : Doc} (h : d.Json)
    (rest : List Char) : skipWs (gap ++ (d.text ++ rest)) = d.text ++ rest := by
  obtain ⟨c, more, htext, hc, -⟩ := doc_head h
  rw [htext, cons_append]
  exact skipWs_append hgap hc (more ++ rest)

/-- **The loop over the elements** behind the kind. -/
theorem scanArgs_items (filled : ℕ) : ∀ {items : Items} {gap : List Char} (rest : List Char),
    items.Json → Blank gap →
      scanArgs filled (gap ++ (items.comma ++ (items.text ++ ']' :: rest))) =
        (items.values.take filled).map ScannedValue.ofDoc := by
  induction filled with
  | zero => exact fun _ _ _ => rfl
  | succ filled ih =>
    intro items gap rest hitems hgap
    cases items with
    | nil =>
      show scanArgs (filled + 1) (gap ++ ']' :: rest) = []
      rw [scanArgs, skipWs_append hgap (by decide)]
      simp only
      rw [if_pos (by decide)]
    | cons before value after more =>
      obtain ⟨hbefore, hvalue, hafter, hmore⟩ := hitems
      have htext : (Items.cons before value after more).text ++ ']' :: rest =
          before ++ (value.text ++ (after ++ (more.comma ++ (more.text ++ ']' :: rest)))) := by
        simp [Items.text]
      obtain ⟨c, tail, hhead, -, hc⟩ := doc_head hvalue
      rw [htext, show (Items.cons before value after more).comma = [','] from rfl,
        singleton_append, scanArgs, skipWs_append hgap (by decide)]
      simp only
      rw [if_neg (by decide), skipWs_doc hbefore hvalue]
      have hscan := scanElement_doc hvalue (endsToken_gap hafter more rest)
      rw [hhead, cons_append] at hscan ⊢
      simp only
      rw [if_neg hc, hscan]
      simp only
      rw [ih rest hmore hafter]
      rfl

/-- **Scanning a frame.**  A JSON array whose first element is a string, with any whitespace
around it and anything behind it: the kind is what stands between the quotes of the first
element, and the arguments are the next three elements as they stand.  And no text at all
makes the scanner panic. -/
theorem scanRelayFrame_array :
    (∀ (before blank gap after rest : List Char) (kind : List Piece) (items : Items), Blank before →
      (Doc.arr blank (.cons gap (.str kind) after items)).Json →
      FrameBytes.scanRelayFrame (Utf8.encode (String.ofList
          (before ++ ((Doc.arr blank (.cons gap (.str kind) after items)).text ++ rest)))) =
        .ok (some
          { kind := Utf8.bytes (literalText kind)
            args := (items.values.take 3).map fun d =>
              { raw := Utf8.bytes d.text, isString := d.isString } })) ∧
    ∀ text : String, ∃ found, FrameBytes.scanRelayFrame (Utf8.encode text) = .ok found := by
  refine ⟨fun before blank gap after rest kind items hbefore hjson => ?_, fun text => ?_⟩
  · obtain ⟨hblank, hgap, hkind, hafter, hitems⟩ := hjson
    have htext : before ++ ((Doc.arr blank (.cons gap (.str kind) after items)).text ++ rest) =
        before ++ '[' :: ((blank ++ gap) ++ '"' :: (literalText kind ++ '"' ::
          (after ++ (items.comma ++ (items.text ++ ']' :: rest))))) := by
      simp [Doc.text, Items.text]
    have hinside : Blank (blank ++ gap) := fun c hc =>
      (List.mem_append.mp hc).elim (hblank c) (hgap c)
    rw [FrameBytes.scanRelayFrame_encode, scanRelayFrame, String.toList_ofList, htext,
      skipWs_append hbefore (by decide)]
    simp only
    rw [if_neg (by decide), skipWs_append hinside (by decide)]
    simp only
    rw [if_neg (by decide), scanElement_literal hkind]
    simp only
    rw [scanArgs_items 3 rest hitems hafter, ScannedValue.inner_literal, Option.map_some]
    simp only [FrameBytes.Frame.of, map_map]
    rfl
  · exact ⟨_, FrameBytes.scanRelayFrame_encode text⟩

/-- ` "a\"", {"k":[1]} , true ` behind a kind. -/
def mixedItems : Items :=
  .cons [' '] (.str [.plain 'a', .short .quote]) []
    (.cons [] (.obj [] (compactMember "k" (.arr [] (.cons [] (.atom ['1']) [] .nil)) .nil)) [' ']
      (.cons [] (.atom ['t', 'r', 'u', 'e']) [' '] .nil))

theorem mixedItems_json :
    (Doc.arr [] (.cons [] (.str (plainLiteral "OK".toList)) [] mixedItems)).Json := by
  have hspace : Blank [' '] := fun c hc => by rw [List.mem_singleton.mp hc]; decide
  have hone : IsAtom ['1'] := by
    refine .inr (.inr (.inr ⟨⟨false, ['1'], [], none⟩, ?_, rfl⟩))
    exact ⟨by decide, by simp, by decide, by simp, fun e he => by contradiction⟩
  have hstring : ∀ p ∈ [Piece.plain 'a', Piece.short .quote], p.Wf := by
    intro p hp
    rcases List.mem_cons.mp hp with rfl | hlast
    · exact ⟨by decide, by decide, by decide⟩
    · rw [List.mem_singleton.mp hlast]
      trivial
  refine ⟨blank_nil, blank_nil, wf_plainLiteral (by decide), blank_nil, hspace, hstring, blank_nil,
    blank_nil, ⟨blank_nil, ?_⟩, hspace, blank_nil, .inl rfl, hspace, trivial⟩
  exact ⟨blank_nil, wf_plainLiteral (by decide), blank_nil, blank_nil,
    ⟨blank_nil, blank_nil, hone, blank_nil, trivial⟩, blank_nil, trivial⟩

theorem scanRelayFrame_array_sample :
    FrameBytes.scanRelayFrame (Utf8.encode (String.ofList ([] ++
        ((Doc.arr [] (.cons [] (.str (plainLiteral "OK".toList)) [] mixedItems)).text ++ [])))) =
      .ok (some
        { kind := Utf8.bytes (literalText (plainLiteral "OK".toList))
          args := (mixedItems.values.take 3).map fun d =>
            { raw := Utf8.bytes d.text, isString := d.isString } }) :=
  scanRelayFrame_array.1 [] [] [] [] [] _ mixedItems blank_nil mixedItems_json

end Nipworker
