/-
The two ways to take an `EVENT` frame apart agree (`proxy/relayProxyServer.ts`).

`FrameLayout` is any JSON text of an array that starts with the string `EVENT`, a string
and a third element, with any whitespace and any way to write the strings.
-/
import Nipworker.Proxy.EventFrameParts

namespace Nipworker.ProxyFrames

open Js JsJson List Option

variable {s : JsString} {i : ℕ}

/-! ### Plain strings -/

def Plain (lit : List StrUnit) : Prop := ∀ p ∈ lit, p.isPlain = true

instance (lit : List StrUnit) : Decidable (Plain lit) :=
  inferInstanceAs (Decidable (∀ p ∈ lit, p.isPlain = true))

variable {lit : List StrUnit} {rest : JsString} {n : JsonText.NumberLit}

theorem plain_cons {p : StrUnit} :
    Plain (p :: lit) ↔ p.isPlain = true ∧ Plain lit := forall_mem_cons

theorem literalText_plain (h : Plain lit) : literalText lit = literalValue lit := by
  induction lit with
  | nil => rfl
  | cons p lit ih =>
    obtain ⟨hp, hlit⟩ := plain_cons.mp h
    rw [literalText_cons, literalValue_cons, ih hlit]
    cases p with
    | plain u => rfl
    | short e => contradiction
    | unicode a b c d => contradiction

theorem scanPlainLoop_some {start : ℕ} {c : UInt16} (h : charCodeAt s i = some c) :
    scanPlainLoop s start i =
      if c = 92 then none
      else if c = 34 then some (slice s (start + 1) i, i + 1)
      else scanPlainLoop s start (i + 1) := by
  rw [scanPlainLoop]
  split
  · next hc =>
    rw [h] at hc
    contradiction
  · next c' hc =>
    rw [h] at hc
    rw [some.inj hc]

theorem scanPlainLoop_plain {start : ℕ} {lit : List StrUnit} (hlit : ∀ p ∈ lit, p.Wf)
    (hplain : Plain lit) {rest : JsString} (h : At s i (literalText lit ++ unit '"' :: rest)) :
    ∃ j, At s j (unit '"' :: rest) ∧
      scanPlainLoop s start i = some (slice s (start + 1) j, j + 1) := by
  induction lit generalizing i with
  | nil =>
    have hat : At s i (unit '"' :: rest) := h
    refine ⟨i, hat, ?_⟩
    rw [scanPlainLoop_some hat.charCodeAt_cons, if_neg (by decide), if_pos (by decide)]
  | cons p lit ih =>
    obtain ⟨hp, hrest⟩ := plain_cons.mp hplain
    cases p with
    | plain u =>
      obtain ⟨hquote, hback, -⟩ : u ≠ 34 ∧ u ≠ 92 ∧ 32 ≤ u := hlit _ mem_cons_self
      have hat : At s i (u :: (literalText lit ++ unit '"' :: rest)) := h
      obtain ⟨j, hj, heq⟩ := ih (fun q hq => hlit q (mem_cons_of_mem _ hq)) hrest hat.next
      refine ⟨j, hj, ?_⟩
      rw [scanPlainLoop_some hat.charCodeAt_cons, if_neg hback, if_neg hquote, heq]
    | short e => contradiction
    | unicode a b c d => contradiction

theorem scanPlainLoop_escaped {start : ℕ} (hlit : ∀ p ∈ lit, p.Wf)
    (hplain : ¬ Plain lit) (h : At s i (literalText lit ++ rest)) :
    scanPlainLoop s start i = none := by
  induction lit generalizing i with
  | nil => exact absurd (fun p hp => absurd hp not_mem_nil) hplain
  | cons p lit ih =>
    rw [plain_cons, not_and] at hplain
    rw [literalText_cons, append_assoc] at h
    have hescape : ∀ t, At s i (92 :: t) → scanPlainLoop s start i = none := by
      intro t hat
      rw [scanPlainLoop_some hat.charCodeAt_cons, if_pos rfl]
    cases p with
    | plain u =>
      obtain ⟨hquote, hback, -⟩ : u ≠ 34 ∧ u ≠ 92 ∧ 32 ≤ u := hlit _ mem_cons_self
      have hat : At s i (u :: (literalText lit ++ rest)) := h
      rw [scanPlainLoop_some hat.charCodeAt_cons, if_neg hback, if_neg hquote]
      exact ih (fun q hq => hlit q (mem_cons_of_mem _ hq)) (hplain rfl) hat.next
    | short e => exact hescape _ h
    | unicode a b c d => exact hescape _ h

/-- **A string is scanned to its value**, or not at all when it is written with an
escape. -/
theorem scanPlainJsonString_at (hlit : ∀ p ∈ lit, p.Wf)
    (h : At s i (unit '"' :: (literalText lit ++ unit '"' :: rest))) :
    if Plain lit then ∃ after, scanPlainJsonString s i = some (literalValue lit, after) ∧
      At s after rest
    else scanPlainJsonString s i = none := by
  have hquote : ¬ charCodeAt s i ≠ some 34 := fun hne => hne h.charCodeAt_cons
  rw [scanPlainJsonString, if_neg hquote]
  by_cases hplain : Plain lit
  · rw [if_pos hplain]
    obtain ⟨j, hj, heq⟩ := @scanPlainLoop_plain s _ i lit hlit hplain _ h.next
    refine ⟨j + 1, ?_, hj.next⟩
    rw [heq, h.next.slice_eq hj, literalText_plain hplain]
  · rw [if_neg hplain]
    exact scanPlainLoop_escaped hlit hplain h.next

/-! ### The kind -/

/-- The literal `EVENT` without escapes. -/
def eventLiteral : List StrUnit := eventKind.map StrUnit.plain

theorem literalText_eventLiteral : literalText eventLiteral = eventKind := by decide

theorem literal_unique {lit' : List StrUnit} (h : ∀ p ∈ lit, p.Wf) (h' : ∀ p ∈ lit', p.Wf)
    {rest' : JsString}
    (heq : literalText lit ++ unit '"' :: rest = literalText lit' ++ unit '"' :: rest') :
    literalText lit = literalText lit' ∧ rest = rest' := by
  have hread := readString_literal h rest
  rw [heq, readString_literal h'] at hread
  obtain rfl := (Prod.mk.inj (some.inj hread)).2
  exact ⟨append_cancel_right heq, rfl⟩

theorem wf_eventLiteral : ∀ p ∈ eventLiteral, p.Wf := by
  have hall : eventKind.all (fun u => u ≠ unit '"' ∧ u ≠ unit '\\' ∧ 32 ≤ u) = true := by
    decide
  intro p hp
  obtain ⟨u, hu, rfl⟩ := List.mem_map.mp hp
  show u ≠ unit '"' ∧ u ≠ unit '\\' ∧ 32 ≤ u
  exact of_decide_eq_true (List.all_eq_true.mp hall u hu)

theorem literalText_eq_event (hvalue : literalValue lit = eventKind) : literalText lit = eventKind ↔ Plain lit := by
  constructor
  · intro heq p hp
    cases hplain : p.isPlain with
    | true => rfl
    | false =>
      -- an escape would put a backslash into the word
      have hback : (92 : UInt16) ∈ literalText lit := by
        refine List.mem_flatMap.mpr ⟨p, hp, ?_⟩
        cases p with
        | plain u => contradiction
        | short e => exact mem_cons_self
        | unicode a b c d => exact mem_cons_self
      rw [heq] at hback
      exact absurd hback (by decide)
  · intro hplain
    rw [literalText_plain hplain, hvalue]

/-- **The kind is recognised** exactly when it is written without escapes. -/
theorem startsWith_event {kind : List StrUnit} (hkind : ∀ p ∈ kind, p.Wf)
    (h : At s i (unit '"' :: (literalText kind ++ unit '"' :: rest))) :
    startsWith s eventToken i = true ↔ literalText kind = eventKind := by
  rw [h.startsWith_eq, isPrefixOf_iff_prefix]
  have htoken : eventToken = unit '"' :: (eventKind ++ [unit '"']) := rfl
  rw [htoken]
  constructor
  · rintro ⟨rest', heq⟩
    rw [cons_append, append_assoc, singleton_append,
      ← literalText_eventLiteral] at heq
    have htail := (List.cons.inj heq).2
    rw [← literalText_eventLiteral]
    exact (literal_unique wf_eventLiteral hkind htail).1.symm
  · intro heq
    exact ⟨rest, by rw [heq, cons_append, append_assoc, singleton_append]⟩

/-! ### Frames -/

/-- A JSON text of an array of a string, a string, a value and more, with its layout. -/
structure FrameLayout where
  lead : JsString
  blank : JsString
  beforeKind : JsString
  kind : List StrUnit
  afterKind : JsString
  beforeSub : JsString
  sub : List StrUnit
  afterSub : JsString
  beforeValue : JsString
  value : Doc
  afterValue : JsString
  rest : Items
  trail : JsString

namespace FrameLayout

def doc (f : FrameLayout) : Doc :=
  .arr f.blank (.cons f.beforeKind (.str f.kind) f.afterKind
    (.cons f.beforeSub (.str f.sub) f.afterSub
      (.cons f.beforeValue f.value f.afterValue f.rest)))

def text (f : FrameLayout) : JsString := f.lead ++ (f.doc.text ++ f.trail)

def subId (f : FrameLayout) : JsString := literalValue f.sub

/-- The text is JSON and the frame is an `EVENT`. -/
structure Valid (f : FrameLayout) : Prop where
  lead : Blank f.lead
  trail : Blank f.trail
  json : f.doc.Json
  event : literalValue f.kind = eventKind

variable {f : FrameLayout}

def tail (f : FrameLayout) : JsString :=
  f.afterValue ++ (f.rest.comma ++ (f.rest.text ++ unit ']' :: f.trail))

def fromValue (f : FrameLayout) : JsString := f.beforeValue ++ (f.value.text ++ f.tail)

def fromSub (f : FrameLayout) : JsString :=
  f.beforeSub ++ unit '"' :: (literalText f.sub ++ unit '"' :: (f.afterSub ++
    unit ',' :: f.fromValue))

theorem text_eq (f : FrameLayout) :
    f.text = f.lead ++ unit '[' :: (f.blank ++ (f.beforeKind ++
      unit '"' :: (literalText f.kind ++ unit '"' :: (f.afterKind ++ unit ',' :: f.fromSub)))) := by
  simp only [text, doc, Doc.text, Items.text, Items.comma, fromSub, fromValue, tail,
    append_assoc, cons_append, nil_append]

theorem tail_delimiter (h : Blank f.afterValue) :
    ∃ u t, f.tail = u :: t ∧ isDelimiter u = true := by
  rw [tail]
  cases hafter : f.afterValue with
  | nil =>
    cases f.rest with
    | nil => exact ⟨_, _, rfl, by decide⟩
    | cons before value after rest => exact ⟨_, _, rfl, by decide⟩
  | cons u t =>
    rw [hafter] at h
    refine ⟨_, _, rfl, ?_⟩
    rw [isDelimiter, decide_eq_true_eq]
    exact .inr (.inr (h u mem_cons_self))

end FrameLayout

variable {f : FrameLayout}

theorem skip_to {blank : JsString} (hblank : Blank blank) {u : UInt16} (hu : isJsonWs u = false)
    (h : At s i (blank ++ u :: rest)) : At s (skipJsonWhitespace s i) (u :: rest) := by
  have := skipJsonWhitespace_at h
  rwa [skipWs_append hblank, skipWs_cons hu] at this

theorem blank_append {a b : JsString} (ha : Blank a) (hb : Blank b) : Blank (a ++ b) := by
  intro u hu
  rcases List.mem_append.mp hu with hu | hu
  · exact ha u hu
  · exact hb u hu

/-- **The scanners on a frame**: the second element and the text of the third one, unless
one of the first two strings is written with an escape. -/
theorem extractEventFrameParts_text (h : f.Valid) :
    extractEventFrameParts f.text =
      if Plain f.kind ∧ Plain f.sub then some { subId := f.subId, payload := f.value.text }
      else none := by
  obtain ⟨hlead, htrail, ⟨hblank, hbeforeKind, hkind, hafterKind, hbeforeSub, hsub, hafterSub,
    hbeforeValue, hvalue, hafterValue, hrest⟩, hevent⟩ := h
  have hbracket : At f.text (skipJsonWhitespace f.text 0) (unit '[' :: (f.blank ++ (f.beforeKind ++
      unit '"' :: (literalText f.kind ++ unit '"' :: (f.afterKind ++ unit ',' :: f.fromSub))))) := by
    refine skip_to hlead (by decide) ?_
    rw [← f.text_eq]
    exact at_zero f.text
  have hquote := hbracket.next
  rw [← append_assoc] at hquote
  have hquote := skip_to (blank_append hblank hbeforeKind) (by decide) hquote
  have hword := startsWith_event hkind hquote
  rw [literalText_eq_event hevent] at hword
  have hne : ∀ {k : ℕ} {u : UInt16} {t : JsString}, At f.text k (u :: t) →
      ¬ charCodeAt f.text k ≠ some u := fun hat hne => hne hat.charCodeAt_cons
  rw [extractEventFrameParts]
  dsimp only
  rw [if_neg (show ¬ charCodeAt f.text (skipJsonWhitespace f.text 0) ≠ some 91 from hne hbracket)]
  by_cases hplain : Plain f.kind
  · -- the kind is as long as the token without its quotes
    have htoken := hword.mpr hplain
    rw [htoken, Bool.not_true, if_neg Bool.false_ne_true]
    have hparts : unit '"' :: (literalText f.kind ++ unit '"' :: (f.afterKind ++
        unit ',' :: f.fromSub)) = eventToken ++ (f.afterKind ++ unit ',' :: f.fromSub) := by
      rw [literalText_plain hplain, hevent]
      rfl
    rw [hparts] at hquote
    have hcomma : At f.text _ (44 :: f.fromSub) :=
      skip_to hafterKind (by decide) (hquote.advance eventToken)
    rw [if_neg (hne hcomma)]
    have hat := skip_to hbeforeSub (by decide) hcomma.next
    have hscan := scanPlainJsonString_at hsub hat
    by_cases hplainSub : Plain f.sub
    · rw [if_pos hplainSub] at hscan
      obtain ⟨after, hscan, hafter⟩ := hscan
      rw [hscan]
      dsimp only
      have hcomma' : At f.text _ (44 :: f.fromValue) := skip_to hafterSub (by decide) hafter
      rw [if_neg (hne hcomma'), if_pos ⟨hplain, hplainSub⟩]
      have hpayload := skipJsonWhitespace_at hcomma'.next
      rw [FrameLayout.fromValue, skipWs_append hbeforeValue, hvalue.skipWs] at hpayload
      obtain ⟨u, t, htail, hu⟩ := FrameLayout.tail_delimiter hafterValue
      rw [htail] at hpayload
      obtain ⟨stop, hstop, hend⟩ := scanJsonValueEnd_at hvalue hu hpayload
      rw [hstop, map_some, hpayload.slice_eq hend]
      rfl
    · rw [if_neg hplainSub] at hscan
      rw [hscan, if_neg fun hboth => hplainSub hboth.2]
  · have htoken : startsWith f.text eventToken
        (skipJsonWhitespace f.text (skipJsonWhitespace f.text 0 + 1)) = false := by
      rw [← Bool.not_eq_true]
      exact fun heq => hplain (hword.mp heq)
    rw [htoken, Bool.not_false, if_pos rfl, if_neg fun hboth => hplain hboth.1]

/-! ### The full parse -/

variable {N : Type} (E : Numbers N)

theorem parse_frame (h : f.Valid) :
    parse E f.text =
      some (.arr (.str eventKind :: .str f.subId :: f.value.value E :: f.rest.values E)) := by
  rw [FrameLayout.text, parse_text E h.json h.lead h.trail, FrameLayout.doc, Doc.value,
    Items.values, Items.values, Items.values, Doc.value, Doc.value, h.event]
  rfl

/-- The full parse takes frames with a third element that is an object or an array, and a
second one that is not empty. -/
theorem parseEventFrameFallback_text (h : f.Valid) :
    parseEventFrameFallback E f.text =
      if f.subId ≠ [] ∧ isObject (f.value.value E) = true then
        some { subId := f.subId, payload := stringify E (f.value.value E) }
      else none := by
  rw [parseEventFrameFallback, parseRelayFrame, parse_frame E h]
  dsimp only
  by_cases hboth : f.subId ≠ [] ∧ isObject (f.value.value E) = true
  · rw [if_pos hboth, if_pos ⟨rfl, hboth⟩]
  · rw [if_neg hboth, if_neg fun hall => hboth hall.2]

/-! ### Agreement -/

/-- Every position that a scanner returns lies in the text, and everything that is taken
out of it is a slice of it. -/
structure WithinBounds (s : JsString) : Prop where
  whitespace : ∀ i ≤ s.length, i ≤ skipJsonWhitespace s i ∧ skipJsonWhitespace s i ≤ s.length
  kind : ∀ kind, sniffFrameKind s = some kind →
    ∃ start stop, start ≤ stop ∧ stop ≤ s.length ∧ kind = slice s start stop
  string : ∀ i value after, scanPlainJsonString s i = some (value, after) →
    i + 1 < after ∧ after ≤ s.length ∧ value = slice s (i + 1) (after - 1)
  value : ∀ i stop, scanJsonValueEnd s i = some stop → i ≤ stop ∧ stop ≤ s.length
  parts : ∀ parts, extractEventFrameParts s = some parts →
    (∃ start stop, start ≤ stop ∧ stop ≤ s.length ∧ parts.subId = slice s start stop) ∧
      ∃ start stop, start ≤ stop ∧ stop ≤ s.length ∧ parts.payload = slice s start stop

theorem withinBounds (s : JsString) : WithinBounds s where
  whitespace i hi := ⟨(skipJsonWhitespace_bounds s i).1, (skipJsonWhitespace_bounds s i).2 hi⟩
  kind kind h := by
    rw [sniffFrameKind] at h
    split at h
    · contradiction
    dsimp only at h
    split at h
    · contradiction
    obtain ⟨stop, hle, hlt, heq⟩ := sniffLoop_bounds h
    exact ⟨_, stop, hle, Nat.le_of_lt hlt, heq⟩
  string _ _ _ h := scanPlainJsonString_bounds h
  value _ _ h := scanJsonValueEnd_bounds h
  parts _ h := extractEventFrameParts_bounds h

/-- **The two ways agree** on every frame that is JSON: what the scanners find is what is
parsed, with the source text of the third element; where they give up, the full parse gives
the same id and a text that is parsed to the same value, if the id is not empty and the
numbers of the value are finite.  On any text the scanners stay within it. -/
theorem frame_parts_agree {N : Type} (E : Numbers N) :
    (∀ f : FrameLayout, f.Valid →
      parse E f.text =
          some (.arr (.str eventKind :: .str f.subId :: f.value.value E :: f.rest.values E)) ∧
        (∀ parts, extractEventFrameParts f.text = some parts →
          parts.subId = f.subId ∧ parts.payload = f.value.text) ∧
        (extractEventFrameParts f.text = none → f.subId ≠ [] →
          isObject (f.value.value E) = true → (f.value.value E).Finite E →
          ∃ payload, parseEventFrameFallback E f.text = some { subId := f.subId, payload } ∧
            parse E payload = some (f.value.value E))) ∧
      ∀ s, WithinBounds s := by
  refine ⟨fun f h => ⟨parse_frame E h, fun parts hparts => ?_, fun _ hsub hobject hfinite => ?_⟩,
    withinBounds⟩
  · rw [extractEventFrameParts_text h] at hparts
    split at hparts
    · rw [← some.inj hparts]
      exact ⟨rfl, rfl⟩
    · contradiction
  · refine ⟨_, ?_, parse_stringify E hfinite (ordered_value E f.value)⟩
    rw [parseEventFrameFallback_text E h, if_pos ⟨hsub, hobject⟩]

/-! ### Samples -/

def oneDigit : Numbers (Option (Fin 10)) where
  ofLiteral n :=
    if n.minus = false ∧ n.frac = [] ∧ n.exp = none ∧ n.int.length = 1 then
      some (Fin.ofNat 10 (Nat.ofDigitChars 10 n.int 0))
    else none
  isFinite := Option.isSome
  toLiteral x := { minus := false, int := [Nat.digitChar (x.getD 0)], frac := [], exp := none }
  toLiteral_wf x _ := by
    refine ⟨cons_ne_nil _ _, fun c hc => ?_, fun h => ?_, fun c hc => ?_, fun e he => ?_⟩
    · rw [List.mem_singleton.mp hc]
      generalize x.getD 0 = d
      revert d
      decide
    · exact congrArg (· :: []) (some.inj h)
    · contradiction
    · contradiction
  ofLiteral_toLiteral x hx := by
    obtain ⟨d, rfl⟩ := Option.isSome_iff_exists.mp hx
    revert d
    decide

def compactFrame (kind sub : List StrUnit) (value : Doc) : FrameLayout where
  lead := []
  blank := []
  beforeKind := []
  kind := kind
  afterKind := []
  beforeSub := []
  sub := sub
  afterSub := []
  beforeValue := []
  value := value
  afterValue := []
  rest := .nil
  trail := []

theorem valid_compactFrame {kind sub : List StrUnit} {value : Doc} (hkind : ∀ p ∈ kind, p.Wf)
    (hsub : ∀ p ∈ sub, p.Wf) (hvalue : value.Json) (hevent : literalValue kind = eventKind) :
    (compactFrame kind sub value).Valid :=
  ⟨blank_nil, blank_nil, ⟨blank_nil, blank_nil, hkind, blank_nil, blank_nil, hsub, blank_nil,
    blank_nil, hvalue, blank_nil, trivial⟩, hevent⟩

/-- The escape for a letter below `P`. -/
def escapedLetter (low : Char) : StrUnit := .unicode 48 48 (unit '4') (unit low)

def escapedEvent : List StrUnit := escapedLetter '5' :: eventLiteral.tail

def numberObject (n : JsonText.NumberLit) : Doc :=
  .obj [] (.cons [] [.plain (unit 'a')] [] [] (.num n) [] .nil)

theorem json_numberObject (h : n.Wf) : (numberObject n).Json := by
  refine ⟨blank_nil, blank_nil, fun p hp => ?_, blank_nil, blank_nil, h, blank_nil, trivial⟩
  rw [List.mem_singleton.mp hp]
  show unit 'a' ≠ unit '"' ∧ unit 'a' ≠ unit '\\' ∧ 32 ≤ unit 'a'
  decide

theorem wf_escapedEvent : ∀ p ∈ escapedEvent, p.Wf := by
  intro p hp
  rcases List.mem_cons.mp hp with rfl | hp
  · show (hex4 48 48 (unit '4') (unit '5')).isSome = true
    decide
  · exact wf_eventLiteral p (mem_of_mem_tail hp)

/-- The subscription id `A`, escaped. -/
def escapedSub : List StrUnit := [escapedLetter '1']

theorem wf_escapedSub : ∀ p ∈ escapedSub, p.Wf := by
  intro p hp
  rw [List.mem_singleton.mp hp]
  show (hex4 48 48 (unit '4') (unit '1')).isSome = true
  decide

/-- The literal `1`. -/
def oneLiteral : JsonText.NumberLit := { minus := false, int := ['1'], frac := [], exp := none }

theorem wf_oneLiteral : oneLiteral.Wf := by
  refine ⟨cons_ne_nil _ _, fun c hc => ?_, fun h => ?_, fun c hc => ?_, fun e he => ?_⟩
  · rw [List.mem_singleton.mp hc]
    decide
  · exact absurd (some.inj h) (by decide)
  · contradiction
  · contradiction

/-- The literal `1e400`. -/
def hugeLiteral : JsonText.NumberLit :=
  { minus := false, int := ['1'], frac := [], exp := some ('e', [], ['4', '0', '0']) }

theorem wf_hugeLiteral : hugeLiteral.Wf := by
  refine ⟨cons_ne_nil _ _, wf_oneLiteral.int_digits, wf_oneLiteral.int_zero,
    wf_oneLiteral.frac_digits, fun e he => ?_⟩
  rw [← some.inj he]
  refine ⟨.inl rfl, .inl rfl, cons_ne_nil _ _, List.all_eq_true.mp (by decide)⟩

/-- A frame with an escape in its id and an object with a number. -/
def escapedFrame (n : JsonText.NumberLit) : FrameLayout :=
  compactFrame eventLiteral escapedSub (numberObject n)

/-- A frame with an escape in its kind and without an id. -/
def namelessFrame : FrameLayout := compactFrame escapedEvent [] (.obj [] .nil)

example : namelessFrame.text = units ['[', '"', '\\', 'u', '0', '0', '4', '5', 'V', 'E', 'N', 'T',
    '"', ',', '"', '"', ',', '{', '}', ']'] := by decide

theorem valid_escapedFrame (h : n.Wf) : (escapedFrame n).Valid :=
  valid_compactFrame wf_eventLiteral wf_escapedSub (json_numberObject h) (by decide)

theorem valid_namelessFrame : namelessFrame.Valid :=
  valid_compactFrame wf_escapedEvent (fun p hp => absurd hp not_mem_nil)
    ⟨blank_nil, trivial⟩ (by decide)

theorem extract_escapedFrame (h : n.Wf) : extractEventFrameParts (escapedFrame n).text = none := by
  rw [extractEventFrameParts_text (valid_escapedFrame h), if_neg]
  rintro ⟨-, hplain⟩
  exact absurd (hplain _ mem_cons_self) (by decide)

theorem frame_parts_agree_sample :
    ∃ payload, parseEventFrameFallback oneDigit (escapedFrame oneLiteral).text =
        some { subId := [65], payload } ∧
      parse oneDigit payload = some ((numberObject oneLiteral).value oneDigit) :=
  ((frame_parts_agree oneDigit).1 _ (valid_escapedFrame wf_oneLiteral)).2.2
    (extract_escapedFrame wf_oneLiteral) (cons_ne_nil _ _) rfl ⟨rfl, trivial⟩

/-- Without an id the full parse gives nothing, and a number that is too large is written as
null. -/
theorem parts_disagree :
    (namelessFrame.Valid ∧ extractEventFrameParts namelessFrame.text = none ∧
      isObject (namelessFrame.value.value oneDigit) = true ∧
      parseEventFrameFallback oneDigit namelessFrame.text = none) ∧
    ((escapedFrame hugeLiteral).Valid ∧
      extractEventFrameParts (escapedFrame hugeLiteral).text = none ∧
      isObject ((escapedFrame hugeLiteral).value.value oneDigit) = true ∧
      ∃ payload, parseEventFrameFallback oneDigit (escapedFrame hugeLiteral).text =
          some { subId := [65], payload } ∧
        parse oneDigit payload = some (.obj [([97], .null)]) ∧
        parse oneDigit payload ≠ some ((escapedFrame hugeLiteral).value.value oneDigit)) := by
  refine ⟨⟨valid_namelessFrame, ?_, rfl, ?_⟩, valid_escapedFrame wf_hugeLiteral,
    extract_escapedFrame wf_hugeLiteral, rfl,
    stringify oneDigit ((escapedFrame hugeLiteral).value.value oneDigit), ?_, rfl, fun h => ?_⟩
  · rw [extractEventFrameParts_text valid_namelessFrame, if_neg]
    rintro ⟨hplain, -⟩
    exact absurd (hplain _ mem_cons_self) (by decide)
  · rw [parseEventFrameFallback_text oneDigit valid_namelessFrame, if_neg]
    exact fun hboth => hboth.1 rfl
  · rw [parseEventFrameFallback_text oneDigit (valid_escapedFrame wf_hugeLiteral),
      if_pos ⟨cons_ne_nil _ _, rfl⟩]
    rfl
  · -- null is not the number
    have hread : parse oneDigit (stringify oneDigit ((escapedFrame hugeLiteral).value.value
        oneDigit)) = some (.obj [([97], .null)]) := rfl
    rw [hread] at h
    injection h with h
    injection h with h
    injection h with h
    injection h with _ h
    contradiction

end Nipworker.ProxyFrames
