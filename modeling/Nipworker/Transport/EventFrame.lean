/-
EVENT frames in any layout, and what the scanner sees of them
(`transport/frame_scan.rs`, `transport/sub_dedup.rs`).

An `EventFrame` is a JSON array of three elements, the second a subscription id
and the third an event object with one `id`, with any whitespace, any escapes and
any order of members.  The scanner cuts the object out as it stands; the event id
is then taken by a text search for `"id"`.
-/
import Nipworker.Lib.JsonDoc
import Nipworker.Types.Nostr

namespace Nipworker

open JsonText List

/-! ### Skipping a document -/

/-- `scanNested` passes over a part of the text. -/
def Passes (part : List Char) : Prop :=
  ∀ (depth : ℕ) (rest : List Char), 1 ≤ depth →
    scanNested depth .outside (part ++ rest) =
      (scanNested depth .outside rest).map fun p => (part ++ p.1, p.2)

theorem Passes.nil : Passes [] := by
  intro depth rest _
  show scanNested depth .outside rest = (scanNested depth .outside rest).map fun p => p
  rw [Option.map_id']

theorem Passes.append {a b : List Char} (ha : Passes a) (hb : Passes b) : Passes (a ++ b) := by
  intro depth rest hdepth
  rw [append_assoc, ha depth _ hdepth, hb depth rest hdepth, Option.map_map]
  refine congrArg (fun f => Option.map f _) (funext fun p => ?_)
  simp [append_assoc]

theorem Passes.plain {c : Char} (hquote : c ≠ '"') (hopen : ¬ (c = '{' ∨ c = '['))
    (hclose : ¬ (c = '}' ∨ c = ']')) : Passes [c] := by
  intro depth rest _
  show scanNested depth .outside (c :: rest) = _
  rw [scanNested, if_neg hquote, if_neg hopen, if_neg hclose]
  rfl

variable {cs : List Char}

theorem Passes.all (h : ∀ c ∈ cs, Passes [c]) : Passes cs := by
  induction cs with
  | nil => exact Passes.nil
  | cons c cs ih =>
    exact Passes.append (h c mem_cons_self) (ih fun d hd => h d (mem_cons_of_mem _ hd))

theorem Passes.blank (h : Blank cs) : Passes cs := by
  refine Passes.all fun c hc => ?_
  have hws := h c hc
  simp only [isWs, decide_eq_true_eq] at hws
  rcases hws with rfl | rfl | rfl | rfl <;> exact Passes.plain (by decide) (by decide) (by decide)

theorem Passes.atom (h : ∀ c ∈ cs, isAtomChar c = true) : Passes cs := by
  refine Passes.all fun c hc => ?_
  have hatom := h c hc
  simp only [isAtomChar, Bool.not_eq_true', Bool.or_eq_false_iff, beq_eq_false_iff_ne] at hatom
  obtain ⟨⟨⟨⟨⟨⟨⟨-, h1⟩, h2⟩, h3⟩, h4⟩, h5⟩, -⟩, -⟩ := hatom
  exact Passes.plain h1 (by tauto) (by tauto)

theorem scanNested_inString {inner rest : List Char} (h : skipString cs = some (inner, rest))
    (depth : ℕ) :
    scanNested depth .inString cs =
      (scanNested depth .outside rest).map fun p => (inner ++ '"' :: p.1, p.2) := by
  induction cs using skipString.induct generalizing inner rest with
  | case1 => cases h
  | case2 =>
    cases h
    rfl
  | case3 c hc =>
    rw [skipString, if_neg hc] at h
    cases h
  | case4 d tail =>
    rw [skipString, if_pos rfl] at h
    cases h
    rfl
  | case5 d tail _ ih =>
    rw [skipString, if_neg (by decide), if_pos rfl] at h
    obtain ⟨⟨inner', rest'⟩, hp, heq⟩ := Option.map_eq_some_iff.mp h
    cases heq
    show Option.map _ (Option.map _ (scanNested depth .inString tail)) = _
    rw [ih hp, Option.map_map, Option.map_map]
    rfl
  | case6 c d tail hc hback ih =>
    rw [skipString, if_neg hc, if_neg hback] at h
    obtain ⟨⟨inner', rest'⟩, hp, heq⟩ := Option.map_eq_some_iff.mp h
    cases heq
    rw [scanNested]
    simp only [if_neg hc, if_neg hback]
    rw [ih hp, Option.map_map]
    rfl

theorem Passes.literal {lit : List Piece} (h : ∀ p ∈ lit, p.Wf) :
    Passes ('"' :: (literalText lit ++ ['"'])) := by
  intro depth rest _
  rw [cons_append, append_assoc, singleton_append, scanNested, if_pos rfl,
    scanNested_inString (skipString_literal (fun p hp => (h p hp).closed) rest), Option.map_map]
  refine congrArg (fun f => Option.map f _) (funext fun p => ?_)
  simp

theorem Passes.bracket {opening closing : Char} {inner : List Char}
    (hopen : opening = '{' ∨ opening = '[') (hclose : closing = '}' ∨ closing = ']')
    (hinner : Passes inner) : Passes (opening :: (inner ++ [closing])) := by
  intro depth rest hdepth
  have hq : opening ≠ '"' := by rcases hopen with rfl | rfl <;> decide
  have hq' : closing ≠ '"' := by rcases hclose with rfl | rfl <;> decide
  have ho' : ¬ (closing = '{' ∨ closing = '[') := by rcases hclose with rfl | rfl <;> decide
  rw [cons_append, append_assoc, singleton_append, scanNested, if_neg hq,
    if_pos hopen, hinner (depth + 1) _ (by omega), scanNested, if_neg hq', if_neg ho',
    if_pos hclose, if_neg (by omega), Option.map_map, Option.map_map]
  refine congrArg (fun f => Option.map f _) (funext fun p => ?_)
  simp

theorem Passes.comma : Passes [','] := Passes.plain (by decide) (by decide) (by decide)

theorem Passes.colon : Passes [':'] := Passes.plain (by decide) (by decide) (by decide)

mutual

theorem Passes.doc : ∀ {d : Doc}, d.Wf → Passes d.text
  | .atom _, h => Passes.atom h.2
  | .str _, h => Passes.literal h
  | .arr blank items, h => by
    have hinner := (Passes.blank h.1).append (Passes.items h.2)
    have := Passes.bracket (.inr rfl) (.inr rfl) hinner
    rwa [append_assoc] at this
  | .obj blank members, h => by
    have hinner := (Passes.blank h.1).append (Passes.members h.2)
    have := Passes.bracket (.inl rfl) (.inl rfl) hinner
    rwa [append_assoc] at this

theorem Passes.items : ∀ {l : Items}, l.Wf → Passes l.text
  | .nil, _ => Passes.nil
  | .cons before value after rest, h => by
    obtain ⟨hbefore, hvalue, hafter, hrest⟩ := h
    have hcomma : Passes rest.comma := by
      cases rest with
      | nil => exact Passes.nil
      | cons => exact Passes.comma
    exact (Passes.blank hbefore).append ((Passes.doc hvalue).append
      ((Passes.blank hafter).append (hcomma.append (Passes.items hrest))))

theorem Passes.members : ∀ {l : Members}, l.Wf → Passes l.text
  | .nil, _ => Passes.nil
  | .cons before key afterKey beforeValue value after rest, h => by
    obtain ⟨hbefore, hkey, hafterKey, hbeforeValue, hvalue, hafter, hrest⟩ := h
    have hcomma : Passes rest.comma := by
      cases rest with
      | nil => exact Passes.nil
      | cons => exact Passes.comma
    have hlit := Passes.literal hkey
    have := (Passes.blank hbefore).append (hlit.append ((Passes.blank hafterKey).append
      (Passes.colon.append ((Passes.blank hbeforeValue).append ((Passes.doc hvalue).append
        ((Passes.blank hafter).append (hcomma.append (Passes.members hrest))))))))
    simpa [Members.text, append_assoc] using this

end

/-- **An object is cut out whole**, whatever it holds. -/
theorem scanNested_object {blank : List Char} {members : Members} (h : (Doc.obj blank members).Wf)
    (rest : List Char) :
    scanNested 0 .outside ((Doc.obj blank members).text ++ rest) =
      some ((Doc.obj blank members).text, rest) := by
  have hinner := (Passes.blank h.1).append (Passes.members h.2)
  have htext : (Doc.obj blank members).text ++ rest =
      '{' :: ((blank ++ members.text) ++ '}' :: rest) := by
    simp [Doc.text]
  rw [htext, scanNested, if_neg (by decide), if_pos (.inl rfl), hinner 1 _ (by omega), scanNested,
    if_neg (by decide), if_neg (by decide), if_pos (.inl rfl), if_pos (by omega)]
  simp [Doc.text]

/-! ### EVENT frames -/

/-- A frame `["EVENT", <sub id>, <event>]` in some layout, whose event has one
member `id`, a string of 64 hexadecimal digits. -/
structure EventFrame where
  beforeArray : List Char
  beforeKind : List Char
  kind : List Piece
  afterKind : List Char
  beforeId : List Char
  subId : List Piece
  afterId : List Char
  beforeEvent : List Char
  blank : List Char
  members : Members
  afterEvent : List Char
  afterArray : List Char
  idLiteral : List Piece
  eventId : Bytes32
  kind_event : literalValue kind = "EVENT".toList
  members_id : members.valuesOf "id".toList = [.str idLiteral]
  id_hex : Hex.decodeChars (literalValue idLiteral) = some eventId.bytes
  wf_kind : ∀ p ∈ kind, p.Wf
  wf_subId : ∀ p ∈ subId, p.Wf
  wf_event : (Doc.obj blank members).Wf
  blank_beforeArray : Blank beforeArray
  blank_beforeKind : Blank beforeKind
  blank_afterKind : Blank afterKind
  blank_beforeId : Blank beforeId
  blank_afterId : Blank afterId
  blank_beforeEvent : Blank beforeEvent
  blank_afterEvent : Blank afterEvent
  blank_afterArray : Blank afterArray

namespace EventFrame

def event (f : EventFrame) : Doc := .obj f.blank f.members

/-- The frame up to the subscription id, and what follows it. -/
def literal (f : EventFrame) : LiteralFrame :=
  { beforeArray := f.beforeArray, beforeKind := f.beforeKind, kind := f.kind
    afterKind := f.afterKind, beforeId := f.beforeId, id := f.subId
    tail := f.afterId ++ ',' :: (f.beforeEvent ++ (f.event.text ++
      (f.afterEvent ++ ']' :: f.afterArray))) }

def text (f : EventFrame) : String := f.literal.text

theorem literal_wf (f : EventFrame) : f.literal.Wf :=
  { beforeArray := f.blank_beforeArray, beforeKind := f.blank_beforeKind, kind := f.wf_kind
    afterKind := f.blank_afterKind, beforeId := f.blank_beforeId, id := f.wf_subId }

end EventFrame

theorem scanArgs_event (f : EventFrame) :
    scanArgs 2 f.literal.tail = [{ raw := f.event.text, isString := false }] := by
  have hobject : ∃ rest, f.event.text = '{' :: rest := ⟨_, rfl⟩
  obtain ⟨rest, hrest⟩ := hobject
  have hscan : scanElement (f.event.text ++ (f.afterEvent ++ ']' :: f.afterArray)) =
      some ({ raw := f.event.text, isString := false }, f.afterEvent ++ ']' :: f.afterArray) := by
    have hcut := scanNested_object f.wf_event (f.afterEvent ++ ']' :: f.afterArray)
    rw [show (Doc.obj f.blank f.members).text = f.event.text from rfl, hrest,
      cons_append] at hcut
    rw [hrest, cons_append, scanElement, if_neg (by decide), if_pos (.inl rfl), hcut]
    rfl
  have hend : scanArgs 1 (f.afterEvent ++ ']' :: f.afterArray) = [] := by
    rw [scanArgs, skipWs_append f.blank_afterEvent (by decide)]
    dsimp only
    rw [if_pos (by decide)]
  have hskip : skipWs (f.beforeEvent ++ (f.event.text ++ (f.afterEvent ++ ']' :: f.afterArray))) =
      f.event.text ++ (f.afterEvent ++ ']' :: f.afterArray) := by
    rw [hrest, cons_append]
    exact skipWs_append f.blank_beforeEvent (by decide) _
  show scanArgs 2 (f.afterId ++ ',' :: (f.beforeEvent ++ (f.event.text ++
    (f.afterEvent ++ ']' :: f.afterArray)))) = _
  rw [scanArgs, skipWs_append f.blank_afterId (by decide)]
  dsimp only
  rw [if_neg (by decide), hskip, hrest, cons_append]
  dsimp only
  rw [if_neg (by decide), ← cons_append, ← hrest, hscan]
  dsimp only
  rw [hend]

/-- **The scan of an EVENT frame.** -/
theorem scanRelayFrame_event (f : EventFrame) :
    scanRelayFrame f.text = some
      { kind := literalText f.kind
        args := [ScannedValue.literal f.subId, { raw := f.event.text, isString := false }] } := by
  rw [EventFrame.text, scanRelayFrame_literals f.literal_wf, scanArgs_event]
  rfl

/-! ### The event id by text search -/

/-- `hex::decode_to_slice` into 32 bytes. -/
def decodeId (idHex : List Char) : Option Bytes32 :=
  match Hex.decodeChars idHex with
  | none => none
  | some bytes => if h : bytes.length = 32 then some ⟨bytes, h⟩ else none

/-- The id both deduplication stages take from the text of an event. -/
def textEventId (json : List Char) : Option Bytes32 := (extractEventId json).bind decodeId

def scannedEventId (scan : ScannedFrame) : Option Bytes32 :=
  if scan.kind ≠ "EVENT".toList then none
  else (scan.args[1]?).bind fun v => textEventId v.raw

/-- The string that stands after the first `"id"` of the text, with nothing but
spaces, tabs and colons in between, spells `id`. -/
def FirstIdIs (json : List Char) (id : Bytes32) : Prop :=
  ∃ tail separator hex rest, Text.afterFirst "\"id\"".toList json = some tail ∧
    tail = separator ++ '"' :: (hex ++ '"' :: rest) ∧
    (∀ c ∈ separator, SignedEvent.isKeySeparator c = true) ∧
    Hex.decodeChars hex = some id.bytes

theorem decodeId_eq_some_iff {hex : List Char} {id : Bytes32} :
    decodeId hex = some id ↔ Hex.decodeChars hex = some id.bytes := by
  rw [decodeId]
  cases Hex.decodeChars hex with
  | none => simp
  | some bytes =>
    dsimp only
    constructor
    · intro h
      split at h
      · cases h
        rfl
      · cases h
    · intro h
      cases h
      rw [dif_pos id.size]

theorem skipString_eq_some {inner rest : List Char} (h : skipString cs = some (inner, rest)) :
    cs = inner ++ '"' :: rest := by
  induction cs using skipString.induct generalizing inner rest with
  | case1 => cases h
  | case2 =>
    cases h
    rfl
  | case3 c hc =>
    rw [skipString, if_neg hc] at h
    cases h
  | case4 d tail =>
    rw [skipString, if_pos rfl] at h
    cases h
    rfl
  | case5 d tail _ ih =>
    rw [skipString_escape] at h
    obtain ⟨⟨inner', rest'⟩, hp, heq⟩ := Option.map_eq_some_iff.mp h
    cases heq
    rw [ih hp]
    rfl
  | case6 c d tail hc hback ih =>
    rw [skipString_plain hc hback] at h
    obtain ⟨⟨inner', rest'⟩, hp, heq⟩ := Option.map_eq_some_iff.mp h
    cases heq
    rw [ih hp]
    rfl

theorem skipString_hex {hex : List Char} {bytes : Bytes} (h : Hex.decodeChars hex = some bytes)
    (rest : List Char) : skipString (hex ++ '"' :: rest) = some (hex, rest) := by
  have hne : ∀ c ∈ hex, c ≠ '"' ∧ c ≠ '\\' := by
    intro c hc
    obtain ⟨n, hn⟩ := Hex.digitValue_of_mem h c hc
    constructor
    · rintro rfl
      rw [show Hex.digitValue '"' = none by decide] at hn
      cases hn
    · rintro rfl
      rw [show Hex.digitValue '\\' = none by decide] at hn
      cases hn
  rw [skipString_append hne, skipString_quote, Option.map_some, append_nil]

/-- **The id of the text search**, exactly. -/
theorem textEventId_iff {json : List Char} {id : Bytes32} :
    textEventId json = some id ↔ FirstIdIs json id := by
  rw [textEventId, extractEventId]
  constructor
  · intro h
    obtain ⟨hex, hextract, hdecode⟩ := Option.bind_eq_some_iff.mp h
    cases htail : Text.afterFirst "\"id\"".toList json with
    | none =>
      rw [htail] at hextract
      cases hextract
    | some tail =>
      rw [htail] at hextract
      dsimp only at hextract
      have hsplit : tail.takeWhile SignedEvent.isKeySeparator ++
          tail.dropWhile SignedEvent.isKeySeparator = tail :=
        takeWhile_append_dropWhile
      cases hdrop : tail.dropWhile SignedEvent.isKeySeparator with
      | nil =>
        rw [hdrop] at hextract
        cases hextract
      | cons c rest0 =>
        rw [hdrop] at hextract hsplit
        dsimp only at hextract
        split at hextract
        · next hc =>
          obtain ⟨⟨inner, rest⟩, hskip, rfl⟩ := Option.map_eq_some_iff.mp hextract
          refine ⟨tail, tail.takeWhile SignedEvent.isKeySeparator, inner, rest, htail, ?_,
            fun c hc => mem_takeWhile_imp hc, decodeId_eq_some_iff.mp hdecode⟩
          rw [← skipString_eq_some hskip, ← hc]
          exact hsplit.symm
        · cases hextract
  · rintro ⟨tail, separator, hex, rest, htail, rfl, hsep, hdecode⟩
    rw [htail]
    dsimp only
    rw [dropWhile_append_of_pos hsep, dropWhile_cons_of_neg (by decide)]
    dsimp only
    rw [if_pos rfl, skipString_hex hdecode]
    exact decodeId_eq_some_iff.mpr hdecode

theorem scannedEventId_event (f : EventFrame) (hkind : Plain f.kind) :
    scannedEventId
      { kind := literalText f.kind
        args := [ScannedValue.literal f.subId, { raw := f.event.text, isString := false }] } =
      textEventId f.event.text := by
  rw [scannedEventId, literalText_of_plain hkind, f.kind_event, if_neg (by simp)]
  rfl

end Nipworker
