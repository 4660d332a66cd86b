/-
The scanner for inbound relay frames (`transport/frame_scan.rs`) and what a
connection reads off a frame with it (`transport/connection.rs`).

A frame is a JSON array.  The scanner finds its first four elements without
building a value: it skips escapes inside strings but does not decode them, so
`inner` is the text between the quotes as the relay wrote it.

The source works on bytes.  Everything it compares with is ASCII and no byte of
a longer UTF-8 sequence is, so characters and bytes give the same slices; an
escape pair whose second byte begins a longer sequence is skipped either way.
-/
import Nipworker.Lib.JsonText

namespace Nipworker

open JsonText List

/-- An element of a frame, as it stands in the text. -/
structure ScannedValue where
  raw : List Char
  isString : Bool
  deriving DecidableEq, Repr

def ScannedValue.inner (v : ScannedValue) : List Char :=
  if v.isString then v.raw.tail.dropLast else v.raw

/-- `ScannedFrame`; `args` holds the elements after the kind that were found,
at most three. -/
structure ScannedFrame where
  kind : List Char
  args : List ScannedValue
  deriving DecidableEq, Repr

def isAsciiWhitespace (c : Char) : Bool :=
  c = ' ' ∨ c = '\t' ∨ c = '\n' ∨ c = '\r' ∨ c = Char.ofNat 12

def skipWs (cs : List Char) : List Char := cs.dropWhile isAsciiWhitespace

/-- `skip_string`, after the opening quote: the text up to the closing quote
and what follows it.  A backslash takes the next character with it. -/
def skipString : List Char → Option (List Char × List Char)
  | [] => none
  | [c] => if c = '"' then some ([], []) else none
  | c :: d :: rest =>
    if c = '"' then some ([], d :: rest)
    else if c = '\\' then (skipString rest).map fun p => (c :: d :: p.1, p.2)
    else (skipString (d :: rest)).map fun p => (c :: p.1, p.2)

/-- Where the scan of a nested value is. -/
inductive NestedMode
  | outside
  | inString
  | escaped
  deriving DecidableEq

/-- An object or array from its opening bracket on, at the given depth: brackets
inside strings do not count, and the two kinds are not told apart. -/
def scanNested : ℕ → NestedMode → List Char → Option (List Char × List Char)
  | _, _, [] => none
  | depth, .outside, c :: rest =>
    if c = '"' then (scanNested depth .inString rest).map fun p => (c :: p.1, p.2)
    else if c = '{' ∨ c = '[' then
      (scanNested (depth + 1) .outside rest).map fun p => (c :: p.1, p.2)
    else if c = '}' ∨ c = ']' then
      if depth - 1 = 0 then some ([c], rest)
      else (scanNested (depth - 1) .outside rest).map fun p => (c :: p.1, p.2)
    else (scanNested depth .outside rest).map fun p => (c :: p.1, p.2)
  | depth, .inString, c :: rest =>
    let mode : NestedMode :=
      if c = '"' then .outside else if c = '\\' then .escaped else .inString
    (scanNested depth mode rest).map fun p => (c :: p.1, p.2)
  | depth, .escaped, c :: rest =>
    (scanNested depth .inString rest).map fun p => (c :: p.1, p.2)

def endsPrimitive (c : Char) : Bool :=
  c = ',' ∨ c = ']' ∨ c = ' ' ∨ c = '\t' ∨ c = '\n' ∨ c = '\r'

def scanElement : List Char → Option (ScannedValue × List Char)
  | [] => none
  | c :: rest =>
    if c = '"' then
      (skipString rest).map fun p =>
        ({ raw := '"' :: (p.1 ++ ['"']), isString := true }, p.2)
    else if c = '{' ∨ c = '[' then
      (scanNested 0 .outside (c :: rest)).map fun p =>
        ({ raw := p.1, isString := false }, p.2)
    else
      let raw := (c :: rest).takeWhile fun d => !endsPrimitive d
      if raw = [] then none
      else some ({ raw := raw, isString := false },
        (c :: rest).dropWhile fun d => !endsPrimitive d)

/-- The loop over the elements after the kind, at most `filled` more of them. -/
def scanArgs : ℕ → List Char → List ScannedValue
  | 0, _ => []
  | filled + 1, cs =>
    match skipWs cs with
    | [] => []
    | c :: rest =>
      if c ≠ ',' then []
      else
        match skipWs rest with
        | [] => []
        | d :: rest' =>
          if d = ']' then []
          else
            match scanElement (d :: rest') with
            | none => []
            | some (v, after) => v :: scanArgs filled after

def scanRelayFrame (text : String) : Option ScannedFrame :=
  match skipWs text.toList with
  | [] => none
  | c :: rest =>
    if c ≠ '[' then none
    else
      match skipWs rest with
      | [] => none
      | d :: rest' =>
        if d = ']' then none
        else
          match scanElement (d :: rest') with
          | none => none
          | some (first, after) => some { kind := first.inner, args := scanArgs 3 after }

/-- The kind, the subscription id of the frames that carry one, and the text the authentication
steps look at. -/
def parseIncomingRelayText (text : String) : Option (String × Option String × Option String) :=
  match scanRelayFrame text with
  | none => none
  | some scan =>
    let kind := String.ofList scan.kind
    let subId :=
      if kind = "EVENT" ∨ kind = "EOSE" ∨ kind = "OK" ∨ kind = "CLOSED" then
        match scan.args[0]? with
        | some v => if v.isString then some (String.ofList v.inner) else none
        | none => none
      else none
    let content :=
      if kind = "AUTH" ∨ kind = "NOTICE" then
        (scan.args[0]?).map fun v => String.ofList v.inner
      else if kind = "OK" then
        match scan.args[1]?, scan.args[2]? with
        | some v, some w => some (String.ofList v.raw ++ "," ++ String.ofList w.raw)
        | some v, none => some (String.ofList v.raw)
        | none, some w => some (String.ofList w.raw)
        | none, none => none
      else none
    some (kind, subId, content)

def incomingSubId (text : String) : Option String :=
  (parseIncomingRelayText text).bind fun p => p.2.1

/-! ### Literals -/

theorem skipWs_append {ws : List Char} (hws : ∀ c ∈ ws, isWs c = true) {c : Char}
    (hc : isAsciiWhitespace c = false) (rest : List Char) :
    skipWs (ws ++ c :: rest) = c :: rest := by
  have hall : ∀ x ∈ ws, isAsciiWhitespace x = true := by
    intro x hx
    have := hws x hx
    simp only [isWs, isAsciiWhitespace, decide_eq_true_eq] at this ⊢
    tauto
  rw [skipWs, dropWhile_append_of_pos hall, dropWhile_cons_of_neg]
  rw [hc]
  exact Bool.false_ne_true

theorem skipString_plain {c : Char} (h1 : c ≠ '"') (h2 : c ≠ '\\') (rest : List Char) :
    skipString (c :: rest) = (skipString rest).map fun p => (c :: p.1, p.2) := by
  cases rest with
  | nil => simp [skipString, h1]
  | cons d rest => rw [skipString, if_neg h1, if_neg h2]

theorem skipString_quote (rest : List Char) : skipString ('"' :: rest) = some ([], rest) := by
  cases rest <;> simp [skipString]

theorem skipString_escape (d : Char) (rest : List Char) :
    skipString ('\\' :: d :: rest) = (skipString rest).map fun p => ('\\' :: d :: p.1, p.2) := by
  rw [skipString, if_neg (by decide), if_pos rfl]

theorem skipString_append {cs : List Char} (hcs : ∀ c ∈ cs, c ≠ '"' ∧ c ≠ '\\')
    (rest : List Char) :
    skipString (cs ++ rest) = (skipString rest).map fun p => (cs ++ p.1, p.2) := by
  induction cs with
  | nil =>
    show skipString rest = (skipString rest).map fun p => p
    rw [Option.map_id']
  | cons c cs ih =>
    obtain ⟨h1, h2⟩ := hcs c mem_cons_self
    rw [cons_append, skipString_plain h1 h2,
      ih fun d hd => hcs d (mem_cons_of_mem _ hd), Option.map_map]
    rfl

theorem skipString_piece {p : Piece} (hp : p.Closed) (rest : List Char) :
    skipString (p.text ++ rest) = (skipString rest).map fun q => (p.text ++ q.1, q.2) := by
  cases p with
  | plain c => exact skipString_plain hp.1 hp.2 rest
  | short e => exact skipString_escape _ rest
  | unicode c hex =>
    obtain ⟨_, hn⟩ := hp
    show skipString ('\\' :: 'u' :: (hex ++ rest)) = _
    rw [skipString_escape, skipString_append (mem_hex4_ne hn), Option.map_map]
    rfl
  | surrogates c high low =>
    obtain ⟨⟨_, hh⟩, ⟨_, hl⟩⟩ := hp
    show skipString ('\\' :: 'u' :: ((high ++ '\\' :: 'u' :: low) ++ rest)) = _
    rw [append_assoc, skipString_escape, skipString_append (mem_hex4_ne hh)]
    show Option.map _ (Option.map _ (skipString ('\\' :: 'u' :: (low ++ rest)))) = _
    rw [skipString_escape, skipString_append (mem_hex4_ne hl)]
    simp only [Option.map_map]
    refine congrArg (fun f => Option.map f (skipString rest)) (funext fun q => ?_)
    simp [Piece.text]

theorem skipString_literal {lit : List Piece} (hlit : ∀ p ∈ lit, p.Closed) (rest : List Char) :
    skipString (literalText lit ++ '"' :: rest) = some (literalText lit, rest) := by
  induction lit with
  | nil => exact skipString_quote rest
  | cons p lit ih =>
    rw [literalText_cons, append_assoc, skipString_piece (hlit p mem_cons_self),
      ih fun q hq => hlit q (mem_cons_of_mem _ hq)]
    rfl

def ScannedValue.literal (lit : List Piece) : ScannedValue :=
  { raw := '"' :: (literalText lit ++ ['"']), isString := true }

@[simp] theorem ScannedValue.inner_literal (lit : List Piece) :
    (ScannedValue.literal lit).inner = literalText lit := by
  simp [ScannedValue.inner, ScannedValue.literal]

theorem scanElement_literal {lit : List Piece} (hwf : ∀ p ∈ lit, p.Wf) (rest : List Char) :
    scanElement ('"' :: (literalText lit ++ '"' :: rest)) =
      some (ScannedValue.literal lit, rest) := by
  rw [scanElement, if_pos rfl, skipString_literal fun p hp => (hwf p hp).closed]
  rfl

/-! ### Frames that start with two literals -/

/-- A JSON array that starts with two string literals: the whitespace between
its parts, the two literals, and the rest of the text. -/
structure LiteralFrame where
  beforeArray : List Char
  beforeKind : List Char
  kind : List Piece
  afterKind : List Char
  beforeId : List Char
  id : List Piece
  tail : List Char

namespace LiteralFrame

def text (f : LiteralFrame) : String :=
  String.ofList (f.beforeArray ++ '[' :: (f.beforeKind ++ '"' :: (literalText f.kind ++ '"' ::
    (f.afterKind ++ ',' :: (f.beforeId ++ '"' :: (literalText f.id ++ '"' :: f.tail))))))

structure Wf (f : LiteralFrame) : Prop where
  beforeArray : ∀ c ∈ f.beforeArray, isWs c = true
  beforeKind : ∀ c ∈ f.beforeKind, isWs c = true
  kind : ∀ p ∈ f.kind, p.Wf
  afterKind : ∀ c ∈ f.afterKind, isWs c = true
  beforeId : ∀ c ∈ f.beforeId, isWs c = true
  id : ∀ p ∈ f.id, p.Wf

end LiteralFrame

/-- **Two literals in front**: the kind and the first argument are the texts of
the literals, escapes and all. -/
theorem scanRelayFrame_literals {f : LiteralFrame} (hf : f.Wf) :
    scanRelayFrame f.text = some
      { kind := literalText f.kind
        args := ScannedValue.literal f.id :: scanArgs 2 f.tail } := by
  rw [scanRelayFrame, LiteralFrame.text, String.toList_ofList,
    skipWs_append hf.beforeArray (by decide)]
  dsimp only
  rw [if_neg (by decide), skipWs_append hf.beforeKind (by decide)]
  dsimp only
  rw [if_neg (by decide), scanElement_literal hf.kind]
  dsimp only
  rw [scanArgs, skipWs_append hf.afterKind (by decide)]
  dsimp only
  rw [if_neg (by decide), skipWs_append hf.beforeId (by decide)]
  dsimp only
  rw [if_neg (by decide), scanElement_literal hf.id, ScannedValue.inner_literal]

theorem scanRelayFrame_echo {f : LiteralFrame} (hf : f.Wf) :
    ∃ frame v rest, scanRelayFrame f.text = some frame ∧ frame.kind = literalText f.kind ∧
      frame.args = v :: rest ∧ v.isString = true ∧ v.inner = literalText f.id :=
  ⟨_, _, _, scanRelayFrame_literals hf, rfl, rfl, rfl, ScannedValue.inner_literal f.id⟩

def isSubscriptionKind (kind : String) : Prop :=
  kind = "EVENT" ∨ kind = "EOSE" ∨ kind = "CLOSED"

/-- The subscription id read off a frame about a subscription: the text of its
second literal, and none at all when the kind is written with an escape. -/
theorem incomingSubId_echo {f : LiteralFrame} (hf : f.Wf)
    (hkind : isSubscriptionKind (String.ofList (literalValue f.kind))) :
    (Plain f.kind → incomingSubId f.text = some (String.ofList (literalText f.id))) ∧
      (¬ Plain f.kind → incomingSubId f.text = none) := by
  obtain ⟨frame, v, rest, hscan, hk, hargs, hvs, hv⟩ := scanRelayFrame_echo hf
  unfold incomingSubId parseIncomingRelayText
  rw [hscan]
  simp only [Option.bind_some, hk, hargs]
  constructor
  · intro hplain
    rw [literalText_of_plain hplain]
    have hcond : String.ofList (literalValue f.kind) = "EVENT" ∨
        String.ofList (literalValue f.kind) = "EOSE" ∨
        String.ofList (literalValue f.kind) = "OK" ∨
        String.ofList (literalValue f.kind) = "CLOSED" := by
      rcases hkind with h | h | h
      · exact .inl h
      · exact .inr (.inl h)
      · exact .inr (.inr (.inr h))
    rw [if_pos hcond, List.getElem?_cons_zero]
    dsimp only
    rw [if_pos hvs, hv]
  · -- no known kind has a backslash in it
    intro hplain
    have hback := backslash_mem_of_not_plain hplain
    have hno : ∀ kind : String, '\\' ∉ kind.toList → String.ofList (literalText f.kind) ≠ kind := by
      rintro kind hkind rfl
      rw [String.toList_ofList] at hkind
      exact hkind hback
    have hcond : ¬ (String.ofList (literalText f.kind) = "EVENT" ∨
        String.ofList (literalText f.kind) = "EOSE" ∨
        String.ofList (literalText f.kind) = "OK" ∨
        String.ofList (literalText f.kind) = "CLOSED") := by
      rintro (h | h | h | h)
      · exact hno "EVENT" (by decide) h
      · exact hno "EOSE" (by decide) h
      · exact hno "OK" (by decide) h
      · exact hno "CLOSED" (by decide) h
    rw [if_neg hcond]

end Nipworker
