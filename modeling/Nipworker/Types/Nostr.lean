/-
Reading a signed event from JSON text (`types/nostr.rs`, `utils/mod.rs`).

The reader does not parse the object.  For each field it searches the text for
the quoted key and reads the value from what follows the first occurrence, so
it depends on where the keys stand and not on the nesting.

As in the frame scanner, characters stand for bytes: everything compared is
ASCII.
-/
import Nipworker.Storage.Request
import Nipworker.Transport.FrameScan

namespace Nipworker

/-- `types::Event`. -/
structure SignedEvent where
  id : Bytes32
  pubkey : Bytes32
  createdAt : ℕ
  kind : UInt16
  tags : List (List String)
  content : String
  sig : String
  deriving DecidableEq

/-! ### `BaseJsonParser` -/

namespace BaseJsonParser

/-- A `ParserError` on its way through `From<ParserError> for TypesError`. -/
def formatError (message : String) : TypesError := .other ("Invalid format: " ++ message)

def byteLength (cs : List Char) : ℕ := (cs.map Char.utf8Size).sum

/-- `expect_byte`, in an input of `size` bytes of which `cs` is left. -/
def expectByte (size : ℕ) (expected : Char) (cs : List Char) : Except TypesError (List Char) :=
  match cs with
  | [] => .error (formatError ("Unexpected byte at position " ++ toString size))
  | c :: rest =>
    if c = expected then .ok rest
    else .error (formatError ("Unexpected byte at position " ++ toString (size - byteLength cs)))

def parseString (size : ℕ) (cs : List Char) : Except TypesError (List Char × List Char) := do
  let rest ← expectByte size '"' cs
  match skipString rest with
  | some p => .ok p
  | none => .error (formatError "Unterminated string")

def escapeChar (c : Char) : Option Char :=
  if c = '"' ∨ c = '\\' ∨ c = '/' then some c
  else if c = 'n' then some '\n'
  else if c = 'r' then some '\r'
  else if c = 't' then some '\t'
  else if c = 'b' then some (Char.ofNat 8)
  else if c = 'f' then some (Char.ofNat 12)
  else none

def unescapeString : List Char → List Char
  | [] => []
  | [c] => [c]
  | c :: d :: rest =>
    if c = '\\' then
      match escapeChar d with
      | some e => e :: unescapeString rest
      | none => c :: d :: unescapeString rest
    else c :: unescapeString (d :: rest)

def parseStringUnescaped (size : ℕ) (cs : List Char) :
    Except TypesError (String × List Char) := do
  let (raw, rest) ← parseString size cs
  .ok (String.ofList (unescapeString raw), rest)

def skipCommaOrEnd (cs : List Char) : List Char :=
  match skipWs cs with
  | [] => []
  | c :: rest => if c = ',' then rest else c :: rest

end BaseJsonParser

/-! ### Tags -/

namespace NostrTags

open BaseJsonParser

/-- The loop over the elements of an array up to its closing bracket, one step
for every unit of fuel.  An input that ends at an element boundary ends the loop
as well; one that ends in whitespace makes the source stop with a panic. -/
def parseElements {α : Type} (parse : List Char → Except TypesError (α × List Char)) :
    ℕ → List Char → Except TypesError (List α × List Char)
  | 0, cs => .ok ([], cs)
  | _ + 1, [] => .ok ([], [])
  | fuel + 1, c :: cs =>
    match skipWs (c :: cs) with
    | [] => .error (formatError "index out of bounds")
    | d :: rest =>
      if d = ']' then .ok ([], rest)
      else do
        let (value, rest) ← parse (d :: rest)
        let (values, rest) ← parseElements parse fuel (skipCommaOrEnd rest)
        .ok (value :: values, rest)

def parseTag (size : ℕ) (cs : List Char) : Except TypesError (List String × List Char) := do
  let rest ← expectByte size '[' cs
  parseElements (parseStringUnescaped size) rest.length rest

/-- `NostrTags::from_json`.  `unescape_if_needed` leaves a text that begins with
a bracket as it is, and the callers pass no other. -/
def fromJson (cs : List Char) : Except TypesError (List (List String)) := do
  let size := byteLength cs
  let rest ← expectByte size '[' (skipWs cs)
  let (tags, _) ← parseElements (parseTag size) rest.length rest
  .ok tags

end NostrTags

/-! ### `Event::from_json` -/

namespace SignedEvent

/-- The text between the next two quotes after a key: how `id`, `pubkey` and
`sig` are read. -/
def quotedAfter (tail : List Char) (invalid missing : String) : Except TypesError String :=
  match Text.splitOnce '"' tail with
  | none => .error (.invalidFormat invalid)
  | some (_, rest) =>
    match Text.splitOnce '"' rest with
    | none => .error (.invalidFormat missing)
    | some (value, _) => .ok (String.ofList value)

def isKeySeparator (c : Char) : Bool := c = ' ' ∨ c = '\t' ∨ c = ':'

/-- The number after a key, below `bound`. -/
def numberAfter (tail : List Char) (bound : ℕ) (invalid : String) : Except TypesError ℕ :=
  match Text.parseDecimal ((tail.dropWhile isKeySeparator).takeWhile Char.isDigit) with
  | none => .error (.invalidFormat invalid)
  | some n => if n < bound then .ok n else .error (.invalidFormat invalid)

def bracketed : ℕ → NestedMode → List Char → Option (List Char)
  | _, _, [] => none
  | depth, .outside, c :: rest =>
    if c = '"' then (bracketed depth .inString rest).map (c :: ·)
    else if c = '[' then (bracketed (depth + 1) .outside rest).map (c :: ·)
    else if c = ']' then
      if depth - 1 = 0 then some [c] else (bracketed (depth - 1) .outside rest).map (c :: ·)
    else (bracketed depth .outside rest).map (c :: ·)
  | depth, .inString, c :: rest =>
    let mode : NestedMode :=
      if c = '\\' then .escaped else if c = '"' then .outside else .inString
    (bracketed depth mode rest).map (c :: ·)
  | depth, .escaped, c :: rest => (bracketed depth .inString rest).map (c :: ·)

/-- The content after its opening quote; it need not be closed. -/
def unescapeContent : List Char → List Char
  | [] => []
  | [c] => if c = '\\' ∨ c = '"' then [] else [c]
  | c :: d :: rest =>
    if c = '\\' then
      (if d = 'n' then '\n' else if d = 'r' then '\r' else if d = 't' then '\t' else d) ::
        unescapeContent rest
    else if c = '"' then []
    else c :: unescapeContent (d :: rest)

def afterKey (key : String) (json : List Char) (missing : String) :
    Except TypesError (List Char) :=
  match Text.afterFirst key.toList json with
  | some tail => .ok tail
  | none => .error (.invalidFormat missing)

/-- The `tags` of an event. -/
def readTags (json : List Char) : Except TypesError (List (List String)) := do
  let tail ← afterKey "\"tags\"" json "Missing tags"
  match tail.dropWhile fun c => c ≠ '[' with
  | [] => .error (.invalidFormat "Missing tags array")
  | c :: rest =>
    match bracketed 0 .outside (c :: rest) with
    | none => .error (.invalidFormat "Invalid tags array")
    | some text => NostrTags.fromJson text

/-- The `content` of an event. -/
def readContent (json : List Char) : Except TypesError String := do
  let tail ← afterKey "\"content\"" json "Missing content"
  match Text.splitOnce '"' tail with
  | none => .error (.invalidFormat "Missing content string")
  | some (_, rest) => .ok (String.ofList (unescapeContent rest))

/-- The `sig` of an event, empty when there is none. -/
def readSig (json : List Char) : Except TypesError String :=
  match Text.afterFirst "\"sig\"".toList json with
  | none => .ok ""
  | some tail => quotedAfter tail "Invalid sig format" "Missing sig value"

/-- The fields, one after the other, and the check of the kind. -/
def readFields (json : List Char) : Except TypesError SignedEvent := do
  let tail ← afterKey "\"id\"" json "Missing id"
  let id ← eventIdFromHex (← quotedAfter tail "Invalid id format" "Missing id value")
  let tail ← afterKey "\"pubkey\"" json "Missing pubkey"
  let pubkey ← publicKeyFromHex (← quotedAfter tail "Invalid pubkey format" "Missing pubkey value")
  let tail ← afterKey "\"created_at\"" json "Missing created_at"
  let createdAt ← numberAfter tail (2 ^ 64) "Invalid created_at"
  let tail ← afterKey "\"kind\"" json "Missing kind"
  let kind ← numberAfter tail (2 ^ 32) "Invalid kind"
  let tags ← readTags json
  let content ← readContent json
  let sig ← readSig json
  if 0xFFFF < kind then .error (.invalidFormat "Kind out of range")
  else
    .ok { id := id, pubkey := pubkey, createdAt := createdAt, kind := UInt16.ofNat kind
          tags := tags, content := content, sig := sig }

/-- `Event::from_json`, with its error texts. -/
def fromJson (text : String) : Except TypesError SignedEvent := readFields text.toList

theorem fromJson_ofList (cs : List Char) : fromJson (String.ofList cs) = readFields cs := by
  rw [fromJson, String.toList_ofList]

end SignedEvent

/-! ### Shortcuts -/

/-- The string after the first `"id"` of the text. -/
def extractEventId (json : List Char) : Option (List Char) :=
  match Text.afterFirst "\"id\"".toList json with
  | none => none
  | some tail =>
    match tail.dropWhile SignedEvent.isKeySeparator with
    | [] => none
    | c :: rest => if c = '"' then (skipString rest).map Prod.fst else none

/-- The characters `extract_first_three` skips between elements. -/
def isElementGap (c : Char) : Bool := c = ' ' ∨ c = '\n' ∨ c = '\r' ∨ c = ','

/-- An object from after its opening brace on, at the given depth; `none` where
the source slices past the end and stops. -/
def scanBraces : ℕ → NestedMode → List Char → Option (List Char × List Char)
  | _, .outside, [] => some ([], [])
  | _, _, [] => none
  | depth, .outside, c :: rest =>
    if c = '"' then (scanBraces depth .inString rest).map fun p => (c :: p.1, p.2)
    else if c = '{' then (scanBraces (depth + 1) .outside rest).map fun p => (c :: p.1, p.2)
    else if c = '}' then
      if depth - 1 = 0 then some ([c], rest)
      else (scanBraces (depth - 1) .outside rest).map fun p => (c :: p.1, p.2)
    else (scanBraces depth .outside rest).map fun p => (c :: p.1, p.2)
  | depth, .inString, c :: rest =>
    let mode : NestedMode :=
      if c = '\\' then .escaped else if c = '"' then .outside else .inString
    (scanBraces depth mode rest).map fun p => (c :: p.1, p.2)
  | depth, .escaped, c :: rest =>
    (scanBraces depth .inString rest).map fun p => (c :: p.1, p.2)

/-- One element of the array, with its quotes, and what follows it; a string
without an end is no element and takes the rest. -/
def firstElement : List Char → Option (Option (List Char) × List Char)
  | [] => some (none, [])
  | c :: rest =>
    if c = '"' then
      match skipString rest with
      | some (inner, after) => some (some ('"' :: (inner ++ ['"'])), after)
      | none => some (none, [])
    else if c = '{' then
      (scanBraces 1 .outside rest).map fun p => (some (c :: p.1), p.2)
    else
      let stops : Char → Bool := fun d => d = ',' ∨ d = ']'
      some (some (Text.trim ((c :: rest).takeWhile fun d => !stops d)),
        (c :: rest).dropWhile fun d => !stops d)

/-- The elements found, at most `found` of them. -/
def firstElements : ℕ → List Char → Option (List (Option (List Char)))
  | 0, _ => some []
  | found + 1, cs =>
    match cs.dropWhile isElementGap with
    | [] => some []
    | c :: rest =>
      if c = ']' then some []
      else do
        let (element, after) ← firstElement (c :: rest)
        let elements ← firstElements found after
        some (element :: elements)

/-- The first elements of an array frame. -/
def extractFirstThree (text : String) : Option (Option String × Option String × Option String) :=
  match text.toList with
  | [] => none
  | c :: rest =>
    if c ≠ '[' then none
    else
      (firstElements 3 rest).map fun elements =>
        let nth (i : ℕ) : Option String := (elements[i]?.join).map String.ofList
        (nth 0, nth 1, nth 2)

end Nipworker
