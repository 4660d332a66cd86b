/-
The JSON reader of the parsers (`utils/mod.rs`, `parser_utils/json.rs`,
`types/proof.rs`).

`BaseJsonParser` walks over the bytes of a text.  It reads one byte past the end
where an element is expected and none is left, which stops the program, and some
of its loops take no step on a byte they do not know, and never return.

As in the other readers, characters stand for bytes: everything compared is ASCII.
-/
import Nipworker.Pipeline.ProofVerification
import Nipworker.Types.Nostr

namespace Nipworker

/-- `ParserError`, as the modelled parsers raise it. -/
inductive ParserError
  | invalidFormat (message : String)
  | invalidContent (message : String)
  | crypto (message : String)
  | typesError (e : TypesError)
  | other (message : String)
  deriving DecidableEq, Repr

/-- The text of an error (`Display`). -/
def ParserError.display : ParserError → String
  | .invalidFormat message => "Invalid format: " ++ message
  | .invalidContent message => "Invalid content format: " ++ message
  | .crypto message => "Cryptographic error: " ++ message
  | .typesError e => "Types error: " ++ e.display
  | .other message => "Other error: " ++ message

/-- Why a reader does not return a value: it returns an error, stops the program,
or does not return. -/
inductive ReadStop (ε : Type)
  | error (e : ε)
  | panic
  | hang
  deriving DecidableEq, Repr

def ReadStop.map {ε δ : Type} (f : ε → δ) : ReadStop ε → ReadStop δ
  | .error e => .error (f e)
  | .panic => .panic
  | .hang => .hang

abbrev ParserResult (α : Type) : Type := Except (ReadStop ParserError) α

namespace BaseJsonParser

/-! ### Escaped JSON -/

/-- What `unescape_json_fully` makes of an escape with one letter. -/
def fullEscape (c : Char) : List Char :=
  match escapeChar c with
  | some e => [e]
  | none => if c = '{' ∨ c = '}' ∨ c = '[' ∨ c = ']' then [c] else ['\\', c]

/-- `u32::from_str_radix(_, 16)`, with the plus sign it accepts. -/
def fromStrRadix16 (hex : List Char) : Option ℕ :=
  let digits := match hex with
    | '+' :: digits => digits
    | digits => digits
  if digits = [] then none
  else digits.foldlM (fun n c => (Hex.digitValue c).map (16 * n + ·)) 0

/-- The text of a `\u` escape; one that is no character stays as it is. -/
def unicodeEscape (hex : List Char) : List Char :=
  match fromStrRadix16 hex with
  | some n => if h : n.isValidChar then [Char.ofNatAux n h] else '\\' :: 'u' :: hex
  | none => '\\' :: 'u' :: hex

/-- `unescape_json_fully`, one step for every unit of fuel. -/
def unescapeJsonFully : ℕ → List Char → List Char
  | 0, _ => []
  | _ + 1, [] => []
  | _ + 1, [c] => [c]
  | fuel + 1, c :: d :: rest =>
    if c = '\\' then
      if d = 'u' then unicodeEscape (rest.take 4) ++ unescapeJsonFully fuel (rest.drop 4)
      else fullEscape d ++ unescapeJsonFully fuel rest
    else c :: unescapeJsonFully fuel (d :: rest)

/-- The text begins with an escaped brace or quote, or with a brace and then an
escaped quote. -/
def needsUnescape (trimmed : List Char) : Bool :=
  match trimmed with
  | '\\' :: c :: _ => c = '{' ∨ c = '"'
  | '{' :: rest => ['\\', '"'].isPrefixOf (skipWs rest)
  | _ => false

/-- `unescape_if_needed`, and the text as it is when it is not. -/
def unescapeIfNeeded (text : List Char) : List Char :=
  let trimmed := Text.trim text
  if needsUnescape trimmed then unescapeJsonFully trimmed.length trimmed else text

/-! ### Tokens -/

def invalidFormat (message : String) : ReadStop ParserError := .error (.invalidFormat message)

/-- `expect_byte`, in an input of `size` bytes of which `cs` is left. -/
def expect (size : ℕ) (expected : Char) (cs : List Char) : ParserResult (List Char) :=
  match cs with
  | [] => .error (invalidFormat ("Unexpected byte at position " ++ toString size))
  | c :: rest =>
    if c = expected then .ok rest
    else .error (invalidFormat ("Unexpected byte at position " ++ toString (size - byteLength cs)))

/-- `parse_string`. -/
def string (size : ℕ) (cs : List Char) : ParserResult (List Char × List Char) := do
  let rest ← expect size '"' cs
  match skipString rest with
  | some p => .ok p
  | none => .error (invalidFormat "Unterminated string")

/-- `parse_string_unescaped`. -/
def stringUnescaped (size : ℕ) (cs : List Char) : ParserResult (String × List Char) := do
  let (raw, rest) ← string size cs
  .ok (String.ofList (unescapeString raw), rest)

def parseU64 (cs : List Char) : ParserResult (ℕ × List Char) :=
  match Text.parseDecimal (cs.takeWhile Char.isDigit) with
  | none => .error (invalidFormat "Expected number")
  | some n =>
    if n < 2 ^ 64 then .ok (n, cs.dropWhile Char.isDigit)
    else .error (invalidFormat "Invalid number")

/-- `skip_array` and `skip_object` after the opening bracket, at the given depth;
strings are not looked at. -/
def skipNested (opening closing : Char) : ℕ → List Char → List Char
  | 0, cs => cs
  | _ + 1, [] => []
  | depth + 1, c :: rest =>
    if c = opening then skipNested opening closing (depth + 2) rest
    else if c = closing then skipNested opening closing depth rest
    else skipNested opening closing (depth + 1) rest

/-- The bytes `skip_number` skips. -/
def isNumberByte (c : Char) : Bool := c.isDigit ∨ c = '.' ∨ c = '-' ∨ c = '+'

def skipValue (size : ℕ) (cs : List Char) : ParserResult (List Char) :=
  match cs with
  | [] => .error .panic
  | c :: rest =>
    if c = '"' then (string size cs).map Prod.snd
    else if c = '[' then .ok (skipNested '[' ']' 1 rest)
    else if c = '{' then .ok (skipNested '{' '}' 1 rest)
    else if c = 't' ∨ c = 'f' then
      if "true".toList.isPrefixOf cs then .ok (cs.drop 4)
      else if "false".toList.isPrefixOf cs then .ok (cs.drop 5)
      else .error (invalidFormat "Invalid boolean")
    else if c = 'n' then
      if "null".toList.isPrefixOf cs then .ok (cs.drop 4)
      else .error (invalidFormat "Invalid null")
    else .ok (cs.dropWhile isNumberByte)

/-- The value `parse_raw_json_value` cuts out, and what follows it. -/
def rawValue : ℤ → Bool → Bool → List Char → Option (List Char × List Char)
  | _, _, _, [] => none
  | depth, inString, escaped, c :: rest =>
    if c = '\\' then (rawValue depth inString (!escaped) rest).map fun p => (c :: p.1, p.2)
    else if c = '"' then
      let inString := if escaped then inString else !inString
      (rawValue depth inString false rest).map fun p => (c :: p.1, p.2)
    else if (c = '{' ∨ c = '[') ∧ ¬ inString then
      (rawValue (depth + 1) inString false rest).map fun p => (c :: p.1, p.2)
    else if (c = '}' ∨ c = ']') ∧ ¬ inString then
      if depth - 1 = 0 then some ([c], rest)
      else (rawValue (depth - 1) inString false rest).map fun p => (c :: p.1, p.2)
    else if c = ',' ∧ ¬ inString ∧ depth = 0 then some ([], c :: rest)
    else (rawValue depth inString false rest).map fun p => (c :: p.1, p.2)

def parseRawJsonValue (cs : List Char) : ParserResult (List Char × List Char) :=
  match rawValue 0 false false cs with
  | some p => .ok p
  | none => .error (invalidFormat "Invalid JSON value")

/-! ### Loops -/

/-- The loop over the members of an object up to its closing brace; every member
has a key, so there are not more of them than bytes. -/
def members {σ : Type} (size : ℕ)
    (field : List Char → σ → List Char → ParserResult (σ × List Char)) :
    ℕ → σ → List Char → ParserResult (σ × List Char)
  | 0, _, _ => .error .hang
  | _ + 1, st, [] => .ok (st, [])
  | fuel + 1, st, c :: cs =>
    match skipWs (c :: cs) with
    | [] => .error .panic
    | d :: rest =>
      if d = '}' then .ok (st, rest)
      else do
        let (key, rest) ← string size (d :: rest)
        let rest ← expect size ':' (skipWs rest)
        let (st, rest) ← field key st (skipWs rest)
        members size field fuel st (skipCommaOrEnd rest)

/-- The loop over the elements of an array up to its closing bracket. -/
def elements {α : Type} (parse : List Char → ParserResult (α × List Char)) :
    ℕ → List Char → ParserResult (List α × List Char)
  | 0, _ => .error .hang
  | _ + 1, [] => .ok ([], [])
  | fuel + 1, c :: cs =>
    match skipWs (c :: cs) with
    | [] => .error .panic
    | d :: rest =>
      if d = ']' then .ok ([], rest)
      else do
        let (value, rest) ← parse (d :: rest)
        let (values, rest) ← elements parse fuel (skipCommaOrEnd rest)
        .ok (value :: values, rest)

def array {α : Type} (size : ℕ) (parse : List Char → ParserResult (α × List Char))
    (cs : List Char) : ParserResult (List α × List Char) := do
  let rest ← expect size '[' cs
  elements parse (rest.length + 1) rest

def object {σ : Type} (size : ℕ)
    (field : List Char → σ → List Char → ParserResult (σ × List Char)) (st : σ) (cs : List Char) :
    ParserResult (σ × List Char) := do
  let rest ← expect size '{' cs
  members size field (rest.length + 1) st rest

end BaseJsonParser

/-! ### Proofs and tokens -/

open BaseJsonParser

/-- The fields of a `DleqProof` as they are read. -/
def DleqProof.field (size : ℕ) (key : List Char) (st : DleqProof) (cs : List Char) :
    ParserResult (DleqProof × List Char) :=
  if key = "e".toList then (stringUnescaped size cs).map fun p => ({ st with e := p.1 }, p.2)
  else if key = "s".toList then (stringUnescaped size cs).map fun p => ({ st with s := p.1 }, p.2)
  else if key = "r".toList then
    (stringUnescaped size cs).map fun p => ({ st with r := some p.1 }, p.2)
  else (skipValue size cs).map fun rest => (st, rest)

def DleqProof.fromJson (json : List Char) : ParserResult DleqProof := do
  let text := unescapeIfNeeded json
  let size := byteLength text
  let (dleq, _) ← object size (DleqProof.field size) ⟨"", "", none⟩ (skipWs text)
  if dleq.e = "" ∨ dleq.s = "" then
    .error (invalidFormat "Missing required fields in DleqProof")
  else .ok dleq

/-- The `signatures` of a witness, which may be `null`. -/
def ProofWitness.signatures (size : ℕ) (cs : List Char) :
    ParserResult (Option (List String) × List Char) :=
  match cs with
  | [] => .error .panic
  | c :: _ =>
    if c = 'n' then do
      let rest ← expect size 'n' cs
      let rest ← expect size 'u' rest
      let rest ← expect size 'l' rest
      let rest ← expect size 'l' rest
      .ok (none, rest)
    else (array size (stringUnescaped size) cs).map fun p => (some p.1, p.2)

def ProofWitness.field (size : ℕ) (key : List Char) (st : Option String × Option (List String))
    (cs : List Char) : ParserResult ((Option String × Option (List String)) × List Char) :=
  if key = "preimage".toList then
    (stringUnescaped size cs).map fun p => ((some p.1, st.2), p.2)
  else if key = "signatures".toList then
    (ProofWitness.signatures size cs).map fun p => ((st.1, p.1), p.2)
  else (skipValue size cs).map fun rest => (st, rest)

def ProofWitness.fromJson (text : List Char) : ParserResult ProofWitness :=
  let size := byteLength text
  match skipWs text with
  | [] => .error .panic
  | c :: rest =>
    if c = '"' then (stringUnescaped size (c :: rest)).map fun p => .string p.1
    else if c = '{' then do
      let ((preimage, signatures), _) ←
        object size (ProofWitness.field size) (none, none) (c :: rest)
      match preimage with
      | some preimage => .ok (.htlc preimage signatures)
      | none => .ok (.p2pk signatures)
    else .error (invalidFormat "Invalid Witness JSON")

/-- The fields of a `Proof`. -/
def Proof.field (size : ℕ) (key : List Char) (st : Proof) (cs : List Char) :
    ParserResult (Proof × List Char) :=
  if key = "amount".toList then
    (parseU64 cs).map fun p => ({ st with amount := UInt64.ofNat p.1 }, p.2)
  else if key = "secret".toList then
    (stringUnescaped size cs).map fun p => ({ st with secret := p.1 }, p.2)
  else if key = "C".toList then (stringUnescaped size cs).map fun p => ({ st with c := p.1 }, p.2)
  else if key = "id".toList then
    (stringUnescaped size cs).map fun p => ({ st with id := some p.1 }, p.2)
  else if key = "version".toList then
    (parseU64 cs).map fun p => ({ st with version := some (Int32.ofNat p.1) }, p.2)
  else if key = "dleq".toList then do
    let (raw, rest) ← parseRawJsonValue cs
    let dleq ← DleqProof.fromJson raw
    .ok ({ st with dleq := some dleq }, rest)
  else if key = "witness".toList then do
    let (raw, rest) ← parseRawJsonValue cs
    let witness ← ProofWitness.fromJson raw
    .ok ({ st with witness := some witness }, rest)
  else (skipValue size cs).map fun rest => (st, rest)

def Proof.fromJson (json : List Char) : ParserResult Proof := do
  let text := unescapeIfNeeded json
  let size := byteLength text
  let (proof, _) ←
    object size (Proof.field size) ⟨0, "", "", none, none, none, none⟩ (skipWs text)
  if proof.secret = "" ∨ proof.c = "" then
    .error (invalidFormat "Missing required fields in Proof")
  else .ok proof

/-- The content of a token event. -/
structure TokenContent where
  mint : String
  proofs : List Proof
  del : Option (List String)
  deriving DecidableEq

namespace TokenContent

def proof (cs : List Char) : ParserResult (Proof × List Char) := do
  let (raw, rest) ← parseRawJsonValue cs
  let proof ← Proof.fromJson raw
  .ok (proof, rest)

/-- The fields of a `TokenContent`. -/
def field (size : ℕ) (key : List Char) (st : TokenContent) (cs : List Char) :
    ParserResult (TokenContent × List Char) :=
  if key = "mint".toList then
    (stringUnescaped size cs).map fun p => ({ st with mint := p.1 }, p.2)
  else if key = "proofs".toList then
    (array size proof cs).map fun p => ({ st with proofs := p.1 }, p.2)
  else if key = "del".toList then
    -- the strings are taken as they are written
    (array size (fun cs => (string size cs).map fun p => (String.ofList p.1, p.2)) cs).map
      fun p => ({ st with del := some p.1 }, p.2)
  else (skipValue size cs).map fun rest => (st, rest)

/-- The content of a token event, with its proofs. -/
def fromJson (json : String) : ParserResult TokenContent := do
  let text := unescapeIfNeeded json.toList
  let size := byteLength text
  let (content, _) ← object size (field size) ⟨"", [], none⟩ (skipWs text)
  if content.mint = "" then .error (invalidFormat "Missing mint field") else .ok content

end TokenContent

end Nipworker
