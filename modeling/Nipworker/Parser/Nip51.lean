/-
NIP-51 lists (`parser/nip51.rs`, `parser/mod.rs`).

A list has public tags and, as its content, private tags encrypted to the author.
The parser reads both into one record; the private ones only when they can be
decrypted.

The signer of a parser is an object of which only the calls are known.
-/
import Nipworker.Parser.Json
import Nipworker.Types.Template

namespace Nipworker

/-! ### The parser and its signer -/

/-- The calls of a `dyn Signer`; its error is a text. -/
structure DynSigner where
  getPublicKey : Except String String
  signEvent : String → Except String String
  nip04Encrypt : String → String → Except String String
  nip44Encrypt : String → String → Except String String
  nip04DecryptBetween : String → String → String → Except String String
  nip44DecryptBetween : String → String → String → Except String String

/-- `ContentBlock`, with data of some kind. -/
structure ContentBlock (D : Type) where
  blockType : String
  text : String
  data : Option D
  deriving DecidableEq

/-- Its signer, `parse_content`, from `k256` the public key of a secret key, if it is one, and
the parsers and `prepare` functions of the other kinds. -/
structure Parser (D : Type) where
  signer : Option DynSigner
  parseContent : String → Except String (List (ContentBlock D))
  publicKey : Bytes32 → Option Bytes32
  parseOther : SignedEvent → ParserResult Unit
  prepareOther : Template → ParserResult SignedEvent

def failWith {α : Type} (e : ParserError) : ParserResult α := .error (.error e)

/-- A call of the signer, with its error as `ParserError::Crypto`. -/
def cryptoCall {α : Type} (message : String) (call : Except String α) : ParserResult α :=
  call.mapError fun e => .error (.crypto (message ++ e))

namespace Parser

variable {D : Type}

/-- How a prepared template becomes an event. -/
def signTemplate (p : Parser D) (t : Template) : ParserResult SignedEvent :=
  match p.signer with
  | none =>
    failWith (.crypto "event signing not available in parser; signer not configured")
  | some signer => do
    let json ← cryptoCall "Signer error: " (signer.signEvent t.toJson)
    (SignedEvent.fromJson json).mapError fun e => .error (.typesError e)

/-- The signer, which every `prepare` needs. -/
def encryptionSigner (p : Parser D) : ParserResult DynSigner :=
  match p.signer with
  | none => failWith (.crypto "encryption not available in parser; signer not configured")
  | some signer => .ok signer

end Parser

def tagValue (tags : List (List String)) (key : String) : Option String :=
  tags.findSome? fun tag =>
    match tag with
    | name :: value :: _ => if name = key then some value else none
    | _ => none

/-- `parse::<u64>()`. -/
def parseU64Text (s : String) : Option ℕ :=
  (Text.parseDecimal (dropPlus s.toList)).filter fun n => n < 2 ^ 64

/-! ### Private tags -/

/-- `parse_string_array` after the opening bracket; values that are no strings are
skipped. -/
def stringArray (size : ℕ) : ℕ → List Char → ParserResult (List String × List Char)
  | 0, _ => .error .hang
  | fuel + 1, cs =>
    match skipWs cs with
    | [] => failWith (.invalidFormat "Unterminated array")
    | c :: rest =>
      if c = ']' then .ok ([], rest)
      else if c = '"' then do
        let (value, rest) ← BaseJsonParser.stringUnescaped size (c :: rest)
        let (values, rest) ← stringArray size fuel (BaseJsonParser.skipCommaOrEnd rest)
        .ok (value :: values, rest)
      else do
        let rest ← BaseJsonParser.skipValue size (c :: rest)
        stringArray size fuel (BaseJsonParser.skipCommaOrEnd rest)

/-- The loop of `parse_tag_arrays_json`.  Every turn but one that takes no step
takes a character, so a loop that uses up the fuel does not end. -/
def tagArraysLoop (size : ℕ) : ℕ → List Char → ParserResult (List (List String))
  | 0, _ => .error .hang
  | fuel + 1, cs =>
    match skipWs cs with
    | [] => .ok []
    | c :: rest =>
      if c = ']' then .ok []
      else if c = '[' then do
        let (tag, rest) ← stringArray size (rest.length + 1) rest
        let tags ← tagArraysLoop size fuel (BaseJsonParser.skipCommaOrEnd rest)
        .ok (tag :: tags)
      else do
        let rest ← BaseJsonParser.skipValue size (c :: rest)
        tagArraysLoop size fuel (BaseJsonParser.skipCommaOrEnd rest)

/-- `parse_tag_arrays_json`. -/
def tagArrays (json : String) : ParserResult (List (List String)) := do
  let size := BaseJsonParser.byteLength json.toList
  let rest ← BaseJsonParser.expect size '[' (skipWs json.toList)
  tagArraysLoop size (rest.length + 1) rest

/-! ### Lists -/

/-- What an `a` tag points to. -/
structure Coordinate where
  kind : ℕ
  pubkey : String
  d : String
  relays : List String
  deriving DecidableEq

/-- A list, with its public and private parts. -/
structure ListParsed where
  listKind : UInt16
  d : Option String
  title : Option String
  description : Option String
  image : Option String
  topics : List String
  people : List String
  events : List String
  addresses : List Coordinate
  otherTags : List (List String)
  deriving DecidableEq

def parseCoordinate (coord : String) (relay : Option String) : Option Coordinate := do
  let (kind, pubkey, d) ← Text.splitn3 ':' coord
  let kind ← parseU64Text kind
  some ⟨kind, pubkey, d, (relay.filter fun s => s ≠ "").toList⟩

namespace ListParsed

def empty (kind : UInt16) : ListParsed := ⟨kind, none, none, none, none, [], [], [], [], []⟩

/-- One turn of `process_list_tags`. -/
def addTag (st : ListParsed) (tag : List String) : ListParsed :=
  match tag with
  | [] => st
  | [_] => { st with otherTags := st.otherTags ++ [tag] }
  | name :: value :: rest =>
    if name = "p" then { st with people := st.people ++ [value] }
    else if name = "e" then { st with events := st.events ++ [value] }
    else if name = "a" then
      { st with addresses := st.addresses ++ (parseCoordinate value rest.head?).toList }
    else if name = "t" then { st with topics := st.topics ++ [value] }
    else if name = "title" then { st with title := st.title.or (some value) }
    else if name = "summary" ∨ name = "description" then
      { st with description := st.description.or (some value) }
    else if name = "image" then { st with image := st.image.or (some value) }
    else if name = "d" then { st with d := st.d.or (some value) }
    else { st with otherTags := st.otherTags ++ [tag] }

/-- `process_list_tags`. -/
def addTags (st : ListParsed) (tags : List (List String)) : ListParsed := tags.foldl addTag st

/-- The public tags, and the private ones if they can be read. -/
def withPrivate (st : ListParsed) (plaintext : String) : ParserResult ListParsed :=
  match tagArrays plaintext with
  | .ok tags => .ok (st.addTags tags)
  | .error (.error _) => .ok st
  | .error stop => .error stop

end ListParsed

/-- The kinds of `parse_nip51` and `prepare_nip51`. -/
def isNip51Kind (kind : UInt16) : Prop :=
  (10000 ≤ kind ∧ kind < 20000) ∨ (30000 ≤ kind ∧ kind < 40000) ∨ kind = 39089

instance (kind : UInt16) : Decidable (isNip51Kind kind) := inferInstanceAs (Decidable (_ ∨ _ ∨ _))

/-- The two ciphers. -/
inductive Scheme
  | nip04
  | nip44
  deriving DecidableEq

/-- The scheme the tags ask for, in either case of the letters. -/
def encryptionScheme (tags : List (List String)) : Option Scheme :=
  match (tagValue tags "encryption").map fun s => String.ofList (s.toList.map Char.toLower) with
  | some value =>
    if value = "nip04" ∨ value = "nip-04" then some .nip04
    else if value = "nip44" ∨ value = "nip-44" then some .nip44
    else none
  | none => none

/-- `content.contains("?iv=")`. -/
def hasIv (content : String) : Bool := (Text.afterFirst "?iv=".toList content.toList).isSome

namespace Parser

variable {D : Type}

def decryptBetween (signer : DynSigner) : Scheme → String → String → String → Except String String
  | .nip04 => signer.nip04DecryptBetween
  | .nip44 => signer.nip44DecryptBetween

def encryptFor (signer : DynSigner) : Scheme → String → String → Except String String
  | .nip04 => signer.nip04Encrypt
  | .nip44 => signer.nip44Encrypt

/-- The scheme a list is decrypted with: that of its tags, or else by the shape of
the content. -/
def listScheme (event : SignedEvent) : Scheme :=
  match encryptionScheme event.tags with
  | some scheme => scheme
  | none => if hasIv event.content then .nip04 else .nip44

/-- The private content of a list, if there is any and it can be decrypted. -/
def listPlaintext (p : Parser D) (event : SignedEvent) : Option String :=
  match p.signer with
  | none => some event.content
  | some signer =>
    (decryptBetween signer (listScheme event) event.pubkey.toHex event.pubkey.toHex
      event.content).toOption

def parseNip51 (p : Parser D) (event : SignedEvent) : ParserResult ListParsed :=
  if ¬ isNip51Kind event.kind then failWith (.other "event is not a NIP-51 list kind")
  else
    let st := (ListParsed.empty event.kind).addTags event.tags
    if Text.trim event.content.toList = [] then .ok st
    else
      match p.listPlaintext event with
      | none => .ok st
      | some plaintext => st.withPrivate plaintext

def encryptError : Scheme → String
  | .nip04 => "NIP-04 encrypt error: "
  | .nip44 => "NIP-44 encrypt error: "

def prepareNip51 (p : Parser D) (t : Template) : ParserResult SignedEvent :=
  if ¬ isNip51Kind t.kind then failWith (.other "event is not a NIP-51 list kind")
  else do
    let signer ← p.encryptionSigner
    match encryptionScheme t.tags with
    | some scheme =>
      let ownPubkey ← cryptoCall "get_public_key error: " signer.getPublicKey
      let encrypted ← cryptoCall (encryptError scheme) (encryptFor signer scheme ownPubkey t.content)
      p.signTemplate { t with content := encrypted }
    | none => p.signTemplate t

end Parser

end Nipworker
