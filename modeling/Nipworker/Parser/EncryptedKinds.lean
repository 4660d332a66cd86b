/-
Direct messages and the events of a wallet (`parser/kind4.rs`, `parser/kind7374.rs`,
`parser/kind7375.rs`, `parser/kind7376.rs`, `parser/kind17375.rs`,
`parser/mod.rs`).

Each kind has a parser, which decrypts the content and reads it, and a `prepare`
function, which checks the content of a template, encrypts it and signs the
result.

What is decrypted and what is made of the plaintext are separate steps here, one
definition each.
-/
import Nipworker.Parser.Nip51

namespace Nipworker

/-- `NostrTags::from_json`, which stops the program on a text that ends in
whitespace where a tag is expected. -/
def NostrTags.fromText (json : String) : Except (ReadStop TypesError) (List (List String)) :=
  match NostrTags.fromJson (BaseJsonParser.unescapeIfNeeded json.toList) with
  | .ok tags => .ok tags
  | .error e =>
    if e = BaseJsonParser.formatError "index out of bounds" then .error .panic
    else .error (.error e)

/-- A read that fails is an error of the parser with a text in front. -/
def readOr {ε α : Type} (display : ε → String) (wrap : String → ParserError) (message : String)
    (read : Except (ReadStop ε) α) : ParserResult α :=
  read.mapError fun stop => stop.map fun e => wrap (message ++ display e)

namespace Parser

variable {D : Type}

/-- NIP-44 content that the author has encrypted to themselves. -/
def ownDecrypt (p : Parser D) (message : String) (event : SignedEvent) : ParserResult String :=
  match p.signer with
  | none => .ok event.content
  | some signer =>
    cryptoCall message
      (signer.nip44DecryptBetween event.pubkey.toHex event.pubkey.toHex event.content)

/-- Plaintext content is taken as it is; other content is decrypted. -/
def plaintextOr {ε α : Type} (p : Parser D) (read : String → Except (ReadStop ε) α)
    (message : String) (event : SignedEvent) : ParserResult String :=
  match read event.content with
  | .ok _ => .ok event.content
  | .error (.error _) => p.ownDecrypt message event
  | .error .panic => .error .panic
  | .error .hang => .error .hang

/-- The end of the `prepare` functions that stamp the event with the time `now`. -/
def signStamped (p : Parser D) (now : UInt64) (t : Template) (content : String) :
    ParserResult SignedEvent := p.signTemplate { t with content := content, createdAt := now }

def ownEncrypt (p : Parser D) (content : String) : ParserResult String := do
  let signer ← p.encryptionSigner
  cryptoCall "NIP-44 encrypt error: " (signer.nip44Encrypt "" content)

end Parser

/-! ### Kind 4 -/

/-- A direct message. -/
structure Kind4Parsed (D : Type) where
  parsedContent : List (ContentBlock D)
  decryptedContent : Option String
  chatId : String
  recipient : String
  deriving DecidableEq

def chatId (a b : String) : String := if a ≤ b then a ++ "_" ++ b else b ++ "_" ++ a

/-- `error.contains(…)`. -/
def notParticipant (error : String) : Bool :=
  (Text.afterFirst "signer pubkey is not a participant".toList error.toList).isSome

namespace Parser

variable {D : Type}

def sealedMessage (author : Bytes32) (recipient : String) : Kind4Parsed D :=
  ⟨[], none, chatId author.toHex recipient, recipient⟩

def openMessage (p : Parser D) (author : Bytes32) (recipient plaintext : String) : Kind4Parsed D where
  parsedContent :=
    match p.parseContent plaintext with
    | .ok blocks => blocks
    | .error _ => [⟨"text", plaintext, none⟩]
  decryptedContent := some plaintext
  chatId := chatId author.toHex recipient
  recipient := recipient

def parseKind4 (p : Parser D) (event : SignedEvent) : ParserResult (Kind4Parsed D) :=
  if event.kind ≠ 4 then failWith (.other "event is not kind 4")
  else
    match tagValue event.tags "p" with
    | none => failWith (.other "no recipient found in DM")
    | some recipient =>
      match p.signer with
      | none => .ok (sealedMessage event.pubkey recipient)
      | some signer =>
        match signer.nip04DecryptBetween event.pubkey.toHex recipient event.content with
        | .ok plaintext => .ok (p.openMessage event.pubkey recipient plaintext)
        | .error e =>
          -- the conversation of another account
          if notParticipant e then .ok (sealedMessage event.pubkey recipient)
          else failWith (.crypto ("Failed to decrypt kind 4 message: " ++ e))

def prepareKind4 (p : Parser D) (now : UInt64) (t : Template) : ParserResult SignedEvent :=
  match tagValue t.tags "p" with
  | none => failWith (.other "no recipient found in p tag")
  | some recipient => do
    let signer ← p.encryptionSigner
    let encrypted ← cryptoCall "NIP-04 encrypt error: " (signer.nip04Encrypt recipient t.content)
    p.signStamped now t encrypted

end Parser

/-! ### Kind 7374 -/

/-- The quote of a mint. -/
structure Kind7374Parsed where
  quoteId : String
  mintUrl : String
  expiration : ℕ
  deriving DecidableEq

/-- The mint and the expiration of a quote: the last of each. -/
def quoteTags (tags : List (List String)) : String × ℕ :=
  tags.foldl (fun st tag =>
    match tag with
    | name :: value :: _ =>
      if name = "mint" then (value, st.2)
      else if name = "expiration" then (st.1, (parseU64Text value).getD st.2)
      else st
    | _ => st) ("", 0)

def quoteData (tags : List (List String)) (plaintext : String) : Kind7374Parsed :=
  ⟨plaintext, (quoteTags tags).1, (quoteTags tags).2⟩

namespace Parser

variable {D : Type}

def parseKind7374 (p : Parser D) (event : SignedEvent) : ParserResult Kind7374Parsed :=
  if event.kind ≠ 7374 then failWith (.other "event is not kind 7374")
  else if (quoteTags event.tags).1 = "" then failWith (.other "mint URL not found in quote event")
  else if event.content = "" then
    failWith (.invalidContent "Kind 7374 event has empty decrypted content")
  else do
    let quoteId ← p.ownDecrypt "Failed to decrypt kind 7374: " event
    .ok (quoteData event.tags quoteId)

def prepareKind7374 (p : Parser D) (now : UInt64) (t : Template) : ParserResult SignedEvent :=
  if t.kind ≠ 7374 then failWith (.other "event is not kind 7374")
  else if tagValue t.tags "mint" = none then
    failWith (.other "kind 7374 events must have a mint tag")
  else do
    let encrypted ← p.ownEncrypt t.content
    p.signStamped now t encrypted

end Parser

/-! ### Kind 7375 -/

/-- Unspent proofs. -/
structure Kind7375Parsed where
  mintUrl : String
  proofs : List Proof
  deletedIds : List String
  decrypted : Bool
  deriving DecidableEq

def tokenData (content : TokenContent) : Kind7375Parsed :=
  ⟨content.mint, content.proofs, content.del.getD [], true⟩

namespace Parser

variable {D : Type}

def parseKind7375 (p : Parser D) (event : SignedEvent) : ParserResult Kind7375Parsed :=
  if event.kind ≠ 7375 then failWith (.other "event is not kind 7375")
  else do
    let decrypted ← p.plaintextOr TokenContent.fromJson "Failed to decrypt kind 7375: " event
    if decrypted = "" then
      failWith (.invalidContent "Kind 7375 event has empty decrypted content")
    else do
      let content ← readOr ParserError.display .invalidContent
        "Failed to parse decrypted kind 7375 content: " (TokenContent.fromJson decrypted)
      .ok (tokenData content)

def prepareKind7375 (p : Parser D) (now : UInt64) (t : Template) : ParserResult SignedEvent :=
  if t.kind ≠ 7375 then failWith (.other "event is not kind 7375")
  else do
    let content ← readOr ParserError.display .other "invalid token content: "
      (TokenContent.fromJson t.content)
    if content.mint = "" then failWith (.other "token content must specify a mint")
    else if content.proofs = [] then
      failWith (.other "token content must include at least one proof")
    else do
      let encrypted ← p.ownEncrypt t.content
      p.signStamped now t encrypted

end Parser

/-! ### Kind 7376 -/

/-- A tag of the spending history. -/
structure HistoryTag where
  name : String
  value : String
  relay : Option String
  marker : Option String
  deriving DecidableEq

/-- An entry of the spending history. -/
structure Kind7376Parsed where
  direction : String
  amount : Int32
  createdEvents : List String
  destroyedEvents : List String
  redeemedEvents : List String
  tags : List HistoryTag
  decrypted : Bool
  deriving DecidableEq

/-- `parse::<i32>()`. -/
def parseI32Text (s : String) : Option Int32 :=
  match s.toList with
  | '-' :: digits =>
    (Text.parseDecimal digits).bind fun n =>
      if n ≤ 2 ^ 31 then some (Int32.ofInt (-(n : ℤ))) else none
  | cs => (Text.parseDecimal (dropPlus cs)).bind fun n =>
      if n < 2 ^ 31 then some (Int32.ofNat n) else none

def redeemedIn (tags : List (List String)) : List String :=
  tags.filterMap fun tag =>
    match tag with
    | name :: id :: _ :: marker :: _ => if name = "e" ∧ marker = "redeemed" then some id else none
    | _ => none

def Kind7376Parsed.addTag (st : Kind7376Parsed) (tag : List String) : Kind7376Parsed :=
  match tag with
  | name :: value :: rest =>
    let st := { st with tags := st.tags ++ [⟨name, value, rest.head?, rest[1]?⟩] }
    if name = "direction" then { st with direction := value }
    else if name = "amount" then { st with amount := (parseI32Text value).getD st.amount }
    else if name = "e" then
      match rest[1]? with
      | some marker =>
        if marker = "created" then { st with createdEvents := st.createdEvents ++ [value] }
        else if marker = "destroyed" then
          { st with destroyedEvents := st.destroyedEvents ++ [value] }
        else if marker = "redeemed" then
          { st with redeemedEvents := st.redeemedEvents ++ [value] }
        else st
      | none => st
    else st
  | _ => st

def historyData (tags hidden : List (List String)) : Kind7376Parsed :=
  hidden.foldl Kind7376Parsed.addTag ⟨"", 0, [], [], redeemedIn tags, [], true⟩

/-- The checks of `prepare_kind_7376`. -/
def checkHistory (tags : List (List String)) : ParserResult Unit := do
  let (direction, amount) ← tags.foldlM (fun st tag =>
    match tag with
    | name :: value :: _ =>
      if name = "direction" then
        if value ≠ "in" ∧ value ≠ "out" then
          failWith (.other "direction must be 'in' or 'out'")
        else .ok (true, st.2)
      else if name = "amount" then .ok (st.1, true)
      else .ok st
    | _ => .ok st) (false, false)
  if ¬ direction ∨ ¬ amount then
    failWith (.other "spending history must include direction and amount")
  else .ok ()

namespace Parser

variable {D : Type}

def parseKind7376 (p : Parser D) (event : SignedEvent) : ParserResult Kind7376Parsed :=
  if event.kind ≠ 7376 then failWith (.other "event is not kind 7376")
  else do
    let decrypted ← p.plaintextOr NostrTags.fromText "Failed to decrypt kind 7376: " event
    if decrypted = "" then
      failWith (.invalidContent "Kind 7376 event has empty decrypted content")
    else do
      let tags ← readOr TypesError.display .invalidContent
        "Failed to parse decrypted kind 7376 content: " (NostrTags.fromText decrypted)
      .ok (historyData event.tags tags)

/-- `prepare_kind_7376`, which encrypts the tags as it writes them. -/
def prepareKind7376 (p : Parser D) (now : UInt64) (t : Template) : ParserResult SignedEvent :=
  if t.kind ≠ 7376 then failWith (.other "event is not kind 7376")
  else do
    let tags ← readOr TypesError.display .other "invalid spending history content: "
      (NostrTags.fromText t.content)
    checkHistory tags
    let encrypted ← p.ownEncrypt (String.ofList (NostrTags.toJson tags))
    p.signStamped now t encrypted

end Parser

/-! ### Kind 17375 -/

/-- A wallet. -/
structure Kind17375Parsed where
  mints : List String
  p2pkPrivKey : Option String
  p2pkPubKey : Option String
  decrypted : Bool
  deriving DecidableEq

namespace Parser

variable {D : Type}

/-- One private tag of a wallet.  A key that is no scalar of the curve stops the
program. -/
def walletTag (p : Parser D) (st : Kind17375Parsed) (tag : List String) :
    ParserResult Kind17375Parsed :=
  match tag with
  | name :: value :: _ =>
    if name = "mint" then .ok { st with mints := st.mints ++ [value] }
    else if name = "privkey" then
      match Bytes32.fromHex "Invalid secret key" value with
      | .error _ => .ok { st with p2pkPrivKey := some value }
      | .ok secret =>
        match p.publicKey secret with
        | none => .error .panic
        | some key => .ok { st with p2pkPrivKey := some value, p2pkPubKey := some key.toHex }
    else .ok st
  | _ => .ok st

/-- The public mints that are not among the private ones. -/
def addMints (st : Kind17375Parsed) (tags : List (List String)) : Kind17375Parsed :=
  tags.foldl (fun st tag =>
    match tag with
    | name :: value :: _ =>
      if name = "mint" ∧ value ∉ st.mints then { st with mints := st.mints ++ [value] } else st
    | _ => st) st

def walletData (p : Parser D) (tags : List (List String)) (plaintext : String) :
    ParserResult Kind17375Parsed := do
  let st ←
    if plaintext = "" then .ok ⟨[], none, none, false⟩
    else
      match NostrTags.fromText plaintext with
      | .ok hidden => hidden.foldlM p.walletTag ⟨[], none, none, true⟩
      | .error (.error _) => .ok ⟨[], none, none, false⟩
      | .error .panic => .error .panic
      | .error .hang => .error .hang
  .ok (addMints st tags)

def parseKind17375 (p : Parser D) (event : SignedEvent) : ParserResult Kind17375Parsed :=
  if event.kind ≠ 17375 then failWith (.other "event is not kind 17375")
  else do
    let decrypted ← p.plaintextOr NostrTags.fromText "Failed to decrypt kind 17375: " event
    p.walletData event.tags decrypted

/-- The checks of `prepare_kind_17375`. -/
def checkWallet (tags : List (List String)) : ParserResult Unit := do
  let (mint, privkey) ← tags.foldlM (fun st tag =>
    match tag with
    | name :: value :: _ =>
      if name = "mint" then .ok (true, st.2)
      else if name = "privkey" then
        if value.utf8ByteSize < 32 then failWith (.other "private key appears invalid")
        else .ok (st.1, true)
      else .ok st
    | _ => .ok st) (false, false)
  if ¬ mint then failWith (.other "wallet must include at least one mint")
  else if ¬ privkey then failWith (.other "wallet must include a private key")
  else .ok ()

def prepareKind17375 (p : Parser D) (now : UInt64) (t : Template) : ParserResult SignedEvent :=
  if t.kind ≠ 17375 then failWith (.other "event is not kind 17375")
  else do
    let tags ← readOr TypesError.display .other "invalid wallet content: "
      (NostrTags.fromText t.content)
    checkWallet tags
    let encrypted ← p.ownEncrypt t.content
    p.signStamped now t encrypted

end Parser

/-! ### Dispatch -/

/-- `ParsedData`, of the modelled kinds. -/
inductive ParsedData (D : Type)
  | kind4 (parsed : Kind4Parsed D)
  | kind7374 (parsed : Kind7374Parsed)
  | kind7375 (parsed : Kind7375Parsed)
  | kind7376 (parsed : Kind7376Parsed)
  | kind17375 (parsed : Kind17375Parsed)
  | list (parsed : ListParsed)
  | other

/-- The kinds from 30000 on that `Parser::parse` reads as lists. -/
def addressableLists : List UInt16 :=
  [30000, 30002, 30003, 30004, 30005, 30007, 30015, 30030, 30063, 30267, 31924, 39089]

/-- The kinds that `Parser::parse` reads as lists. -/
def readAsList (kind : UInt16) : Prop :=
  (10000 ≤ kind ∧ kind < 20000 ∧ kind ∉ [10002, 10019, 17375]) ∨ kind ∈ addressableLists

instance (kind : UInt16) : Decidable (readAsList kind) := inferInstanceAs (Decidable (_ ∨ _))

namespace Parser

variable {D : Type}

/-- `Parser::parse`, without the requests that follow from an event. -/
def parse (p : Parser D) (event : SignedEvent) : ParserResult (ParsedData D) :=
  if event.kind = 4 then (p.parseKind4 event).map .kind4
  else if event.kind = 7374 then (p.parseKind7374 event).map .kind7374
  else if event.kind = 7375 then (p.parseKind7375 event).map .kind7375
  else if event.kind = 7376 then (p.parseKind7376 event).map .kind7376
  else if event.kind = 17375 then (p.parseKind17375 event).map .kind17375
  else if readAsList event.kind then (p.parseNip51 event).map .list
  else (p.parseOther event).map fun _ => .other

/-- The dispatch over the kinds of a template. -/
def prepare (p : Parser D) (now : UInt64) (t : Template) : ParserResult SignedEvent :=
  if t.kind = 4 then p.prepareKind4 now t
  else if t.kind = 7374 then p.prepareKind7374 now t
  else if t.kind = 7375 then p.prepareKind7375 now t
  else if t.kind = 7376 then p.prepareKind7376 now t
  else if t.kind = 17375 then p.prepareKind17375 now t
  else if t.kind ∈ [9321, 1018, 1068, 10019, 9735] then p.prepareOther t
  else if isNip51Kind t.kind then p.prepareNip51 t
  else p.signTemplate t

variable {p : Parser D} {event : SignedEvent}

theorem parse_kind4 (h : event.kind = 4) : p.parse event = (p.parseKind4 event).map .kind4 :=
  if_pos h

theorem parse_kind7374 (h : event.kind = 7374) :
    p.parse event = (p.parseKind7374 event).map .kind7374 := by
  rw [parse, if_neg (by rw [h]; decide), if_pos h]

theorem parse_kind7375 (h : event.kind = 7375) :
    p.parse event = (p.parseKind7375 event).map .kind7375 := by
  rw [parse, if_neg (by rw [h]; decide), if_neg (by rw [h]; decide), if_pos h]

theorem parse_kind7376 (h : event.kind = 7376) :
    p.parse event = (p.parseKind7376 event).map .kind7376 := by
  rw [parse, if_neg (by rw [h]; decide), if_neg (by rw [h]; decide), if_neg (by rw [h]; decide),
    if_pos h]

theorem parse_kind17375 (h : event.kind = 17375) :
    p.parse event = (p.parseKind17375 event).map .kind17375 := by
  rw [parse, if_neg (by rw [h]; decide), if_neg (by rw [h]; decide), if_neg (by rw [h]; decide),
    if_neg (by rw [h]; decide), if_pos h]

theorem parse_list (h : readAsList event.kind) :
    p.parse event = (p.parseNip51 event).map .list := by
  have hne : ∀ k : UInt16, ¬ readAsList k → event.kind ≠ k := fun k hk heq => hk (heq ▸ h)
  rw [parse, if_neg (hne 4 (by decide)), if_neg (hne 7374 (by decide)),
    if_neg (hne 7375 (by decide)), if_neg (hne 7376 (by decide)), if_neg (hne 17375 (by decide)),
    if_pos h]

end Parser

end Nipworker
