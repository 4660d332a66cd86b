/-
Zap receipts (`parser/kind9735.rs`).

A zap receipt carries the invoice that was paid, and in its description the zap request
it was paid for.  The amount is that of the request, in millisatoshis; without one it is
read off the invoice.
-/
import Nipworker.Client.Bolt11Steps
import Nipworker.Parser.EncryptedKinds

namespace Nipworker
namespace ZapReceipt

open Bolt11 BaseJsonParser

/-! ### The amount of an invoice -/

def decimal (digits : Bytes) : ℕ := ParseContent.amountOf digits 0

def isAsciiAlphabetic (byte : UInt8) : Bool := isAsciiLowercase byte || isAsciiUppercase byte

def splitUnit (amount : Bytes) : Bytes × Option UInt8 :=
  match amount.getLast? with
  | none => (amount, none)
  | some last => if isAsciiAlphabetic last then (amount.dropLast, some last) else (amount, none)

/-- `parse::<u128>()` of a text that begins with a digit. -/
def parseU128 (digits : Bytes) : Option ℕ :=
  if digits.all isAsciiDigit then
    if decimal digits < 2 ^ 128 then some (decimal digits) else none
  else none

def saturatingMul (a b : ℕ) : ℕ := min (a * b) (2 ^ 128 - 1)

def msatOf (value : ℕ) (unit : Option UInt8) : Option ℕ :=
  if unit = none then some (saturatingMul value 1000)
  else if unit = some 109 then some (saturatingMul value 100000000)
  else if unit = some 117 then some (saturatingMul value 100000)
  else if unit = some 110 then some (saturatingMul value 100)
  else if unit = some 112 then if value % 10 ≠ 0 then none else some (value / 10)
  else none

/-- The part of `sats_from_bolt11_hrp` behind the currency. -/
def satsOfAmount (amountPart : Bytes) : Option ℕ :=
  if amountPart.isEmpty then none
  else
    let (digits, unit) := splitUnit amountPart
    if digits.isEmpty then none
    else do
      let value ← parseU128 digits
      let msat ← msatOf value unit
      let sats := msat / 1000
      if sats = 0 then none
      -- `i64::try_from`
      else if sats < 2 ^ 63 then some sats
      else none

/-- `sats_from_bolt11_hrp`, from the split at the separator on. -/
def satsOfHrp (hrp : Bytes) : Option ℕ :=
  if hrp.length ≤ 2 then none
  else satsOfAmount ((hrp.drop 2).dropWhile fun byte => !isAsciiDigit byte)

/-- The amount in the human-readable part of an invoice, over the bytes of a string. -/
def satsFromBolt11Hrp (invoice : Bytes) : Option ℕ :=
  let lower := invoice.map toAsciiLowercase
  if ([108, 110] : Bytes).isPrefixOf lower then
    -- `split_once('1')`
    if lower.contains 49 then satsOfHrp (lower.takeWhile (· != 49)) else none
  else none

/-! ### The zap request -/

/-- The request that a receipt answers. -/
structure ZapRequest where
  kind : UInt16
  pubkey : String
  content : String
  tags : List (List String)
  signature : Option String
  deriving DecidableEq

/-- What has been read of a request: the flag is `has_content`. -/
structure ZapRequest.Partial where
  request : ZapRequest
  hasContent : Bool

/-- The fields of a `ZapRequest`. -/
def ZapRequest.field (size : ℕ) (key : List Char) (st : ZapRequest.Partial) (cs : List Char) :
    ParserResult (ZapRequest.Partial × List Char) :=
  if key = "kind".toList then
    (parseU64 cs).map fun p => ({ st with request.kind := UInt16.ofNat p.1 }, p.2)
  else if key = "pubkey".toList then
    (stringUnescaped size cs).map fun p => ({ st with request.pubkey := p.1 }, p.2)
  else if key = "content".toList then
    (stringUnescaped size cs).map fun p =>
      ({ st with request.content := p.1, hasContent := true }, p.2)
  else if key = "tags".toList then do
    let (raw, rest) ← parseRawJsonValue cs
    let tags ← (NostrTags.fromText (String.ofList raw)).mapError fun stop =>
      stop.map ParserError.typesError
    .ok ({ st with request.tags := tags }, rest)
  else if key = "signature".toList then
    (stringUnescaped size cs).map fun p => ({ st with request.signature := some p.1 }, p.2)
  else (skipValue size cs).map fun rest => (st, rest)

/-- The request in the description of a receipt. -/
def ZapRequest.fromJson (json : String) : ParserResult ZapRequest := do
  let text := unescapeIfNeeded json.toList
  let size := byteLength text
  let (st, _) ← object size (ZapRequest.field size) ⟨⟨0, "", "", [], none⟩, false⟩ (skipWs text)
  if st.request.pubkey = "" ∨ st.hasContent = false then
    .error (invalidFormat "Missing required fields in ZapRequest")
  else .ok st.request

def findTagInVec (tags : List (List String)) (name : String) : Option (List String) :=
  tags.find? fun tag => tag[0]? == some name

/-! ### The receipt -/

/-- `parse::<i64>()`. -/
def parseI64Text (s : String) : Option ℤ :=
  match s.toList with
  | '-' :: digits =>
    (Text.parseDecimal digits).bind fun n => if n ≤ 2 ^ 63 then some (-(n : ℤ)) else none
  | cs => (Text.parseDecimal (dropPlus cs)).bind fun n => if n < 2 ^ 63 then some (n : ℤ) else none

/-- The millisatoshis of the `amount` tag of a request. -/
def taggedMsat (request : ZapRequest) : Option ℤ :=
  (findTagInVec request.tags "amount").bind fun tag => tag[1]?.bind parseI64Text

/-- The amount of the request, as `i32`, or `0`. -/
def requestedAmount (request : ZapRequest) : Int32 :=
  ((taggedMsat request).map fun msat => Int32.ofInt (msat.tdiv 1000)).getD 0

/-- The satoshis of the invoice as `i32`, or `0`. -/
def paidAmount : Option ℕ → Int32
  | none => 0
  | some sats => if sats < 2 ^ 31 then Int32.ofNat sats else 0

/-- The amount of the receipt: that of the request or, if that is `0`, of the invoice. -/
def amountOf (request : ZapRequest) (bolt11 : String) : Int32 :=
  if requestedAmount request = 0 then
    paidAmount (satsFromBolt11Hrp (Utf8.bytes bolt11.toList))
  else requestedAmount request

/-- The tags of a receipt; of each name the last tag with a value counts. -/
structure Tags where
  p : Option String
  e : Option String
  a : Option String
  bolt11 : Option String
  description : Option String
  preimage : Option String
  sender : Option String

def Tags.add (st : Tags) (tag : List String) : Tags :=
  match tag with
  | name :: value :: _ =>
    if name = "p" then { st with p := some value }
    else if name = "e" then { st with e := some value }
    else if name = "a" then { st with a := some value }
    else if name = "bolt11" then { st with bolt11 := some value }
    else if name = "description" then { st with description := some value }
    else if name = "preimage" then { st with preimage := some value }
    else if name = "P" then { st with sender := some value }
    else st
  | _ => st

/-- A zap receipt. -/
structure Kind9735Parsed where
  id : String
  amount : Int32
  content : String
  bolt11 : String
  preimage : Option String
  sender : String
  recipient : String
  event : Option String
  eventCoordinate : Option String
  timestamp : ℕ
  valid : Bool
  description : ZapRequest
  deriving DecidableEq

/-- The recipient of the request is that of the receipt; a tag without a value agrees with
any. -/
def sameRecipient (request : ZapRequest) (recipient : String) : Bool :=
  match findTagInVec request.tags "p" with
  | none => false
  | some tag => tag[1]? == none || tag[1]? == some recipient

/-- What the receipt names with a tag, if it does, the request names too. -/
def sameValue (request : ZapRequest) (name : String) (value : Option String) : Bool :=
  match value with
  | none => true
  | some value =>
    match findTagInVec request.tags name with
    | none => false
    | some tag => tag[1]? == some value

/-- `parse_kind_9735`, without the requests that follow from an event. -/
def parseKind9735 (event : SignedEvent) : ParserResult Kind9735Parsed :=
  if event.kind ≠ 9735 then failWith (.other "event is not kind 9735")
  else
    let tags := event.tags.foldl Tags.add ⟨none, none, none, none, none, none, none⟩
    match tags.p, tags.bolt11, tags.description with
    | some recipient, some bolt11, some description => do
      let request ← readOr ParserError.display .other "failed to parse zap request description: "
        (ZapRequest.fromJson description)
      if request.kind ≠ 9734 ∨ request.tags = [] then failWith (.other "invalid zap request")
      else
        .ok
          { id := event.id.toHex
            amount := amountOf request bolt11
            content := request.content
            bolt11
            preimage := tags.preimage
            sender := tags.sender.getD request.pubkey
            recipient
            event := tags.e
            eventCoordinate := tags.a
            timestamp := event.createdAt
            valid := sameRecipient request recipient && sameValue request "e" tags.e &&
              sameValue request "a" tags.a
            description := request }
    | _, _, _ => failWith (.other "missing required tags")

end ZapReceipt
end Nipworker
