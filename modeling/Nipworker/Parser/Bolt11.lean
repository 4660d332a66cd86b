/-
BOLT11 invoices: `is_well_formed_bolt11` and its helpers, over the bytes of a string.

A body goes on, has returned, or has stopped at a fault: an index or a slice out of bounds,
or an addition or subtraction that leaves its type.
-/
import Nipworker.Lib.Bech32
import Nipworker.Lib.StrSlice

namespace Nipworker

/-- A `&str`: some characters, whose bytes fit into an `isize`, as those of every value do. -/
structure RustStr where
  chars : List Char
  fits : (Utf8.bytes chars).length < 2 ^ 63

/-- `as_bytes`. -/
def RustStr.bytes (s : RustStr) : Bytes := Utf8.bytes s.chars

namespace Bolt11

/-! ### Bodies -/

/-- The body panics, or returns early. -/
inductive Exit
  | fault
  | returned (answer : Bool)

/-- Bodies that can return early and can fault. -/
abbrev Body := Except Exit

namespace Body

/-- What the caller gets: `none` is a fault. -/
def answer : Body Bool → Option Bool
  | .ok answer => some answer
  | .error (.returned answer) => some answer
  | .error .fault => none

/-- A call: an early return of the callee is an answer like any other. -/
def call (body : Body Bool) : Body Bool :=
  match body.answer with
  | some answer => .ok answer
  | none => .error .fault

/-- `if !condition { return false; }`. -/
def require (condition : Bool) : Body Unit :=
  if condition then .ok () else .error (.returned false)

/-- `let Some(value) = … else { return false; }`. -/
def orReturn {α : Type} : Option α → Body α
  | some value => .ok value
  | none => .error (.returned false)

/-- `bytes[index]`. -/
def index (bytes : Bytes) (i : ℕ) : Body UInt8 :=
  match bytes[i]? with
  | some byte => .ok byte
  | none => .error .fault

/-- `&bytes[start..stop]`. -/
def slice (bytes : Bytes) (start stop : ℕ) : Body Bytes :=
  if start ≤ stop ∧ stop ≤ bytes.length then .ok ((bytes.take stop).drop start)
  else .error .fault

def add (values a b : ℕ) : Body ℕ :=
  if a + b < values then .ok (a + b) else .error .fault

def sub (a b : ℕ) : Body ℕ :=
  if b ≤ a then .ok (a - b) else .error .fault

variable {α β : Type}

theorem ok_bind (a : α) (f : α → Body β) : (Except.ok a >>= f) = f a := rfl

theorem orReturn_some (a : α) : orReturn (some a) = .ok a := rfl

theorem index_ok {bytes : Bytes} {i : ℕ} (h : i < bytes.length) : index bytes i = .ok bytes[i] := by
  rw [index, List.getElem?_eq_getElem h]

theorem slice_ok {bytes : Bytes} {start stop : ℕ} (hstart : start ≤ stop)
    (hstop : stop ≤ bytes.length) : slice bytes start stop = .ok ((bytes.take stop).drop start) :=
  if_pos ⟨hstart, hstop⟩

theorem add_ok {values a b : ℕ} (h : a + b < values) : add values a b = .ok (a + b) := if_pos h

theorem sub_ok {a b : ℕ} (h : b ≤ a) : sub a b = .ok (a - b) := if_pos h

end Body

open Body

/-- The values of a `usize`. -/
def usize : ℕ := 2 ^ 64

/-! ### Characters -/

/-- `BECH32_CHARSET`, the letters and digits `qpzry9x8gf2tvdw0s3jn54khce6mua7l`. -/
def bech32Charset : Bytes :=
  ['q', 'p', 'z', 'r', 'y', '9', 'x', '8', 'g', 'f', '2', 't', 'v', 'd', 'w', '0', 's', '3', 'j',
    'n', '5', '4', 'k', 'h', 'c', 'e', '6', 'm', 'u', 'a', '7', 'l'].map fun c => c.toNat.toUInt8

def isAsciiLowercase (byte : UInt8) : Bool := 97 ≤ byte ∧ byte ≤ 122

def isAsciiUppercase (byte : UInt8) : Bool := 65 ≤ byte ∧ byte ≤ 90

def isAsciiDigit (byte : UInt8) : Bool := 48 ≤ byte ∧ byte ≤ 57

def toAsciiLowercase (byte : UInt8) : UInt8 := if isAsciiUppercase byte then byte + 32 else byte

def bech32Value (byte : UInt8) : Option UInt8 :=
  (bech32Charset.idxOf? (toAsciiLowercase byte)).map Nat.toUInt8

/-- `u32::from`. -/
def toU32 (byte : UInt8) : BitVec 32 := byte.toBitVec.setWidth 32

def bech32PolymodStep (checksum : BitVec 32) (value : UInt8) : BitVec 32 :=
  Bech32.polymodStep checksum (toU32 value)

/-! ### The human-readable part -/

/-- `strip_prefix`. -/
def strip (part bytes : Bytes) : Option Bytes :=
  if part.isPrefixOf bytes then some (bytes.drop part.length) else none

/-- `str::parse::<u64>` on digits, which stops at the first overflow. -/
def parseU64 (digits : Bytes) : Option ℕ :=
  digits.foldlM (fun amount digit =>
    let next := amount * 10 + (digit.toNat - 48)
    if next < 2 ^ 64 then some next else none) 0

/-- The digits of an amount and the pico-bitcoins that one of them is worth. -/
def amountParts (amount : Bytes) : Body (Bytes × ℕ) :=
  let digits : Body Bytes := do slice amount 0 (← sub amount.length 1)
  match amount.getLast? with
  | some 109 => do pure (← digits, 1000000000)
  | some 117 => do pure (← digits, 1000000)
  | some 110 => do pure (← digits, 1000)
  | some 112 => do pure (← digits, 1)
  | _ => pure (amount, 1000000000000)

/-- `digits.is_empty() || digits[0] == b'0' || !digits.iter().all(u8::is_ascii_digit)`, refused. -/
def digitsOk (digits : Bytes) : Body Bool :=
  if digits.isEmpty then pure false
  else do
    let first ← index digits 0
    pure (first != 48 && digits.all isAsciiDigit)

/-- Prefix, network and amount. -/
def isValidBolt11Hrp (hrp : Bytes) : Body Bool := do
  let normalized := hrp.map toAsciiLowercase
  let networkAndAmount ← orReturn (strip [108, 110] normalized)
  let amount ← orReturn ((strip [98, 99, 114, 116] networkAndAmount).or
    ((strip [116, 98, 115] networkAndAmount).or
      ((strip [116, 98] networkAndAmount).or (strip [98, 99] networkAndAmount))))
  if amount.isEmpty then pure true
  else do
    let (digits, multiplier) ← amountParts amount
    require (← digitsOk digits)
    let rawAmount ← orReturn (parseU64 digits)
    pure (rawAmount * multiplier < 2 ^ 64 && rawAmount * multiplier % 10 == 0)

/-! ### The data part -/

/-- The checksum of prefix and data, from the register `1`. -/
def invoiceChecksum (hrp data : Bytes) : Body (BitVec 32) := do
  let high := hrp.foldl (fun checksum byte =>
    bech32PolymodStep checksum (toAsciiLowercase byte >>> 5)) 1
  let low := hrp.foldl (fun checksum byte =>
    bech32PolymodStep checksum (toAsciiLowercase byte &&& 0x1f)) (bech32PolymodStep high 0)
  data.foldlM (fun checksum byte => do
    let value ← orReturn (bech32Value byte)
    pure (bech32PolymodStep checksum value)) low

/-- The check on the payload of a hash: 52 words, the last of which has four bits of padding. -/
def hashFieldOk (data : Bytes) (fieldLength fieldEnd : ℕ) : Body Bool :=
  if fieldLength ≠ 52 then pure false
  else do
    let byte ← index data (← sub fieldEnd 1)
    pure (match bech32Value byte with
      | some value => value &&& 0x0f == 0
      | none => false)

/-- `u8::saturating_add(1)`. -/
def saturatingInc (n : ℕ) : ℕ := min (n + 1) 255

/-- The walk over the tagged fields, from an index: how many payment hashes and how many
descriptions there are. Every round moves on by three words, so that the words that are left
bound the rounds. -/
def walkFields (data : Bytes) (taggedEnd : ℕ) :
    ℕ → ℕ → ℕ → ℕ → Body (ℕ × ℕ)
  | 0, _, paymentHashes, descriptions => pure (paymentHashes, descriptions)
  | rounds + 1, i, paymentHashes, descriptions =>
    if i < taggedEnd then do
      let header ← add usize i 3
      require (header ≤ taggedEnd)
      let tag ← orReturn (bech32Value (← index data i))
      let high ← index data (← add usize i 1)
      let low ← index data (← add usize i 2)
      let lengthHigh ← orReturn (bech32Value high)
      let lengthLow ← orReturn (bech32Value low)
      let fieldLength := (lengthHigh.toNat <<< 5) ||| lengthLow.toNat
      let fieldEnd ← orReturn (if header + fieldLength < usize then some (header + fieldLength)
        else none)
      require (fieldEnd ≤ taggedEnd)
      if tag = 1 then do
        require (← hashFieldOk data fieldLength fieldEnd)
        walkFields data taggedEnd rounds fieldEnd (saturatingInc paymentHashes) descriptions
      else if tag = 13 then
        walkFields data taggedEnd rounds fieldEnd paymentHashes (saturatingInc descriptions)
      else if tag = 23 then do
        require (← hashFieldOk data fieldLength fieldEnd)
        walkFields data taggedEnd rounds fieldEnd paymentHashes (saturatingInc descriptions)
      else walkFields data taggedEnd rounds fieldEnd paymentHashes descriptions
    else pure (paymentHashes, descriptions)

/-- The words that are read so far, and the bytes of the signature. -/
structure Words where
  accumulator : BitVec 32
  bits : ℕ
  signatureBytes : Bytes
  byteCount : ℕ

def decodeWord (words : Words) (encoded : UInt8) : Body Words := do
  let value ← orReturn (bech32Value encoded)
  let accumulator := (words.accumulator <<< 5) ||| toU32 value
  let bits ← add 256 words.bits 5
  if 8 ≤ bits then do
    let bits ← sub bits 8
    let decoded := ((accumulator >>> bits) &&& 0xff).setWidth 8
    require (words.byteCount < words.signatureBytes.length)
    -- `1u32 << bits` is in range, the bits are fewer than eight
    pure { accumulator := accumulator &&& ((1#32 <<< bits) - 1)
           bits
           signatureBytes := words.signatureBytes.set words.byteCount ⟨decoded⟩
           byteCount := words.byteCount + 1 }
  else pure { words with accumulator, bits }

/-- `CURVE_ORDER`, most significant byte first. -/
def curveOrder : Bytes :=
  [0xff, 0xff, 0xff, 0xff, 0xff, 0xff, 0xff, 0xff, 0xff, 0xff, 0xff, 0xff, 0xff, 0xff, 0xff, 0xfe,
    0xba, 0xae, 0xdc, 0xe6, 0xaf, 0x48, 0xa0, 0x3b, 0xbf, 0xd2, 0x5e, 0x8c, 0xd0, 0x36, 0x41, 0x41]

def isValidSecp256k1Scalar (scalar : Bytes) : Bool :=
  scalar.any (· != 0) && scalar < curveOrder

/-- The 104 words of the signature, as 65 bytes. -/
def signatureOk (words : Words) : Body Bool := do
  require (words.byteCount == 65)
  require (words.bits == 0)
  let recovery ← index words.signatureBytes 64
  require (recovery ≤ 3)
  require (isValidSecp256k1Scalar (← slice words.signatureBytes 0 32))
  pure (isValidSecp256k1Scalar (← slice words.signatureBytes 32 64))

def dataOk (hrp data : Bytes) : Body Bool := do
  require (117 ≤ data.length)
  let checksum ← invoiceChecksum hrp data
  require (checksum == 1)
  let checksumStart ← sub data.length 6
  let taggedEnd ← sub checksumStart 104
  require (7 ≤ taggedEnd)
  let (paymentHashes, descriptions) ← walkFields data taggedEnd (taggedEnd - 7) 7 0 0
  require (paymentHashes == 1 && descriptions == 1)
  let signature ← slice data taggedEnd checksumStart
  let words ← signature.foldlM decodeWord
    { accumulator := 0, bits := 0, signatureBytes := List.replicate 65 0, byteCount := 0 }
  signatureOk words

/-- `bytes.iter().rposition(|&byte| byte == b'1')`. -/
def separatorPosition (bytes : Bytes) : Option ℕ :=
  (bytes.reverse.idxOf? 49).map fun i => bytes.length - 1 - i

/-- The body of `is_well_formed_bolt11`. -/
def body (bytes : Bytes) : Body Bool := do
  require (bytes.all (· < 128))
  require (!(bytes.any isAsciiLowercase && bytes.any isAsciiUppercase))
  let separator ← orReturn (separatorPosition bytes)
  let next ← add usize separator 1
  require (!(separator == 0 || bytes.length ≤ next))
  let hrp ← slice bytes 0 separator
  let separatorAndData ← slice bytes separator bytes.length
  let data ← slice separatorAndData 1 separatorAndData.length
  require (← (isValidBolt11Hrp hrp).call)
  dataOk hrp data

end Bolt11

open Bolt11 in
/-- `is_well_formed_bolt11`, `none` when it faults. -/
def isWellFormedBolt11 (invoice : Bytes) : Option Bool := (body invoice).answer

end Nipworker
