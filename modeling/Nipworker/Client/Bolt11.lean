/-
BOLT11 invoices in the client: `isWellFormedBolt11` of the content parser, over code units.

A body that returns `false` early is `none`.
-/
import Nipworker.Lib.JsBits
import Nipworker.Lib.JsString

namespace Nipworker

namespace ParseContent

open Js

/-- `s.indexOf(u)`: `-1` when it is not there. -/
def indexOf (s : JsString) (u : UInt16) : ℤ :=
  match s.idxOf? u with
  | some i => i
  | none => -1

def bech32Charset : JsString :=
  units ['q', 'p', 'z', 'r', 'y', '9', 'x', '8', 'g', 'f', '2', 't', 'v', 'd', 'w', '0', 's', '3',
    'j', 'n', '5', '4', 'k', 'h', 'c', 'e', '6', 'm', 'u', 'a', '7', 'l']

def secp256k1Order : ℕ := 0xfffffffffffffffffffffffffffffffebaaedce6af48a03bbfd25e8cd0364141

/-- The generators of `bech32PolymodStep`. -/
def generators : List ℤ := [0x3b6a57b2, 0x26508e6d, 0x1ea119fa, 0x3d4233dd, 0x2a1462b3]

/-- The checksum in 32-bit operators on numbers. -/
def bech32PolymodStep (checksum value : ℤ) : ℤ :=
  let top := shiftRight checksum 25
  let next := shiftRight (bitXor (shiftLeft (bitAnd checksum 0x01ffffff) 5) value) 0
  generators.zipIdx.foldl (fun next generator =>
    if bitAnd (shiftRight top generator.2) 1 ≠ 0 then shiftRight (bitXor next generator.1) 0
    else next) next

def multipliers : UInt16 → Option ℕ
  | 109 => some 1000000000
  | 117 => some 1000000
  | 110 => some 1000
  | 112 => some 1
  | _ => none

/-- `/[0-9]/`. -/
def isDigitUnit (u : UInt16) : Bool := 48 ≤ u ∧ u ≤ 57

/-- `/^[1-9][0-9]*$/`. -/
def isPositiveDecimal : JsString → Bool
  | [] => false
  | first :: rest => 49 ≤ first && first ≤ 57 && rest.all isDigitUnit

/-- The networks in the order they are tried: `bcrt`, `tbs`, `tb`, `bc`. -/
def networks : List JsString :=
  [[98, 99, 114, 116], [116, 98, 115], [116, 98], [98, 99]]

/-- `isValidBolt11Hrp`. The amounts are big integers. -/
def isValidBolt11Hrp (hrp : JsString) : Option Bool := do
  let networkAndAmount := hrp.drop 2
  guard (startsWith hrp [108, 110] 0 = true)
  let network ← networks.find? fun candidate => startsWith networkAndAmount candidate 0
  let amount := networkAndAmount.drop network.length
  if amount.isEmpty then pure true
  else do
    let found := amount.getLast?.bind multipliers
    let multiplier := found.getD 1000000000000
    let digits := if found.isSome then amount.dropLast else amount
    guard (isPositiveDecimal digits = true)
    let maxRawAmount := (2 ^ 64 - 1) / multiplier
    let rawAmount ← digits.foldlM (fun rawAmount digit =>
      let next := rawAmount * 10 + (digit.toNat - 48)
      if next > maxRawAmount then none else some next) 0
    pure (rawAmount * multiplier % 10 == 0)

/-- The bytes are numbers from 0 to 255, the scalar a big integer. -/
def isValidSecp256k1Scalar (bytes : List ℤ) : Bool :=
  let scalar := bytes.foldl (fun scalar byte => (scalar <<< 8) ||| byte.toNat) 0
  0 < scalar && scalar < secp256k1Order

/-- The checksum of prefix and data, from `1`. -/
def invoiceChecksum (hrp data : JsString) : Option ℤ := do
  let high := hrp.foldl (fun checksum char =>
    bech32PolymodStep checksum (shiftRight char.toNat 5)) 1
  let low := hrp.foldl (fun checksum char =>
    bech32PolymodStep checksum (bitAnd char.toNat 31)) (bech32PolymodStep high 0)
  data.foldlM (fun checksum char => do
    let value := indexOf bech32Charset char
    guard (value ≠ -1)
    pure (bech32PolymodStep checksum value)) low

/-- `bech32Charset.indexOf(data[index])`; past the end the argument is `undefined`, and the
charset does not contain that word. -/
def valueAt (data : JsString) (index : ℤ) : ℤ :=
  match data[index.toNat]? with
  | some char => if index < 0 then -1 else indexOf bech32Charset char
  | none => -1

def hashFieldOk (data : JsString) (fieldLength fieldEnd : ℤ) : Bool :=
  ¬ (fieldLength ≠ 52 ∨ bitAnd (valueAt data (fieldEnd - 1)) 15 ≠ 0)

/-- The walk over the tagged fields, from an index: how many payment hashes and how many
descriptions there are. -/
def walkFields (data : JsString) (taggedEnd : ℤ) : ℕ → ℤ → ℤ → ℤ → Option (ℤ × ℤ)
  | 0, _, paymentHashes, descriptions => pure (paymentHashes, descriptions)
  | rounds + 1, index, paymentHashes, descriptions =>
    if index < taggedEnd then do
      guard (index + 3 ≤ taggedEnd)
      let tag := valueAt data index
      let lengthHigh := valueAt data (index + 1)
      let lengthLow := valueAt data (index + 2)
      guard (¬ (tag = -1 ∨ lengthHigh = -1 ∨ lengthLow = -1))
      let fieldLength := bitOr (shiftLeft lengthHigh 5) lengthLow
      let fieldEnd := index + 3 + fieldLength
      guard (fieldEnd ≤ taggedEnd)
      if tag = 1 then do
        guard (hashFieldOk data fieldLength fieldEnd = true)
        walkFields data taggedEnd rounds fieldEnd (paymentHashes + 1) descriptions
      else if tag = 13 then
        walkFields data taggedEnd rounds fieldEnd paymentHashes (descriptions + 1)
      else if tag = 23 then do
        guard (hashFieldOk data fieldLength fieldEnd = true)
        walkFields data taggedEnd rounds fieldEnd paymentHashes (descriptions + 1)
      else walkFields data taggedEnd rounds fieldEnd paymentHashes descriptions
    else pure (paymentHashes, descriptions)

/-- The words that are read so far, and the bytes of the signature. -/
structure Words where
  accumulator : ℤ
  bits : ℤ
  signatureBytes : List ℤ

/-- Five bits more; eight of them make a byte of the signature. -/
def decodeWord (words : Words) (char : UInt16) : Option Words := do
  let value := indexOf bech32Charset char
  guard (value ≠ -1)
  let accumulator := bitOr (shiftLeft words.accumulator 5) value
  let bits := words.bits + 5
  if 8 ≤ bits then
    let bits := bits - 8
    let decoded := bitAnd (shiftRight accumulator bits) 0xff
    pure { accumulator := bitAnd accumulator (shiftLeft 1 bits - 1)
           bits
           signatureBytes := words.signatureBytes ++ [decoded] }
  else pure { words with accumulator, bits }

/-- The checks on the signature. A missing byte compares with nothing. -/
def signatureOk (words : Words) : Bool :=
  words.signatureBytes.length = 65 && words.bits = 0 &&
    (match words.signatureBytes[64]? with
      | some recovery => decide (recovery ≤ 3)
      | none => false) &&
    isValidSecp256k1Scalar (words.signatureBytes.take 32) &&
    isValidSecp256k1Scalar ((words.signatureBytes.take 64).drop 32)

def dataOk (hrp data : JsString) : Option Bool := do
  guard (117 ≤ data.length)
  let checksum ← invoiceChecksum hrp data
  guard (checksum = 1)
  let taggedEnd : ℤ := data.length - 6 - 104
  guard (7 ≤ taggedEnd)
  let counts ← walkFields data taggedEnd (taggedEnd - 7).toNat 7 0 0
  guard (counts.1 = 1 ∧ counts.2 = 1)
  let words ← (slice data taggedEnd.toNat (data.length - 6)).foldlM decodeWord
    { accumulator := 0, bits := 0, signatureBytes := [] }
  pure (signatureOk words)

/-- `toLowerCase` on an ASCII string. -/
def toLowerCase (s : JsString) : JsString := s.map fun u => if 65 ≤ u ∧ u ≤ 90 then u + 32 else u

/-- `toUpperCase` on an ASCII string. -/
def toUpperCase (s : JsString) : JsString := s.map fun u => if 97 ≤ u ∧ u ≤ 122 then u - 32 else u

/-- `s.lastIndexOf(u)`. -/
def lastIndexOf (s : JsString) (u : UInt16) : ℤ :=
  match s.reverse.idxOf? u with
  | some i => (s.length : ℤ) - 1 - i
  | none => -1

/-- The body of `isWellFormedBolt11`, which begins with the regular expression
`/^[\x00-\x7f]+$/`. -/
def body (invoice : JsString) : Option Bool := do
  guard (invoice ≠ [] ∧ invoice.all (· ≤ 0x7f) = true)
  guard (invoice = toLowerCase invoice ∨ invoice = toUpperCase invoice)
  let normalized := toLowerCase invoice
  let separator := lastIndexOf normalized 49
  guard (¬ (separator ≤ 0 ∨ separator = normalized.length - 1))
  let hrp := slice normalized 0 separator.toNat
  let data := normalized.drop (separator + 1).toNat
  guard ((isValidBolt11Hrp hrp).getD false = true)
  dataOk hrp data

/-- All that is asked of an invoice: prefix, checksum, fields and signature. -/
def isWellFormedBolt11 (invoice : JsString) : Bool := (body invoice).getD false

end ParseContent

end Nipworker
