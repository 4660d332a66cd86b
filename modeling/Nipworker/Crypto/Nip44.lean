/-
NIP-44 (`crypto/signers/nip44.rs`).

A plaintext goes behind its length and in front of zeros, is encrypted and authenticated,
and travels as base64.  Each step has bounds of its own: on the plaintext, on the text, on
the payload and on the padded body.
-/
import Nipworker.Lib.Base64
import Nipworker.Lib.Wire
import Nipworker.Crypto.PrivateKeyCalls

namespace Nipworker

open List

namespace Nip44

/-! ### The code -/

/-- `ErrorV2`, with the text of the error of `String::from_utf8`. -/
inductive ErrorV2
  | utf8Encode (e : String)
  | hkdfLength (size : ℕ)
  | tryFromSlice
  | messageEmpty
  | messageTooLong
  | invalidHmac
  | invalidPadding
  | invalidPayload
  | unknownVersion (v : UInt8)
  | decodingError (s : String)
  deriving DecidableEq, Repr

/-- The text of an error (`Display`). -/
def ErrorV2.display : ErrorV2 → String
  | .utf8Encode e => "error while encoding to UTF-8: " ++ e
  | .hkdfLength size => "invalid Length for HKDF: " ++ toString size
  | .tryFromSlice => "could not convert slice to array"
  | .messageEmpty => "message empty"
  | .messageTooLong => "message too long"
  | .invalidHmac => "invalid HMAC"
  | .invalidPadding => "invalid padding"
  | .invalidPayload => "invalid payload"
  | .unknownVersion v => "unknown version: " ++ toString v.toNat
  | .decodingError s => "decoding error: " ++ s

/-- `From<ErrorV2> for SignerError`. -/
def ErrorV2.toSigner (e : ErrorV2) : SignerError := .cryptoError e.display

structure Bytes12 where
  bytes : Bytes
  size : bytes.length = 12
  deriving DecidableEq

/-- What the code takes from `hkdf`, `chacha20`, `hmac` and `base64`: HKDF-expand into 76
bytes, the cipher with a key and a nonce, the authentication with a key, and both directions
of base64; and the text of an error of `String::from_utf8`. -/
structure Primitives where
  expand : Bytes32 → Bytes32 → Option { okm : Bytes // okm.length = 76 }
  applyKeystream : Bytes32 → Bytes12 → Bytes → Bytes
  hmac : Bytes32 → Bytes → Bytes32
  base64Encode : Bytes → String
  base64Decode : String → Except String Bytes
  fromUtf8Error : Bytes → String

/-- The keys of one message. -/
structure MessageKeys where
  chachaKey : Bytes32
  chachaNonce : Bytes12
  hmacKey : Bytes32

def version : UInt8 := 2

def minPlaintextSize : ℕ := 1

def maxPlaintextSize : ℕ := 65535

variable (lib : Primitives)

def MessageKeys.derive (conversationKey nonce : Bytes32) : Except SignerError MessageKeys :=
  match lib.expand conversationKey nonce with
  | none => .error (ErrorV2.hkdfLength 0).toSigner
  | some ⟨okm, h⟩ => .ok {
      chachaKey := ⟨okm.take 32, by simp [h]⟩
      chachaNonce := ⟨(okm.take 44).drop 32, by simp [h]⟩
      hmacKey := ⟨okm.drop 44, by simp [h]⟩ }

/-- How long a plaintext gets by its padding. -/
def calcPaddedLen (unpaddedLen : ℕ) : ℕ :=
  if unpaddedLen ≤ 32 then 32
  else
    let nextPower := 1 <<< ((unpaddedLen - 1).log2 + 1)
    let chunk := if nextPower ≤ 256 then 32 else nextPower / 8
    chunk * ((unpaddedLen - 1) / chunk + 1)

/-- The length in two bytes, the plaintext and zeros. -/
def pad (plaintext : Bytes) : Except ErrorV2 Bytes :=
  let len := plaintext.length
  if len < minPlaintextSize then .error .messageEmpty
  else if len > maxPlaintextSize then .error .messageTooLong
  else .ok (beBytes 2 len ++ (plaintext ++ List.replicate (calcPaddedLen len - len) 0))

def unpad (padded : Bytes) : Except ErrorV2 Bytes :=
  if padded.length < 2 then .error .invalidPadding
  else
    let unpaddedLen := ofBeBytes (padded.take 2)
    if unpaddedLen = 0 then .error .messageEmpty
    else if padded.length < 2 + unpaddedLen then .error .invalidPadding
    else if padded.length ≠ 2 + calcPaddedLen unpaddedLen then .error .invalidPadding
    else .ok ((padded.drop 2).take unpaddedLen)

/-- The failure of `getrandom`. -/
def randomFailed (e : String) : SignerError :=
  .cryptoError ("Failed to generate nonce: " ++ e)

/-- `internal_encrypt_to_bytes_with_nonce`; `random` is what `getrandom` answers. -/
def internalEncryptToBytesWithNonce (random : Except String Bytes32) (conversationKey : Bytes32)
    (plaintext : Bytes) (overrideRandomNonce : Option Bytes32) : Except SignerError Bytes := do
  let nonce ← match overrideRandomNonce with
    | some nonce => .ok nonce
    | none => random.mapError randomFailed
  let padded ← (pad plaintext).mapError ErrorV2.toSigner
  let keys ← MessageKeys.derive lib conversationKey nonce
  let ciphertext := lib.applyKeystream keys.chachaKey keys.chachaNonce padded
  let mac := lib.hmac keys.hmacKey (nonce.bytes ++ ciphertext)
  .ok (version :: (nonce.bytes ++ (ciphertext ++ mac.bytes)))

def encryptToBytes (random : Except String Bytes32) (conversationKey : Bytes32)
    (plaintext : Bytes) : Except SignerError Bytes := do
  let nonce ← random.mapError randomFailed
  internalEncryptToBytesWithNonce lib random conversationKey plaintext (some nonce)

def decryptToBytes (conversationKey : Bytes32) (payload : Bytes) : Except SignerError Bytes :=
  let len := payload.length
  if len < 99 ∨ len > 65603 then .error ErrorV2.invalidPayload.toSigner
  else
    let payloadVersion := payload.headD 0
    if payloadVersion ≠ version then .error (ErrorV2.unknownVersion payloadVersion).toSigner
    else
      let nonce := (payload.take 33).drop 1
      let ciphertext := (payload.take (len - 32)).drop 33
      let mac := payload.drop (len - 32)
      if hnonce : nonce.length = 32 then do
        let keys ← MessageKeys.derive lib conversationKey ⟨nonce, hnonce⟩
        if (lib.hmac keys.hmacKey (nonce ++ ciphertext)).bytes ≠ mac then
          .error ErrorV2.invalidHmac.toSigner
        else
          (unpad (lib.applyKeystream keys.chachaKey keys.chachaNonce ciphertext)).mapError
            ErrorV2.toSigner
      else .error ErrorV2.tryFromSlice.toSigner

def encrypt (random : Except String Bytes32) (plaintext : String) (conversationKey : Bytes32) :
    Except SignerError String := do
  let encrypted ← encryptToBytes lib random conversationKey (Utf8.encode plaintext)
  .ok (lib.base64Encode encrypted)

def decrypt (payload : String) (conversationKey : Bytes32) : Except SignerError String :=
  if payload.toList.head? = some '#' then .error (ErrorV2.unknownVersion 0).toSigner
  else
    let plen := (Utf8.encode payload).length
    if plen < 132 ∨ plen > 87472 then .error ErrorV2.invalidPayload.toSigner
    else do
      let data ← (lib.base64Decode payload).mapError fun e => (ErrorV2.decodingError e).toSigner
      let plaintextBytes ← decryptToBytes lib conversationKey data
      match String.fromUTF8? plaintextBytes.toByteArray with
      | some plaintext => .ok plaintext
      | none => .error (ErrorV2.utf8Encode (lib.fromUtf8Error plaintextBytes)).toSigner

/-- What the code relies on: a key of 32 bytes is one for HKDF, the cipher undoes itself and
keeps the length, and base64 has its length and its characters, and reads back. -/
structure Primitives.Lawful (lib : Primitives) : Prop where
  expands : ∀ key info, (lib.expand key info).isSome
  keystream_involutive : ∀ key nonce bytes,
    lib.applyKeystream key nonce (lib.applyKeystream key nonce bytes) = bytes
  keystream_length : ∀ key nonce bytes, (lib.applyKeystream key nonce bytes).length = bytes.length
  base64_inverts : ∀ bytes, lib.base64Decode (lib.base64Encode bytes) = .ok bytes
  base64_length : ∀ bytes,
    (Utf8.encode (lib.base64Encode bytes)).length = 4 * ((bytes.length + 2) / 3)
  base64_chars : ∀ bytes, ∀ c ∈ (lib.base64Encode bytes).toList, isBase64Char c = true

/-! ### The padding -/

theorem chunk_pos (nextPower : ℕ) :
    0 < if nextPower ≤ 256 then 32 else nextPower / 8 := by
  by_cases hsmall : nextPower ≤ 256
  · rw [if_pos hsmall]
    omega
  · rw [if_neg hsmall]
    omega

theorem le_mul_chunks {n chunk : ℕ} (h : 0 < chunk) : n ≤ chunk * ((n - 1) / chunk + 1) := by
  have hdiv := Nat.lt_mul_div_succ (n - 1) h
  omega

theorem mul_chunks_le {n chunk bound : ℕ} (hdvd : chunk ∣ bound) (hn : n < bound) :
    chunk * (n / chunk + 1) ≤ bound := by
  obtain ⟨m, rfl⟩ := hdvd
  exact Nat.mul_le_mul_left chunk (Nat.div_lt_of_lt_mul hn)

/-- A plaintext fits. -/
theorem le_calcPaddedLen (n : ℕ) : n ≤ calcPaddedLen n := by
  rw [calcPaddedLen]
  by_cases hn : n ≤ 32
  · rw [if_pos hn]
    exact hn
  · rw [if_neg hn]
    exact le_mul_chunks (chunk_pos _)

theorem calcPaddedLen_ge (n : ℕ) : 32 ≤ calcPaddedLen n := by
  by_cases hn : n ≤ 32
  · rw [calcPaddedLen, if_pos hn]
  · have := le_calcPaddedLen n
    omega

/-- The padding has a bound. -/
theorem calcPaddedLen_le {n k : ℕ} (hk : 5 ≤ k) (hn : n ≤ 2 ^ k) : calcPaddedLen n ≤ 2 ^ k := by
  have hbound : 2 ^ 5 ≤ 2 ^ k := Nat.pow_le_pow_right (by omega) hk
  rw [calcPaddedLen]
  by_cases hsmall : n ≤ 32
  · rw [if_pos hsmall]
    omega
  · rw [if_neg hsmall, Nat.one_shiftLeft]
    dsimp only
    have hlt : n - 1 < 2 ^ ((n - 1).log2 + 1) := Nat.lt_log2_self
    have hlog : (n - 1).log2 + 1 ≤ k := (Nat.log2_lt (by omega)).mpr (by omega)
    refine (mul_chunks_le ?_ hlt).trans (Nat.pow_le_pow_right (by omega) hlog)
    have hfive : 5 ≤ (n - 1).log2 := (Nat.le_log2 (by omega)).mpr (by omega)
    by_cases hpower : 2 ^ ((n - 1).log2 + 1) ≤ 256
    · rw [if_pos hpower]
      exact Nat.pow_dvd_pow 2 (show 5 ≤ (n - 1).log2 + 1 by omega)
    · rw [if_neg hpower]
      exact Nat.div_dvd_of_dvd (Nat.pow_dvd_pow 2 (show 3 ≤ (n - 1).log2 + 1 by omega))

theorem calcPaddedLen_bounds {n : ℕ} (h : n ≤ maxPlaintextSize) :
    n ≤ calcPaddedLen n ∧ 32 ≤ calcPaddedLen n ∧ calcPaddedLen n ≤ 65536 :=
  ⟨le_calcPaddedLen n, calcPaddedLen_ge n,
    calcPaddedLen_le (k := 16) (by omega) (h.trans (by decide))⟩

def ZeroPadded (padded : Bytes) : Prop :=
  ∀ byte ∈ padded.drop (2 + ofBeBytes (padded.take 2)), byte = 0

variable {plaintext : Bytes}

theorem pad_eq (hmin : minPlaintextSize ≤ plaintext.length)
    (hmax : plaintext.length ≤ maxPlaintextSize) : pad plaintext = .ok (beBytes 2 plaintext.length ++
      (plaintext ++ List.replicate (calcPaddedLen plaintext.length - plaintext.length) 0)) := by
  rw [pad, if_neg (by omega), if_neg (by omega)]

theorem pad_eq_ok {padded : Bytes} (h : pad plaintext = .ok padded) :
    (minPlaintextSize ≤ plaintext.length ∧ plaintext.length ≤ maxPlaintextSize) ∧
      padded = beBytes 2 plaintext.length ++
        (plaintext ++ List.replicate (calcPaddedLen plaintext.length - plaintext.length) 0) := by
  by_cases hmin : minPlaintextSize ≤ plaintext.length
  · by_cases hmax : plaintext.length ≤ maxPlaintextSize
    · rw [pad_eq hmin hmax] at h
      exact ⟨⟨hmin, hmax⟩, (Except.ok.inj h).symm⟩
    · rw [pad, if_neg (by omega), if_pos (by omega)] at h
      exact nomatch h
  · rw [pad, if_pos (by omega)] at h
    exact nomatch h

theorem unpad_eq_ok_iff {padded : Bytes} : unpad padded = .ok plaintext ↔
    2 ≤ padded.length ∧ ofBeBytes (padded.take 2) = plaintext.length ∧ plaintext ≠ [] ∧
      padded.length = 2 + calcPaddedLen plaintext.length ∧
      (padded.drop 2).take plaintext.length = plaintext := by
  rw [unpad]
  by_cases htwo : padded.length < 2
  · rw [if_pos htwo]
    exact iff_of_false (fun h => nomatch h) fun h => absurd h.1 (by omega)
  rw [if_neg htwo]
  by_cases hzero : ofBeBytes (padded.take 2) = 0
  · rw [if_pos hzero]
    refine iff_of_false (fun h => nomatch h) fun ⟨_, hlen, hne, _⟩ => hne ?_
    exact List.length_eq_zero_iff.mp (hlen.symm.trans hzero)
  rw [if_neg hzero]
  by_cases hshort : padded.length < 2 + ofBeBytes (padded.take 2)
  · rw [if_pos hshort]
    refine iff_of_false (fun h => nomatch h) fun ⟨_, hlen, _, hpadded, _⟩ => ?_
    have := le_calcPaddedLen plaintext.length
    omega
  rw [if_neg hshort]
  by_cases hlength : padded.length ≠ 2 + calcPaddedLen (ofBeBytes (padded.take 2))
  · rw [if_pos hlength]
    exact iff_of_false (fun h => nomatch h) fun ⟨_, hlen, _, hpadded, _⟩ => hlength (hlen ▸ hpadded)
  rw [if_neg hlength, Except.ok.injEq]
  constructor
  · rintro rfl
    have hlen : ((padded.drop 2).take (ofBeBytes (padded.take 2))).length =
        ofBeBytes (padded.take 2) := by
      rw [length_take, length_drop]
      omega
    refine ⟨by omega, hlen.symm, fun hnil => ?_, by rw [hlen]; omega, by rw [hlen]⟩
    rw [hnil] at hlen
    exact hzero hlen.symm
  · rintro ⟨-, hlen, -, -, htake⟩
    rw [hlen]
    exact htake

/-- **What `pad` makes of a plaintext is what `unpad` reads it from, with zeros behind.** -/
theorem pad_eq_ok_iff {padded : Bytes} :
    pad plaintext = .ok padded ↔ unpad padded = .ok plaintext ∧ ZeroPadded padded := by
  rw [unpad_eq_ok_iff]
  constructor
  · intro h
    obtain ⟨⟨hmin, hmax⟩, rfl⟩ := pad_eq_ok h
    have hfits : plaintext.length % 256 ^ 2 = plaintext.length :=
      Nat.mod_eq_of_lt (Nat.lt_of_le_of_lt hmax (by decide))
    have hle := le_calcPaddedLen plaintext.length
    refine ⟨⟨?_, ?_, List.length_pos_iff.mp hmin, ?_, ?_⟩, ?_⟩
    · simp
    · rw [take_beBytes, ofBeBytes_beBytes, hfits]
    · simp only [length_append, length_beBytes, length_replicate]
      omega
    · rw [drop_beBytes]
      exact take_left' rfl
    · intro byte hbyte
      rw [take_beBytes, ofBeBytes_beBytes, hfits, ← drop_drop, drop_beBytes,
        drop_left' rfl] at hbyte
      exact eq_of_mem_replicate hbyte
  · rintro ⟨⟨htwo, hlen, hne, hlength, htake⟩, hzero⟩
    have hsize : (padded.take 2).length = 2 := by
      rw [length_take]
      omega
    have hmax : plaintext.length ≤ maxPlaintextSize := by
      have hlt := ofBeBytes_lt (padded.take 2)
      rw [hsize, hlen] at hlt
      exact Nat.le_of_lt_succ hlt
    have hhead : beBytes 2 plaintext.length = padded.take 2 := by
      have hbytes := beBytes_ofBeBytes (padded.take 2)
      rwa [hsize, hlen] at hbytes
    have htail : padded.drop (2 + plaintext.length) =
        List.replicate (calcPaddedLen plaintext.length - plaintext.length) 0 := by
      rw [ZeroPadded, hlen] at hzero
      refine List.eq_replicate_iff.mpr ⟨?_, hzero⟩
      rw [length_drop, hlength]
      omega
    rw [pad_eq (List.length_pos_iff.mpr hne) hmax, hhead, ← htail, ← drop_drop]
    have hbody : plaintext ++ (padded.drop 2).drop plaintext.length = padded.drop 2 := by
      nth_rewrite 1 [← htake]
      exact take_append_drop _ _
    rw [hbody, take_append_drop]

/-! ### The payload -/

section Payload

variable {lib : Primitives}

def payloadOf (lib : Primitives) (keys : MessageKeys) (nonce : Bytes32) (padded : Bytes) : Bytes :=
  let ciphertext := lib.applyKeystream keys.chachaKey keys.chachaNonce padded
  version :: (nonce.bytes ++ (ciphertext ++ (lib.hmac keys.hmacKey (nonce.bytes ++ ciphertext)).bytes))

theorem derive_ok (hlib : lib.Lawful) (key nonce : Bytes32) :
    ∃ keys, MessageKeys.derive lib key nonce = .ok keys := by
  obtain ⟨okm, hokm⟩ := Option.isSome_iff_exists.mp (hlib.expands key nonce)
  rw [MessageKeys.derive, hokm]
  exact ⟨_, rfl⟩

theorem length_payloadOf (hlib : lib.Lawful) (keys : MessageKeys) (nonce : Bytes32)
    (padded : Bytes) : (payloadOf lib keys nonce padded).length = 65 + padded.length := by
  simp only [payloadOf, length_cons, length_append, nonce.size, hlib.keystream_length,
    Bytes32.size]
  omega

variable {random : Except String Bytes32} {key : Bytes32} {plaintext payload : Bytes}

theorem encryptToBytes_eq_ok (h : encryptToBytes lib random key plaintext = .ok payload) :
    ∃ nonce padded keys, pad plaintext = .ok padded ∧
      MessageKeys.derive lib key nonce = .ok keys ∧ payload = payloadOf lib keys nonce padded := by
  obtain ⟨nonce, -, h⟩ := Result.bind_eq_ok.mp h
  obtain ⟨_, hnonce, h⟩ := Result.bind_eq_ok.mp h
  obtain ⟨padded, hpadded, h⟩ := Result.bind_eq_ok.mp h
  obtain ⟨keys, hkeys, h⟩ := Result.bind_eq_ok.mp h
  obtain rfl := Except.ok.inj hnonce
  exact ⟨nonce, padded, keys, Result.mapError_eq_ok.mp hpadded, hkeys, (Except.ok.inj h).symm⟩

theorem encryptToBytes_ok (hlib : lib.Lawful) (nonce key : Bytes32)
    (hmin : minPlaintextSize ≤ plaintext.length) (hmax : plaintext.length ≤ maxPlaintextSize) :
    ∃ payload, encryptToBytes lib (.ok nonce) key plaintext = .ok payload := by
  obtain ⟨keys, hkeys⟩ := derive_ok hlib key nonce
  obtain ⟨padded, hpadded⟩ : ∃ padded, pad plaintext = .ok padded := ⟨_, pad_eq hmin hmax⟩
  refine ⟨payloadOf lib keys nonce padded, Result.bind_eq_ok.mpr ⟨nonce, rfl, ?_⟩⟩
  refine Result.bind_eq_ok.mpr ⟨nonce, rfl, Result.bind_eq_ok.mpr ⟨padded, ?_, ?_⟩⟩
  · exact Result.mapError_eq_ok.mpr hpadded
  · exact Result.bind_eq_ok.mpr ⟨keys, hkeys, rfl⟩

theorem payload_bounds (hlib : lib.Lawful)
    (h : encryptToBytes lib random key plaintext = .ok payload) :
    99 ≤ payload.length ∧ payload.length ≤ 65603 := by
  obtain ⟨nonce, padded, keys, hpadded, -, rfl⟩ := encryptToBytes_eq_ok h
  obtain ⟨⟨hmin, hmax⟩, rfl⟩ := pad_eq_ok hpadded
  obtain ⟨hle, hlow, hhigh⟩ := calcPaddedLen_bounds hmax
  rw [length_payloadOf hlib, length_append, length_append, length_beBytes,
    length_replicate]
  omega

/-- **The bytes that were encrypted are decrypted again.** -/
theorem decryptToBytes_payload (hlib : lib.Lawful)
    (h : encryptToBytes lib random key plaintext = .ok payload) :
    decryptToBytes lib key payload = .ok plaintext := by
  obtain ⟨hlow, hhigh⟩ := payload_bounds hlib h
  obtain ⟨nonce, padded, keys, hpadded, hkeys, rfl⟩ := encryptToBytes_eq_ok h
  have hlength := length_payloadOf hlib keys nonce padded
  -- the four parts of the payload
  have hversion : (payloadOf lib keys nonce padded).headD 0 = version := rfl
  have hnonce : ((payloadOf lib keys nonce padded).take 33).drop 1 = nonce.bytes := by
    rw [payloadOf, take_succ_cons, drop_succ_cons, drop_zero]
    exact take_left' nonce.size
  have hsplit : payloadOf lib keys nonce padded =
      (version :: (nonce.bytes ++ lib.applyKeystream keys.chachaKey keys.chachaNonce padded)) ++
        (lib.hmac keys.hmacKey (nonce.bytes ++
          lib.applyKeystream keys.chachaKey keys.chachaNonce padded)).bytes := by
    simp [payloadOf]
  have hfrontLength : (version :: (nonce.bytes ++
      lib.applyKeystream keys.chachaKey keys.chachaNonce padded)).length =
        (payloadOf lib keys nonce padded).length - 32 := by
    rw [hlength, length_cons, length_append, nonce.size, hlib.keystream_length]
    omega
  have hfront : (payloadOf lib keys nonce padded).take ((payloadOf lib keys nonce padded).length - 32) =
      version :: (nonce.bytes ++ lib.applyKeystream keys.chachaKey keys.chachaNonce padded) := by
    rw [← hfrontLength, hsplit]
    exact take_left' rfl
  have hmac : (payloadOf lib keys nonce padded).drop ((payloadOf lib keys nonce padded).length - 32) =
      (lib.hmac keys.hmacKey (nonce.bytes ++
        lib.applyKeystream keys.chachaKey keys.chachaNonce padded)).bytes := by
    rw [← hfrontLength, hsplit]
    exact drop_left' rfl
  have hciphertext : (version :: (nonce.bytes ++
      lib.applyKeystream keys.chachaKey keys.chachaNonce padded)).drop 33 =
        lib.applyKeystream keys.chachaKey keys.chachaNonce padded := by
    rw [drop_succ_cons]
    exact drop_left' nonce.size
  rw [decryptToBytes]
  dsimp only
  rw [if_neg (by omega), hversion, if_neg (not_not.mpr rfl), dif_pos (hnonce ▸ nonce.size)]
  simp only [hnonce, hfront, hmac, hciphertext]
  refine Result.bind_eq_ok.mpr ⟨keys, hkeys, ?_⟩
  rw [if_neg (not_not.mpr rfl), hlib.keystream_involutive]
  exact Result.mapError_eq_ok.mpr (pad_eq_ok_iff.mp hpadded).1

/-! ### The text -/

theorem encrypt_eq_ok {plaintext text : String} :
    encrypt lib random plaintext key = .ok text ↔ ∃ payload,
      encryptToBytes lib random key (Utf8.encode plaintext) = .ok payload ∧
        lib.base64Encode payload = text := by
  rw [encrypt, Result.bind_eq_ok]
  exact exists_congr fun payload => and_congr_right fun _ =>
    ⟨fun h => Except.ok.inj h, fun h => congrArg Except.ok h⟩

theorem text_bounds (hlib : lib.Lawful) (hlow : 99 ≤ payload.length)
    (hhigh : payload.length ≤ 65603) : 132 ≤ (Utf8.encode (lib.base64Encode payload)).length ∧
      (Utf8.encode (lib.base64Encode payload)).length ≤ 87472 := by
  rw [hlib.base64_length]
  omega

/-- **A text that was encrypted is decrypted again.** -/
theorem decrypt_encrypted (hlib : lib.Lawful)
    {plaintext text : String} (h : encrypt lib random plaintext key = .ok text) :
    decrypt lib text key = .ok plaintext := by
  obtain ⟨payload, hpayload, rfl⟩ := encrypt_eq_ok.mp h
  obtain ⟨hlow, hhigh⟩ := payload_bounds hlib hpayload
  obtain ⟨htextLow, htextHigh⟩ := text_bounds hlib hlow hhigh
  have hhash : (lib.base64Encode payload).toList.head? ≠ some '#' := fun hhead =>
    absurd (hlib.base64_chars payload '#' (mem_of_mem_head? hhead)) (by decide)
  rw [decrypt, if_neg hhash]
  dsimp only
  rw [if_neg (by omega), hlib.base64_inverts]
  refine Result.bind_eq_ok.mpr ⟨payload, rfl, Result.bind_eq_ok.mpr ⟨Utf8.encode plaintext,
    decryptToBytes_payload hlib hpayload, ?_⟩⟩
  rw [Utf8.fromUTF8_encode]

end Payload

/-- **NIP-44 goes round at every length**: a text of 1 to 65535 bytes is encrypted under every
key and every nonce and decrypted again; a plaintext fits into its padding; what `pad` makes
is what `unpad` reads with zeros behind; and what is encrypted has a length that is decrypted. -/
theorem nip44_roundTrip {lib : Primitives} (hlib : lib.Lawful) :
    (∀ (plaintext : String) (key nonce : Bytes32), 1 ≤ (Utf8.encode plaintext).length →
      (Utf8.encode plaintext).length ≤ 65535 → ∃ text, encrypt lib (.ok nonce) plaintext key = .ok text ∧
        decrypt lib text key = .ok plaintext) ∧
    (∀ n, n ≤ calcPaddedLen n) ∧
    (∀ plaintext, 1 ≤ plaintext.length → plaintext.length ≤ 65535 →
      ∃ padded, pad plaintext = .ok padded ∧ unpad padded = .ok plaintext) ∧
    (∀ plaintext padded, pad plaintext = .ok padded ↔
      unpad padded = .ok plaintext ∧ ZeroPadded padded) ∧
    (∀ random plaintext key text, encrypt lib random plaintext key = .ok text →
      132 ≤ (Utf8.encode text).length ∧ (Utf8.encode text).length ≤ 87472 ∧ ∃ payload,
        lib.base64Decode text = .ok payload ∧ 99 ≤ payload.length ∧ payload.length ≤ 65603) := by
  refine ⟨fun plaintext key nonce hmin hmax => ?_, le_calcPaddedLen, fun plaintext hmin hmax => ?_,
    fun plaintext padded => pad_eq_ok_iff, fun random plaintext key text h => ?_⟩
  · obtain ⟨payload, hpayload⟩ := encryptToBytes_ok hlib nonce key hmin hmax
    have hencrypt : encrypt lib (.ok nonce) plaintext key = .ok (lib.base64Encode payload) :=
      encrypt_eq_ok.mpr ⟨payload, hpayload, rfl⟩
    exact ⟨_, hencrypt, decrypt_encrypted hlib hencrypt⟩
  · exact ⟨_, pad_eq hmin hmax, (pad_eq_ok_iff.mp (pad_eq hmin hmax)).1⟩
  · obtain ⟨payload, hpayload, rfl⟩ := encrypt_eq_ok.mp h
    obtain ⟨hlow, hhigh⟩ := payload_bounds hlib hpayload
    obtain ⟨htextLow, htextHigh⟩ := text_bounds hlib hlow hhigh
    exact ⟨htextLow, htextHigh, payload, hlib.base64_inverts payload, hlow, hhigh⟩

/-! A key and a nonce. -/

/-- The bytes of a stream on those of a text, which go on when the stream ends. -/
def xorWith : Bytes → Bytes → Bytes
  | _, [] => []
  | [], byte :: bytes => byte :: bytes
  | key :: stream, byte :: bytes => (byte ^^^ key) :: xorWith stream bytes

theorem xorWith_involutive (stream bytes : Bytes) : xorWith stream (xorWith stream bytes) = bytes := by
  induction bytes generalizing stream with
  | nil => cases stream <;> rfl
  | cons byte bytes ih =>
    cases stream with
    | nil => rfl
    | cons key stream =>
      rw [xorWith, xorWith, ih, UInt8.xor_assoc, UInt8.xor_self, UInt8.xor_zero]

theorem length_xorWith (stream bytes : Bytes) : (xorWith stream bytes).length = bytes.length := by
  induction bytes generalizing stream with
  | nil => cases stream <;> rfl
  | cons byte bytes ih =>
    cases stream with
    | nil => rfl
    | cons key stream => rw [xorWith, length_cons, length_cons, ih]

def vectorKey : Bytes32 where
  bytes := [0xc4, 0x1c, 0x77, 0x53, 0x56, 0xfd, 0x92, 0xea, 0xdc, 0x63, 0xff, 0x5a, 0x0d, 0xc1,
    0xda, 0x21, 0x1b, 0x26, 0x8c, 0xbe, 0xa2, 0x23, 0x16, 0x76, 0x70, 0x95, 0xb2, 0x87,
    0x1e, 0xa1, 0x41, 0x2d]
  size := rfl

theorem length_zerosThenOne : (List.replicate 31 (0 : UInt8) ++ [1]).length = 32 := rfl

def vectorNonce : Bytes32 where
  bytes := List.replicate 31 0 ++ [1]
  size := length_zerosThenOne

/-- The primitives, as they answer for that key, that nonce and the text `a`. -/
def vectorPrimitives : Primitives where
  expand := fun _ _ => some ⟨[0x63, 0xe6, 0x4c, 0xa5, 0x52, 0xc6, 0xa0, 0x66, 0x4d, 0x4f, 0x64, 0x02, 0xc0, 0x33,
    0xfd, 0x69, 0x8f, 0x43, 0xd5, 0x31, 0x52, 0x0e, 0x17, 0x7d, 0x7c, 0x5c, 0x84, 0x35,
    0x7f, 0xea, 0xfd, 0x1a, 0x1f, 0x58, 0x29, 0x4f, 0xc1, 0xd2, 0x70, 0xdc, 0x40, 0x71,
    0x46, 0xca, 0xb3, 0xbd, 0x11, 0x76, 0xdb, 0x3c, 0x37, 0x7f, 0x82, 0xfd, 0x03, 0x16,
    0x2d, 0x0f, 0x3a, 0x9a, 0x32, 0x3c, 0xac, 0xe3, 0x9f, 0xb8, 0x99, 0x70, 0xb9, 0xf3,
    0x23, 0x95, 0x47, 0x6e, 0x1a, 0x08], rfl⟩
  applyKeystream := fun _ _ bytes => xorWith [0x79, 0xec, 0x67, 0xe5, 0x54, 0x8a, 0xd3, 0xff, 0x58, 0xca, 0x92, 0x0e, 0x6c, 0x0b,
    0x43, 0x29, 0xf6, 0x04, 0x02, 0x30, 0xf7, 0xe6, 0xe5, 0x64, 0x1f, 0x20, 0x74, 0x17,
    0x80, 0xf0, 0xad, 0xc3, 0x5a, 0x09] bytes
  hmac := fun _ _ => ⟨[0x79, 0x42, 0x59, 0x92, 0x9a, 0x02, 0xbb, 0x06, 0xad, 0x8e, 0x8c, 0xf7, 0x09, 0xee,
    0x4c, 0xcc, 0x56, 0x7e, 0x9d, 0x51, 0x4c, 0xdf, 0x57, 0x81, 0xaf, 0x27, 0xa3, 0xe9,
    0x05, 0xe5, 0x5b, 0x1b], rfl⟩
  base64Encode := fun bytes => String.ofList (Base64.encode bytes)
  base64Decode := fun text =>
    match Base64.decode text.toList with
    | some bytes => .ok bytes
    | none => .error "Invalid padding"
  fromUtf8Error := fun _ => "invalid utf-8 sequence of 1 bytes from index 0"

theorem lawful_vector : vectorPrimitives.Lawful where
  expands := fun _ _ => rfl
  keystream_involutive := fun _ _ bytes => xorWith_involutive _ bytes
  keystream_length := fun _ _ bytes => length_xorWith _ bytes
  base64_inverts := fun bytes => by
    simp only [vectorPrimitives, String.toList_ofList, Base64.decode_encode]
  base64_length := fun bytes => by
    have hascii : ∀ c ∈ (String.ofList (Base64.encode bytes)).toList, c.toNat < 128 := by
      rw [String.toList_ofList]
      exact Base64.ascii_encode bytes
    rw [vectorPrimitives, Utf8.length_encode_of_ascii hascii, String.toList_ofList,
      Base64.length_encode]
  base64_chars := fun bytes c hc => by
    rw [vectorPrimitives, String.toList_ofList] at hc
    exact decide_eq_true (Base64.mem_encode bytes c hc)

theorem nip44_roundTrip_vector : ∃ text,
    encrypt vectorPrimitives (.ok vectorNonce) "a" vectorKey = .ok text ∧
      decrypt vectorPrimitives text vectorKey = .ok "a" :=
  (nip44_roundTrip lawful_vector).1 "a" vectorKey vectorNonce (by decide) (by decide)

example : encrypt vectorPrimitives (.ok vectorNonce) "a" vectorKey = .ok ("AgAAAAAAAAAAAAAAAAAAAAAAAA" ++
    "AAAAAAAAAAAAAAAAABee0G5VSK0/9YypIObAtDKfYEAjD35uVkHyB0F4DwrcNaCXlCWZKaArsGrY6M9wnuTMxWfp1RT" ++
    "N9Xga8no+kF5Vsb") := by
  decide +kernel

end Nip44

end Nipworker
