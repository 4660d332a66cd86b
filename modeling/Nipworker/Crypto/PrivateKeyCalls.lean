/-
The private key as the signer of a parser (`crypto/signers/pk.rs`,
`crypto/signers/nip04.rs`, `crypto/signers/nip44.rs`).

The two ciphers are parameters: for a secret key and a public key they encrypt and
decrypt a text.  What the parsers rely on is stated once, as `CipherSuite.Sound`.
-/
import Nipworker.Lib.Result
import Nipworker.Crypto.SignEvent
import Nipworker.Parser.Nip51

namespace Nipworker

/-- The text of an error (`Display`). -/
def SignerError.display : SignerError → String
  | .cryptoError message => "Cryptographic operation failed: " ++ message
  | .other message => "Other error: " ++ message

/-- `nip04::encrypt` and `decrypt`, and those of `nip44` with the conversation key
of the two keys: the secret key, the public key of the peer and the text. -/
structure CipherSuite where
  nip04Encrypt : Bytes32 → Bytes32 → String → Except String String
  nip04Decrypt : Bytes32 → Bytes32 → String → Except String String
  nip44Encrypt : Bytes32 → Bytes32 → String → Except String String
  nip44Decrypt : Bytes32 → Bytes32 → String → Except String String

def isBase64Char (c : Char) : Bool := c.isAlphanum ∨ c = '+' ∨ c = '/' ∨ c = '='

/-- Decryption inverts encryption; what is encrypted is base64, with `?iv=` in it
for NIP-04; what is not base64 is not decrypted. -/
structure CipherSuite.Sound (cipher : CipherSuite) : Prop where
  nip04_inverts : ∀ {secret key : Bytes32} {text encrypted : String},
    cipher.nip04Encrypt secret key text = .ok encrypted →
      cipher.nip04Decrypt secret key encrypted = .ok text
  nip44_inverts : ∀ {secret key : Bytes32} {text encrypted : String},
    cipher.nip44Encrypt secret key text = .ok encrypted →
      cipher.nip44Decrypt secret key encrypted = .ok text
  nip04_iv : ∀ {secret key : Bytes32} {text encrypted : String},
    cipher.nip04Encrypt secret key text = .ok encrypted → '?' ∈ encrypted.toList
  nip44_base64 : ∀ {secret key : Bytes32} {text encrypted : String},
    cipher.nip44Encrypt secret key text = .ok encrypted →
      encrypted.toList ≠ [] ∧ ∀ c ∈ encrypted.toList, isBase64Char c = true
  nip04_rejects : ∀ (secret key : Bytes32) {text : String}, '[' ∈ text.toList →
    ∃ e, cipher.nip04Decrypt secret key text = .error e
  nip44_rejects : ∀ (secret key : Bytes32) {text : String}, '[' ∈ text.toList →
    ∃ e, cipher.nip44Decrypt secret key text = .error e

namespace PrivateKeySigner

/-- The key of a recipient; an empty text is the own key. -/
def recipientKey (signer : PrivateKeySigner) (recipient : String) : Except SignerError Bytes32 :=
  if recipient = "" then .ok signer.publicKey
  else (publicKeyFromHex recipient).mapError fun e =>
    .other ("Invalid recipient public key: " ++ e.display)

def senderKey (sender : String) : Except SignerError Bytes32 :=
  (publicKeyFromHex sender).mapError fun e => .other ("Invalid sender public key: " ++ e.display)

def nip04Encrypt (cipher : CipherSuite) (signer : PrivateKeySigner) (recipient plaintext : String) :
    Except SignerError String := do
  let key ← signer.recipientKey recipient
  (cipher.nip04Encrypt signer.secretKey key plaintext).mapError fun e =>
    .cryptoError ("NIP-04 encryption failed: " ++ e)

def nip04Decrypt (cipher : CipherSuite) (signer : PrivateKeySigner) (sender ciphertext : String) :
    Except SignerError String := do
  let key ← senderKey sender
  (cipher.nip04Decrypt signer.secretKey key ciphertext).mapError fun e =>
    .cryptoError ("NIP-04 decryption failed: " ++ e)

def nip44Encrypt (cipher : CipherSuite) (signer : PrivateKeySigner) (recipient plaintext : String) :
    Except SignerError String := do
  let key ← signer.recipientKey recipient
  (cipher.nip44Encrypt signer.secretKey key plaintext).mapError .cryptoError

def nip44Decrypt (cipher : CipherSuite) (signer : PrivateKeySigner) (sender ciphertext : String) :
    Except SignerError String := do
  let key ← senderKey sender
  (cipher.nip44Decrypt signer.secretKey key ciphertext).mapError .cryptoError

/-- The peer of a conversation, in the `_between` calls. -/
def peerOf (signer : PrivateKeySigner) (sender recipient : String) : Except SignerError String :=
  if signer.publicKey.toHex = sender then .ok recipient
  else if signer.publicKey.toHex = recipient then .ok sender
  else .error (.other "signer pubkey is not a participant in encrypted content")

/-- The calls, with the choice of the peer and the error texts. -/
def toDyn (cipher : CipherSuite) (signer : PrivateKeySigner) : DynSigner where
  getPublicKey := .ok signer.publicKey.toHex
  signEvent := fun json => (signer.signEvent json).mapError SignerError.display
  nip04Encrypt := fun peer text => (signer.nip04Encrypt cipher peer text).mapError SignerError.display
  nip44Encrypt := fun peer text => (signer.nip44Encrypt cipher peer text).mapError SignerError.display
  nip04DecryptBetween := fun sender recipient text =>
    (signer.peerOf sender recipient >>= fun peer => signer.nip04Decrypt cipher peer text).mapError
      SignerError.display
  nip44DecryptBetween := fun sender recipient text =>
    (signer.peerOf sender recipient >>= fun peer => signer.nip44Decrypt cipher peer text).mapError
      SignerError.display

variable {cipher : CipherSuite} {signer : PrivateKeySigner}

theorem publicKeyFromHex_toHex (key : Bytes32) : publicKeyFromHex key.toHex = .ok key :=
  fromHex_eq_ok_iff.mpr (Hex.decode_encode key.bytes)

theorem toHex_ne_empty (key : Bytes32) : key.toHex ≠ "" := by
  intro h
  have hdecode : Hex.decode "" = some key.bytes := by
    rw [← h]
    exact Hex.decode_encode key.bytes
  have hnil : key.bytes = [] := (Option.some.inj hdecode).symm
  have hsize := key.size
  rw [hnil] at hsize
  exact absurd hsize (by decide)

variable {recipient encrypted : String}

theorem senderKey_of_recipientKey {key : Bytes32} (hne : recipient ≠ "")
    (h : signer.recipientKey recipient = .ok key) : senderKey recipient = .ok key := by
  rw [recipientKey, if_neg hne, Result.mapError_eq_ok] at h
  rw [senderKey, h]
  rfl

theorem recipientKey_own (h : recipient = "" ∨ recipient = signer.publicKey.toHex) :
    signer.recipientKey recipient = .ok signer.publicKey := by
  rw [recipientKey]
  obtain rfl | rfl := h
  · rw [if_pos rfl]
  · rw [if_neg (toHex_ne_empty _), publicKeyFromHex_toHex]
    rfl

theorem peerOf_own (recipient : String) :
    signer.peerOf signer.publicKey.toHex recipient = .ok recipient := if_pos rfl

theorem nip44DecryptBetween_own (text : String) :
    (signer.toDyn cipher).nip44DecryptBetween signer.publicKey.toHex signer.publicKey.toHex text =
      ((cipher.nip44Decrypt signer.secretKey signer.publicKey text).mapError
        SignerError.cryptoError).mapError SignerError.display := by
  show Except.mapError _ (signer.peerOf _ _ >>= _) = _
  rw [peerOf_own]
  show Except.mapError _ (nip44Decrypt cipher signer signer.publicKey.toHex text) = _
  rw [nip44Decrypt, senderKey, publicKeyFromHex_toHex]
  rfl

theorem nip04DecryptBetween_peer {peer : String} {key : Bytes32} (hkey : senderKey peer = .ok key)
    (text : String) :
    (signer.toDyn cipher).nip04DecryptBetween signer.publicKey.toHex peer text =
      ((cipher.nip04Decrypt signer.secretKey key text).mapError fun e =>
        SignerError.cryptoError ("NIP-04 decryption failed: " ++ e)).mapError
          SignerError.display := by
  show Except.mapError _ (signer.peerOf _ _ >>= _) = _
  rw [peerOf_own]
  show Except.mapError _ (nip04Decrypt cipher signer peer text) = _
  rw [nip04Decrypt, hkey]
  rfl

theorem nip44Encrypt_own {text : String}
    (hrecipient : recipient = "" ∨ recipient = signer.publicKey.toHex)
    (h : cipher.nip44Encrypt signer.secretKey signer.publicKey text = .ok encrypted) :
    (signer.toDyn cipher).nip44Encrypt recipient text = .ok encrypted := by
  refine Result.mapError_eq_ok.mpr ?_
  rw [nip44Encrypt, recipientKey_own hrecipient]
  exact Result.mapError_eq_ok.mpr h

/-- **NIP-44 to the own account**: the author decrypts what they encrypted. -/
theorem nip44_own (hcipher : cipher.Sound) {text : String}
    (hrecipient : recipient = "" ∨ recipient = signer.publicKey.toHex)
    (h : (signer.toDyn cipher).nip44Encrypt recipient text = .ok encrypted) :
    (signer.toDyn cipher).nip44DecryptBetween signer.publicKey.toHex signer.publicKey.toHex encrypted =
        .ok text ∧ encrypted.toList ≠ [] ∧ ∀ c ∈ encrypted.toList, isBase64Char c = true := by
  have hcall := Result.mapError_eq_ok.mp h
  rw [nip44Encrypt, recipientKey_own hrecipient] at hcall
  have hsealed := Result.mapError_eq_ok.mp hcall
  refine ⟨?_, hcipher.nip44_base64 hsealed⟩
  rw [nip44DecryptBetween_own, Result.mapError_eq_ok, Result.mapError_eq_ok]
  exact hcipher.nip44_inverts hsealed

/-- **NIP-04 to a recipient** that is not empty: the author decrypts it again. -/
theorem nip04_between (hcipher : cipher.Sound) {text : String} (hrecipient : recipient ≠ "")
    (h : (signer.toDyn cipher).nip04Encrypt recipient text = .ok encrypted) :
    (signer.toDyn cipher).nip04DecryptBetween signer.publicKey.toHex recipient encrypted = .ok text ∧
      '?' ∈ encrypted.toList := by
  have hcall := Result.mapError_eq_ok.mp h
  rw [nip04Encrypt] at hcall
  match hkey : signer.recipientKey recipient with
  | .error e =>
    rw [hkey] at hcall
    exact nomatch hcall
  | .ok key =>
    rw [hkey] at hcall
    have hsealed := Result.mapError_eq_ok.mp hcall
    refine ⟨?_, hcipher.nip04_iv hsealed⟩
    rw [nip04DecryptBetween_peer (senderKey_of_recipientKey hrecipient hkey), Result.mapError_eq_ok,
      Result.mapError_eq_ok]
    exact hcipher.nip04_inverts hsealed

theorem nip04_between_empty (text : String) :
    (signer.toDyn cipher).nip04DecryptBetween signer.publicKey.toHex "" text =
      .error "Other error: Invalid sender public key: Invalid format: Invalid pubkey" := by
  show Except.mapError _ (signer.peerOf _ _ >>= _) = _
  rw [peerOf_own]
  rfl

theorem decryptBetween_rejects (hcipher : cipher.Sound) (scheme : Scheme) {text : String}
    (h : '[' ∈ text.toList) :
    ∃ e, Parser.decryptBetween (signer.toDyn cipher) scheme signer.publicKey.toHex
      signer.publicKey.toHex text = .error e := by
  cases scheme with
  | nip04 =>
    obtain ⟨e, he⟩ := hcipher.nip04_rejects signer.secretKey signer.publicKey h
    have hown : senderKey signer.publicKey.toHex = .ok signer.publicKey := by
      rw [senderKey, publicKeyFromHex_toHex]
      rfl
    have hcall : (signer.toDyn cipher).nip04DecryptBetween signer.publicKey.toHex
        signer.publicKey.toHex text = _ := nip04DecryptBetween_peer hown text
    rw [he] at hcall
    exact ⟨_, hcall⟩
  | nip44 =>
    obtain ⟨e, he⟩ := hcipher.nip44_rejects signer.secretKey signer.publicKey h
    have hcall : (signer.toDyn cipher).nip44DecryptBetween signer.publicKey.toHex
        signer.publicKey.toHex text = _ := nip44DecryptBetween_own text
    rw [he] at hcall
    exact ⟨_, hcall⟩

end PrivateKeySigner

end Nipworker
