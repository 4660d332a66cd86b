/-
NIP-04 (`crypto/signers/nip04.rs`).

A message is encrypted with AES-256 in CBC mode, under the x coordinate of the point that
both keys have in common, and travels as base64 with its initialisation vector behind
`?iv=`.  The vector of a message that comes in has whatever length its base64 has; the
cipher takes sixteen bytes, and making it of any other number stops the program.
-/
import Nipworker.Lib.Base64
import Nipworker.Lib.Result
import Nipworker.Lib.Split
import Nipworker.Lib.Utf8
import Nipworker.Storage.Request

namespace Nipworker

open List
namespace Nip04

/-! ### The code -/

/-- `Nip04Error`, as far as these functions return it. -/
inductive Nip04Error
  | invalidContentFormat
  | base64Decode
  | utf8Encode
  | wrongBlockMode
  | invalidKey (message : String)
  deriving DecidableEq, Repr

/-- Why a function does not return a value: it returns an error, or stops the program. -/
inductive Stop
  | error (e : Nip04Error)
  | panic
  deriving DecidableEq, Repr

/-- The initialisation vector that the cipher takes: 16 bytes. -/
structure Iv where
  bytes : Bytes
  size : bytes.length = 16
  deriving DecidableEq

/-- What the code takes from `k256`, `aes` and `cbc`: both kinds of keys out of bytes, the x
coordinate of the common point, and the cipher with the padding of PKCS#7. -/
structure Primitives where
  Secret : Type
  Point : Type
  secretFromBytes : Bytes32 → Except String Secret
  pointFromSec1 : Bytes → Except String Point
  diffieHellman : Secret → Point → Bytes32
  encryptPadded : Bytes32 → Iv → Bytes → Bytes
  decryptPadded : Bytes32 → Iv → Bytes → Option Bytes

/-- Decryption inverts encryption. -/
def Primitives.Inverts (lib : Primitives) : Prop :=
  ∀ key iv plaintext, lib.decryptPadded key iv (lib.encryptPadded key iv plaintext) = some plaintext

variable (lib : Primitives)

/-- The key of the other side has no sign, and the even one is tried first. -/
def generateSharedKey (secretKey publicKey : Bytes32) : Except Nip04Error Bytes32 := do
  let sk ← (lib.secretFromBytes secretKey).mapError fun e =>
    .invalidKey ("Invalid secret key: " ++ e)
  let pk ←
    match lib.pointFromSec1 (0x02 :: publicKey.bytes) with
    | .ok pk => .ok pk
    | .error _ => (lib.pointFromSec1 (0x03 :: publicKey.bytes)).mapError fun e =>
        .invalidKey ("Invalid public key: " ++ e)
  .ok (lib.diffieHellman sk pk)

def ivMark : List Char := "?iv=".toList

/-- `encrypt_with_iv`; `encrypt` is the same with a random vector. -/
def encryptWithIv (secretKey publicKey : Bytes32) (content : String) (iv : Iv) :
    Except Nip04Error String := do
  let key ← generateSharedKey lib secretKey publicKey
  .ok (String.ofList (Base64.encode (lib.encryptPadded key iv (Utf8.encode content)) ++
    (ivMark ++ Base64.encode iv.bytes)))

/-- `split("?iv=")`, when it gives two parts. -/
def twoParts (text : List Char) : Option (List Char × List Char) :=
  match Text.splitAt ivMark text with
  | none => none
  | some (first, second) =>
    if (Text.splitAt ivMark second).isSome = true then none else some (first, second)

/-- `iv.as_slice().into()`: a slice of another length stops the program. -/
def ivFromSlice (bytes : Bytes) : Except Stop Iv :=
  if h : bytes.length = 16 then .ok ⟨bytes, h⟩ else .error .panic

def orError {α : Type} (e : Nip04Error) : Option α → Except Stop α
  | some a => .ok a
  | none => .error (.error e)

/-- The plaintext of the two parts, as bytes. -/
def decryptToBytes (secretKey publicKey : Bytes32) (encryptedContent : String) :
    Except Stop Bytes := do
  let (content, ivText) ← orError .invalidContentFormat (twoParts encryptedContent.toList)
  let encrypted ← orError .base64Decode (Base64.decode content)
  let ivBytes ← orError .base64Decode (Base64.decode ivText)
  let key ← (generateSharedKey lib secretKey publicKey).mapError .error
  let iv ← ivFromSlice ivBytes
  orError .wrongBlockMode (lib.decryptPadded key iv encrypted)

def decrypt (secretKey publicKey : Bytes32) (encryptedContent : String) : Except Stop String := do
  let bytes ← decryptToBytes lib secretKey publicKey encryptedContent
  orError .utf8Encode (String.fromUTF8? bytes.toByteArray)

/-! ### What is encrypted reads back -/

theorem mark_notMem_encode (bytes : Bytes) : '?' ∉ Base64.encode bytes := by
  intro hmem
  obtain h | h | h | h := Base64.mem_encode bytes '?' hmem
  · exact absurd h (by decide)
  · exact absurd h (by decide)
  · exact absurd h (by decide)
  · exact absurd h (by decide)

theorem not_mark_infix_encode (bytes : Bytes) : ¬ ivMark <:+: Base64.encode bytes :=
  fun h => mark_notMem_encode bytes (h.subset (by decide))

theorem splitAt_mark (first second : List Char) (hfirst : '?' ∉ first) :
    Text.splitAt ivMark (first ++ (ivMark ++ second)) = some (first, second) := by
  induction first with
  | nil =>
    rw [nil_append]
    show Text.splitAt ivMark ('?' :: ('i' :: 'v' :: '=' :: second)) = _
    rw [Text.splitAt_cons, if_pos ⟨second, rfl⟩]
    rfl
  | cons c first ih =>
    rw [mem_cons, not_or] at hfirst
    have hnot : ¬ ivMark <+: c :: (first ++ (ivMark ++ second)) := by
      rintro ⟨rest, hrest⟩
      exact hfirst.1 (List.cons.inj hrest).1
    rw [cons_append, Text.splitAt_cons, if_neg hnot, ih hfirst.2]
    rfl

/-- The two parts of what is encrypted. -/
theorem twoParts_sealed (encrypted : Bytes) (iv : Bytes) :
    twoParts (Base64.encode encrypted ++ (ivMark ++ Base64.encode iv))
      = some (Base64.encode encrypted, Base64.encode iv) := by
  rw [twoParts, splitAt_mark _ _ (mark_notMem_encode encrypted)]
  dsimp only
  rw [Text.splitAt_eq_none_iff.mpr (not_mark_infix_encode iv)]
  rfl

variable {lib} {secretKey publicKey : Bytes32}

/-- **What is encrypted reads back.** -/
theorem decrypt_encryptWithIv (hlib : lib.Inverts) {content encrypted : String} {iv : Iv}
    (h : encryptWithIv lib secretKey publicKey content iv = .ok encrypted) :
    decrypt lib secretKey publicKey encrypted = .ok content := by
  unfold encryptWithIv at h
  rcases hkey : generateSharedKey lib secretKey publicKey with e | key
  · rw [hkey] at h
    cases h
  · rw [hkey] at h
    cases h
    unfold decrypt decryptToBytes
    rw [String.toList_ofList, twoParts_sealed]
    show ((orError _ (Base64.decode (Base64.encode _)) >>= _) >>= _) = _
    rw [Base64.decode_encode]
    show ((orError _ (Base64.decode (Base64.encode _)) >>= _) >>= _) = _
    rw [Base64.decode_encode, hkey]
    show ((ivFromSlice iv.bytes >>= _) >>= _) = _
    rw [ivFromSlice, dif_pos iv.size]
    show (orError _ (lib.decryptPadded key iv (lib.encryptPadded key iv _)) >>= _) = _
    rw [hlib]
    show orError _ (String.fromUTF8? (Utf8.encode content).toByteArray) = _
    rw [Utf8.fromUTF8_encode]
    rfl

/-! ### The texts on which it returns -/

/-- The text gets as far as the cipher, and its vector does not have sixteen bytes. -/
def MissizedIv (lib : Primitives) (secretKey publicKey : Bytes32) (encryptedContent : String) :
    Prop :=
  ∃ content ivText encrypted ivBytes key,
    twoParts encryptedContent.toList = some (content, ivText) ∧
      Base64.decode content = some encrypted ∧ Base64.decode ivText = some ivBytes ∧
      generateSharedKey lib secretKey publicKey = .ok key ∧ ivBytes.length ≠ 16

theorem orError_ne_panic {α : Type} (e : Nip04Error) (o : Option α) : orError e o ≠ .error .panic := by
  cases o with
  | none => exact fun h => by simp [orError] at h
  | some a => exact fun h => by simp [orError] at h

theorem ivFromSlice_eq_panic_iff (bytes : Bytes) :
    ivFromSlice bytes = .error .panic ↔ bytes.length ≠ 16 := by
  unfold ivFromSlice
  by_cases h : bytes.length = 16
  · rw [dif_pos h]
    exact iff_of_false (fun heq => by simp at heq) fun hne => hne h
  · rw [dif_neg h]
    exact iff_of_true rfl h

theorem orError_bind_panic_iff {α β : Type} {e : Nip04Error} {o : Option α} {f : α → Except Stop β} :
    (orError e o >>= f) = .error .panic ↔ ∃ a, o = some a ∧ f a = .error .panic := by
  rw [Result.bind_eq_error]
  constructor
  · rintro (h | ⟨a, ha, hf⟩)
    · exact absurd h (orError_ne_panic e o)
    · refine ⟨a, ?_, hf⟩
      cases o with
      | none => cases ha
      | some b => rw [Except.ok.inj ha]
  · rintro ⟨a, rfl, hf⟩
    exact .inr ⟨a, rfl, hf⟩

theorem decrypt_eq_panic_iff (lib : Primitives) (secretKey publicKey : Bytes32)
    (encryptedContent : String) :
    decrypt lib secretKey publicKey encryptedContent = .error .panic ↔
      MissizedIv lib secretKey publicKey encryptedContent := by
  have hbytes : decrypt lib secretKey publicKey encryptedContent = .error .panic ↔
      decryptToBytes lib secretKey publicKey encryptedContent = .error .panic := by
    unfold decrypt
    rw [Result.bind_eq_error]
    exact or_iff_left fun ⟨_, _, h⟩ => orError_ne_panic _ _ h
  rw [hbytes, decryptToBytes, orError_bind_panic_iff]
  have hkey : ∀ encrypted ivBytes,
      ((generateSharedKey lib secretKey publicKey).mapError Stop.error >>= fun key =>
        ivFromSlice ivBytes >>= fun iv =>
          orError .wrongBlockMode (lib.decryptPadded key iv encrypted)) = .error .panic ↔
      ∃ key, generateSharedKey lib secretKey publicKey = .ok key ∧ ivBytes.length ≠ 16 := by
    intro encrypted ivBytes
    rw [Result.bind_eq_error]
    constructor
    · rintro (h | ⟨key, hkey, h⟩)
      · obtain ⟨e, -, he⟩ := Result.mapError_eq_error.mp h
        cases he
      · rw [Result.bind_eq_error] at h
        refine ⟨key, Result.mapError_eq_ok.mp hkey, ?_⟩
        obtain h | ⟨iv, -, h⟩ := h
        · exact (ivFromSlice_eq_panic_iff ivBytes).mp h
        · exact absurd h (orError_ne_panic _ _)
    · rintro ⟨key, hkey, hlen⟩
      refine .inr ⟨key, Result.mapError_eq_ok.mpr hkey, Result.bind_eq_error.mpr (.inl ?_)⟩
      exact (ivFromSlice_eq_panic_iff ivBytes).mpr hlen
  constructor
  · rintro ⟨⟨content, ivText⟩, hparts, h⟩
    obtain ⟨encrypted, hcontent, h⟩ := orError_bind_panic_iff.mp h
    obtain ⟨ivBytes, hiv, h⟩ := orError_bind_panic_iff.mp h
    obtain ⟨key, hkey, hlen⟩ := (hkey encrypted ivBytes).mp h
    exact ⟨content, ivText, encrypted, ivBytes, key, hparts, hcontent, hiv, hkey, hlen⟩
  · rintro ⟨content, ivText, encrypted, ivBytes, key, hparts, hcontent, hiv, hkey', hlen⟩
    refine ⟨(content, ivText), hparts, orError_bind_panic_iff.mpr ⟨encrypted, hcontent, ?_⟩⟩
    exact orError_bind_panic_iff.mpr ⟨ivBytes, hiv, (hkey encrypted ivBytes).mpr ⟨key, hkey', hlen⟩⟩

/-- **Decryption is total** on exactly the texts that do not get a vector of another size to
the cipher, and it inverts encryption. -/
theorem decrypt_total_iff (lib : Primitives) (hlib : lib.Inverts) (secretKey publicKey : Bytes32) :
    (∀ encryptedContent, decrypt lib secretKey publicKey encryptedContent ≠ .error .panic ↔
      ¬ MissizedIv lib secretKey publicKey encryptedContent) ∧
    ∀ content iv key, generateSharedKey lib secretKey publicKey = .ok key →
      ∃ encrypted, encryptWithIv lib secretKey publicKey content iv = .ok encrypted ∧
        decrypt lib secretKey publicKey encrypted = .ok content := by
  refine ⟨fun encryptedContent => not_congr (decrypt_eq_panic_iff _ _ _ _), ?_⟩
  intro content iv key hkey
  have hencrypt : ∃ encrypted, encryptWithIv lib secretKey publicKey content iv = .ok encrypted := by
    unfold encryptWithIv
    rw [hkey]
    exact ⟨_, rfl⟩
  obtain ⟨encrypted, hencrypt⟩ := hencrypt
  exact ⟨encrypted, hencrypt, decrypt_encryptWithIv hlib hencrypt⟩

/-- The secret key one. -/
def secretOne : Bytes32 where
  bytes := List.replicate 31 0 ++ [1]
  size := by simp

def generatorBytes : Bytes :=
  [0x79, 0xbe, 0x66, 0x7e, 0xf9, 0xdc, 0xbb, 0xac, 0x55, 0xa0, 0x62, 0x95, 0xce, 0x87, 0x0b, 0x07,
   0x02, 0x9b, 0xfc, 0xdb, 0x2d, 0xce, 0x28, 0xd9, 0x59, 0xf2, 0x81, 0x5b, 0x16, 0xf8, 0x17, 0x98]

/-- The x coordinate of the generator, which is the public key of the secret key one, and
also what the two have in common. -/
def generatorX : Bytes32 := ⟨generatorBytes, rfl⟩

def zeroIv : Iv := ⟨List.replicate 16 0, length_replicate⟩

/-- The text `hi` and its ciphertext under that key and vector, each in the other's place. -/
def sealHi (key : Bytes32) (iv : Iv) (text : Bytes) : Bytes :=
  let plain : Bytes := [0x68, 0x69]
  let sealed : Bytes := [0xc0, 0xe6, 0x9f, 0x9e, 0xdb, 0x50, 0x2b, 0x79, 0x45, 0x23, 0x74, 0x30, 0x28, 0x65,
    0x9a, 0xe9]
  if key = generatorX ∧ iv = zeroIv then
    if text = plain then sealed else if text = sealed then plain else text
  else text

theorem sealHi_sealHi (key : Bytes32) (iv : Iv) (text : Bytes) :
    sealHi key iv (sealHi key iv text) = text := by
  unfold sealHi
  dsimp only
  split
  · split
    · next h => rw [if_neg (by decide), if_pos rfl, h]
    · split
      · next h => rw [if_pos rfl, h]
      · rfl
  · rfl

/-- The crates, as they answer for these two keys, that vector and that text. -/
def vectorPrimitives : Primitives where
  Secret := Unit
  Point := Bytes32
  secretFromBytes secret := if secret = secretOne then .ok () else .error "crypto error"
  pointFromSec1 bytes := if bytes = 0x02 :: generatorX.bytes then .ok generatorX else
    .error "crypto error"
  diffieHellman _ point := point
  encryptPadded := sealHi
  decryptPadded key iv text := some (sealHi key iv text)

theorem inverts_vector : vectorPrimitives.Inverts :=
  fun key iv text => congrArg some (sealHi_sealHi key iv text)

def sealedVector : String := "wOafnttQK3lFI3QwKGWa6Q==?iv=AAAAAAAAAAAAAAAAAAAAAA=="

theorem encryptWithIv_vector :
    encryptWithIv vectorPrimitives secretOne generatorX "hi" zeroIv = .ok sealedVector := by
  decide +kernel

/-- The text `hi` there and back, and a vector of its right length. -/
theorem decrypt_total_iff_vector :
    decrypt vectorPrimitives secretOne generatorX sealedVector = .ok "hi" ∧
      ¬ MissizedIv vectorPrimitives secretOne generatorX sealedVector := by
  obtain ⟨htotal, hback⟩ := decrypt_total_iff vectorPrimitives inverts_vector secretOne generatorX
  obtain ⟨encrypted, hencrypt, hdecrypt⟩ := hback "hi" zeroIv generatorX (by decide +kernel)
  rw [encryptWithIv_vector] at hencrypt
  obtain rfl : sealedVector = encrypted := Except.ok.inj hencrypt
  refine ⟨hdecrypt, (htotal _).mp ?_⟩
  rw [hdecrypt]
  exact nofun

/-- A vector that lost its last block of base64, and stops the program. -/
theorem decrypt_shortIv_panics :
    decrypt vectorPrimitives secretOne generatorX
      "wOafnttQK3lFI3QwKGWa6Q==?iv=AAAAAAAAAAAAAAAAAAAA" = .error .panic := by
  decide +kernel

end Nip04
end Nipworker
