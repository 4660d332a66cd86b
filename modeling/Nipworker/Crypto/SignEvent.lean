/-
Signing a template with a private key (`crypto/signers/pk.rs`,
`crypto/nostr_crypto.rs`).

The template comes to the signer as JSON and leaves it as the JSON of an event;
both texts are read back by searching for quoted names.
-/
import Nipworker.Lib.Utf8
import Nipworker.Types.Template

namespace Nipworker

open JsonText List

/-! ### The signer -/

/-- `SignerError`, as a `PrivateKeySigner` raises it. -/
inductive SignerError
  | cryptoError (message : String)
  | other (message : String)
  deriving DecidableEq, Repr

/-- What the signer takes from `sha2` and `k256`: the hash, and for a secret key
its public key, whether it is one, its signatures and their verification. -/
structure SchnorrSuite where
  sha256 : Bytes → Bytes32
  publicKey : Bytes32 → Bytes32
  signingKey : Bytes32 → Except String Unit
  signPrehash : Bytes32 → Bytes32 → Except String Bytes
  verifyPrehash : Bytes32 → Bytes32 → Bytes → Except String Unit

def eventIdText (pubkey : Bytes32) (createdAt : ℕ) (kind : UInt16) (tags : List (List String))
    (content : String) : List Char :=
  '[' :: '0' :: ',' :: (quoted pubkey.toHex.toList ++
    ',' :: (Nat.toDigits 10 createdAt ++
    ',' :: (Nat.toDigits 10 kind.toNat ++
    ',' :: (NostrTags.toJson tags ++
    ',' :: (quoted (escapeString content) ++ [']'])))))

def computeEventId (suite : SchnorrSuite) (pubkey : Bytes32) (createdAt : ℕ) (kind : UInt16)
    (tags : List (List String)) (content : String) : String :=
  (suite.sha256 (Utf8.encode (String.ofList
    (eventIdText pubkey createdAt kind tags content)))).toHex

/-- `PrivateKeySigner`, with the packages it calls. -/
structure PrivateKeySigner where
  suite : SchnorrSuite
  secretKey : Bytes32

namespace PrivateKeySigner

/-- `keys.public_key()`. -/
def publicKey (signer : PrivateKeySigner) : Bytes32 := signer.suite.publicKey signer.secretKey

/-- The event `sign_event` makes of a template. -/
def signedEvent (signer : PrivateKeySigner) (t : Template) : Except SignerError SignedEvent := do
  let idHex :=
    computeEventId signer.suite signer.publicKey t.createdAt.toNat t.kind t.tags t.content
  let id ← (eventIdFromHex idHex).mapError fun e =>
    .other ("Failed to parse event ID: " ++ e.display)
  (signer.suite.signingKey signer.secretKey).mapError fun e =>
    .other ("Failed to create signing key: " ++ e)
  let signature ← (signer.suite.signPrehash signer.secretKey id).mapError fun e =>
    .other ("Schnorr prehash sign failed: " ++ e)
  (signer.suite.verifyPrehash signer.secretKey id signature).mapError fun e =>
    .other ("Local Schnorr prehash verify failed: " ++ e)
  .ok { id := id, pubkey := signer.publicKey, createdAt := t.createdAt.toNat, kind := t.kind
        tags := t.tags, content := t.content, sig := Hex.encode signature }

/-- The signer, with its error texts. -/
def signEvent (signer : PrivateKeySigner) (templateJson : String) : Except SignerError String := do
  let template ← (Template.fromJson templateJson).mapError fun e =>
    .other ("Failed to parse template JSON: " ++ e.display)
  let event ← signer.signedEvent template
  .ok event.toJson

/-- The event of a template that is written, signed and read back is the template,
with the id and the signature that the signer computes for it. -/
def SignsAsGiven (signer : PrivateKeySigner) (t : Template) : Prop :=
  ∃ signed text read, signer.signedEvent t = .ok signed ∧ signer.signEvent t.toJson = .ok text ∧
    SignedEvent.fromJson text = .ok read ∧ read.kind = t.kind ∧ read.content = t.content ∧
    read.tags = t.tags ∧ read.createdAt = t.createdAt.toNat ∧ read.id = signed.id ∧
    read.sig = signed.sig

structure Signs (signer : PrivateKeySigner) : Prop where
  key : signer.suite.signingKey signer.secretKey = .ok ()
  sign : ∀ id, ∃ signature, signer.suite.signPrehash signer.secretKey id = .ok signature ∧
    signer.suite.verifyPrehash signer.secretKey id signature = .ok ()

def idOf (signer : PrivateKeySigner) (t : Template) : Bytes32 :=
  signer.suite.sha256 (Utf8.encode (String.ofList
    (eventIdText signer.publicKey t.createdAt.toNat t.kind t.tags t.content)))

/-- No string of the tags is the signature of the event that has it as a tag. -/
def Fresh (signer : PrivateKeySigner) (t : Template) : Prop :=
  ∀ signature, signer.suite.signPrehash signer.secretKey (signer.idOf t) = .ok signature →
    Hex.encode signature ∉ t.tags.flatten

end PrivateKeySigner

/-! ### Templates without a string for a key -/

/-- No string of the template is taken for the key of a field: none ends in
`created_at` or `sig`, and behind the first of the tags that ends in `content`, if
there is one, is the content. -/
structure Template.Unambiguous (t : Template) : Prop where
  createdAt : ∀ s ∈ t.strings, ¬ EndsIn "created_at" s
  content : following "content" (t.tags.flatten ++ ["content", t.content]) = some t.content
  sig : ∀ s ∈ t.strings, ¬ EndsIn "sig" s

theorem following_append_of_some {word x : String} {strings : List String}
    (h : following word strings = some x) (rest : List String) :
    following word (strings ++ rest) = some x := by
  induction strings with
  | nil => exact nomatch h
  | cons s strings ih =>
    rw [following] at h
    rw [cons_append, following]
    by_cases hs : EndsIn word s
    · rw [if_pos hs] at h ⊢
      rw [List.head?_append, h]
      rfl
    · rw [if_neg hs] at h ⊢
      exact ih h

theorem following_content_iff (l : List String) (content x : String) (rest : List String) :
    following "content" (l ++ "content" :: content :: rest) = some x ↔
      following "content" (l ++ ["content", content]) = some x := by
  have hcat : l ++ "content" :: content :: rest = (l ++ ["content", content]) ++ rest := by simp
  obtain ⟨y, hy⟩ := following_isSome "content" l content []
  rw [hcat, following_append_of_some hy, hy]

theorem following_sig_iff {sig : String} (hsig : HexText sig) (content : String) :
    ∀ {l : List String}, sig ∉ l →
      (following "sig" (l ++ ["content", content, "sig", sig]) = some sig ↔
        ∀ s ∈ content :: l, ¬ EndsIn "sig" s) := by
  have hne (name : String) (hname : (name.toList.any fun c => (Hex.digitValue c).isNone) = true) :
      name ≠ sig := fun h => hsig.not_endsIn hname (h ▸ endsIn_self name)
  intro l hl
  induction l with
  | nil =>
    rw [nil_append, following, if_neg (by decide), following]
    by_cases hends : EndsIn "sig" content
    · -- the name of the field is read for its value
      rw [if_pos hends]
      refine iff_of_false (fun h => ?_) fun h => h content mem_cons_self hends
      exact hne "sig" (by decide) (Option.some.inj h)
    · rw [if_neg hends, following, if_pos (endsIn_self _)]
      refine iff_of_true rfl fun s hs => ?_
      rwa [List.mem_singleton.mp hs]
  | cons s l ih =>
    rw [mem_cons, not_or] at hl
    rw [cons_append, following]
    by_cases hends : EndsIn "sig" s
    · rw [if_pos hends]
      refine iff_of_false (fun h => ?_) fun h =>
        h s (mem_cons_of_mem _ mem_cons_self) hends
      cases l with
      | nil => exact hne "content" (by decide) (Option.some.inj h)
      | cons t l => exact hl.2 (Option.some.inj h ▸ mem_cons_self)
    · rw [if_neg hends, ih hl.2]
      simp only [forall_mem_cons]
      exact ⟨fun h => ⟨h.1, hends, h.2⟩, fun h => ⟨h.1, h.2.2⟩⟩

/-! ### Signing -/

namespace PrivateKeySigner

variable {signer : PrivateKeySigner} {t : Template}

def eventWith (signer : PrivateKeySigner) (t : Template) (signature : Bytes) : SignedEvent :=
  { id := signer.idOf t, pubkey := signer.publicKey, createdAt := t.createdAt.toNat
    kind := t.kind, tags := t.tags, content := t.content, sig := Hex.encode signature }

theorem signedEvent_eq {signature : Bytes} (hkey : signer.suite.signingKey signer.secretKey = .ok ())
    (hsign : signer.suite.signPrehash signer.secretKey (signer.idOf t) = .ok signature)
    (hverify : signer.suite.verifyPrehash signer.secretKey (signer.idOf t) signature = .ok ()) :
    signer.signedEvent t = .ok (signer.eventWith t signature) := by
  have hid : eventIdFromHex (computeEventId signer.suite signer.publicKey t.createdAt.toNat t.kind
      t.tags t.content) = .ok (signer.idOf t) :=
    fromHex_eq_ok_iff.mpr (Hex.decode_encode (signer.idOf t).bytes)
  rw [signedEvent, hid, hkey]
  simp only [Except.mapError, bind, Except.bind]
  rw [hsign]
  dsimp only
  rw [hverify]
  rfl

theorem eq_eventWith {signed : SignedEvent} (h : signer.signedEvent t = .ok signed) :
    ∃ signature, signed = signer.eventWith t signature := by
  have hid : eventIdFromHex (computeEventId signer.suite signer.publicKey t.createdAt.toNat t.kind
      t.tags t.content) = .ok (signer.idOf t) :=
    fromHex_eq_ok_iff.mpr (Hex.decode_encode (signer.idOf t).bytes)
  rw [signedEvent, hid] at h
  simp only [Except.mapError, bind, Except.bind] at h
  match hkey : signer.suite.signingKey signer.secretKey with
  | .error e => simp only [hkey] at h; exact nomatch h
  | .ok () =>
  match hsign : signer.suite.signPrehash signer.secretKey (signer.idOf t) with
  | .error e => simp only [hkey, hsign] at h; exact nomatch h
  | .ok signature =>
  match hverify : signer.suite.verifyPrehash signer.secretKey (signer.idOf t) signature with
  | .error e => simp only [hkey, hsign, hverify] at h; exact nomatch h
  | .ok () =>
    simp only [hkey, hsign, hverify] at h
    exact ⟨signature, (Except.ok.inj h).symm⟩

theorem signEvent_toJson (h : ∀ s ∈ t.strings, ¬ EndsIn "created_at" s) {event : SignedEvent}
    (hevent : signer.signedEvent t = .ok event) : signer.signEvent t.toJson = .ok event.toJson := by
  rw [signEvent, Template.fromJson_toJson, t.readFields_jsonChars h]
  simp only [Except.mapError, bind, Except.bind]
  rw [hevent]

theorem signEvent_toJson_error (h : ∃ s ∈ t.strings, EndsIn "created_at" s) :
    signer.signEvent t.toJson =
      .error (.other "Failed to parse template JSON: Invalid format: Invalid created_at") := by
  rw [signEvent, Template.fromJson_toJson, t.readFields_jsonChars_error h]
  rfl

theorem SignsAsGiven.createdAt (h : signer.SignsAsGiven t) :
    ∀ s ∈ t.strings, ¬ EndsIn "created_at" s := by
  obtain ⟨signed, text, read, -, htext, -⟩ := h
  intro s hs hends
  rw [signEvent_toJson_error ⟨s, hs, hends⟩] at htext
  exact nomatch htext

theorem signsAsGiven_iff_following {signature : Bytes}
    (hevent : signer.signedEvent t = .ok (signer.eventWith t signature))
    (hcreated : ∀ s ∈ t.strings, ¬ EndsIn "created_at" s) :
    signer.SignsAsGiven t ↔
      following "content" (signer.eventWith t signature).strings = some t.content ∧
        following "sig" (signer.eventWith t signature).strings = some (Hex.encode signature) := by
  have hsig : HexText (signer.eventWith t signature).sig := hexText_encode signature
  have hlt : (signer.eventWith t signature).createdAt < 2 ^ 64 := t.createdAt.toNat_lt
  have hread := (signer.eventWith t signature).readFields_jsonChars_iff hsig hlt t.content
  rw [← SignedEvent.fromJson_toJson] at hread
  refine Iff.trans ⟨?_, fun h => ?_⟩ hread
  · rintro ⟨signed, text, read, hsigned, htext, hfrom, -, hcontent, -, -, -, hreadSig⟩
    rw [hevent, Except.ok.injEq] at hsigned
    subst hsigned
    rw [signEvent_toJson hcreated hevent, Except.ok.injEq] at htext
    subst htext
    -- the other fields are read back in any case
    have hfields := ((signer.eventWith t signature).readFields_jsonChars_fields hsig hlt
      (by rw [← SignedEvent.fromJson_toJson]; exact hfrom)).1
    rw [hcontent, hreadSig] at hfields
    rw [hfrom, hfields]
  · exact ⟨_, _, _, hevent, signEvent_toJson hcreated hevent, h, rfl, rfl, rfl, rfl, rfl, rfl⟩

/-- **A signed text read back**: the event of the template that was given, but for
the content and the signature, which stand behind the first strings that end in
their names. -/
theorem fields_of_signEvent {text : String} {read : SignedEvent}
    (htext : signer.signEvent t.toJson = .ok text) (hread : SignedEvent.fromJson text = .ok read) :
    read.kind = t.kind ∧ read.tags = t.tags ∧ read.createdAt = t.createdAt.toNat ∧
      read.pubkey = signer.publicKey ∧
      following "content" (t.tags.flatten ++ ["content", t.content]) = some read.content := by
  have hcreated : ∀ s ∈ t.strings, ¬ EndsIn "created_at" s := by
    intro s hs hends
    rw [signEvent_toJson_error ⟨s, hs, hends⟩] at htext
    exact nomatch htext
  match hsigned : signer.signedEvent t with
  | .error e =>
    rw [signEvent, Template.fromJson_toJson, t.readFields_jsonChars hcreated] at htext
    simp only [Except.mapError, bind, Except.bind, hsigned] at htext
    exact nomatch htext
  | .ok signed =>
    obtain ⟨signature, rfl⟩ := eq_eventWith hsigned
    rw [signEvent_toJson hcreated hsigned, Except.ok.injEq] at htext
    subst htext
    rw [SignedEvent.fromJson_toJson] at hread
    obtain ⟨hfields, hcontent⟩ := (signer.eventWith t signature).readFields_jsonChars_fields
      (hexText_encode signature) t.createdAt.toNat_lt hread
    refine ⟨?_, ?_, ?_, ?_, ?_⟩
    · rw [hfields]; rfl
    · rw [hfields]; rfl
    · rw [hfields]; rfl
    · rw [hfields]; rfl
    · exact (following_content_iff _ _ _ _).mp hcontent

/-- The strings that are read for the content and the signature are the right ones
when no string of the template is taken for them. -/
theorem signsAsGiven_of_unambiguous {t : Template} (hsigns : signer.Signs) (hfresh : signer.Fresh t)
    (h : t.Unambiguous) : signer.SignsAsGiven t := by
  obtain ⟨signature, hsign, hverify⟩ := hsigns.sign (signer.idOf t)
  have hevent := signedEvent_eq hsigns.key hsign hverify
  have hsig := following_sig_iff (hexText_encode signature) t.content (hfresh signature hsign)
  have hcontent := following_content_iff t.tags.flatten t.content t.content
    ["sig", Hex.encode signature]
  exact (signsAsGiven_iff_following hevent h.createdAt).mpr ⟨hcontent.mpr h.content, hsig.mpr h.sig⟩

/-- **What is signed is what was given** exactly when no string of the template is
taken for the key of a field. -/
theorem signsAsGiven_iff (signer : PrivateKeySigner) (t : Template) (hsigns : signer.Signs)
    (hfresh : signer.Fresh t) : signer.SignsAsGiven t ↔ t.Unambiguous := by
  constructor
  · intro h
    obtain ⟨signature, hsign, hverify⟩ := hsigns.sign (signer.idOf t)
    have hevent := signedEvent_eq hsigns.key hsign hverify
    have hsig := following_sig_iff (hexText_encode signature) t.content (hfresh signature hsign)
    have hcontent := following_content_iff t.tags.flatten t.content t.content
      ["sig", Hex.encode signature]
    obtain ⟨h1, h2⟩ := (signsAsGiven_iff_following hevent h.createdAt).mp h
    exact ⟨h.createdAt, hcontent.mp h1, hsig.mp h2⟩
  · exact signsAsGiven_of_unambiguous hsigns hfresh

/-- The hash, the key and the signature of one event, for the secret key one. -/
def oneEventSuite : SchnorrSuite where
  sha256 := fun _ => ⟨[0xa1, 0x80, 0xd8, 0x7d, 0xec, 0x35, 0x17, 0x64, 0xfb, 0xa8, 0x0d, 0x02, 0x65, 0x06, 0x61, 0x4f,
    0x5d, 0xdd, 0xd4, 0xdf, 0xd7, 0x44, 0x79, 0xb0, 0x1a, 0x12, 0x4e, 0xcd, 0x91, 0x40, 0x55, 0xe9], rfl⟩
  publicKey := fun _ => ⟨[0x79, 0xbe, 0x66, 0x7e, 0xf9, 0xdc, 0xbb, 0xac, 0x55, 0xa0, 0x62, 0x95, 0xce, 0x87, 0x0b, 0x07,
    0x02, 0x9b, 0xfc, 0xdb, 0x2d, 0xce, 0x28, 0xd9, 0x59, 0xf2, 0x81, 0x5b, 0x16, 0xf8, 0x17, 0x98], rfl⟩
  signingKey := fun _ => .ok ()
  signPrehash := fun _ _ => .ok [0x0a, 0xbe, 0x8e, 0x10, 0x84, 0xd3, 0xaa, 0x5c, 0x90, 0x84, 0xda, 0xa8, 0x62, 0x73, 0x9b, 0x03,
    0x60, 0x94, 0x23, 0x2a, 0xa8, 0x28, 0xa3, 0xd4, 0x1a, 0xa9, 0x74, 0xc4, 0x8c, 0x1c, 0x71, 0xd4,
    0xdb, 0xc3, 0x68, 0x7a, 0x1b, 0x72, 0x9c, 0x5e, 0xa3, 0x76, 0x1d, 0x36, 0x4b, 0xac, 0xbc, 0x91,
    0x93, 0xf7, 0xe9, 0xf1, 0xa8, 0xde, 0x0f, 0xd4, 0x93, 0xef, 0x72, 0x88, 0x9b, 0x2d, 0x30, 0xf0]
  verifyPrehash := fun _ _ _ => .ok ()

def oneEventSigner : PrivateKeySigner := ⟨oneEventSuite, ⟨List.replicate 31 0 ++ [1], rfl⟩⟩

def oneTemplate : Template :=
  { kind := 1, content := "h\ni", tags := [["t", "a\"b"]], createdAt := 7 }

theorem signsAsGiven_oneTemplate :
    oneEventSigner.Signs ∧ oneEventSigner.Fresh oneTemplate ∧
      oneEventSigner.SignsAsGiven oneTemplate := by
  have hsigns : oneEventSigner.Signs := ⟨rfl, fun _ => ⟨_, rfl, rfl⟩⟩
  have hfresh : oneEventSigner.Fresh oneTemplate := by
    intro signature h
    obtain rfl := Except.ok.inj h
    decide +kernel
  have hunambiguous : oneTemplate.Unambiguous :=
    ⟨by decide +kernel, by decide +kernel, by decide +kernel⟩
  exact ⟨hsigns, hfresh, (signsAsGiven_iff _ _ hsigns hfresh).mpr hunambiguous⟩

/-- **A tag breaks signing**: with the tag `["created_at","5"]` no signer signs the
template, and with the tag `["content","evil"]` the event that is read back does
not have the content `hi`. -/
theorem tag_breaks_signing :
    (¬ ∃ signer : PrivateKeySigner,
      signer.SignsAsGiven ⟨1, "hi", [["created_at", "5"]], 7⟩) ∧
    ¬ ∃ signer : PrivateKeySigner, signer.SignsAsGiven ⟨1, "hi", [["content", "evil"]], 7⟩ := by
  constructor
  · rintro ⟨signer, h⟩
    exact absurd h.createdAt (by decide +kernel)
  · rintro ⟨signer, h⟩
    obtain ⟨signed, -, -, hsigned, -⟩ := id h
    obtain ⟨signature, rfl⟩ := eq_eventWith hsigned
    have hcontent := ((signsAsGiven_iff_following hsigned h.createdAt).mp h).1
    have hevil : following "content" (signer.eventWith ⟨1, "hi", [["content", "evil"]], 7⟩
        signature).strings = some "evil" := rfl
    rw [hevil] at hcontent
    exact absurd hcontent (by decide)

end PrivateKeySigner

end Nipworker
