/-
Prepared events read back (`parser/mod.rs`).

An event that `Parser::prepare` has made of a template, with a private key as the
signer, is parsed by the same parser.  What comes out should be what the plaintext
of the template says.
-/
import Nipworker.Parser.SealedContent

namespace Nipworker

open List Option

/-! ### What is said and what is read -/

namespace Template

/-- The string of the tags that is read for the content, if there is one. -/
def replacedContent (t : Template) : Option String :=
  following "content" (t.tags.flatten ++ ["content"])

def eventOf (t : Template) (author : Bytes32) (content : String) : SignedEvent :=
  { id := zeroId, pubkey := author, createdAt := 0, kind := t.kind, tags := t.tags
    content := content, sig := "" }

@[simp] theorem eventOf_kind (t : Template) (author : Bytes32) (content : String) :
    (t.eventOf author content).kind = t.kind := rfl

@[simp] theorem eventOf_tags (t : Template) (author : Bytes32) (content : String) :
    (t.eventOf author content).tags = t.tags := rfl

@[simp] theorem eventOf_pubkey (t : Template) (author : Bytes32) (content : String) :
    (t.eventOf author content).pubkey = author := rfl

@[simp] theorem eventOf_content (t : Template) (author : Bytes32) (content : String) :
    (t.eventOf author content).content = content := rfl

/-- The kinds that keep their time and are prepared as NIP-51 lists. -/
def IsList (t : Template) : Prop := isNip51Kind t.kind ∧ t.kind ≠ 17375 ∧ t.kind ≠ 10019

instance (t : Template) : Decidable t.IsList := inferInstanceAs (Decidable (_ ∧ _ ∧ _))

def listOf (t : Template) : ListParsed := (ListParsed.empty t.kind).addTags t.tags

end Template

/-- The template of the event with a plaintext for its content. -/
def SignedEvent.opened (event : SignedEvent) (plaintext : String) : Template :=
  { kind := event.kind, content := plaintext, tags := event.tags, createdAt := 0 }

namespace Parser

variable {D : Type}

/-- What the plaintext of a template says. -/
def plainData (p : Parser D) (author : Bytes32) (t : Template) : ParserResult (ParsedData D) :=
  if t.kind = 4 then
    match tagValue t.tags "p" with
    | some recipient => .ok (.kind4 (p.openMessage author recipient t.content))
    | none => failWith (.other "no recipient found in p tag")
  else if t.kind = 7374 then .ok (.kind7374 (quoteData t.tags t.content))
  else if t.kind = 7375 then
    (TokenContent.fromJson t.content).map fun content => .kind7375 (tokenData content)
  else if t.kind = 7376 then
    (readOr TypesError.display .other "" (NostrTags.fromText t.content)).map fun tags =>
      .kind7376 (historyData t.tags tags)
  else if t.kind = 17375 then (p.walletData t.tags t.content).map .kind17375
  else (t.listOf.withPrivate t.content).map .list

/-- The text that the content of an event is read as: what it is decrypted to, or itself
where it is plaintext; of a list without private tags that are read, the empty text. -/
def textOf (p : Parser D) (event : SignedEvent) : Option String :=
  if event.kind = 4 then
    p.signer.bind fun signer => (tagValue event.tags "p").bind fun recipient =>
      (signer.nip04DecryptBetween event.pubkey.toHex recipient event.content).toOption
  else if event.kind = 7374 then
    if event.content = "" then none
    else (p.ownDecrypt "Failed to decrypt kind 7374: " event).toOption
  else if event.kind = 7375 then
    (p.plaintextOr TokenContent.fromJson "Failed to decrypt kind 7375: " event).toOption
  else if event.kind = 7376 then
    (p.plaintextOr NostrTags.fromText "Failed to decrypt kind 7376: " event).toOption
  else if event.kind = 17375 then
    (p.plaintextOr NostrTags.fromText "Failed to decrypt kind 17375: " event).toOption
  else if Text.trim event.content.toList = [] then some ""
  else (p.listPlaintext event).or (some "")

/-- A content says what the plaintext of the template says: it is read as a text that says
the same, a quote has a mint, and a list is read as one. -/
structure SaysPlaintext (p : Parser D) (author : Bytes32) (t : Template) (content : String) :
    Prop where
  same : ∃ text, p.textOf (t.eventOf author content) = some text ∧ ∃ data,
    p.plainData author t = .ok data ∧ p.plainData author { t with content := text } = .ok data
  quote : t.kind = 7374 → (quoteTags t.tags).1 ≠ ""
  list : t.IsList → readAsList t.kind

/-- The event has the kind, the tags and the time of the template, and is parsed
as its plaintext. -/
def ReadsBack (p : Parser D) (author : Bytes32) (t : Template) (event : SignedEvent) : Prop :=
  event.kind = t.kind ∧ event.tags = t.tags ∧ event.createdAt = t.createdAt.toNat ∧
    ∃ data, p.plainData author t = .ok data ∧ p.parse event = .ok data

/-- The key of a wallet tag, if it is one of 32 bytes, is a scalar of the curve. -/
def KeyValid (p : Parser D) (tag : List String) : Prop :=
  ∀ value rest secret, tag = "privkey" :: value :: rest →
    Bytes32.fromHex "Invalid secret key" value = .ok secret → p.publicKey secret ≠ none

end Parser

/-- What the kinds need to be read back: a message a recipient, a quote a mint that
is not empty in its last `mint` tag, a wallet keys of the curve, and a list a kind
that is read as one and an encryption tag, unless its private tags add nothing. -/
structure Template.KeepsContent {D : Type} (t : Template) (p : Parser D) : Prop where
  message : t.kind = 4 → tagValue t.tags "p" ≠ some ""
  quote : t.kind = 7374 → (quoteTags t.tags).1 ≠ ""
  wallet : t.kind = 17375 → ∀ tags, NostrTags.fromText t.content = .ok tags →
    ∀ tag ∈ tags, p.KeyValid tag
  list : t.IsList → readAsList t.kind ∧
    (encryptionScheme t.tags ≠ none ∨ t.listOf.withPrivate t.content = .ok t.listOf)

/-! ### The content behind its name -/

theorem following_snoc (l : List String) (content : String) :
    following "content" (l ++ ["content", content]) =
      some ((following "content" (l ++ ["content"])).getD content) := by
  induction l with
  | nil => rfl
  | cons s l ih =>
    rw [cons_append, following, cons_append, following]
    by_cases hs : EndsIn "content" s
    · rw [if_pos hs, if_pos hs]
      cases l with
      | nil => rfl
      | cons r l => rfl
    · rw [if_neg hs, if_neg hs, ih]

namespace Parser

variable {D : Type} {p : Parser D} {cipher : CipherSuite} {signer : PrivateKeySigner}

open PrivateKeySigner

variable {t : Template} {event : SignedEvent} {encrypted content : String} {now : UInt64}

theorem fields_of_signTemplate (hp : p.signer = some (signer.toDyn cipher))
    (h : p.signTemplate t = .ok event) :
    event.kind = t.kind ∧ event.tags = t.tags ∧ event.createdAt = t.createdAt.toNat ∧
      event.pubkey = signer.publicKey ∧ event.content = t.replacedContent.getD t.content := by
  rw [signTemplate, hp] at h
  match hjson : signer.signEvent t.toJson with
  | .error e =>
    have hcall : (signer.toDyn cipher).signEvent t.toJson = .error e.display := by
      show Except.mapError _ (signer.signEvent t.toJson) = _
      rw [hjson]
      rfl
    simp only [hcall] at h
    exact nomatch h
  | .ok json =>
    have hcall : (signer.toDyn cipher).signEvent t.toJson = .ok json := Result.mapError_eq_ok.mpr hjson
    simp only [hcall] at h
    have hread : SignedEvent.fromJson json = .ok event := Result.mapError_eq_ok.mp h
    obtain ⟨h1, h2, h3, h4, h5⟩ := fields_of_signEvent hjson hread
    rw [following_snoc] at h5
    exact ⟨h1, h2, h3, h4, (some.inj h5).symm⟩

theorem textOf_eq_eventOf {author : Bytes32} (hkind : event.kind = t.kind)
    (htags : event.tags = t.tags) (hauthor : event.pubkey = author) :
    p.textOf event = p.textOf (t.eventOf author event.content) := by
  obtain ⟨id, pubkey, createdAt, kind, tags, content, sig⟩ := event
  obtain rfl : kind = t.kind := hkind
  obtain rfl : tags = t.tags := htags
  obtain rfl : pubkey = author := hauthor
  rfl

/-! ### The text of a content -/

theorem toOption_eq_some_iff {ε α : Type} {x : Except ε α} {a : α} :
    x.toOption = some a ↔ x = .ok a := by
  cases x with
  | error e => simp [Except.toOption]
  | ok b => simp [Except.toOption]

theorem isList_kind {k : UInt16} (hk : t.kind = k)
    (hno : ¬ (isNip51Kind k ∧ k ≠ 17375 ∧ k ≠ 10019)) : ¬ t.IsList := by
  rw [Template.IsList, hk]
  exact hno

theorem fromText_empty : ∃ e, NostrTags.fromText "" = .error (.error e) := ⟨_, rfl⟩

section PlainData

variable (p) (author : Bytes32)

theorem plainData_kind4 (hk : t.kind = 4) {recipient : String}
    (hrecipient : tagValue t.tags "p" = some recipient) :
    p.plainData author t = .ok (.kind4 (p.openMessage author recipient t.content)) := by
  rw [plainData, if_pos hk, hrecipient]

theorem plainData_kind7374 (hk : t.kind = 7374) :
    p.plainData author t = .ok (.kind7374 (quoteData t.tags t.content)) := by
  rw [plainData, if_neg (by rw [hk]; decide), if_pos hk]

theorem plainData_kind7375 (hk : t.kind = 7375) : p.plainData author t =
    (TokenContent.fromJson t.content).map fun content => .kind7375 (tokenData content) := by
  rw [plainData, if_neg (by rw [hk]; decide), if_neg (by rw [hk]; decide), if_pos hk]

theorem plainData_kind7376 (hk : t.kind = 7376) : p.plainData author t =
    (readOr TypesError.display .other "" (NostrTags.fromText t.content)).map fun tags =>
      .kind7376 (historyData t.tags tags) := by
  rw [plainData, if_neg (by rw [hk]; decide), if_neg (by rw [hk]; decide),
    if_neg (by rw [hk]; decide), if_pos hk]

theorem plainData_kind17375 (hk : t.kind = 17375) :
    p.plainData author t = (p.walletData t.tags t.content).map .kind17375 := by
  rw [plainData, if_neg (by rw [hk]; decide), if_neg (by rw [hk]; decide),
    if_neg (by rw [hk]; decide), if_neg (by rw [hk]; decide), if_pos hk]

theorem plainData_list (h : t.IsList) :
    p.plainData author t = (t.listOf.withPrivate t.content).map .list := by
  have hne : ∀ k : UInt16, ¬ (isNip51Kind k ∧ k ≠ 17375 ∧ k ≠ 10019) → t.kind ≠ k :=
    fun k hk heq => isList_kind heq hk h
  rw [plainData, if_neg (hne 4 (by decide)), if_neg (hne 7374 (by decide)),
    if_neg (hne 7375 (by decide)), if_neg (hne 7376 (by decide)), if_neg (hne 17375 (by decide))]

end PlainData

section TextOf

variable {data : ParsedData D}

theorem textOf_kind7375 (hk : event.kind = 7375) : p.textOf event =
    (p.plaintextOr TokenContent.fromJson "Failed to decrypt kind 7375: " event).toOption := by
  rw [textOf, if_neg (by rw [hk]; decide), if_neg (by rw [hk]; decide), if_pos hk]

theorem textOf_kind7376 (hk : event.kind = 7376) : p.textOf event =
    (p.plaintextOr NostrTags.fromText "Failed to decrypt kind 7376: " event).toOption := by
  rw [textOf, if_neg (by rw [hk]; decide), if_neg (by rw [hk]; decide),
    if_neg (by rw [hk]; decide), if_pos hk]

theorem textOf_kind17375 (hk : event.kind = 17375) : p.textOf event =
    (p.plaintextOr NostrTags.fromText "Failed to decrypt kind 17375: " event).toOption := by
  rw [textOf, if_neg (by rw [hk]; decide), if_neg (by rw [hk]; decide),
    if_neg (by rw [hk]; decide), if_neg (by rw [hk]; decide), if_pos hk]

theorem isNip51Kind_of_readAsList {kind : UInt16} (h : readAsList kind) :
    isNip51Kind kind ∧ kind ≠ 17375 ∧ kind ≠ 10019 := by
  obtain ⟨h1, h2, hno⟩ | hmem := h
  · simp only [mem_cons, not_mem_nil, or_false, not_or] at hno
    exact ⟨.inl ⟨h1, h2⟩, hno.2.2, hno.2.1⟩
  · have hall : addressableLists.all (fun k => decide (isNip51Kind k ∧ k ≠ 17375 ∧ k ≠ 10019)) =
        true := by decide
    exact of_decide_eq_true (List.all_eq_true.mp hall kind hmem)

theorem textOf_list (h : (event.opened "").IsList) : p.textOf event =
    if Text.trim event.content.toList = [] then some "" else (p.listPlaintext event).or (some "") := by
  have hne : ∀ k : UInt16, ¬ (isNip51Kind k ∧ k ≠ 17375 ∧ k ≠ 10019) → event.kind ≠ k :=
    fun k hk heq => isList_kind (t := event.opened "") heq hk h
  rw [textOf, if_neg (hne 4 (by decide)), if_neg (hne 7374 (by decide)),
    if_neg (hne 7375 (by decide)), if_neg (hne 7376 (by decide)), if_neg (hne 17375 (by decide))]

/-- What is read of a text after it was found. -/
theorem bind_text {β : Type} {x : ParserResult String} {read : String → ParserResult β}
    {f : β → ParsedData D} {said : String → ParserResult (ParsedData D)}
    (h : ∀ text, (read text).map f = .ok data ↔ said text = .ok data) :
    (x >>= read).map f = .ok data ↔ ∃ text, x.toOption = some text ∧ said text = .ok data := by
  cases x with
  | error e => exact iff_of_false nofun nofun
  | ok text =>
    simp only [toOption_eq_some_iff, Except.ok.injEq, exists_eq_left']
    exact h text

theorem sealedMessage_ne_openMessage (author : Bytes32) (recipient plaintext : String) :
    sealedMessage author recipient ≠ p.openMessage author recipient plaintext :=
  fun h => nomatch congrArg Kind4Parsed.decryptedContent h

theorem parse_kind4_iff (hk : event.kind = 4)
    (hplain : ∃ text, p.plainData event.pubkey (event.opened text) = .ok data) :
    p.parse event = .ok data ↔ ∃ text, p.textOf event = some text ∧
      p.plainData event.pubkey (event.opened text) = .ok data := by
  obtain ⟨plaintext, hdata⟩ := hplain
  rw [parse_kind4 hk, textOf, if_pos hk, parseKind4, if_neg (not_not.mpr hk)]
  cases hrecipient : tagValue event.tags "p" with
  | none =>
    rw [plainData, if_pos (show (event.opened plaintext).kind = 4 from hk),
      show (event.opened plaintext).tags = event.tags from rfl, hrecipient] at hdata
    contradiction
  | some recipient =>
    have hopen (text : String) := plainData_kind4 p event.pubkey (t := event.opened text) hk hrecipient
    rw [hopen] at hdata
    obtain rfl := Except.ok.inj hdata
    simp only [hopen]
    cases p.signer with
    | none =>
      refine iff_of_false (fun h => ?_) nofun
      exact sealedMessage_ne_openMessage _ _ _ (ParsedData.kind4.inj (Except.ok.inj h))
    | some signer =>
      simp only [bind_some, toOption_eq_some_iff]
      cases signer.nip04DecryptBetween event.pubkey.toHex recipient event.content with
      | ok text =>
        simp only [Except.ok.injEq, exists_eq_left']
        exact ⟨fun h => Except.ok.inj h, fun h => congrArg Except.ok h⟩
      | error e =>
        refine iff_of_false ?_ nofun
        dsimp only
        by_cases hother : notParticipant e = true
        · rw [if_pos hother]
          intro h
          exact sealedMessage_ne_openMessage _ _ _ (ParsedData.kind4.inj (Except.ok.inj h))
        · rw [if_neg hother]
          exact nofun

theorem parse_kind7374_iff (hk : event.kind = 7374) (hmint : (quoteTags event.tags).1 ≠ "") :
    p.parse event = .ok data ↔ ∃ text, p.textOf event = some text ∧
      p.plainData event.pubkey (event.opened text) = .ok data := by
  rw [parse_kind7374 hk, textOf, if_neg (by rw [hk]; decide), if_pos hk, parseKind7374,
    if_neg (not_not.mpr hk), if_neg hmint]
  by_cases hcontent : event.content = ""
  · rw [if_pos hcontent, if_pos hcontent]
    exact iff_of_false nofun nofun
  · rw [if_neg hcontent, if_neg hcontent]
    refine bind_text fun text => ?_
    rw [plainData_kind7374 p _ (t := event.opened text) hk]
    rfl

theorem parse_kind7375_iff (hk : event.kind = 7375) :
    p.parse event = .ok data ↔ ∃ text, p.textOf event = some text ∧
      p.plainData event.pubkey (event.opened text) = .ok data := by
  rw [parse_kind7375 hk, textOf_kind7375 hk, parseKind7375, if_neg (not_not.mpr hk)]
  refine bind_text fun text => ?_
  rw [plainData_kind7375 p _ (t := event.opened text) hk,
    show (event.opened text).content = text from rfl]
  by_cases hempty : text = ""
  · obtain ⟨e, he⟩ := TokenContent.fromJson_empty
    rw [if_pos hempty, hempty, he]
    exact iff_of_false nofun nofun
  · rw [if_neg hempty, readOr]
    cases TokenContent.fromJson text with
    | ok token => exact Iff.rfl
    | error e => exact iff_of_false nofun nofun

theorem parse_kind7376_iff (hk : event.kind = 7376) :
    p.parse event = .ok data ↔ ∃ text, p.textOf event = some text ∧
      p.plainData event.pubkey (event.opened text) = .ok data := by
  rw [parse_kind7376 hk, textOf_kind7376 hk, parseKind7376, if_neg (not_not.mpr hk)]
  refine bind_text fun text => ?_
  rw [plainData_kind7376 p _ (t := event.opened text) hk,
    show (event.opened text).content = text from rfl]
  by_cases hempty : text = ""
  · obtain ⟨e, he⟩ := fromText_empty
    rw [if_pos hempty, hempty, he]
    exact iff_of_false nofun nofun
  · rw [if_neg hempty, readOr, readOr]
    cases NostrTags.fromText text with
    | ok tags => exact Iff.rfl
    | error e => exact iff_of_false nofun nofun

theorem parse_kind17375_iff (hk : event.kind = 17375) :
    p.parse event = .ok data ↔ ∃ text, p.textOf event = some text ∧
      p.plainData event.pubkey (event.opened text) = .ok data := by
  rw [parse_kind17375 hk, textOf_kind17375 hk, parseKind17375, if_neg (not_not.mpr hk)]
  refine bind_text fun text => ?_
  rw [plainData_kind17375 p _ (t := event.opened text) hk]
  rfl

theorem withPrivate_empty (st : ListParsed) : st.withPrivate "" = .ok st := by
  obtain ⟨e, he⟩ := @tagArrays_blank "" rfl
  rw [ListParsed.withPrivate, he]

theorem parse_list_iff (hread : readAsList event.kind) :
    p.parse event = .ok data ↔ ∃ text, p.textOf event = some text ∧
      p.plainData event.pubkey (event.opened text) = .ok data := by
  have hlist : (event.opened "").IsList := isNip51Kind_of_readAsList hread
  have hplain (text : String) : p.plainData event.pubkey (event.opened text) =
      ((event.opened "").listOf.withPrivate text).map .list :=
    plainData_list p _ (t := event.opened text) hlist
  have hopened : (ListParsed.empty event.kind).addTags event.tags = (event.opened "").listOf := rfl
  have hkind : isNip51Kind event.kind := hlist.1
  simp only [parse_list hread, textOf_list hlist, parseNip51, hkind, not_true_eq_false, if_false,
    hopened, hplain]
  by_cases hblank : Text.trim event.content.toList = []
  · rw [if_pos hblank, if_pos hblank]
    simp only [some.injEq, exists_eq_left', withPrivate_empty]
  · rw [if_neg hblank, if_neg hblank]
    cases p.listPlaintext event with
    | none => simp only [none_or, some.injEq, exists_eq_left', withPrivate_empty]
    | some text => simp only [some_or, some.injEq, exists_eq_left']

end TextOf

/-! ### What the kinds encrypt -/

def stamp (now : UInt64) (t : Template) : UInt64 := if t.IsList then t.createdAt else now

/-- The event is signed from the template with some content, which says what the plaintext
says exactly when the kind has what it needs. -/
def SealedAs (p : Parser D) (author : Bytes32) (now : UInt64) (t : Template)
    (event : SignedEvent) : Prop :=
  ∃ content, p.signTemplate { t with content := content, createdAt := stamp now t } = .ok event ∧
    (p.SaysPlaintext author t content ↔ t.KeepsContent p)

theorem encryptionSigner_eq (hp : p.signer = some (signer.toDyn cipher)) :
    p.encryptionSigner = .ok (signer.toDyn cipher) := by
  rw [encryptionSigner, hp]

theorem ownEncrypt_eq_ok (hp : p.signer = some (signer.toDyn cipher)) {text : String}
    (h : cipher.nip44Encrypt signer.secretKey signer.publicKey text = .ok encrypted) :
    p.ownEncrypt text = .ok encrypted := by
  have hcall : (signer.toDyn cipher).nip44Encrypt "" text = .ok encrypted :=
    nip44Encrypt_own (.inl rfl) h
  rw [ownEncrypt, encryptionSigner_eq hp]
  exact Result.mapError_eq_ok.mpr hcall

theorem stamp_eq_now (h : ¬ t.IsList) (now : UInt64) : stamp now t = now := if_neg h

/-- Where one text is read of the sealed content, and the kind has no condition of its own
on the tags, the content says what the plaintext says exactly when that text does. -/
theorem saysPlaintext_iff {k : UInt16} (hk : t.kind = k) (hne : k ≠ 7374)
    (hno : ¬ (isNip51Kind k ∧ k ≠ 17375 ∧ k ≠ 10019)) {author : Bytes32} {text : String}
    (htext : p.textOf (t.eventOf author content) = some text) :
    p.SaysPlaintext author t content ↔ ∃ data, p.plainData author t = .ok data ∧
      p.plainData author { t with content := text } = .ok data := by
  constructor
  · rintro ⟨⟨text', htext', hsame⟩, -, -⟩
    obtain rfl := some.inj (htext.symm.trans htext')
    exact hsame
  · intro hsame
    exact ⟨⟨text, htext, hsame⟩, fun h => absurd (hk.symm.trans h) hne,
      fun h => absurd h (isList_kind hk hno)⟩

theorem prepare_kind7374_sealed (hk : t.kind = 7374) (hmint : tagValue t.tags "mint" ≠ none)
    (h : p.ownEncrypt t.content = .ok encrypted) (now : UInt64) :
    p.prepare now t = p.signTemplate { t with content := encrypted, createdAt := now } := by
  rw [prepare, if_neg (by rw [hk]; decide), if_pos hk, prepareKind7374, if_neg (not_not.mpr hk),
    if_neg hmint, h]
  rfl

theorem walletTag_eq_ok_iff (st : Kind17375Parsed) (tag : List String) :
    (∃ st', p.walletTag st tag = .ok st') ↔ p.KeyValid tag := by
  match tag with
  | [] => exact iff_of_true ⟨_, rfl⟩ (by rintro value rest secret ⟨⟩)
  | [_] => exact iff_of_true ⟨_, rfl⟩ (by rintro value rest secret ⟨⟩)
  | name :: value :: rest =>
    rw [walletTag]
    by_cases hmint : name = "mint"
    · rw [if_pos hmint]
      refine iff_of_true ⟨_, rfl⟩ ?_
      rintro value' rest' secret ⟨⟩
      exact absurd hmint (by decide)
    rw [if_neg hmint]
    by_cases hpriv : name = "privkey"
    · subst hpriv
      rw [if_pos rfl]
      match hsecret : Bytes32.fromHex "Invalid secret key" value with
      | .error e =>
        refine iff_of_true ⟨_, rfl⟩ ?_
        rintro value' rest' secret ⟨⟩ hvalid
        rw [hsecret] at hvalid
        exact nomatch hvalid
      | .ok secret =>
        match hkey : p.publicKey secret with
        | none =>
          refine iff_of_false ?_ fun hvalid => hvalid value rest secret rfl hsecret hkey
          rintro ⟨st', hst⟩
          simp only [hkey] at hst
          exact nomatch hst
        | some key =>
          refine iff_of_true ?_ ?_
          · simp only [hkey]
            exact ⟨_, rfl⟩
          · rintro value' rest' secret' ⟨⟩ hvalid
            rw [hsecret] at hvalid
            obtain rfl := Except.ok.inj hvalid
            rw [hkey]
            exact some_ne_none key
    · rw [if_neg hpriv]
      refine iff_of_true ⟨_, rfl⟩ ?_
      rintro value' rest' secret ⟨⟩
      exact absurd rfl hpriv

theorem walletData_eq_ok_iff {plaintext : String} {hidden : List (List String)}
    (h : NostrTags.fromText plaintext = .ok hidden) (tags : List (List String)) :
    (∃ st, p.walletData tags plaintext = .ok st) ↔ ∀ tag ∈ hidden, p.KeyValid tag := by
  have hne : plaintext ≠ "" := by
    rintro rfl
    obtain ⟨e, he⟩ := fromText_empty
    rw [he] at h
    exact nomatch h
  rw [← Result.foldlM_eq_ok_iff walletTag_eq_ok_iff hidden ⟨[], none, none, true⟩, walletData,
    if_neg hne, h]
  constructor
  · rintro ⟨st, hst⟩
    obtain ⟨st', hfold, -⟩ := Result.bind_eq_ok.mp hst
    exact ⟨st', hfold⟩
  · rintro ⟨st', hfold⟩
    exact ⟨_, Result.bind_eq_ok.mpr ⟨st', hfold, rfl⟩⟩

section Sealing

variable (hp : p.signer = some (signer.toDyn cipher)) (hcipher : cipher.Sound)

include hp hcipher

theorem ownDecrypt_sealed {text : String} (h : p.ownEncrypt text = .ok encrypted) (t : Template) :
    Sealed encrypted ∧ ∀ message,
      p.ownDecrypt message (t.eventOf signer.publicKey encrypted) = .ok text := by
  rw [ownEncrypt, encryptionSigner_eq hp] at h
  have hcall : (signer.toDyn cipher).nip44Encrypt "" text = .ok encrypted :=
    Result.mapError_eq_ok.mp h
  obtain ⟨hopen, hsealed⟩ := nip44_own hcipher (.inl rfl) hcall
  refine ⟨hsealed, fun message => ?_⟩
  rw [ownDecrypt, hp]
  exact Result.mapError_eq_ok.mpr hopen

theorem plaintextOr_sealed {ε α : Type} {read : String → Except (ReadStop ε) α}
    (hread : ∀ {s}, Sealed s → ∃ e, read s = .error (.error e)) {text : String}
    (h : p.ownEncrypt text = .ok encrypted) (t : Template) (message : String) :
    p.plaintextOr read message (t.eventOf signer.publicKey encrypted) = .ok text := by
  obtain ⟨hsealed, hopen⟩ := ownDecrypt_sealed hp hcipher h t
  obtain ⟨e, he⟩ := hread hsealed
  have hcontent : read (t.eventOf signer.publicKey encrypted).content = .error (.error e) := he
  rw [plaintextOr, hcontent]
  exact hopen message

theorem sealedAs_kind4 (hk : t.kind = 4)
    (h : p.prepareKind4 now t = .ok event) : p.SealedAs signer.publicKey now t event := by
  have hlist : ¬ t.IsList := isList_kind hk (by decide)
  have hkeeps : t.KeepsContent p ↔ tagValue t.tags "p" ≠ some "" := by
    refine ⟨fun hkeeps => hkeeps.message hk, fun hmessage => ⟨fun _ => hmessage, ?_, ?_, ?_⟩⟩
    · exact fun h => absurd (hk.symm.trans h) (by decide)
    · exact fun h => absurd (hk.symm.trans h) (by decide)
    · exact fun h => absurd h hlist
  rw [prepareKind4] at h
  cases hrecipient : tagValue t.tags "p" with
  | none =>
    rw [hrecipient] at h
    contradiction
  | some recipient =>
    rw [hrecipient, encryptionSigner_eq hp] at h
    obtain ⟨_, hdyn, hcalls⟩ := Result.bind_eq_ok.mp h
    obtain rfl := Except.ok.inj hdyn
    obtain ⟨encrypted, hcall, hsign⟩ := Result.bind_eq_ok.mp hcalls
    have hsealed : (signer.toDyn cipher).nip04Encrypt recipient t.content = .ok encrypted :=
      Result.mapError_eq_ok.mp hcall
    refine ⟨encrypted, ?_, ?_⟩
    · rw [stamp_eq_now hlist]
      exact hsign
    have htext : p.textOf (t.eventOf signer.publicKey encrypted) =
        ((signer.toDyn cipher).nip04DecryptBetween signer.publicKey.toHex recipient
          encrypted).toOption := by
      rw [textOf, if_pos (by exact hk), hp, Template.eventOf_tags, hrecipient]
      rfl
    rw [hkeeps, hrecipient]
    by_cases hempty : recipient = ""
    · -- the own account for the encryption, nobody for the decryption
      subst hempty
      rw [nip04_between_empty] at htext
      refine iff_of_false ?_ (fun h => h rfl)
      rintro ⟨⟨text, hsome, -⟩, -, -⟩
      rw [htext] at hsome
      exact nomatch hsome
    · rw [(nip04_between hcipher hempty hsealed).1] at htext
      refine iff_of_true ?_ fun h => hempty (some.inj h)
      have hplain := plainData_kind4 p signer.publicKey hk hrecipient
      exact (saysPlaintext_iff hk (by decide) (by decide) htext).mpr ⟨_, hplain, hplain⟩

theorem sealedAs_kind7374 (hk : t.kind = 7374)
    (h : p.prepareKind7374 now t = .ok event) : p.SealedAs signer.publicKey now t event := by
  have hlist : ¬ t.IsList := isList_kind hk (by decide)
  have hkeeps : t.KeepsContent p ↔ (quoteTags t.tags).1 ≠ "" := by
    refine ⟨fun hkeeps => hkeeps.quote hk, fun hquote => ⟨?_, fun _ => hquote, ?_, ?_⟩⟩
    · exact fun h => absurd (hk.symm.trans h) (by decide)
    · exact fun h => absurd (hk.symm.trans h) (by decide)
    · exact fun h => absurd h hlist
  rw [prepareKind7374, if_neg (not_not.mpr hk)] at h
  by_cases hmint : tagValue t.tags "mint" = none
  · rw [if_pos hmint] at h
    exact nomatch h
  rw [if_neg hmint] at h
  obtain ⟨encrypted, hcall, hsign⟩ := Result.bind_eq_ok.mp h
  obtain ⟨hsealed, hopen⟩ := ownDecrypt_sealed hp hcipher hcall t
  refine ⟨encrypted, ?_, ?_⟩
  · rw [stamp_eq_now hlist]
    exact hsign
  have hne : encrypted ≠ "" := by
    rintro rfl
    exact hsealed.1 rfl
  have htext : p.textOf (t.eventOf signer.publicKey encrypted) = some t.content := by
    rw [textOf, Template.eventOf_kind, if_neg (by rw [hk]; decide), if_pos hk,
      Template.eventOf_content, if_neg hne, hopen]
    rfl
  have hplain := plainData_kind7374 p signer.publicKey hk
  rw [hkeeps]
  exact ⟨fun h => h.quote hk, fun hquote =>
    ⟨⟨t.content, htext, _, hplain, hplain⟩, fun _ => hquote, fun h => absurd h hlist⟩⟩

theorem sealedAs_kind7375 (hk : t.kind = 7375)
    (h : p.prepareKind7375 now t = .ok event) : p.SealedAs signer.publicKey now t event := by
  have hlist : ¬ t.IsList := isList_kind hk (by decide)
  have hkeeps : t.KeepsContent p := by
    refine ⟨?_, ?_, ?_, fun h => absurd h hlist⟩
    all_goals exact fun h => absurd (hk.symm.trans h) (by decide)
  rw [prepareKind7375, if_neg (not_not.mpr hk)] at h
  obtain ⟨content, hcontent, h⟩ := Result.bind_eq_ok.mp h
  have hread : TokenContent.fromJson t.content = .ok content := Result.mapError_eq_ok.mp hcontent
  by_cases hmint : content.mint = ""
  · rw [if_pos hmint] at h
    exact nomatch h
  rw [if_neg hmint] at h
  by_cases hproofs : content.proofs = []
  · rw [if_pos hproofs] at h
    exact nomatch h
  rw [if_neg hproofs] at h
  obtain ⟨encrypted, hcall, hsign⟩ := Result.bind_eq_ok.mp h
  refine ⟨encrypted, ?_, iff_of_true ?_ hkeeps⟩
  · rw [stamp_eq_now hlist]
    exact hsign
  · have htext : p.textOf (t.eventOf signer.publicKey encrypted) = some t.content := by
      rw [textOf_kind7375 (by exact hk),
        plaintextOr_sealed hp hcipher TokenContent.fromJson_sealed hcall t]
      rfl
    have hplain : p.plainData signer.publicKey t = .ok (.kind7375 (tokenData content)) := by
      rw [plainData_kind7375 p _ hk, hread]
      rfl
    exact (saysPlaintext_iff hk (by decide) (by decide) htext).mpr ⟨_, hplain, hplain⟩

theorem sealedAs_kind7376 (hk : t.kind = 7376)
    (h : p.prepareKind7376 now t = .ok event) : p.SealedAs signer.publicKey now t event := by
  have hlist : ¬ t.IsList := isList_kind hk (by decide)
  have hkeeps : t.KeepsContent p := by
    refine ⟨?_, ?_, ?_, fun h => absurd h hlist⟩
    all_goals exact fun h => absurd (hk.symm.trans h) (by decide)
  rw [prepareKind7376, if_neg (not_not.mpr hk)] at h
  obtain ⟨tags, htags, h⟩ := Result.bind_eq_ok.mp h
  have hread : NostrTags.fromText t.content = .ok tags := Result.mapError_eq_ok.mp htags
  obtain ⟨_, -, h⟩ := Result.bind_eq_ok.mp h
  obtain ⟨encrypted, hcall, hsign⟩ := Result.bind_eq_ok.mp h
  refine ⟨encrypted, ?_, iff_of_true ?_ hkeeps⟩
  · rw [stamp_eq_now hlist]
    exact hsign
  · -- the tags are encrypted as they are written again
    have htext : p.textOf (t.eventOf signer.publicKey encrypted) =
        some (String.ofList (NostrTags.toJson tags)) := by
      rw [textOf_kind7376 (by exact hk),
        plaintextOr_sealed hp hcipher NostrTags.fromText_sealed hcall t]
      rfl
    refine (saysPlaintext_iff hk (by decide) (by decide) htext).mpr
      ⟨.kind7376 (historyData t.tags tags), ?_, ?_⟩
    · rw [plainData_kind7376 p _ hk, hread]
      rfl
    · rw [plainData_kind7376 p _ (by exact hk), NostrTags.fromText_toJson]
      rfl

theorem sealedAs_kind17375 (hk : t.kind = 17375)
    (h : p.prepareKind17375 now t = .ok event) : p.SealedAs signer.publicKey now t event := by
  have hlist : ¬ t.IsList := isList_kind hk (by decide)
  rw [prepareKind17375, if_neg (not_not.mpr hk)] at h
  obtain ⟨tags, htags, h⟩ := Result.bind_eq_ok.mp h
  have hread : NostrTags.fromText t.content = .ok tags := Result.mapError_eq_ok.mp htags
  obtain ⟨_, -, h⟩ := Result.bind_eq_ok.mp h
  obtain ⟨encrypted, hcall, hsign⟩ := Result.bind_eq_ok.mp h
  have hkeeps : t.KeepsContent p ↔ ∀ tag ∈ tags, p.KeyValid tag := by
    refine ⟨fun hkeeps => hkeeps.wallet hk tags hread, fun hwallet => ⟨?_, ?_, ?_, ?_⟩⟩
    · exact fun h => absurd (hk.symm.trans h) (by decide)
    · exact fun h => absurd (hk.symm.trans h) (by decide)
    · intro _ tags' htags'
      obtain rfl := Except.ok.inj (hread.symm.trans htags')
      exact hwallet
    · exact fun h => absurd h hlist
  refine ⟨encrypted, ?_, ?_⟩
  · rw [stamp_eq_now hlist]
    exact hsign
  have htext : p.textOf (t.eventOf signer.publicKey encrypted) = some t.content := by
    rw [textOf_kind17375 (by exact hk),
      plaintextOr_sealed hp hcipher NostrTags.fromText_sealed hcall t]
    rfl
  rw [hkeeps, ← walletData_eq_ok_iff hread t.tags,
    saysPlaintext_iff hk (by decide) (by decide) htext, plainData_kind17375 p _ hk]
  constructor
  · rintro ⟨data, hdata, -⟩
    obtain ⟨st, hst, -⟩ := Result.map_eq_ok.mp hdata
    exact ⟨st, hst⟩
  · rintro ⟨st, hst⟩
    rw [hst]
    exact ⟨_, rfl, rfl⟩

end Sealing

/-! ### Lists -/

theorem not_parse_list (h : t.IsList) (hread : ¬ readAsList t.kind)
    {author : Bytes32} (hkind : event.kind = t.kind) :
    ¬ ∃ data, p.plainData author t = .ok data ∧ p.parse event = .ok data := by
  have hne : ∀ k : UInt16, ¬ (isNip51Kind k ∧ k ≠ 17375 ∧ k ≠ 10019) → event.kind ≠ k :=
    fun k hk heq => isList_kind (hkind.symm.trans heq) hk h
  have hparse : p.parse event = (p.parseOther event).map fun _ => .other := by
    rw [parse, if_neg (hne 4 (by decide)), if_neg (hne 7374 (by decide)),
      if_neg (hne 7375 (by decide)), if_neg (hne 7376 (by decide)), if_neg (hne 17375 (by decide)),
      hkind, if_neg hread]
  rintro ⟨data, hdata, hother⟩
  rw [plainData_list p author h] at hdata
  obtain ⟨st, -, rfl⟩ := Result.map_eq_ok.mp hdata
  rw [hparse] at hother
  obtain ⟨_, -, hdata⟩ := Result.map_eq_ok.mp hother
  contradiction

/-- The private tags of a list: none, or tags that are read. -/
def PrivateTags (content : String) : Prop :=
  Text.trim content.toList = [] ∨ ∃ tags, tagArrays content = .ok tags

theorem textOf_plaintext (hp : p.signer = some (signer.toDyn cipher)) (hcipher : cipher.Sound)
    (h : t.IsList) (hcontent : PrivateTags content) :
    p.textOf (t.eventOf signer.publicKey content) = some "" := by
  rw [textOf_list (by exact h), Template.eventOf_content]
  by_cases hblank : Text.trim content.toList = []
  · exact if_pos hblank
  · obtain ⟨tags, htags⟩ := hcontent.resolve_left hblank
    obtain ⟨e, he⟩ := @decryptBetween_rejects cipher signer hcipher
      (listScheme (t.eventOf signer.publicKey content)) _ (tagArrays_bracket htags)
    have hnone : p.listPlaintext (t.eventOf signer.publicKey content) = none := by
      rw [listPlaintext, hp]
      show (Except.toOption (decryptBetween (signer.toDyn cipher) _ signer.publicKey.toHex
        signer.publicKey.toHex content)) = none
      rw [he]
      rfl
    rw [if_neg hblank, hnone]
    rfl

theorem textOf_sealed (hp : p.signer = some (signer.toDyn cipher))
    (h : t.IsList) {scheme : Scheme} (hscheme : encryptionScheme t.tags = some scheme)
    (hblank : Text.trim encrypted.toList ≠ [])
    (hopen : decryptBetween (signer.toDyn cipher) scheme signer.publicKey.toHex
      signer.publicKey.toHex encrypted = .ok content) :
    p.textOf (t.eventOf signer.publicKey encrypted) = some content := by
  have hsome : p.listPlaintext (t.eventOf signer.publicKey encrypted) = some content := by
    rw [listPlaintext, hp]
    show (Except.toOption (decryptBetween (signer.toDyn cipher)
      (listScheme (t.eventOf signer.publicKey encrypted)) signer.publicKey.toHex
      signer.publicKey.toHex encrypted)) = _
    rw [listScheme, Template.eventOf_tags, hscheme, hopen]
    rfl
  rw [textOf_list (by exact h), Template.eventOf_content, if_neg hblank, hsome]
  rfl

theorem withPrivate_eq_ok (h : PrivateTags content) (st : ListParsed) :
    ∃ st', st.withPrivate content = .ok st' := by
  obtain hblank | ⟨tags, htags⟩ := h
  · obtain ⟨e, he⟩ := tagArrays_blank hblank
    exact ⟨st, by rw [ListParsed.withPrivate, he]⟩
  · exact ⟨_, by rw [ListParsed.withPrivate, htags]⟩

theorem decryptBetween_own (hcipher : cipher.Sound) {scheme : Scheme}
    (h : encryptFor (signer.toDyn cipher) scheme signer.publicKey.toHex content = .ok encrypted) :
    Text.trim encrypted.toList ≠ [] ∧ decryptBetween (signer.toDyn cipher) scheme
      signer.publicKey.toHex signer.publicKey.toHex encrypted = .ok content := by
  cases scheme with
  | nip04 =>
    obtain ⟨hopen, hiv⟩ := nip04_between hcipher (toHex_ne_empty _) h
    refine ⟨fun hblank => ?_, hopen⟩
    exact absurd (Text.trim_eq_nil_iff.mp hblank _ hiv) (by decide)
  | nip44 =>
    obtain ⟨hopen, hsealed⟩ := nip44_own hcipher (.inr rfl) h
    exact ⟨Sealed.trim_ne_nil hsealed, hopen⟩

theorem prepareNip51_open (hp : p.signer = some (signer.toDyn cipher))
    (hkind : isNip51Kind t.kind) (hscheme : encryptionScheme t.tags = none) :
    p.prepareNip51 t = p.signTemplate t := by
  rw [prepareNip51, if_neg (not_not.mpr hkind), encryptionSigner_eq hp, hscheme]
  rfl

theorem prepareNip51_sealed (hp : p.signer = some (signer.toDyn cipher))
    (hkind : isNip51Kind t.kind) (hscheme : encryptionScheme t.tags = some .nip44)
    (h : cipher.nip44Encrypt signer.secretKey signer.publicKey t.content = .ok encrypted) :
    p.prepareNip51 t = p.signTemplate { t with content := encrypted } := by
  have hcall : (signer.toDyn cipher).nip44Encrypt signer.publicKey.toHex t.content =
      .ok encrypted := nip44Encrypt_own (.inr rfl) h
  rw [prepareNip51, if_neg (not_not.mpr hkind), encryptionSigner_eq hp, hscheme]
  show Except.bind (cryptoCall _ ((signer.toDyn cipher).nip44Encrypt signer.publicKey.toHex _)) _ = _
  rw [hcall]
  rfl

theorem sealedAs_list (hp : p.signer = some (signer.toDyn cipher)) (hcipher : cipher.Sound)
    (hlist : t.IsList) (hcontent : PrivateTags t.content) (h : p.prepareNip51 t = .ok event) :
    p.SealedAs signer.publicKey now t event := by
  have hkeeps : t.KeepsContent p ↔ readAsList t.kind ∧
      (encryptionScheme t.tags ≠ none ∨ t.listOf.withPrivate t.content = .ok t.listOf) := by
    refine ⟨fun hkeeps => hkeeps.list hlist, fun hread => ⟨?_, ?_, ?_, fun _ => hread⟩⟩
    all_goals exact fun hk => absurd hlist (isList_kind hk (by decide))
  have hstamp : stamp now t = t.createdAt := if_pos hlist
  have hplain (text : String) : p.plainData signer.publicKey { t with content := text } =
      (t.listOf.withPrivate text).map .list :=
    plainData_list p _ (t := { t with content := text }) hlist
  -- what matters of the content that is signed: the text that is read of it
  suffices htexts : ∃ content text, p.signTemplate { t with content := content } = .ok event ∧
      p.textOf (t.eventOf signer.publicKey content) = some text ∧
      ((∃ st, t.listOf.withPrivate t.content = .ok st ∧ t.listOf.withPrivate text = .ok st) ↔
        encryptionScheme t.tags ≠ none ∨ t.listOf.withPrivate t.content = .ok t.listOf) by
    obtain ⟨content, text, hsign, htext, hsame⟩ := htexts
    refine ⟨content, ?_, ?_⟩
    · rw [hstamp]
      exact hsign
    rw [hkeeps, ← hsame]
    constructor
    · rintro ⟨⟨text', htext', data, hdata, hread⟩, -, hlists⟩
      obtain rfl := some.inj (htext.symm.trans htext')
      rw [hplain] at hread
      obtain ⟨st, hst, rfl⟩ := Result.map_eq_ok.mp hread
      obtain ⟨st', hst', heq⟩ := Result.map_eq_ok.mp ((hplain t.content).symm.trans hdata)
      obtain rfl := ParsedData.list.inj heq
      exact ⟨hlists hlist, st', hst', hst⟩
    · rintro ⟨hread, st, hst, hst'⟩
      refine ⟨⟨text, htext, .list st, ?_, ?_⟩, fun h => absurd hlist (isList_kind h (by decide)),
        fun _ => hread⟩
      · exact (hplain t.content).trans (Result.map_eq_ok.mpr ⟨st, hst, rfl⟩)
      · exact (hplain text).trans (Result.map_eq_ok.mpr ⟨st, hst', rfl⟩)
  rw [prepareNip51, if_neg (not_not.mpr hlist.1), encryptionSigner_eq hp] at h
  obtain ⟨_, hdyn, h⟩ := Result.bind_eq_ok.mp h
  obtain rfl := Except.ok.inj hdyn
  match hscheme : encryptionScheme t.tags with
  | none =>
    rw [hscheme] at h
    refine ⟨t.content, "", h, textOf_plaintext hp hcipher hlist hcontent, ?_⟩
    rw [or_iff_right (not_not.mpr rfl), withPrivate_empty]
    simp only [Except.ok.injEq, exists_eq_right']
  | some scheme =>
    rw [hscheme] at h
    obtain ⟨own, hown, h⟩ := Result.bind_eq_ok.mp h
    obtain rfl : signer.publicKey.toHex = own := Except.ok.inj hown
    obtain ⟨encrypted, hcall, hsign⟩ := Result.bind_eq_ok.mp h
    obtain ⟨hblank, hopen⟩ := decryptBetween_own hcipher (Result.mapError_eq_ok.mp hcall)
    obtain ⟨st, hst⟩ := withPrivate_eq_ok hcontent t.listOf
    exact ⟨encrypted, t.content, hsign, textOf_sealed hp hlist hscheme hblank hopen,
      iff_of_true ⟨st, hst, hst⟩ (.inl (some_ne_none scheme))⟩

/-! ### Reading back -/

/-- The kinds whose content is encrypted, each with a content it can have. -/
def Prepares (t : Template) : Prop :=
  t.kind ∈ [4, 7374, 7375, 7376, 17375] ∨ t.IsList ∧ PrivateTags t.content

theorem prepare_list (h : t.IsList) (now : UInt64) : p.prepare now t = p.prepareNip51 t := by
  have hne : ∀ k : UInt16, ¬ (isNip51Kind k ∧ k ≠ 17375 ∧ k ≠ 10019) → t.kind ≠ k :=
    fun k hk heq => isList_kind heq hk h
  have hother : t.kind ∉ [9321, 1018, 1068, 10019, 9735] := by
    simp only [mem_cons, not_mem_nil, or_false, not_or]
    exact ⟨hne _ (by decide), hne _ (by decide), hne _ (by decide), hne _ (by decide),
      hne _ (by decide)⟩
  rw [prepare, if_neg (hne 4 (by decide)), if_neg (hne 7374 (by decide)),
    if_neg (hne 7375 (by decide)), if_neg (hne 7376 (by decide)), if_neg (hne 17375 (by decide)),
    if_neg hother, if_pos h.1]

/-- What the content is read as decides what the event is parsed as. -/
theorem parsedAs_iff (ht : Prepares t) {author : Bytes32} (hkind : event.kind = t.kind)
    (htags : event.tags = t.tags) (hauthor : event.pubkey = author) :
    (∃ data, p.plainData author t = .ok data ∧ p.parse event = .ok data) ↔
      p.SaysPlaintext author t event.content := by
  have htextOf := textOf_eq_eventOf (p := p) hkind htags hauthor
  have hopened (text : String) : p.plainData author { t with content := text } =
      p.plainData event.pubkey (event.opened text) := by
    rw [hauthor]
    show p.plainData author ⟨t.kind, text, t.tags, _⟩ = p.plainData author ⟨event.kind, text, event.tags, 0⟩
    rw [hkind, htags]
    rfl
  have hsplit (hread : ∀ data, p.plainData author t = .ok data →
      (p.parse event = .ok data ↔ ∃ text, p.textOf event = some text ∧
        p.plainData event.pubkey (event.opened text) = .ok data))
      (hquote : t.kind = 7374 → (quoteTags t.tags).1 ≠ "") (hlist : t.IsList → readAsList t.kind) :
      (∃ data, p.plainData author t = .ok data ∧ p.parse event = .ok data) ↔
        p.SaysPlaintext author t event.content := by
    constructor
    · rintro ⟨data, hdata, h⟩
      obtain ⟨text, htext, hsame⟩ := (hread data hdata).mp h
      exact ⟨⟨text, htextOf ▸ htext, data, hdata, (hopened text).trans hsame⟩, hquote, hlist⟩
    · rintro ⟨⟨text, htext, data, hdata, hsame⟩, -, -⟩
      exact ⟨data, hdata, (hread data hdata).mpr ⟨text, htextOf.trans htext,
        (hopened text).symm.trans hsame⟩⟩
  obtain hmem | ⟨hlist, -⟩ := ht
  · simp only [mem_cons, not_mem_nil, or_false] at hmem
    have hno : t.IsList → readAsList t.kind := fun h => by
      obtain hk | hk | hk | hk | hk := hmem <;> exact absurd h (isList_kind hk (by decide))
    obtain hk | hk | hk | hk | hk := hmem
    · exact hsplit (fun data hdata => parse_kind4_iff (hkind.trans hk)
          ⟨t.content, (hopened t.content).symm.trans hdata⟩)
        (fun h => absurd (hk.symm.trans h) (by decide)) hno
    · by_cases hmint : (quoteTags t.tags).1 = ""
      · refine iff_of_false ?_ fun h => h.quote hk hmint
        rintro ⟨data, -, hdata⟩
        rw [parse_kind7374 (hkind.trans hk), parseKind7374, if_neg (not_not.mpr (hkind.trans hk)),
          htags, if_pos hmint] at hdata
        exact nomatch hdata
      · exact hsplit (fun data _ => parse_kind7374_iff (hkind.trans hk) (htags ▸ hmint))
          (fun _ => hmint) hno
    · exact hsplit (fun data _ => parse_kind7375_iff (hkind.trans hk))
        (fun h => absurd (hk.symm.trans h) (by decide)) hno
    · exact hsplit (fun data _ => parse_kind7376_iff (hkind.trans hk))
        (fun h => absurd (hk.symm.trans h) (by decide)) hno
    · exact hsplit (fun data _ => parse_kind17375_iff (hkind.trans hk))
        (fun h => absurd (hk.symm.trans h) (by decide)) hno
  · by_cases hread : readAsList t.kind
    · exact hsplit (fun data _ => parse_list_iff (hkind ▸ hread))
        (fun h => absurd hlist (isList_kind h (by decide))) fun _ => hread
    · exact iff_of_false (not_parse_list hlist hread hkind) fun h => hread (h.list hlist)

theorem sealedAs_prepare (hp : p.signer = some (signer.toDyn cipher)) (hcipher : cipher.Sound)
    (ht : Prepares t)
    (h : p.prepare now t = .ok event) : p.SealedAs signer.publicKey now t event := by
  obtain hmem | ⟨hlist, hcontent⟩ := ht
  · simp only [mem_cons, not_mem_nil, or_false] at hmem
    rw [prepare] at h
    obtain hk | hk | hk | hk | hk := hmem
    · rw [if_pos hk] at h
      exact sealedAs_kind4 hp hcipher hk h
    · rw [if_neg (by rw [hk]; decide), if_pos hk] at h
      exact sealedAs_kind7374 hp hcipher hk h
    · rw [if_neg (by rw [hk]; decide), if_neg (by rw [hk]; decide), if_pos hk] at h
      exact sealedAs_kind7375 hp hcipher hk h
    · rw [if_neg (by rw [hk]; decide), if_neg (by rw [hk]; decide), if_neg (by rw [hk]; decide),
        if_pos hk] at h
      exact sealedAs_kind7376 hp hcipher hk h
    · rw [if_neg (by rw [hk]; decide), if_neg (by rw [hk]; decide), if_neg (by rw [hk]; decide),
        if_neg (by rw [hk]; decide), if_pos hk] at h
      exact sealedAs_kind17375 hp hcipher hk h
  · rw [prepare_list hlist] at h
    exact sealedAs_list hp hcipher hlist hcontent h

/-- **Prepared events read back**: an event that is prepared with a private key has
the fields of the template and is parsed as its plaintext exactly when the clock
agrees with the template, lists apart, and the kind has what it needs; where a
string of the tags replaces the content, when that is read as a text that says the same. -/
theorem readsBack_iff (hp : p.signer = some (signer.toDyn cipher)) (hcipher : cipher.Sound)
    {now : UInt64} {t : Template} {event : SignedEvent} (ht : Prepares t)
    (h : p.prepare now t = .ok event) :
    p.ReadsBack signer.publicKey t event ↔ (¬ t.IsList → now = t.createdAt) ∧
      match t.replacedContent with
      | none => t.KeepsContent p
      | some content => p.SaysPlaintext signer.publicKey t content := by
  obtain ⟨sealed, hsign, hsame⟩ := sealedAs_prepare hp hcipher ht h
  obtain ⟨hkind, htags, htime, hauthor, hcontent⟩ := fields_of_signTemplate hp hsign
  have hstamp : event.createdAt = t.createdAt.toNat ↔ (¬ t.IsList → now = t.createdAt) := by
    rw [htime]
    show (stamp now t).toNat = _ ↔ _
    rw [UInt64.toNat_inj, stamp]
    by_cases hlist : t.IsList
    · rw [if_pos hlist]
      exact iff_of_true rfl fun hno => absurd hlist hno
    · rw [if_neg hlist]
      exact ⟨fun h _ => h, fun h => h hlist⟩
  rw [ReadsBack, and_iff_right hkind, and_iff_right htags, hstamp,
    parsedAs_iff ht hkind htags hauthor, hcontent]
  show _ ∧ p.SaysPlaintext signer.publicKey t (t.replacedContent.getD sealed) ↔ _
  match t.replacedContent with
  | none => rw [getD_none, hsame]
  | some content => rw [getD_some]

end Parser

/-! ### Three templates -/

/-- The cipher on one text that the author encrypts to themselves with NIP-44. -/
def CipherSuite.ofOne (text encrypted : String) : CipherSuite where
  nip04Encrypt := fun _ _ _ => .error "Invalid key"
  nip04Decrypt := fun _ _ _ => .error "Invalid content format"
  nip44Encrypt := fun _ _ s => if s = text then .ok encrypted else .error "invalid padding"
  nip44Decrypt := fun _ _ s => if s = encrypted then .ok text else .error "invalid payload"

theorem CipherSuite.nip44Encrypt_ofOne (text encrypted : String) (secret key : Bytes32) :
    (CipherSuite.ofOne text encrypted).nip44Encrypt secret key text = .ok encrypted := if_pos rfl

theorem CipherSuite.sound_ofOne {text encrypted : String} (h : Sealed encrypted) :
    (CipherSuite.ofOne text encrypted).Sound where
  nip04_inverts := fun h => nomatch h
  nip44_inverts := by
    intro secret key s sealed hs
    by_cases htext : s = text
    · subst htext
      obtain rfl : encrypted = sealed := Except.ok.inj ((if_pos rfl).symm.trans hs)
      exact if_pos rfl
    · exact nomatch (if_neg htext).symm.trans hs
  nip04_iv := fun h => nomatch h
  nip44_base64 := by
    intro secret key s sealed hs
    by_cases htext : s = text
    · obtain rfl : encrypted = sealed := Except.ok.inj ((if_pos htext).symm.trans hs)
      exact h
    · exact nomatch (if_neg htext).symm.trans hs
  nip04_rejects := fun _ _ _ _ => ⟨_, rfl⟩
  nip44_rejects := by
    intro secret key s hs
    have hne : s ≠ encrypted := fun heq => h.not_mem (by decide) (heq ▸ hs)
    exact ⟨_, if_neg hne⟩

open PrivateKeySigner

/-- The secret key one with the id and the signature of one event. -/
def PrivateKeySigner.ofOne (id : Bytes32) (signature : Bytes) : PrivateKeySigner where
  suite :=
    { sha256 := fun _ => id
      publicKey := oneEventSuite.publicKey
      signingKey := fun _ => .ok ()
      signPrehash := fun _ _ => .ok signature
      verifyPrehash := fun _ _ _ => .ok () }
  secretKey := oneEventSigner.secretKey

theorem PrivateKeySigner.signs_ofOne (id : Bytes32) {signature : Bytes} {t : Template}
    (htags : t.tags.flatten.all
      (fun s => s.length ≠ 2 * signature.length ∧ ¬ EndsIn "content" s) = true)
    (hstrings : t.strings.all (fun s => ¬ EndsIn "created_at" s ∧ ¬ EndsIn "sig" s) = true) :
    (PrivateKeySigner.ofOne id signature).SignsAsGiven t := by
  have hflat : ∀ s ∈ t.tags.flatten, s.length ≠ 2 * signature.length ∧ ¬ EndsIn "content" s :=
    fun s hs => of_decide_eq_true (List.all_eq_true.mp htags s hs)
  have hall : ∀ s ∈ t.strings, ¬ EndsIn "created_at" s ∧ ¬ EndsIn "sig" s := fun s hs =>
    of_decide_eq_true (List.all_eq_true.mp hstrings s hs)
  have hcontent : following "content" (t.tags.flatten ++ ["content", t.content]) =
      some t.content := by
    rw [following_append fun s hs => (hflat s hs).2, following, if_pos (endsIn_self "content")]
    rfl
  refine signsAsGiven_of_unambiguous ⟨rfl, fun _ => ⟨_, rfl, rfl⟩⟩ ?_
    ⟨fun s hs => (hall s hs).1, hcontent, fun s hs => (hall s hs).2⟩
  intro signature' h hmem
  obtain rfl : signature = signature' := Except.ok.inj h
  exact (hflat _ hmem).1 (Hex.length_encode signature)

theorem Parser.signTemplate_of_signsAsGiven {D : Type} {p : Parser D} {cipher : CipherSuite}
    {signer : PrivateKeySigner} (hp : p.signer = some (signer.toDyn cipher)) {t : Template}
    (h : signer.SignsAsGiven t) : ∃ event, p.signTemplate t = .ok event := by
  obtain ⟨-, text, event, -, htext, hread, -⟩ := h
  have hcall : (signer.toDyn cipher).signEvent t.toJson = .ok text :=
    Result.mapError_eq_ok.mpr htext
  refine ⟨event, ?_⟩
  rw [Parser.signTemplate, hp]
  simp only [hcall]
  exact Result.mapError_eq_ok.mpr hread

def Parser.ofSigner (signer : DynSigner) : Parser Unit where
  signer := some signer
  parseContent := fun _ => .ok []
  publicKey := fun _ => none
  parseOther := fun _ => .ok ()
  prepareOther := fun _ => failWith (.other "")

/-- A list with one private tag, which is to be encrypted. -/
def sealedList : Template :=
  { kind := 10003, content := "[[\"e\",\"ab\"]]", tags := [["encryption", "nip44"]], createdAt := 7 }

def sealedListText : String :=
  "AgAAAAAAAAAAAAAAAAAAAAAAAAAAAAAAAAAAAAAAAAABly+Fs5nL09nFrjEJLY+SwaHCVL9TNVXnQgo68mzRHb0KGrtAHk5K4F5mBjggEfCCO8/pe8qK76hj7PZAKCi1YFir"

def sealedListSigner : PrivateKeySigner :=
  .ofOne
    ⟨[0x36, 0x15, 0x71, 0xef, 0xd0, 0xbb, 0x65, 0x71, 0xbd, 0x20, 0xc9, 0x8d, 0xfb, 0xc0, 0x3b, 0xb9,
      0xe6, 0x78, 0xd3, 0xaa, 0x89, 0x3a, 0x98, 0xbb, 0x18, 0xa9, 0x56, 0x03, 0xf5, 0x8e, 0x33, 0x80], rfl⟩
    [0xac, 0xc5, 0x78, 0xac, 0xe3, 0x62, 0x8c, 0x25, 0x87, 0x94, 0xfb, 0x74, 0x16, 0x2c, 0x3b, 0x52,
     0xdc, 0x5c, 0x22, 0x04, 0xf0, 0x17, 0xd8, 0x1c, 0x1e, 0x82, 0x4c, 0x2a, 0x5f, 0xd0, 0xf3, 0xb5,
     0x45, 0x83, 0x83, 0xd2, 0x4f, 0xab, 0x99, 0x5a, 0x9b, 0x40, 0x70, 0x8b, 0x0c, 0x58, 0xdf, 0xae,
     0xf4, 0x08, 0xf6, 0xd7, 0x09, 0x44, 0x42, 0xa5, 0xd4, 0x80, 0x20, 0xc5, 0x0c, 0xe4, 0xd4, 0xc4]

def sealedListParser : Parser Unit :=
  .ofSigner (sealedListSigner.toDyn (.ofOne sealedList.content sealedListText))

theorem signer_sealedListParser : sealedListParser.signer =
    some (sealedListSigner.toDyn (.ofOne sealedList.content sealedListText)) := rfl

set_option maxRecDepth 8000 in
theorem sealed_sealedListText : Sealed sealedListText := by
  have hall : sealedListText.toList.all isBase64Char = true := by decide
  exact ⟨by decide, List.all_eq_true.mp hall⟩

set_option maxRecDepth 8000 in
theorem signs_sealedList :
    sealedListSigner.SignsAsGiven { sealedList with content := sealedListText } := by
  have hstrings : ({ sealedList with content := sealedListText } : Template).strings.all
      (fun s => ¬ EndsIn "created_at" s ∧ ¬ EndsIn "sig" s) = true := by decide
  rw [sealedListSigner]
  exact signs_ofOne _ (by decide) hstrings

theorem prepare_sealedList (now : UInt64) : sealedListParser.prepare now sealedList =
    sealedListParser.signTemplate { sealedList with content := sealedListText } :=
  (Parser.prepare_list (by decide) now).trans
    (Parser.prepareNip51_sealed signer_sealedListParser (by decide) (by decide)
      (CipherSuite.nip44Encrypt_ofOne _ _ _ _))

/-- The list is prepared at another time than its own, and read back. -/
theorem readsBack_sealedList : ∃ event, sealedListParser.prepare 9 sealedList = .ok event ∧
    sealedListParser.ReadsBack sealedListSigner.publicKey sealedList event := by
  obtain ⟨event, hevent⟩ := Parser.signTemplate_of_signsAsGiven signer_sealedListParser signs_sealedList
  have hprepare := (prepare_sealedList 9).trans hevent
  have hlist : sealedList.IsList := by decide
  have htags : ∃ tags, tagArrays sealedList.content = .ok tags := ⟨[["e", "ab"]], by decide⟩
  have hkeeps : sealedList.KeepsContent sealedListParser :=
    ⟨by decide, by decide, fun h => absurd h (by decide), fun _ => ⟨by decide, .inl (by decide)⟩⟩
  have hnone : sealedList.replacedContent = none := by decide
  refine ⟨event, hprepare, ?_⟩
  rw [Parser.readsBack_iff signer_sealedListParser (CipherSuite.sound_ofOne sealed_sealedListText)
    (.inr ⟨hlist, .inr htags⟩) hprepare, hnone]
  exact ⟨fun hno => absurd hlist hno, hkeeps⟩

def quote : Template :=
  { kind := 7374, content := "q", tags := [["mint", "m"]], createdAt := 7 }

def quoteText : String :=
  "AgAAAAAAAAAAAAAAAAAAAAAAAAAAAAAAAAAAAAAAAAABlyKv6Luu8fXnz1MrcNKSwaHCVL9TNVXnQgo68mzRHb0KGv6xP0WFpUkA82HLH/9URftKF/B4GDFN0AOnB5CE0OTW"

def quoteSigner : PrivateKeySigner :=
  .ofOne
    ⟨[0x12, 0xfc, 0x55, 0xb3, 0xb4, 0xa6, 0xe8, 0x22, 0x6c, 0xf6, 0x30, 0xbf, 0x26, 0x7b, 0xc1, 0x25,
      0xe7, 0xed, 0x6a, 0xaf, 0xdb, 0x73, 0x6f, 0x5e, 0xf6, 0xda, 0xde, 0x39, 0xbf, 0xc2, 0x04, 0x87], rfl⟩
    [0xa5, 0x41, 0x9c, 0x77, 0xb2, 0x9a, 0xe0, 0xcd, 0x4c, 0xce, 0xd4, 0xbc, 0x63, 0x42, 0x8b, 0xaa,
     0xee, 0xd3, 0xf1, 0x44, 0x16, 0xfd, 0xf5, 0x96, 0xa8, 0x82, 0x36, 0xaf, 0x7e, 0xf0, 0xa9, 0xb8,
     0x27, 0xc9, 0x76, 0xdb, 0x0d, 0x6c, 0x99, 0xcf, 0xfc, 0xc4, 0xdc, 0x27, 0x87, 0xf3, 0x10, 0xb3,
     0x5d, 0xe6, 0x31, 0x33, 0x07, 0x07, 0xd9, 0xde, 0xb5, 0xc8, 0x36, 0xfb, 0x3f, 0x2e, 0xed, 0x01]

def quoteParser : Parser Unit := .ofSigner (quoteSigner.toDyn (.ofOne quote.content quoteText))

theorem signer_quoteParser :
    quoteParser.signer = some (quoteSigner.toDyn (.ofOne quote.content quoteText)) := rfl

set_option maxRecDepth 8000 in
theorem signs_quote :
    quoteSigner.SignsAsGiven { quote with content := quoteText, createdAt := 9 } := by
  have hstrings : ({ quote with content := quoteText, createdAt := 9 } : Template).strings.all
      (fun s => ¬ EndsIn "created_at" s ∧ ¬ EndsIn "sig" s) = true := by decide
  rw [quoteSigner]
  exact signs_ofOne _ (by decide) hstrings

theorem prepare_quote : quoteParser.prepare 9 quote =
    quoteParser.signTemplate { quote with content := quoteText, createdAt := 9 } :=
  Parser.prepare_kind7374_sealed rfl (by decide) (Parser.ownEncrypt_eq_ok signer_quoteParser
    (CipherSuite.nip44Encrypt_ofOne quote.content quoteText _ _)) 9

def openList : Template := { kind := 10003, content := "[[\"e\",\"ab\"]]", tags := [], createdAt := 7 }

def openListSigner : PrivateKeySigner :=
  .ofOne
    ⟨[0xd7, 0x11, 0x60, 0x95, 0x0d, 0x8d, 0xae, 0xb0, 0xff, 0x1a, 0xef, 0x0e, 0x72, 0x15, 0x0f, 0x1f,
      0x39, 0x93, 0xd8, 0x7b, 0x85, 0xf8, 0xa7, 0x41, 0xee, 0x15, 0x96, 0xf3, 0x33, 0x4b, 0x64, 0xce], rfl⟩
    [0x31, 0x8c, 0x46, 0x34, 0x63, 0x7e, 0x22, 0x5d, 0xd5, 0x32, 0xe2, 0x64, 0x8e, 0x4f, 0x28, 0xb1,
     0x33, 0xb3, 0xd5, 0xa9, 0x05, 0xf2, 0xfe, 0x13, 0xaa, 0x0e, 0xd4, 0x4a, 0x94, 0x27, 0xe0, 0x8c,
     0xc1, 0xb1, 0xa4, 0xb4, 0xdc, 0xc4, 0xdb, 0x26, 0xfa, 0x36, 0x3c, 0x75, 0xd3, 0xb2, 0xa2, 0x75,
     0xee, 0x32, 0xdb, 0x04, 0x1e, 0x92, 0xc0, 0x4b, 0x50, 0x10, 0xe9, 0x14, 0x85, 0x19, 0xd7, 0xc8]

def openListParser : Parser Unit := .ofSigner (openListSigner.toDyn (.ofOne quote.content quoteText))

theorem signer_openListParser :
    openListParser.signer = some (openListSigner.toDyn (.ofOne quote.content quoteText)) := rfl

theorem signs_openList : openListSigner.SignsAsGiven openList := by
  have hstrings : (openList : Template).strings.all
      (fun s => ¬ EndsIn "created_at" s ∧ ¬ EndsIn "sig" s) = true := by decide
  rw [openListSigner]
  exact signs_ofOne _ (by decide) hstrings

theorem prepare_openList (now : UInt64) :
    openListParser.prepare now openList = openListParser.signTemplate openList :=
  (Parser.prepare_list (by decide) now).trans
    (Parser.prepareNip51_open signer_openListParser (by decide) (by decide))

set_option maxRecDepth 8000 in
theorem sealed_quoteText : Sealed quoteText := by
  have hall : quoteText.toList.all isBase64Char = true := by decide
  exact ⟨by decide, List.all_eq_true.mp hall⟩

/-- **A prepared event that does not read back**: a quote gets the time of the clock
in place of its own, and of a list that is not encrypted the private tag is lost. -/
theorem quote_and_list_differ :
    (∃ event, quoteParser.prepare 9 quote = .ok event ∧
      ¬ quoteParser.ReadsBack quoteSigner.publicKey quote event) ∧
    ∃ event, openListParser.prepare 7 openList = .ok event ∧
      ¬ openListParser.ReadsBack openListSigner.publicKey openList event := by
  have hcipher : (CipherSuite.ofOne quote.content quoteText).Sound :=
    CipherSuite.sound_ofOne sealed_quoteText
  constructor
  · obtain ⟨event, hevent⟩ := Parser.signTemplate_of_signsAsGiven signer_quoteParser signs_quote
    refine ⟨event, prepare_quote.trans hevent, ?_⟩
    rintro ⟨-, -, htime, -⟩
    rw [(Parser.fields_of_signTemplate signer_quoteParser hevent).2.2.1] at htime
    exact absurd htime (by decide)
  · obtain ⟨event, hevent⟩ := Parser.signTemplate_of_signsAsGiven signer_openListParser signs_openList
    refine ⟨event, (prepare_openList 7).trans hevent, ?_⟩
    obtain ⟨hkind, htags, -, hauthor, hcontent⟩ :=
      Parser.fields_of_signTemplate signer_openListParser hevent
    have htagArrays : tagArrays openList.content = .ok [["e", "ab"]] := by decide
    have hsame : event.content = openList.content := hcontent.trans (by decide)
    rintro ⟨-, -, -, hread⟩
    have hsays := (Parser.parsedAs_iff (.inr ⟨by decide, .inr ⟨_, htagArrays⟩⟩) hkind htags
      hauthor).mp hread
    rw [hsame] at hsays
    obtain ⟨text, htext, data, hplain, hdata⟩ := hsays.same
    rw [Parser.textOf_plaintext signer_openListParser hcipher (by decide) (.inr ⟨_, htagArrays⟩),
      some.injEq] at htext
    rw [← htext, Parser.plainData_list _ _ (by decide)] at hdata
    rw [Parser.plainData_list _ _ (by decide), ListParsed.withPrivate, htagArrays, ← hdata] at hplain
    exact absurd (ParsedData.list.inj (Except.ok.inj hplain)) (by decide)

end Nipworker
