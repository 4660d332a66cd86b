/-
Templates and signed events as JSON text (`types/nostr.rs`).

`to_json` writes the fields in a fixed order; `from_json` reads what follows the
first place where the name of a field stands between quotes.  A string of the
tags, or the content, can be that place.
-/
import Nipworker.Types.EventWrite

namespace Nipworker

open JsonText List

/-! ### Templates -/

/-- An event before it is signed. -/
structure Template where
  kind : UInt16
  content : String
  tags : List (List String)
  createdAt : UInt64
  deriving DecidableEq

namespace Template

/-- The text of `Template::to_json`. -/
def jsonChars (t : Template) : List Char :=
  '{' :: (member "kind" (Nat.toDigits 10 t.kind.toNat) ++
    ',' :: (member "content" (quoted (escapeString t.content)) ++
    ',' :: (member "tags" (NostrTags.toJson t.tags) ++
    ',' :: (member "created_at" (Nat.toDigits 10 t.createdAt.toNat) ++ ['}']))))

def toJson (t : Template) : String := String.ofList t.jsonChars

/-- The fields, read with the readers of `Event::from_json`, and the check of the
kind. -/
def readFields (json : List Char) : Except TypesError Template := do
  let tail ← SignedEvent.afterKey "\"kind\"" json "Missing kind"
  let kind ← SignedEvent.numberAfter tail (2 ^ 32) "Invalid kind"
  let content ← SignedEvent.readContent json
  let tags ← SignedEvent.readTags json
  let tail ← SignedEvent.afterKey "\"created_at\"" json "Missing created_at"
  let createdAt ← SignedEvent.numberAfter tail (2 ^ 64) "Invalid created_at"
  if 0xFFFF < kind then .error (.invalidFormat "Kind out of range")
  else
    .ok { kind := UInt16.ofNat kind, content := content, tags := tags
          createdAt := UInt64.ofNat createdAt }

def fromJson (text : String) : Except TypesError Template := readFields text.toList

theorem fromJson_toJson (t : Template) : fromJson t.toJson = readFields t.jsonChars := by
  rw [fromJson, toJson, String.toList_ofList]

/-- The strings of a template: those of the tags and the content. -/
def strings (t : Template) : List String := t.content :: t.tags.flatten

variable (t : Template)

def head : List Char := '{' :: (member "kind" (Nat.toDigits 10 t.kind.toNat) ++ [','])

theorem written_head : Written t.head ["kind"] := by
  have hcomma : Written [','] [] := .gap (by simp)
  have hkind : Written (member "kind" (Nat.toDigits 10 t.kind.toNat ++ [','])) ["kind"] :=
    Written.key (by decide) (Written.number _ hcomma)
  have htext : t.head = ['{'] ++ member "kind" (Nat.toDigits 10 t.kind.toNat ++ [',']) := by
    simp [head, member]
  rw [htext]
  exact Written.brace.append hkind

def last : List Char :=
  ',' :: (member "created_at" (Nat.toDigits 10 t.createdAt.toNat) ++ ['}'])

theorem jsonChars_eq : t.jsonChars = t.head ++ (member "content" (quoted (escapeString t.content)) ++
    ',' :: (member "tags" (NostrTags.toJson t.tags) ++ t.last)) := by
  simp [jsonChars, head, last]

theorem read_kind : ∃ tail, Text.afterFirst "\"kind\"".toList t.jsonChars = some tail ∧
    SignedEvent.numberAfter tail (2 ^ 32) "Invalid kind" = .ok t.kind.toNat := by
  have hword : IsWord "kind".toList := by decide
  have htext : t.jsonChars = ['{'] ++ (member "kind" (Nat.toDigits 10 t.kind.toNat) ++
      ',' :: (member "content" (quoted (escapeString t.content)) ++
      ',' :: (member "tags" (NostrTags.toJson t.tags) ++ t.last))) := by
    simp [jsonChars, last]
  have hfound := Written.brace.afterFirst_member hword (by simp)
    (Nat.toDigits 10 t.kind.toNat) (',' :: (member "content" (quoted (escapeString t.content)) ++
      ',' :: (member "tags" (NostrTags.toJson t.tags) ++ t.last)))
  rw [← htext] at hfound
  have hkind : t.kind.toNat < 2 ^ 32 := t.kind.toNat_lt.trans (by decide)
  exact ⟨_, hfound, SignedEvent.numberAfter_digits hkind (by decide) _ _⟩

theorem read_content : SignedEvent.readContent t.jsonChars = .ok t.content := by
  have hword : IsWord "content".toList := by decide
  have hfound := t.written_head.afterFirst_member hword (by decide)
    (quoted (escapeString t.content)) (',' :: (member "tags" (NostrTags.toJson t.tags) ++ t.last))
  have htail : ':' :: (quoted (escapeString t.content) ++
      ',' :: (member "tags" (NostrTags.toJson t.tags) ++ t.last)) =
      [':'] ++ '"' :: (literalText (written t.content) ++ '"' ::
        (',' :: (member "tags" (NostrTags.toJson t.tags) ++ t.last))) := by
    simp [quoted, literalText_written]
  rw [← jsonChars_eq, htail] at hfound
  rw [SignedEvent.readContent_eq (closed_written _) (by simp) hfound, contentRead_written]

theorem afterFirst_content {word : String} (hword : IsWord word.toList)
    (hno : ∀ s ∈ ["kind", "content"], ¬ EndsIn word s) :
    Text.afterFirst (quoted word.toList) t.jsonChars =
      if EndsIn word t.content then
        some (',' :: (member "tags" (NostrTags.toJson t.tags) ++ t.last))
      else Text.afterFirst (quoted word.toList)
        (',' :: (member "tags" (NostrTags.toJson t.tags) ++ t.last)) := by
  have hnil : Written [] [] := .gap (by simp)
  have hkey : Written (member "content" []) ["content"] := Written.key (by decide) hnil
  have htext : t.jsonChars = (t.head ++ member "content" []) ++ (quoted (escapeString t.content) ++
      ',' :: (member "tags" (NostrTags.toJson t.tags) ++ t.last)) := by
    rw [jsonChars_eq]
    simp [member]
  rw [htext, (t.written_head.append hkey).pass hword hno,
    Written.afterFirst_string hword _ (by decide)]

/-- The tags are read back; when the content ends in `tags` the search stops
there, and the next bracket is still theirs. -/
theorem read_tags : SignedEvent.readTags t.jsonChars = .ok t.tags := by
  have hword : IsWord "tags".toList := by decide
  have hfound := t.afterFirst_content hword (by decide)
  by_cases hends : EndsIn "tags" t.content
  · rw [if_pos hends] at hfound
    have htail : ',' :: (member "tags" (NostrTags.toJson t.tags) ++ t.last) =
        (',' :: member "tags" []) ++ (NostrTags.toJson t.tags ++ t.last) := by
      simp [member]
    rw [htail] at hfound
    exact NostrTags.readTags_toJson (by decide) hfound
  · have hcomma : Written [','] [] := .gap (by simp)
    have hkey := hcomma.afterFirst_member hword (by simp) (NostrTags.toJson t.tags) t.last
    rw [if_neg hends, show ',' :: (member "tags" (NostrTags.toJson t.tags) ++ t.last) =
      [','] ++ (member "tags" (NostrTags.toJson t.tags) ++ t.last) from rfl, hkey] at hfound
    have hgap : '[' ∉ [':'] := by decide
    exact NostrTags.readTags_toJson hgap hfound

theorem afterFirst_tags {word : String} (hword : IsWord word.toList)
    (hno : ¬ EndsIn word "tags") :
    Text.afterFirst (quoted word.toList)
        (',' :: (member "tags" (NostrTags.toJson t.tags) ++ t.last)) =
      Text.afterFirst (quoted word.toList) (NostrTags.toJson t.tags ++ t.last) := by
  have hcomma : Written [','] [] := .gap (by simp)
  have hnil : Written [] [] := .gap (by simp)
  have hkey : Written ([','] ++ member "tags" []) (["tags"]) :=
    hcomma.append (Written.key (by decide) hnil)
  have htext : ',' :: (member "tags" (NostrTags.toJson t.tags) ++ t.last) =
      ([','] ++ member "tags" []) ++ (NostrTags.toJson t.tags ++ t.last) := by
    simp [member]
  rw [htext, hkey.pass hword (by simpa using hno)]

theorem read_createdAt (h : ∀ s ∈ t.strings, ¬ EndsIn "created_at" s) :
    ∃ tail, Text.afterFirst "\"created_at\"".toList t.jsonChars = some tail ∧
      SignedEvent.numberAfter tail (2 ^ 64) "Invalid created_at" = .ok t.createdAt.toNat := by
  have hword : IsWord "created_at".toList := by decide
  obtain ⟨hcontent, htags⟩ := List.forall_mem_cons.mp h
  have hcomma : Written [','] [] := .gap (by simp)
  have hpre : Written (NostrTags.toJson t.tags ++ [',']) (t.tags.flatten ++ []) :=
    (Written.tags t.tags).append hcomma
  rw [append_nil] at hpre
  have hfound := hpre.afterFirst_member hword htags (Nat.toDigits 10 t.createdAt.toNat) ['}']
  have htext : NostrTags.toJson t.tags ++ t.last = (NostrTags.toJson t.tags ++ [',']) ++
      (member "created_at" (Nat.toDigits 10 t.createdAt.toNat) ++ ['}']) := by
    simp [last]
  rw [← htext, ← t.afterFirst_tags hword (by decide)] at hfound
  have hjson := t.afterFirst_content hword (by decide)
  rw [if_neg hcontent, hfound] at hjson
  exact ⟨_, hjson, SignedEvent.numberAfter_digits t.createdAt.toNat_lt (by decide) _ _⟩

theorem read_createdAt_error (h : ∃ s ∈ t.strings, EndsIn "created_at" s) :
    ∃ tail, Text.afterFirst "\"created_at\"".toList t.jsonChars = some tail ∧
      SignedEvent.numberAfter tail (2 ^ 64) "Invalid created_at" =
        .error (.invalidFormat "Invalid created_at") := by
  have hword : IsWord "created_at".toList := by decide
  have hjson := t.afterFirst_content hword (by decide)
  by_cases hcontent : EndsIn "created_at" t.content
  · rw [if_pos hcontent] at hjson
    exact ⟨_, hjson, SignedEvent.numberAfter_stop (.inl rfl) _ _ _⟩
  · -- then it is one of the tags, and the first such decides
    have hex : ∃ s ∈ t.tags.flatten, EndsIn "created_at" s := by
      obtain ⟨s, hs, hends⟩ := h
      obtain rfl | hs := List.mem_cons.mp hs
      · exact absurd hends hcontent
      · exact ⟨s, hs, hends⟩
    obtain ⟨before, s, after, hflat, hbefore, hends⟩ := first_endsIn hex
    have hlits : t.tags.flatten.map written =
        before.map written ++ written s :: after.map written := by
      rw [hflat]
      simp
    have hno : ∀ lit ∈ before.map written, ¬ Spells "created_at".toList lit := by
      intro lit hlit
      obtain ⟨r, hr, rfl⟩ := List.mem_map.mp hlit
      rw [spells_written_iff hword]
      exact hbefore r hr
    obtain ⟨c, more, hc, -, hfound⟩ := (NostrTags.tokenized_toJson t.tags).afterFirst_found hword
      (fun _ hc => hc.isWordChar) hlits hno ((spells_written_iff hword s).mpr hends) t.last
    rw [if_neg hcontent, t.afterFirst_tags hword (by decide), hfound] at hjson
    exact ⟨_, hjson, SignedEvent.numberAfter_stop hc _ _ _⟩

theorem readFields_eq {json tk tca : List Char} {kind : ℕ} {content : String}
    {tags : List (List String)} (hk : Text.afterFirst "\"kind\"".toList json = some tk)
    (hkind : SignedEvent.numberAfter tk (2 ^ 32) "Invalid kind" = .ok kind)
    (hcontent : SignedEvent.readContent json = .ok content)
    (htags : SignedEvent.readTags json = .ok tags)
    (hca : Text.afterFirst "\"created_at\"".toList json = some tca) :
    readFields json = (SignedEvent.numberAfter tca (2 ^ 64) "Invalid created_at" >>= fun createdAt =>
      if 0xFFFF < kind then .error (.invalidFormat "Kind out of range")
      else .ok ⟨UInt16.ofNat kind, content, tags, UInt64.ofNat createdAt⟩) := by
  rw [readFields, SignedEvent.afterKey_of_first _ hk, SignedEvent.afterKey_of_first _ hca]
  simp only [bind, Except.bind]
  rw [hkind]
  dsimp only
  rw [hcontent]
  dsimp only
  rw [htags]

/-- **A template is read back** as it was when no string ends in `created_at`. -/
theorem readFields_jsonChars (h : ∀ s ∈ t.strings, ¬ EndsIn "created_at" s) :
    readFields t.jsonChars = .ok t := by
  obtain ⟨tk, hk, hkind⟩ := t.read_kind
  obtain ⟨tca, hca, hcreatedAt⟩ := t.read_createdAt h
  have hsmall : ¬ 0xFFFF < t.kind.toNat := by
    have := t.kind.toNat_lt
    omega
  rw [readFields_eq hk hkind t.read_content t.read_tags hca, hcreatedAt]
  show (if 0xFFFF < t.kind.toNat then _ else _) = _
  rw [if_neg hsmall, UInt16.ofNat_toNat, UInt64.ofNat_toNat]

theorem readFields_jsonChars_error (h : ∃ s ∈ t.strings, EndsIn "created_at" s) :
    readFields t.jsonChars = .error (.invalidFormat "Invalid created_at") := by
  obtain ⟨tk, hk, hkind⟩ := t.read_kind
  obtain ⟨tca, hca, hcreatedAt⟩ := t.read_createdAt_error h
  rw [readFields_eq hk hkind t.read_content t.read_tags hca, hcreatedAt]
  rfl

end Template

/-! ### Signed events -/

namespace SignedEvent

/-- The text of `Event::to_json`. -/
def jsonChars (e : SignedEvent) : List Char :=
  '{' :: (member "id" (quoted e.id.toHex.toList) ++
    ',' :: (member "pubkey" (quoted e.pubkey.toHex.toList) ++
    ',' :: (member "created_at" (Nat.toDigits 10 e.createdAt) ++
    ',' :: (member "kind" (Nat.toDigits 10 e.kind.toNat) ++
    ',' :: (member "tags" (NostrTags.toJson e.tags) ++
    ',' :: (member "content" (quoted (escapeString e.content)) ++
    ',' :: (member "sig" (quoted e.sig.toList) ++ ['}'])))))))

def toJson (e : SignedEvent) : String := String.ofList e.jsonChars

theorem fromJson_toJson (e : SignedEvent) : fromJson e.toJson = readFields e.jsonChars :=
  fromJson_ofList _

def strings (e : SignedEvent) : List String :=
  e.tags.flatten ++ ["content", e.content, "sig", e.sig]

variable (e : SignedEvent)

theorem hexText_id : HexText e.id.toHex := hexText_encode _

theorem hexText_pubkey : HexText e.pubkey.toHex := hexText_encode _

/-- The text up to `pubkey`, and its strings. -/
def headId : List Char := ['{'] ++ (member "id" (quoted (escapeString e.id.toHex)) ++ [','])

def headPubkey : List Char :=
  e.headId ++ (member "pubkey" (quoted (escapeString e.pubkey.toHex)) ++ [','])

def headCreatedAt : List Char :=
  e.headPubkey ++ (member "created_at" (Nat.toDigits 10 e.createdAt) ++ [','])

def headKind : List Char :=
  e.headCreatedAt ++ (member "kind" (Nat.toDigits 10 e.kind.toNat) ++ [','])

def last : List Char :=
  ',' :: (member "content" (quoted (escapeString e.content)) ++
    ',' :: (member "sig" (quoted (escapeString e.sig)) ++ ['}']))

theorem written_headId : Written e.headId ["id", e.id.toHex] :=
  Written.brace.stringMember (by decide) _

theorem written_headPubkey :
    Written e.headPubkey ["id", e.id.toHex, "pubkey", e.pubkey.toHex] :=
  e.written_headId.stringMember (by decide) _

theorem written_headCreatedAt :
    Written e.headCreatedAt ["id", e.id.toHex, "pubkey", e.pubkey.toHex, "created_at"] :=
  e.written_headPubkey.numberMember (by decide) _

theorem written_headKind :
    Written e.headKind ["id", e.id.toHex, "pubkey", e.pubkey.toHex, "created_at", "kind"] :=
  e.written_headCreatedAt.numberMember (by decide) _

theorem written_last : Written e.last ["content", e.content, "sig", e.sig] := by
  have hbrace : Written ['}'] [] := .gap (by simp)
  have hsig : Written (member "sig" (quoted (escapeString e.sig) ++ ['}'])) ["sig", e.sig] :=
    Written.key (by decide) (Written.string (by decide) hbrace)
  have hcomma : Written [','] [] := .gap (by simp)
  have hcontent : Written (member "content" (quoted (escapeString e.content) ++
      ',' :: member "sig" (quoted (escapeString e.sig) ++ ['}'])))
      ["content", e.content, "sig", e.sig] :=
    Written.key (by decide) (Written.string (by decide) (hcomma.append hsig))
  have htext : e.last = [','] ++ member "content" (quoted (escapeString e.content) ++
      ',' :: member "sig" (quoted (escapeString e.sig) ++ ['}'])) := by
    simp [last, member]
  rw [htext]
  exact hcomma.append hcontent

theorem jsonChars_eq (hsig : HexText e.sig) :
    e.jsonChars = e.headKind ++ (member "tags" (NostrTags.toJson e.tags) ++ e.last) := by
  simp [jsonChars, headKind, headCreatedAt, headPubkey, headId, last, hsig.escapeString,
    e.hexText_id.escapeString, e.hexText_pubkey.escapeString]

theorem written_jsonChars (hsig : HexText e.sig) : Written e.jsonChars
    (["id", e.id.toHex, "pubkey", e.pubkey.toHex, "created_at", "kind", "tags"] ++ e.strings) := by
  have htags : Written (member "tags" (NostrTags.toJson e.tags ++ e.last)) ("tags" :: e.strings) :=
    Written.key (by decide) ((Written.tags e.tags).append e.written_last)
  have htext : member "tags" (NostrTags.toJson e.tags) ++ e.last =
      member "tags" (NostrTags.toJson e.tags ++ e.last) := by
    simp [member]
  rw [e.jsonChars_eq hsig, htext]
  exact e.written_headKind.append htags

theorem quotedAfter_written_iff {gap : List Char} (hgap : '"' ∉ gap) (x : String)
    (following : List Char) {digits : String} (hdigits : HexText digits) (invalid missing : String) :
    quotedAfter (gap ++ '"' :: (literalText (written x) ++ '"' :: following)) invalid missing =
      .ok digits ↔ x = digits := by
  obtain ⟨raw, hread, hraw⟩ := quotedAfter_literal hgap (closed_written x) following invalid missing
  constructor
  · intro h
    rw [hread, Except.ok.injEq] at h
    -- there is no backslash in the digits, so nothing was cut and nothing escaped
    have hback : '\\' ∉ raw := by
      intro hmem
      rw [← String.toList_ofList (l := raw), h] at hmem
      exact hdigits.ne hmem (by decide) rfl
    obtain rfl | ⟨a, b, rfl, -, -⟩ := hraw
    · have hplain : Plain (written x) := by
        by_contra hno
        exact hback (backslash_mem_of_not_plain hno)
      rw [← h, literalText_of_plain hplain, literalValue_written, String.ofList_toList]
    · exact absurd (mem_append_right a mem_cons_self) hback
  · rintro rfl
    have hplain : Plain (written x) := by
      rw [← literalText_eq_value_iff, literalText_written, literalValue_written,
        hdigits.escapeString]
    have := (quotedAfter_iff hgap (closed_written x) following invalid missing).mpr hplain
    rwa [literalValue_written, String.ofList_toList] at this

theorem hexAfter_toHex (id : Bytes32) (rest : List Char) (invalid missing message : String) :
    (quotedAfter (':' :: (quoted (escapeString id.toHex) ++ rest)) invalid missing >>=
      Bytes32.fromHex message) = .ok id := by
  have htail : ':' :: (quoted (escapeString id.toHex) ++ rest) =
      [':'] ++ '"' :: (literalText (written id.toHex) ++ '"' :: rest) := by
    simp [quoted, literalText_written]
  have hgap : '"' ∉ [':'] := by decide
  have hread := (quotedAfter_written_iff hgap id.toHex rest (hexText_encode id.bytes) invalid
    missing).mpr rfl
  rw [htail, hread]
  exact fromHex_eq_ok_iff.mpr (Hex.decode_encode id.bytes)

section Reads

variable (hsig : HexText e.sig)

include hsig

theorem read_id :
    ∃ tail, Text.afterFirst "\"id\"".toList e.jsonChars = some tail ∧
      (quotedAfter tail "Invalid id format" "Missing id value" >>=
        Bytes32.fromHex "Invalid event ID") = .ok e.id := by
  have hword : IsWord "id".toList := by decide
  have hfound := Written.brace.afterFirst_member hword (by simp) (quoted (escapeString e.id.toHex))
    (',' :: (member "pubkey" (quoted (escapeString e.pubkey.toHex)) ++
      ',' :: (member "created_at" (Nat.toDigits 10 e.createdAt) ++
      ',' :: (member "kind" (Nat.toDigits 10 e.kind.toNat) ++
      ',' :: (member "tags" (NostrTags.toJson e.tags) ++ e.last)))))
  have htext : e.jsonChars = ['{'] ++ (member "id" (quoted (escapeString e.id.toHex)) ++
      ',' :: (member "pubkey" (quoted (escapeString e.pubkey.toHex)) ++
      ',' :: (member "created_at" (Nat.toDigits 10 e.createdAt) ++
      ',' :: (member "kind" (Nat.toDigits 10 e.kind.toNat) ++
      ',' :: (member "tags" (NostrTags.toJson e.tags) ++ e.last))))) := by
    rw [e.jsonChars_eq hsig]
    simp [headKind, headCreatedAt, headPubkey, headId]
  rw [← htext] at hfound
  exact ⟨_, hfound, hexAfter_toHex _ _ _ _ _⟩

theorem read_pubkey :
    ∃ tail, Text.afterFirst "\"pubkey\"".toList e.jsonChars = some tail ∧
      (quotedAfter tail "Invalid pubkey format" "Missing pubkey value" >>=
        Bytes32.fromHex "Invalid pubkey") = .ok e.pubkey := by
  have hword : IsWord "pubkey".toList := by decide
  have hno : ∀ s ∈ ["id", e.id.toHex], ¬ EndsIn "pubkey" s := by
    simp only [forall_mem_cons]
    exact ⟨by decide, e.hexText_id.not_endsIn (by decide), by simp⟩
  have hfound := e.written_headId.afterFirst_member hword hno
    (quoted (escapeString e.pubkey.toHex))
    (',' :: (member "created_at" (Nat.toDigits 10 e.createdAt) ++
      ',' :: (member "kind" (Nat.toDigits 10 e.kind.toNat) ++
      ',' :: (member "tags" (NostrTags.toJson e.tags) ++ e.last))))
  have htext : e.jsonChars = e.headId ++ (member "pubkey" (quoted (escapeString e.pubkey.toHex)) ++
      ',' :: (member "created_at" (Nat.toDigits 10 e.createdAt) ++
      ',' :: (member "kind" (Nat.toDigits 10 e.kind.toNat) ++
      ',' :: (member "tags" (NostrTags.toJson e.tags) ++ e.last)))) := by
    rw [e.jsonChars_eq hsig]
    simp [headKind, headCreatedAt, headPubkey]
  rw [← htext] at hfound
  exact ⟨_, hfound, hexAfter_toHex _ _ _ _ _⟩

theorem read_createdAt (hlt : e.createdAt < 2 ^ 64) :
    ∃ tail, Text.afterFirst "\"created_at\"".toList e.jsonChars = some tail ∧
      numberAfter tail (2 ^ 64) "Invalid created_at" = .ok e.createdAt := by
  have hword : IsWord "created_at".toList := by decide
  have hno : ∀ s ∈ ["id", e.id.toHex, "pubkey", e.pubkey.toHex], ¬ EndsIn "created_at" s := by
    simp only [forall_mem_cons]
    exact ⟨by decide, e.hexText_id.not_endsIn (by decide), by decide,
      e.hexText_pubkey.not_endsIn (by decide), by simp⟩
  have hfound := e.written_headPubkey.afterFirst_member hword hno (Nat.toDigits 10 e.createdAt)
    (',' :: (member "kind" (Nat.toDigits 10 e.kind.toNat) ++
      ',' :: (member "tags" (NostrTags.toJson e.tags) ++ e.last)))
  have htext : e.jsonChars = e.headPubkey ++
      (member "created_at" (Nat.toDigits 10 e.createdAt) ++
      ',' :: (member "kind" (Nat.toDigits 10 e.kind.toNat) ++
      ',' :: (member "tags" (NostrTags.toJson e.tags) ++ e.last))) := by
    rw [e.jsonChars_eq hsig]
    simp [headKind, headCreatedAt]
  rw [← htext] at hfound
  exact ⟨_, hfound, numberAfter_digits hlt (by decide) _ _⟩

theorem read_kind :
    ∃ tail, Text.afterFirst "\"kind\"".toList e.jsonChars = some tail ∧
      numberAfter tail (2 ^ 32) "Invalid kind" = .ok e.kind.toNat := by
  have hword : IsWord "kind".toList := by decide
  have hno : ∀ s ∈ ["id", e.id.toHex, "pubkey", e.pubkey.toHex, "created_at"],
      ¬ EndsIn "kind" s := by
    simp only [forall_mem_cons]
    exact ⟨by decide, e.hexText_id.not_endsIn (by decide), by decide,
      e.hexText_pubkey.not_endsIn (by decide), by decide, by simp⟩
  have hfound := e.written_headCreatedAt.afterFirst_member hword hno
    (Nat.toDigits 10 e.kind.toNat) (',' :: (member "tags" (NostrTags.toJson e.tags) ++ e.last))
  have htext : e.jsonChars = e.headCreatedAt ++ (member "kind" (Nat.toDigits 10 e.kind.toNat) ++
      ',' :: (member "tags" (NostrTags.toJson e.tags) ++ e.last)) := by
    rw [e.jsonChars_eq hsig]
    simp [headKind]
  have hlt : e.kind.toNat < 2 ^ 32 := e.kind.toNat_lt.trans (by decide)
  rw [← htext] at hfound
  exact ⟨_, hfound, numberAfter_digits hlt (by decide) _ _⟩

theorem read_tags : readTags e.jsonChars = .ok e.tags := by
  have hword : IsWord "tags".toList := by decide
  have hno : ∀ s ∈ ["id", e.id.toHex, "pubkey", e.pubkey.toHex, "created_at", "kind"],
      ¬ EndsIn "tags" s := by
    simp only [forall_mem_cons]
    exact ⟨by decide, e.hexText_id.not_endsIn (by decide), by decide,
      e.hexText_pubkey.not_endsIn (by decide), by decide, by decide, by simp⟩
  have hfound := e.written_headKind.afterFirst_member hword hno (NostrTags.toJson e.tags) e.last
  rw [← e.jsonChars_eq hsig] at hfound
  have hgap : '[' ∉ [':'] := by decide
  exact NostrTags.readTags_toJson hgap hfound

theorem afterFirst_strings {word x : String} (hword : IsWord word.toList)
    (hletter : (word.toList.any fun c => (Hex.digitValue c).isNone) = true)
    (hnames : ∀ s ∈ ["id", "pubkey", "created_at", "kind", "tags"], ¬ EndsIn word s)
    (hx : following word e.strings = some x) :
    ∃ gap more, '"' ∉ gap ∧ Text.afterFirst (quoted word.toList) e.jsonChars =
      some (gap ++ '"' :: (literalText (written x) ++ '"' :: more)) := by
  have hno : ∀ s ∈ ["id", e.id.toHex, "pubkey", e.pubkey.toHex, "created_at", "kind", "tags"],
      ¬ EndsIn word s := by
    simp only [forall_mem_cons] at hnames ⊢
    obtain ⟨h1, h2, h3, h4, h5, hnil⟩ := hnames
    exact ⟨h1, e.hexText_id.not_endsIn hletter, h2, e.hexText_pubkey.not_endsIn hletter, h3, h4, h5,
      hnil⟩
  rw [← following_append hno] at hx
  obtain ⟨gap, more, hgap, hfound⟩ := (e.written_jsonChars hsig).afterFirst_following hword hx []
  rw [append_nil] at hfound
  exact ⟨gap, more, hgap, hfound⟩

/-- **The content that is read** is the string behind the first one that ends in
`content`. -/
theorem read_content :
    ∃ x, following "content" e.strings = some x ∧ readContent e.jsonChars = .ok x := by
  obtain ⟨x, hx⟩ := following_isSome "content" e.tags.flatten e.content ["sig", e.sig]
  obtain ⟨gap, more, hgap, hfound⟩ :=
    e.afterFirst_strings hsig (by decide) (by decide) (by decide) hx
  exact ⟨x, hx, by rw [readContent_eq (closed_written x) hgap hfound, contentRead_written]⟩

/-- **The signature that is read** is the event's own when it stands behind the
first string that ends in `sig`. -/
theorem read_sig :
    ∃ tail, Text.afterFirst "\"sig\"".toList e.jsonChars = some tail ∧
      (quotedAfter tail "Invalid sig format" "Missing sig value" = .ok e.sig ↔
        following "sig" e.strings = some e.sig) := by
  have hstrings : e.strings = (e.tags.flatten ++ ["content", e.content]) ++ "sig" :: e.sig :: [] := by
    simp [strings]
  obtain ⟨x, hx⟩ := following_isSome "sig" (e.tags.flatten ++ ["content", e.content]) e.sig []
  rw [← hstrings] at hx
  obtain ⟨gap, more, hgap, hfound⟩ :=
    e.afterFirst_strings hsig (by decide) (by decide) (by decide) hx
  refine ⟨_, hfound, ?_⟩
  rw [quotedAfter_written_iff hgap x more hsig, hx, Option.some.injEq]

/-- **An event read back.**  The id, the author, the time, the kind and the tags
are always the event's; the content and the signature are what stands behind the
first strings that end in their names. -/
theorem readFields_jsonChars_iff (hlt : e.createdAt < 2 ^ 64)
    (content : String) :
    readFields e.jsonChars = .ok { e with content := content } ↔
      following "content" e.strings = some content ∧ following "sig" e.strings = some e.sig := by
  obtain ⟨tid, hid, hidRead⟩ := e.read_id hsig
  obtain ⟨tpk, hpk, hpkRead⟩ := e.read_pubkey hsig
  obtain ⟨tca, hca, hcaRead⟩ := e.read_createdAt hsig hlt
  obtain ⟨tk, hk, hkRead⟩ := e.read_kind hsig
  obtain ⟨x, hx, hcontent⟩ := e.read_content hsig
  obtain ⟨tsig, hts, hsigRead⟩ := e.read_sig hsig
  rw [readFields_iff hid hpk hca hk (e.read_tags hsig) hcontent hts, hidRead, hpkRead, hcaRead,
    hkRead, hsigRead, hx, Option.some.injEq]
  simp

/-- Whatever is read, these fields are the event's, and the content stands behind
the first string that ends in its name. -/
theorem readFields_jsonChars_fields (hlt : e.createdAt < 2 ^ 64)
    {read : SignedEvent} (h : readFields e.jsonChars = .ok read) :
    read = { e with content := read.content, sig := read.sig } ∧
      following "content" e.strings = some read.content := by
  obtain ⟨tid, hid, hidRead⟩ := e.read_id hsig
  obtain ⟨tpk, hpk, hpkRead⟩ := e.read_pubkey hsig
  obtain ⟨tca, hca, hcaRead⟩ := e.read_createdAt hsig hlt
  obtain ⟨tk, hk, hkRead⟩ := e.read_kind hsig
  obtain ⟨x, hx, hcontent⟩ := e.read_content hsig
  obtain ⟨tsig, hts, -⟩ := e.read_sig hsig
  rw [readFields_iff hid hpk hca hk (e.read_tags hsig) hcontent hts, hidRead, hpkRead, hcaRead,
    hkRead] at h
  simp only [Except.ok.injEq] at h
  obtain ⟨h1, h2, h3, h4, h5, h6, -⟩ := h
  have hkind : read.kind = e.kind := UInt16.toNat_inj.mp h4.symm
  refine ⟨?_, by rw [hx, h6]⟩
  rw [h1, h2, h3, ← hkind, h5]

end Reads

end SignedEvent

end Nipworker
