/-
`Event::from_json` against JSON (`types/nostr.rs`).

An `EventText` is the text of a JSON object with the seven fields of an event, in
any order, with any whitespace, any escapes and any further members, together
with the event it denotes.
-/
import Nipworker.Types.TagReads

namespace Nipworker

open JsonText List

/-- The text of an event, with its blanks. -/
structure EventText where
  before : List Char
  blank : List Char
  members : Members
  after : List Char
  event : SignedEvent
  idLit : List Piece
  pubkeyLit : List Piece
  createdAtLit : NumberLit
  kindLit : NumberLit
  tagsDoc : Doc
  tagLits : List (List (List Piece))
  contentLit : List Piece
  sigLit : List Piece
  blank_before : Blank before
  blank_after : Blank after
  wf : (Doc.obj blank members).Wf
  id_member : members.valuesOf "id".toList = [.str idLit]
  id_hex : Hex.decodeChars (literalValue idLit) = some event.id.bytes
  pubkey_member : members.valuesOf "pubkey".toList = [.str pubkeyLit]
  pubkey_hex : Hex.decodeChars (literalValue pubkeyLit) = some event.pubkey.bytes
  createdAt_member : members.valuesOf "created_at".toList = [.atom createdAtLit.text]
  createdAt_wf : createdAtLit.Wf
  createdAt_value : createdAtLit.value = event.createdAt
  createdAt_u64 : event.createdAt < 2 ^ 64
  kind_member : members.valuesOf "kind".toList = [.atom kindLit.text]
  kind_wf : kindLit.Wf
  kind_value : kindLit.value = event.kind.toNat
  tags_member : members.valuesOf "tags".toList = [tagsDoc]
  tags_strings : IsTags tagsDoc tagLits
  tags_value : event.tags = tagLits.map fun lits => lits.map fun lit =>
    String.ofList (literalValue lit)
  content_member : members.valuesOf "content".toList = [.str contentLit]
  content_value : event.content = String.ofList (literalValue contentLit)
  sig_member : members.valuesOf "sig".toList = [.str sigLit]
  sig_value : event.sig = String.ofList (literalValue sigLit)

namespace EventText

def closing (t : EventText) : List Char := '}' :: t.after

def chars (t : EventText) : List Char :=
  t.before ++ '{' :: (t.blank ++ (t.members.text ++ t.closing))

def text (t : EventText) : String := String.ofList t.chars

def fieldNames : List String := ["id", "pubkey", "created_at", "kind", "tags", "content", "sig"]

/-- No string before the key of a field, at any depth, is its name or ends in an
escaped quote and its name, and the key is written without escapes. -/
def KeysFirst (t : EventText) : Prop :=
  ∀ name ∈ fieldNames, t.members.OwnFirst name.toList

/-- Nothing but spaces and tabs stands between the key and the number, which has
no sign and as many before the point as it denotes. -/
def PlainNumber (t : EventText) (name : String) (n : NumberLit) (v : ℕ) : Prop :=
  (∀ e ∈ t.members.entry name.toList t.closing,
    ∀ c ∈ e.afterKey ++ e.beforeValue, c = ' ' ∨ c = '\t') ∧ n.minus = false ∧ n.intValue = v

/-- The values are written in a way the readers know. -/
structure Readable (t : EventText) : Prop where
  id : Plain t.idLit
  pubkey : Plain t.pubkeyLit
  createdAt : t.PlainNumber "created_at" t.createdAtLit t.event.createdAt
  kind : t.PlainNumber "kind" t.kindLit t.event.kind.toNat
  tags : ∀ lits ∈ t.tagLits, ∀ lit ∈ lits, ∀ p ∈ lit, BaseJsonParser.KnownInTag p
  content : ∀ p ∈ t.contentLit, SignedEvent.KnownInContent p
  sig : Plain t.sigLit

end EventText

/-! ### Field by field -/

namespace EventText

variable (t : EventText)

theorem follows_closing : EndsWord t.closing := EndsWord.cons (by decide) _

variable {name : String}

theorem afterFirst_field (hkeys : t.KeysFirst) (hname : name ∈ fieldNames)
    {d : Doc} (hmember : t.members.valuesOf name.toList = [d]) :
    ∃ e : Entry, t.members.entry name.toList t.closing = some e ∧ e.value = d ∧
      Blank e.afterKey ∧ Blank e.beforeValue ∧ d.Wf ∧ EndsWord e.following ∧
      Text.afterFirst (quoted name.toList) t.chars = some e.tail := by
  obtain ⟨e, hentry, hvalue, hafter, hbefore, hwf, hfollowing⟩ :=
    Members.entry_of_valuesOf t.closing t.wf.2 t.follows_closing hmember
  have hword : IsWord name.toList := by
    simp only [fieldNames, mem_cons, not_mem_nil, or_false] at hname
    obtain rfl | rfl | rfl | rfl | rfl | rfl | rfl := hname
    all_goals decide
  refine ⟨e, hentry, hvalue, hafter, hbefore, hwf, hfollowing, ?_⟩
  rw [chars, afterFirst_blank t.blank_before, afterFirst_skip (by decide),
    afterFirst_blank t.wf.1]
  exact Members.afterFirst_own hword t.wf.2 (hkeys name hname) t.follows_closing hentry

theorem gap_of_blank {afterKey beforeValue : List Char} (hafter : Blank afterKey)
    (hbefore : Blank beforeValue) :
    '"' ∉ afterKey ++ ':' :: beforeValue ∧ '[' ∉ afterKey ++ ':' :: beforeValue := by
  have hws : ∀ c ∈ afterKey ++ ':' :: beforeValue, isWs c = true ∨ c = ':' := by
    intro c hc
    obtain hc | hc := List.mem_append.mp hc
    · exact .inl (hafter c hc)
    · obtain rfl | hc := List.mem_cons.mp hc
      · exact .inr rfl
      · exact .inl (hbefore c hc)
  refine ⟨fun h => absurd (hws _ h) (by decide), fun h => absurd (hws _ h) (by decide)⟩

theorem string_field (hkeys : t.KeysFirst) (hname : name ∈ fieldNames)
    {lit : List Piece} (hmember : t.members.valuesOf name.toList = [.str lit]) :
    ∃ gap following : List Char, '"' ∉ gap ∧ (∀ p ∈ lit, p.Closed) ∧
      Text.afterFirst (quoted name.toList) t.chars =
        some (gap ++ '"' :: (literalText lit ++ '"' :: following)) := by
  obtain ⟨e, -, hvalue, hafter, hbefore, hwf, -, hfirst⟩ := t.afterFirst_field hkeys hname hmember
  refine ⟨e.afterKey ++ ':' :: e.beforeValue, e.following, (gap_of_blank hafter hbefore).1,
    fun p hp => (hwf p hp).closed, ?_⟩
  rw [hfirst, Entry.tail, hvalue]
  simp [Doc.text]

theorem number_field (hkeys : t.KeysFirst) (hname : name ∈ fieldNames)
    {n : NumberLit} (hn : n.Wf) (hmember : t.members.valuesOf name.toList = [.atom n.text])
    {v bound : ℕ} (hv : v < bound) (invalid : String) :
    ∃ tail, Text.afterFirst (quoted name.toList) t.chars = some tail ∧
      (SignedEvent.numberAfter tail bound invalid = .ok v ↔ t.PlainNumber name n v) := by
  obtain ⟨e, hentry, hvalue, hafter, hbefore, -, hfollowing, hfirst⟩ :=
    t.afterFirst_field hkeys hname hmember
  refine ⟨e.tail, hfirst, ?_⟩
  have hblanks : (∀ e' ∈ t.members.entry name.toList t.closing,
      ∀ c ∈ e'.afterKey ++ e'.beforeValue, c = ' ' ∨ c = '\t') ↔
        ∀ c ∈ e.afterKey ++ e.beforeValue, c = ' ' ∨ c = '\t' := by
    rw [hentry]
    exact ⟨fun h => h e rfl, fun h e' he' => Option.some.inj he' ▸ h⟩
  rw [PlainNumber, hblanks, Entry.tail, hvalue]
  exact SignedEvent.numberAfter_iff hafter hbefore hn hfollowing hv invalid

theorem tags_read_iff :
    t.tagLits.map NostrTags.readStrings = t.event.tags ↔
      ∀ lits ∈ t.tagLits, ∀ lit ∈ lits, ∀ p ∈ lit, BaseJsonParser.KnownInTag p := by
  rw [t.tags_value, map_inj_left]
  refine forall₂_congr fun lits _ => ?_
  rw [NostrTags.readStrings, map_inj_left]
  refine forall₂_congr fun lit _ => ?_
  rw [String.ofList_inj]
  exact BaseJsonParser.tagRead_iff lit

/-- **`Event::from_json` and JSON.**  When the quoted name of every field stands
first as its own key, the text is read as the event it denotes if and only if its
values are written in a way the readers know. -/
theorem fromJson_eq_event_iff (t : EventText) (hkeys : t.KeysFirst) :
    SignedEvent.fromJson t.text = .ok t.event ↔ t.Readable := by
  obtain ⟨gid, fid, hgid, hcid, hid⟩ := t.string_field hkeys (by decide) t.id_member
  obtain ⟨gpk, fpk, hgpk, hcpk, hpk⟩ := t.string_field hkeys (by decide) t.pubkey_member
  obtain ⟨gsig, fsig, hgsig, hcsig, hsig⟩ := t.string_field hkeys (by decide) t.sig_member
  obtain ⟨gct, fct, hgct, hcct, hct⟩ := t.string_field hkeys (by decide) t.content_member
  obtain ⟨tca, hca, hcaIff⟩ := t.number_field hkeys (by decide) t.createdAt_wf t.createdAt_member
    t.createdAt_u64 "Invalid created_at"
  have hkind : t.event.kind.toNat < 2 ^ 32 := t.event.kind.toNat_lt.trans (by decide)
  obtain ⟨tk, hk, hkIff⟩ := t.number_field hkeys (by decide) t.kind_wf t.kind_member hkind
    "Invalid kind"
  obtain ⟨e, -, hvalue, hafter, hbefore, -, -, htags⟩ :=
    t.afterFirst_field hkeys (by decide) t.tags_member
  have htail : e.tail = (e.afterKey ++ ':' :: e.beforeValue) ++ (t.tagsDoc.text ++ e.following) := by
    rw [Entry.tail, hvalue]
    simp
  rw [htail] at htags
  have hreadTags := SignedEvent.readTags_eq t.tags_strings (gap_of_blank hafter hbefore).2 htags
  have hreadContent := SignedEvent.readContent_eq hcct hgct hct
  have hcontent : String.ofList (t.contentLit.flatMap SignedEvent.contentRead) = t.event.content ↔
      ∀ p ∈ t.contentLit, SignedEvent.KnownInContent p := by
    rw [t.content_value, String.ofList_inj]
    exact SignedEvent.contentRead_iff hcct
  rw [text, SignedEvent.fromJson_ofList,
    SignedEvent.readFields_iff hid hpk hca hk hreadTags hreadContent hsig,
    SignedEvent.hexAfter_iff hgid hcid _ _ _ _ t.id_hex,
    SignedEvent.hexAfter_iff hgpk hcpk _ _ _ _ t.pubkey_hex, hcaIff, hkIff, t.tags_read_iff,
    hcontent, t.sig_value, SignedEvent.quotedAfter_iff hgsig hcsig]
  constructor
  · rintro ⟨h1, h2, h3, h4, h5, h6, h7⟩
    exact ⟨h1, h2, h3, h4, h5, h6, h7⟩
  · rintro ⟨h1, h2, h3, h4, h5, h6, h7⟩
    exact ⟨h1, h2, h3, h4, h5, h6, h7⟩

/-! ### Events in the usual order -/

def oneTag (tag : List (List Piece)) : Doc :=
  .arr [] (.cons [] (.arr [] (tag.foldr (fun lit rest => .cons [] (.str lit) [] rest) .nil)) [] .nil)

theorem isTags_oneTag {tag : List (List Piece)} (h : ∀ lit ∈ tag, ∀ p ∈ lit, p.Wf) :
    IsTags (oneTag tag) [tag] ∧ (oneTag tag).Wf := by
  have hlist : Listed IsString (tag.foldr (fun lit rest => .cons [] (.str lit) [] rest) .nil) tag ∧
      (tag.foldr (fun lit rest => Items.cons [] (.str lit) [] rest) .nil).Wf := by
    induction tag with
    | nil => exact ⟨.nil, trivial⟩
    | cons lit tag ih =>
      obtain ⟨hlisted, hwf⟩ := ih fun l hl => h l (mem_cons_of_mem _ hl)
      have hlit := h lit mem_cons_self
      exact ⟨.cons blank_nil ⟨rfl, fun p hp => (hlit p hp).closed⟩ blank_nil hlisted,
        blank_nil, hlit, blank_nil, hwf⟩
  exact ⟨⟨[], _, rfl, blank_nil, .cons blank_nil ⟨[], _, rfl, blank_nil, hlist.1⟩ blank_nil .nil⟩,
    blank_nil, blank_nil, ⟨blank_nil, hlist.2⟩, blank_nil, trivial⟩

/-- The members of an event in the order in which events are usually written. -/
def usualMembers (tag : List (List Piece)) (content : List Piece) : Members :=
  compactMember "id" (.str (idLiteral zeroId)) (compactMember "pubkey" (.str (idLiteral zeroId))
    (compactMember "created_at" (.atom ['1']) (compactMember "kind" (.atom ['1'])
      (compactMember "tags" (oneTag tag) (compactMember "content" (.str content)
        (compactMember "sig" (compactString "00") .nil))))))

theorem wf_one : (NumberLit.mk false ['1'] [] none).Wf :=
  ⟨by decide, by simp, by decide, by simp, nofun⟩

theorem value_one : (NumberLit.mk false ['1'] [] none).value = 1 := by
  have hint : (NumberLit.mk false ['1'] [] none).intValue = 1 := by decide
  simp [NumberLit.value, NumberLit.scale, hint]

/-- An event with one tag, in the usual order, without whitespace. -/
def usual (tag : List (List Piece)) (content : List Piece) (htag : ∀ lit ∈ tag, ∀ p ∈ lit, p.Wf)
    (hcontent : ∀ p ∈ content, p.Wf) : EventText where
  before := []
  blank := []
  members := usualMembers tag content
  after := []
  event :=
    { id := zeroId, pubkey := zeroId, createdAt := 1, kind := 1
      tags := [tag.map fun lit => String.ofList (literalValue lit)]
      content := String.ofList (literalValue content), sig := "00" }
  idLit := idLiteral zeroId
  pubkeyLit := idLiteral zeroId
  createdAtLit := ⟨false, ['1'], [], none⟩
  kindLit := ⟨false, ['1'], [], none⟩
  tagsDoc := oneTag tag
  tagLits := [tag]
  contentLit := content
  sigLit := plainLiteral "00".toList
  blank_before := blank_nil
  blank_after := blank_nil
  wf := by
    refine ⟨blank_nil, wf_compactMember (by decide) (wf_idLiteral zeroId) ?_⟩
    refine wf_compactMember (by decide) (wf_idLiteral zeroId) ?_
    refine wf_compactMember (by decide) wf_atom_one (wf_compactMember (by decide) wf_atom_one ?_)
    refine wf_compactMember (by decide) (isTags_oneTag htag).2 ?_
    refine wf_compactMember (by decide) hcontent ?_
    exact wf_compactMember (by decide) (wf_compactString (by decide)) trivial
  id_member := by simp [usualMembers, compactMember, Members.valuesOf, literalValue_plainLiteral]
  id_hex := decodeChars_idLiteral zeroId
  pubkey_member := by
    simp [usualMembers, compactMember, Members.valuesOf, literalValue_plainLiteral]
  pubkey_hex := decodeChars_idLiteral zeroId
  createdAt_member := by
    simp [usualMembers, compactMember, Members.valuesOf, literalValue_plainLiteral,
      NumberLit.text, NumberLit.fracText, NumberLit.expText]
  createdAt_wf := wf_one
  createdAt_value := by simpa using value_one
  createdAt_u64 := by
    show 1 < 2 ^ 64
    decide
  kind_member := by
    simp [usualMembers, compactMember, Members.valuesOf, literalValue_plainLiteral,
      NumberLit.text, NumberLit.fracText, NumberLit.expText]
  kind_wf := wf_one
  kind_value := by simpa using value_one
  tags_member := by simp [usualMembers, compactMember, Members.valuesOf, literalValue_plainLiteral]
  tags_strings := (isTags_oneTag htag).1
  tags_value := rfl
  content_member := by
    simp [usualMembers, compactMember, Members.valuesOf, literalValue_plainLiteral]
  content_value := rfl
  sig_member := by
    simp [usualMembers, compactMember, Members.valuesOf, literalValue_plainLiteral, compactString]
  sig_value := by rw [literalValue_plainLiteral, String.ofList_toList]

def escaped : EventText :=
  usual [plainLiteral "t".toList, [.plain 'a', .short .formFeed]]
    [.plain 'h', .short .quote, .short .newline] (by simp [Piece.Wf, plainLiteral])
    (by simp [Piece.Wf])

theorem keysFirst_escaped : escaped.KeysFirst := by
  unfold KeysFirst
  decide

theorem plainNumber_escaped (h : (escaped.members.entry name.toList escaped.closing).map
      (fun e => e.afterKey ++ e.beforeValue) = some []) :
    escaped.PlainNumber name ⟨false, ['1'], [], none⟩ 1 := by
  refine ⟨fun e he c hc => ?_, rfl, by decide⟩
  have he' : escaped.members.entry name.toList escaped.closing = some e := he
  rw [he', Option.map_some, Option.some.injEq] at h
  rw [h] at hc
  exact absurd hc not_mem_nil

theorem fromJson_eq_event_escaped :
    escaped.KeysFirst ∧ escaped.Readable ∧
      SignedEvent.fromJson escaped.text = .ok escaped.event := by
  have hreadable : escaped.Readable :=
    { id := plain_plainLiteral _
      pubkey := plain_plainLiteral _
      createdAt := plainNumber_escaped (by decide)
      kind := plainNumber_escaped (by decide)
      tags := by simp [escaped, usual, plainLiteral, BaseJsonParser.KnownInTag]
      content := by simp [escaped, usual, SignedEvent.KnownInContent]
      sig := plain_plainLiteral _ }
  exact ⟨keysFirst_escaped, hreadable,
    (fromJson_eq_event_iff escaped keysFirst_escaped).mpr hreadable⟩

/-- **A tag is read for the content**: an event with the tag `["content","evil"]`
and the content `hi` is read as one with the content `evil`. -/
theorem tag_replaces_content :
    ∃ t : EventText, t.event.content = "hi" ∧ SignedEvent.fromJson t.text ≠ .ok t.event ∧
      SignedEvent.fromJson t.text = .ok { t.event with content := "evil" } := by
  let t := usual [plainLiteral "content".toList, plainLiteral "evil".toList]
    (plainLiteral "hi".toList) (by simp [Piece.Wf, plainLiteral]) (by simp [Piece.Wf, plainLiteral])
  have hcontent : t.event.content = "hi" := by decide
  have hread : SignedEvent.fromJson t.text = .ok { t.event with content := "evil" } := by
    rw [text, SignedEvent.fromJson_ofList]
    decide +kernel
  refine ⟨t, hcontent, fun hsame => ?_, hread⟩
  rw [hread] at hsame
  have hevil : "evil" = t.event.content := congrArg SignedEvent.content (Except.ok.inj hsame)
  rw [hcontent] at hevil
  exact absurd hevil (by decide)

end EventText

end Nipworker
