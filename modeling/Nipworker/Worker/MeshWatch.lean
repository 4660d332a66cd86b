/-
Live and stored events of a mesh subscription (`worker/cache_worker.rs`).

A mesh-only subscription sees stored events through the index (`to_filter`,
`filter_to_query_filter`, `query_events_with_filter`) and later ones through
`request_matches_event`.  The two read the fields of the request in their own
way: the live matcher takes ids and authors as prefixes, compares times and
kinds as signed numbers, looks at every value of a tag and at the text of the
event; the index wants 32 bytes in hexadecimal, truncates numbers, looks at the
first value of seven kinds of tags, and hides an event that deletes itself.
-/
import Nipworker.Storage.CachedAnswers

namespace Nipworker

open List

/-! ### The live matcher -/

/-- One tag of the event against one tag condition: the tag has the name of the
condition, and one of its values is wanted. -/
def StringVec.hits (key : String) (wanted : List String) (tag : StringVec) : Bool :=
  match tag.items with
  | none => false
  | some items =>
    2 ≤ items.length ∧ items.head? = some key ∧ items.tail.any fun item => wanted.any (· = item)

/-- `request_matches_event`; `lower` is `str::to_lowercase`. -/
def requestMatchesEvent (lower : String → String) (req : Request) (event : NostrEvent) : Bool :=
  if req.ids ≠ [] ∧ ¬ req.ids.any fun id => id.toList.isPrefixOf event.id.toList then false
  else if req.authors ≠ []
      ∧ ¬ req.authors.any fun author => author.toList.isPrefixOf event.pubkey.toList then false
  else if req.kinds ≠ [] ∧ ¬ req.kinds.any fun kind => kind.toInt = event.kind.toNat then false
  else if (req.sinceTime.any fun since => event.createdAt < since.toInt)
      ∨ req.untilTime.any fun upto => event.createdAt > upto.toInt then false
  else if req.search.any fun search =>
      ¬ (lower search).toList <:+: (lower event.content).toList then false
  else
    req.tags.entries.all fun entry => event.tags.any (StringVec.hits (tagKeyName entry.1) entry.2)

/-- What a storage with one event answers to a request without its limit: is
the event, as it was stored, among the answers? -/
def AnswersFromStorage (fb : FlatBuffers) (walk : IterOrder String) (order : IterOrder EventKey)
    (sel : SelectNth (ℕ × ℕ) survivorTime) (db : NostrDB) (req : Request) (bytes : Bytes) : Prop :=
  ∃ filter, Request.toFilter walk { req with limit := none } = .ok filter
    ∧ bytes ∈ db.queryFilters fb order sel [filter]

/-! ### Field by field -/

/-- The fields that are compared. -/
inductive MatchField
  | ids
  | authors
  | kinds
  | tags
  | sinceTime
  | untilTime
  | search
  | deletion
  deriving DecidableEq, Repr

def MatchField.live (lower : String → String) (req : Request) (event : NostrEvent) :
    MatchField → Prop
  | ids => req.ids = [] ∨ ∃ id ∈ req.ids, id.toList <+: event.id.toList
  | authors => req.authors = [] ∨ ∃ author ∈ req.authors, author.toList <+: event.pubkey.toList
  | kinds => req.kinds = [] ∨ ∃ kind ∈ req.kinds, kind.toInt = event.kind.toNat
  | tags => ∀ key wanted, req.tags.lookup key = some wanted → ∃ tag ∈ event.tags, ∃ items,
      tag.items = some items ∧ 2 ≤ items.length ∧ items.head? = some (tagKeyName key)
        ∧ ∃ item ∈ items.tail, item ∈ wanted
  | sinceTime => ∀ since ∈ req.sinceTime, since.toInt ≤ event.createdAt
  | untilTime => ∀ upto ∈ req.untilTime, event.createdAt ≤ upto.toInt
  | search => ∀ search ∈ req.search, (lower search).toList <:+: (lower event.content).toList
  | deletion => True

/-- A list of hexadecimal texts as the index reads it: all of them are 32 bytes,
and one of them, in lower case, is the text of the event. -/
def HexListed (texts : List String) (text : String) : Prop :=
  texts = [] ∨ ((∀ t ∈ texts, ∃ bytes, Hex.decode t = some bytes ∧ bytes.length = 32)
    ∧ ∃ t ∈ texts, ∃ bytes, Hex.decode t = some bytes ∧ Hex.encode bytes = text)

def MatchField.stored (walk : IterOrder String) (req : Request) (event : NostrEvent) :
    MatchField → Prop
  | ids => HexListed req.ids event.id
  | authors => HexListed req.authors event.pubkey
  | kinds => req.kinds = [] ∨ ∃ kind ∈ req.kinds, kind.toInt % 65536 = event.kind.toNat
  | tags => ∀ n wanted, req.keptTags walk n = some wanted →
      ∃ value ∈ wanted, event.event.HasTag n.text value
  | sinceTime => ∀ since ∈ req.sinceTime, (u32OfI32 since : ℤ) ≤ max event.createdAt 0
  | untilTime => ∀ upto ∈ req.untilTime, max event.createdAt 0 ≤ (u32OfI32 upto : ℤ)
  | search => True
  | deletion => ¬ (event.kind = eventDeletion ∧ covers event.event event.event = true)

theorem hits_iff {key : String} {wanted : List String} {tag : StringVec} :
    tag.hits key wanted = true ↔ ∃ items, tag.items = some items ∧ 2 ≤ items.length
      ∧ items.head? = some key ∧ ∃ item ∈ items.tail, item ∈ wanted := by
  unfold StringVec.hits
  rcases tag.items with _ | items
  · simp
  · simp [any_eq_true]

theorem mem_entries {m : Map String (List String)} {p : String → List String → Prop} :
    (∀ entry ∈ m.entries, p entry.1 entry.2) ↔ ∀ key values, m.lookup key = some values →
      p key values := by
  constructor
  · intro h key values hlookup
    exact h ⟨key, values⟩ (AList.mem_lookup_iff.mp hlookup)
  · rintro h ⟨key, values⟩ hmem
    exact h key values (AList.mem_lookup_iff.mpr hmem)

theorem guard_iff {c : Prop} [Decidable c] {b : Bool} :
    (if c then false else b) = true ↔ ¬ c ∧ b = true := by
  by_cases h : c
  · rw [if_pos h]
    exact ⟨nofun, fun hb => absurd h hb.1⟩
  · rw [if_neg h]
    exact ⟨fun hb => ⟨h, hb⟩, fun hb => hb.2⟩

theorem not_any_iff {α : Type} {xs : List α} {p : α → Bool} :
    ¬ (xs ≠ [] ∧ ¬ xs.any p = true) ↔ xs = [] ∨ ∃ x ∈ xs, p x = true := by
  rw [not_and_or, not_not, not_not, any_eq_true]

theorem not_option_any_iff {α : Type} {o : Option α} {p : α → Bool} :
    ¬ o.any p = true ↔ ∀ x ∈ o, p x = false := by
  rcases o with _ | x <;> simp

theorem requestMatchesEvent_iff (lower : String → String) (req : Request) (event : NostrEvent) :
    requestMatchesEvent lower req event = true ↔ ∀ f : MatchField, f.live lower req event := by
  have hsplit : (∀ f : MatchField, f.live lower req event)
      ↔ MatchField.ids.live lower req event ∧ MatchField.authors.live lower req event
        ∧ MatchField.kinds.live lower req event
        ∧ (MatchField.sinceTime.live lower req event ∧ MatchField.untilTime.live lower req event)
        ∧ MatchField.search.live lower req event ∧ MatchField.tags.live lower req event := by
    constructor
    · intro h
      exact ⟨h _, h _, h _, ⟨h _, h _⟩, h _, h _⟩
    · rintro ⟨h1, h2, h3, ⟨h4, h5⟩, h6, h7⟩ f
      cases f
      exacts [h1, h2, h3, h7, h4, h5, h6, trivial]
  rw [hsplit]
  unfold requestMatchesEvent
  simp only [guard_iff, not_any_iff]
  refine and_congr ?_ (and_congr ?_ (and_congr ?_ (and_congr ?_ (and_congr ?_ ?_))))
  · simp only [MatchField.live, isPrefixOf_iff_prefix]
  · simp only [MatchField.live, isPrefixOf_iff_prefix]
  · simp only [MatchField.live, decide_eq_true_eq]
  · rw [not_or, not_option_any_iff, not_option_any_iff]
    simp only [MatchField.live, decide_eq_false_iff_not, not_lt]
  · rw [not_option_any_iff]
    simp only [MatchField.live, decide_eq_false_iff_not, not_not]
  · rw [all_eq_true, MatchField.live]
    simp only [any_eq_true, hits_iff]
    exact mem_entries (p := fun key wanted => ∃ tag ∈ event.tags, ∃ items,
      tag.items = some items ∧ 2 ≤ items.length ∧ items.head? = some (tagKeyName key)
        ∧ ∃ item ∈ items.tail, item ∈ wanted)

/-! ### A storage with one event -/

theorem suppressed_single {ev : Event} {offset : ℕ} :
    (indexEvent IndexState.empty ev offset).Suppressed ev.id
      ↔ ev.kind = eventDeletion ∧ covers ev ev = true := by
  have hrun : (IndexState.empty.run [.index ev offset]).Suppressed ev.id
      ↔ (Fate.run ev Fate.init [.index ev offset]).hidden = true := by
    refine suppressed_iff_hidden ?_
    intro a ha b hb _
    have hall : ∀ c ∈ [ev, ev], c = ev := by simp
    rw [hall a ha, hall b hb]
  have hfate : (Fate.run ev Fate.init [.index ev offset]).hidden = true
      ↔ ev.kind = eventDeletion ∧ covers ev ev = true := by
    show (Fate.step ev Fate.init (.index ev offset)).hidden = true ↔ _
    unfold Fate.step
    dsimp only
    rw [if_pos rfl]
    by_cases hkind : ev.kind = eventDeletion
    · rw [if_pos hkind]
      simp [Fate.delete, Fate.arrive, Fate.init, hkind]
    · rw [if_neg hkind]
      simp [Fate.arrive, Fate.init, hkind]
  exact hrun.trans hfate

theorem query_single {fb : FlatBuffers} (hempty : fb.RejectsEmpty) {maxBufferSize : ℕ}
    (hcap : maxBufferSize + legacyDedicatedBytes ≤ 2 ^ 32) {event : NostrEvent} {bytes : Bytes}
    (hmsg : fb.workerMessage bytes = some (.nostrEvent event)) {db : NostrDB}
    (hadd : ((NostrDB.new maxBufferSize).initializeDb fb).addWorkerMessageBytes fb bytes = .ok db)
    (order : IterOrder EventKey) (sel : SelectNth (ℕ × ℕ) survivorTime) {filter : QueryFilter}
    (hlimit : filter.limit = none) :
    ∃ result, db.queryEventsWithFilter order sel filter = .ok result
      ∧ (bytes ∈ result.events ↔ event.event.Matches filter
        ∧ ¬ (event.kind = eventDeletion ∧ covers event.event event.event = true)) := by
  have hne : bytes ≠ [] := by
    rintro rfl
    rw [hempty.workerMessage] at hmsg
    cases hmsg
  have hstore : ((NostrDB.new maxBufferSize).initializeDb fb).storeAndIndex (.nostr event) bytes
      = .ok db := by
    rw [NostrDB.addWorkerMessageBytes, hmsg] at hadd
    exact hadd
  have hholds := (ShardedStorage.holds_newDefault hcap).initializeStorage
  have hdet : DeterminedIds ((StoredEvent.nostr event).event :: []) := by
    intro a ha b hb _
    rw [List.mem_singleton.mp ha, List.mem_singleton.mp hb]
  -- the storage and the index, with the event in both
  have htracks : ∃ history, db.Tracks history [event.event] fun _ b => b = bytes := by
    have hempty : ((NostrDB.new maxBufferSize).initializeDb fb).Tracks (fun _ => []) []
        fun _ _ => False := by
      rw [NostrDB.initializeDb_new]
      exact ⟨hholds, DatabaseIndexes.represents_new, fun id record hrec => by cases hrec⟩
    rcases hempty.storeAndIndex (fun _ b => b = bytes) hdet hne rfl
      (fun _ _ _ h => h.elim) with ⟨e, he⟩ | ⟨db', hdb', htracks'⟩
    · rw [he] at hstore
      cases hstore
    · obtain rfl := Except.ok.inj (hdb'.symm.trans hstore)
      exact ⟨_, htracks'⟩
  obtain ⟨history, htracks⟩ := htracks
  rw [NostrDB.initializeDb_new, NostrDB.storeAndIndex] at hstore
  dsimp only at hstore
  rcases hput : (ShardedStorage.newDefault maxBufferSize).initializeStorage.addEventForKind
      (StoredEvent.nostr event).event.kind.toNat bytes with e | ⟨storage, offset⟩ <;>
    rw [hput] at hstore
  · cases hstore
  · have hlive := hholds.live_addEventForKind (fun _ => rfl) hne (by decide) hput
    dsimp only at hstore
    have hindex : db.index = indexEvent IndexState.empty event.event offset := by
      rw [← Except.ok.inj hstore]
      exact indexStoredEvent_eq IndexState.empty (.nostr event) offset
    have hstorage : db.storage = storage := by rw [← Except.ok.inj hstore]
    obtain ⟨key, hrec⟩ : ∃ key, db.index.indexes.record event.event.id
        = some ⟨key, offset, event.event.createdAt⟩ := by
      rw [hindex, NostrDB.indexEvent_indexes, DatabaseIndexes.indexFields_record, if_pos rfl]
      exact ⟨_, rfl⟩
    have hvisible : event.event ∈ db.visibleEvents [event.event] filter
        ↔ event.event.Matches filter
          ∧ ¬ (event.kind = eventDeletion ∧ covers event.event event.event = true) := by
      have hsupp : db.index.Suppressed event.event.id
          ↔ key ∈ db.index.tombstones.deletedKeys := by
        unfold IndexState.Suppressed
        rw [hrec]
        simp
      have hsingle : db.index.Suppressed event.event.id
          ↔ event.kind = eventDeletion ∧ covers event.event event.event = true := by
        rw [hindex]
        exact suppressed_single
      rw [NostrDB.mem_visibleEvents_iff hrec, ← hsupp, hsingle, hstorage]
      constructor
      · rintro ⟨-, hnot, -, hmatches⟩
        exact ⟨hmatches, hnot⟩
      · rintro ⟨hmatches, hnot⟩
        exact ⟨mem_singleton_self _, hnot, hlive, hmatches⟩
    obtain ⟨result, chosen, hquery, ⟨hlen, htop⟩, -, hread, -⟩ :=
      htracks.query hdet order sel filter true
    refine ⟨result, hquery, ?_⟩
    rw [← hvisible]
    rw [hlimit, Option.getD_none, Nat.min_self] at hlen
    constructor
    · intro hmem
      have hpos : 0 < (db.visibleEvents [event.event] filter).length := by
        rw [← hlen, hread.length_eq]
        exact length_pos_of_mem hmem
      obtain ⟨ev, hev⟩ := exists_mem_of_length_pos hpos
      obtain ⟨hmem', -⟩ := NostrDB.exists_record_of_visible hev
      rw [List.mem_singleton.mp hmem'] at hev
      exact hev
    · intro hmem
      have hpos : 0 < result.events.length := by
        rw [← hread.length_eq, hlen]
        exact length_pos_of_mem hmem
      have hpos' : 0 < chosen.length := by rw [hread.length_eq]; exact hpos
      have hbytes : result.events[0] = bytes := hread.get hpos' hpos
      rw [← hbytes]
      exact getElem_mem hpos

variable {texts : List String}

theorem hexListed_iff {invalid : String} {ids : Option (List Bytes32)}
    (h : hexList (Bytes32.fromHex invalid) texts = .ok ids) (text : String) :
    (∀ list ∈ ids.map fun list => list.map Bytes32.toHex, text ∈ list) ↔ HexListed texts text := by
  have hvalid := (hexList_eq_ok h).1
  unfold hexList at h
  by_cases hnil : texts = []
  · rw [if_pos hnil] at h
    cases h
    exact ⟨fun _ => .inl hnil, fun _ list hlist => by cases hlist⟩
  · rw [if_neg hnil] at h
    rcases hmap : texts.mapM (Bytes32.fromHex invalid) with e | list <;> rw [hmap] at h
    · cases h
    · cases h
      obtain ⟨hleft, hright⟩ := mem_of_mapM hmap
      rw [HexListed, or_iff_right hnil, and_iff_right hvalid]
      constructor
      · intro hall
        obtain ⟨id, hid, rfl⟩ := List.mem_map.mp (hall _ rfl)
        obtain ⟨t, ht, heq⟩ := hright id hid
        exact ⟨t, ht, id.bytes, fromHex_eq_ok_iff.mp heq, rfl⟩
      · rintro ⟨t, ht, bytes, hdecode, rfl⟩ list' hlist'
        obtain ⟨id, hid, heq⟩ := hleft t ht
        rw [fromHex_eq_ok_iff, hdecode, Option.some.injEq] at heq
        obtain rfl := Option.some.inj hlist'
        exact List.mem_map.mpr ⟨id, hid, by rw [heq]; rfl⟩

theorem hexList_isOk
    (h : ∀ t ∈ texts, ∃ bytes, Hex.decode t = some bytes ∧ bytes.length = 32) (invalid : String) :
    ∃ ids, hexList (Bytes32.fromHex invalid) texts = .ok ids := by
  have hmap : ∃ list, texts.mapM (Bytes32.fromHex invalid) = .ok list := by
    induction texts with
    | nil => exact ⟨[], rfl⟩
    | cons t rest ih =>
      obtain ⟨list, hlist⟩ := ih fun t' ht' => h t' (mem_cons_of_mem _ ht')
      obtain ⟨bytes, hdecode, hlen⟩ := h t mem_cons_self
      have hhead : Bytes32.fromHex invalid t = .ok ⟨bytes, hlen⟩ := fromHex_eq_ok_iff.mpr hdecode
      refine ⟨⟨bytes, hlen⟩ :: list, ?_⟩
      rw [mapM_cons, hhead, hlist]
      rfl
  obtain ⟨list, hlist⟩ := hmap
  unfold hexList
  by_cases hnil : texts = []
  · exact ⟨none, if_pos hnil⟩
  · rw [if_neg hnil, hlist]
    exact ⟨some list, rfl⟩

theorem HexListed.valid {text : String} (h : HexListed texts text) :
    ∀ t ∈ texts, ∃ bytes, Hex.decode t = some bytes ∧ bytes.length = 32 := by
  rcases h with rfl | ⟨hvalid, -⟩
  · exact nofun
  · exact hvalid

theorem matches_filter_iff {walk : IterOrder String} {req : Request} {filter : Filter}
    (hfilter : Request.toFilter walk { req with limit := none } = .ok filter)
    (event : NostrEvent) :
    event.event.Matches (filterToQueryFilter filter)
      ↔ (MatchField.ids.stored walk req event ∧ MatchField.kinds.stored walk req event
          ∧ MatchField.authors.stored walk req event ∧ MatchField.tags.stored walk req event)
        ∧ MatchField.sinceTime.stored walk req event
        ∧ MatchField.untilTime.stored walk req event := by
  obtain ⟨hids, hauthors, hkinds, hsince, huntil, -, htags⟩ := toFilter_eq_ok hfilter
  have hcreated : (event.event.createdAt : ℤ) = max event.createdAt 0 :=
    Int.toNat_of_nonneg (le_max_right _ _)
  refine and_congr (and_congr ?_ (and_congr ?_ (and_congr ?_ ?_))) (and_congr ?_ ?_)
  · exact hexListed_iff hids event.id
  · show (∀ kinds ∈ filter.kinds, event.kind ∈ kinds) ↔ _
    rw [hkinds, MatchField.stored]
    by_cases hnil : req.kinds = []
    · rw [if_pos hnil]
      exact ⟨fun _ => .inl hnil, fun _ kinds hk => by cases hk⟩
    · rw [if_neg hnil, or_iff_right hnil]
      constructor
      · intro hall
        obtain ⟨k, hk, heq⟩ := List.mem_map.mp (hall _ rfl)
        exact ⟨k, hk, by rw [← toNat_u16OfI32, heq]⟩
      · rintro ⟨k, hk, hmod⟩ kinds hkinds'
        obtain rfl := Option.some.inj hkinds'
        refine List.mem_map.mpr ⟨k, hk, ?_⟩
        rw [← toNat_u16OfI32] at hmod
        exact UInt16.toNat_inj.mp (by exact_mod_cast hmod)
  · exact hexListed_iff hauthors event.pubkey
  · show (∀ n, ∀ values ∈ filter.tagList n, _) ↔ _
    simp only [htags]
    rfl
  · show (∀ since ∈ filter.sinceTime.map (· % 4294967296), since ≤ event.event.createdAt) ↔ _
    rw [hsince, MatchField.stored, ← hcreated]
    rcases req.sinceTime with _ | since
    · simp
    · simp [u64OfI32_mod]
  · show (∀ upto ∈ filter.untilTime.map (· % 4294967296), event.event.createdAt ≤ upto) ↔ _
    rw [huntil, MatchField.stored, ← hcreated]
    rcases req.untilTime with _ | upto
    · simp
    · simp [u64OfI32_mod]

/-- **A storage with one event** answers with it when every field does. -/
theorem answersFromStorage_iff {fb : FlatBuffers} (hempty : fb.RejectsEmpty) {maxBufferSize : ℕ}
    (hcap : maxBufferSize + legacyDedicatedBytes ≤ 2 ^ 32) {event : NostrEvent} {bytes : Bytes}
    (hmsg : fb.workerMessage bytes = some (.nostrEvent event)) {db : NostrDB}
    (hadd : ((NostrDB.new maxBufferSize).initializeDb fb).addWorkerMessageBytes fb bytes = .ok db)
    (walk : IterOrder String) (order : IterOrder EventKey)
    (sel : SelectNth (ℕ × ℕ) survivorTime) (req : Request) :
    AnswersFromStorage fb walk order sel db req bytes
      ↔ ∀ f : MatchField, f.stored walk req event := by
  have hquery : ∀ filter, Request.toFilter walk { req with limit := none } = .ok filter →
      (bytes ∈ db.queryFilters fb order sel [filter] ↔ ∀ f : MatchField, f.stored walk req event) := by
    intro filter hfilter
    have hlimit : (filterToQueryFilter filter).limit = none := (toFilter_eq_ok hfilter).2.2.2.2.2.1
    obtain ⟨result, hresult, hmem⟩ := query_single hempty hcap hmsg hadd order sel hlimit
    unfold NostrDB.queryFilters
    dsimp only
    rw [(perm_sortDesc _ _).mem_iff, flatMap_singleton, hresult]
    rw [hmem, matches_filter_iff hfilter event]
    constructor
    · rintro ⟨⟨⟨h1, h2, h3, h4⟩, h5, h6⟩, h7⟩ f
      cases f
      exacts [h1, h3, h2, h4, h5, h6, trivial, h7]
    · intro h
      exact ⟨⟨⟨h _, h _, h _, h _⟩, h _, h _⟩, h .deletion⟩
  constructor
  · rintro ⟨filter, hfilter, hmem⟩
    exact (hquery filter hfilter).mp hmem
  · intro h
    obtain ⟨ids, hids⟩ := hexList_isOk (HexListed.valid (h .ids)) "Invalid event ID"
    obtain ⟨authors, hauthors⟩ := hexList_isOk (HexListed.valid (h .authors)) "Invalid pubkey"
    obtain ⟨filter, hfilter⟩ : ∃ filter, Request.toFilter walk { req with limit := none }
        = .ok filter := by
      unfold Request.toFilter
      dsimp only
      rw [eventIdFromHex, hids, publicKeyFromHex, hauthors]
      exact ⟨_, rfl⟩
    exact ⟨filter, hfilter, (hquery filter hfilter).mpr h⟩

/-- **Live and stored agree** on an event exactly when every field of the
request is read alike on both sides, or both sides have a field that keeps the
event out. -/
theorem live_iff_stored_iff {fb : FlatBuffers} (hempty : fb.RejectsEmpty) {maxBufferSize : ℕ}
    (hcap : maxBufferSize + legacyDedicatedBytes ≤ 2 ^ 32) {event : NostrEvent} {bytes : Bytes}
    (hmsg : fb.workerMessage bytes = some (.nostrEvent event)) {db : NostrDB}
    (hadd : ((NostrDB.new maxBufferSize).initializeDb fb).addWorkerMessageBytes fb bytes = .ok db)
    (lower : String → String) (walk : IterOrder String) (order : IterOrder EventKey)
    (sel : SelectNth (ℕ × ℕ) survivorTime) (req : Request) :
    (requestMatchesEvent lower req event = true
        ↔ AnswersFromStorage fb walk order sel db req bytes)
      ↔ (∀ f : MatchField, f.live lower req event ↔ f.stored walk req event)
        ∨ ((∃ f : MatchField, ¬ f.live lower req event)
          ∧ ∃ f : MatchField, ¬ f.stored walk req event) := by
  rw [requestMatchesEvent_iff, answersFromStorage_iff hempty hcap hmsg hadd]
  constructor
  · intro h
    by_cases hlive : ∀ f : MatchField, f.live lower req event
    · left
      exact fun f => iff_of_true (hlive f) (h.mp hlive f)
    · right
      exact ⟨not_forall.mp hlive, not_forall.mp fun hstored => hlive (h.mpr hstored)⟩
  · rintro (h | ⟨hlive, hstored⟩)
    · exact forall_congr' h
    · exact iff_of_false (not_forall.mpr hlive) (not_forall.mpr hstored)

theorem exists_noteDb :
    ∃ db, ((NostrDB.new 8388608).initializeDb noteReaders).addWorkerMessageBytes noteReaders
      noteBytes = .ok db := by
  have hok : (((NostrDB.new 8388608).initializeDb noteReaders).addWorkerMessageBytes noteReaders
      noteBytes).isOk = true := by decide +kernel
  rcases hadd : ((NostrDB.new 8388608).initializeDb noteReaders).addWorkerMessageBytes noteReaders
      noteBytes with e | db
  · rw [hadd] at hok
    cases hok
  · exact ⟨db, rfl⟩

theorem noteReaders_note : noteReaders.workerMessage noteBytes = some (.nostrEvent note) := by
  decide +kernel

def notesRequest : Request :=
  { ids := [], authors := [], kinds := [1], tags := ∅, sinceTime := none, untilTime := none,
    limit := none, search := none }

theorem live_iff_stored_note :
    ∃ db, ((NostrDB.new 8388608).initializeDb noteReaders).addWorkerMessageBytes noteReaders
        noteBytes = .ok db
      ∧ ∀ lower, (requestMatchesEvent lower notesRequest note = true
        ↔ AnswersFromStorage noteReaders (.entries _) (.entries _) (.sort _) db notesRequest
          noteBytes) := by
  obtain ⟨db, hadd⟩ := exists_noteDb
  refine ⟨db, hadd, fun lower => (live_iff_stored_iff noteReaders_rejectsEmpty (by decide) noteReaders_note hadd
    lower (.entries _) (.entries _) (.sort _) notesRequest).mpr (.inl fun f => ?_)⟩
  have hkind : ((1 : Int32)).toInt = note.kind.toNat := by decide
  cases f with
  | ids => exact iff_of_true (.inl rfl) (.inl rfl)
  | authors => exact iff_of_true (.inl rfl) (.inl rfl)
  | kinds =>
    exact iff_of_true (.inr ⟨1, mem_singleton_self _, hkind⟩)
      (.inr ⟨1, mem_singleton_self _, by rw [hkind]; decide⟩)
  | tags =>
    refine iff_of_true (fun key wanted hkey => by cases hkey) (fun n wanted hkept => ?_)
    cases n <;> cases hkept
  | sinceTime => exact iff_of_true nofun nofun
  | untilTime => exact iff_of_true nofun nofun
  | search => exact iff_of_true nofun trivial
  | deletion => exact iff_of_true trivial fun h => absurd h.1 (by decide)

/-- The note has no tag.  The live matcher keeps it out of a subscription to a
topic, and the storage answers with it. -/
theorem topic_stored_not_live :
    ∃ db, ((NostrDB.new 8388608).initializeDb noteReaders).addWorkerMessageBytes noteReaders
        noteBytes = .ok db
      ∧ ∀ lower, ¬ (requestMatchesEvent lower topicRequest note = true
        ↔ AnswersFromStorage noteReaders (.entries _) (.entries _) (.sort _) db topicRequest
          noteBytes) := by
  obtain ⟨db, hadd⟩ := exists_noteDb
  refine ⟨db, hadd, fun lower h => ?_⟩
  have hstored : AnswersFromStorage noteReaders (.entries _) (.entries _) (.sort _) db topicRequest
      noteBytes := by
    rw [answersFromStorage_iff noteReaders_rejectsEmpty (by decide) noteReaders_note hadd]
    intro f
    cases f with
    | ids => exact .inl rfl
    | authors => exact .inl rfl
    | kinds => exact .inl rfl
    | tags =>
      intro n wanted hkept
      have hnone : topicRequest.keptTags (.entries _) n = none := by
        cases n <;> decide +kernel
      rw [hnone] at hkept
      cases hkept
    | sinceTime => exact nofun
    | untilTime => exact nofun
    | search => exact trivial
    | deletion => exact fun h => absurd h.1 (by decide)
  have hlive := (requestMatchesEvent_iff lower topicRequest note).mp (h.mpr hstored) .tags
  obtain ⟨tag, htag, -⟩ := hlive "#t" ["rust"] (AList.lookup_insert _)
  cases htag

end Nipworker
