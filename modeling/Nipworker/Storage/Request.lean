/-
From a request to a cached answer (`types/network.rs`, `nostr_db_storage.rs`).

A request of a client is turned into a `Filter` (`to_filter`), the filter into
a `QueryFilter` (`filter_to_query_filter`), and this is asked of the index.  The
index has tag lists for seven tag names only, so not every condition of the
request gets there.
-/
import Nipworker.Lib.Hex
import Nipworker.Storage.QueryRefinement

namespace Nipworker

open List Option

/-- `TypesError`, as the readers raise it. -/
inductive TypesError
  | invalidFormat (message : String)
  | other (message : String)
  deriving DecidableEq, Repr

/-- The text of an error (`Display`). -/
def TypesError.display : TypesError → String
  | .invalidFormat message => "Invalid format: " ++ message
  | .other message => "Other error: " ++ message

/-- An `EventId` or a `PublicKey`: 32 bytes. -/
structure Bytes32 where
  bytes : Bytes
  size : bytes.length = 32
  deriving DecidableEq

theorem length_alike (byte : UInt8) : (List.replicate 32 byte).length = 32 :=
  length_replicate

theorem length_zeros : (List.replicate 32 (0 : UInt8)).length = 32 := length_alike 0

/-- The common body of the two `from_hex`. -/
def Bytes32.fromHex (invalid : String) (s : String) : Except TypesError Bytes32 :=
  match Hex.decode s with
  | none => .error (.invalidFormat "Invalid hex")
  | some bytes =>
    if h : bytes.length = 32 then .ok ⟨bytes, h⟩ else .error (.invalidFormat invalid)

theorem fromHex_eq_ok_iff {invalid text : String} {id : Bytes32} :
    Bytes32.fromHex invalid text = .ok id ↔ Hex.decode text = some id.bytes := by
  unfold Bytes32.fromHex
  rcases Hex.decode text with _ | bytes
  · exact ⟨nofun, nofun⟩
  · dsimp only
    by_cases hlen : bytes.length = 32
    · rw [dif_pos hlen, some.injEq, Except.ok.injEq]
      constructor
      · rintro rfl
        rfl
      · rintro rfl
        rfl
    · rw [dif_neg hlen, some.injEq]
      exact ⟨nofun, fun heq => absurd (heq ▸ id.size) hlen⟩

/-- `to_hex`, which is also `to_string`. -/
def Bytes32.toHex (id : Bytes32) : String := Hex.encode id.bytes

/-- `EventId::from_hex`. -/
def eventIdFromHex : String → Except TypesError Bytes32 := Bytes32.fromHex "Invalid event ID"

/-- `PublicKey::from_hex`. -/
def publicKeyFromHex : String → Except TypesError Bytes32 := Bytes32.fromHex "Invalid pubkey"

/-- `Request`, without the fields that only say where it is sent. -/
structure Request where
  ids : List String
  authors : List String
  kinds : List Int32
  tags : Map String (List String)
  sinceTime : Option Int32
  untilTime : Option Int32
  limit : Option Int32
  search : Option String

/-- A filter, with its strings read. -/
structure Filter where
  ids : Option (List Bytes32)
  authors : Option (List Bytes32)
  kinds : Option (List UInt16)
  sinceTime : Option ℕ
  untilTime : Option ℕ
  limit : Option ℕ
  tags : Map String (List String)
  search : Option String
  eTags : Option (List String)
  pTags : Option (List String)
  dTags : Option (List String)
  aTags : Option (List String)

/-- `as u16`. -/
def u16OfI32 (x : Int32) : UInt16 := UInt16.ofNat (x.toInt % 65536).toNat

/-- `as u32`. -/
def u32OfI32 (x : Int32) : ℕ := (x.toInt % 4294967296).toNat

/-- `as u64`. -/
def u64OfI32 (x : Int32) : ℕ := (x.toInt % 18446744073709551616).toNat

/-- The name of a tag condition: its key, without a leading `#`. -/
def tagKeyName (key : String) : String :=
  match key.toList with
  | '#' :: rest => String.ofList rest
  | _ => key

/-- One entry of the tag map, in `to_filter`. -/
def Filter.addTag (filter : Filter) (key : String) (values : List String) : Filter :=
  if key = "#e" then { filter with eTags := some values }
  else if key = "#p" then { filter with pTags := some values }
  else if key = "#d" then { filter with dTags := some values }
  else if key = "#a" then { filter with aTags := some values }
  else { filter with tags := AList.insert (tagKeyName key) values filter.tags }

/-- A list of ids in hexadecimal; an empty list is no condition. -/
def hexList (fromHex : String → Except TypesError Bytes32) (texts : List String) :
    Except TypesError (Option (List Bytes32)) :=
  if texts = [] then .ok none
  else
    match texts.mapM fromHex with
    | .ok ids => .ok (some ids)
    | .error e => .error e

def Request.toFilter (walk : IterOrder String) (req : Request) : Except TypesError Filter :=
  match hexList eventIdFromHex req.ids with
  | .error e => .error e
  | .ok ids =>
    match hexList publicKeyFromHex req.authors with
    | .error e => .error e
    | .ok authors =>
      let filter : Filter :=
        { ids := ids
          authors := authors
          kinds := if req.kinds = [] then none else some (req.kinds.map u16OfI32)
          sinceTime := req.sinceTime.map u64OfI32
          untilTime := req.untilTime.map u64OfI32
          limit := req.limit.map u32OfI32
          tags := ∅
          search := req.search
          eTags := none
          pTags := none
          dTags := none
          aTags := none }
      .ok ((walk.order req.tags.keys).foldl
        (fun filter key =>
          match req.tags.lookup key with
          | some values => filter.addTag key values
          | none => filter) filter)

def filterToQueryFilter (filter : Filter) : QueryFilter :=
  { ids := filter.ids.map fun ids => ids.map Bytes32.toHex
    authors := filter.authors.map fun authors => authors.map Bytes32.toHex
    kinds := filter.kinds
    tags := fun n =>
      match n with
      | .e => filter.eTags
      | .p => filter.pTags
      | .a => filter.aTags
      | .d => filter.dTags
      | .q => filter.tags.lookup "q"
      | .E => filter.tags.lookup "E"
      | .P => filter.tags.lookup "P"
    sinceTime := filter.sinceTime.map (· % 4294967296)
    untilTime := filter.untilTime.map (· % 4294967296)
    limit := filter.limit
    search := filter.search }

/-- `extract_created_at`, with its default. -/
def extractCreatedAt (fb : FlatBuffers) (bytes : Bytes) : ℕ :=
  ((fb.storedEvent bytes).map Event.createdAt).getD 0

/-- `Storage::query`: the answers to all filters, newest first. -/
def NostrDB.queryFilters (fb : FlatBuffers) (order : IterOrder EventKey)
    (sel : SelectNth (ℕ × ℕ) survivorTime) (db : NostrDB) (filters : List Filter) : List Bytes :=
  let allEvents := filters.flatMap fun filter =>
    match db.queryEventsWithFilter order sel (filterToQueryFilter filter) with
    | .ok result => result.events
    | .error _ => []
  sortDesc (extractCreatedAt fb) allEvents

/-! ### What a request asks for -/

/-- Two spellings of the same bytes. -/
def SameHex (a b : String) : Prop := ∃ bytes, Hex.decode a = some bytes ∧ Hex.decode b = some bytes

/-- The event satisfies every condition the request carries.  Ids and authors
are 32 bytes, whichever way their hexadecimal is written; a tag condition asks
for a tag of its name with one of its values.  What a search asks for is up to
the relay: `found` says whether it finds the event. -/
structure Request.Matches (found : String → Event → Prop) (req : Request) (ev : Event) : Prop where
  ids : req.ids ≠ [] → ∃ id ∈ req.ids, SameHex id ev.id
  authors : req.authors ≠ [] → ∃ author ∈ req.authors, SameHex author ev.pubkey
  kinds : req.kinds ≠ [] → ∃ k ∈ req.kinds, k.toInt = ev.kind.toNat
  tags : ∀ key values, req.tags.lookup key = some values →
    ∃ value ∈ values, ev.HasTag (tagKeyName key) value
  sinceTime : ∀ since ∈ req.sinceTime, since.toInt ≤ ev.createdAt
  untilTime : ∀ upto ∈ req.untilTime, (ev.createdAt : ℤ) ≤ upto.toInt
  search : ∀ text ∈ req.search, found text ev

/-! ### The tag conditions that reach the index -/

/-- The key `to_filter` keeps a tag list under its own field for. -/
def TagName.ownKey : TagName → Option String
  | .e => some "#e"
  | .p => some "#p"
  | .d => some "#d"
  | .a => some "#a"
  | _ => none

/-- The list of values that reaches the index for a tag name.  For `e`, `p`, `d`
and `a` it is the one under the key with a `#`; for `q`, `E` and `P` it is the
one that is walked last, with a `#` or without. -/
def Request.keptTags (walk : IterOrder String) (req : Request) (n : TagName) :
    Option (List String) :=
  match n.ownKey with
  | some key => req.tags.lookup key
  | none =>
    ((walk.order req.tags.keys).filter fun key => tagKeyName key = n.text).getLast?.bind
      req.tags.lookup

abbrev Filter.tagList (filter : Filter) (n : TagName) : Option (List String) :=
  (filterToQueryFilter filter).tags n

theorem tagList_addTag (filter : Filter) (key : String) (values : List String) (n : TagName) :
    (filter.addTag key values).tagList n
      = match n.ownKey with
        | some own => if key = own then some values else filter.tagList n
        | none => if tagKeyName key = n.text then some values else filter.tagList n := by
  unfold Filter.tagList filterToQueryFilter Filter.addTag TagName.ownKey TagName.text
  by_cases he : key = "#e"
  · subst he
    cases n <;> rfl
  by_cases hp : key = "#p"
  · subst hp
    cases n <;> rfl
  by_cases hd : key = "#d"
  · subst hd
    cases n <;> rfl
  by_cases ha : key = "#a"
  · subst ha
    cases n <;> rfl
  rw [if_neg he, if_neg hp, if_neg hd, if_neg ha]
  cases n <;> simp only [he, hp, hd, ha, if_false, Map.lookup_insert_ite, eq_comm]

theorem tagList_foldl (tags : Map String (List String)) (filter : Filter) (n : TagName)
    (keys : List String) (hkeys : ∀ key ∈ keys, (tags.lookup key).isSome = true) :
    (keys.foldl (fun filter key =>
        match tags.lookup key with
        | some values => filter.addTag key values
        | none => filter) filter).tagList n
      = ((keys.filter fun key =>
            match n.ownKey with
            | some own => key = own
            | none => tagKeyName key = n.text).getLast?.bind tags.lookup).or (filter.tagList n) := by
  induction keys using List.reverseRecOn with
  | nil => rfl
  | append_singleton keys key ih =>
    obtain ⟨values, hvalues⟩ := Option.isSome_iff_exists.mp
      (hkeys key (mem_append_right _ (mem_singleton_self key)))
    rw [foldl_append, foldl_cons, foldl_nil, hvalues]
    dsimp only
    rw [tagList_addTag, ih fun k hk => hkeys k (mem_append_left _ hk), filter_append]
    rcases n.ownKey with _ | own
    · by_cases hname : tagKeyName key = n.text
      · simp [hname, hvalues]
      · simp [hname]
    · by_cases hown : key = own
      · subst hown
        simp [hvalues]
      · simp [hown]

theorem fields_foldl (tags : Map String (List String)) (keys : List String) : ∀ filter : Filter,
    let filter' := keys.foldl (fun filter key =>
      match tags.lookup key with
      | some values => filter.addTag key values
      | none => filter) filter
    filter'.ids = filter.ids ∧ filter'.authors = filter.authors ∧ filter'.kinds = filter.kinds ∧
      filter'.sinceTime = filter.sinceTime ∧ filter'.untilTime = filter.untilTime ∧
      filter'.limit = filter.limit := by
  induction keys with
  | nil => exact fun filter => ⟨rfl, rfl, rfl, rfl, rfl, rfl⟩
  | cons key rest ih =>
    intro filter
    rw [foldl_cons]
    rcases tags.lookup key with _ | values
    · exact ih filter
    · obtain ⟨hids, hauthors, hkinds, hsince, huntil, hlimit⟩ := ih (filter.addTag key values)
      dsimp only
      rw [hids, hauthors, hkinds, hsince, huntil, hlimit]
      unfold Filter.addTag
      (repeat' split) <;> exact ⟨rfl, rfl, rfl, rfl, rfl, rfl⟩

theorem getLast?_filter_eq {tags : Map String (List String)} {keys : List String}
    (hkeys : ∀ key, key ∈ keys ↔ (tags.lookup key).isSome = true) (own : String) :
    (keys.filter fun key => key = own).getLast?.bind tags.lookup = tags.lookup own := by
  rcases hlast : (keys.filter fun key => key = own).getLast? with _ | key
  · rw [List.getLast?_eq_none_iff, filter_eq_nil_iff] at hlast
    rw [bind_none, eq_comm, ← not_isSome_iff_eq_none, ← hkeys]
    exact fun hmem => hlast own hmem (decide_eq_true rfl)
  · have hmem := mem_of_getLast? hlast
    rw [mem_filter, decide_eq_true_eq] at hmem
    rw [bind_some, hmem.2]

variable {walk : IterOrder String}

/-- **What `to_filter` makes of a request.** -/
theorem toFilter_eq_ok {req : Request} {filter : Filter} (h : req.toFilter walk = .ok filter) :
    hexList eventIdFromHex req.ids = .ok filter.ids ∧
      hexList publicKeyFromHex req.authors = .ok filter.authors ∧
      filter.kinds = (if req.kinds = [] then none else some (req.kinds.map u16OfI32)) ∧
      filter.sinceTime = req.sinceTime.map u64OfI32 ∧
      filter.untilTime = req.untilTime.map u64OfI32 ∧ filter.limit = req.limit.map u32OfI32 ∧
      ∀ n, filter.tagList n = req.keptTags walk n := by
  have hkeys : ∀ key, key ∈ walk.order req.tags.keys ↔ (req.tags.lookup key).isSome = true := by
    intro key
    rw [(walk.perm _).mem_iff, AList.lookup_isSome, AList.mem_keys]
  unfold Request.toFilter at h
  rcases hids : hexList eventIdFromHex req.ids with e | ids <;> rw [hids] at h
  · cases h
  · rcases hauthors : hexList publicKeyFromHex req.authors with e | authors <;> rw [hauthors] at h
    · cases h
    · dsimp only at h
      cases h
      obtain ⟨base, hbase⟩ : ∃ base : Filter, base = ⟨ids, authors,
        if req.kinds = [] then none else some (req.kinds.map u16OfI32),
        req.sinceTime.map u64OfI32, req.untilTime.map u64OfI32, req.limit.map u32OfI32, ∅,
        req.search, none, none, none, none⟩ := ⟨_, rfl⟩
      rw [← hbase]
      obtain ⟨h1, h2, h3, h4, h5, h6⟩ := fields_foldl req.tags (walk.order req.tags.keys) base
      rw [h1, h2, h3, h4, h5, h6]
      refine ⟨by rw [hbase], by rw [hbase], by rw [hbase], by rw [hbase], by rw [hbase],
        by rw [hbase], fun n => ?_⟩
      have hnone : base.tagList n = none := by
        rw [hbase]
        cases n <;> rfl
      rw [tagList_foldl req.tags base n _ fun key hkey => (hkeys key).mp hkey, hnone,
        or_none, Request.keptTags]
      rcases n.ownKey with _ | own
      · rfl
      · exact getLast?_filter_eq hkeys own

/-! ### Conditions that are carried over -/

/-- Every condition of the request reaches the index: each tag condition is
implied by one that is kept, no time is below zero at the upper end, no kind is
truncated to one the request does not list, and there is no search. -/
structure Request.Carried (walk : IterOrder String) (req : Request) : Prop where
  tags : ∀ key values, req.tags.lookup key = some values →
    ∃ n : TagName, n.text = tagKeyName key ∧
      ∃ kept, req.keptTags walk n = some kept ∧ ∀ value ∈ kept, value ∈ values
  kinds : ∀ k ∈ req.kinds, ∃ k' ∈ req.kinds, k'.toInt = k.toInt % 65536
  untilTime : ∀ upto ∈ req.untilTime, 0 ≤ upto.toInt
  search : req.search = none

/-- The request has no answer from the cache: an id or an author is not 32 bytes
in hexadecimal, the limit is zero, a tag list that is kept is empty, or the time
range that is left is empty. -/
def Request.Unanswerable (walk : IterOrder String) (req : Request) : Prop :=
  (∃ id ∈ req.ids, ∀ bytes, Hex.decode id = some bytes → bytes.length ≠ 32) ∨
  (∃ author ∈ req.authors, ∀ bytes, Hex.decode author = some bytes → bytes.length ≠ 32) ∨
  req.limit = some 0 ∨
  (∃ n, req.keptTags walk n = some []) ∨
  ∃ since ∈ req.sinceTime, ∃ upto ∈ req.untilTime, u32OfI32 upto < u32OfI32 since

theorem int32_bounds (x : Int32) : -2147483648 ≤ x.toInt ∧ x.toInt < 2147483648 :=
  ⟨x.le_toInt, x.toInt_lt⟩

theorem u64OfI32_mod (x : Int32) : u64OfI32 x % 4294967296 = u32OfI32 x := by
  have := int32_bounds x
  unfold u64OfI32 u32OfI32
  omega

theorem le_of_u32OfI32_le {since : Int32} {createdAt : ℕ} (h : u32OfI32 since ≤ createdAt) :
    since.toInt ≤ createdAt := by
  have := int32_bounds since
  unfold u32OfI32 at h
  omega

theorem le_of_le_u32OfI32 {upto : Int32} (hupto : 0 ≤ upto.toInt) {createdAt : ℕ}
    (h : createdAt ≤ u32OfI32 upto) : (createdAt : ℤ) ≤ upto.toInt := by
  have := int32_bounds upto
  unfold u32OfI32 at h
  omega

theorem toNat_u16OfI32 (k : Int32) : ((u16OfI32 k).toNat : ℤ) = k.toInt % 65536 := by
  unfold u16OfI32
  rw [UInt16.toNat_ofNat']
  omega

theorem mem_of_mapM {α β ε : Type} {f : α → Except ε β} {xs : List α} :
    ∀ {ys : List β}, xs.mapM f = .ok ys →
    (∀ x ∈ xs, ∃ y ∈ ys, f x = .ok y) ∧ ∀ y ∈ ys, ∃ x ∈ xs, f x = .ok y := by
  induction xs with
  | nil =>
    intro ys h
    cases h
    exact ⟨nofun, nofun⟩
  | cons x rest ih =>
    intro ys h
    rw [mapM_cons] at h
    rcases hx : f x with e | y <;> rw [hx] at h
    · cases h
    · rcases hrest : rest.mapM f with e | ys' <;> rw [hrest] at h
      · cases h
      · cases h
        obtain ⟨hleft, hright⟩ := ih hrest
        refine ⟨List.forall_mem_cons.mpr ⟨⟨y, mem_cons_self, hx⟩, fun x' hx' => ?_⟩,
          List.forall_mem_cons.mpr ⟨⟨x, mem_cons_self, hx⟩, fun y' hy' => ?_⟩⟩
        · obtain ⟨y', hy', heq⟩ := hleft x' hx'
          exact ⟨y', mem_cons_of_mem _ hy', heq⟩
        · obtain ⟨x', hx', heq⟩ := hright y' hy'
          exact ⟨x', mem_cons_of_mem _ hx', heq⟩

theorem hexList_eq_ok {invalid : String} {texts : List String} {ids : Option (List Bytes32)}
    (h : hexList (Bytes32.fromHex invalid) texts = .ok ids) :
    (∀ text ∈ texts, ∃ bytes, Hex.decode text = some bytes ∧ bytes.length = 32) ∧
      (texts = [] → ids = none) ∧
      (texts ≠ [] → ∃ list, ids = some list ∧
        ∀ id ∈ list, ∃ text ∈ texts, Hex.decode text = some id.bytes) := by
  have hone : ∀ {text : String} {id : Bytes32}, Bytes32.fromHex invalid text = .ok id →
      Hex.decode text = some id.bytes := by
    intro text id hid
    unfold Bytes32.fromHex at hid
    split at hid
    · cases hid
    · next bytes hbytes =>
      split at hid
      · cases hid
        exact hbytes
      · cases hid
  unfold hexList at h
  by_cases hnil : texts = []
  · rw [if_pos hnil] at h
    cases h
    subst hnil
    exact ⟨nofun, fun _ => rfl, fun hne => absurd rfl hne⟩
  · rw [if_neg hnil] at h
    rcases hmap : texts.mapM (Bytes32.fromHex invalid) with e | list <;> rw [hmap] at h
    · cases h
    · cases h
      obtain ⟨hleft, hright⟩ := mem_of_mapM hmap
      refine ⟨fun text htext => ?_, fun h => absurd h hnil, fun _ => ⟨list, rfl, fun id hid => ?_⟩⟩
      · obtain ⟨id, -, hid⟩ := hleft text htext
        exact ⟨id.bytes, hone hid, id.size⟩
      · obtain ⟨text, htext, hid⟩ := hright id hid
        exact ⟨text, htext, hone hid⟩

theorem sameHex_of_mem {invalid : String} {texts : List String} {ids : Option (List Bytes32)}
    (h : hexList (Bytes32.fromHex invalid) texts = .ok ids) {text : String}
    (hmem : ∀ list ∈ ids.map (fun list => list.map Bytes32.toHex), text ∈ list)
    (hne : texts ≠ []) : ∃ t ∈ texts, SameHex t text := by
  obtain ⟨-, -, hlist⟩ := hexList_eq_ok h
  obtain ⟨list, rfl, hall⟩ := hlist hne
  obtain ⟨id, hid, rfl⟩ := List.mem_map.mp (hmem _ rfl)
  obtain ⟨t, ht, hdecode⟩ := hall id hid
  exact ⟨t, ht, id.bytes, hdecode, Hex.decode_encode id.bytes⟩

/-- **When every condition is carried over**, the events the index lets through
match the request. -/
theorem Request.matches_of_carried {req : Request} {filter : Filter}
    (hfilter : req.toFilter walk = .ok filter) (h : req.Carried walk)
    (found : String → Event → Prop) {ev : Event}
    (hev : ev.Matches (filterToQueryFilter filter)) : req.Matches found ev := by
  obtain ⟨hids, hauthors, hkinds, hsince, huntil, -, htags⟩ := toFilter_eq_ok hfilter
  obtain ⟨⟨hevids, hevkinds, hevauthors, hevtags⟩, hevsince, hevuntil⟩ := hev
  refine ⟨sameHex_of_mem hids hevids, sameHex_of_mem hauthors hevauthors, fun hne => ?_,
    fun key values hkey => ?_, fun since hs => ?_, fun upto hu => ?_, ?_⟩
  · -- a kind that was truncated is listed by itself
    have hmem : ev.kind ∈ req.kinds.map u16OfI32 := hevkinds _ (by
      show filter.kinds = _
      rw [hkinds, if_neg hne])
    obtain ⟨k, hk, heq⟩ := List.mem_map.mp hmem
    obtain ⟨k', hk', hmod⟩ := h.kinds k hk
    exact ⟨k', hk', by rw [hmod, ← toNat_u16OfI32, heq]⟩
  · obtain ⟨n, hname, kept, hkept, hsub⟩ := h.tags key values hkey
    obtain ⟨value, hvalue, htag⟩ := hevtags n kept ((htags n).trans hkept)
    exact ⟨value, hsub value hvalue, hname ▸ htag⟩
  · refine le_of_u32OfI32_le (hevsince _ ?_)
    show filter.sinceTime.map _ = _
    rw [hsince, Option.mem_def.mp hs, map_some, map_some, u64OfI32_mod]
  · refine le_of_le_u32OfI32 (h.untilTime upto hu) (hevuntil _ ?_)
    show filter.untilTime.map _ = _
    rw [huntil, Option.mem_def.mp hu, map_some, map_some, u64OfI32_mod]
  · rw [h.search]
    exact nofun

/-- **A request without an answer**: it is refused, its limit is zero, or no
event gets through. -/
theorem Request.unanswerable_cases {req : Request} {filter : Filter}
    (hfilter : req.toFilter walk = .ok filter) (h : req.Unanswerable walk) :
    (filterToQueryFilter filter).limit = some 0 ∨
      ∀ ev : Event, ¬ ev.Matches (filterToQueryFilter filter) := by
  obtain ⟨hids, hauthors, -, hsince, huntil, hlimit, htags⟩ := toFilter_eq_ok hfilter
  rcases h with ⟨id, hid, hbad⟩ | ⟨author, hauthor, hbad⟩ | hzero | ⟨n, hkept⟩ |
    ⟨since, hs, upto, hu, hlt⟩
  · obtain ⟨bytes, hbytes, hlen⟩ := (hexList_eq_ok hids).1 id hid
    exact absurd hlen (hbad bytes hbytes)
  · obtain ⟨bytes, hbytes, hlen⟩ := (hexList_eq_ok hauthors).1 author hauthor
    exact absurd hlen (hbad bytes hbytes)
  · left
    show filter.limit = some 0
    rw [hlimit, hzero]
    rfl
  · right
    rintro ev ⟨⟨-, -, -, hevtags⟩, -⟩
    obtain ⟨value, hvalue, -⟩ := hevtags n [] ((htags n).trans hkept)
    cases hvalue
  · right
    rintro ev ⟨-, hevsince, hevuntil⟩
    have hlow := hevsince (u32OfI32 since) (by
      show filter.sinceTime.map _ = _
      rw [hsince, Option.mem_def.mp hs, map_some, map_some, u64OfI32_mod])
    have hhigh := hevuntil (u32OfI32 upto) (by
      show filter.untilTime.map _ = _
      rw [huntil, Option.mem_def.mp hu, map_some, map_some, u64OfI32_mod])
    omega

end Nipworker
