/-
The two forms of a request: the filter sent to relays and the one asked of the cache
(`worker/cache_worker.rs`, `types/network.rs`).

`fb_request_to_json` writes the JSON filter of a `REQ` straight from the flatbuffer of
a request; for the cache the flatbuffer becomes a `Request`, and that a `Filter`.
-/
import Nipworker.Lib.Json
import Nipworker.Types.EventReads

namespace Nipworker

open List

/-! ### The flatbuffer of a request -/

/-- `fb::Request`. -/
structure FbRequest where
  ids : Option (List String)
  authors : Option (List String)
  kinds : Option (List UInt16)
  tags : Option (List StringVec)
  limit : Int32
  sinceTime : Int32
  untilTime : Int32
  search : Option String
  relays : Option (List String)
  cacheFirst : Bool
  noCache : Bool
  maxRelays : UInt16
  cacheOnly : Bool
  meshOnly : Bool

/-- One turn of the loops over the tags: an entry with a key and at least one value. -/
def putTag {V : Type} (value : List String → V) (tags : Map String V) (tag : StringVec) :
    Map String V :=
  match tag.items with
  | some (key :: first :: rest) => tags.insert key (value (first :: rest))
  | _ => tags

/-- `if x != 0 { Some(x) }`. -/
def nonzero (x : Int32) : Option Int32 := if x.toInt ≠ 0 then some x else none

def Request.fromFlatbuffer (fb : FbRequest) : Request where
  ids := fb.ids.getD []
  authors := fb.authors.getD []
  kinds := (fb.kinds.getD []).map fun k => Int32.ofNat k.toNat
  tags := (fb.tags.getD []).foldl (putTag id) ∅
  sinceTime := nonzero fb.sinceTime
  untilTime := nonzero fb.untilTime
  limit := nonzero fb.limit
  search := fb.search

def Json.strings (values : List String) : Json := .array (values.map .string)

def insertWhen (c : Bool) (key : String) (value : Json) (filter : Map String Json) :
    Map String Json := if c then filter.insert key value else filter

/-- An `i32` as a JSON number. -/
def Json.ofInt32 (x : Int32) : Json := .number (toString x.toInt)

def fbRequestBase (fb : FbRequest) : Map String Json :=
  insertWhen (0 < fb.untilTime.toInt) "until" (.ofInt32 fb.untilTime)
    (insertWhen (0 < fb.sinceTime.toInt) "since" (.ofInt32 fb.sinceTime)
      (insertWhen (0 < fb.limit.toInt) "limit" (.ofInt32 fb.limit)
        (insertWhen (fb.search.getD "" ≠ "") "search" (.string (fb.search.getD ""))
          (insertWhen (fb.kinds.getD [] ≠ []) "kinds"
            (.array ((fb.kinds.getD []).map fun k => .number (toString k.toNat)))
            (insertWhen (fb.authors.getD [] ≠ []) "authors" (.strings (fb.authors.getD []))
              (insertWhen (fb.ids.getD [] ≠ []) "ids" (.strings (fb.ids.getD [])) ∅))))))

/-- The members of the JSON object `fb_request_to_json` builds: the key of a tag is taken
as it is. -/
def fbRequestFields (fb : FbRequest) : Map String Json :=
  (fb.tags.getD []).foldl (putTag Json.strings) (fbRequestBase fb)

/-- The filter that a relay is sent. -/
def fbRequestToJson (fb : FbRequest) : Json :=
  .object ((fbRequestFields fb).entries.map fun entry => (entry.1, entry.2))

/-! ### What the filters accept -/

/-- The number a JSON value is, when it is one without a sign. -/
def Json.asNat : Json → Option ℕ
  | .number text => Text.parseDecimal text.toList
  | _ => none

/-- The event has a tag with the name and one of the values first. -/
def SignedEvent.HasTag (event : SignedEvent) (name value : String) : Prop :=
  ∃ rest, name :: value :: rest ∈ event.tags

/-- An array with the string in it. -/
def Json.ListsString (value : Json) (s : String) : Prop :=
  ∃ items, value = .array items ∧ .string s ∈ items

/-- An array with the number in it. -/
def Json.ListsNumber (value : Json) (n : ℕ) : Prop :=
  ∃ items, value = .array items ∧ ∃ item ∈ items, item.asNat = some n

/-- A JSON filter under NIP-01: a condition that is there is met, in the form NIP-01 gives
it.  Other members ask for nothing. -/
structure JsonAccepts (fields : Map String Json) (event : SignedEvent) : Prop where
  ids : ∀ value, fields.lookup "ids" = some value → value.ListsString event.id.toHex
  authors : ∀ value, fields.lookup "authors" = some value → value.ListsString event.pubkey.toHex
  kinds : ∀ value, fields.lookup "kinds" = some value → value.ListsNumber event.kind.toNat
  sinceTime : ∀ value, fields.lookup "since" = some value →
    ∃ n, value.asNat = some n ∧ n ≤ event.createdAt
  untilTime : ∀ value, fields.lookup "until" = some value →
    ∃ n, value.asNat = some n ∧ event.createdAt ≤ n
  tags : ∀ name value, fields.lookup ("#" ++ name) = some value →
    ∃ s, value.ListsString s ∧ event.HasTag name s

/-- The tag conditions of a filter: those under their own fields, and those of the map. -/
def Filter.tagValues (filter : Filter) (name : String) : List (List String) :=
  (filter.tags.lookup name).toList ++
    (if name = "e" then filter.eTags.toList
      else if name = "p" then filter.pTags.toList
      else if name = "d" then filter.dTags.toList
      else if name = "a" then filter.aTags.toList
      else [])

/-- A `Filter` under NIP-01. -/
structure Filter.Accepts (filter : Filter) (event : SignedEvent) : Prop where
  ids : ∀ ids, filter.ids = some ids → event.id ∈ ids
  authors : ∀ authors, filter.authors = some authors → event.pubkey ∈ authors
  kinds : ∀ kinds, filter.kinds = some kinds → event.kind ∈ kinds
  sinceTime : ∀ n, filter.sinceTime = some n → n ≤ event.createdAt
  untilTime : ∀ n, filter.untilTime = some n → event.createdAt ≤ n
  tags : ∀ name, ∀ values ∈ filter.tagValues name, ∃ s ∈ values, event.HasTag name s

/-- The two forms of the request denote the same query: there is a `Filter`, it accepts the
events, with times of 64 bits, that the JSON filter accepts, and their limits agree. -/
def FbRequest.SameQuery (walk : IterOrder String) (fb : FbRequest) : Prop :=
  ∃ filter, (Request.fromFlatbuffer fb).toFilter walk = .ok filter ∧
    (∀ event : SignedEvent, event.createdAt < 2 ^ 64 →
      (JsonAccepts (fbRequestFields fb) event ↔ filter.Accepts event)) ∧
    ((fbRequestFields fb).lookup "limit").map Json.asNat = filter.limit.map some

/-- Every tag condition has a `#` in front of its name. -/
def FbRequest.Prefixed (fb : FbRequest) : Prop :=
  ∀ tag ∈ fb.tags.getD [], ∀ key first rest, tag.items = some (key :: first :: rest) →
    ∃ name, key = "#" ++ name

/-- The texts are 32 bytes in hexadecimal, and each of them is there in lower case. -/
def LowerHex (texts : List String) : Prop :=
  ∀ text ∈ texts, ∃ value : Bytes32, Hex.decode text = some value.bytes ∧ value.toHex ∈ texts

structure FbRequest.Plain (fb : FbRequest) : Prop where
  ids : LowerHex (fb.ids.getD [])
  authors : LowerHex (fb.authors.getD [])
  tags : fb.Prefixed
  limit : 0 ≤ fb.limit.toInt
  sinceTime : 0 ≤ fb.sinceTime.toInt
  untilTime : -1 ≤ fb.untilTime.toInt

/-! ### The members of the JSON filter -/

theorem lookup_insertWhen (c : Bool) (key key' : String) (value : Json) (filter : Map String Json) :
    (insertWhen c key value filter).lookup key' =
      if c = true ∧ key' = key then some value else filter.lookup key' := by
  rw [insertWhen]
  by_cases hc : c = true
  · rw [if_pos hc, Map.lookup_insert_ite]
    simp only [hc, true_and]
  · rw [if_neg hc, if_neg fun h => hc h.1]

theorem lookup_putTag {V : Type} (value : List String → V) (tags : Map String V) (tag : StringVec)
    (key : String) : (putTag value tags tag).lookup key =
      match tag.items with
      | some (key' :: first :: rest) =>
        if key = key' then some (value (first :: rest)) else tags.lookup key
      | _ => tags.lookup key := by
  obtain ⟨items⟩ := tag
  match items with
  | none => rfl
  | some [] => rfl
  | some [_] => rfl
  | some (key' :: first :: rest) => exact Map.lookup_insert_ite _ _ _ _

theorem lookup_putTags {V : Type} (value : List String → V) (tags : List StringVec)
    (base : Map String V) (key : String) : (tags.foldl (putTag value) base).lookup key =
      (((tags.foldl (putTag id) ∅).lookup key).map value).or (base.lookup key) := by
  induction tags using List.reverseRecOn with
  | nil =>
    rw [foldl_nil, foldl_nil, AList.lookup_empty]
    rfl
  | append_singleton tags tag ih =>
    rw [foldl_append, foldl_append, foldl_cons, foldl_nil, foldl_cons,
      foldl_nil, lookup_putTag, lookup_putTag]
    match tag.items with
    | none => exact ih
    | some [] => exact ih
    | some [_] => exact ih
    | some (key' :: first :: rest) =>
      dsimp only
      by_cases hkey : key = key'
      · rw [if_pos hkey, if_pos hkey]
        rfl
      · rw [if_neg hkey, if_neg hkey]
        exact ih

variable {values texts : List String} {walk : IterOrder String} {filter : Filter} {invalid : String}
    {ids : Option (List Bytes32)}

theorem mem_of_lookup_putTags {tags : List StringVec} {key : String}
    (h : (tags.foldl (putTag id) ∅).lookup key = some values) :
    ∃ tag ∈ tags, ∃ first rest, tag.items = some (key :: first :: rest) := by
  induction tags using List.reverseRecOn with
  | nil =>
    rw [foldl_nil, AList.lookup_empty] at h
    exact nomatch h
  | append_singleton tags tag ih =>
    rw [foldl_append, foldl_cons, foldl_nil, lookup_putTag] at h
    have hold : (tags.foldl (putTag id) ∅).lookup key = some values →
        ∃ tag' ∈ tags ++ [tag], ∃ first rest, tag'.items = some (key :: first :: rest) := by
      intro hlookup
      obtain ⟨tag', hmem, hitems⟩ := ih hlookup
      exact ⟨tag', mem_append_left _ hmem, hitems⟩
    match hitems : tag.items with
    | none => rw [hitems] at h; exact hold h
    | some [] => rw [hitems] at h; exact hold h
    | some [_] => rw [hitems] at h; exact hold h
    | some (key' :: first :: rest) =>
      rw [hitems] at h
      dsimp only at h
      by_cases hkey : key = key'
      · exact ⟨tag, mem_append_right _ (mem_singleton_self tag), first, rest, hkey ▸ hitems⟩
      · rw [if_neg hkey] at h
        exact hold h

variable {fb : FbRequest}

/-- The tag conditions of the request, as `from_flatbuffer` reads them. -/
abbrev FbRequest.conditions (fb : FbRequest) : Map String (List String) :=
  (Request.fromFlatbuffer fb).tags

theorem prefixed_ne {r name : String} (h : r.toList.head? ≠ some '#') : r ≠ "#" ++ name := by
  rintro rfl
  rw [String.toList_append] at h
  exact h rfl

theorem hash_append_inj {a b : String} (h : "#" ++ a = "#" ++ b) : a = b := by
  have hlist := congrArg String.toList h
  rw [String.toList_append, String.toList_append] at hlist
  exact String.toList_injective (append_cancel_left hlist)

theorem exists_name (h : fb.Prefixed) {key : String}
    (hkey : fb.conditions.lookup key = some values) : ∃ name, key = "#" ++ name := by
  obtain ⟨tag, hmem, first, rest, hitems⟩ := mem_of_lookup_putTags hkey
  exact h tag hmem key first rest hitems

theorem lookup_fields_own (h : fb.Prefixed) {r : String} (hr : r.toList.head? ≠ some '#') :
    (fbRequestFields fb).lookup r = (fbRequestBase fb).lookup r := by
  rw [fbRequestFields, lookup_putTags]
  match hlookup : fb.conditions.lookup r with
  | none =>
    rfl
  | some values =>
    obtain ⟨name, hname⟩ := exists_name h hlookup
    exact absurd hname (prefixed_ne hr)

theorem lookup_fields_tag (name : String) : (fbRequestFields fb).lookup ("#" ++ name) =
    (fb.conditions.lookup ("#" ++ name)).map Json.strings := by
  have hbase : (fbRequestBase fb).lookup ("#" ++ name) = none := by
    have hne : ∀ r : String, r.toList.head? ≠ some '#' → "#" ++ name ≠ r :=
      fun r hr heq => prefixed_ne hr heq.symm
    rw [fbRequestBase, lookup_insertWhen, if_neg fun h => hne "until" (by decide) h.2,
      lookup_insertWhen, if_neg fun h => hne "since" (by decide) h.2,
      lookup_insertWhen, if_neg fun h => hne "limit" (by decide) h.2,
      lookup_insertWhen, if_neg fun h => hne "search" (by decide) h.2,
      lookup_insertWhen, if_neg fun h => hne "kinds" (by decide) h.2,
      lookup_insertWhen, if_neg fun h => hne "authors" (by decide) h.2,
      lookup_insertWhen, if_neg fun h => hne "ids" (by decide) h.2, AList.lookup_empty]
  rw [fbRequestFields, lookup_putTags, hbase, Option.or_none]
  rfl

theorem lookup_base (fb : FbRequest) :
    (fbRequestBase fb).lookup "ids" =
        (if fb.ids.getD [] ≠ [] then some (.strings (fb.ids.getD [])) else none) ∧
      (fbRequestBase fb).lookup "authors" =
        (if fb.authors.getD [] ≠ [] then some (.strings (fb.authors.getD [])) else none) ∧
      (fbRequestBase fb).lookup "kinds" =
        (if fb.kinds.getD [] ≠ [] then
          some (.array ((fb.kinds.getD []).map fun k => .number (toString k.toNat))) else none) ∧
      (fbRequestBase fb).lookup "since" =
        (if 0 < fb.sinceTime.toInt then some (.ofInt32 fb.sinceTime) else none) ∧
      (fbRequestBase fb).lookup "until" =
        (if 0 < fb.untilTime.toInt then some (.ofInt32 fb.untilTime) else none) ∧
      (fbRequestBase fb).lookup "limit" =
        (if 0 < fb.limit.toInt then some (.ofInt32 fb.limit) else none) := by
  simp [fbRequestBase, lookup_insertWhen]

/-! ### The conditions of the `Filter` -/

def ownKeys : List String := ["#e", "#p", "#d", "#a"]

theorem tags_addTag (filter : Filter) (key name : String) (values : List String) :
    (filter.addTag key values).tags.lookup name =
      if key ∉ ownKeys ∧ tagKeyName key = name then some values else filter.tags.lookup name := by
  rw [Filter.addTag]
  by_cases he : key = "#e"
  · rw [if_pos he, if_neg fun h => h.1 (by rw [he]; decide)]
  by_cases hp : key = "#p"
  · rw [if_neg he, if_pos hp, if_neg fun h => h.1 (by rw [hp]; decide)]
  by_cases hd : key = "#d"
  · rw [if_neg he, if_neg hp, if_pos hd, if_neg fun h => h.1 (by rw [hd]; decide)]
  by_cases ha : key = "#a"
  · rw [if_neg he, if_neg hp, if_neg hd, if_pos ha, if_neg fun h => h.1 (by rw [ha]; decide)]
  · have hown : key ∉ ownKeys := by
      simp only [ownKeys, mem_cons, not_mem_nil, or_false, not_or]
      exact ⟨he, hp, hd, ha⟩
    rw [if_neg he, if_neg hp, if_neg hd, if_neg ha, Map.lookup_insert_ite]
    by_cases hname : name = tagKeyName key
    · rw [if_pos hname, if_pos ⟨hown, hname.symm⟩]
    · rw [if_neg hname, if_neg fun h => hname h.2.symm]

theorem tags_foldl (tags : Map String (List String)) (filter : Filter) (name : String)
    (keys : List String) (hkeys : ∀ key ∈ keys, (tags.lookup key).isSome = true) :
    (keys.foldl (fun filter key =>
        match tags.lookup key with
        | some values => filter.addTag key values
        | none => filter) filter).tags.lookup name =
      ((keys.filter fun key => key ∉ ownKeys ∧ tagKeyName key = name).getLast?.bind
        tags.lookup).or (filter.tags.lookup name) := by
  induction keys using List.reverseRecOn with
  | nil => rfl
  | append_singleton keys key ih =>
    obtain ⟨values, hvalues⟩ := Option.isSome_iff_exists.mp
      (hkeys key (mem_append_right _ (mem_singleton_self key)))
    rw [foldl_append, foldl_cons, foldl_nil, hvalues]
    dsimp only
    rw [tags_addTag, ih fun k hk => hkeys k (mem_append_left _ hk), filter_append]
    by_cases hkey : key ∉ ownKeys ∧ tagKeyName key = name
    · rw [if_pos hkey, filter_cons_of_pos (by simpa using hkey), filter_nil,
        List.getLast?_concat, Option.bind_some, hvalues]
      rfl
    · rw [if_neg hkey, filter_cons_of_neg (by simpa using hkey), filter_nil,
        append_nil]

theorem tagKeyName_hash (name : String) : tagKeyName ("#" ++ name) = name := by
  rw [tagKeyName, String.toList_append]
  show String.ofList name.toList = name
  rw [String.ofList_toList]

/-- **The conditions of a `Filter`**, when each key has its `#`: those of the request. -/
theorem tagValues_eq (h : fb.Prefixed)
    (hfilter : (Request.fromFlatbuffer fb).toFilter walk = .ok filter) (name : String) :
    filter.tagValues name = (fb.conditions.lookup ("#" ++ name)).toList := by
  have hkeys : ∀ key, key ∈ walk.order fb.conditions.keys ↔
      (fb.conditions.lookup key).isSome = true := by
    intro key
    rw [(walk.perm _).mem_iff, AList.lookup_isSome, AList.mem_keys]
  obtain ⟨-, -, -, -, -, -, htagList⟩ := toFilter_eq_ok hfilter
  have hown : ∀ n key, n.ownKey = some key →
      filter.tagList n = fb.conditions.lookup key := by
    intro n key hkey
    rw [htagList n, Request.keptTags, hkey]
  have hmap : filter.tags.lookup name =
      if "#" ++ name ∈ ownKeys then none else fb.conditions.lookup ("#" ++ name) := by
    obtain ⟨base, hbase, hempty⟩ : ∃ base : Filter, filter =
        (walk.order fb.conditions.keys).foldl (fun filter key =>
          match fb.conditions.lookup key with
          | some values => filter.addTag key values
          | none => filter) base ∧ base.tags = ∅ := by
      rw [Request.toFilter] at hfilter
      cases hids : hexList eventIdFromHex (Request.fromFlatbuffer fb).ids with
      | error e =>
        rw [hids] at hfilter
        contradiction
      | ok ids =>
        cases hauthors : hexList publicKeyFromHex (Request.fromFlatbuffer fb).authors with
        | error e =>
          rw [hids, hauthors] at hfilter
          contradiction
        | ok authors =>
          rw [hids, hauthors] at hfilter
          exact ⟨_, (Except.ok.inj hfilter).symm, rfl⟩
    rw [hbase, tags_foldl _ _ _ _ fun key hkey => (hkeys key).mp hkey, hempty, AList.lookup_empty,
      Option.or_none]
    by_cases hmem : "#" ++ name ∈ ownKeys
    · rw [if_pos hmem, List.filter_eq_nil_iff.mpr]
      · rfl
      intro key hkey hsel
      obtain ⟨hno, hname⟩ := of_decide_eq_true hsel
      obtain ⟨values, hvalues⟩ := Option.isSome_iff_exists.mp ((hkeys key).mp hkey)
      obtain ⟨name', rfl⟩ := exists_name h hvalues
      rw [tagKeyName_hash] at hname
      exact hno (hname ▸ hmem)
    · rw [if_neg hmem]
      have hsame : ((walk.order fb.conditions.keys).filter fun key =>
          key ∉ ownKeys ∧ tagKeyName key = name) =
            (walk.order fb.conditions.keys).filter fun key => key = "#" ++ name := by
        refine filter_congr fun key hkey => ?_
        obtain ⟨values, hvalues⟩ := Option.isSome_iff_exists.mp ((hkeys key).mp hkey)
        obtain ⟨name', rfl⟩ := exists_name h hvalues
        rw [tagKeyName_hash, decide_eq_decide]
        constructor
        · rintro ⟨-, rfl⟩
          rfl
        · intro heq
          exact ⟨heq ▸ hmem, hash_append_inj heq⟩
      rw [hsame]
      exact getLast?_filter_eq hkeys _
  rw [Filter.tagValues, hmap]
  by_cases he : name = "e"
  · subst he
    exact congrArg Option.toList (hown .e "#e" rfl)
  by_cases hp : name = "p"
  · subst hp
    exact congrArg Option.toList (hown .p "#p" rfl)
  by_cases hd : name = "d"
  · subst hd
    exact congrArg Option.toList (hown .d "#d" rfl)
  by_cases ha : name = "a"
  · subst ha
    exact congrArg Option.toList (hown .a "#a" rfl)
  · have hmem : "#" ++ name ∉ ownKeys := by
      have hne : ∀ other : String, name ≠ other → "#" ++ name ≠ "#" ++ other :=
        fun other hother heq => hother (hash_append_inj heq)
      simp only [ownKeys, mem_cons, not_mem_nil, or_false, not_or]
      exact ⟨hne "e" he, hne "p" hp, hne "d" hd, hne "a" ha⟩
    rw [if_neg hmem, if_neg he, if_neg hp, if_neg hd, if_neg ha, append_nil]

/-! ### Numbers and texts in both forms -/

theorem asNat_toString (n : ℕ) : (Json.number (toString n)).asNat = some n := by
  rw [Json.asNat]
  show Text.parseDecimal (Nat.repr n).toList = some n
  rw [Nat.repr, String.toList_ofList, Text.parseDecimal_toDigits]

theorem asNat_ofInt32 {x : Int32} (h : 0 ≤ x.toInt) :
    (Json.ofInt32 x).asNat = some x.toInt.toNat := by
  obtain ⟨n, hn⟩ := Int.eq_ofNat_of_zero_le h
  rw [Json.ofInt32, hn]
  exact asNat_toString n

theorem listsString_strings {s : String} : (Json.strings values).ListsString s ↔ s ∈ values := by
  constructor
  · rintro ⟨items, hitems, hmem⟩
    obtain rfl := Json.array.inj hitems
    obtain ⟨s', hs', heq⟩ := List.mem_map.mp hmem
    exact Json.string.inj heq ▸ hs'
  · exact fun hmem => ⟨_, rfl, mem_map_of_mem hmem⟩

theorem listsNumber_kinds {kinds : List UInt16} {k : UInt16} :
    (Json.array (kinds.map fun k => .number (toString k.toNat))).ListsNumber k.toNat ↔
      k ∈ kinds := by
  constructor
  · rintro ⟨items, hitems, item, hmem, hitem⟩
    obtain rfl := Json.array.inj hitems
    obtain ⟨k', hk', rfl⟩ := List.mem_map.mp hmem
    rw [asNat_toString] at hitem
    exact UInt16.toNat_inj.mp (Option.some.inj hitem) ▸ hk'
  · exact fun hmem => ⟨_, rfl, _, mem_map_of_mem hmem, asNat_toString _⟩

theorem u16OfI32_ofNat (k : UInt16) : u16OfI32 (Int32.ofNat k.toNat) = k := by
  have hlt : k.toNat < 65536 := k.toNat_lt
  rw [u16OfI32, Int32.toInt_ofNat_of_lt (by omega)]
  have hmod : ((k.toNat : ℤ) % 65536).toNat = k.toNat := by omega
  rw [hmod, UInt16.ofNat_toNat]

theorem hexList_cases (h : hexList (Bytes32.fromHex invalid) texts = .ok ids) :
    texts = [] ∧ ids = none ∨ texts ≠ [] ∧ ∃ list, ids = some list ∧
      ∀ value : Bytes32, value ∈ list ↔ ∃ text ∈ texts, Hex.decode text = some value.bytes := by
  rw [hexList] at h
  by_cases hnil : texts = []
  · rw [if_pos hnil] at h
    exact .inl ⟨hnil, (Except.ok.inj h).symm⟩
  · rw [if_neg hnil] at h
    match hmap : texts.mapM (Bytes32.fromHex invalid) with
    | .error e =>
      rw [hmap] at h
      exact nomatch h
    | .ok list =>
      rw [hmap] at h
      obtain ⟨hleft, hright⟩ := mem_of_mapM hmap
      refine .inr ⟨hnil, list, (Except.ok.inj h).symm, fun value => ⟨fun hmem => ?_, ?_⟩⟩
      · obtain ⟨text, htext, hvalue⟩ := hright value hmem
        exact ⟨text, htext, fromHex_eq_ok_iff.mp hvalue⟩
      · rintro ⟨text, htext, hdecode⟩
        obtain ⟨value', hmem, hvalue⟩ := hleft text htext
        have heq := hvalue.symm.trans (fromHex_eq_ok_iff.mpr hdecode)
        exact Except.ok.inj heq ▸ hmem

theorem exists_hexList (h : LowerHex texts) :
    ∃ ids, hexList (Bytes32.fromHex invalid) texts = .ok ids := by
  have hall : ∀ text ∈ texts, ∃ value, Bytes32.fromHex invalid text = .ok value := by
    intro text htext
    obtain ⟨value, hvalue, -⟩ := h text htext
    exact ⟨value, fromHex_eq_ok_iff.mpr hvalue⟩
  have hmap : ∃ list, texts.mapM (Bytes32.fromHex invalid) = .ok list := by
    clear h
    induction texts with
    | nil => exact ⟨[], rfl⟩
    | cons text texts ih =>
      obtain ⟨value, hvalue⟩ := hall text mem_cons_self
      obtain ⟨list, hlist⟩ := ih fun t ht => hall t (mem_cons_of_mem _ ht)
      refine ⟨value :: list, ?_⟩
      rw [mapM_cons, hvalue]
      show Except.bind (texts.mapM _) _ = _
      rw [hlist]
      rfl
  obtain ⟨list, hlist⟩ := hmap
  rw [hexList]
  by_cases hnil : texts = []
  · exact ⟨none, if_pos hnil⟩
  · rw [if_neg hnil, hlist]
    exact ⟨some list, rfl⟩

theorem listsId_iff (hids : hexList (Bytes32.fromHex invalid) texts = .ok ids) (value : Bytes32)
    (h : LowerHex texts) :
    (∀ json, (if texts ≠ [] then some (Json.strings texts) else none) = some json →
      json.ListsString value.toHex) ↔ ∀ list, ids = some list → value ∈ list := by
  obtain ⟨rfl, rfl⟩ | ⟨hne, list, rfl, hlist⟩ := hexList_cases hids
  · exact iff_of_true (fun _ h => nomatch h) fun _ h => nomatch h
  · rw [if_pos hne]
    constructor
    · rintro hjson _ ⟨⟩
      have hmem := listsString_strings.mp (hjson _ rfl)
      exact (hlist value).mpr ⟨_, hmem, Hex.decode_encode value.bytes⟩
    · rintro hvalue _ ⟨⟩
      obtain ⟨text, htext, hdecode⟩ := (hlist value).mp (hvalue _ rfl)
      obtain ⟨value', hdecode', hmem⟩ := h text htext
      have hbytes : value' = value := by
        have heq := Option.some.inj (hdecode'.symm.trans hdecode)
        obtain ⟨bytes, hsize⟩ := value
        obtain ⟨bytes', hsize'⟩ := value'
        obtain rfl : bytes' = bytes := heq
        rfl
      exact listsString_strings.mpr (hbytes ▸ hmem)

theorem asNat_eq_nonzero {x : Int32} (h : 0 ≤ x.toInt) {cast : Int32 → ℕ}
    (hcast : cast x = x.toInt.toNat) :
    (if 0 < x.toInt then some (Json.ofInt32 x) else none).map Json.asNat =
      ((nonzero x).map cast).map some := by
  rw [nonzero]
  by_cases hpos : 0 < x.toInt
  · rw [if_pos hpos, if_pos (by omega), Option.map_some, Option.map_some, Option.map_some,
      asNat_ofInt32 h, hcast]
  · rw [if_neg hpos, if_neg (by omega)]
    rfl

theorem u64OfI32_of_nonneg {x : Int32} (h : 0 ≤ x.toInt) : u64OfI32 x = x.toInt.toNat := by
  have hbounds := int32_bounds x
  rw [u64OfI32]
  omega

theorem u32OfI32_of_nonneg {x : Int32} (h : 0 ≤ x.toInt) : u32OfI32 x = x.toInt.toNat := by
  have hbounds := int32_bounds x
  rw [u32OfI32]
  omega

theorem timeBound_iff {json : Option Json} {n : Option ℕ} (h : json.map Json.asNat = n.map some)
    (P : ℕ → Prop) : (∀ value, json = some value → ∃ m, value.asNat = some m ∧ P m) ↔
      ∀ m, n = some m → P m := by
  match json, n with
  | none, none => exact iff_of_true (fun _ h => nomatch h) fun _ h => nomatch h
  | some value, some m =>
    have hvalue : value.asNat = some m := Option.some.inj h
    constructor
    · rintro hall _ ⟨⟩
      obtain ⟨m', hm', hP⟩ := hall value rfl
      exact Option.some.inj (hvalue.symm.trans hm') ▸ hP
    · rintro hall _ ⟨⟩
      exact ⟨m, hvalue, hall m rfl⟩

/-! ### The two forms agree -/

theorem limit_eq (h : fb.Prefixed) (hlimit : 0 ≤ fb.limit.toInt)
    (hfilter : (Request.fromFlatbuffer fb).toFilter walk = .ok filter) :
    ((fbRequestFields fb).lookup "limit").map Json.asNat = filter.limit.map some := by
  obtain ⟨-, -, -, -, -, hflimit, -⟩ := toFilter_eq_ok hfilter
  rw [lookup_fields_own h (by decide), (lookup_base fb).2.2.2.2.2, hflimit]
  exact asNat_eq_nonzero hlimit (u32OfI32_of_nonneg hlimit)

theorem since_iff (h : fb.Prefixed) (hsince : 0 ≤ fb.sinceTime.toInt)
    (hfilter : (Request.fromFlatbuffer fb).toFilter walk = .ok filter) (event : SignedEvent) :
    (∀ value, (fbRequestFields fb).lookup "since" = some value →
      ∃ n, value.asNat = some n ∧ n ≤ event.createdAt) ↔
      ∀ n, filter.sinceTime = some n → n ≤ event.createdAt := by
  obtain ⟨-, -, -, hfsince, -, -, -⟩ := toFilter_eq_ok hfilter
  rw [lookup_fields_own h (by decide), (lookup_base fb).2.2.2.1, hfsince]
  exact timeBound_iff (asNat_eq_nonzero hsince (u64OfI32_of_nonneg hsince)) (· ≤ event.createdAt)

theorem until_iff (h : fb.Prefixed) (huntil : -1 ≤ fb.untilTime.toInt)
    (hfilter : (Request.fromFlatbuffer fb).toFilter walk = .ok filter)
    {event : SignedEvent} (htime : event.createdAt < 2 ^ 64) :
    (∀ value, (fbRequestFields fb).lookup "until" = some value →
      ∃ n, value.asNat = some n ∧ event.createdAt ≤ n) ↔
      ∀ n, filter.untilTime = some n → event.createdAt ≤ n := by
  obtain ⟨-, -, -, -, hfuntil, -, -⟩ := toFilter_eq_ok hfilter
  have hkept : (Request.fromFlatbuffer fb).untilTime = nonzero fb.untilTime := rfl
  rw [lookup_fields_own h (by decide), (lookup_base fb).2.2.2.2.1, hfuntil, hkept]
  by_cases hnonneg : 0 ≤ fb.untilTime.toInt
  · exact timeBound_iff (asNat_eq_nonzero hnonneg (u64OfI32_of_nonneg hnonneg)) (event.createdAt ≤ ·)
  · -- minus one is the last time there is
    have hminus : fb.untilTime.toInt = -1 := by omega
    have hlast : u64OfI32 fb.untilTime = 18446744073709551615 := by
      rw [u64OfI32, hminus]
      rfl
    rw [if_neg (by omega), nonzero, if_pos (by omega), Option.map_some, hlast]
    refine iff_of_true (fun _ h => nomatch h) ?_
    rintro _ ⟨⟩
    omega

theorem kinds_iff (h : fb.Prefixed)
    (hfilter : (Request.fromFlatbuffer fb).toFilter walk = .ok filter) (event : SignedEvent) :
    (∀ value, (fbRequestFields fb).lookup "kinds" = some value →
      value.ListsNumber event.kind.toNat) ↔
      ∀ kinds, filter.kinds = some kinds → event.kind ∈ kinds := by
  obtain ⟨-, -, hfkinds, -, -, -, -⟩ := toFilter_eq_ok hfilter
  have hkinds : (Request.fromFlatbuffer fb).kinds.map u16OfI32 = fb.kinds.getD [] := by
    show ((fb.kinds.getD []).map fun k => Int32.ofNat k.toNat).map u16OfI32 = _
    rw [map_map]
    exact (map_congr_left fun k _ => u16OfI32_ofNat k).trans (map_id' _)
  have hnil : (Request.fromFlatbuffer fb).kinds = [] ↔ fb.kinds.getD [] = [] := map_eq_nil_iff
  rw [lookup_fields_own h (by decide), (lookup_base fb).2.2.1, hfkinds, hkinds]
  by_cases hempty : fb.kinds.getD [] = []
  · rw [if_neg (not_not.mpr hempty), if_pos (hnil.mpr hempty)]
    exact iff_of_true (fun _ h => nomatch h) fun _ h => nomatch h
  · rw [if_pos hempty, if_neg fun hno => hempty (hnil.mp hno)]
    constructor
    · rintro hjson _ ⟨⟩
      exact listsNumber_kinds.mp (hjson _ rfl)
    · rintro hfilter _ ⟨⟩
      exact listsNumber_kinds.mpr (hfilter _ rfl)

theorem tags_iff (h : fb.Prefixed)
    (hfilter : (Request.fromFlatbuffer fb).toFilter walk = .ok filter) (event : SignedEvent) :
    (∀ name value, (fbRequestFields fb).lookup ("#" ++ name) = some value →
      ∃ s, value.ListsString s ∧ event.HasTag name s) ↔
      ∀ name, ∀ values ∈ filter.tagValues name, ∃ s ∈ values, event.HasTag name s := by
  refine forall_congr' fun name => ?_
  rw [lookup_fields_tag, tagValues_eq h hfilter]
  match fb.conditions.lookup ("#" ++ name) with
  | none => exact iff_of_true (fun _ h => nomatch h) fun _ h => absurd h not_mem_nil
  | some values =>
    constructor
    · intro hjson values' hvalues
      obtain rfl := List.mem_singleton.mp hvalues
      obtain ⟨s, hs, htag⟩ := hjson _ rfl
      exact ⟨s, listsString_strings.mp hs, htag⟩
    · rintro hvalues _ ⟨⟩
      obtain ⟨s, hs, htag⟩ := hvalues values (mem_singleton_self values)
      exact ⟨s, listsString_strings.mpr hs, htag⟩

/-- **The two forms denote the same query** when the request is a plain one. -/
theorem sameQuery_of_plain (walk : IterOrder String) (h : fb.Plain) : fb.SameQuery walk := by
  obtain ⟨ids, hids⟩ : ∃ ids, hexList eventIdFromHex (Request.fromFlatbuffer fb).ids = .ok ids :=
    exists_hexList h.ids
  obtain ⟨authors, hauthors⟩ : ∃ authors,
      hexList publicKeyFromHex (Request.fromFlatbuffer fb).authors = .ok authors :=
    exists_hexList h.authors
  obtain ⟨filter, hfilter⟩ : ∃ filter, (Request.fromFlatbuffer fb).toFilter walk = .ok filter := by
    rw [Request.toFilter, hids, hauthors]
    exact ⟨_, rfl⟩
  refine ⟨filter, hfilter, fun event htime => ?_, limit_eq h.tags h.limit hfilter⟩
  obtain ⟨hfids, hfauthors, -⟩ := toFilter_eq_ok hfilter
  have hidsIff := listsId_iff hfids event.id h.ids
  have hauthorsIff := listsId_iff hfauthors event.pubkey h.authors
  have hlookupIds := (lookup_fields_own h.tags (by decide : "ids".toList.head? ≠ some '#')).trans
    (lookup_base fb).1
  have hlookupAuthors := (lookup_fields_own h.tags
    (by decide : "authors".toList.head? ≠ some '#')).trans (lookup_base fb).2.1
  have hid : (∀ value, (fbRequestFields fb).lookup "ids" = some value →
      value.ListsString event.id.toHex) ↔ ∀ ids, filter.ids = some ids → event.id ∈ ids := by
    rw [hlookupIds]
    exact hidsIff
  have hauthor : (∀ value, (fbRequestFields fb).lookup "authors" = some value →
      value.ListsString event.pubkey.toHex) ↔
        ∀ authors, filter.authors = some authors → event.pubkey ∈ authors := by
    rw [hlookupAuthors]
    exact hauthorsIff
  constructor
  · intro hjson
    exact ⟨hid.mp hjson.ids, hauthor.mp hjson.authors,
      (kinds_iff h.tags hfilter event).mp hjson.kinds,
      (since_iff h.tags h.sinceTime hfilter event).mp hjson.sinceTime,
      (until_iff h.tags h.untilTime hfilter htime).mp hjson.untilTime,
      (tags_iff h.tags hfilter event).mp hjson.tags⟩
  · intro haccepts
    exact ⟨hid.mpr haccepts.ids, hauthor.mpr haccepts.authors,
      (kinds_iff h.tags hfilter event).mpr haccepts.kinds,
      (since_iff h.tags h.sinceTime hfilter event).mpr haccepts.sinceTime,
      (until_iff h.tags h.untilTime hfilter htime).mpr haccepts.untilTime,
      (tags_iff h.tags hfilter event).mpr haccepts.tags⟩

/-! ### They agree on no other request -/

theorem lowerHex_of_accepts (hids : hexList (Bytes32.fromHex invalid) texts = .ok ids)
    (h : ∀ value, (∀ list, ids = some list → value ∈ list) →
      ∀ json, (if texts ≠ [] then some (Json.strings texts) else none) = some json →
        json.ListsString value.toHex) : LowerHex texts := by
  intro text htext
  obtain ⟨rfl, -⟩ | ⟨hne, list, rfl, hlist⟩ := hexList_cases hids
  · exact absurd htext not_mem_nil
  · obtain ⟨bytes, hdecode, hsize⟩ := (hexList_eq_ok hids).1 text htext
    have hmem : (⟨bytes, hsize⟩ : Bytes32) ∈ list := (hlist _).mpr ⟨text, htext, hdecode⟩
    refine ⟨⟨bytes, hsize⟩, hdecode, ?_⟩
    refine listsString_strings.mp (h _ ?_ _ (if_pos hne))
    rintro _ ⟨⟩
    exact hmem

/-- **They agree on no other** whose tag conditions have their `#`, when there is an event
that the JSON filter accepts. -/
theorem plain_of_sameQuery (h : fb.Prefixed) (hsame : fb.SameQuery walk)
    {event : SignedEvent} (htime : event.createdAt < 2 ^ 64)
    (hevent : JsonAccepts (fbRequestFields fb) event) : fb.Plain := by
  obtain ⟨filter, hfilter, haccepts, hlimits⟩ := hsame
  obtain ⟨hfids, hfauthors, -, hfsince, hfuntil, hflimit, -⟩ := toFilter_eq_ok hfilter
  obtain ⟨hids, hauthors, -, hsince, huntil, hlimit⟩ := lookup_base fb
  have hin : filter.Accepts event := (haccepts event htime).mp hevent
  have hown : ∀ r : String, r.toList.head? ≠ some '#' →
      (fbRequestFields fb).lookup r = (fbRequestBase fb).lookup r := fun r => lookup_fields_own h
  rw [← hown _ (by decide)] at hids hauthors hsince huntil hlimit
  refine ⟨?_, ?_, h, ?_, ?_, ?_⟩
  · refine lowerHex_of_accepts hfids fun value hvalue json hjson => ?_
    rw [← hids] at hjson
    have hother : filter.Accepts { event with id := value } := { hin with ids := hvalue }
    exact ((haccepts { event with id := value } htime).mpr hother).ids json hjson
  · refine lowerHex_of_accepts hfauthors fun value hvalue json hjson => ?_
    rw [← hauthors] at hjson
    have hother : filter.Accepts { event with pubkey := value } := { hin with authors := hvalue }
    exact ((haccepts { event with pubkey := value } htime).mpr hother).authors json hjson
  · by_contra hneg
    have hkept : (Request.fromFlatbuffer fb).limit = some fb.limit := if_pos (by omega)
    rw [hlimit, if_neg (by omega), hflimit, hkept] at hlimits
    exact nomatch hlimits
  · by_contra hneg
    -- the lower bound of the filter is too late for every event the upper bound allows
    have hkept : (Request.fromFlatbuffer fb).sinceTime = some fb.sinceTime := if_pos (by omega)
    have hbound : filter.sinceTime = some (u64OfI32 fb.sinceTime) := by
      rw [hfsince, hkept]
      rfl
    have hlate := hin.sinceTime _ hbound
    have hsinceBounds := int32_bounds fb.sinceTime
    have huntilBounds := int32_bounds fb.untilTime
    rw [u64OfI32] at hlate
    have hnone : (fbRequestFields fb).lookup "until" = none := by
      rw [huntil]
      by_cases hpos : 0 < fb.untilTime.toInt
      · rw [if_pos hpos] at huntil
        obtain ⟨n, hn, hle⟩ := hevent.untilTime _ huntil
        rw [asNat_ofInt32 (by omega)] at hn
        have hn' := Option.some.inj hn
        omega
      · rw [if_neg hpos]
    have hother : JsonAccepts (fbRequestFields fb) { event with createdAt := 0 } :=
      { hevent with
        sinceTime := by
          rw [hsince, if_neg (by omega)]
          exact fun _ hno => nomatch hno
        untilTime := by
          rw [hnone]
          exact fun _ hno => nomatch hno }
    have hzero := ((haccepts { event with createdAt := 0 } (Nat.two_pow_pos 64)).mp
      hother).sinceTime _ hbound
    have hzero' : u64OfI32 fb.sinceTime ≤ 0 := hzero
    rw [u64OfI32] at hzero'
    omega
  · by_contra hneg
    -- the last time there is, is past the upper bound of the filter alone
    have hkept : (Request.fromFlatbuffer fb).untilTime = some fb.untilTime := if_pos (by omega)
    have hbound : filter.untilTime = some (u64OfI32 fb.untilTime) := by
      rw [hfuntil, hkept]
      rfl
    have huntilBounds := int32_bounds fb.untilTime
    have hother : JsonAccepts (fbRequestFields fb)
        { event with createdAt := 18446744073709551615 } :=
      { hevent with
        sinceTime := by
          intro value hvalue
          obtain ⟨n, hn, hle⟩ := hevent.sinceTime value hvalue
          refine ⟨n, hn, ?_⟩
          show n ≤ 18446744073709551615
          omega
        untilTime := by
          rw [huntil, if_neg (by omega)]
          exact fun _ hno => nomatch hno }
    have hlast := ((haccepts { event with createdAt := 18446744073709551615 } (by
      show (18446744073709551615 : ℕ) < 2 ^ 64
      norm_num)).mp hother).untilTime _ hbound
    have hlast' : 18446744073709551615 ≤ u64OfI32 fb.untilTime := hlast
    rw [u64OfI32] at hlast'
    omega

/-- **The two forms of a request** denote the same query when it is a plain one, and only
then, unless a tag condition has no `#` or there is no event to tell them apart. -/
theorem sameQuery_plain (fb : FbRequest) (walk : IterOrder String) :
    (fb.Plain → fb.SameQuery walk) ∧
      (fb.Prefixed → (∃ event : SignedEvent, event.createdAt < 2 ^ 64 ∧
        JsonAccepts (fbRequestFields fb) event) → (fb.SameQuery walk ↔ fb.Plain)) := by
  refine ⟨sameQuery_of_plain walk, ?_⟩
  rintro hprefixed ⟨event, htime, hevent⟩
  exact ⟨fun hsame => plain_of_sameQuery hprefixed hsame htime hevent, sameQuery_of_plain walk⟩

def anyRequest : FbRequest where
  ids := none
  authors := none
  kinds := none
  tags := none
  limit := 0
  sinceTime := 0
  untilTime := 0
  search := none
  relays := none
  cacheFirst := false
  noCache := false
  maxRelays := 0
  cacheOnly := false
  meshOnly := false

def bareEvent : SignedEvent :=
  { id := zeroId, pubkey := zeroId, createdAt := 0, kind := 1, tags := [], content := "", sig := "" }

/-- A plain request: ten notes with a tag `t`. -/
def hashRequest : FbRequest :=
  { anyRequest with
    kinds := some [1]
    tags := some [⟨some ["#t", "x"]⟩]
    limit := 10 }

theorem plain_hashRequest : hashRequest.Plain where
  ids := fun _ h => absurd h not_mem_nil
  authors := fun _ h => absurd h not_mem_nil
  tags := by
    intro tag htag key first rest hitems
    obtain rfl := List.mem_singleton.mp htag
    injection Option.some.inj hitems with hkey _
    exact ⟨"t", hkey.symm⟩
  limit := by decide
  sinceTime := by decide
  untilTime := by decide

/-- The two forms of it denote the same query, and so do they under the other clause. -/
theorem sameQuery_hashRequest :
    hashRequest.SameQuery (.entries String) ∧
      (anyRequest.SameQuery (.entries String) ↔ anyRequest.Plain) := by
  refine ⟨(sameQuery_plain hashRequest _).1 plain_hashRequest,
    (sameQuery_plain anyRequest _).2 (fun _ h => absurd h not_mem_nil)
      ⟨bareEvent, Nat.two_pow_pos 64, ?_⟩⟩
  have hnone : ∀ key, (fbRequestFields anyRequest).lookup key = none :=
    fun key => AList.lookup_empty key
  refine ⟨?_, ?_, ?_, ?_, ?_, fun name => ?_⟩ <;> rw [hnone] <;> exact fun _ h => nomatch h

/-- The request, with one tag condition that has no `#`. -/
def unprefixedRequest : FbRequest := { anyRequest with tags := some [⟨some ["t", "x"]⟩] }

theorem conditions_unprefixedRequest (key : String) :
    unprefixedRequest.conditions.lookup key = if key = "t" then some ["x"] else none := by
  show ((putTag id ∅ ⟨some ["t", "x"]⟩ : Map String (List String))).lookup key = _
  rw [lookup_putTag]
  dsimp only
  rw [AList.lookup_empty]
  rfl

theorem jsonAccepts_unprefixedRequest (event : SignedEvent) :
    JsonAccepts (fbRequestFields unprefixedRequest) event := by
  have hnone : ∀ r : String, r ≠ "t" → (fbRequestFields unprefixedRequest).lookup r = none := by
    intro r hr
    show (putTag Json.strings ∅ ⟨some ["t", "x"]⟩).lookup r = none
    rw [lookup_putTag]
    dsimp only
    rw [if_neg hr, AList.lookup_empty]
  refine ⟨?_, ?_, ?_, ?_, ?_, fun name => ?_⟩
  · rw [hnone _ (by decide)]
    exact fun _ h => nomatch h
  · rw [hnone _ (by decide)]
    exact fun _ h => nomatch h
  · rw [hnone _ (by decide)]
    exact fun _ h => nomatch h
  · rw [hnone _ (by decide)]
    exact fun _ h => nomatch h
  · rw [hnone _ (by decide)]
    exact fun _ h => nomatch h
  · rw [hnone _ fun heq => prefixed_ne (by decide) heq.symm]
    exact fun _ h => nomatch h

/-- **A tag condition without a `#`**: the relays are asked for every event, the cache for
those with the tag. -/
theorem unprefixed_differs : ¬ ∃ walk, unprefixedRequest.SameQuery walk := by
  rintro ⟨walk, filter, hfilter, haccepts, -⟩
  have hkeys : walk.order unprefixedRequest.conditions.keys = ["t"] :=
    List.perm_singleton.mp (walk.perm _)
  have htags : filter.tags.lookup "t" = some ["x"] := by
    have hids : hexList eventIdFromHex (Request.fromFlatbuffer unprefixedRequest).ids = .ok none :=
      rfl
    have hauthors : hexList publicKeyFromHex (Request.fromFlatbuffer unprefixedRequest).authors =
        .ok none := rfl
    rw [Request.toFilter, hids, hauthors] at hfilter
    dsimp only at hfilter
    rw [hkeys, foldl_cons, foldl_nil, conditions_unprefixedRequest, if_pos rfl] at hfilter
    rw [← Except.ok.inj hfilter]
    rfl
  have hbare := (haccepts bareEvent (Nat.two_pow_pos 64)).mp (jsonAccepts_unprefixedRequest bareEvent)
  obtain ⟨s, -, rest, hmem⟩ := hbare.tags "t" ["x"] (by
    rw [Filter.tagValues, htags]
    exact mem_append_left _ (mem_singleton_self _))
  exact absurd hmem not_mem_nil

end Nipworker
