/-
The deduplication of requests (`crates/core/src/parser_utils/request_deduplication.rs`).

The requests of an event are put under a text that is made of their filter, and requests under
one text become one, with the relays of all of them.  The text has the lists in order and the
fields with a label, but not `no_cache`, `max_relays` and `cache_only`.
-/
import Nipworker.Storage.Request

namespace Nipworker

open List

/-- `Request`, with the fields that say where and how it is sent. -/
structure RoutedRequest extends Request where
  relays : List String
  cacheFirst : Bool
  noCache : Bool
  maxRelays : ℕ
  cacheOnly : Bool
  meshOnly : Bool

namespace RequestDeduplicator

/-! ### The key of a request -/

def intText (n : ℤ) : List Char :=
  if n < 0 then '-' :: Nat.toDigits 10 n.natAbs else Nat.toDigits 10 n.natAbs

def boolText (b : Bool) : List Char := if b then "true".toList else "false".toList

/-- `sort`, on strings. -/
def sortTexts (texts : List String) : List String := texts.insertionSort (· ≤ ·)

/-- `sort`, on kinds. -/
def sortKinds (kinds : List Int32) : List ℤ := (kinds.map Int32.toInt).insertionSort (· ≤ ·)

/-- `join(",")`. -/
def joinTexts (texts : List String) : List Char := [','].intercalate (texts.map String.toList)

inductive KeyPart
  | ids | authors | kinds | tags | sinceTime | untilTime | limit | search | cacheFirst | meshOnly
  deriving DecidableEq, Repr

def KeyPart.all : List KeyPart :=
  [.ids, .authors, .kinds, .tags, .sinceTime, .untilTime, .limit, .search, .cacheFirst, .meshOnly]

def KeyPart.label : KeyPart → List Char
  | .ids => "ids".toList
  | .authors => "authors".toList
  | .kinds => "kinds".toList
  | .tags => "tags".toList
  | .sinceTime => "since".toList
  | .untilTime => "until".toList
  | .limit => "limit".toList
  | .search => "search".toList
  | .cacheFirst => "cache_first".toList
  | .meshOnly => "mesh_only".toList

def tagText (tags : Map String (List String)) (key : String) : List Char :=
  key.toList ++ ':' :: joinTexts (sortTexts ((tags.lookup key).getD []))

def listText {α : Type} (l : List α) (text : List Char) : Option (List Char) :=
  if l.isEmpty then none else some text

/-- What stands behind the label of a part, if the request has it. -/
def keyText (request : RoutedRequest) : KeyPart → Option (List Char)
  | .ids => listText request.ids (joinTexts (sortTexts request.ids))
  | .authors => listText request.authors (joinTexts (sortTexts request.authors))
  | .kinds => listText request.kinds ([','].intercalate ((sortKinds request.kinds).map intText))
  | .tags => listText request.tags.keys
      ([';'].intercalate ((sortTexts request.tags.keys).map (tagText request.tags)))
  | .sinceTime => request.sinceTime.map fun n => intText n.toInt
  | .untilTime => request.untilTime.map fun n => intText n.toInt
  | .limit => request.limit.map fun n => intText n.toInt
  | .search => request.search.map String.toList
  | .cacheFirst => some (boolText request.cacheFirst)
  | .meshOnly => some (boolText request.meshOnly)

def keyParts (request : RoutedRequest) : List (KeyPart × List Char) :=
  KeyPart.all.filterMap fun part => (keyText request part).map fun text => (part, text)

def labelled (part : KeyPart × List Char) : List Char := part.1.label ++ ':' :: part.2

/-- The text under which a request is kept. -/
def createFilterKey (request : RoutedRequest) : String :=
  String.ofList (['|'].intercalate ((keyParts request).map labelled))

/-! ### Merging -/

def relaySet (relays : List String) : List String := sortTexts relays.dedup

/-- The loop of `deduplicate_requests`. -/
def addRequest (requestMap : Map String RoutedRequest) (request : RoutedRequest) :
    Map String RoutedRequest :=
  match requestMap.lookup (createFilterKey request) with
  | some existing => requestMap.insert (createFilterKey request)
      { existing with relays := relaySet (existing.relays ++ request.relays) }
  | none => requestMap.insert (createFilterKey request)
      { request with relays := relaySet request.relays }

def requestMap (requests : List RoutedRequest) : Map String RoutedRequest :=
  requests.foldl addRequest ∅

/-- `deduplicate_requests`; the values of the table come in the order of its walk. -/
def deduplicateRequests (walk : IterOrder String) (requests : List RoutedRequest) :
    List RoutedRequest :=
  (walk.order (requestMap requests).keys).filterMap fun key => (requestMap requests).lookup key

/-! ### What requests have in common -/

/-- The same filter, up to the order of its lists, with the two flags that a key has. -/
structure SameFilter (q q' : RoutedRequest) : Prop where
  ids : q.ids.Perm q'.ids
  authors : q.authors.Perm q'.authors
  kinds : q.kinds.Perm q'.kinds
  tags : ∀ key, Option.Rel List.Perm (q.tags.lookup key) (q'.tags.lookup key)
  sinceTime : q.sinceTime = q'.sinceTime
  untilTime : q.untilTime = q'.untilTime
  limit : q.limit = q'.limit
  search : q.search = q'.search
  cacheFirst : q.cacheFirst = q'.cacheFirst
  meshOnly : q.meshOnly = q'.meshOnly

/-- Requests that differ in nothing but their relays and the order of their lists. -/
structure SameButRelays (q q' : RoutedRequest) : Prop where
  filter : SameFilter q q'
  noCache : q.noCache = q'.noCache
  maxRelays : q.maxRelays = q'.maxRelays
  cacheOnly : q.cacheOnly = q'.cacheOnly

/-- What a relay is asked: the events that match, the limit and the flags. -/
structure Asked where
  events : Set Event
  limit : Option Int32
  cacheFirst : Bool
  noCache : Bool
  maxRelays : ℕ
  cacheOnly : Bool
  meshOnly : Bool

/-- What a request asks for; `found` says which events a search finds. -/
def asked (found : String → Event → Prop) (q : RoutedRequest) : Asked where
  events := {ev | q.toRequest.Matches found ev}
  limit := q.limit
  cacheFirst := q.cacheFirst
  noCache := q.noCache
  maxRelays := q.maxRelays
  cacheOnly := q.cacheOnly
  meshOnly := q.meshOnly

def askedOf (found : String → Event → Prop) (requests : List RoutedRequest) (relay : String) :
    Set Asked :=
  {a | ∃ q ∈ requests, relay ∈ q.relays ∧ a = asked found q}

/-- Of the two requests one is left. -/
def Merged (walk : IterOrder String) (q q' : RoutedRequest) : Prop :=
  (deduplicateRequests walk [q, q']).length = 1

/-- Every relay is asked for the same, and only requests that differ in nothing but their relays
are merged. -/
structure Preserves (walk : IterOrder String) (found : String → Event → Prop)
    (requests : List RoutedRequest) : Prop where
  asked : ∀ relay, askedOf found (deduplicateRequests walk requests) relay
    = askedOf found requests relay
  merged : ∀ q ∈ requests, ∀ q' ∈ requests, Merged walk q q' → SameButRelays q q'

/-! ### The table -/

variable {requests : List RoutedRequest} {walk : IterOrder String}
  {found : String → Event → Prop} {q q' : RoutedRequest}

theorem mem_sortTexts {texts : List String} {text : String} :
    text ∈ sortTexts texts ↔ text ∈ texts :=
  mem_insertionSort _

theorem mem_relaySet {relays : List String} {relay : String} :
    relay ∈ relaySet relays ↔ relay ∈ relays := by
  rw [relaySet, mem_sortTexts, mem_dedup]

/-- A table with the requests under their keys, and the relays of all requests under one key. -/
structure Collected (requests : List RoutedRequest) (table : Map String RoutedRequest) : Prop where
  keys : ∀ key, key ∈ table ↔ ∃ q ∈ requests, createFilterKey q = key
  entry : ∀ {key entry}, table.lookup key = some entry → ∃ q ∈ requests,
    createFilterKey q = key ∧ entry = { q with relays := entry.relays }
  relays : ∀ {key entry}, table.lookup key = some entry → ∀ relay,
    relay ∈ entry.relays ↔ ∃ q ∈ requests, createFilterKey q = key ∧ relay ∈ q.relays

theorem exists_mem_concat {p : RoutedRequest → Prop} :
    (∃ q' ∈ requests ++ [q], p q') ↔ (∃ q' ∈ requests, p q') ∨ p q := by
  simp only [mem_append, mem_singleton, or_and_right, exists_or, exists_eq_left]

theorem Collected.insert {table : Map String RoutedRequest} (h : Collected requests table)
    {entry : RoutedRequest}
    (hentry : ∃ q' ∈ requests ++ [q], createFilterKey q' = createFilterKey q
      ∧ entry = { q' with relays := entry.relays })
    (hrelays : ∀ relay, relay ∈ entry.relays ↔
      (∃ q' ∈ requests, createFilterKey q' = createFilterKey q ∧ relay ∈ q'.relays)
        ∨ relay ∈ q.relays) :
    Collected (requests ++ [q]) (table.insert (createFilterKey q) entry) where
  keys key := by
    rw [AList.mem_insert, h.keys, exists_mem_concat, or_comm, eq_comm]
  entry := by
    intro key entry' hlookup
    obtain ⟨rfl, rfl⟩ | ⟨-, hlookup⟩ := Map.lookup_insert_eq_some.mp hlookup
    · exact hentry
    · obtain ⟨q', hq', hrest⟩ := h.entry hlookup
      exact ⟨q', mem_append_left _ hq', hrest⟩
  relays := by
    intro key entry' hlookup relay
    obtain ⟨hkey, rfl⟩ | ⟨hkey, hlookup⟩ := Map.lookup_insert_eq_some.mp hlookup
    · rw [hrelays, exists_mem_concat, hkey]
      simp only [true_and]
    · rw [h.relays hlookup, exists_mem_concat]
      exact ⟨.inl, fun hmem => hmem.resolve_right fun hlast => hkey hlast.1.symm⟩

theorem Collected.addRequest {table : Map String RoutedRequest} (h : Collected requests table)
    (q : RoutedRequest) : Collected (requests ++ [q]) (addRequest table q) := by
  rw [RequestDeduplicator.addRequest]
  cases hlookup : table.lookup (createFilterKey q) with
  | some existing =>
    obtain ⟨q', hq', hkey, hexisting⟩ := h.entry hlookup
    refine h.insert ⟨q', mem_append_left _ hq', hkey, ?_⟩ fun relay => ?_
    · dsimp only
      rw [hexisting]
    · dsimp only
      rw [mem_relaySet, mem_append, h.relays hlookup]
  | none =>
    have hnew : createFilterKey q ∉ table := AList.lookup_eq_none.mp hlookup
    refine h.insert ⟨q, mem_append_right _ mem_cons_self, rfl, rfl⟩ fun relay => ?_
    dsimp only
    rw [mem_relaySet]
    refine ⟨.inr, fun hmem => hmem.resolve_left ?_⟩
    rintro ⟨q', hq', hkey, -⟩
    exact hnew ((h.keys _).mpr ⟨q', hq', hkey⟩)

/-- **The table** behind the loop. -/
theorem collected_requestMap (requests : List RoutedRequest) :
    Collected requests (requestMap requests) := by
  induction requests using List.reverseRecOn with
  | nil =>
    refine ⟨fun key => iff_of_false (AList.notMem_empty key) ?_, ?_, ?_⟩
    · rintro ⟨q, hq, -⟩
      exact not_mem_nil hq
    · intro key entry hlookup
      cases hlookup
    · intro key entry hlookup
      cases hlookup
  | append_singleton requests q ih =>
    rw [requestMap, foldl_append]
    exact ih.addRequest q

theorem mem_deduplicateRequests {entry : RoutedRequest} :
    entry ∈ deduplicateRequests walk requests
      ↔ ∃ key, (requestMap requests).lookup key = some entry := by
  rw [deduplicateRequests, mem_filterMap]
  constructor
  · rintro ⟨key, -, hlookup⟩
    exact ⟨key, hlookup⟩
  · rintro ⟨key, hlookup⟩
    refine ⟨key, (walk.perm _).mem_iff.mpr ?_, hlookup⟩
    exact AList.mem_keys.mp (AList.lookup_isSome.mp (by rw [hlookup]; rfl))

theorem length_deduplicateRequests :
    (deduplicateRequests walk requests).length = (requestMap requests).keys.length := by
  rw [deduplicateRequests, ← (walk.perm _).length_eq, filterMap_length_eq_length]
  intro key hkey
  exact AList.lookup_isSome.mpr (AList.mem_keys.mpr ((walk.perm _).mem_iff.mp hkey))

/-- **Two requests are merged** when they have the same key. -/
theorem merged_iff : Merged walk q q' ↔ createFilterKey q = createFilterKey q' := by
  have hkeys : ∀ key, key ∈ (requestMap [q, q']).keys
      ↔ createFilterKey q = key ∨ createFilterKey q' = key := by
    intro key
    rw [← AList.mem_keys, (collected_requestMap [q, q']).keys]
    simp
  rw [Merged, length_deduplicateRequests]
  constructor
  · intro hone
    obtain ⟨key, hkey⟩ := List.length_eq_one_iff.mp hone
    rw [hkey] at hkeys
    rw [List.mem_singleton.mp ((hkeys _).mpr (.inl rfl)),
      List.mem_singleton.mp ((hkeys _).mpr (.inr rfl))]
  · intro hsame
    rw [hsame] at hkeys
    have hperm : (requestMap [q, q']).keys.Perm [createFilterKey q'] := by
      refine (perm_ext_iff_of_nodup (AList.keys_nodup _) (nodup_singleton _)).mpr ?_
      intro key
      rw [hkeys, or_self, mem_singleton, eq_comm]
    exact hperm.length_eq

/-! ### What the relays are asked -/

theorem SameFilter.symm (h : SameFilter q q') : SameFilter q' q where
  ids := h.ids.symm
  authors := h.authors.symm
  kinds := h.kinds.symm
  tags := by
    intro key
    have hrel := h.tags key
    generalize q.tags.lookup key = values at hrel ⊢
    generalize q'.tags.lookup key = values' at hrel ⊢
    cases hrel with
    | some hperm => exact .some hperm.symm
    | none => exact .none
  sinceTime := h.sinceTime.symm
  untilTime := h.untilTime.symm
  limit := h.limit.symm
  search := h.search.symm
  cacheFirst := h.cacheFirst.symm
  meshOnly := h.meshOnly.symm

theorem exists_mem_of_perm {α : Type} {l l' : List α} {p : α → Prop} (hperm : l.Perm l')
    (h : l ≠ [] → ∃ a ∈ l, p a) (hne : l' ≠ []) : ∃ a ∈ l', p a := by
  obtain ⟨a, ha, hp⟩ := h fun hnil => hne (List.perm_nil.mp (hnil ▸ hperm.symm))
  exact ⟨a, hperm.mem_iff.mp ha, hp⟩

theorem SameFilter.matches (h : SameFilter q q') {ev : Event}
    (hmatches : q.toRequest.Matches found ev) : q'.toRequest.Matches found ev where
  ids := exists_mem_of_perm h.ids hmatches.ids
  authors := exists_mem_of_perm h.authors hmatches.authors
  kinds := exists_mem_of_perm h.kinds hmatches.kinds
  tags := by
    intro key values' hlookup
    have hrel := h.tags key
    rw [hlookup] at hrel
    generalize hvalues : q.tags.lookup key = values at hrel
    cases hrel with
    | some hperm =>
      obtain ⟨value, hvalue, hhas⟩ := hmatches.tags key _ hvalues
      exact ⟨value, hperm.mem_iff.mp hvalue, hhas⟩
  sinceTime := h.sinceTime ▸ hmatches.sinceTime
  untilTime := h.untilTime ▸ hmatches.untilTime
  search := h.search ▸ hmatches.search

theorem SameButRelays.asked_eq (h : SameButRelays q q') : asked found q = asked found q' := by
  have hevents : {ev | q.toRequest.Matches found ev} = {ev | q'.toRequest.Matches found ev} :=
    Set.ext fun ev => ⟨h.filter.matches, h.filter.symm.matches⟩
  rw [asked, asked, hevents, h.filter.limit, h.filter.cacheFirst, h.noCache, h.maxRelays,
    h.cacheOnly, h.filter.meshOnly]

/-- **The relays are asked for the same** when equal keys stand for equal requests. -/
theorem askedOf_deduplicateRequests
    (hkeys : ∀ q ∈ requests, ∀ q' ∈ requests, createFilterKey q = createFilterKey q' →
      SameButRelays q q') (relay : String) :
    askedOf found (deduplicateRequests walk requests) relay = askedOf found requests relay := by
  have htable := collected_requestMap requests
  -- an entry asks for the same as every request under its key
  have hentry : ∀ {key entry}, (requestMap requests).lookup key = some entry →
      ∀ q ∈ requests, createFilterKey q = key → asked found entry = asked found q := by
    intro key entry hlookup q hq hkey
    obtain ⟨first, hfirst, hfirstKey, heq⟩ := htable.entry hlookup
    have hsame : asked found entry = asked found first := by
      rw [heq]
      rfl
    rw [hsame, (hkeys first hfirst q hq (hfirstKey.trans hkey.symm)).asked_eq]
  ext a
  constructor
  · rintro ⟨entry, hmem, hrelay, rfl⟩
    obtain ⟨key, hlookup⟩ := mem_deduplicateRequests.mp hmem
    obtain ⟨q, hq, hkey, hqRelay⟩ := (htable.relays hlookup relay).mp hrelay
    exact ⟨q, hq, hqRelay, hentry hlookup q hq hkey⟩
  · rintro ⟨q, hq, hrelay, rfl⟩
    obtain ⟨entry, hlookup⟩ :=
      Option.isSome_iff_exists.mp (AList.lookup_isSome.mpr ((htable.keys _).mpr ⟨q, hq, rfl⟩))
    exact ⟨entry, mem_deduplicateRequests.mpr ⟨_, hlookup⟩,
      (htable.relays hlookup relay).mpr ⟨q, hq, rfl, hrelay⟩, (hentry hlookup q hq rfl).symm⟩

/-- Deduplication preserves meaning exactly when requests of the list with the same key differ in
nothing but their relays. -/
theorem preserves_iff_keys (walk : IterOrder String) (found : String → Event → Prop)
    (requests : List RoutedRequest) :
    Preserves walk found requests ↔ ∀ q ∈ requests, ∀ q' ∈ requests,
      createFilterKey q = createFilterKey q' → SameButRelays q q' := by
  constructor
  · intro h q hq q' hq' hkey
    exact h.merged q hq q' hq' (merged_iff.mpr hkey)
  · intro hkeys
    exact ⟨askedOf_deduplicateRequests hkeys,
      fun q hq q' hq' hmerged => hkeys q hq q' hq' (merged_iff.mp hmerged)⟩

end RequestDeduplicator

end Nipworker
