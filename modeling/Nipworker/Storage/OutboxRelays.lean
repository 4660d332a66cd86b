/-
The relays a subscription is sent to (`get_relays` in `storage/db/index.rs`).

A request is sent to the relays its authors write to and the people it mentions read
from, as far as their newest relay lists are in the cache.  The relays that most of them
have in common come first.
-/
import Nipworker.Lib.Tally
import Nipworker.Parser.Kind10002
import Nipworker.Storage.CachedAnswers

namespace Nipworker

open List
namespace OutboxRelays

open RelayList

/-! ### The code -/

/-- `fb::Request`, as far as `get_relays` reads it. -/
structure FbRequest where
  authors : Option (List String)
  kinds : Option (List UInt16)
  tags : Option (List StringVec)

/-- `indexer_relays` and `default_relays`. -/
structure FallbackRelays where
  indexer : List String
  default : List String

def FallbackRelays.forKinds (fallback : FallbackRelays) (req : FbRequest) : List String :=
  if ((req.kinds.getD []).any fun kind => kind = 0 ∨ kind = 3 ∨ kind = 10002) = true then
    fallback.indexer
  else fallback.default

/-- `authors_set`. -/
def FbRequest.authorList (req : FbRequest) : List String := req.authors.getD []

/-- The authors, and the first value of every `p` condition. -/
def FbRequest.pubkeysToCheck (req : FbRequest) : List String :=
  req.authorList ++
    (((req.tags.getD []).filterMap StringVec.pair).filterMap fun pair =>
      if pair.1 = "p" ∧ pair.2 ∉ req.authorList then some pair.2 else none)

/-- `is_author`: the relays of an author are those for writing. -/
def FbRequest.role (req : FbRequest) (pubkey : String) : RelayRole :=
  if pubkey ∈ req.authorList then .write else .read

def extractParsedEvent (fb : FlatBuffers) (bytes : Bytes) : Option ParsedEvent :=
  match fb.workerMessage bytes with
  | some (.parsedEvent ev) => some ev
  | some (.nostrEvent _) => none
  | some .other => none
  | none => fb.parsedEvent bytes

/-- One event in the loop over the answers: it replaces an older one of its author. -/
def keepLatest (fb : FlatBuffers) (latest : Map String Bytes) (bytes : Bytes) :
    Map String Bytes :=
  match extractParsedEvent fb bytes with
  | none => latest
  | some ev =>
    match latest.lookup ev.pubkey with
    | none => AList.insert ev.pubkey bytes latest
    | some existing =>
      match extractParsedEvent fb existing with
      | none => latest
      | some old =>
        if old.createdAt < ev.createdAt then AList.insert ev.pubkey bytes latest else latest

def countedFor (fb : FlatBuffers) (relaysOf : Bytes → Option (List RelayInfo)) (role : RelayRole)
    (bytes : Bytes) : List String :=
  match extractParsedEvent fb bytes with
  | none => []
  | some _ => (((relaysOf bytes).getD []).filter (·.serves role)).map RelayInfo.url

/-- The addresses that are counted, one by one, in the loop over the latest events. -/
def countedUrls (fb : FlatBuffers) (relaysOf : Bytes → Option (List RelayInfo))
    (walk : IterOrder String) (req : FbRequest) (latest : Map String Bytes) : List String :=
  (walk.order latest.keys).flatMap fun pubkey =>
    ((latest.lookup pubkey).map (countedFor fb relaysOf (req.role pubkey))).getD []

/-- The query for the relay lists: no limit, since the latest of each author is wanted. -/
def FbRequest.relayListFilter (req : FbRequest) : QueryFilter :=
  { QueryFilter.new with kinds := some [10002], authors := some req.pubkeysToCheck }

/-- `get_relays`.  `relaysOf` reads the relays out of a stored `ParsedEvent`
(`parsed_as_kind_10002_parsed`). -/
def getRelays (fb : FlatBuffers) (relaysOf : Bytes → Option (List RelayInfo))
    (fallback : FallbackRelays) (order : IterOrder EventKey)
    (sel : SelectNth (ℕ × ℕ) survivorTime) (walk walk' : IterOrder String) (db : NostrDB)
    (req : FbRequest) : List String :=
  if req.pubkeysToCheck = [] then fallback.forKinds req
  else
    let counts :=
      match db.queryEventsWithFilter order sel req.relayListFilter with
      | .ok result =>
        tally (countedUrls fb relaysOf walk req (result.events.foldl (keepLatest fb) ∅))
      | .error _ => ∅
    if counts.keys = [] then fallback.forKinds req else rankedKeys walk' 15 counts

/-! ### What is to be selected -/

/-- An event that is in the store, with its bytes: it is indexed, not deleted, and read
back. -/
def Stores (fb : FlatBuffers) (db : NostrDB) (ev : Event) (bytes : Bytes) : Prop :=
  ∃ record, db.index.indexes.record ev.id = some record ∧
    record.key ∉ db.index.tombstones.deletedKeys ∧
    db.storage.getEvent record.offset = .ok (some bytes) ∧ fb.storedEvent bytes = some ev

/-- A relay list of the account is stored. -/
def StoresList (fb : FlatBuffers) (db : NostrDB) (pubkey : String) (ev : Event) (bytes : Bytes) :
    Prop :=
  Stores fb db ev bytes ∧ ev.kind = 10002 ∧ ev.pubkey = pubkey

/-- No list of the account is newer. -/
def NewestList (fb : FlatBuffers) (db : NostrDB) (pubkey : String) (ev : Event) (bytes : Bytes) :
    Prop :=
  StoresList fb db pubkey ev bytes ∧
    ∀ other bytes', StoresList fb db pubkey other bytes' → other.createdAt ≤ ev.createdAt

/-- A choice of a newest relay list for everyone who has one. -/
structure NewestChoice (fb : FlatBuffers) (db : NostrDB) (newest : String → Option Event) :
    Prop where
  isNewest : ∀ pubkey ev, newest pubkey = some ev → ∃ bytes, NewestList fb db pubkey ev bytes
  hasNone : ∀ pubkey, newest pubkey = none → ∀ ev bytes, ¬ StoresList fb db pubkey ev bytes

/-- The people a request is about: its authors, and everyone in a condition on `p`. -/
def FbRequest.concerned (req : FbRequest) : List String :=
  (req.authorList ++ (req.tags.getD []).flatMap fun tag =>
    match tag.items with
    | some (name :: values) => if name = "p" ∨ name = "#p" then values else []
    | some [] => []
    | none => []).dedup

def tagLists (ev : Event) : List (List String) := ev.tags.map fun tag => tag.items.getD []

/-- How many of the people a request is about have the relay on their newest list, in the
role it is wanted in. -/
def relayCount (req : FbRequest) (newest : String → Option Event) (url : String) : ℕ :=
  req.concerned.countP fun pubkey =>
    (newest pubkey).any fun ev => ListsRelay (req.role pubkey) (tagLists ev) url

/-- **What is to be selected**: the first fifteen addresses by their counts, and the
fallback exactly when no address has one. -/
def Selects (fb : FlatBuffers) (db : NostrDB) (fallback : FallbackRelays) (req : FbRequest)
    (out : List String) : Prop :=
  ∃ newest, NewestChoice fb db newest ∧
    ((∃ url, 0 < relayCount req newest url) → TopRanked (relayCount req newest) 15 out) ∧
    ((∀ url, relayCount req newest url = 0) → out = fallback.forKinds req)

/-- The stores and requests for which the code selects them. -/
structure RelaysDecided (fb : FlatBuffers) (relaysOf : Bytes → Option (List RelayInfo))
    (db : NostrDB) (req : FbRequest) : Prop where
  /-- Who is mentioned, but not looked up, lists no relay for reading. -/
  lookedUp : ∀ pubkey ∈ req.concerned, pubkey ∉ req.pubkeysToCheck →
    ∀ ev bytes, NewestList fb db pubkey ev bytes → ∀ url, ¬ ListsRelay .read (tagLists ev) url
  /-- Of who is looked up and has a relay list, a newest one is stored with what the
  parser made of it. -/
  parsed : ∀ pubkey ∈ req.pubkeysToCheck, (∃ ev bytes, StoresList fb db pubkey ev bytes) →
    ∃ ev bytes, NewestList fb db pubkey ev bytes ∧ (extractParsedEvent fb bytes).isSome
  written : ∀ pubkey ∈ req.pubkeysToCheck, ∀ ev bytes, NewestList fb db pubkey ev bytes →
    (extractParsedEvent fb bytes).isSome →
    ∃ walk relays, parseKind10002 walk ev.kind (tagLists ev) = .ok relays ∧
      relaysOf bytes = some relays
  /-- In such a list the last marker of an address decides. -/
  decides : ∀ pubkey ∈ req.pubkeysToCheck, ∀ ev bytes, NewestList fb db pubkey ev bytes →
    (extractParsedEvent fb bytes).isSome → LastMarkerDecides (req.role pubkey) (tagLists ev)

/-! ### The query -/

theorem storedEvent_of_parsed {fb : FlatBuffers} {bytes : Bytes} {p : ParsedEvent}
    (h : extractParsedEvent fb bytes = some p) : fb.storedEvent bytes = some p.event := by
  unfold extractParsedEvent at h
  rw [FlatBuffers.storedEvent, FlatBuffers.storedMessage]
  rcases hmsg : fb.workerMessage bytes with _ | ev | ev | _ <;> rw [hmsg] at h
  · rw [show fb.parsedEvent bytes = some p from h]
    rfl
  · cases h
    rfl
  · cases h
  · cases h

section Query

variable {fb : FlatBuffers} {db : NostrDB} {history : ShardId → List Bytes} {evs : List Event}

theorem tracks_reading {stored : String → Bytes → Prop} (h : db.Tracks history evs stored) :
    db.Tracks history evs fun id bytes => stored id bytes ∧
      ∀ record, db.index.indexes.record id = some record →
        db.storage.containsOffset record.offset = true →
        db.storage.getEvent record.offset = .ok (some bytes) := by
  refine ⟨h.holds, h.represents, fun id record hrec => ?_⟩
  obtain ⟨g, i, bytes, hget, hoff, hstored⟩ := h.placed id record hrec
  refine ⟨g, i, bytes, hget, hoff, hstored, ?_⟩
  intro record' hrec' hlive
  rw [hrec] at hrec'
  cases hrec'
  rw [hoff] at hlive ⊢
  exact h.holds.getEvent hget hlive

/-- **A query without a limit** returns the bytes of every event in the store that
matches. -/
theorem query_all {known : List Event} (hdet : DeterminedIds known)
    (h : db.ReadsEvents fb known) (order : IterOrder EventKey)
    (sel : SelectNth (ℕ × ℕ) survivorTime) (filter : QueryFilter) (hlimit : filter.limit = none) :
    ∃ result, db.queryEventsWithFilter order sel filter = .ok result ∧
      ∀ bytes, bytes ∈ result.events ↔ ∃ ev, Stores fb db ev bytes ∧ ev.Matches filter := by
  obtain ⟨history, evs, htracks, hevs, -⟩ := h
  have hdet' : DeterminedIds evs := hdet.of_subset hevs
  obtain ⟨result, chosen, hquery, htop, -, hread, -⟩ :=
    (tracks_reading htracks).query hdet' order sel filter true
  -- nothing is left out
  have hall : chosen.Perm (db.visibleEvents evs filter) := by
    obtain ⟨hlen, rest, hperm, -⟩ := htop
    rw [hlimit, Option.getD_none, Nat.min_self] at hlen
    have hrest := hperm.length_eq
    rw [length_append, hlen] at hrest
    have hnil : rest = [] := eq_nil_of_length_eq_zero (by omega)
    rw [hnil, append_nil] at hperm
    exact hperm
  refine ⟨result, hquery, fun bytes => ?_⟩
  constructor
  · intro hbytes
    obtain ⟨i, hi, rfl⟩ := List.mem_iff_getElem.mp hbytes
    have hi' : i < chosen.length := by rw [hread.length_eq]; exact hi
    obtain ⟨⟨x, hx, hid, hstored⟩, hback⟩ := hread.get hi' hi
    have hvisible := hall.subset (getElem_mem hi')
    obtain ⟨hmem, record, hrec⟩ := NostrDB.exists_record_of_visible hvisible
    obtain ⟨-, hdeleted, hlive, hmatches⟩ := (NostrDB.mem_visibleEvents_iff hrec).mp hvisible
    rw [hdet' x hx _ hmem hid] at hstored
    exact ⟨_, ⟨record, hrec, hdeleted, hback record hrec hlive, hstored⟩, hmatches⟩
  · rintro ⟨ev, ⟨record, hrec, hdeleted, hget, hstored⟩, hmatches⟩
    have hlive : db.storage.containsOffset record.offset = true :=
      (ShardedStorage.containsOffset_iff _ _).mpr ⟨bytes, hget⟩
    -- the event is the one that the index knows under its id
    have hmem : ev ∈ evs := by
      obtain ⟨bytes', hget', x, hx, -, hstored'⟩ := htracks.getEvent hrec hlive
      rw [hget] at hget'
      cases hget'
      rw [hstored] at hstored'
      cases hstored'
      exact hx
    have hvisible : ev ∈ db.visibleEvents evs filter :=
      (NostrDB.mem_visibleEvents_iff hrec).mpr ⟨hmem, hdeleted, hlive, hmatches⟩
    obtain ⟨i, hi, hchosen⟩ := List.mem_iff_getElem.mp (hall.mem_iff.mpr hvisible)
    have hi' : i < result.events.length := by rw [← hread.length_eq]; exact hi
    obtain ⟨-, hback⟩ := hread.get hi hi'
    rw [get_eq_getElem, get_eq_getElem, hchosen] at hback
    have hsame := hback record hrec hlive
    rw [hget] at hsame
    cases hsame
    exact getElem_mem hi'

theorem exists_newest {known : List Event} (h : db.ReadsEvents fb known) {pubkey : String}
    {ev : Event} {bytes : Bytes} (hlist : StoresList fb db pubkey ev bytes) :
    ∃ ev bytes, NewestList fb db pubkey ev bytes := by
  classical
  obtain ⟨history, evs, htracks, -, -⟩ := h
  have hknown : ∀ x b, Stores fb db x b → x ∈ evs := by
    rintro x b ⟨record, hrec, -, hget, hstored⟩
    obtain ⟨b', hget', y, hy, -, hstored'⟩ := htracks.getEvent hrec
      ((ShardedStorage.containsOffset_iff _ _).mpr ⟨b, hget⟩)
    rw [hget] at hget'
    cases hget'
    rw [hstored] at hstored'
    cases hstored'
    exact hy
  -- there are finitely many, so one of them is newest
  obtain ⟨top, htop, hmax⟩ := Finset.exists_max_image
    (evs.toFinset.filter fun x => ∃ b, StoresList fb db pubkey x b) Event.createdAt
    ⟨ev, Finset.mem_filter.mpr ⟨List.mem_toFinset.mpr (hknown ev bytes hlist.1), bytes, hlist⟩⟩
  obtain ⟨-, b, hb⟩ := Finset.mem_filter.mp htop
  refine ⟨top, b, hb, fun other b' hother => hmax other ?_⟩
  exact Finset.mem_filter.mpr ⟨List.mem_toFinset.mpr (hknown other b' hother.1), b', hother⟩

end Query

/-! ### The latest of each author -/

/-- Of the events that were walked, the map holds for each author one that none is newer
than. -/
structure LatestOf (fb : FlatBuffers) (walked : List Bytes) (latest : Map String Bytes) :
    Prop where
  kept : ∀ pubkey bytes, latest.lookup pubkey = some bytes → bytes ∈ walked ∧
    ∃ ev, extractParsedEvent fb bytes = some ev ∧ ev.pubkey = pubkey ∧
      ∀ b ∈ walked, ∀ x, extractParsedEvent fb b = some x → x.pubkey = pubkey →
        x.createdAt ≤ ev.createdAt
  missing : ∀ pubkey, latest.lookup pubkey = none → ∀ b ∈ walked, ∀ x,
    extractParsedEvent fb b = some x → x.pubkey ≠ pubkey

section Latest

variable {fb : FlatBuffers} {walked : List Bytes} {latest : Map String Bytes} {bytes : Bytes}

theorem LatestOf.skip (h : LatestOf fb walked latest)
    (hold : ∀ ev, extractParsedEvent fb bytes = some ev → ∃ existing old,
      latest.lookup ev.pubkey = some existing ∧ extractParsedEvent fb existing = some old ∧
        ev.createdAt ≤ old.createdAt) : LatestOf fb (walked ++ [bytes]) latest := by
  refine ⟨fun pubkey b hb => ?_, fun pubkey hnone b hb x hx => ?_⟩
  · obtain ⟨hmem, ev, hev, hpubkey, hmax⟩ := h.kept pubkey b hb
    refine ⟨mem_append_left _ hmem, ev, hev, hpubkey, fun b' hb' x hx hxp => ?_⟩
    rcases List.mem_append.mp hb' with hb' | hb'
    · exact hmax b' hb' x hx hxp
    · rw [List.mem_singleton.mp hb'] at hx
      obtain ⟨existing, old, hlookup, hext, hle⟩ := hold x hx
      rw [hxp, hb] at hlookup
      cases hlookup
      rw [hev] at hext
      cases hext
      exact hle
  · rcases List.mem_append.mp hb with hb | hb
    · exact h.missing pubkey hnone b hb x hx
    · rw [List.mem_singleton.mp hb] at hx
      obtain ⟨existing, old, hlookup, -⟩ := hold x hx
      rintro rfl
      rw [hnone] at hlookup
      exact absurd hlookup.symm (Option.some_ne_none existing)

theorem LatestOf.keep (h : LatestOf fb walked latest) {ev : ParsedEvent}
    (hev : extractParsedEvent fb bytes = some ev)
    (hnew : ∀ existing old, latest.lookup ev.pubkey = some existing →
      extractParsedEvent fb existing = some old → old.createdAt ≤ ev.createdAt) :
    LatestOf fb (walked ++ [bytes]) (AList.insert ev.pubkey bytes latest) := by
  refine ⟨fun pubkey b hb => ?_, fun pubkey hnone b hb x hx => ?_⟩
  · rcases Map.lookup_insert_eq_some.mp hb with ⟨heq, rfl⟩ | ⟨hne, hb⟩
    · refine ⟨mem_append_right _ (mem_singleton_self _), ev, hev, heq.symm,
        fun b' hb' x hx hxp => ?_⟩
      rcases List.mem_append.mp hb' with hb' | hb'
      · -- the one that was there is as new as all before it
        rcases hlookup : latest.lookup pubkey with _ | existing
        · exact absurd hxp (h.missing pubkey hlookup b' hb' x hx)
        · obtain ⟨-, old, hold, -, hmax⟩ := h.kept pubkey existing hlookup
          rw [heq] at hlookup
          exact (hmax b' hb' x hx hxp).trans (hnew existing old hlookup hold)
      · rw [List.mem_singleton.mp hb', hev] at hx
        cases hx
        exact le_refl _
    · next hne =>
      obtain ⟨hmem, old, hold, hpubkey, hmax⟩ := h.kept pubkey b hb
      refine ⟨mem_append_left _ hmem, old, hold, hpubkey, fun b' hb' x hx hxp => ?_⟩
      rcases List.mem_append.mp hb' with hb' | hb'
      · exact hmax b' hb' x hx hxp
      · rw [List.mem_singleton.mp hb', hev] at hx
        cases hx
        exact absurd hxp.symm hne
  · rw [Map.lookup_insert_ite] at hnone
    split at hnone
    · exact absurd hnone (Option.some_ne_none bytes)
    · next hne =>
      rcases List.mem_append.mp hb with hb | hb
      · exact h.missing pubkey hnone b hb x hx
      · rw [List.mem_singleton.mp hb, hev] at hx
        cases hx
        exact Ne.symm hne

theorem LatestOf.step (h : LatestOf fb walked latest) (bytes : Bytes) :
    LatestOf fb (walked ++ [bytes]) (keepLatest fb latest bytes) := by
  unfold keepLatest
  rcases hev : extractParsedEvent fb bytes with _ | ev
  · refine h.skip fun ev hev' => ?_
    rw [hev] at hev'
    exact absurd hev'.symm (Option.some_ne_none ev)
  · dsimp only
    rcases hlookup : latest.lookup ev.pubkey with _ | existing
    · refine h.keep hev fun existing old hex _ => ?_
      rw [hlookup] at hex
      exact absurd hex.symm (Option.some_ne_none existing)
    · obtain ⟨-, old, hold, -⟩ := h.kept ev.pubkey existing hlookup
      dsimp only
      rw [hold]
      dsimp only
      by_cases hlt : old.createdAt < ev.createdAt
      · rw [if_pos hlt]
        refine h.keep hev fun existing' old' hex hold' => ?_
        rw [hlookup] at hex
        cases hex
        rw [hold] at hold'
        cases hold'
        exact hlt.le
      · rw [if_neg hlt]
        refine h.skip fun ev' hev' => ?_
        rw [hev] at hev'
        cases hev'
        exact ⟨existing, old, hlookup, hold, Nat.le_of_not_lt hlt⟩

theorem latestOf_foldl (fb : FlatBuffers) (walked : List Bytes) :
    LatestOf fb walked (walked.foldl (keepLatest fb) ∅) := by
  induction walked using List.reverseRecOn with
  | nil =>
    refine ⟨fun pubkey bytes h => ?_, fun _ _ _ hb => absurd hb not_mem_nil⟩
    rw [foldl_nil, AList.lookup_empty] at h
    exact absurd h.symm (Option.some_ne_none bytes)
  | append_singleton walked bytes ih =>
    rw [foldl_append, foldl_cons, foldl_nil]
    exact ih.step bytes

end Latest

/-! ### The counts -/

theorem count_flatMap_of_once {f : String → List String} {has : String → Bool} {url : String}
    {keys : List String}
    (honce : ∀ key ∈ keys, (f key).count url = if has key = true then 1 else 0) :
    (keys.flatMap f).count url = keys.countP has := by
  induction keys with
  | nil => rfl
  | cons key rest ih =>
    rw [flatMap_cons, count_append, countP_cons,
      honce key mem_cons_self, ih fun k hk => honce k (mem_cons_of_mem _ hk),
      Nat.add_comm]

theorem countP_eq_of_mem_iff {has has' : String → Bool} {keys keys' : List String}
    (hnodup : keys.Nodup) (hnodup' : keys'.Nodup)
    (hiff : ∀ key, (key ∈ keys ∧ has key = true) ↔ (key ∈ keys' ∧ has' key = true)) :
    keys.countP has = keys'.countP has' := by
  rw [countP_eq_length_filter, countP_eq_length_filter]
  refine List.Perm.length_eq ?_
  rw [perm_ext_iff_of_nodup (hnodup.filter _) (hnodup'.filter _)]
  intro key
  rw [mem_filter, mem_filter]
  exact hiff key

theorem count_countedFor {fb : FlatBuffers} {relaysOf : Bytes → Option (List RelayInfo)}
    {role : RelayRole} {bytes : Bytes} {ev : ParsedEvent} {walk : IterOrder String}
    {relays : List RelayInfo} {kind : UInt16} {tags : List (List String)}
    (hev : extractParsedEvent fb bytes = some ev) (hrelays : relaysOf bytes = some relays)
    (hparsed : parseKind10002 walk kind tags = .ok relays)
    (hlast : LastMarkerDecides role tags) (url : String) :
    (countedFor fb relaysOf role bytes).count url
      = if decide (ListsRelay role tags url) = true then 1 else 0 := by
  rw [countedFor, hev, hrelays]
  dsimp only [Option.getD_some]
  have hnodup : ((relays.filter (·.serves role)).map RelayInfo.url).Nodup :=
    (nodup_parsed hparsed).sublist (List.filter_sublist.map _)
  have hmem : url ∈ (relays.filter (·.serves role)).map RelayInfo.url ↔
      ListsRelay role tags url := by
    rw [← (parsed_lists_iff hparsed role).mpr hlast url, mem_map]
    constructor
    · rintro ⟨relay, hrelay, hurl⟩
      obtain ⟨hr, hserves⟩ := List.mem_filter.mp hrelay
      exact ⟨relay, hr, hurl, hserves⟩
    · rintro ⟨relay, hr, hurl, hserves⟩
      exact ⟨relay, List.mem_filter.mpr ⟨hr, hserves⟩, hurl⟩
  by_cases hlists : ListsRelay role tags url
  · rw [if_pos (decide_eq_true hlists)]
    exact count_eq_one_of_mem hnodup (hmem.mpr hlists)
  · rw [if_neg (by rw [decide_eq_true_eq]; exact hlists)]
    exact count_eq_zero_of_not_mem fun h => hlists (hmem.mp h)

/-! ### The selection -/

section Selection

variable {fb : FlatBuffers} {relaysOf : Bytes → Option (List RelayInfo)} {db : NostrDB}
  {req : FbRequest}

variable {pubkey : String} {events : List Bytes} {latest : Map String Bytes} {known : List Event}

theorem mem_concerned_of_author (h : pubkey ∈ req.authorList) : pubkey ∈ req.concerned :=
  List.mem_dedup.mpr (mem_append_left _ h)

theorem mem_check_of_author (h : pubkey ∈ req.authorList) :
    pubkey ∈ req.pubkeysToCheck := mem_append_left _ h

theorem mem_concerned_of_check (h : pubkey ∈ req.pubkeysToCheck) : pubkey ∈ req.concerned := by
  rcases List.mem_append.mp h with h | h
  · exact mem_concerned_of_author h
  · obtain ⟨⟨name, value⟩, hpair, hsome⟩ := List.mem_filterMap.mp h
    obtain ⟨tag, htag, hitems⟩ := List.mem_filterMap.mp hpair
    dsimp only at hsome
    split at hsome
    · next hcond =>
      cases hsome
      refine List.mem_dedup.mpr (mem_append_right _ (List.mem_flatMap.mpr ⟨tag, htag, ?_⟩))
      unfold StringVec.pair at hitems
      split at hitems
      · next name' value' rest heq =>
        cases hitems
        rw [heq]
        dsimp only
        rw [if_pos (.inl hcond.1)]
        exact mem_cons_self
      · exact absurd hitems.symm (Option.some_ne_none _)
    · exact absurd hsome.symm (Option.some_ne_none _)

theorem matches_relayListFilter {ev : Event} :
    ev.Matches req.relayListFilter ↔ ev.kind = 10002 ∧ ev.pubkey ∈ req.pubkeysToCheck := by
  unfold Event.Matches Event.MatchesIndexed FbRequest.relayListFilter QueryFilter.new
  simp

/-- **The latest that are found are newest lists**, and no list is missed. -/
theorem latest_newest (hdecided : RelaysDecided fb relaysOf db req)
    (hevents : ∀ bytes, bytes ∈ events ↔
      ∃ ev, Stores fb db ev bytes ∧ ev.Matches req.relayListFilter)
    (hlatest : LatestOf fb events latest) (hcheck : pubkey ∈ req.pubkeysToCheck) :
    (∀ bytes, latest.lookup pubkey = some bytes →
      ∃ p, extractParsedEvent fb bytes = some p ∧ NewestList fb db pubkey p.event bytes) ∧
    (latest.lookup pubkey = none → ∀ ev bytes, ¬ StoresList fb db pubkey ev bytes) := by
  -- who has a list at all has a newest one among the answers
  have htop : ∀ ev bytes, StoresList fb db pubkey ev bytes → ∃ b ∈ events, ∃ p,
      extractParsedEvent fb b = some p ∧ p.pubkey = pubkey ∧ ev.createdAt ≤ p.createdAt := by
    intro ev bytes hlist
    obtain ⟨top, b, ⟨⟨hstores, hkind, hpubkey⟩, hmax⟩, hsome⟩ :=
      hdecided.parsed pubkey hcheck ⟨ev, bytes, hlist⟩
    obtain ⟨p, hp⟩ := Option.isSome_iff_exists.mp hsome
    obtain ⟨-, -, -, -, hstored⟩ := id hstores
    rw [storedEvent_of_parsed hp] at hstored
    cases hstored
    refine ⟨b, (hevents b).mpr ⟨_, hstores, matches_relayListFilter.mpr ⟨hkind, ?_⟩⟩, p, hp,
      hpubkey, hmax ev bytes hlist⟩
    rw [hpubkey]
    exact hcheck
  constructor
  · intro bytes hlookup
    obtain ⟨hmem, p, hp, hpubkey, hmax⟩ := hlatest.kept pubkey bytes hlookup
    obtain ⟨ev, hstores, hmatches⟩ := (hevents bytes).mp hmem
    obtain ⟨-, -, -, -, hstored⟩ := id hstores
    rw [storedEvent_of_parsed hp] at hstored
    cases hstored
    refine ⟨p, hp, ⟨hstores, (matches_relayListFilter.mp hmatches).1, hpubkey⟩, ?_⟩
    intro other b' hother
    obtain ⟨b, hb, x, hx, hxp, hle⟩ := htop other b' hother
    exact hle.trans (hmax b hb x hx hxp)
  · intro hnone ev bytes hlist
    obtain ⟨b, hb, p, hp, hpubkey, -⟩ := htop ev bytes hlist
    exact hlatest.missing pubkey hnone b hb p hp hpubkey

open Classical in
/-- The lists that count: those the code found, and any newest one of who is not looked
up. -/
noncomputable def countedLists (fb : FlatBuffers) (db : NostrDB) (req : FbRequest)
    (latest : Map String Bytes) (pubkey : String) : Option Event :=
  if pubkey ∈ req.pubkeysToCheck then (latest.lookup pubkey).bind fb.storedEvent
  else if h : ∃ ev bytes, NewestList fb db pubkey ev bytes then some h.choose else none

theorem newestChoice_countedLists (h : db.ReadsEvents fb known)
    (hdecided : RelaysDecided fb relaysOf db req) (hevents : ∀ bytes, bytes ∈ events ↔
      ∃ ev, Stores fb db ev bytes ∧ ev.Matches req.relayListFilter)
    (hlatest : LatestOf fb events latest) : NewestChoice fb db (countedLists fb db req latest) := by
  refine ⟨fun pubkey ev hev => ?_, fun pubkey hnone => ?_⟩
  · unfold countedLists at hev
    split at hev
    · next hcheck =>
      obtain ⟨bytes, hlookup, hstored⟩ := Option.bind_eq_some_iff.mp hev
      obtain ⟨p, hp, hnewest⟩ := (latest_newest hdecided hevents hlatest hcheck).1 bytes hlookup
      rw [storedEvent_of_parsed hp] at hstored
      cases hstored
      exact ⟨bytes, hnewest⟩
    · split at hev
      · next hex =>
        cases hev
        exact hex.choose_spec
      · exact absurd hev.symm (Option.some_ne_none ev)
  · unfold countedLists at hnone
    split at hnone
    · next hcheck =>
      refine (latest_newest hdecided hevents hlatest hcheck).2 ?_
      rcases hlookup : latest.lookup pubkey with _ | bytes
      · rfl
      · obtain ⟨p, hp, -⟩ := (latest_newest hdecided hevents hlatest hcheck).1 bytes hlookup
        rw [hlookup, Option.bind_some, storedEvent_of_parsed hp] at hnone
        exact absurd hnone (Option.some_ne_none _)
    · split at hnone
      · exact absurd hnone (Option.some_ne_none _)
      · next hex => exact fun ev bytes hlist => hex (exists_newest h hlist)

theorem check_of_lists (hdecided : RelaysDecided fb relaysOf db req)
    {newest : String → Option Event} (hnewest : NewestChoice fb db newest) {url : String}
    (hconcerned : pubkey ∈ req.concerned)
    (hlists : (newest pubkey).any (fun ev => ListsRelay (req.role pubkey) (tagLists ev) url)
      = true) : pubkey ∈ req.pubkeysToCheck := by
  by_contra hcheck
  obtain ⟨ev, hev, hlists⟩ := (Option.any_eq_true _ _).mp hlists
  obtain ⟨bytes, hlist⟩ := hnewest.isNewest pubkey ev hev
  have hrole : req.role pubkey = .read :=
    if_neg fun hauthor => hcheck (mem_check_of_author hauthor)
  rw [hrole, decide_eq_true_eq] at hlists
  exact hdecided.lookedUp pubkey hconcerned hcheck ev bytes hlist url hlists

/-- **The counts of the code are those of the lists.** -/
theorem count_countedUrls (h : db.ReadsEvents fb known)
    (hdecided : RelaysDecided fb relaysOf db req) (hevents : ∀ bytes, bytes ∈ events ↔
      ∃ ev, Stores fb db ev bytes ∧ ev.Matches req.relayListFilter)
    (hlatest : LatestOf fb events latest) (walk : IterOrder String) (url : String) :
    (countedUrls fb relaysOf walk req latest).count url
      = relayCount req (countedLists fb db req latest) url := by
  have hchoice := newestChoice_countedLists h hdecided hevents hlatest
  have hkeys : ∀ pubkey, pubkey ∈ walk.order latest.keys ↔ ∃ b, latest.lookup pubkey = some b := by
    intro pubkey
    rw [(walk.perm _).mem_iff, ← AList.mem_keys, ← AList.lookup_isSome, Option.isSome_iff_exists]
  -- whose list is among the answers is looked up
  have hcheck : ∀ pubkey bytes, latest.lookup pubkey = some bytes →
      pubkey ∈ req.pubkeysToCheck := by
    intro pubkey bytes hlookup
    obtain ⟨hmem, p, hp, hpubkey, -⟩ := hlatest.kept pubkey bytes hlookup
    obtain ⟨ev, ⟨-, -, -, -, hstored⟩, hmatches⟩ := (hevents bytes).mp hmem
    rw [storedEvent_of_parsed hp] at hstored
    cases hstored
    rw [← hpubkey]
    exact (matches_relayListFilter.mp hmatches).2
  set has : String → Bool := fun pubkey =>
    (countedLists fb db req latest pubkey).any fun ev =>
      ListsRelay (req.role pubkey) (tagLists ev) url with hhas
  have honce : ∀ pubkey ∈ walk.order latest.keys,
      (((latest.lookup pubkey).map (countedFor fb relaysOf (req.role pubkey))).getD []).count url
        = if has pubkey = true then 1 else 0 := by
    intro pubkey hpubkey
    obtain ⟨bytes, hlookup⟩ := (hkeys pubkey).mp hpubkey
    have hin := hcheck pubkey bytes hlookup
    obtain ⟨p, hp, hnewest⟩ := (latest_newest hdecided hevents hlatest hin).1 bytes hlookup
    have hsome : (extractParsedEvent fb bytes).isSome := by
      rw [hp]
      rfl
    obtain ⟨walk', relays, hparsed, hrelays⟩ :=
      hdecided.written pubkey hin p.event bytes hnewest hsome
    have hlast := hdecided.decides pubkey hin p.event bytes hnewest hsome
    have hcounted : countedLists fb db req latest pubkey = some p.event := by
      rw [countedLists, if_pos hin, hlookup, Option.bind_some, storedEvent_of_parsed hp]
    have hpubkeyHas : has pubkey
        = decide (ListsRelay (req.role pubkey) (tagLists p.event) url) := by
      rw [hhas]
      dsimp only
      rw [hcounted, Option.any_some]
    rw [hlookup, Option.map_some, Option.getD_some,
      count_countedFor hp hrelays hparsed hlast url, hpubkeyHas]
  rw [countedUrls, count_flatMap_of_once honce, relayCount]
  refine countP_eq_of_mem_iff ((walk.perm _).nodup_iff.mpr latest.keys_nodup)
    (nodup_dedup _) fun pubkey => and_congr_left fun hlists => ?_
  rw [hkeys]
  constructor
  · rintro ⟨bytes, hlookup⟩
    exact mem_concerned_of_check (hcheck pubkey bytes hlookup)
  · intro hconcerned
    have hin := check_of_lists hdecided hchoice hconcerned hlists
    obtain ⟨ev, hev, -⟩ := (Option.any_eq_true _ _).mp hlists
    rw [countedLists, if_pos hin] at hev
    obtain ⟨bytes, hlookup, -⟩ := Option.bind_eq_some_iff.mp hev
    exact ⟨bytes, hlookup⟩

/-- **Relay selection**, for any database that reads its events. -/
theorem getRelays_selects (hdet : DeterminedIds known)
    (h : db.ReadsEvents fb known) (hdecided : RelaysDecided fb relaysOf db req)
    (fallback : FallbackRelays) (order : IterOrder EventKey)
    (sel : SelectNth (ℕ × ℕ) survivorTime) (walk walk' : IterOrder String) :
    Selects fb db fallback req (getRelays fb relaysOf fallback order sel walk walk' db req) := by
  obtain ⟨result, hquery, hevents⟩ := query_all hdet h order sel req.relayListFilter rfl
  have hlatest := latestOf_foldl fb result.events
  have hchoice := newestChoice_countedLists h hdecided hevents hlatest
  refine ⟨_, hchoice, ?_⟩
  unfold getRelays
  by_cases hempty : req.pubkeysToCheck = []
  · -- nobody is looked up, so there is nothing to count
    rw [if_pos hempty]
    refine ⟨fun ⟨url, hpos⟩ => ?_, fun _ => rfl⟩
    obtain ⟨pubkey, hconcerned, hlists⟩ := List.countP_pos_iff.mp hpos
    have hin := check_of_lists hdecided hchoice hconcerned hlists
    rw [hempty] at hin
    exact absurd hin not_mem_nil
  · rw [if_neg hempty, hquery]
    dsimp only
    set urls := countedUrls fb relaysOf walk req (result.events.foldl (keepLatest fb) ∅) with hurls
    have hcount : ∀ url, urls.count url
        = relayCount req (countedLists fb db req (result.events.foldl (keepLatest fb) ∅)) url :=
      count_countedUrls h hdecided hevents hlatest walk
    rw [← funext hcount]
    constructor
    · rintro ⟨url, hpos⟩
      have hne : urls ≠ [] := ne_nil_of_mem (List.count_pos_iff.mp hpos)
      rw [if_neg fun hkeys => hne ((tally_eq_empty_iff urls).mp hkeys)]
      exact topRanked_rankedKeys walk' 15 urls
    · intro hzero
      have hnil : urls = [] := by
        rw [eq_nil_iff_forall_not_mem]
        intro url hmem
        exact absurd (hzero url) (List.count_pos_iff.mpr hmem).ne'
      rw [if_pos ((tally_eq_empty_iff urls).mpr hnil)]

end Selection

/-- **The relays of a request.**  Open a storage over any blobs, use it in any way and with
any failures; the relays of a request are the first fifteen by their counts, or the
fallback when there is no count, if its lists decide them. -/
theorem outbox_relays_selected (fb : FlatBuffers) (hempty : fb.RejectsEmpty)
    (maxBufferSize : ℕ) (hcap : maxBufferSize + legacyDedicatedBytes ≤ 2 ^ 32) (fails : ℕ → Bool)
    (blobs : Map String Bytes)
    (hblobs : ∀ key bytes, blobs.lookup key = some bytes → bytes.length ≤ 2 ^ 32)
    (shards : IterOrder ShardId) (now : ℕ) (session : List SessionStep)
    (hdet : DeterminedIds (blobEvents fb blobs ++ sessionEvents fb session))
    (relaysOf : Bytes → Option (List RelayInfo)) (fallback : FallbackRelays)
    (order : IterOrder EventKey) (sel : SelectNth (ℕ × ℕ) survivorTime)
    (walk walk' : IterOrder String) (req : FbRequest) :
    let w := World.run fb maxBufferSize fails
      { store := .new maxBufferSize, blobs := blobs, ops := 0 }
      (.initializeStorage shards now :: session.flatMap SessionStep.steps)
    RelaysDecided fb relaysOf w.store.core req →
      Selects fb w.store.core fallback req
        (getRelays fb relaysOf fallback order sel walk walk' w.store.core req) := by
  have hsound := sound_session hempty hcap fails hblobs shards now session hdet
  intro w hdecided
  exact getRelays_selects hdet hsound.core hdecided fallback order sel walk walk'

/-! ### A relay list in the store -/

/-- A relay list with one relay, for reading and writing. -/
def aliceList : ParsedEvent :=
  { id := "l1", pubkey := "alice", kind := 10002, createdAt := 5,
    tags := [⟨some ["r", "wss://relay.example"]⟩] }

def aliceListBytes : Bytes := [1]

def aliceReaders : FlatBuffers :=
  { workerMessage := fun bytes => if bytes = aliceListBytes then some (.parsedEvent aliceList) else none
    parsedEvent := fun _ => none
    nostrEvent := fun _ => none }

def aliceRelays (bytes : Bytes) : Option (List RelayInfo) :=
  if bytes = aliceListBytes then some [⟨"wss://relay.example", true, true⟩] else none

def aliceStored : World :=
  World.run aliceReaders 8388608 neverFails { store := .new 8388608, blobs := ∅, ops := 0 }
    (.initializeStorage (.entries _) 0 ::
      [SessionStep.persist (.entries _) 1 1 aliceListBytes].flatMap SessionStep.steps)

def aliceRelaysFor (req : FbRequest) : List String :=
  getRelays aliceReaders aliceRelays ⟨["wss://indexer.example"], ["wss://default.example"]⟩
    (.entries _) (.sort _) (.entries _) (.entries _) aliceStored.store.core req

def notesOfAlice : FbRequest := { authors := some ["alice"], kinds := some [1], tags := none }

def notesToAlice : FbRequest :=
  { authors := none, kinds := some [1], tags := some [⟨some ["#p", "alice"]⟩] }

theorem bytes_of_stored {bytes : Bytes} {ev : Event}
    (h : aliceReaders.storedEvent bytes = some ev) : bytes = aliceListBytes ∧ ev = aliceList.event := by
  by_cases hbytes : bytes = aliceListBytes
  · subst hbytes
    exact ⟨rfl, (Option.some.inj h).symm⟩
  · have hnone : aliceReaders.storedEvent bytes = none := by
      simp only [FlatBuffers.storedEvent, FlatBuffers.storedMessage, aliceReaders, if_neg hbytes,
        Option.map_none, Option.bind_none]
    rw [hnone] at h
    exact absurd h.symm (Option.some_ne_none ev)

theorem outbox_relays_selected_alice :
    aliceRelaysFor notesOfAlice = ["wss://relay.example"] ∧
      Selects aliceReaders aliceStored.store.core
        ⟨["wss://indexer.example"], ["wss://default.example"]⟩ notesOfAlice
        (aliceRelaysFor notesOfAlice) := by
  refine ⟨by decide +kernel, ?_⟩
  unfold aliceRelaysFor aliceStored
  refine outbox_relays_selected aliceReaders ⟨rfl, rfl, rfl⟩ 8388608 (by decide) neverFails ∅
    nofun (.entries _) 0 [.persist (.entries _) 1 1 aliceListBytes] (by decide +kernel) aliceRelays
    ⟨["wss://indexer.example"], ["wss://default.example"]⟩ (.entries _) (.sort _) (.entries _)
    (.entries _) notesOfAlice ?_
  refine ⟨fun pubkey hpubkey hcheck => ?_, fun pubkey hpubkey hlist => ?_, ?_, ?_⟩
  · exact absurd hpubkey (by simpa [FbRequest.concerned, notesOfAlice, FbRequest.authorList,
      FbRequest.pubkeysToCheck] using hcheck)
  · -- the only list in the store is the newest one
    obtain ⟨ev, bytes, hlist⟩ := hlist
    obtain ⟨-, -, -, -, hstored⟩ := id hlist.1
    obtain ⟨rfl, rfl⟩ := bytes_of_stored hstored
    refine ⟨_, _, ⟨hlist, fun other bytes' hother => ?_⟩, rfl⟩
    obtain ⟨-, -, -, -, hstored'⟩ := hother.1
    rw [(bytes_of_stored hstored').2]
  · intro pubkey _ ev bytes hnewest _
    obtain ⟨-, -, -, -, hstored⟩ := hnewest.1.1
    obtain ⟨rfl, rfl⟩ := bytes_of_stored hstored
    exact ⟨.entries _, _, by decide +kernel, rfl⟩
  · intro pubkey hpubkey ev bytes hnewest _
    obtain ⟨-, -, -, -, hstored⟩ := hnewest.1.1
    obtain ⟨rfl, rfl⟩ := bytes_of_stored hstored
    have hauthor : pubkey = "alice" := by
      simpa [notesOfAlice, FbRequest.authorList, FbRequest.pubkeysToCheck] using hpubkey
    subst hauthor
    intro url hlists
    obtain ⟨-, tag, htag, -, hurl, -⟩ := hlists
    rw [show tagLists aliceList.event = [["r", "wss://relay.example"]] from rfl,
      mem_singleton] at htag
    subst htag
    have hnormal : some (normalizeUrl "wss://relay.example") = some url := hurl
    rw [← Option.some.inj hnormal]
    decide +kernel

/-- The newest relay list of who is mentioned names a relay for reading, and the request is
sent elsewhere. -/
theorem mentioned_relays_missed :
    ¬ Selects aliceReaders aliceStored.store.core
      ⟨["wss://indexer.example"], ["wss://default.example"]⟩ notesToAlice
      (aliceRelaysFor notesToAlice) := by
  rintro ⟨newest, hchoice, htop, -⟩
  have hstored : StoresList aliceReaders aliceStored.store.core "alice" aliceList.event
      aliceListBytes :=
    ⟨⟨{ key := 0, offset := 288230376151711744, createdAt := 5 }, by decide +kernel⟩, rfl, rfl⟩
  -- whatever newest list is chosen, it is the one in the store
  have honly : ∀ pubkey ev, newest pubkey = some ev → ev = aliceList.event := by
    intro pubkey ev hev
    obtain ⟨bytes, ⟨⟨-, -, -, -, hread⟩, -⟩, -⟩ := hchoice.isNewest pubkey ev hev
    exact (bytes_of_stored hread).2
  have hnewest : newest "alice" = some aliceList.event := by
    rcases hnone : newest "alice" with _ | ev
    · exact absurd hstored (hchoice.hasNone "alice" hnone _ _)
    · rw [honly "alice" ev hnone]
  have hcount : ∀ url, relayCount notesToAlice newest url
      = if ListsRelay .read (tagLists aliceList.event) url then 1 else 0 := by
    intro url
    rw [relayCount, show notesToAlice.concerned = ["alice"] from rfl, countP_singleton,
      hnewest, show notesToAlice.role "alice" = .read from rfl, Option.any_some]
    simp only [decide_eq_true_eq]
  have hranked := htop ⟨"wss://relay.example", by rw [hcount]; decide +kernel⟩
  have hdefault := hranked.counted "wss://default.example" (by decide +kernel)
  rw [hcount] at hdefault
  exact absurd hdefault (by decide +kernel)

end OutboxRelays
end Nipworker
