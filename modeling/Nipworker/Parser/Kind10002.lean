/-
Relay lists (`parser/kind10002.rs`, `parser_utils/relay.rs`).

A relay list names relays by `r` tags, each for reading, for writing or, without a
marker, for both.  The parser keeps one entry for each address, and of two tags with one
address it keeps the later one.
-/
import Mathlib.Data.List.Induction
import Nipworker.Parser.Json

namespace Nipworker

open List Option
namespace RelayList

/-! ### The parser -/

/-- A relay, and what it is listed for. -/
structure RelayInfo where
  url : String
  read : Bool
  write : Bool
  deriving DecidableEq, Repr

def normalizeUrl (url : String) : String :=
  let trimmed := Text.trim url.toList
  if trimmed = [] then ""
  else
    let normalized :=
      if "wss://".toList.isPrefixOf trimmed || "ws://".toList.isPrefixOf trimmed then trimmed
      else if "//".toList.isPrefixOf trimmed then "wss:".toList ++ trimmed
      else "wss://".toList ++ trimmed
    if normalized.getLast? = some '/' then String.ofList normalized.dropLast
    else String.ofList normalized

/-- The marker of a tag, in lower case; empty when there is none.  No letter outside ASCII
becomes one of `read` or `write` in lower case, so only ASCII letters are changed. -/
def markerOf (tag : List String) : List Char := (tag[2]?.getD "").toList.map Char.toLower

/-- One `r` tag, in the loop over the tags. -/
def relayOfTag (tag : List String) : Option RelayInfo :=
  match tag[0]?, tag[1]? with
  | some name, some value =>
    if name = "r" ∧ value ≠ "" ∧ normalizeUrl value ≠ "" then
      some
        { url := normalizeUrl value
          read := markerOf tag = [] ∨ markerOf tag = "read".toList
          write := markerOf tag = [] ∨ markerOf tag = "write".toList }
    else none
  | _, _ => none

def uniqueRelays (relays : List RelayInfo) : Map String RelayInfo :=
  relays.foldl (fun unique relay => AList.insert relay.url relay unique) ∅

/-- The entries, in the order of a hash map. -/
def parseKind10002 (walk : IterOrder String) (kind : UInt16) (tags : List (List String)) :
    Except ParserError (List RelayInfo) :=
  if kind ≠ 10002 then .error (.other "event is not kind 10002")
  else
    let unique := uniqueRelays (tags.filterMap relayOfTag)
    .ok ((walk.order unique.keys).filterMap unique.lookup)

/-! ### What the tags say -/

inductive RelayRole
  | read
  | write
  deriving DecidableEq, Repr

def RelayRole.marker : RelayRole → List Char
  | .read => "read".toList
  | .write => "write".toList

def RelayInfo.serves (role : RelayRole) (relay : RelayInfo) : Bool :=
  match role with
  | .read => relay.read
  | .write => relay.write

/-- The tag lists the relay for the role. -/
def TagLists (role : RelayRole) (url : String) (tag : List String) : Prop :=
  tag[0]? = some "r" ∧ tag[1]?.map normalizeUrl = some url ∧
    (markerOf tag = [] ∨ markerOf tag = role.marker)

instance (role : RelayRole) (url : String) (tag : List String) :
    Decidable (TagLists role url tag) :=
  inferInstanceAs (Decidable (_ ∧ _ ∧ (_ ∨ _)))

/-- **What the tags say**: some `r` tag has the address, and no marker or that of the
role. -/
def ListsRelay (role : RelayRole) (tags : List (List String)) (url : String) : Prop :=
  url ≠ "" ∧ ∃ tag ∈ tags, TagLists role url tag

instance (role : RelayRole) (tags : List (List String)) (url : String) :
    Decidable (ListsRelay role tags url) :=
  inferInstanceAs (Decidable (_ ∧ ∃ tag ∈ tags, _))

/-- The entry of the last `r` tag with an address. -/
def lastRelay (tags : List (List String)) (url : String) : Option RelayInfo :=
  ((tags.filterMap relayOfTag).filter fun relay => relay.url = url).getLast?

/-- Of the tags with one address, the last one has the role if any has. -/
def LastMarkerDecides (role : RelayRole) (tags : List (List String)) : Prop :=
  ∀ url, ListsRelay role tags url → (lastRelay tags url).any (·.serves role) = true

/-! ### The entries -/

theorem normalizeUrl_empty : normalizeUrl "" = "" := rfl

theorem relayOfTag_spec (role : RelayRole) {url : String} (hurl : url ≠ "") (tag : List String) :
    (∃ relay, relayOfTag tag = some relay ∧ relay.url = url ∧ relay.serves role = true) ↔
      TagLists role url tag := by
  unfold relayOfTag TagLists
  rcases hname : tag[0]? with _ | name
  · simp
  · rcases hvalue : tag[1]? with _ | value
    · simp
    · simp only [some.injEq, map_some]
      by_cases hr : name = "r" ∧ normalizeUrl value = url
      · obtain ⟨rfl, rfl⟩ := hr
        have hne : value ≠ "" := by
          rintro rfl
          exact hurl normalizeUrl_empty
        rw [if_pos ⟨rfl, hne, hurl⟩]
        cases role <;> simp [RelayInfo.serves, RelayRole.marker]
      · constructor
        · rintro ⟨relay, hrelay, hu, -⟩
          split at hrelay
          · next hcond =>
            cases hrelay
            exact absurd ⟨hcond.1, hu⟩ hr
          · exact absurd hrelay.symm (some_ne_none relay)
        · rintro ⟨hn, hu, -⟩
          exact absurd ⟨hn, hu⟩ hr

theorem url_relayOfTag_ne {tag : List String} {relay : RelayInfo}
    (h : relayOfTag tag = some relay) : relay.url ≠ "" := by
  unfold relayOfTag at h
  split at h
  · split at h
    · next hcond =>
      cases h
      exact hcond.2.2
    · exact absurd h.symm (some_ne_none relay)
  · exact absurd h.symm (some_ne_none relay)

theorem listsRelay_iff {role : RelayRole} {tags : List (List String)} {url : String} :
    ListsRelay role tags url ↔
      ∃ relay ∈ tags.filterMap relayOfTag, relay.url = url ∧ relay.serves role = true := by
  unfold ListsRelay
  constructor
  · rintro ⟨hurl, tag, htag, hlists⟩
    obtain ⟨relay, hrelay, hspec⟩ := (relayOfTag_spec role hurl tag).mpr hlists
    exact ⟨relay, List.mem_filterMap.mpr ⟨tag, htag, hrelay⟩, hspec⟩
  · rintro ⟨relay, hmem, hspec⟩
    obtain ⟨tag, htag, hrelay⟩ := List.mem_filterMap.mp hmem
    have hurl : url ≠ "" := by
      rw [← hspec.1]
      exact url_relayOfTag_ne hrelay
    exact ⟨hurl, tag, htag, (relayOfTag_spec role hurl tag).mp ⟨relay, hrelay, hspec⟩⟩

theorem lookup_uniqueRelays (relays : List RelayInfo) (url : String) :
    (uniqueRelays relays).lookup url
      = (relays.filter fun relay => relay.url = url).getLast? := by
  induction relays using List.reverseRecOn with
  | nil => rfl
  | append_singleton relays relay ih =>
    have hfold : uniqueRelays (relays ++ [relay])
        = AList.insert relay.url relay (uniqueRelays relays) := by
      rw [uniqueRelays, foldl_append]
      rfl
    rw [hfold, Map.lookup_insert_ite, filter_append]
    by_cases hurl : url = relay.url
    · have hkept : decide (relay.url = url) = true := decide_eq_true hurl.symm
      rw [if_pos hurl, filter_singleton, hkept, cond_true, List.getLast?_append,
        List.getLast?_singleton]
      rfl
    · have hdropped : decide (relay.url = url) = false := decide_eq_false (Ne.symm hurl)
      rw [if_neg hurl, ih, filter_singleton, hdropped, cond_false, append_nil]

theorem url_of_lookup {relays : List RelayInfo} {url : String} {relay : RelayInfo}
    (h : (uniqueRelays relays).lookup url = some relay) : relay.url = url := by
  rw [lookup_uniqueRelays] at h
  have hmem := mem_of_getLast? h
  rw [mem_filter, decide_eq_true_eq] at hmem
  exact hmem.2

section Parsed

variable {walk : IterOrder String} {kind : UInt16} {tags : List (List String)}
  {parsed : List RelayInfo}

theorem mem_parsed (h : parseKind10002 walk kind tags = .ok parsed) (relay : RelayInfo) :
    relay ∈ parsed ↔ lastRelay tags relay.url = some relay := by
  unfold parseKind10002 at h
  split at h
  · cases h
  · cases h
    rw [mem_filterMap, lastRelay, ← lookup_uniqueRelays]
    constructor
    · rintro ⟨url, -, hlookup⟩
      rw [url_of_lookup hlookup]
      exact hlookup
    · intro hlookup
      refine ⟨relay.url, ?_, hlookup⟩
      rw [(walk.perm _).mem_iff, ← AList.mem_keys, ← AList.lookup_isSome, hlookup]
      rfl

theorem nodup_parsed (h : parseKind10002 walk kind tags = .ok parsed) :
    (parsed.map RelayInfo.url).Nodup := by
  unfold parseKind10002 at h
  split at h
  · cases h
  · cases h
    generalize tags.filterMap relayOfTag = relays
    have hwalk := (walk.perm _).nodup_iff.mpr (uniqueRelays relays).keys_nodup
    refine (List.pairwise_map.mpr ?_ : List.Nodup _)
    rw [pairwise_filterMap]
    refine hwalk.imp ?_
    intro a b hab relay hrelay relay' hrelay' heq
    rw [url_of_lookup hrelay, url_of_lookup hrelay'] at heq
    exact hab heq

/-- **What a relay list is read as.**  The entries name the relays that the tags name for a
role exactly when the last marker decides. -/
theorem parsed_lists_iff (h : parseKind10002 walk kind tags = .ok parsed) (role : RelayRole) :
    (∀ url, (∃ relay ∈ parsed, relay.url = url ∧ relay.serves role = true) ↔
      ListsRelay role tags url) ↔ LastMarkerDecides role tags := by
  have hentry : ∀ url, (∃ relay ∈ parsed, relay.url = url ∧ relay.serves role = true) ↔
      (lastRelay tags url).any (·.serves role) = true := by
    intro url
    rw [Option.any_eq_true]
    constructor
    · rintro ⟨relay, hmem, rfl, hserves⟩
      exact ⟨relay, (mem_parsed h relay).mp hmem, hserves⟩
    · rintro ⟨relay, hlast, hserves⟩
      have hurl : relay.url = url := url_of_lookup (by rw [lookup_uniqueRelays]; exact hlast)
      exact ⟨relay, (mem_parsed h relay).mpr (by rw [hurl]; exact hlast), hurl, hserves⟩
  unfold LastMarkerDecides
  refine forall_congr' fun url => ?_
  rw [hentry url]
  -- what is kept was in a tag, so one direction always holds
  refine ⟨Iff.mpr, fun hlast => ⟨fun hany => ?_, hlast⟩⟩
  obtain ⟨relay, hrelay, hserves⟩ := (Option.any_eq_true _ _).mp hany
  have hmem := mem_of_getLast? hrelay
  rw [mem_filter, decide_eq_true_eq] at hmem
  exact listsRelay_iff.mpr ⟨relay, hmem.1, hmem.2, hserves⟩

end Parsed

end RelayList
end Nipworker
