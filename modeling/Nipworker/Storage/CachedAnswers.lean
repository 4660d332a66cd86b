/-
Cached answers and the request they answer.

A request that is answered from the cache should not deliver an event that a
relay would not.  This holds for the requests whose conditions are all carried
over to the index (`Request.Carried`), and for those that have no answer
(`Request.Unanswerable`), in every state of a storage in use.  It fails for a
condition on a tag without an index: the condition is dropped.
-/
import Nipworker.Storage.Hydration
import Nipworker.Storage.Request

namespace Nipworker

open List

def blobEvents (fb : FlatBuffers) (blobs : Map String Bytes) : List Event :=
  blobs.keys.flatMap fun key =>
    if key = tombstonesKey then []
    else (unframe ((blobs.lookup key).getD [])).filterMap fb.storedEvent

def sessionEvents (fb : FlatBuffers) (session : List SessionStep) : List Event :=
  (session.filterMap SessionStep.message).filterMap fb.storedEvent

theorem soundBlobs_blobEvents (fb : FlatBuffers) {blobs : Map String Bytes}
    (hsmall : ∀ key bytes, blobs.lookup key = some bytes → bytes.length ≤ 2 ^ 32)
    (known : List Event) : SoundBlobs fb (blobEvents fb blobs ++ known) blobs := by
  intro key hkey bytes hlookup
  refine ⟨hsmall key bytes hlookup, fun payload hpayload ev hev => ?_⟩
  refine mem_append_left _ (List.mem_flatMap.mpr ⟨key, ?_, ?_⟩)
  · rw [← AList.mem_keys, ← AList.lookup_isSome, hlookup]
    rfl
  · rw [if_neg hkey, hlookup, Option.getD_some]
    exact List.mem_filterMap.mpr ⟨payload, hpayload, hev⟩

theorem sound_session {fb : FlatBuffers} (hempty : fb.RejectsEmpty) {maxBufferSize : ℕ}
    (hcap : maxBufferSize + legacyDedicatedBytes ≤ 2 ^ 32) (fails : ℕ → Bool)
    {blobs : Map String Bytes}
    (hblobs : ∀ key bytes, blobs.lookup key = some bytes → bytes.length ≤ 2 ^ 32)
    (shards : IterOrder ShardId) (now : ℕ) (session : List SessionStep)
    (hdet : DeterminedIds (blobEvents fb blobs ++ sessionEvents fb session)) :
    Sound fb (blobEvents fb blobs ++ sessionEvents fb session)
      (World.run fb maxBufferSize fails { store := .new maxBufferSize, blobs := blobs, ops := 0 }
        (.initializeStorage shards now :: session.flatMap SessionStep.steps)) := by
  rw [World.run_cons]
  refine Sound.run hempty hdet hcap session ?_ fun bytes hbytes ev hev => ?_
  · have hopen : SoundBlobs fb (blobEvents fb blobs ++ sessionEvents fb session)
        (World.blobs { store := .new maxBufferSize, blobs := blobs, ops := 0 }) :=
      soundBlobs_blobEvents fb hblobs (sessionEvents fb session)
    exact sound_initializeStorage hdet hcap shards now hopen
  · exact mem_append_right _ (List.mem_filterMap.mpr ⟨bytes, hbytes, hev⟩)

/-- What a query of a database that reads its events returns: bytes of events
that match the filter, and nothing when the limit is zero. -/
theorem NostrDB.ReadsEvents.query {fb : FlatBuffers} {known : List Event}
    (hdet : DeterminedIds known) {db : NostrDB} (h : db.ReadsEvents fb known)
    (order : IterOrder EventKey) (sel : SelectNth (ℕ × ℕ) survivorTime) (filter : QueryFilter) :
    ∃ result, db.queryEventsWithFilter order sel filter = .ok result ∧
      (filter.limit = some 0 → result.events = []) ∧
      ∀ bytes ∈ result.events, ∃ ev, fb.storedEvent bytes = some ev ∧ ev.Matches filter := by
  obtain ⟨history, evs, htracks, hevs, -⟩ := h
  have hdet' : DeterminedIds evs := hdet.of_subset hevs
  obtain ⟨result, chosen, hquery, htop, -, hread, -⟩ := htracks.query hdet' order sel filter true
  refine ⟨result, hquery, fun hzero => ?_, fun bytes hbytes => ?_⟩
  · have hlen := htop.1
    rw [hzero, Option.getD_some, Nat.zero_min, hread.length_eq] at hlen
    exact eq_nil_of_length_eq_zero hlen
  · obtain ⟨ev, hev, x, hx, hid, hstored⟩ : ∃ ev ∈ chosen, ∃ x ∈ evs, x.id = ev.id ∧
        fb.storedEvent bytes = some x := by
      obtain ⟨i, hi, rfl⟩ := List.mem_iff_getElem.mp hbytes
      have hi' : i < chosen.length := by rw [hread.length_eq]; exact hi
      exact ⟨chosen[i], getElem_mem hi', hread.get hi' hi⟩
    have hvisible := htop.subset ev hev
    obtain ⟨hmem, record, hrec⟩ := exists_record_of_visible hvisible
    obtain ⟨-, -, -, hmatches⟩ := (mem_visibleEvents_iff hrec).mp hvisible
    rw [hdet' x hx ev hmem hid] at hstored
    exact ⟨ev, hstored, hmatches⟩

/-- **Cached answers satisfy the request.**  Open a storage over any blobs, use
it in any way and with any failures; whatever a request is answered with from
the cache matches every condition of it, if all of them are carried over or it
has no answer. -/
theorem cached_answers_match (fb : FlatBuffers) (hempty : fb.RejectsEmpty)
    (found : String → Event → Prop) (maxBufferSize : ℕ)
    (hcap : maxBufferSize + legacyDedicatedBytes ≤ 2 ^ 32) (fails : ℕ → Bool)
    (blobs : Map String Bytes)
    (hblobs : ∀ key bytes, blobs.lookup key = some bytes → bytes.length ≤ 2 ^ 32)
    (shards : IterOrder ShardId) (now : ℕ) (session : List SessionStep)
    (hdet : DeterminedIds (blobEvents fb blobs ++ sessionEvents fb session))
    (walk : IterOrder String) (req : Request) (hreq : req.Carried walk ∨ req.Unanswerable walk)
    (order : IterOrder EventKey) (sel : SelectNth (ℕ × ℕ) survivorTime) :
    let w := World.run fb maxBufferSize fails
      { store := .new maxBufferSize, blobs := blobs, ops := 0 }
      (.initializeStorage shards now :: session.flatMap SessionStep.steps)
    ∀ filter, req.toFilter walk = .ok filter →
      ∀ bytes ∈ w.store.core.queryFilters fb order sel [filter],
        ∃ ev, fb.storedEvent bytes = some ev ∧ req.Matches found ev := by
  have hsound := sound_session hempty hcap fails hblobs shards now session hdet
  generalize World.run fb maxBufferSize fails _ (_ :: _) = w at hsound ⊢
  intro w filter hfilter bytes hbytes
  obtain ⟨result, hquery, hzero, hread⟩ :=
    hsound.core.query hdet order sel (filterToQueryFilter filter)
  have hmem : bytes ∈ result.events := by
    unfold NostrDB.queryFilters at hbytes
    dsimp only at hbytes
    rw [(perm_sortDesc _ _).mem_iff, flatMap_singleton, hquery] at hbytes
    exact hbytes
  obtain ⟨ev, hev, hmatches⟩ := hread bytes hmem
  refine ⟨ev, hev, ?_⟩
  rcases hreq with hcarried | hnone
  · exact Request.matches_of_carried hfilter hcarried found hmatches
  · rcases Request.unanswerable_cases hfilter hnone with hlimit | hno
    · rw [hzero hlimit] at hmem
      cases hmem
    · exact absurd hmatches (hno ev)

/-- A session in which the note and its deletion are stored. -/
def storedNotes : List SessionStep :=
  [.persist (.entries _) 1 1 noteBytes, .persist (.entries _) 1 1 noteDeletionBytes]

def answersAfter (session : List SessionStep) (req : Request) : List Bytes :=
  match req.toFilter (.entries _) with
  | .error _ => []
  | .ok filter =>
    (World.run noteReaders 8388608 neverFails { store := .new 8388608, blobs := ∅, ops := 0 }
      (.initializeStorage (.entries _) 0 :: session.flatMap SessionStep.steps)).store.core.queryFilters
        noteReaders (.entries _) (.sort _) [filter]

def referencesRequest : Request :=
  { ids := [], authors := [], kinds := [5], tags := AList.insert "#e" ["n1"] ∅,
    sinceTime := some 3, untilTime := none, limit := none, search := none }

theorem carried_referencesRequest : referencesRequest.Carried (.entries _) := by
  refine ⟨fun key values hkey => ?_, fun k hk => ?_, nofun, rfl⟩
  · have hlookup : (AList.insert "#e" ["n1"] ∅ : Map String (List String)).lookup key
        = some values := hkey
    rw [Map.lookup_insert_ite] at hlookup
    split at hlookup
    · next heq =>
      cases hlookup
      rw [heq]
      exact ⟨.e, rfl, ["n1"], by decide +kernel, fun _ hv => hv⟩
    · cases hlookup
  · rw [show k = 5 from List.mem_singleton.mp hk]
    exact ⟨5, mem_singleton_self _, by decide⟩

theorem cached_answers_match_references :
    answersAfter storedNotes referencesRequest = [noteDeletionBytes] ∧
      ∀ bytes ∈ answersAfter storedNotes referencesRequest,
        ∃ ev, noteReaders.storedEvent bytes = some ev ∧
          referencesRequest.Matches (fun _ _ => False) ev := by
  refine ⟨by decide +kernel, fun bytes hbytes => ?_⟩
  unfold answersAfter at hbytes
  rcases hfilter : referencesRequest.toFilter (.entries _) with e | filter <;>
    rw [hfilter] at hbytes
  · cases hbytes
  · exact cached_answers_match noteReaders noteReaders_rejectsEmpty (fun _ _ => False) 8388608
      (by decide) neverFails ∅ nofun (.entries _) 0 storedNotes (by decide +kernel) (.entries _)
      referencesRequest (.inl carried_referencesRequest) (.entries _) (.sort _) filter hfilter bytes
      hbytes

def topicRequest : Request :=
  { ids := [], authors := [], kinds := [], tags := AList.insert "#t" ["rust"] ∅,
    sinceTime := none, untilTime := none, limit := none, search := none }

/-- The note has no tag, and yet it answers a request for a topic. -/
theorem untaggedNote_answers :
    ¬ ∀ bytes ∈ answersAfter [.persist (.entries _) 1 1 noteBytes] topicRequest,
      ∃ ev, noteReaders.storedEvent bytes = some ev ∧
        topicRequest.Matches (fun _ _ => True) ev := by
  intro h
  obtain ⟨ev, hev, hmatches⟩ := h noteBytes (by decide +kernel)
  have hnote : noteReaders.storedEvent noteBytes = some note.event := by decide +kernel
  rw [hnote] at hev
  cases hev
  obtain ⟨value, -, tag, htag, -⟩ := hmatches.tags "#t" ["rust"] (AList.lookup_insert _)
  cases htag

end Nipworker
