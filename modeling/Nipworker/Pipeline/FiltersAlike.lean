/-
Filtering live and cached events alike (`pipeline/pipes/`).

The two entrances of a pipe should hide the same events.  `FiltersAlike` says, pipe
by pipe, on which events they do, in terms of the criteria, the event and the state
of the pipe before it.
-/
import Nipworker.Pipeline.FilterPipes

namespace Nipworker

open List Option

/-- The npub limiter has room for an event: it is of the limited kind, it has a key,
and under this key nothing was forwarded, or an older event, or less than the
limit. -/
def NpubLimiterPipe.LetsThrough (pipe : NpubLimiterPipe) (ev : SignedEvent) : Prop :=
  ev.kind = pipe.kind ∧ pipe.limiterKey ev ≠ "" ∧
    ∀ tracker last, pipe.npubTrackers.lookup (pipe.limiterKey ev) = some tracker →
      tracker.lastForwardedTimestamp = some last →
      last < ev.createdAt ∨ tracker.forwardedCount < pipe.limitPerNpub

/-- When the two entrances of a pipe agree on an event.

* Muting: the author or the id is muted, or nothing else of the event is; the
  cached entrance looks at neither tags nor content.
* Kinds: the kind is let through; the cached entrance lets every kind through.
* Chats: the limit does not come in, or the time decides the same way after it was
  cut to 32 bits.
* Npubs: the event is let through; the cached entrance does not count. -/
def FiltersAlike (lower : String → String) (ev : SignedEvent) (form : StoredForm) :
    FilterPipe → Prop
  | .mute pipe => ev.pubkey.toHex ∈ pipe.mutedPubkeys ∨ ev.id.toHex ∈ pipe.mutedEvents ∨
      (ev.tags.any pipe.refersToMuted = false ∧
        ev.tags.any (pipe.hasMutedHashtag lower) = false ∧ pipe.wordsMatch lower ev = false)
  | .kind pipe => ev.kind ∈ pipe.kinds
  | .chat pipe => pipe.shouldLimitKind ev.kind = false ∨
      ∀ chat, pipe.chatId ev.pubkey.toHex (firstPTag ev.tags) = some chat →
        ∀ tracker, pipe.chatTrackers.lookup chat = some tracker →
        tracker.acceptedCount < pipe.limitPerChat ∨
          (tracker.oldestForwardedTimestamp < ev.createdAt ↔
            tracker.oldestForwardedTimestamp < form.createdAt ev.createdAt)
  | .npub pipe => pipe.LetsThrough ev

/-! ### Muting -/

theorem MuteFilterPipe.shouldDrop_iff {lower : String → String} {pipe : MuteFilterPipe}
    {ev : SignedEvent} :
    pipe.shouldDrop lower ev = true ↔ pipe.dropsCached ev.pubkey.toHex ev.id.toHex = true ∨
      ¬ (ev.tags.any pipe.refersToMuted = false ∧
        ev.tags.any (pipe.hasMutedHashtag lower) = false ∧ pipe.wordsMatch lower ev = false) := by
  rw [shouldDrop, dropsCached]
  by_cases hpk : ev.pubkey.toHex ∈ pipe.mutedPubkeys
  · simp [hpk]
  · by_cases hid : ev.id.toHex ∈ pipe.mutedEvents
    · simp [hid]
    · rw [if_neg hpk, if_neg hid]
      cases ev.tags.any pipe.refersToMuted
      · cases ev.tags.any (pipe.hasMutedHashtag lower)
        · simp [hpk, hid]
        · simp [hpk, hid]
      · simp [hpk, hid]

/-! ### Chats -/

theorem firstStoredPTag_tags (ev : SignedEvent) :
    firstStoredPTag (StoredForm.tags ev) = firstPTag ev.tags := by
  rw [firstStoredPTag, firstPTag, StoredForm.tags, List.findSome?_map]
  congr 1
  funext tag
  match tag with
  | [] => rfl
  | [_] => rfl
  | _ :: _ :: _ => rfl

namespace ChatLimiterPipe

variable (iter : IterOrder String) (pipe : ChatLimiterPipe)

/-- **The verdict** of the chat limiter: an untracked chat has room, and a tracked
one has room or the event is newer than the oldest forwarded. -/
theorem allow_snd (chat : String) (t : ℕ) :
    (pipe.allow iter chat t).2 = true ↔ ∀ tracker, pipe.chatTrackers.lookup chat = some tracker →
      tracker.acceptedCount < pipe.limitPerChat ∨ tracker.oldestForwardedTimestamp < t := by
  rw [allow]
  cases hlookup : pipe.chatTrackers.lookup chat with
  | none =>
    -- Whatever is evicted, the chat stays untracked and starts with an empty tracker.
    have hnone : ∀ trackers : Map String ChatTracker,
        (trackers = pipe.chatTrackers ∨ ∃ k, trackers = pipe.chatTrackers.erase k) →
          (trackers.lookup chat).getD ⟨0, t⟩ = ⟨0, t⟩ := by
      rintro trackers (rfl | ⟨k, rfl⟩)
      · rw [hlookup, getD_none]
      · rw [Map.lookup_erase_ite, hlookup, ite_self, getD_none]
    dsimp only
    rw [hnone _ ?_]
    · have hpos : 0 < pipe.limitPerChat := pipe.limit_pos
      rw [if_pos hpos]
      simp
    · split
      · split
        · exact Or.inr ⟨_, rfl⟩
        · exact Or.inl rfl
      · exact Or.inl rfl
  | some tracker =>
    simp only [isNone_some, Bool.false_eq_true, false_and, if_false, hlookup,
      getD_some, some.injEq, forall_eq']
    split
    · next hroom => simp [hroom]
    · next hfull => simp [hfull]

theorem judge_snd (kind : UInt16) (chat : Option String) (t : ℕ) :
    (pipe.judge iter kind chat t).2 = true ↔ pipe.shouldLimitKind kind = false ∨
      ∃ id, chat = some id ∧ ∀ tracker, pipe.chatTrackers.lookup id = some tracker →
        tracker.acceptedCount < pipe.limitPerChat ∨ tracker.oldestForwardedTimestamp < t := by
  unfold judge
  cases pipe.shouldLimitKind kind with
  | false => simp
  | true =>
    cases chat with
    | none => simp
    | some id =>
      simp only [Bool.not_true, Bool.false_eq_true, if_false, allow_snd, Bool.true_eq_false,
        false_or, some.injEq, exists_eq_left']

theorem judgeCached_stored {fb : FlatBuffers} {bytes : Bytes} {ev : SignedEvent} {form : StoredForm}
    (hbytes : fb.workerMessage bytes = some (form.message ev)) :
    pipe.judgeCached iter fb bytes = pipe.judge iter ev.kind
      (pipe.chatId ev.pubkey.toHex (firstPTag ev.tags)) (form.createdAt ev.createdAt) := by
  rw [judgeCached, hbytes]
  cases form with
  | parsedEvent =>
    simp only [StoredForm.message, firstStoredPTag_tags]
    rfl
  | nostrEvent =>
    simp only [StoredForm.message, firstStoredPTag_tags]
    rfl

theorem judge_alike (kind : UInt16) (chat : Option String) (t t' : ℕ) :
    ((pipe.judge iter kind chat t).2 = true ↔ (pipe.judge iter kind chat t').2 = true) ↔
      pipe.shouldLimitKind kind = false ∨ ∀ id, chat = some id →
        ∀ tracker, pipe.chatTrackers.lookup id = some tracker →
        tracker.acceptedCount < pipe.limitPerChat ∨
          (tracker.oldestForwardedTimestamp < t ↔ tracker.oldestForwardedTimestamp < t') := by
  rw [judge_snd, judge_snd]
  cases hkind : pipe.shouldLimitKind kind with
  | false => simp
  | true =>
    cases chat with
    | none => simp
    | some id =>
      cases hlookup : pipe.chatTrackers.lookup id with
      | none => simp [hlookup]
      | some tracker =>
        by_cases hroom : tracker.acceptedCount < pipe.limitPerChat
        · simp [hlookup, hroom]
        · simp [hlookup, hroom]

end ChatLimiterPipe

/-! ### Npubs -/

theorem NpubLimiterPipe.track_snd (pipe : NpubLimiterPipe) (tracker : NpubTracker) (t : ℕ) :
    (pipe.track tracker t).2 = true ↔ ∀ last, tracker.lastForwardedTimestamp = some last →
      last < t ∨ tracker.forwardedCount < pipe.limitPerNpub := by
  rw [track]
  cases tracker.lastForwardedTimestamp with
  | none => simp
  | some last =>
    dsimp only
    by_cases hnew : last < t
    · simp [hnew]
    · by_cases hroom : tracker.forwardedCount < pipe.limitPerNpub
      · simp [hnew, hroom]
      · simp [hnew, hroom]

/-! ### Both entrances -/

section Entrances

variable (lower : String → String) (iter : IterOrder String) {fb : FlatBuffers}
  {event : PipelineEvent} {ev : SignedEvent} {form : StoredForm} {bytes : Bytes}

theorem ite_event_eq_drop {b : Bool} :
    (if b then PipeOutput.event event else .drop) = .drop ↔ b = false := by
  cases b <;> simp

theorem MuteFilterPipe.dropsLive_iff (pipe : MuteFilterPipe) (hev : event.nostrEvent = some ev) :
    FilterPipe.DropsLive lower iter (.mute pipe) event ↔ pipe.shouldDrop lower ev = true := by
  show pipe.process lower event = .drop ↔ _
  rw [process, hev]
  cases h : pipe.shouldDrop lower ev <;> simp [h]

theorem MuteFilterPipe.dropsCached_iff (pipe : MuteFilterPipe)
    (hbytes : fb.workerMessage bytes = some (form.message ev)) :
    FilterPipe.DropsCached iter fb (.mute pipe) bytes ↔
      pipe.dropsCached ev.pubkey.toHex ev.id.toHex = true := by
  show pipe.processCachedBatch fb [bytes] = [] ↔ _
  rw [processCachedBatch, filter_cons, hbytes]
  cases form with
  | parsedEvent =>
    simp only [StoredForm.message, filter_nil]
    by_cases h : pipe.dropsCached ev.pubkey.toHex ev.id.toHex = true <;> simp [h]
  | nostrEvent =>
    simp only [StoredForm.message, filter_nil]
    by_cases h : pipe.dropsCached ev.pubkey.toHex ev.id.toHex = true <;> simp [h]

theorem KindFilterPipe.dropsLive_iff (pipe : KindFilterPipe) (hev : event.nostrEvent = some ev) :
    FilterPipe.DropsLive lower iter (.kind pipe) event ↔ ev.kind ∉ pipe.kinds := by
  show pipe.process event = .drop ↔ _
  rw [process, hev]
  by_cases hkind : ev.kind ∈ pipe.kinds <;> simp [hkind]

theorem ChatLimiterPipe.dropsLive_iff (pipe : ChatLimiterPipe) (hev : event.nostrEvent = some ev) :
    FilterPipe.DropsLive lower iter (.chat pipe) event ↔ ¬ (pipe.judge iter ev.kind
      (pipe.chatId ev.pubkey.toHex (firstPTag ev.tags)) ev.createdAt).2 = true := by
  show (pipe.process iter event).2 = .drop ↔ _
  rw [process, hev, Bool.not_eq_true]
  exact ite_event_eq_drop

theorem ChatLimiterPipe.dropsCached_iff (pipe : ChatLimiterPipe)
    (hbytes : fb.workerMessage bytes = some (form.message ev)) :
    FilterPipe.DropsCached iter fb (.chat pipe) bytes ↔ ¬ (pipe.judge iter ev.kind
      (pipe.chatId ev.pubkey.toHex (firstPTag ev.tags)) (form.createdAt ev.createdAt)).2 = true := by
  show (ChatLimiterPipe.processCachedBatch iter fb pipe [bytes]).2 = [] ↔ _
  simp only [processCachedBatch, pipe.judgeCached_stored iter hbytes]
  split
  · next h => simp [h]
  · next h => simp [h]

theorem NpubLimiterPipe.dropsLive_iff (pipe : NpubLimiterPipe) (hev : event.nostrEvent = some ev) :
    FilterPipe.DropsLive lower iter (.npub pipe) event ↔ ¬ pipe.LetsThrough ev := by
  show (pipe.process event).2 = .drop ↔ _
  rw [process, hev, LetsThrough]
  dsimp only
  by_cases hkind : ev.kind = pipe.kind
  · rw [if_neg (not_not.mpr hkind)]
    by_cases hkey : pipe.limiterKey ev = ""
    · simp [hkey]
    · rw [if_neg hkey]
      dsimp only
      rw [ite_event_eq_drop, ← Bool.not_eq_true, pipe.track_snd]
      cases hlookup : pipe.npubTrackers.lookup (pipe.limiterKey ev) with
      | none => simp [hkind, hkey]
      | some tracker => simp [hkind, hkey]
  · simp [hkind]

/-- **Cached and live events are filtered alike** exactly where `FiltersAlike` says
so, for every pipe, in every state, and every event. -/
theorem filters_alike_iff (pipe : FilterPipe) (hev : event.nostrEvent = some ev)
    (hbytes : fb.workerMessage bytes = some (form.message ev)) :
    (pipe.DropsLive lower iter event ↔ pipe.DropsCached iter fb bytes) ↔
      FiltersAlike lower ev form pipe := by
  cases pipe with
  | mute pipe =>
    rw [pipe.dropsLive_iff lower iter hev, pipe.dropsCached_iff iter hbytes,
      MuteFilterPipe.shouldDrop_iff, FiltersAlike, MuteFilterPipe.dropsCached]
    simp only [decide_eq_true_eq]
    tauto
  | kind pipe =>
    have hcached : ¬ FilterPipe.DropsCached iter fb (.kind pipe) bytes := cons_ne_nil _ _
    rw [pipe.dropsLive_iff lower iter hev, FiltersAlike]
    tauto
  | chat pipe =>
    rw [pipe.dropsLive_iff lower iter hev, pipe.dropsCached_iff iter hbytes, not_iff_not,
      pipe.judge_alike]
    rfl
  | npub pipe =>
    have hcached : ¬ FilterPipe.DropsCached iter fb (.npub pipe) bytes := cons_ne_nil _ _
    rw [pipe.dropsLive_iff lower iter hev, FiltersAlike]
    tauto

end Entrances

/-! ### Hidden live, shown from the cache -/

def patternKey (byte : UInt8) : Bytes32 := ⟨List.replicate 32 byte, length_alike byte⟩

def taggedNote : SignedEvent :=
  { id := patternKey 1, pubkey := patternKey 2, createdAt := 7, kind := 1, tags := [["t", "spam"]]
    content := "hi", sig := "" }

/-- The `WorkerMessage` with the note, as a buffer. -/
def taggedNoteBytes : Bytes :=
  [20, 0, 0, 0, 0, 0, 14, 0, 18, 0, 0, 0, 0, 0, 8, 0, 7, 0, 12, 0, 14, 0, 0, 0, 0, 0, 0, 2, 9, 0,
   0, 0, 24, 0, 0, 0, 0, 0, 18, 0, 32, 0, 8, 0, 12, 0, 6, 0, 16, 0, 20, 0, 24, 0, 28, 0, 18, 0, 0,
   0, 0, 0, 1, 0, 168, 0, 0, 0, 92, 0, 0, 0, 80, 0, 0, 0, 12, 0, 0, 0, 7, 0, 0, 0, 60, 0, 0, 0, 1,
   0, 0, 0, 12, 0, 0, 0, 0, 0, 6, 0, 8, 0, 4, 0, 6, 0, 0, 0, 4, 0, 0, 0, 2, 0, 0, 0, 20, 0, 0, 0,
   4, 0, 0, 0, 4, 0, 0, 0, 115, 112, 97, 109, 0, 0, 0, 0, 1, 0, 0, 0, 116, 0, 0, 0, 0, 0, 0, 0, 0,
   0, 0, 0, 2, 0, 0, 0, 104, 105, 0, 0, 64, 0, 0, 0, 48, 50, 48, 50, 48, 50, 48, 50, 48, 50, 48,
   50, 48, 50, 48, 50, 48, 50, 48, 50, 48, 50, 48, 50, 48, 50, 48, 50, 48, 50, 48, 50, 48, 50, 48,
   50, 48, 50, 48, 50, 48, 50, 48, 50, 48, 50, 48, 50, 48, 50, 48, 50, 48, 50, 48, 50, 48, 50, 48,
   50, 48, 50, 48, 50, 0, 0, 0, 0, 64, 0, 0, 0, 48, 49, 48, 49, 48, 49, 48, 49, 48, 49, 48, 49, 48,
   49, 48, 49, 48, 49, 48, 49, 48, 49, 48, 49, 48, 49, 48, 49, 48, 49, 48, 49, 48, 49, 48, 49, 48,
   49, 48, 49, 48, 49, 48, 49, 48, 49, 48, 49, 48, 49, 48, 49, 48, 49, 48, 49, 48, 49, 48, 49, 48,
   49, 48, 49, 0, 0, 0, 0]

def taggedNoteReaders : FlatBuffers :=
  FlatBuffers.ofTable [(taggedNoteBytes, StoredForm.nostrEvent.message taggedNote)]

theorem workerMessage_taggedNote : taggedNoteReaders.workerMessage taggedNoteBytes =
    some (StoredForm.nostrEvent.message taggedNote) := by
  simp [taggedNoteReaders, FlatBuffers.ofTable]

/-- A filter for the note's own kind treats it alike. -/
theorem filters_alike_iff_kindOne :
    (FilterPipe.kind ⟨{1}⟩).DropsLive id (IterOrder.entries String) ⟨some taggedNote, none⟩ ↔
      (FilterPipe.kind ⟨{1}⟩).DropsCached (IterOrder.entries String) taggedNoteReaders
        taggedNoteBytes :=
  (filters_alike_iff id (IterOrder.entries String) (.kind ⟨{1}⟩)
    (show PipelineEvent.nostrEvent ⟨some taggedNote, none⟩ = some taggedNote from rfl)
    workerMessage_taggedNote).mpr (show (1 : UInt16) ∈ ({1} : Finset UInt16) by decide)

/-- Mutes the hashtag `spam`. -/
def spamFilter : MuteFilterPipe :=
  { mutedPubkeys := ∅, mutedHashtags := {"spam"}, mutedWords := [], mutedEvents := ∅
    target := .both }

/-- Lets one note of each author through, and has seen a later one of this author. -/
def usedQuota : NpubLimiterPipe :=
  { kind := 1, limitPerNpub := 1, keyBy := .author
    npubTrackers := (∅ : Map String NpubTracker).insert (patternKey 2).toHex ⟨some 9, 1⟩ }

/-- The pipe drops the tagged note live, and not from the cache. -/
def HidesTaggedNoteOnlyLive (pipe : FilterPipe) : Prop :=
  pipe.DropsLive id (IterOrder.entries String) ⟨some taggedNote, none⟩ ∧
    ¬ pipe.DropsCached (IterOrder.entries String) taggedNoteReaders taggedNoteBytes

/-- A muted hashtag, a foreign kind and a used quota: live the note is dropped, from
the cache it is not. -/
theorem filters_differ :
    HidesTaggedNoteOnlyLive (.mute spamFilter) ∧ HidesTaggedNoteOnlyLive (.kind ⟨{9321}⟩) ∧
      HidesTaggedNoteOnlyLive (.npub usedQuota) := by
  have hev : PipelineEvent.nostrEvent ⟨some taggedNote, none⟩ = some taggedNote := rfl
  refine ⟨?_, ?_, ?_⟩
  · rw [HidesTaggedNoteOnlyLive, spamFilter.dropsLive_iff id _ hev,
      spamFilter.dropsCached_iff _ workerMessage_taggedNote]
    exact ⟨by decide, by decide⟩
  · rw [HidesTaggedNoteOnlyLive, KindFilterPipe.dropsLive_iff id _ _ hev]
    exact ⟨by decide, cons_ne_nil _ _⟩
  · rw [HidesTaggedNoteOnlyLive, usedQuota.dropsLive_iff id _ hev]
    refine ⟨?_, cons_ne_nil _ _⟩
    -- the author's one note has been let through already
    rintro ⟨-, -, hroom⟩
    have hquota := hroom ⟨some 9, 1⟩ 9 (AList.lookup_insert _) rfl
    exact absurd hquota (by decide)

end Nipworker
