/-
The filtering pipes (`pipeline/pipes/mute.rs`, `kind_filter.rs`,
`chat_limiter.rs`, `npub_limiter.rs`).

Every pipe has two entrances: `process` for an event that comes from a relay, and
`process_cached_batch` for the stored messages that come from the cache.  A pipe
that does not write the second one inherits the default of the trait, which passes
every message on.

`to_lowercase` is a parameter; the two limiters keep hash maps, and the chat
limiter's choice among equally old chats follows the order of the walk.
-/
import Nipworker.Types.Nostr

namespace Nipworker

/-- An event on its way through the pipes. -/
structure PipelineEvent where
  raw : Option SignedEvent
  parsed : Option SignedEvent

def PipelineEvent.nostrEvent (event : PipelineEvent) : Option SignedEvent :=
  match event.raw with
  | some raw => some raw
  | none => event.parsed

/-- `PipeOutput` of a filter. -/
inductive PipeOutput
  | event (e : PipelineEvent)
  | drop

/-! ### Muted authors, events, hashtags and words -/

/-- The parts of an event that are looked at. -/
inductive MuteTarget
  | content
  | tags
  | both
  deriving DecidableEq

/-- What the user has muted. -/
structure MuteFilterPipe where
  mutedPubkeys : Finset String
  mutedHashtags : Finset String
  mutedWords : List String
  mutedEvents : Finset String
  target : MuteTarget

namespace MuteFilterPipe

variable (lower : String → String) (pipe : MuteFilterPipe)

/-- A muted event id in an `e` tag. -/
def refersToMuted (tag : List String) : Bool :=
  match tag with
  | name :: value :: _ => name = "e" ∧ value ∈ pipe.mutedEvents
  | _ => false

/-- A muted hashtag in a `t` tag. -/
def hasMutedHashtag (tag : List String) : Bool :=
  match tag with
  | name :: value :: _ => name = "t" ∧ lower value ∈ pipe.mutedHashtags
  | _ => false

/-- A muted word somewhere in a text (`str::contains`). -/
def hasMutedWord (text : String) : Bool :=
  pipe.mutedWords.any fun w => (Text.afterFirst w.toList (lower text).toList).isSome

/-- A muted word in the content or in the values of the tags, as the target says. -/
def wordsMatch (ev : SignedEvent) : Bool :=
  (pipe.target ≠ .tags ∧ ev.content ≠ "" ∧ pipe.hasMutedWord lower ev.content) ∨
    (pipe.target ≠ .content ∧ ev.tags.any fun tag => tag.tail.any (pipe.hasMutedWord lower))

/-- `should_drop`; its tests for empty sets only save work. -/
def shouldDrop (ev : SignedEvent) : Bool :=
  if ev.pubkey.toHex ∈ pipe.mutedPubkeys then true
  else if ev.id.toHex ∈ pipe.mutedEvents then true
  else if ev.tags.any pipe.refersToMuted then true
  else if ev.tags.any (pipe.hasMutedHashtag lower) then true
  else pipe.wordsMatch lower ev

/-- `MuteFilterPipe::process`; without an event it drops. -/
def process (event : PipelineEvent) : PipeOutput :=
  let drop :=
    match event.nostrEvent with
    | some ev => pipe.shouldDrop lower ev
    | none => true
  if drop then .drop else .event event

/-- What the cached path looks at: the author and the id. -/
def dropsCached (pubkey id : String) : Bool :=
  pubkey ∈ pipe.mutedPubkeys ∨ id ∈ pipe.mutedEvents

def processCachedBatch (fb : FlatBuffers) (messages : List Bytes) : List Bytes :=
  messages.filter fun bytes =>
    match fb.workerMessage bytes with
    | some (.parsedEvent p) => !pipe.dropsCached p.pubkey p.id
    | some (.nostrEvent n) => !pipe.dropsCached n.pubkey n.id
    | _ => true

end MuteFilterPipe

/-! ### Kinds -/

structure KindFilterPipe where
  kinds : Finset UInt16

def KindFilterPipe.process (pipe : KindFilterPipe) (event : PipelineEvent) : PipeOutput :=
  match event.nostrEvent with
  | none => .drop
  | some ev => if ev.kind ∈ pipe.kinds then .event event else .drop

/-! ### Chats -/

/-- What the limiter knows of a chat. -/
structure ChatTracker where
  acceptedCount : ℕ
  oldestForwardedTimestamp : ℕ

/-- `ChatLimiterPipe`; the constructor makes both limits positive. -/
structure ChatLimiterPipe where
  ownPubkey : String
  limitPerChat : ℕ
  maxChats : ℕ
  kinds : Finset UInt16
  chatTrackers : Map String ChatTracker
  limit_pos : 1 ≤ limitPerChat
  max_pos : 1 ≤ maxChats

/-- The first item with the least key (`Iterator::min_by_key`). -/
def minByKey {α : Type} (key : α → ℕ) : List α → Option α
  | [] => none
  | a :: rest =>
    match minByKey key rest with
    | none => some a
    | some b => if key b < key a then some b else some a

/-- The first `p` tag of a live event. -/
def firstPTag (tags : List (List String)) : Option String :=
  tags.findSome? fun tag =>
    match tag with
    | name :: value :: _ => if name = "p" then some value else none
    | _ => none

/-- The first `p` tag of a stored one. -/
def firstStoredPTag (tags : List StringVec) : Option String :=
  tags.findSome? fun tag => tag.pair.bind fun p => if p.1 = "p" then some p.2 else none

namespace ChatLimiterPipe

variable (iter : IterOrder String) (pipe : ChatLimiterPipe)

def shouldLimitKind (kind : UInt16) : Bool := pipe.kinds = ∅ ∨ kind ∈ pipe.kinds

/-- `chat_id_from_event` and its two copies for stored events: the author, or the
first `p` tag of an own event. -/
def chatId (author : String) (pTag : Option String) : Option String :=
  if author ≠ pipe.ownPubkey then some author else pTag

def allow (chatId : String) (createdAt : ℕ) : ChatLimiterPipe × Bool :=
  let trackers :=
    if (pipe.chatTrackers.lookup chatId).isNone ∧ pipe.maxChats ≤ pipe.chatTrackers.keys.length then
      match minByKey (fun k => ((pipe.chatTrackers.lookup k).map
          ChatTracker.oldestForwardedTimestamp).getD 0) (iter.order pipe.chatTrackers.keys) with
      | some oldest => pipe.chatTrackers.erase oldest
      | none => pipe.chatTrackers
    else pipe.chatTrackers
  let tracker := (trackers.lookup chatId).getD ⟨0, createdAt⟩
  if tracker.acceptedCount < pipe.limitPerChat then
    let tracker : ChatTracker :=
      ⟨tracker.acceptedCount + 1, min tracker.oldestForwardedTimestamp createdAt⟩
    ({ pipe with chatTrackers := trackers.insert chatId tracker }, true)
  else
    ({ pipe with chatTrackers := trackers.insert chatId tracker },
      tracker.oldestForwardedTimestamp < createdAt)

/-- The common body: other kinds pass, an event without a chat is dropped. -/
def judge (kind : UInt16) (chat : Option String) (createdAt : ℕ) : ChatLimiterPipe × Bool :=
  if !pipe.shouldLimitKind kind then (pipe, true)
  else
    match chat with
    | none => (pipe, false)
    | some id => pipe.allow iter id createdAt

def process (event : PipelineEvent) : ChatLimiterPipe × PipeOutput :=
  match event.nostrEvent with
  | none => (pipe, .drop)
  | some ev =>
    let judged := pipe.judge iter ev.kind
      (pipe.chatId ev.pubkey.toHex (firstPTag ev.tags)) ev.createdAt
    (judged.1, if judged.2 then .event event else .drop)

/-- One message of the cache; `created_at` of a `NostrEvent` is an `i32` read as a
`u64`. -/
def judgeCached (fb : FlatBuffers) (bytes : Bytes) : ChatLimiterPipe × Bool :=
  match fb.workerMessage bytes with
  | some (.parsedEvent p) =>
    pipe.judge iter p.kind (pipe.chatId p.pubkey (firstStoredPTag p.tags)) p.createdAt
  | some (.nostrEvent n) =>
    pipe.judge iter n.kind (pipe.chatId n.pubkey (firstStoredPTag n.tags))
      (n.createdAt % 2 ^ 64).toNat
  | _ => (pipe, true)

def processCachedBatch (fb : FlatBuffers) :
    ChatLimiterPipe → List Bytes → ChatLimiterPipe × List Bytes
  | pipe, [] => (pipe, [])
  | pipe, bytes :: rest =>
    let judged := pipe.judgeCached iter fb bytes
    let filtered := processCachedBatch fb judged.1 rest
    (filtered.1, if judged.2 then bytes :: filtered.2 else filtered.2)

end ChatLimiterPipe

/-! ### Authors and recipients -/

/-- Whose events are limited together. -/
inductive NpubLimiterKey
  | author
  | pTag

/-- What the limiter knows of an account. -/
structure NpubTracker where
  lastForwardedTimestamp : Option ℕ
  forwardedCount : ℕ

structure NpubLimiterPipe where
  kind : UInt16
  limitPerNpub : ℕ
  keyBy : NpubLimiterKey
  npubTrackers : Map String NpubTracker

namespace NpubLimiterPipe

variable (pipe : NpubLimiterPipe)

def limiterKey (ev : SignedEvent) : String :=
  match pipe.keyBy with
  | .author => ev.pubkey.toHex
  | .pTag => (firstPTag ev.tags).getD ""

/-- The tracker after an event, and whether the event is forwarded. -/
def track (tracker : NpubTracker) (createdAt : ℕ) : NpubTracker × Bool :=
  match tracker.lastForwardedTimestamp with
  | none => ({ lastForwardedTimestamp := some createdAt, forwardedCount := 1 }, true)
  | some last =>
    if last < createdAt then
      ({ tracker with forwardedCount :=
          if pipe.limitPerNpub ≤ tracker.forwardedCount then pipe.limitPerNpub
          else tracker.forwardedCount + 1 }, true)
    else if tracker.forwardedCount < pipe.limitPerNpub then
      ({ lastForwardedTimestamp := some createdAt
         forwardedCount := tracker.forwardedCount + 1 }, true)
    else (tracker, false)

def process (event : PipelineEvent) : NpubLimiterPipe × PipeOutput :=
  match event.nostrEvent with
  | none => (pipe, .drop)
  | some ev =>
    if ev.kind ≠ pipe.kind then (pipe, .drop)
    else if pipe.limiterKey ev = "" then (pipe, .drop)
    else
      let key := pipe.limiterKey ev
      let tracked := pipe.track ((pipe.npubTrackers.lookup key).getD ⟨none, 0⟩) ev.createdAt
      ({ pipe with npubTrackers := pipe.npubTrackers.insert key tracked.1 },
        if tracked.2 then .event event else .drop)

end NpubLimiterPipe

/-! ### All filters -/

/-- The filtering pipes of `PipeType`. -/
inductive FilterPipe
  | mute (pipe : MuteFilterPipe)
  | kind (pipe : KindFilterPipe)
  | chat (pipe : ChatLimiterPipe)
  | npub (pipe : NpubLimiterPipe)

namespace FilterPipe

variable (lower : String → String) (iter : IterOrder String)

def process (event : PipelineEvent) : FilterPipe → FilterPipe × PipeOutput
  | .mute pipe => (.mute pipe, pipe.process lower event)
  | .kind pipe => (.kind pipe, pipe.process event)
  | .chat pipe => let r := pipe.process iter event; (.chat r.1, r.2)
  | .npub pipe => let r := pipe.process event; (.npub r.1, r.2)

/-- `PipeType::process_cached_batch`; the kind filter and the npub limiter have the
default of the trait. -/
def processCachedBatch (fb : FlatBuffers) (messages : List Bytes) :
    FilterPipe → FilterPipe × List Bytes
  | .mute pipe => (.mute pipe, pipe.processCachedBatch fb messages)
  | .kind pipe => (.kind pipe, messages)
  | .chat pipe => let r := pipe.processCachedBatch iter fb messages; (.chat r.1, r.2)
  | .npub pipe => (.npub pipe, messages)

/-- A live event does not pass. -/
def DropsLive (pipe : FilterPipe) (event : PipelineEvent) : Prop :=
  (process lower iter event pipe).2 = .drop

/-- A cached event does not pass. -/
def DropsCached (fb : FlatBuffers) (pipe : FilterPipe) (bytes : Bytes) : Prop :=
  (processCachedBatch iter fb [bytes] pipe).2 = []

end FilterPipe

inductive StoredForm
  | parsedEvent
  | nostrEvent

namespace StoredForm

def tags (ev : SignedEvent) : List StringVec := ev.tags.map fun tag => ⟨some tag⟩

/-- `build_flatbuffer` of `ParsedEvent` and of `Event`: the time is cut to 32 bits,
unsigned in the one table and signed in the other. -/
def message (ev : SignedEvent) : StoredForm → Message
  | .parsedEvent =>
    .parsedEvent { id := ev.id.toHex, pubkey := ev.pubkey.toHex, kind := ev.kind
                   createdAt := ev.createdAt % 2 ^ 32, tags := tags ev }
  | .nostrEvent =>
    .nostrEvent { id := ev.id.toHex, pubkey := ev.pubkey.toHex, kind := ev.kind
                  createdAt := (ev.createdAt : ℤ).bmod (2 ^ 32), tags := tags ev
                  content := ev.content, sig := ev.sig }

/-- The time a reader gets back as a `u64`. -/
def createdAt (t : ℕ) : StoredForm → ℕ
  | .parsedEvent => t % 2 ^ 32
  | .nostrEvent => (((t : ℤ).bmod (2 ^ 32)) % 2 ^ 64).toNat

end StoredForm

end Nipworker
