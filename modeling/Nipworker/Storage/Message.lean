/-
The serialized events the index reads (`apply_deletions_from_bytes`).

Events are stored as FlatBuffers: a `WorkerMessage` whose content is a
`ParsedEvent` or a `NostrEvent`, or, from older versions, one of these two
tables alone.  The reader of the tables is generated code over the
`flatbuffers` package; `FlatBuffers` is its three root readers.
-/
import Nipworker.Lib.Bytes
import Nipworker.Storage.Index

namespace Nipworker

/-- The content of a `WorkerMessage`, as far as the cache looks at it. -/
inductive Message
  | parsedEvent (ev : ParsedEvent)
  | nostrEvent (ev : NostrEvent)
  | other
  deriving DecidableEq, Repr

def Message.event : Message → Option Event
  | .parsedEvent ev => some ev.event
  | .nostrEvent ev => some ev.event
  | .other => none

/-- The root readers, `flatbuffers::root::<T>`; `none` when the bytes do not
verify as a `T`. -/
structure FlatBuffers where
  workerMessage : Bytes → Option Message
  parsedEvent : Bytes → Option ParsedEvent
  nostrEvent : Bytes → Option NostrEvent

namespace FlatBuffers

/-- What a reader of stored bytes finds: a `WorkerMessage`, or else a table
alone.  `none` when no reader accepts them. -/
def storedMessage (fb : FlatBuffers) (bytes : Bytes) : Option Message :=
  match fb.workerMessage bytes with
  | some msg => some msg
  | none =>
    match fb.parsedEvent bytes with
    | some ev => some (.parsedEvent ev)
    | none => (fb.nostrEvent bytes).map .nostrEvent

/-- What the index gets out of stored bytes. -/
def storedEvent (fb : FlatBuffers) (bytes : Bytes) : Option Event :=
  (fb.storedMessage bytes).bind Message.event

/-- The event of bytes that hold a `WorkerMessage`. -/
def wrappedEvent (fb : FlatBuffers) (bytes : Bytes) : Option Event :=
  (fb.workerMessage bytes).bind Message.event

end FlatBuffers

/-- Run the deletion tags of a stored kind 5 and return its id; anything else is left alone. -/
def applyDeletionsFromBytes (fb : FlatBuffers) (st : IndexState) (bytes : Bytes) :
    IndexState × Option String :=
  match fb.workerMessage bytes with
  | some (.parsedEvent ev) =>
    if ev.kind = eventDeletion then
      (processDeletionTags st ev.pubkey ev.createdAt ev.tags, some ev.id)
    else (st, none)
  | some (.nostrEvent ev) =>
    if ev.kind = eventDeletion then
      (processDeletionTags st ev.pubkey (max ev.createdAt 0).toNat ev.tags, some ev.id)
    else (st, none)
  | _ => (st, none)

theorem applyDeletionsFromBytes_fst (fb : FlatBuffers) (st : IndexState) (bytes : Bytes) :
    (applyDeletionsFromBytes fb st bytes).1
      = match fb.wrappedEvent bytes with
        | some ev => applyDeletions st ev
        | none => st := by
  unfold applyDeletionsFromBytes FlatBuffers.wrappedEvent applyDeletions
  rcases fb.workerMessage bytes with _ | ev | ev | _
  · rfl
  · by_cases hk : ev.kind = eventDeletion <;> simp [Message.event, ParsedEvent.event, hk]
  · by_cases hk : ev.kind = eventDeletion <;> simp [Message.event, NostrEvent.event, hk]
  · rfl

theorem applyDeletionsFromBytes_snd (fb : FlatBuffers) (st : IndexState) (bytes : Bytes) :
    (applyDeletionsFromBytes fb st bytes).2
      = (fb.wrappedEvent bytes).bind
          (fun ev => if ev.kind = eventDeletion then some ev.id else none) := by
  unfold applyDeletionsFromBytes FlatBuffers.wrappedEvent
  rcases fb.workerMessage bytes with _ | ev | ev | _
  · rfl
  · by_cases hk : ev.kind = eventDeletion <;> simp [Message.event, ParsedEvent.event, hk]
  · by_cases hk : ev.kind = eventDeletion <;> simp [Message.event, NostrEvent.event, hk]
  · rfl

/-! ### Two messages -/

/-- A reader that knows the messages in some buffers, and refuses the others. -/
def FlatBuffers.ofTable (table : List (Bytes × Message)) : FlatBuffers :=
  { workerMessage := fun bytes => table.lookup bytes
    parsedEvent := fun _ => none
    nostrEvent := fun _ => none }

/-- A note by `alice`. -/
def note : NostrEvent :=
  { id := "n1", pubkey := "alice", kind := 1, createdAt := 7, tags := [], content := "hi",
    sig := "s1" }

def noteDeletion : NostrEvent :=
  { id := "d1", pubkey := "alice", kind := 5, createdAt := 9, tags := [⟨some ["e", "n1"]⟩],
    content := "", sig := "s2" }

/-- The `WorkerMessage` with the note, as a buffer. -/
def noteBytes : Bytes :=
  [20, 0, 0, 0, 0, 0, 14, 0, 18, 0, 0, 0, 0, 0, 8, 0, 7, 0, 12, 0, 14, 0, 0, 0, 0, 0, 0, 2, 9, 0,
   0, 0, 24, 0, 0, 0, 0, 0, 18, 0, 32, 0, 8, 0, 12, 0, 6, 0, 16, 0, 20, 0, 24, 0, 28, 0, 18, 0, 0,
   0, 0, 0, 1, 0, 56, 0, 0, 0, 40, 0, 0, 0, 28, 0, 0, 0, 12, 0, 0, 0, 7, 0, 0, 0, 8, 0, 0, 0, 0,
   0, 0, 0, 2, 0, 0, 0, 115, 49, 0, 0, 2, 0, 0, 0, 104, 105, 0, 0, 5, 0, 0, 0, 97, 108, 105, 99,
   101, 0, 0, 0, 2, 0, 0, 0, 110, 49, 0, 0]

/-- The `WorkerMessage` with the deletion, as a buffer. -/
def noteDeletionBytes : Bytes :=
  [20, 0, 0, 0, 0, 0, 14, 0, 18, 0, 0, 0, 0, 0, 8, 0, 7, 0, 12, 0, 14, 0, 0, 0, 0, 0, 0, 2, 9, 0,
   0, 0, 24, 0, 0, 0, 0, 0, 18, 0, 32, 0, 8, 0, 12, 0, 6, 0, 16, 0, 20, 0, 24, 0, 28, 0, 18, 0, 0,
   0, 0, 0, 5, 0, 104, 0, 0, 0, 88, 0, 0, 0, 76, 0, 0, 0, 12, 0, 0, 0, 9, 0, 0, 0, 56, 0, 0, 0, 1,
   0, 0, 0, 12, 0, 0, 0, 0, 0, 6, 0, 8, 0, 4, 0, 6, 0, 0, 0, 4, 0, 0, 0, 2, 0, 0, 0, 16, 0, 0, 0,
   4, 0, 0, 0, 2, 0, 0, 0, 110, 49, 0, 0, 1, 0, 0, 0, 101, 0, 0, 0, 2, 0, 0, 0, 115, 50, 0, 0, 0,
   0, 0, 0, 0, 0, 0, 0, 5, 0, 0, 0, 97, 108, 105, 99, 101, 0, 0, 0, 2, 0, 0, 0, 100, 49, 0, 0]

def noteReaders : FlatBuffers :=
  .ofTable [(noteBytes, .nostrEvent note), (noteDeletionBytes, .nostrEvent noteDeletion)]

end Nipworker
