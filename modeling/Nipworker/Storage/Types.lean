/-
The data model of the event cache (`storage/db/types.rs`).

An event reaches the index in one of two FlatBuffers tables, `ParsedEvent` and
`NostrEvent`; both expose the same fields to it, and `Event` is that common
view.  `DatabaseIndexes` is the in-memory index over the stored events and
`Tombstones` the NIP-09 state beside it.  `upsertEventRecord` gives an event
its key.

The seven tag indexes of the source are one map per `TagName`.  Event keys are
naturals: the source stops with a panic when the 32-bit key space is used up.
-/
import Nipworker.Lib.Map

namespace Nipworker

/-- A `StringVec` table: one tag of an event; its vector may be missing. -/
structure StringVec where
  items : Option (List String)
  deriving DecidableEq, Repr

/-- The first two items of a tag.  Every reader of tags skips one that has no
vector or fewer than two items. -/
def StringVec.pair (tag : StringVec) : Option (String × String) :=
  match tag.items with
  | some (name :: value :: _) => some (name, value)
  | _ => none

structure Event where
  id : String
  pubkey : String
  kind : UInt16
  createdAt : ℕ
  tags : List StringVec
  deriving DecidableEq, Repr

/-- `created_at` is unsigned. -/
structure ParsedEvent where
  id : String
  pubkey : String
  kind : UInt16
  createdAt : ℕ
  tags : List StringVec
  deriving DecidableEq, Repr

/-- `created_at` is signed. -/
structure NostrEvent where
  id : String
  pubkey : String
  kind : UInt16
  createdAt : ℤ
  tags : List StringVec
  content : String
  sig : String
  deriving DecidableEq, Repr

/-- The fields of a `ParsedEvent` as the index reads them. -/
def ParsedEvent.event (p : ParsedEvent) : Event :=
  { id := p.id, pubkey := p.pubkey, kind := p.kind, createdAt := p.createdAt, tags := p.tags }

/-- The fields of a `NostrEvent` as the index reads them: a negative timestamp
counts as zero (`created_at().max(0) as u32`). -/
def NostrEvent.event (n : NostrEvent) : Event :=
  { id := n.id, pubkey := n.pubkey, kind := n.kind, createdAt := (max n.createdAt 0).toNat,
    tags := n.tags }

/-- `EVENT_DELETION`, the kind of a NIP-09 deletion. -/
def eventDeletion : UInt16 := 5

inductive TagName
  | e | E | p | P | a | d | q
  deriving DecidableEq, Repr

def TagName.ofString (name : String) : Option TagName :=
  if name = "e" then some .e
  else if name = "E" then some .E
  else if name = "p" then some .p
  else if name = "P" then some .P
  else if name = "a" then some .a
  else if name = "d" then some .d
  else if name = "q" then some .q
  else none

def TagName.text : TagName → String
  | .e => "e"
  | .E => "E"
  | .p => "p"
  | .P => "P"
  | .a => "a"
  | .d => "d"
  | .q => "q"

theorem TagName.ofString_eq_some {name : String} {n : TagName} :
    TagName.ofString name = some n ↔ name = n.text := by
  constructor
  · intro h
    unfold TagName.ofString at h
    (repeat' split at h) <;> cases h <;> assumption
  · rintro rfl
    cases n <;> rfl

/-- The event has a tag `name` with second element `value`. -/
def Event.HasTag (ev : Event) (name value : String) : Prop :=
  ∃ tag ∈ ev.tags, tag.pair = some (name, value)

instance (ev : Event) (name value : String) : Decidable (ev.HasTag name value) :=
  inferInstanceAs (Decidable (∃ tag ∈ ev.tags, tag.pair = some (name, value)))

abbrev EventKey := ℕ

/-- Where an event is stored, and when it was made. -/
structure EventRecord where
  key : EventKey
  offset : ℕ
  createdAt : ℕ
  deriving DecidableEq, Repr

/-- NIP-09 state: the suppressed keys, the deletions whose target is not there
yet (id to deletion author and time), and the address deletions. -/
structure Tombstones where
  deletedKeys : Finset EventKey
  pendingIds : Map String (String × ℕ)
  deletedAddresses : Map String ℕ

/-- `Tombstones::default`, and the state after `Tombstones::clear`. -/
def Tombstones.default : Tombstones :=
  { deletedKeys := ∅, pendingIds := ∅, deletedAddresses := ∅ }

def Tombstones.isEmpty (t : Tombstones) : Bool :=
  t.deletedKeys = ∅ ∧ t.pendingIds.entries = [] ∧ t.deletedAddresses.entries = []

/-- The secondary indexes, over keys of events. -/
structure DatabaseIndexes where
  eventsById : Map String EventRecord
  eventsByKey : Map EventKey EventRecord
  nextEventKey : EventKey
  eventsByKind : Multimap UInt16 EventKey
  eventsByPubkey : Multimap String EventKey
  eventsByTag : TagName → Multimap String EventKey

namespace DatabaseIndexes

/-- `DatabaseIndexes::new`, and the state after `DatabaseIndexes::clear`. -/
def new : DatabaseIndexes :=
  { eventsById := ∅, eventsByKey := ∅, nextEventKey := 0, eventsByKind := ∅,
    eventsByPubkey := ∅, eventsByTag := fun _ => ∅ }

def record (ix : DatabaseIndexes) (id : String) : Option EventRecord := ix.eventsById.lookup id

/-- Refresh the record of an id that is already there, or give the next key to a new one. -/
def upsertEventRecord (ix : DatabaseIndexes) (eventId : String) (offset createdAt : ℕ) :
    DatabaseIndexes × EventKey :=
  match ix.eventsById.lookup eventId with
  | some old =>
    let record : EventRecord := { old with offset := offset, createdAt := createdAt }
    ({ ix with
        eventsById := ix.eventsById.insert eventId record,
        eventsByKey := ix.eventsByKey.insert record.key record }, record.key)
  | none =>
    let key := ix.nextEventKey
    let record : EventRecord := { key := key, offset := offset, createdAt := createdAt }
    ({ ix with
        eventsById := ix.eventsById.insert eventId record,
        eventsByKey := ix.eventsByKey.insert key record,
        nextEventKey := key + 1 }, key)

def addTag (key : EventKey) (ix : DatabaseIndexes) (tag : StringVec) : DatabaseIndexes :=
  match tag.pair with
  | none => ix
  | some (name, value) =>
    match TagName.ofString name with
    | none => ix
    | some n =>
      { ix with
        eventsByTag := Function.update ix.eventsByTag n ((ix.eventsByTag n).add value key) }

end DatabaseIndexes

end Nipworker
