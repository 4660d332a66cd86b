/-
Events whose decryption fails, in the pipelines (`pipeline/mod.rs`,
`pipeline/pipes/parse.rs`, `pipeline/pipes/save_to_db.rs`,
`pipeline/pipes/serialize_events.rs`).

The default pipeline parses an event, saves it to the cache and sends it out.  An
error of the signer is an error of the pipeline, which forgets the id of the event
then; any other error of the parser drops the event for good.

Several pipelines share the seen ids, so that calls may come between the start and the
end of the pipes of one of them.
-/
import Nipworker.Parser.SignerFailures
import Nipworker.Types.EventFlatbuffer

namespace Nipworker

open List Option

/-- What an entry point is called with: text, or what a message holds. -/
inductive EventInput
  | text (raw : List Char)
  | bytes (message : Option Message)

/-- The id by which duplicates are found, and the event if it can be read; `none` where
the call returns before the ids are looked at. -/
def EventInput.entry : EventInput → Option (Bytes32 × Option SignedEvent)
  | .text raw =>
    (textEventId raw).map fun id => (id, (SignedEvent.readFields raw).toOption)
  | .bytes (some (.nostrEvent ev)) =>
    (eventFromFlatbuffer ev).toOption.map fun event => (event.id, some event)
  | .bytes _ => none

/-- What `SaveToDbPipe` sends to the cache: the parsed event, or the event alone when the
parsed one cannot be built. -/
inductive CacheWrite (D : Type)
  | parsed (event : SignedEvent) (data : ParsedData D)
  | raw (event : SignedEvent)

def CacheWrite.event {D : Type} : CacheWrite D → SignedEvent
  | .parsed event _ => event
  | .raw event => event

/-- Pipelines that share their seen ids: those with an event in their pipes, what was
saved and what was sent out. -/
structure ParsePipelines (D : Type) where
  seen : Finset Bytes32
  running : Map ℕ (Bytes32 × SignedEvent)
  saved : List (CacheWrite D)
  output : List (SignedEvent × ParsedData D)

/-- The limit of `SerializeEventsPipe`. -/
def maxSerialized : ℕ := 512 * 1024

namespace ParsePipelines

variable {D : Type}

def new : ParsePipelines D := { seen := ∅, running := ∅, saved := [], output := [] }

/-- `process` and `process_bytes`, up to the pipes. -/
def start (st : ParsePipelines D) (pipeline : ℕ) (input : EventInput) : ParsePipelines D :=
  match input.entry with
  | none => st
  | some (id, read) =>
    match Pipeline.dedup st.seen id with
    | none => st
    | some (seen, _) =>
      match read with
      | none => { st with seen := seen }
      | some event => { st with seen := seen, running := st.running.insert pipeline (id, event) }

/-- The pipes behind the parser: `build` is `build_flatbuffer`, with the bytes of the
parsed event. -/
def serialize (build : SignedEvent → ParsedData D → Option Bytes) (st : ParsePipelines D)
    (id : Bytes32) (event : SignedEvent) (data : ParsedData D) : ParsePipelines D :=
  match build event data with
  | none => { st with seen := st.seen.erase id, saved := st.saved ++ [.raw event] }
  | some bytes =>
    { st with
      saved := st.saved ++ [.parsed event data]
      output := if maxSerialized < bytes.length then st.output else st.output ++ [(event, data)] }

/-- The pipes of a pipeline have ended.  A parser that stops the program or does not
return leaves its pipeline as it is. -/
def finish (build : SignedEvent → ParsedData D → Option Bytes) (st : ParsePipelines D)
    (pipeline : ℕ) (p : Parser D) : ParsePipelines D :=
  match st.running.lookup pipeline with
  | none => st
  | some (id, event) =>
    match p.parse event with
    | .ok data =>
      serialize build { st with running := st.running.erase pipeline } id event data
    | .error (.error (.crypto _)) =>
      { st with seen := st.seen.erase id, running := st.running.erase pipeline }
    | .error (.error _) => { st with running := st.running.erase pipeline }
    | .error .panic => st
    | .error .hang => st

/-- `process_cached_batch`, which puts the ids of its messages into the set and does not
parse them. -/
def cached (st : ParsePipelines D) (ids : List Bytes32) : ParsePipelines D :=
  { st with
    seen := ids.foldl (fun seen id =>
      match Pipeline.dedup seen id with
      | none => seen
      | some (seen, _) => seen) st.seen }

end ParsePipelines

/-- A call on one of the pipelines, or the end of its pipes, with the parser and its
signer as they are then. -/
inductive ParseAct (D : Type)
  | start (pipeline : ℕ) (input : EventInput)
  | finish (pipeline : ℕ) (p : Parser D)
  | cached (ids : List Bytes32)

variable {D : Type}

/-- One step.  A pipeline is behind a lock: a call waits until the pipes are free. -/
def ParsePipelines.step (build : SignedEvent → ParsedData D → Option Bytes)
    (st : ParsePipelines D) : ParseAct D → ParsePipelines D
  | .start pipeline input => if pipeline ∈ st.running then st else st.start pipeline input
  | .finish pipeline p => st.finish build pipeline p
  | .cached ids => st.cached ids

/-! ### What is asked -/

theorem EventInput.id_of_entry {input : EventInput} {id : Bytes32} {event : SignedEvent}
    (h : input.entry = some (id, some event)) : event.id = id := by
  match input with
  | .text raw =>
    obtain ⟨id', hid, hpair⟩ := Option.map_eq_some_iff.mp h
    obtain ⟨rfl, hread⟩ := Prod.mk.inj hpair
    match hfields : SignedEvent.readFields raw with
    | .error e =>
      rw [hfields] at hread
      exact nomatch hread
    | .ok read =>
      rw [hfields] at hread
      obtain rfl : read = event := some.inj hread
      exact fromJson_id hid hfields
  | .bytes (some (.nostrEvent ev)) =>
    obtain ⟨read, -, hpair⟩ := Option.map_eq_some_iff.mp h
    obtain ⟨rfl, hread⟩ := Prod.mk.inj hpair
    rw [some.inj hread]

namespace ParsePipelines

variable {build : SignedEvent → ParsedData D → Option Bytes} {event : SignedEvent}
  {st : ParsePipelines D}

variable {pipeline : ℕ} {input : EventInput} {read : SignedEvent}

end ParsePipelines

end Nipworker
