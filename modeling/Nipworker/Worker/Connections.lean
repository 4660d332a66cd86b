/-
The connections worker (`worker/connections_worker.rs`).

The worker knows on which relays a subscription is open (`sub_relays`) and what was
forwarded for it (`sub_dedup`).  REQs come in envelopes of the cache, CLOSEs straight
from the parser, for one relay or for all of them; what the relays answer goes through
`out_writer`.
-/
import Nipworker.Worker.OutWriter

namespace Nipworker

open List

/-- Frames for some relays. -/
structure Envelope where
  relays : List String
  frames : List String

/-- What the worker did. -/
inductive ConnectionsEffect
  /-- A frame was handed to `send_raw` of a connection, as the text that the relay gets
  to see; `ok` when the queue took it. -/
  | sentRaw (relay frame text : String) (ok : Bool)
  /-- A `Raw` message of the parser came. -/
  | parserRaw (url text : String)
  /-- A connection was closed and forgotten. -/
  | closedRelay (relay : String)
  /-- A frame of a relay went where its route led. -/
  | routed (subId msg : String) (route : Route)
  deriving DecidableEq

/-- The writer, the relays of the subscriptions and the log. -/
structure Connections where
  writer : WriterState
  subRelays : Map String (List String)
  log : List ConnectionsEffect

/-- What comes from outside with a step: whether the queue of a connection has room for
one more frame, the order of a walk over a hash set, and the clock. -/
structure ConnectionsEnv where
  room : String → ℕ → Bool
  iter : IterOrder String
  now : ℕ

namespace Connections

variable (serde : SerdeJson) (env : ConnectionsEnv) (st : Connections)

def new : Connections := { writer := WriterState.new, subRelays := ∅, log := [] }

def emit (effect : ConnectionsEffect) : Connections := { st with log := st.log ++ [effect] }

/-- The next `send_raw` to the relay succeeds. -/
def hasRoom (relay : String) : Bool := env.room relay st.log.length

/-- `encode_relay_frame` and `send_raw`. -/
def sendRaw (relay frame : String) : Connections :=
  let encoded := encodeRelayFrame serde st.writer.maps frame
  { st with writer := { st.writer with maps := encoded.2 } }.emit
    (.sentRaw relay frame encoded.1 (st.hasRoom env relay))

def relaysOf (subId : String) : List String := (st.subRelays.lookup subId).getD []

def recordRelay (subId relay : String) : Connections :=
  { st with subRelays := st.subRelays.insert subId ((st.relaysOf subId).insert relay) }

/-- The subscription is closed on a relay; on the last one its window goes too. -/
def releaseRelay (subId relay : String) : Connections :=
  match st.subRelays.lookup subId with
  | none => st
  | some relays =>
    if relays.erase relay = [] then
      { st with
        subRelays := st.subRelays.erase subId
        writer := { st.writer with dedup := st.writer.dedup.erase subId } }
    else { st with subRelays := st.subRelays.insert subId (relays.erase relay) }

def sendEnvelopeFrame (relay : String) (st : Connections) (frame : String) : Connections :=
  match relayFrameState serde frame with
  | some (kind, subId) =>
    let st := if kind = "REQ" then st.recordRelay subId relay else st
    let st := st.sendRaw serde env relay frame
    if kind = "CLOSE" then st.releaseRelay subId relay else st
  | none => st.sendRaw serde env relay frame

/-- An envelope of the cache or of the crypto worker. -/
def sendEnvelope (envelope : Envelope) : Connections :=
  envelope.relays.foldl (fun st relay =>
    if relay = "" then st else envelope.frames.foldl (sendEnvelopeFrame serde env relay) st) st

/-- A CLOSE without a relay: the subscription is closed wherever it is open. -/
def closeSub (subId frame : String) : Connections :=
  let relays := st.relaysOf subId
  let st := { st with
    subRelays := st.subRelays.erase subId
    writer := { st.writer with dedup := st.writer.dedup.erase subId } }
  (env.iter.order relays).foldl (fun st relay => st.sendRaw serde env relay frame) st

/-- A `Raw` message of the parser. -/
def parserRaw (url text : String) : Connections :=
  if text ≠ "" ∧ url ≠ "" then
    let sent := st.sendRaw serde env url text
    if st.hasRoom env url then
      match relayFrameState serde text with
      | some (kind, subId) => if kind = "CLOSE" then sent.releaseRelay subId url else sent
      | none => sent
    else sent
  else if text ≠ "" then
    match relayFrameState serde text with
    | some (kind, subId) => if kind = "CLOSE" then st.closeSub serde env subId text else st
    | none => st
  else st

/-- A `NostrEvent` of the parser, as the text of its EVENT frame. -/
def publish (url text : String) : Connections :=
  if url ≠ "" then st.emit (.sentRaw url text text (st.hasRoom env url)) else st

/-- A `ConnectionStatus` of the parser that says CLOSE. -/
def closeRelay (url : String) : Connections :=
  if url ≠ "" then st.emit (.closedRelay url) else st

/-- A frame of a relay reaches `out_writer`. -/
def incoming (url subId msg : String) : Connections :=
  let fullSubId := decodeRelaySubId st.writer.maps subId
  { st with writer := (outWriter st.writer url subId msg env.now).1 }.emit
    (.routed fullSubId msg (route st.writer.dedup fullSubId msg).1)

def sweep : Connections :=
  { st with writer := { st.writer with
      parserBatches := (st.writer.parserBatches.drainTimedOut env.iter env.now).1 } }

end Connections

inductive ConnectionsAct
  | envelope (envelope : Envelope)
  | parserRaw (url text : String)
  | publish (url text : String)
  | closeRelay (url : String)
  | incoming (url subId msg : String)
  | sweep

/-- One step of the worker. -/
def Connections.step (serde : SerdeJson) (st : Connections)
    (input : ConnectionsEnv × ConnectionsAct) : Connections :=
  match input.2 with
  | .envelope envelope => st.sendEnvelope serde input.1 envelope
  | .parserRaw url text => (st.emit (.parserRaw url text)).parserRaw serde input.1 url text
  | .publish url text => st.publish input.1 url text
  | .closeRelay url => st.closeRelay url
  | .incoming url subId msg => st.incoming input.1 url subId msg
  | .sweep => st.sweep input.1

/-! ### Elementary moves -/

namespace Connections

variable {serde : SerdeJson} {env : ConnectionsEnv} {st : Connections}

variable (relay frame : String)

@[simp] theorem sendRaw_subRelays :
    (st.sendRaw serde env relay frame).subRelays = st.subRelays := rfl

@[simp] theorem sendRaw_dedup :
    (st.sendRaw serde env relay frame).writer.dedup = st.writer.dedup := rfl

theorem sendRaw_log :
    (st.sendRaw serde env relay frame).log = st.log ++
      [.sentRaw relay frame (encodeRelayFrame serde st.writer.maps frame).1
        (st.hasRoom env relay)] := rfl

@[simp] theorem releaseRelay_log (subId relay : String) :
    (st.releaseRelay subId relay).log = st.log := by
  rw [releaseRelay]
  split
  · rfl
  · split
    · rfl
    · rfl

theorem releaseRelay_dedup (subId relay : String) :
    (st.releaseRelay subId relay).writer.dedup = st.writer.dedup ∨
      (st.releaseRelay subId relay).writer.dedup = st.writer.dedup.erase subId := by
  rw [releaseRelay]
  split
  · exact .inl rfl
  · split
    · exact .inr rfl
    · exact .inl rfl

/-- What the elementary moves keep, an envelope keeps. -/
theorem sendEnvelope_inv {Inv : Connections → Prop}
    (hsend : ∀ st relay frame, Inv st → Inv (st.sendRaw serde env relay frame))
    (hrecord : ∀ st subId relay, Inv st → Inv (st.recordRelay subId relay))
    (hrelease : ∀ st subId relay, Inv st → Inv (st.releaseRelay subId relay))
    (envelope : Envelope) (h : Inv st) : Inv (st.sendEnvelope serde env envelope) := by
  have hframe : ∀ relay st frame, Inv st → Inv (sendEnvelopeFrame serde env relay st frame) := by
    intro relay st frame h
    rw [sendEnvelopeFrame]
    split
    · rename_i kind subId _
      have hreq : Inv (if kind = "REQ" then st.recordRelay subId relay else st) := by
        split
        · exact hrecord st subId relay h
        · exact h
      have hsent := hsend _ relay frame hreq
      dsimp only
      split
      · exact hrelease _ subId relay hsent
      · exact hsent
    · exact hsend st relay frame h
  have hframes : ∀ relay (frames : List String) st, Inv st →
      Inv (frames.foldl (sendEnvelopeFrame serde env relay) st) := by
    intro relay frames
    induction frames with
    | nil => exact fun st h => h
    | cons frame frames ih => exact fun st h => ih _ (hframe relay st frame h)
  rw [sendEnvelope]
  generalize envelope.relays = relays
  induction relays generalizing st with
  | nil => exact h
  | cons relay relays ih =>
    rw [foldl_cons]
    split
    · exact ih h
    · exact ih (hframes relay _ st h)

theorem foldl_sendRaw_inv {Inv : Connections → Prop}
    (hsend : ∀ st relay, Inv st → Inv (st.sendRaw serde env relay frame)) (relays : List String)
    (h : Inv st) : Inv (relays.foldl (fun st relay => st.sendRaw serde env relay frame) st) := by
  induction relays generalizing st with
  | nil => exact h
  | cons relay relays ih => exact ih (hsend st relay h)

end Connections

/-! ### Reading frames -/

/-- A REQ or CLOSE frame that `serde_json` has written is read as what it is. -/
structure SerdeJson.ReadsFrames (serde : SerdeJson) : Prop where
  read : ∀ kind subId rest,
    relayFrameState serde (serde.toText (.array (.string kind :: .string subId :: rest))) =
      if kind = "REQ" ∨ kind = "CLOSE" then some (kind, subId) else none
  nonempty : ∀ items, serde.toText (.array items) ≠ ""

/-- The text of a frame with an empty filter, or none, for an id that needs no escape. -/
def frameText (kind subId : String) : String :=
  String.ofList ("[\"".toList ++ kind.toList ++ "\",\"".toList ++ subId.toList ++
    (if kind = "REQ" then "\",\x7b\x7d]" else "\"]").toList)

/-- A reader and writer for such frames.  Any other is written behind a line feed, with
the length of its kind. -/
def frameSerde : SerdeJson :=
  { fromStr := fun text =>
      match text.toList with
      | '\n' :: cs =>
        let n := (cs.takeWhile (· = 'x')).length
        let body := cs.drop (n + 1)
        some (.array [.string (String.ofList (body.take n)), .string (String.ofList (body.drop n))])
      | cs =>
        let req := String.ofList ((cs.drop 8).takeWhile (· ≠ '"'))
        let close := String.ofList ((cs.drop 10).takeWhile (· ≠ '"'))
        if text = frameText "REQ" req then some (.array [.string "REQ", .string req, .object []])
        else if text = frameText "CLOSE" close then some (.array [.string "CLOSE", .string close])
        else none
    toText := fun v =>
      match v with
      | .array (.string kind :: .string subId :: _) =>
        if (kind = "REQ" ∨ kind = "CLOSE") ∧ '"' ∉ subId.toList then frameText kind subId
        else
          String.ofList ('\n' :: (List.replicate kind.toList.length 'x' ++
            '\n' :: (kind.toList ++ subId.toList)))
      | _ => "null" }

theorem takeWhile_quote {subId : List Char} (h : '"' ∉ subId) (rest : List Char) :
    (subId ++ '"' :: rest).takeWhile (· ≠ '"') = subId := by
  rw [takeWhile_append_of_pos]
  · simp
  · intro c hc
    rw [decide_eq_true_eq]
    rintro rfl
    exact h hc

theorem frameSerde_req {subId : String} (h : '"' ∉ subId.toList) :
    relayFrameState frameSerde (frameText "REQ" subId) = some ("REQ", subId) := by
  have htext : (frameText "REQ" subId).toList =
      '[' :: '"' :: 'R' :: 'E' :: 'Q' :: '"' :: ',' :: '"' ::
        (subId.toList ++ "\",\x7b\x7d]".toList) := by
    simp [frameText]
  have htake : ((frameText "REQ" subId).toList.drop 8).takeWhile (· ≠ '"') = subId.toList := by
    rw [htext]
    exact takeWhile_quote h _
  have hread : frameSerde.fromStr (frameText "REQ" subId) =
      some (.array [.string "REQ", .string subId, .object []]) := by
    rw [frameSerde]
    dsimp only
    split
    · rename_i hfeed
      rw [htext] at hfeed
      cases hfeed
    · rw [htake, String.ofList_toList, if_pos rfl]
  rw [relayFrameState, hread]
  simp [Json.asStr]

theorem frameSerde_close {subId : String} (h : '"' ∉ subId.toList) :
    relayFrameState frameSerde (frameText "CLOSE" subId) = some ("CLOSE", subId) := by
  have htext : (frameText "CLOSE" subId).toList =
      '[' :: '"' :: 'C' :: 'L' :: 'O' :: 'S' :: 'E' :: '"' :: ',' :: '"' ::
        (subId.toList ++ "\"]".toList) := by
    simp [frameText]
  have htake : ((frameText "CLOSE" subId).toList.drop 10).takeWhile (· ≠ '"') = subId.toList := by
    rw [htext]
    exact takeWhile_quote h _
  -- it is not a REQ: the third characters differ
  have hreq : ∀ other, frameText "CLOSE" subId ≠ frameText "REQ" other := by
    intro other heq
    have hchars := congrArg String.toList heq
    rw [htext] at hchars
    simp [frameText] at hchars
  have hread : frameSerde.fromStr (frameText "CLOSE" subId) =
      some (.array [.string "CLOSE", .string subId]) := by
    rw [frameSerde]
    dsimp only
    split
    · rename_i hfeed
      rw [htext] at hfeed
      cases hfeed
    · rw [if_neg (hreq _), htake, String.ofList_toList, if_pos rfl]
  rw [relayFrameState, hread]
  simp [Json.asStr]

theorem frameSerde_other (kind subId : String) :
    frameSerde.fromStr (String.ofList ('\n' :: (List.replicate kind.toList.length 'x' ++
      '\n' :: (kind.toList ++ subId.toList)))) =
      some (.array [.string kind, .string subId]) := by
  have htake : (List.replicate kind.toList.length 'x' ++ '\n' :: (kind.toList ++ subId.toList)).takeWhile
      (· = 'x') = List.replicate kind.toList.length 'x' := by
    rw [takeWhile_append_of_pos (by simp)]
    simp
  rw [frameSerde]
  simp only [String.toList_ofList]
  rw [htake, length_replicate]
  have hdrop : (List.replicate kind.toList.length 'x' ++ '\n' :: (kind.toList ++ subId.toList)).drop
      (kind.toList.length + 1) = kind.toList ++ subId.toList := by
    rw [drop_append]
    simp
  rw [hdrop, take_left, drop_left, String.ofList_toList, String.ofList_toList]

theorem frameSerde_readsFrames : frameSerde.ReadsFrames := by
  refine ⟨fun kind subId rest => ?_, fun items hempty => ?_⟩
  swap
  · rw [frameSerde] at hempty
    dsimp only at hempty
    split at hempty
    · split at hempty
      · simp [frameText] at hempty
      · simp at hempty
    · exact absurd hempty (by decide)
  have hwrite : frameSerde.toText (.array (.string kind :: .string subId :: rest)) =
      if (kind = "REQ" ∨ kind = "CLOSE") ∧ '"' ∉ subId.toList then frameText kind subId
      else String.ofList ('\n' :: (List.replicate kind.toList.length 'x' ++
        '\n' :: (kind.toList ++ subId.toList))) := rfl
  rw [hwrite]
  split
  · rename_i hplain
    obtain ⟨rfl | rfl, hquote⟩ := hplain
    · exact frameSerde_req hquote
    · exact frameSerde_close hquote
  · rw [relayFrameState, frameSerde_other]
    dsimp only [Json.asStr]
    by_cases hkind : kind = "REQ" ∨ kind = "CLOSE"
    · rw [if_pos hkind, if_neg (by tauto)]
      rfl
    · rw [if_neg hkind, if_pos (by tauto)]

example : frameSerde.toText (.array [.string "CLOSE", .string "s1"]) = "[\"CLOSE\",\"s1\"]" := by
  decide

end Nipworker
