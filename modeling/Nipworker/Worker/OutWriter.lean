/-
The way of an incoming frame to the parser (`transport/sub_dedup.rs`, the
`out_writer` of `worker/connections_worker.rs`).

One REQ goes out to many relays under one subscription id, so an event comes back
once per relay.  The writer keeps, for every subscription, the ids of the last
4096 events it forwarded and drops a frame whose id is among them.
-/
import Nipworker.Lib.RecentWindow
import Nipworker.Lib.Run
import Nipworker.Transport.EventFrame
import Nipworker.Worker.BatchBuffer
import Nipworker.Worker.RelayFrames

namespace Nipworker

open JsonText List

def maxDedupIdsPerSub : ℕ := 4096

/-- The window of a subscription: the ids, and their order. -/
structure SubDedup where
  ids : Finset Bytes32
  order : List Bytes32

namespace SubDedup

def new : SubDedup := { ids := ∅, order := [] }

/-- A new id joins the window, which drops its oldest one when it is full. -/
def mark (d : SubDedup) (id : Bytes32) : SubDedup × Bool :=
  if id ∈ d.ids then (d, false)
  else
    let ids := insert id d.ids
    let order := d.order ++ [id]
    if order.length > maxDedupIdsPerSub then
      match order with
      | [] => ({ ids := ids, order := order }, true)
      | oldest :: rest => ({ ids := ids.erase oldest, order := rest }, true)
    else ({ ids := ids, order := order }, true)

end SubDedup

/-- Where a frame goes. -/
inductive Route
  | crypto
  | duplicate
  | control
  | raw (eventJson : List Char)
  deriving DecidableEq

def Route.forwarded : Route → Bool
  | .control => true
  | .raw _ => true
  | _ => false

/-- The routing of `out_writer`, with the deduplication windows after it. -/
def route (dedup : Map String SubDedup) (fullSubId msg : String) :
    Route × Map String SubDedup :=
  if "n46:".toList.isPrefixOf fullSubId.toList then (.crypto, dedup)
  else
    match scanRelayFrame msg with
    | none => (.control, dedup)
    | some scan =>
      if scan.kind ≠ "EVENT".toList then (.control, dedup)
      else
        let kept : Route :=
          match scan.args[1]? with
          | some v => if v.isString then .control else .raw v.raw
          | none => .control
        match scannedEventId scan with
        | none => (kept, dedup)
        | some id =>
          let entry := ((dedup.lookup fullSubId).getD SubDedup.new).mark id
          (if entry.2 then kept else .duplicate, dedup.insert fullSubId entry.1)

/-- What is sent to another worker. -/
inductive Outgoing
  | rawConnBatch (payload : Bytes)
  | workerMessage (subId url msg : String)
  | cryptoMessage (subId url msg : String)

/-- The cells `out_writer` works on. -/
structure WriterState where
  maps : SubIdMaps
  dedup : Map String SubDedup
  parserBatches : BatchBufferManager

/-- The writer: what becomes of a frame. -/
def outWriter (w : WriterState) (url subId msg : String) (now : ℕ) :
    WriterState × List Outgoing :=
  let fullSubId := decodeRelaySubId w.maps subId
  let routed := route w.dedup fullSubId msg
  let w := { w with dedup := routed.2 }
  match routed.1 with
  | .crypto => (w, [.cryptoMessage fullSubId url msg])
  | .duplicate => (w, [])
  | .raw eventJson =>
    let added := w.parserBatches.addMessage fullSubId (Utf8.encode (String.ofList eventJson)) now
    ({ w with parserBatches := added.1 }, added.2.toList.map .rawConnBatch)
  | .control =>
    let flushed := w.parserBatches.flushSub fullSubId
    ({ w with parserBatches := flushed.1 },
      flushed.2.toList.map .rawConnBatch ++ [.workerMessage fullSubId url msg])

/-- What happens to these cells: a well-formed EVENT frame arrives, or any other
frame; an outgoing frame registers its id; a subscription is closed on its last
relay; the sweeper runs. -/
inductive WriterAct
  | event (url subId : String) (frame : EventFrame) (now : ℕ)
  | other (url subId msg : String) (now : ℕ)
  | encode (frame : String)
  | close (subId : String)
  | sweep (iter : IterOrder String) (now : ℕ)

def WriterState.new : WriterState :=
  { maps := SubIdMaps.empty, dedup := ∅, parserBatches := BatchBufferManager.new }

def WriterState.step (serde : SerdeJson) (w : WriterState) : WriterAct → WriterState
  | .event url subId frame now => (outWriter w url subId frame.text now).1
  | .other url subId msg now => (outWriter w url subId msg now).1
  | .encode frame => { w with maps := (encodeRelayFrame serde w.maps frame).2 }
  | .close subId => { w with dedup := w.dedup.erase subId }
  | .sweep iter now => { w with parserBatches := (w.parserBatches.drainTimedOut iter now).1 }

/-! ### Windows -/

namespace SubDedup

/-- The set holds what the queue holds, without repetition, at most 4096 ids. -/
structure Ok (d : SubDedup) : Prop where
  ids : d.ids = d.order.toFinset
  nodup : d.order.Nodup
  bound : d.order.length ≤ maxDedupIdsPerSub

theorem ok_new : new.Ok := ⟨rfl, nodup_nil, Nat.zero_le _⟩

theorem mark_of_mem {d : SubDedup} (h : d.Ok) {id : Bytes32} (hid : id ∈ d.order) :
    d.mark id = (d, false) := by
  rw [mark, if_pos (by rw [h.ids]; exact List.mem_toFinset.mpr hid)]

theorem mark_of_notMem {d : SubDedup} (h : d.Ok) {id : Bytes32} (hid : id ∉ d.order) :
    (d.mark id).2 = true ∧ (d.mark id).1.Ok ∧
      (d.mark id).1.order = (d.order ++ [id]).rtake maxDedupIdsPerSub := by
  have hnot : id ∉ d.ids := by
    rw [h.ids]
    exact fun hmem => hid (List.mem_toFinset.mp hmem)
  have hnodup : (d.order ++ [id]).Nodup :=
    List.nodup_append.mpr ⟨h.nodup, nodup_singleton id, by
      rintro a ha b hb rfl
      exact hid (List.mem_singleton.mp hb ▸ ha)⟩
  have hset : insert id d.ids = (d.order ++ [id]).toFinset := by
    rw [h.ids, toFinset_append, toFinset_cons, toFinset_nil, Finset.union_comm]
    rfl
  rw [List.rtake_concat_eq h.bound, mark, if_neg hnot]
  generalize hwindow : d.order ++ [id] = window at hnodup hset
  have hlen : window.length ≤ maxDedupIdsPerSub + 1 := by
    rw [← hwindow, length_append, length_singleton]
    exact Nat.succ_le_succ h.bound
  dsimp only
  split
  · next hlong =>
    cases window with
    | nil => exact absurd hlong (by decide)
    | cons oldest rest =>
      obtain ⟨hnotin, hrest⟩ := List.nodup_cons.mp hnodup
      refine ⟨rfl, ⟨?_, hrest, by simpa using hlen⟩, rfl⟩
      show (insert id d.ids).erase oldest = rest.toFinset
      rw [hset, toFinset_cons, Finset.erase_insert]
      exact fun hmem => hnotin (List.mem_toFinset.mp hmem)
  · next hshort => exact ⟨rfl, ⟨hset, hnodup, Nat.le_of_not_lt hshort⟩, rfl⟩

theorem ok_mark {d : SubDedup} (h : d.Ok) (id : Bytes32) : (d.mark id).1.Ok := by
  by_cases hid : id ∈ d.order
  · rw [mark_of_mem h hid]
    exact h
  · exact (mark_of_notMem h hid).2.1

end SubDedup

def windowOf (dedup : Map String SubDedup) (subId : String) : SubDedup :=
  (dedup.lookup subId).getD SubDedup.new

/-- The windows keep their invariant. -/
def WindowsOk (dedup : Map String SubDedup) : Prop :=
  ∀ subId d, dedup.lookup subId = some d → d.Ok

theorem windowsOk_empty : WindowsOk ∅ := by
  intro subId d hd
  rw [AList.lookup_empty] at hd
  cases hd

theorem WindowsOk.windowOf {dedup : Map String SubDedup} (h : WindowsOk dedup) (subId : String) :
    (windowOf dedup subId).Ok := by
  rw [Nipworker.windowOf]
  cases hd : dedup.lookup subId with
  | none => exact SubDedup.ok_new
  | some d => exact h subId d hd

/-- **What routing does to the windows**: nothing, or one id is marked in the
window of the frame's subscription. -/
theorem route_dedup (dedup : Map String SubDedup) (fullSubId msg : String) :
    (route dedup fullSubId msg).2 = dedup ∨
      ∃ scan id, scanRelayFrame msg = some scan ∧ scannedEventId scan = some id ∧
        (route dedup fullSubId msg).2 =
          dedup.insert fullSubId ((windowOf dedup fullSubId).mark id).1 := by
  rw [route]
  split
  · exact Or.inl rfl
  · cases hscan : scanRelayFrame msg with
    | none => exact Or.inl rfl
    | some scan =>
      dsimp only
      split
      · exact Or.inl rfl
      · cases hid : scannedEventId scan with
        | none => exact Or.inl rfl
        | some id => exact Or.inr ⟨scan, id, rfl, hid, rfl⟩

theorem outWriter_dedup (w : WriterState) (url subId msg : String) (now : ℕ) :
    (outWriter w url subId msg now).1.dedup =
      (route w.dedup (decodeRelaySubId w.maps subId) msg).2 := by
  rw [outWriter]
  dsimp only
  split <;> rfl

theorem windowsOk_route {dedup : Map String SubDedup} (h : WindowsOk dedup)
    (fullSubId msg : String) : WindowsOk (route dedup fullSubId msg).2 := by
  rcases route_dedup dedup fullSubId msg with hsame | ⟨scan, id, -, -, hnew⟩
  · rw [hsame]
    exact h
  · rw [hnew]
    intro subId d hd
    obtain ⟨-, rfl⟩ | ⟨-, hd⟩ := Map.lookup_insert_eq_some.mp hd
    · exact SubDedup.ok_mark (h.windowOf fullSubId) id
    · exact h subId d hd

theorem windowsOk_step (serde : SerdeJson) {w : WriterState} (h : WindowsOk w.dedup)
    (act : WriterAct) : WindowsOk (w.step serde act).dedup := by
  cases act with
  | event url subId frame now =>
    show WindowsOk (outWriter w url subId frame.text now).1.dedup
    rw [outWriter_dedup]
    exact windowsOk_route h _ _
  | other url subId msg now =>
    show WindowsOk (outWriter w url subId msg now).1.dedup
    rw [outWriter_dedup]
    exact windowsOk_route h _ _
  | encode frame => exact h
  | close closed =>
    intro subId d hd
    have hd : AList.lookup subId (w.dedup.erase closed) = some d := hd
    exact h subId d (Map.lookup_erase_eq_some.mp hd).2
  | sweep iter now => exact h

/-- **In every run** the set and the queue of every window agree. -/
theorem windowsOk_run (serde : SerdeJson) (acts : List WriterAct) :
    WindowsOk (Run.exec (WriterState.step serde) WriterState.new acts).dedup := by
  induction acts using List.reverseRecOn with
  | nil => exact windowsOk_empty
  | append_singleton acts act ih =>
    rw [Run.exec_append]
    exact windowsOk_step serde ih act

end Nipworker
