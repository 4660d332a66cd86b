/-
Good and broken copies of an event (`worker/connections_worker.rs`,
`worker/parser_worker.rs`, `pipeline/mod.rs`).

The EVENT frames of a subscription pass two deduplication stages: the window of
the connections worker and the seen ids of the parser's pipeline.  Both remember
an id that a text search found, before anybody has read the event.  Between the two
an event waits in a batch buffer.
-/
import Nipworker.Pipeline.Process
import Nipworker.Worker.BatchDelivery
import Nipworker.Worker.CrossRelayDedup

namespace Nipworker

open JsonText List

/-- The text a frame gives to the pipeline: `build_worker_message` and the compact
envelope alike take the event of an EVENT frame, and the whole line where there is
none or the kind is not known.  Status frames do not go through the pipeline. -/
def pipelineText (msg : String) : Option (List Char) :=
  match scanRelayFrame msg with
  | none => some msg.toList
  | some scan =>
    if scan.kind = "EVENT".toList then
      match scan.args[1]? with
      | some v => some v.raw
      | none => some msg.toList
    else if scan.kind = "NOTICE".toList ∨ scan.kind = "AUTH".toList ∨
        scan.kind = "CLOSED".toList ∨ scan.kind = "EOSE".toList ∨ scan.kind = "OK".toList then none
    else some msg.toList

/-- The text `handle_message_single` reads in a raw frame. -/
def rawText (frame : String × Bytes) : Option (List Char) :=
  match String.fromUTF8? frame.2.toByteArray with
  | some text => if text.toList = [] ∨ frame.1 = "" then none else some text.toList
  | none => none

/-- One subscription across the two workers: the windows and the batch buffers of the
connections worker, the texts on the channel, the seen ids of the pipeline, and the
events that entered the pipes.  `accepted` records the ids of the copies that read as
events. -/
@[ext] structure CopyState where
  dedup : Map String SubDedup
  parserBatches : BatchBufferManager
  channel : List (List Char)
  seen : Finset Bytes32
  reached : List SignedEvent
  accepted : List Bytes32

/-- A relay's frame for the subscription arrives, the sweeper of the batch buffers runs,
or the parser takes the next message; a pipe may fail on it. -/
inductive CopyAct
  | frame (msg : String) (now : ℕ)
  | sweep (iter : IterOrder String) (now : ℕ)
  | deliver (fails : Bool)

namespace CopyState

/-- Nothing has arrived yet. -/
def new : CopyState :=
  { dedup := ∅, parserBatches := BatchBufferManager.new, channel := [], seen := ∅, reached := []
    accepted := [] }

/-- The id of the event a frame carries, when it reads as one. -/
def acceptedId (msg : String) : List Bytes32 :=
  match pipelineText msg with
  | none => []
  | some text =>
    match SignedEvent.readFields text with
    | .ok event => [event.id]
    | .error _ => []

variable (s : String)

/-- The texts of the subscription in some payloads. -/
def arrived (payloads : List Bytes) : List (List Char) := (emitted payloads s).filterMap rawText

/-- The cells after a frame that is not dropped: an event joins its batch, any other
frame pushes the batch out in front of it. -/
def send (st : CopyState) (msg : String) (now : ℕ) : Route → CopyState
  | .raw eventJson =>
    let added := st.parserBatches.addMessage s (Utf8.encode (String.ofList eventJson)) now
    { st with parserBatches := added.1, channel := st.channel ++ arrived s added.2.toList }
  | .control =>
    let flushed := st.parserBatches.flushSub s
    { st with
      parserBatches := flushed.1
      channel := st.channel ++ arrived s flushed.2.toList ++ (pipelineText msg).toList }
  | _ => st

/-- Frames, the sweeper, and the parser taking the next message. -/
def step (st : CopyState) : CopyAct → CopyState
  | .frame msg now =>
    let routed := route st.dedup s msg
    { st.send s msg now routed.1 with
      dedup := routed.2
      accepted := st.accepted ++ acceptedId msg }
  | .sweep iter now =>
    let drained := st.parserBatches.drainTimedOut iter now
    { st with parserBatches := drained.1, channel := st.channel ++ arrived s drained.2 }
  | .deliver fails =>
    match st.channel with
    | [] => st
    | text :: rest =>
      let processed := Pipeline.process st.seen text fails
      { st with
        channel := rest
        seen := processed.1
        reached := st.reached ++ processed.2.toList }

/-- An event with the id has entered the pipes. -/
def Reached (st : CopyState) (id : Bytes32) : Prop := ∃ event ∈ st.reached, event.id = id

/-- **No accepted copy is hidden, and no other copy leaves a trace.**  When the batch
has been sent and the channel is empty every accepted id has reached the pipes, and the
two stages remember accepted ids only. -/
structure NoneHidden (st : CopyState) : Prop where
  reach : st.parserBatches.residual s = [] → st.channel = [] →
    ∀ id ∈ st.accepted, st.Reached id
  window : ∀ id ∈ (windowOf st.dedup s).ids, id ∈ st.accepted
  seen : ∀ id ∈ st.seen, st.Reached id

/-- The search finds no id in the frame that is still in the window. -/
def Fresh (st : CopyState) (msg : String) : Prop :=
  ∀ scan id, scanRelayFrame msg = some scan → scannedEventId scan = some id →
    id ∉ (windowOf st.dedup s).order

/-- The condition: in the text of a frame that is no duplicate, the search finds an
id exactly when the text reads as an event. -/
def SearchMatchesReader (st : CopyState) : CopyAct → Prop
  | .frame msg _ => Fresh s st msg → ∀ text, pipelineText msg = some text →
      ((textEventId text).isSome ↔ (SignedEvent.readFields text).isOk)
  | _ => True

/-- The other condition: an event has a length that 32 bits hold, and it does not meet
a batch when it fills one by itself. -/
def KeepsBatch (st : CopyState) : CopyAct → Prop
  | .frame msg now => ∀ eventJson, (route st.dedup s msg).1 = .raw eventJson →
      let op := BatchOp.addMessage s (Utf8.encode (String.ofList eventJson)) now
      op.Fits ∧ ¬ BatchRun.Overrun ⟨st.parserBatches, []⟩ s op
  | _ => True

/-- The texts that have left the window behind and not reached the pipeline. -/
def onTheWay (st : CopyState) : List (List Char) :=
  st.channel ++ (decodeTaggedBatch (st.parserBatches.residual s)).filterMap rawText

/-- The accepted ids are on their way or have reached the pipes, and nothing else is
remembered. -/
structure Inv (st : CopyState) : Prop where
  windows : WindowsOk st.dedup
  framed : st.parserBatches.Framed
  window : ∀ id ∈ (windowOf st.dedup s).order, id ∈ st.accepted
  pending : ∀ id ∈ st.accepted,
    (∃ text ∈ onTheWay s st, textEventId text = some id) ∨ st.Reached id
  waiting : ∀ text ∈ onTheWay s st,
    (textEventId text).isSome → (SignedEvent.readFields text).isOk
  seen : ∀ id ∈ st.seen, st.Reached id

variable {s}

theorem decodeTaggedBatch_nil : decodeTaggedBatch [] = [] := decodeTaggedBatch_batch "" [] nofun

theorem onTheWay_of_residual {st : CopyState} (h : st.parserBatches.residual s = []) :
    onTheWay s st = st.channel := by
  rw [onTheWay, h, decodeTaggedBatch_nil]
  exact append_nil _

theorem framed_new : new.parserBatches.Framed :=
  fun _ => ⟨[], fun _ h => absurd h not_mem_nil, rfl⟩

theorem inv_new : Inv s new where
  windows := windowsOk_empty
  framed := framed_new
  window _ h := nomatch h
  pending _ h := nomatch h
  waiting text h := by
    rw [onTheWay_of_residual rfl] at h
    cases h
  seen _ h := nomatch h

theorem isOk_iff {ε α : Type} {x : Except ε α} : x.isOk = true ↔ ∃ a, x = .ok a := by
  cases x with
  | error e => simp [Except.isOk, Except.toBool]
  | ok a => simp [Except.isOk, Except.toBool]

variable {msg : String} {st : CopyState}

theorem textEventId_of_scanned {scan : ScannedFrame} {id : Bytes32}
    (hscan : scanRelayFrame msg = some scan) (hid : scannedEventId scan = some id) :
    ∃ text, pipelineText msg = some text ∧ textEventId text = some id := by
  rw [scannedEventId] at hid
  split at hid
  · cases hid
  · next hkind =>
    obtain ⟨v, hv, htext⟩ := Option.bind_eq_some_iff.mp hid
    refine ⟨v.raw, ?_, htext⟩
    rw [pipelineText, hscan]
    dsimp only
    rw [if_pos (not_not.mp hkind), hv]

theorem mem_acceptedId {id : Bytes32} :
    id ∈ acceptedId msg ↔ ∃ text event, pipelineText msg = some text ∧
      SignedEvent.readFields text = .ok event ∧ event.id = id := by
  rw [acceptedId]
  cases htext : pipelineText msg with
  | none => simp
  | some text =>
    dsimp only
    cases hread : SignedEvent.readFields text with
    | error e => simp [hread]
    | ok event => simp [hread, eq_comm]

theorem route_fresh (hs : ForParser s) (hw : WindowsOk st.dedup) (hfresh : Fresh s st msg) :
    (route st.dedup s msg).1.forwarded = true ∧
      ∀ id ∈ (windowOf (route st.dedup s msg).2 s).order,
        id ∈ (windowOf st.dedup s).order ∨
          ∃ scan, scanRelayFrame msg = some scan ∧ scannedEventId scan = some id := by
  rw [route, if_neg hs]
  cases hscan : scanRelayFrame msg with
  | none => exact ⟨rfl, fun id h => Or.inl h⟩
  | some scan =>
    dsimp only
    have hkept : Route.forwarded (match scan.args[1]? with
        | some v => if v.isString then Route.control else Route.raw v.raw
        | none => Route.control) = true := by
      split
      · split <;> rfl
      · rfl
    split
    · exact ⟨rfl, fun id h => Or.inl h⟩
    · cases hid : scannedEventId scan with
      | none => exact ⟨hkept, fun id h => Or.inl h⟩
      | some id =>
        obtain ⟨hnew, -, horder⟩ :=
          SubDedup.mark_of_notMem (hw.windowOf s) (hfresh scan id hscan hid)
        dsimp only
        rw [Watch.windowOf_insert]
        rw [windowOf] at hnew horder
        rw [hnew, horder]
        refine ⟨hkept, ?_⟩
        intro other hother
        rcases List.mem_append.mp (mem_of_mem_drop hother) with hold | hlast
        · exact Or.inl hold
        · rw [List.mem_singleton.mp hlast]
          exact Or.inr ⟨scan, rfl, hid⟩

theorem route_duplicate (hs : ForParser s) {dedup : Map String SubDedup} (hw : WindowsOk dedup)
    {scan : ScannedFrame} {id : Bytes32} (hscan : scanRelayFrame msg = some scan)
    (hid : scannedEventId scan = some id) (hmem : id ∈ (windowOf dedup s).order) :
    (route dedup s msg).1.forwarded = false ∧
      windowOf (route dedup s msg).2 s = windowOf dedup s := by
  have hkind : ¬ scan.kind ≠ "EVENT".toList := by
    intro hne
    rw [scannedEventId, if_pos hne] at hid
    cases hid
  have hmark := SubDedup.mark_of_mem (hw.windowOf s) hmem
  rw [route, if_neg hs, hscan]
  dsimp only
  rw [if_neg hkind, hid]
  dsimp only
  rw [Watch.windowOf_insert]
  rw [windowOf] at hmark
  rw [hmark]
  exact ⟨rfl, rfl⟩

/-! ### The way between the workers -/

theorem send_seen (st : CopyState) (msg : String) (now : ℕ) (r : Route) :
    (st.send s msg now r).seen = st.seen ∧ (st.send s msg now r).reached = st.reached := by
  cases r <;> exact ⟨rfl, rfl⟩

theorem send_of_not_forwarded (st : CopyState) (msg : String) (now : ℕ) {r : Route}
    (h : r.forwarded = false) : st.send s msg now r = st := by
  cases r with
  | crypto => rfl
  | duplicate => rfl
  | control => cases h
  | raw eventJson => cases h

theorem pipelineText_of_raw {dedup : Map String SubDedup} {eventJson : List Char}
    (h : (route dedup s msg).1 = .raw eventJson) : pipelineText msg = some eventJson := by
  rw [route] at h
  split at h
  · cases h
  · rw [pipelineText]
    cases hscan : scanRelayFrame msg with
    | none =>
      rw [hscan] at h
      cases h
    | some scan =>
      rw [hscan] at h
      dsimp only at h ⊢
      split at h
      · cases h
      · next hkind =>
        rw [if_pos (not_not.mp hkind)]
        have hkept : (match scan.args[1]? with
            | some v => if v.isString then Route.control else Route.raw v.raw
            | none => Route.control) = .raw eventJson := by
          split at h
          · exact h
          · dsimp only at h
            split at h
            · exact h
            · cases h
        cases hv : scan.args[1]? with
        | none =>
          rw [hv] at hkept
          cases hkept
        | some v =>
          rw [hv] at hkept
          dsimp only at hkept
          split at hkept
          · cases hkept
          · exact congrArg some (Route.raw.inj hkept)

theorem rawText_encode {subId : String} (hne : subId ≠ "") {text : List Char} (htext : text ≠ []) :
    rawText (subId, Utf8.encode (String.ofList text)) = some text := by
  rw [rawText, Utf8.fromUTF8_encode]
  dsimp only
  rw [String.toList_ofList, if_neg (not_or.mpr ⟨htext, hne⟩)]

theorem rawText_eq_some {subId : String} {text found : List Char}
    (h : rawText (subId, Utf8.encode (String.ofList text)) = some found) : found = text := by
  rw [rawText, Utf8.fromUTF8_encode] at h
  dsimp only at h
  rw [String.toList_ofList] at h
  split at h
  · cases h
  · exact (Option.some.inj h).symm

theorem onTheWay_raw (hframed : st.parserBatches.Framed) {now : ℕ} {eventJson : List Char}
    (hroute : (route st.dedup s msg).1 = .raw eventJson)
    (hkeeps : KeepsBatch s st (.frame msg now)) :
    onTheWay s (st.send s msg now (.raw eventJson)) =
      onTheWay s st ++ (rawText (s, Utf8.encode (String.ofList eventJson))).toList := by
  obtain ⟨hfits, hover⟩ := hkeeps eventJson hroute
  have hspec := (BatchBufferManager.addMessage_spec hframed now hfits).2 s
  rw [if_pos rfl, if_neg fun h => hover ⟨rfl, h⟩] at hspec
  have hone : (rawText (s, Utf8.encode (String.ofList eventJson))).toList =
      [(s, Utf8.encode (String.ofList eventJson))].filterMap rawText := by
    cases hraw : rawText (s, Utf8.encode (String.ofList eventJson)) <;> simp [hraw]
  rw [hone, onTheWay, onTheWay, append_assoc, ← filterMap_append, ← hspec,
    filterMap_append, ← append_assoc]
  rfl

theorem onTheWay_control (hframed : st.parserBatches.Framed) (now : ℕ) :
    onTheWay s (st.send s msg now .control) = onTheWay s st ++ (pipelineText msg).toList := by
  have hspec := (BatchBufferManager.flushSub_spec hframed s).2 s
  rw [BatchBufferManager.residual_flushSub, decodeTaggedBatch_nil, append_nil] at hspec
  rw [onTheWay_of_residual (BatchBufferManager.residual_flushSub _ s), onTheWay, ← hspec]
  rfl

/-- **What is on the way after a frame**: what was, and the text of the frame when it is
forwarded. -/
theorem mem_onTheWay_frame (hne : s ≠ "") (hframed : st.parserBatches.Framed) {now : ℕ}
    (hkeeps : KeepsBatch s st (.frame msg now)) {text : List Char} (htext : text ≠ []) :
    text ∈ onTheWay s (step s st (.frame msg now)) ↔ text ∈ onTheWay s st ∨
      (route st.dedup s msg).1.forwarded = true ∧ pipelineText msg = some text := by
  show text ∈ onTheWay s (st.send s msg now (route st.dedup s msg).1) ↔ _
  cases hroute : (route st.dedup s msg).1 with
  | crypto => simp [send, Route.forwarded]
  | duplicate => simp [send, Route.forwarded]
  | raw eventJson =>
    rw [onTheWay_raw hframed hroute hkeeps, mem_append, Option.mem_toList,
      pipelineText_of_raw hroute]
    refine or_congr_right ⟨fun h => ⟨rfl, ?_⟩, ?_⟩
    · rw [rawText_eq_some h]
    · rintro ⟨-, h⟩
      cases h
      exact rawText_encode hne htext
  | control =>
    rw [onTheWay_control hframed, mem_append, Option.mem_toList]
    simp [Route.forwarded]

theorem framed_frame (hframed : st.parserBatches.Framed) {now : ℕ}
    (hkeeps : KeepsBatch s st (.frame msg now)) :
    (step s st (.frame msg now)).parserBatches.Framed := by
  show (st.send s msg now (route st.dedup s msg).1).parserBatches.Framed
  cases hroute : (route st.dedup s msg).1 with
  | raw eventJson =>
    exact (BatchBufferManager.addMessage_spec hframed now (hkeeps eventJson hroute).1).1
  | control => exact (BatchBufferManager.flushSub_spec hframed s).1
  | _ => exact hframed

theorem onTheWay_sweep (hframed : st.parserBatches.Framed) (iter : IterOrder String) (now : ℕ) :
    (step s st (.sweep iter now)).parserBatches.Framed ∧
      onTheWay s (step s st (.sweep iter now)) = onTheWay s st := by
  obtain ⟨hnext, hspec⟩ := BatchBufferManager.flushSubs_spec
    ((iter.order st.parserBatches.buffers.keys).filter fun subId =>
      (st.parserBatches.buffers.lookup subId).any fun b => b.timedOut now) hframed
  refine ⟨hnext, ?_⟩
  show st.channel ++ arrived s _ ++ List.filterMap rawText (decodeTaggedBatch _) = _
  rw [onTheWay, ← hspec s, filterMap_append, append_assoc]
  rfl

/-! ### The invariant -/

theorem ne_nil_of_textEventId {text : List Char} (h : (textEventId text).isSome) : text ≠ [] := by
  rintro rfl
  exact absurd h (by decide)

theorem inv_frame (hs : ForParser s) (hne : s ≠ "") (h : Inv s st) {now : ℕ}
    (hcond : SearchMatchesReader s st (.frame msg now)) (hkeeps : KeepsBatch s st (.frame msg now)) :
    Inv s (step s st (.frame msg now)) := by
  have hway : ∀ text, (textEventId text).isSome → (text ∈ onTheWay s (step s st (.frame msg now)) ↔
      text ∈ onTheWay s st ∨
        (route st.dedup s msg).1.forwarded = true ∧ pipelineText msg = some text) :=
    fun text hid => mem_onTheWay_frame hne h.framed hkeeps (ne_nil_of_textEventId hid)
  -- What was on its way or had reached the pipes still is.
  have hold : ∀ id ∈ st.accepted, (∃ text ∈ onTheWay s (step s st (.frame msg now)),
      textEventId text = some id) ∨ st.Reached id := by
    intro id hid
    refine (h.pending id hid).imp_left ?_
    rintro ⟨text, hmem, htid⟩
    exact ⟨text, (hway text (by rw [htid]; rfl)).mpr (Or.inl hmem), htid⟩
  obtain ⟨hseen, hsame⟩ := send_seen (s := s) st msg now (route st.dedup s msg).1
  have hreached : ∀ id, st.Reached id → (step s st (.frame msg now)).Reached id := by
    rintro id ⟨event, hmem, hid⟩
    exact ⟨event, hsame ▸ hmem, hid⟩
  have hseen' : ∀ id ∈ (step s st (.frame msg now)).seen,
      (step s st (.frame msg now)).Reached id :=
    fun id hid => hreached id (h.seen id (hseen ▸ hid))
  have hframed := framed_frame h.framed hkeeps
  by_cases hfresh : Fresh s st msg
  · obtain ⟨hforward, hwindow⟩ := route_fresh hs h.windows hfresh
    -- With the condition, an id found in the text is the id of an accepted copy.
    have hfound : ∀ text id, pipelineText msg = some text → textEventId text = some id →
        id ∈ acceptedId msg := by
      intro text id htext hid
      obtain ⟨event, hread⟩ := isOk_iff.mp ((hcond hfresh text htext).mp (by rw [hid]; rfl))
      exact mem_acceptedId.mpr ⟨text, event, htext, hread, fromJson_id hid hread⟩
    refine ⟨windowsOk_route h.windows s msg, hframed, ?_, ?_, ?_, hseen'⟩
    · intro id hid
      rcases hwindow id hid with hold | ⟨scan, hscan, hsid⟩
      · exact mem_append_left _ (h.window id hold)
      · obtain ⟨text, htext, htid⟩ := textEventId_of_scanned hscan hsid
        exact mem_append_right _ (hfound text id htext htid)
    · intro id hid
      rcases List.mem_append.mp hid with hmem | hnew
      · exact (hold id hmem).imp_right (hreached id)
      · obtain ⟨text, event, htext, hread, rfl⟩ := mem_acceptedId.mp hnew
        have hsome := (hcond hfresh text htext).mpr (isOk_iff.mpr ⟨event, hread⟩)
        obtain ⟨id, htid⟩ := Option.isSome_iff_exists.mp hsome
        refine Or.inl ⟨text, (hway text hsome).mpr (Or.inr ⟨hforward, htext⟩), ?_⟩
        rw [htid, fromJson_id htid hread]
    · intro text htext hsome
      rcases (hway text hsome).mp htext with hmem | ⟨-, hnew⟩
      · exact h.waiting text hmem hsome
      · exact (hcond hfresh text hnew).mp hsome
  · -- A duplicate: its id is in the window, so an accepted copy came before.
    obtain ⟨scan, id0, hscan, hid0, hmem⟩ : ∃ scan id, scanRelayFrame msg = some scan ∧
        scannedEventId scan = some id ∧ id ∈ (windowOf st.dedup s).order := by
      simpa [Fresh] using hfresh
    obtain ⟨hdrop, hwindow⟩ := route_duplicate hs h.windows hscan hid0 hmem
    refine ⟨windowsOk_route h.windows s msg, hframed, ?_, ?_, ?_, hseen'⟩
    · intro id hid
      have hid : id ∈ (windowOf (route st.dedup s msg).2 s).order := hid
      rw [hwindow] at hid
      exact mem_append_left _ (h.window id hid)
    · intro id hid
      rcases List.mem_append.mp hid with hmem | hnew
      · exact (hold id hmem).imp_right (hreached id)
      · obtain ⟨text, event, htext, hread, rfl⟩ := mem_acceptedId.mp hnew
        obtain ⟨text', htext', htid⟩ := textEventId_of_scanned hscan hid0
        rw [htext, Option.some.injEq] at htext'
        subst htext'
        rw [fromJson_id htid hread]
        exact (hold id0 (h.window id0 hmem)).imp_right (hreached id0)
    · intro text htext hsome
      rcases (hway text hsome).mp htext with hmem | ⟨hforward, -⟩
      · exact h.waiting text hmem hsome
      · rw [hdrop] at hforward
        cases hforward

theorem inv_sweep (h : Inv s st) (iter : IterOrder String) (now : ℕ) :
    Inv s (step s st (.sweep iter now)) := by
  obtain ⟨hframed, hway⟩ := onTheWay_sweep h.framed iter now
  refine ⟨h.windows, hframed, h.window, ?_, ?_, h.seen⟩
  · rw [hway]
    exact h.pending
  · rw [hway]
    exact h.waiting

theorem inv_deliver (h : Inv s st) (fails : Bool) : Inv s (step s st (.deliver fails)) := by
  rw [step]
  cases hchannel : st.channel with
  | nil => exact h
  | cons text rest =>
    have hway : onTheWay s st = text :: onTheWay s { st with channel := rest } := by
      rw [onTheWay, hchannel]
      rfl
    have hread : ∀ id, textEventId text = some id →
        ∃ event, SignedEvent.readFields text = .ok event := by
      intro id hid
      exact isOk_iff.mp (h.waiting text (by rw [hway]; exact mem_cons_self)
        (by rw [hid]; rfl))
    obtain ⟨hseen, hfound⟩ := Pipeline.process_spec st.seen fails hread
    dsimp only
    generalize Pipeline.process st.seen text fails = processed at hseen hfound
    -- An id is reached when it was before, or when its event is the one that enters now.
    have hreach : ∀ id, st.Reached id ∨ (∃ event, processed.2 = some event ∧ event.id = id) →
        ∃ event ∈ st.reached ++ processed.2.toList, event.id = id := by
      rintro id (⟨event, hmem, hid⟩ | ⟨event, hsome, hid⟩)
      · exact ⟨event, mem_append_left _ hmem, hid⟩
      · exact ⟨event, mem_append_right _ (Option.mem_toList.mpr hsome), hid⟩
    refine ⟨h.windows, h.framed, h.window, ?_, ?_, ?_⟩
    · intro id hacc
      rcases h.pending id hacc with ⟨t, ht, htid⟩ | hreached
      · rw [hway] at ht
        rcases List.mem_cons.mp ht with rfl | ht
        · right
          exact hreach id ((hfound id htid).imp_left (h.seen id))
        · exact Or.inl ⟨t, ht, htid⟩
      · exact Or.inr (hreach id (Or.inl hreached))
    · intro t ht
      exact h.waiting t (by rw [hway]; exact mem_cons_of_mem _ ht)
    · intro id hid
      exact hreach id ((hseen id hid).imp_left (h.seen id))

theorem inv_step (hs : ForParser s) (hne : s ≠ "") {act : CopyAct} (h : Inv s st)
    (hcond : SearchMatchesReader s st act ∧ KeepsBatch s st act) : Inv s (step s st act) := by
  cases act with
  | frame msg now => exact inv_frame hs hne h hcond.1 hcond.2
  | sweep iter now => exact inv_sweep h iter now
  | deliver fails => exact inv_deliver h fails

theorem Inv.noneHidden (h : Inv s st) : NoneHidden s st := by
  refine ⟨?_, ?_, h.seen⟩
  · intro hsent hempty id hid
    rcases h.pending id hid with ⟨text, hmem, -⟩ | hreached
    · rw [onTheWay_of_residual hsent, hempty] at hmem
      cases hmem
    · exact hreached
  · intro id hid
    rw [(h.windows.windowOf s).ids, mem_toFinset] at hid
    exact h.window id hid

end CopyState

open CopyState in
/-- **A broken copy does not hide the good one** in any run in which the text of
every frame that is no duplicate has an id for the search exactly when it reads as
an event, and no event overruns the batch of the subscription. -/
theorem good_copies_reach {s : String} (hs : ForParser s) (hne : s ≠ "") (acts : List CopyAct)
    (hcond : Run.Along (step s) (SearchMatchesReader s) CopyState.new acts)
    (hkeeps : Run.Along (step s) (KeepsBatch s) CopyState.new acts) :
    NoneHidden s (Run.exec (step s) CopyState.new acts) := by
  have hinv : Inv s (Run.exec (step s) CopyState.new acts) :=
    Run.Along.exec (fun _ _ h hc => inv_step hs hne h hc) inv_new (hcond.and hkeeps)
  exact hinv.noneHidden

/-! ### What a broken copy hides -/

theorem pipelineText_event {f : EventFrame} (hf : f.FindsOwnId) :
    pipelineText f.text = some f.event.text := by
  have hkind : literalText f.kind = "EVENT".toList := by
    rw [literalText_of_plain hf.kind, f.kind_event]
  rw [pipelineText, scanRelayFrame_event]
  dsimp only
  rw [if_pos hkind]
  rfl

/-- The frame that ends the stored events. -/
def eoseFrame : String := "[\"EOSE\",\"s\"]"

theorem route_eoseFrame {s : String} (hs : ForParser s) (dedup : Map String SubDedup) :
    route dedup s eoseFrame = (.control, dedup) := by
  have hkind : (scanRelayFrame eoseFrame).map ScannedFrame.kind = some "EOSE".toList := by decide
  obtain ⟨scan, hscan, hkind⟩ := Option.map_eq_some_iff.mp hkind
  rw [route, if_neg hs, hscan]
  dsimp only
  rw [if_pos (by rw [hkind]; decide)]

theorem pipelineText_eoseFrame : pipelineText eoseFrame = none := by decide

open CopyState in
/-- The first EVENT frame of a subscription, and the end of the stored events. -/
theorem exec_event_eose {s : String} (hs : ForParser s) (hne : s ≠ "") {f : EventFrame}
    (hf : f.FindsOwnId)
    (hfits : (encodeTagged s (Utf8.encode (String.ofList f.event.text))).length < 2 ^ 32) :
    ∃ batches, batches.residual s = [] ∧
      Run.exec (step s) CopyState.new [.frame f.text 0, .frame eoseFrame 0] =
        { dedup := (route ∅ s f.text).2, parserBatches := batches, channel := [f.event.text]
          seen := ∅, reached := [], accepted := acceptedId f.text } := by
  have hroute : (route CopyState.new.dedup s f.text).1 = .raw f.event.text := by
    rw [show CopyState.new.dedup = ∅ from rfl, Watch.route_event hs ∅ hf, windowOf,
      AList.lookup_empty]
    rfl
  have hkeeps : KeepsBatch s CopyState.new (.frame f.text 0) := by
    intro eventJson hjson
    rw [hroute] at hjson
    cases hjson
    exact ⟨hfits, fun hover => hover.2.1 rfl⟩
  have hempty : f.event.text ≠ [] :=
    ne_nil_of_textEventId (by rw [textEventId_iff.mpr hf.id]; rfl)
  have hway : onTheWay s (step s CopyState.new (.frame f.text 0)) = [f.event.text] := by
    show onTheWay s (CopyState.new.send s f.text 0 (route CopyState.new.dedup s f.text).1) = _
    rw [hroute, onTheWay_raw framed_new hroute hkeeps, onTheWay_of_residual rfl,
      rawText_encode hne hempty]
    rfl
  obtain ⟨st, hst⟩ : ∃ st, st = step s CopyState.new (.frame f.text 0) := ⟨_, rfl⟩
  obtain ⟨hseen, hreached⟩ := send_seen (s := s) CopyState.new f.text 0
    (route CopyState.new.dedup s f.text).1
  have hlast : step s st (.frame eoseFrame 0) =
      { st.send s eoseFrame 0 .control with dedup := st.dedup, accepted := st.accepted } := by
    rw [step, route_eoseFrame hs, acceptedId, pipelineText_eoseFrame, append_nil]
  have hres : (st.parserBatches.flushSub s).1.residual s = [] :=
    BatchBufferManager.residual_flushSub _ s
  have hsent : (st.send s eoseFrame 0 .control).channel = [f.event.text] := by
    rw [← onTheWay_of_residual (s := s) hres, onTheWay_control (hst ▸ framed_frame framed_new hkeeps),
      hst, hway, pipelineText_eoseFrame]
    rfl
  refine ⟨(st.parserBatches.flushSub s).1, hres, ?_⟩
  subst hst
  rw [Run.exec_cons, Run.exec_cons, Run.exec_nil, hlast]
  exact CopyState.ext rfl rfl hsent hseen hreached rfl

open CopyState in
/-- **A broken copy hides the good one**: a frame whose event does not read leaves
its id in the window and in the seen ids, and every whole copy that comes afterwards
is a duplicate. -/
theorem hidden_after_broken {s : String} (hs : ForParser s) (hne : s ≠ "")
    {broken good : EventFrame} (hb : broken.FindsOwnId) (hg : good.FindsOwnId)
    (hsame : good.eventId = broken.eventId)
    (hfits : (encodeTagged s (Utf8.encode (String.ofList broken.event.text))).length < 2 ^ 32)
    {e : TypesError} (hbroken : SignedEvent.readFields broken.event.text = .error e)
    {event : SignedEvent} (hgood : SignedEvent.readFields good.event.text = .ok event) :
    ¬ NoneHidden s (Run.exec (step s) CopyState.new
      [.frame broken.text 0, .frame eoseFrame 0, .deliver false, .frame good.text 0,
        .deliver false]) := by
  have hid : textEventId broken.event.text = some broken.eventId := textEventId_iff.mpr hb.id
  have hgoodId : textEventId good.event.text = some good.eventId := textEventId_iff.mpr hg.id
  obtain ⟨batches, hres, hfirst⟩ := exec_event_eose hs hne hb hfits
  have hread : Pipeline.process ∅ broken.event.text false = (insert broken.eventId ∅, none) := by
    simp only [Pipeline.process, hid, hbroken, Finset.notMem_empty, if_false, Finset.card_empty,
      dedupMaxSize, Nat.zero_lt_succ, if_true]
  -- The id is in the window now, so the whole event is a duplicate.
  have hdrop : (route (route ∅ s broken.text).2 s good.text).1.forwarded = false := by
    have hscanned := scannedEventId_event good hg.kind
    rw [hgoodId] at hscanned
    refine (route_duplicate hs (windowsOk_route windowsOk_empty _ _)
      (scanRelayFrame_event good) hscanned ?_).1
    rw [(route_first hs hb.kind hid).2, hsame]
    exact List.mem_singleton.mpr rfl
  have hbrokenId : acceptedId broken.text = [] := by
    simp only [acceptedId, pipelineText_event hb, hbroken]
  have haccepted : acceptedId good.text = [event.id] := by
    simp only [acceptedId, pipelineText_event hg, hgood]
  have hlast : Run.exec (step s) CopyState.new
      ([.frame broken.text 0, .frame eoseFrame 0] ++
        [.deliver false, .frame good.text 0, .deliver false]) =
      { dedup := (route (route ∅ s broken.text).2 s good.text).2, parserBatches := batches
        channel := [], seen := insert broken.eventId ∅, reached := [], accepted := [event.id] } := by
    rw [Run.exec_append, hfirst]
    simp only [Run.exec_cons, Run.exec_nil, step, hread, send_of_not_forwarded _ _ _ hdrop,
      hbrokenId, haccepted, Option.toList_none, append_nil, nil_append]
  intro h
  rw [show ([_, _, _, _, _] : List CopyAct) = [_, _] ++ [_, _, _] from rfl, hlast] at h
  obtain ⟨reached, hmem, -⟩ := h.reach hres rfl event.id (List.mem_singleton.mpr rfl)
  cases hmem

/-! ### A copy with nothing but its id -/

def goodMembers : Members :=
  compactMember "id" (.str (idLiteral zeroId)) (compactMember "pubkey" (.str (idLiteral zeroId))
    (compactMember "created_at" (.atom ['1']) (compactMember "kind" (.atom ['1'])
      (compactMember "tags" (.arr [] .nil) (compactMember "content" (compactString "hi")
        (compactMember "sig" (compactString "00") .nil))))))

theorem wf_goodMembers : goodMembers.Wf := by
  have hatom := wf_atom_one
  refine wf_compactMember (by decide) (wf_idLiteral zeroId) ?_
  refine wf_compactMember (by decide) (wf_idLiteral zeroId) ?_
  refine wf_compactMember (by decide) hatom (wf_compactMember (by decide) hatom ?_)
  refine wf_compactMember (by decide) ⟨blank_nil, trivial⟩ ?_
  refine wf_compactMember (by decide) (wf_compactString (by decide)) ?_
  exact wf_compactMember (by decide) (wf_compactString (by decide)) trivial

def goodFrame : EventFrame :=
  compactFrame goodMembers zeroId
    (by simp [goodMembers, compactMember, Members.valuesOf, literalValue_plainLiteral])
    wf_goodMembers

def goodEvent : SignedEvent :=
  { id := zeroId, pubkey := zeroId, createdAt := 1, kind := 1, tags := [], content := "hi"
    sig := "00" }

theorem readFields_good : SignedEvent.readFields goodFrame.event.text = .ok goodEvent := by
  decide +kernel

theorem findsOwnId_good : goodFrame.FindsOwnId :=
  ⟨plain_plainLiteral _, textEventId_iff.mp (by decide +kernel)⟩

theorem readFields_idFirst :
    SignedEvent.readFields (idFirst zeroId).event.text =
      .error (.invalidFormat "Missing pubkey") := by
  decide +kernel

theorem forParser_s : ForParser "s" := by
  unfold ForParser
  decide

open CopyState in
/-- One relay sends the whole event and the end of the stored ones, and the parser takes
what has come. -/
theorem good_copies_reach_one :
    NoneHidden "s" (Run.exec (step "s") CopyState.new
      [.frame goodFrame.text 0, .frame eoseFrame 0, .deliver false]) := by
  refine good_copies_reach forParser_s (by decide) _ ⟨?_, ?_, trivial, trivial⟩
    ⟨?_, ?_, trivial, trivial⟩
  · intro _ text htext
    rw [pipelineText_event findsOwnId_good, Option.some.injEq] at htext
    rw [← htext, readFields_good, textEventId_iff.mpr findsOwnId_good.id]
    exact ⟨fun _ => rfl, fun _ => rfl⟩
  · intro _ text htext
    rw [pipelineText_eoseFrame] at htext
    cases htext
  · intro eventJson hjson
    have htext := pipelineText_of_raw hjson
    rw [pipelineText_event findsOwnId_good, Option.some.injEq] at htext
    subst htext
    exact ⟨by show (encodeTagged _ _).length < _; decide +kernel, fun hover => hover.2.1 rfl⟩
  · intro eventJson hjson
    rw [route_eoseFrame forParser_s] at hjson
    cases hjson

open CopyState in
/-- A relay sends the bare id and the end of the stored events, and the parser takes it;
the whole event that comes afterwards never reaches the pipes. -/
theorem broken_copy_hides_good :
    ¬ NoneHidden "s" (Run.exec (step "s") CopyState.new
      [.frame (idFirst zeroId).text 0, .frame eoseFrame 0, .deliver false,
        .frame goodFrame.text 0, .deliver false]) :=
  hidden_after_broken forParser_s (by decide) (findsOwnId_idFirst zeroId) findsOwnId_good rfl
    (by decide +kernel) readFields_idFirst readFields_good

end Nipworker
