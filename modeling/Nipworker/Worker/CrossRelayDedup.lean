/-
An event comes once from many relays (`transport/sub_dedup.rs`,
`worker/connections_worker.rs`).

A subscription is watched from a moment when it has no window: at the start, or
after a CLOSE.  Its EVENT frames come in any order and layout, between frames of
other subscriptions.
-/
import Nipworker.Types.EventReads
import Nipworker.Worker.OutWriter

namespace Nipworker

open JsonText

/-! ### One subscription -/

/-- The frame is written so that the text search finds the event's own id: its kind
has no escape, and the string after the first `"id"` of the event spells the id. -/
structure EventFrame.FindsOwnId (f : EventFrame) : Prop where
  kind : Plain f.kind
  id : FirstIdIs f.event.text f.eventId

/-- The subscription is not one of NIP-46, whose frames go to the crypto worker. -/
def ForParser (subId : String) : Prop := ¬ "n46:".toList.isPrefixOf subId.toList = true

/-- A watched subscription: the cells, and the ids of the events forwarded for it. -/
structure Watch where
  writer : WriterState
  forwarded : List Bytes32

namespace Watch

variable (serde : SerdeJson) (s : String)

/-- The id of the event a step forwards for the subscription. -/
def forwardedId (w : WriterState) : WriterAct → List Bytes32
  | .event _ subId frame _ =>
    if decodeRelaySubId w.maps subId = s ∧ (route w.dedup s frame.text).1.forwarded then
      [frame.eventId]
    else []
  | _ => []

def step (r : Watch) (act : WriterAct) : Watch :=
  { writer := r.writer.step serde act, forwarded := r.forwarded ++ forwardedId s r.writer act }

def recent (r : Watch) : List Bytes32 := r.forwarded.dedup.rtake maxDedupIdsPerSub

/-- The runs in question: the subscription is not closed, and its EVENT frames are
well formed, so that its other frames have no id to be found. -/
def InDomain (r : Watch) : WriterAct → Prop
  | .other _ subId msg _ => decodeRelaySubId r.writer.maps subId = s →
      ∀ scan, scanRelayFrame msg = some scan → scannedEventId scan = none
  | .close subId => subId ≠ s
  | _ => True

/-- The condition: the search finds the own id of the subscription's events. -/
def FindsOwnIds (r : Watch) : WriterAct → Prop
  | .event _ subId frame _ => decodeRelaySubId r.writer.maps subId = s → frame.FindsOwnId
  | _ => True

/-- The property: an EVENT frame of the subscription is forwarded exactly when its
event's id is not among the last 4096 distinct ids forwarded. -/
def ForwardsOnce (r : Watch) : WriterAct → Prop
  | .event _ subId frame _ => decodeRelaySubId r.writer.maps subId = s →
      ((route r.writer.dedup s frame.text).1.forwarded = true ↔ frame.eventId ∉ r.recent)
  | _ => True

/-- The window holds the last ids that were forwarded. -/
structure Inv (r : Watch) : Prop where
  windows : WindowsOk r.writer.dedup
  queue : (windowOf r.writer.dedup s).order = r.forwarded.rtake maxDedupIdsPerSub

variable {serde s}

theorem Inv.recent {r : Watch} (h : Inv s r) : r.recent = (windowOf r.writer.dedup s).order := by
  rw [Watch.recent, List.rtake_dedup, h.queue]
  rw [← h.queue]
  exact (h.windows.windowOf s).nodup

theorem route_event (hs : ForParser s) (dedup : Map String SubDedup) {frame : EventFrame}
    (hframe : frame.FindsOwnId) :
    route dedup s frame.text =
      (if ((windowOf dedup s).mark frame.eventId).2 then .raw frame.event.text else .duplicate,
        dedup.insert s ((windowOf dedup s).mark frame.eventId).1) := by
  have hkind : literalText frame.kind = "EVENT".toList := by
    rw [literalText_of_plain hframe.kind, frame.kind_event]
  rw [route, if_neg hs, scanRelayFrame_event]
  dsimp only
  rw [if_neg (by simp [hkind]), scannedEventId_event frame hframe.kind,
    textEventId_iff.mpr hframe.id]
  rfl

theorem windowOf_route_ne {dedup : Map String SubDedup} {other : String} (hne : other ≠ s)
    (msg : String) : windowOf (route dedup other msg).2 s = windowOf dedup s := by
  rcases route_dedup dedup other msg with hsame | ⟨scan, id, -, -, hnew⟩
  · rw [hsame]
  · rw [hnew, windowOf, Map.lookup_insert_ite, if_neg hne.symm]
    rfl

theorem windowOf_route_noId {dedup : Map String SubDedup} {other msg : String}
    (h : ∀ scan, scanRelayFrame msg = some scan → scannedEventId scan = none) :
    (route dedup other msg).2 = dedup := by
  rcases route_dedup dedup other msg with hsame | ⟨scan, id, hscan, hid, -⟩
  · exact hsame
  · rw [h scan hscan] at hid
    cases hid

theorem windowOf_insert (dedup : Map String SubDedup) (d : SubDedup) :
    windowOf (dedup.insert s d) s = d := by
  rw [windowOf, AList.lookup_insert, Option.getD_some]

/-- **One step** under the condition: the frame is treated as the property says. -/
theorem forwardsOnce_of_finds (hs : ForParser s) {r : Watch} (h : Inv s r) {act : WriterAct}
    (hfinds : FindsOwnIds s r act) : ForwardsOnce s r act := by
  cases act with
  | event url subId frame now =>
    intro hsub
    rw [h.recent, route_event hs _ (hfinds hsub)]
    by_cases hmem : frame.eventId ∈ (windowOf r.writer.dedup s).order
    · rw [SubDedup.mark_of_mem (h.windows.windowOf s) hmem]
      simp [Route.forwarded, hmem]
    · rw [(SubDedup.mark_of_notMem (h.windows.windowOf s) hmem).1]
      simp [Route.forwarded, hmem]
  | _ => trivial

theorem inv_step (hs : ForParser s) {r : Watch} (h : Inv s r) {act : WriterAct}
    (hdomain : InDomain s r act) (hfinds : FindsOwnIds s r act) :
    Inv s (step serde s r act) := by
  refine ⟨windowsOk_step serde h.windows act, ?_⟩
  -- Away from the subscription's own EVENT frames nothing is forwarded and nothing marked.
  have hkeep : forwardedId s r.writer act = [] →
      windowOf (r.writer.step serde act).dedup s = windowOf r.writer.dedup s →
      (windowOf (step serde s r act).writer.dedup s).order =
        (step serde s r act).forwarded.rtake maxDedupIdsPerSub := by
    intro hnone hwindow
    show (windowOf (r.writer.step serde act).dedup s).order =
      (r.forwarded ++ forwardedId s r.writer act).rtake maxDedupIdsPerSub
    rw [hnone, List.append_nil, hwindow, h.queue]
  cases act with
  | event url subId frame now =>
    by_cases hsub : decodeRelaySubId r.writer.maps subId = s
    · have hroute := route_event hs r.writer.dedup (hfinds hsub)
      have hdedup : (r.writer.step serde (.event url subId frame now)).dedup =
          r.writer.dedup.insert s ((windowOf r.writer.dedup s).mark frame.eventId).1 := by
        show (outWriter r.writer url subId frame.text now).1.dedup = _
        rw [outWriter_dedup, hsub, hroute]
      have hok := h.windows.windowOf s
      by_cases hmem : frame.eventId ∈ (windowOf r.writer.dedup s).order
      · rw [SubDedup.mark_of_mem hok hmem] at hdedup hroute
        refine hkeep ?_ ?_
        · rw [forwardedId, hroute]
          simp [Route.forwarded]
        · rw [hdedup, windowOf_insert]
      · obtain ⟨hnew, -, horder⟩ := SubDedup.mark_of_notMem hok hmem
        rw [hnew] at hroute
        have hone : forwardedId s r.writer (.event url subId frame now) = [frame.eventId] := by
          rw [forwardedId, if_pos ⟨hsub, by rw [hroute]; rfl⟩]
        show (windowOf (r.writer.step serde _).dedup s).order = (r.forwarded ++ _).rtake _
        rw [hdedup, windowOf_insert, horder, hone, h.queue, ← List.rtake_append_singleton]
    · refine hkeep ?_ ?_
      · rw [forwardedId, if_neg (fun hand => hsub hand.1)]
      · show windowOf (outWriter r.writer url subId frame.text now).1.dedup s = _
        rw [outWriter_dedup]
        exact windowOf_route_ne hsub _
  | other url subId msg now =>
    refine hkeep rfl ?_
    show windowOf (outWriter r.writer url subId msg now).1.dedup s = _
    rw [outWriter_dedup]
    by_cases hsub : decodeRelaySubId r.writer.maps subId = s
    · rw [windowOf_route_noId (hdomain hsub)]
    · exact windowOf_route_ne hsub _
  | encode frame => exact hkeep rfl rfl
  | close closed =>
    refine hkeep rfl ?_
    show windowOf (r.writer.dedup.erase closed) s = _
    rw [windowOf, Map.lookup_erase_ite, if_neg hdomain.symm]
    rfl
  | sweep iter now => exact hkeep rfl rfl

end Watch

/-- **Delivered once across relays.**  In every run the set and the queue of every
window agree; and from any reached state in which a subscription has no window,
while its frames are such that the text search finds their own ids, one is
forwarded exactly when its id is not among the last 4096 distinct ids forwarded. -/
theorem forwarded_iff_not_recent (serde : SerdeJson) {s : String} (hs : ForParser s)
    (before acts : List WriterAct)
    (hfresh : (Run.exec (WriterState.step serde) WriterState.new before).dedup.lookup s = none)
    (hdomain : Run.Along (Watch.step serde s) (Watch.InDomain s)
      ⟨Run.exec (WriterState.step serde) WriterState.new before, []⟩ acts)
    (hfinds : Run.Along (Watch.step serde s) (Watch.FindsOwnIds s)
      ⟨Run.exec (WriterState.step serde) WriterState.new before, []⟩ acts) :
    (∀ run, WindowsOk (Run.exec (WriterState.step serde) WriterState.new run).dedup) ∧
      Run.Along (Watch.step serde s) (Watch.ForwardsOnce s)
        ⟨Run.exec (WriterState.step serde) WriterState.new before, []⟩ acts := by
  refine ⟨windowsOk_run serde, ?_⟩
  have hinv : Watch.Inv s ⟨Run.exec (WriterState.step serde) WriterState.new before, []⟩ := by
    refine ⟨windowsOk_run serde before, ?_⟩
    dsimp only
    rw [windowOf, hfresh]
    rfl
  exact Run.Along.imp (fun _ _ h hc => Watch.inv_step hs h hc.1 hc.2)
    (fun _ _ h hc => Watch.forwardsOnce_of_finds hs h hc.2) hinv (hdomain.and hfinds)

/-! ### Frames written without escapes -/

/-- A frame without whitespace and escapes, for a given event object. -/
def compactFrame (members : Members) (id : Bytes32)
    (hid : members.valuesOf "id".toList = [.str (idLiteral id)]) (hwf : members.Wf) : EventFrame where
  beforeArray := []
  beforeKind := []
  kind := plainLiteral "EVENT".toList
  afterKind := []
  beforeId := []
  subId := plainLiteral "s".toList
  afterId := []
  beforeEvent := []
  blank := []
  members := members
  afterEvent := []
  afterArray := []
  idLiteral := idLiteral id
  eventId := id
  kind_event := literalValue_plainLiteral _
  members_id := hid
  id_hex := decodeChars_idLiteral id
  wf_kind := wf_plainLiteral (by decide)
  wf_subId := wf_plainLiteral (by decide)
  wf_event := ⟨blank_nil, hwf⟩
  blank_beforeArray := blank_nil
  blank_beforeKind := blank_nil
  blank_afterKind := blank_nil
  blank_beforeId := blank_nil
  blank_afterId := blank_nil
  blank_beforeEvent := blank_nil
  blank_afterEvent := blank_nil
  blank_afterArray := blank_nil

def idFirst (id : Bytes32) : EventFrame :=
  compactFrame (compactMember "id" (.str (idLiteral id)) .nil) id
    (by rw [compactMember, Members.valuesOf, literalValue_plainLiteral, if_pos rfl]; rfl)
    ⟨blank_nil, wf_plainLiteral (by decide), blank_nil, blank_nil, wf_idLiteral id, blank_nil,
      trivial⟩

theorem findsOwnId_idFirst (id : Bytes32) : (idFirst id).FindsOwnId := by
  refine ⟨plain_plainLiteral _, ?_⟩
  refine ⟨':' :: '"' :: (literalText (idLiteral id) ++ '"' :: ['}']), [':'],
    literalText (idLiteral id), ['}'], ?_, rfl, ?_, ?_⟩
  · have htext : (idFirst id).event.text = '{' :: '"' :: 'i' :: 'd' :: '"' :: ':' :: '"' ::
        (literalText (idLiteral id) ++ '"' :: ['}']) := by
      simp [idFirst, compactFrame, compactMember, EventFrame.event, Doc.text, Members.text,
        Members.comma, literalText_plainLiteral]
    rw [htext]
    rfl
  · intro c hc
    rw [List.mem_singleton.mp hc]
    rfl
  · rw [idLiteral, literalText_plainLiteral, ← literalValue_plainLiteral (List.flatMap _ _)]
    exact decodeChars_idLiteral id

/-- A `serde_json` that rejects every text; it is not asked in runs without
outgoing frames. -/
def noSerde : SerdeJson := { fromStr := fun _ => none, toText := fun _ => "" }

/-- Two relays send the same event. -/
theorem forwarded_iff_not_recent_twoRelays :
    Run.Along (Watch.step noSerde "s") (Watch.ForwardsOnce "s")
      ⟨Run.exec (WriterState.step noSerde) WriterState.new [], []⟩
      [.event "wss://a" "s" (idFirst zeroId) 0, .event "wss://b" "s" (idFirst zeroId) 0] :=
  (forwarded_iff_not_recent noSerde (show ForParser "s" by unfold ForParser; decide) []
    [.event "wss://a" "s" (idFirst zeroId) 0, .event "wss://b" "s" (idFirst zeroId) 0] rfl
    ⟨trivial, trivial, trivial⟩
    ⟨fun _ => findsOwnId_idFirst zeroId, fun _ => findsOwnId_idFirst zeroId, trivial⟩).2

/-! ### The condition is needed -/

theorem outWriter_maps (w : WriterState) (url subId msg : String) (now : ℕ) :
    (outWriter w url subId msg now).1.maps = w.maps := by
  rw [outWriter]
  dsimp only
  split <;> rfl

theorem not_forwardsOnce_of_twice (serde : SerdeJson) (first second : String) {s : String}
    {f g : EventFrame} (hid : g.eventId = f.eventId)
    (hfirst : (route ∅ s f.text).1.forwarded = true)
    (hsecond : (route (route ∅ s f.text).2 s g.text).1.forwarded = true) :
    ¬ Run.Along (Watch.step serde s) (Watch.ForwardsOnce s) ⟨WriterState.new, []⟩
      [.event first s f 0, .event second s g 0] := by
  rintro ⟨-, hsnd, -⟩
  have hdecode : decodeRelaySubId SubIdMaps.empty s = s := rfl
  have hdedup : (outWriter WriterState.new first s f.text 0).1.dedup = (route ∅ s f.text).2 :=
    outWriter_dedup _ _ _ _ _
  have hmaps : decodeRelaySubId (outWriter WriterState.new first s f.text 0).1.maps s = s := by
    rw [outWriter_maps]
    exact hdecode
  have hone : Watch.forwardedId s WriterState.new (.event first s f 0) = [f.eventId] := by
    rw [Watch.forwardedId, if_pos ⟨hdecode, hfirst⟩]
  have hforward : (route (outWriter WriterState.new first s f.text 0).1.dedup s
      g.text).1.forwarded = true := by
    rw [hdedup]
    exact hsecond
  have hnot : g.eventId ∉ List.rtake (List.dedup ([] ++
      Watch.forwardedId s WriterState.new (.event first s f 0))) maxDedupIdsPerSub :=
    (hsnd hmaps).mp hforward
  rw [hone, hid] at hnot
  refine hnot ?_
  simp [List.rtake, maxDedupIdsPerSub]

theorem route_of_noId {s : String} (hs : ForParser s) (dedup : Map String SubDedup)
    {f : EventFrame} (h : ¬ Plain f.kind ∨ textEventId f.event.text = none) :
    (route dedup s f.text).1.forwarded = true ∧ (route dedup s f.text).2 = dedup := by
  rw [route, if_neg hs, scanRelayFrame_event]
  dsimp only
  by_cases hkind : Plain f.kind
  · have htext : literalText f.kind = "EVENT".toList := by
      rw [literalText_of_plain hkind, f.kind_event]
    rw [if_neg (by simp [htext]), scannedEventId_event f hkind, h.resolve_left (by simp [hkind])]
    exact ⟨rfl, rfl⟩
  · -- A kind with an escape has a backslash in it and is not taken for EVENT.
    have hne : literalText f.kind ≠ "EVENT".toList := by
      intro heq
      have := backslash_mem_of_not_plain hkind
      rw [heq] at this
      exact absurd this (by decide)
    rw [if_pos hne]
    exact ⟨rfl, rfl⟩

theorem route_first {s : String} (hs : ForParser s) {f : EventFrame} (hkind : Plain f.kind)
    {id : Bytes32} (hid : textEventId f.event.text = some id) :
    (route ∅ s f.text).1.forwarded = true ∧ (windowOf (route ∅ s f.text).2 s).order = [id] := by
  have htext : literalText f.kind = "EVENT".toList := by
    rw [literalText_of_plain hkind, f.kind_event]
  obtain ⟨hnew, -, horder⟩ := SubDedup.mark_of_notMem SubDedup.ok_new
    (show id ∉ SubDedup.new.order from List.not_mem_nil)
  rw [route, if_neg hs, scanRelayFrame_event]
  dsimp only
  rw [if_neg (by simp [htext]), scannedEventId_event f hkind, hid]
  dsimp only
  rw [AList.lookup_empty, Option.getD_none, hnew, Watch.windowOf_insert, horder]
  refine ⟨rfl, ?_⟩
  simp [SubDedup.new, List.rtake, maxDedupIdsPerSub]

/-- **The condition is exact**: a frame is harmless in every company of frames that
find their own ids only if it finds its own. -/
theorem findsOwnId_of_forwardsOnce (serde : SerdeJson) {s : String} (hs : ForParser s)
    (f : EventFrame)
    (h : ∀ frames : List EventFrame, (∀ g ∈ frames, g = f ∨ g.FindsOwnId) →
      Run.Along (Watch.step serde s) (Watch.ForwardsOnce s) ⟨WriterState.new, []⟩
        (frames.map fun g => .event "wss://a" s g 0)) :
    f.FindsOwnId := by
  by_contra hnot
  by_cases hnoId : ¬ Plain f.kind ∨ textEventId f.event.text = none
  · -- No id at all: the frame itself, twice.
    obtain ⟨hforward, hsame⟩ := route_of_noId hs ∅ hnoId
    refine not_forwardsOnce_of_twice serde "wss://a" "wss://a" rfl hforward ?_ (h [f, f] ?_)
    · rw [hsame]
      exact hforward
    · intro g hg
      exact Or.inl (by simpa using hg)
  · -- Another id: the frame, and then one that begins with the frame's own id.
    rw [not_or, not_not] at hnoId
    obtain ⟨hkind, hsome⟩ := hnoId
    obtain ⟨id, hid⟩ := Option.ne_none_iff_exists'.mp hsome
    have hne : id ≠ f.eventId := by
      rintro rfl
      exact hnot ⟨hkind, textEventId_iff.mp hid⟩
    obtain ⟨hforward, hwindow⟩ := route_first hs hkind hid
    have hok : (windowOf (route ∅ s f.text).2 s).Ok :=
      (windowsOk_route windowsOk_empty s f.text).windowOf s
    have hmem : f.eventId ∉ (windowOf (route ∅ s f.text).2 s).order := by
      rw [hwindow]
      exact fun hmem => hne (List.mem_singleton.mp hmem).symm
    have hsecond : (route (route ∅ s f.text).2 s (idFirst f.eventId).text).1.forwarded = true := by
      rw [Watch.route_event hs _ (findsOwnId_idFirst f.eventId)]
      show Route.forwarded (if ((windowOf (route ∅ s f.text).2 s).mark f.eventId).2 then _ else _)
        = true
      rw [(SubDedup.mark_of_notMem hok hmem).1]
      rfl
    have hsame : (idFirst f.eventId).eventId = f.eventId := rfl
    refine not_forwardsOnce_of_twice serde "wss://a" "wss://a" hsame hforward hsecond
      (h [f, idFirst f.eventId] ?_)
    intro g hg
    rcases List.mem_pair.mp hg with rfl | rfl
    · exact Or.inl rfl
    · exact Or.inr (findsOwnId_idFirst _)

theorem findsOwnId_of_forwardsOnce_idFirst : (idFirst zeroId).FindsOwnId := by
  have hs : ForParser "s" := by
    unfold ForParser
    decide
  refine findsOwnId_of_forwardsOnce noSerde hs (idFirst zeroId) fun frames hframes => ?_
  have hinv : Watch.Inv "s" ⟨WriterState.new, []⟩ := ⟨windowsOk_empty, rfl⟩
  have hall : Run.Along (Watch.step noSerde "s")
      (fun r act => Watch.InDomain "s" r act ∧ Watch.FindsOwnIds "s" r act) ⟨WriterState.new, []⟩
      (frames.map fun g => .event "wss://a" "s" g 0) := by
    refine Run.along_of_mem (fun act hact r => ?_) _
    obtain ⟨g, hg, rfl⟩ := List.mem_map.mp hact
    refine ⟨trivial, fun _ => ?_⟩
    rcases hframes g hg with rfl | hfinds
    · exact findsOwnId_idFirst zeroId
    · exact hfinds
  exact Run.Along.imp (fun _ _ h hc => Watch.inv_step hs h hc.1 hc.2)
    (fun _ _ h hc => Watch.forwardsOnce_of_finds hs h hc.2) hinv hall

/-! ### An event whose tags mention "id" -/

/-- An event that begins with its tags, one of which is `["id"]`. -/
def taggedMembers : Members :=
  compactMember "tags" (.arr [] (.cons [] (.arr [] (.cons [] (compactString "id") [] .nil)) [] .nil))
    (compactMember "id" (.str (idLiteral zeroId)) (compactMember "pubkey" (.str (idLiteral zeroId))
      (compactMember "created_at" (.atom ['1']) (compactMember "kind" (.atom ['1'])
        (compactMember "content" (compactString "hi") (compactMember "sig" (compactString "00")
          .nil))))))

theorem wf_taggedMembers : taggedMembers.Wf := by
  have hid : (compactString "id").Wf := wf_compactString (by decide)
  have hatom := wf_atom_one
  refine wf_compactMember (by decide)
    ⟨blank_nil, blank_nil, ⟨blank_nil, blank_nil, hid, blank_nil, trivial⟩, blank_nil, trivial⟩ ?_
  refine wf_compactMember (by decide) (wf_idLiteral zeroId) ?_
  refine wf_compactMember (by decide) (wf_idLiteral zeroId) ?_
  refine wf_compactMember (by decide) hatom (wf_compactMember (by decide) hatom ?_)
  refine wf_compactMember (by decide) (wf_compactString (by decide)) ?_
  exact wf_compactMember (by decide) (wf_compactString (by decide)) trivial

def taggedFrame : EventFrame :=
  compactFrame taggedMembers zeroId
    (by simp [taggedMembers, compactMember, Members.valuesOf, literalValue_plainLiteral])
    wf_taggedMembers

/-- The search stops at the tag and finds no id, so the frame is forwarded once per
relay. -/
theorem taggedFrame_forwarded_twice :
    ¬ Run.Along (Watch.step noSerde "s") (Watch.ForwardsOnce "s") ⟨WriterState.new, []⟩
      [.event "wss://a" "s" taggedFrame 0, .event "wss://b" "s" taggedFrame 0] := by
  have hs : ForParser "s" := by
    unfold ForParser
    decide
  have hnone : textEventId taggedFrame.event.text = none := by decide
  obtain ⟨hforward, hsame⟩ := route_of_noId hs ∅ (Or.inr hnone)
  have hid : taggedFrame.eventId = taggedFrame.eventId := rfl
  refine not_forwardsOnce_of_twice noSerde "wss://a" "wss://b" hid hforward ?_
  rw [hsame]
  exact hforward

end Nipworker
