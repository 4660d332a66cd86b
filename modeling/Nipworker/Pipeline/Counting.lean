/-
A subscription that counts (`pipeline/pipes/counter.rs`, `pipeline/mod.rs`,
`worker/parser_worker.rs`: `handle_message_single`).

The pipeline of such a subscription ends in a counter, behind any filters.  The parser
worker gives it live and cached events; at the end of the cached and of the stored events
it has the counter report, and after an EOSE the counter reports by itself.
-/
import Nipworker.Pipeline.FilterPipes
import Nipworker.Pipeline.ParseRetry

namespace Nipworker

open List Option

/-- `CounterPipe`; the set of kinds is a list. -/
structure CounterPipe where
  kinds : List UInt16
  counts : Map UInt16 ℕ
  youByKind : Map UInt16 Bool
  pubkey : String
  eosed : Bool

/-- What is sent for a kind. -/
structure CountResponse where
  count : ℕ
  kind : UInt16
  you : Bool

namespace CounterPipe

def new (kinds : List UInt16) (pubkey : String) : CounterPipe :=
  { kinds := kinds.dedup, counts := kinds.foldl (fun counts k => counts.insert k 0) ∅
    youByKind := ∅, pubkey := pubkey, eosed := false }

variable (pipe : CounterPipe)

def buildCountResponse (kind : UInt16) : CountResponse :=
  ⟨(pipe.counts.lookup kind).getD 0 % 2 ^ 32, kind, (pipe.youByKind.lookup kind).getD false⟩

def accumulate (kind : UInt16) (pubkey : String) : CounterPipe :=
  { pipe with
    counts := pipe.counts.insert kind ((pipe.counts.lookup kind).getD 0 + 1)
    youByKind := if pipe.pubkey = pubkey then pipe.youByKind.insert kind true else pipe.youByKind }

/-- `process`, with the response it puts out. -/
def process (event : PipelineEvent) : CounterPipe × Option CountResponse :=
  match event.nostrEvent with
  | none => (pipe, none)
  | some ev =>
    if ev.kind ∉ pipe.kinds then (pipe, none)
    else
      let counted := pipe.accumulate ev.kind ev.pubkey.toHex
      (counted, if pipe.eosed then some (counted.buildCountResponse ev.kind) else none)

/-- `process_cached_batch`, which puts nothing out. -/
def processCachedBatch (fb : FlatBuffers) (messages : List Bytes) : CounterPipe :=
  messages.foldl (fun pipe bytes =>
    match fb.workerMessage bytes with
    | some (.parsedEvent p) =>
      if p.kind ∈ pipe.kinds then pipe.accumulate p.kind p.pubkey else pipe
    | _ => pipe) pipe

def flush (iter : IterOrder UInt16) : List CountResponse :=
  (iter.order pipe.kinds).map pipe.buildCountResponse

def onEose : CounterPipe := { pipe with eosed := true }

end CounterPipe

/-- The seen ids, the filters and the counter behind them. -/
structure CountingPipeline where
  seen : Finset Bytes32
  filters : List FilterPipe
  counter : CounterPipe

/-- What the parser worker does with a message of the subscription; the walks over hash
tables have any order. -/
inductive CountingAct
  | live (input : EventInput)
  | cached (bytes : Bytes)
  | eoce
  | eose

/-- An event that a counter looks at: the id where it is in hexadecimal, the kind, the
author. -/
abbrev CountedEvent := Option Bytes32 × UInt16 × String

def countedMessage (fb : FlatBuffers) (bytes : Bytes) :
    Option CountedEvent :=
  match fb.workerMessage bytes with
  | some (.parsedEvent p) => some (decodeId p.id.toList, p.kind, p.pubkey)
  | _ => none

def CountingAct.isEose : CountingAct → Bool
  | .eose => true
  | _ => false

namespace CountingPipeline

variable (lower : String → String) (fb : FlatBuffers)

def runFilters (iter : IterOrder String) :
    List FilterPipe → PipelineEvent → List FilterPipe × Option PipelineEvent
  | [], event => ([], some event)
  | pipe :: rest, event =>
    match pipe.process lower iter event with
    | (pipe, .drop) => (pipe :: rest, none)
    | (pipe, .event event) =>
      let filtered := runFilters iter rest event
      (pipe :: filtered.1, filtered.2)

def runCached (iter : IterOrder String) :
    List FilterPipe → List Bytes → List FilterPipe × List Bytes
  | [], messages => ([], messages)
  | pipe :: rest, messages =>
    let head := pipe.processCachedBatch iter fb messages
    let filtered := runCached iter rest head.2
    (head.1 :: filtered.1, filtered.2)

/-- `remember_if_unseen`. -/
def rememberIfUnseen (seen : Finset Bytes32) (message : Option Message) :
    Finset Bytes32 × Bool :=
  match message with
  | some (.parsedEvent ev) =>
    match (decodeId ev.id.toList).bind (Pipeline.dedup seen) with
    | some (seen, _) => (seen, true)
    | none => (seen, (decodeId ev.id.toList).isNone)
  | _ => (seen, true)

variable (st : CountingPipeline)

/-- The event that reaches the counter, and the pipeline in front of it. -/
def pass (iter : IterOrder String) (input : EventInput) :
    CountingPipeline × Option PipelineEvent :=
  match input.entry with
  | none => (st, none)
  | some (id, read) =>
    match Pipeline.dedup st.seen id, read with
    | none, _ => (st, none)
    | some (seen, _), none => ({ st with seen := seen }, none)
    | some (seen, _), some event =>
      let filtered := runFilters lower iter st.filters ⟨some event, none⟩
      ({ st with seen := seen, filters := filtered.1 }, filtered.2)

def passCached (iter : IterOrder String) (bytes : Bytes) : CountingPipeline × List Bytes :=
  let remembered := rememberIfUnseen st.seen (fb.workerMessage bytes)
  if remembered.2 then
    let filtered := runCached fb iter st.filters [bytes]
    ({ st with seen := remembered.1, filters := filtered.1 }, filtered.2)
  else (st, [])

/-- A message of the subscription, and what is sent for it. -/
def step (iter : IterOrder String) (kinds : IterOrder UInt16) :
    CountingAct → CountingPipeline × List CountResponse
  | .live input =>
    match st.pass lower iter input with
    | (st, none) => (st, [])
    | (st, some event) =>
      let counted := st.counter.process event
      ({ st with counter := counted.1 }, counted.2.toList)
  | .cached bytes =>
    let passed := st.passCached fb iter bytes
    ({ passed.1 with counter := passed.1.counter.processCachedBatch fb passed.2 }, [])
  | .eoce => (st, st.counter.flush kinds)
  | .eose => ({ st with counter := st.counter.onEose }, st.counter.flush kinds)

/-! ### What is asked -/

def reached (iter : IterOrder String) :
    CountingAct → List CountedEvent
  | .live input =>
    ((st.pass lower iter input).2.bind PipelineEvent.nostrEvent).toList.map fun ev =>
      (some ev.id, ev.kind, ev.pubkey.toHex)
  | .cached bytes => (st.passCached fb iter bytes).2.filterMap (countedMessage fb)
  | _ => []

/-- One message, and with it what has reached the counter. -/
def watch (st : CountingPipeline × List CountedEvent)
    (act : IterOrder String × IterOrder UInt16 × CountingAct) :
    CountingPipeline × List CountedEvent :=
  ((st.1.step lower fb act.1 act.2.1 act.2.2).1, st.2 ++ st.1.reached lower fb act.1 act.2.2)

end CountingPipeline

/-- How many of the events are of a kind, and whether the user wrote one of them. -/
def countReport (pubkey : String) (events : List CountedEvent)
    (kind : UInt16) : CountResponse :=
  ⟨events.countP (fun e => e.2.1 = kind) % 2 ^ 32, kind,
    events.any fun e => e.2.1 = kind ∧ e.2.2 = pubkey⟩

/-- What is to be sent for a message that brings `new` to the counter, after `events`. -/
def expectedReports (kinds : List UInt16) (pubkey : String) (order : IterOrder UInt16)
    (events : List CountedEvent) (eosed : Bool)
    (new : List CountedEvent) : CountingAct → List CountResponse
  | .live _ => (new.filter fun e => eosed ∧ e.2.1 ∈ kinds).map fun e =>
    countReport pubkey (events ++ [e]) e.2.1
  | .cached _ => []
  | _ => (order.order kinds.dedup).map (countReport pubkey events)

/-! ### The counter -/

/-- The counter has counted these events. -/
structure CounterPipe.Counted (events : List CountedEvent)
    (pipe : CounterPipe) : Prop where
  counts : ∀ kind ∈ pipe.kinds,
    (pipe.counts.lookup kind).getD 0 = events.countP fun e => e.2.1 = kind
  you : ∀ kind ∈ pipe.kinds,
    (pipe.youByKind.lookup kind).getD false = events.any fun e => e.2.1 = kind ∧ e.2.2 = pipe.pubkey

namespace CounterPipe

variable {pipe : CounterPipe} {events : List CountedEvent}

def count (pipe : CounterPipe) (e : CountedEvent) : CounterPipe :=
  if e.2.1 ∈ pipe.kinds then pipe.accumulate e.2.1 e.2.2 else pipe

def afterEvents (kinds : List UInt16) (pubkey : String) (eosed : Bool)
    (events : List CountedEvent) : CounterPipe :=
  events.foldl count { new kinds pubkey with eosed := eosed }

theorem count_fixed (pipe : CounterPipe) (e : CountedEvent) :
    (pipe.count e).kinds = pipe.kinds ∧ (pipe.count e).pubkey = pipe.pubkey ∧
      (pipe.count e).eosed = pipe.eosed := by
  rw [count]
  split <;> exact ⟨rfl, rfl, rfl⟩

theorem Counted.count (h : pipe.Counted events) (e : CountedEvent) :
    (pipe.count e).Counted (events ++ [e]) := by
  obtain ⟨hkinds, hpubkey, -⟩ := pipe.count_fixed e
  -- the tables change under the kind of the event alone
  have hother : ∀ kind, e.2.1 ≠ kind → (pipe.count e).counts.lookup kind = pipe.counts.lookup kind ∧
      (pipe.count e).youByKind.lookup kind = pipe.youByKind.lookup kind := by
    intro kind hne
    rw [CounterPipe.count]
    split
    · refine ⟨AList.lookup_insert_ne hne.symm, ?_⟩
      rw [accumulate]
      dsimp only
      split
      · exact AList.lookup_insert_ne hne.symm
      · rfl
    · exact ⟨rfl, rfl⟩
  refine ⟨fun kind hkind => ?_, fun kind hkind => ?_⟩
  · rw [hkinds] at hkind
    rw [countP_append, countP_singleton, ← h.counts kind hkind]
    by_cases hkind' : e.2.1 = kind
    · rw [CounterPipe.count, if_pos (hkind' ▸ hkind), accumulate, hkind', AList.lookup_insert]
      simp
    · rw [(hother kind hkind').1, decide_eq_false hkind']
      rfl
  · rw [hkinds] at hkind
    rw [any_append, hpubkey, ← h.you kind hkind, any_cons, any_nil, Bool.or_false]
    by_cases hkind' : e.2.1 = kind
    · rw [CounterPipe.count, if_pos (hkind' ▸ hkind), accumulate, hkind']
      dsimp only
      by_cases hown : pipe.pubkey = e.2.2
      · rw [if_pos hown, AList.lookup_insert]
        simp [hown]
      · rw [if_neg hown]
        simp [Ne.symm hown]
    · rw [(hother kind hkind').2]
      simp [hkind']

theorem process_raw (pipe : CounterPipe) (ev : SignedEvent) :
    let counted := pipe.count (some ev.id, ev.kind, ev.pubkey.toHex)
    pipe.process ⟨some ev, none⟩ = (counted,
      if pipe.eosed ∧ ev.kind ∈ pipe.kinds then some (counted.buildCountResponse ev.kind)
      else none) := by
  rw [process, CounterPipe.count]
  dsimp only [PipelineEvent.nostrEvent]
  by_cases hkind : ev.kind ∈ pipe.kinds
  · simp [hkind]
  · simp [hkind]

theorem processCachedBatch_eq (fb : FlatBuffers) (messages : List Bytes) (pipe : CounterPipe) :
    pipe.processCachedBatch fb messages =
      (messages.filterMap (countedMessage fb)).foldl CounterPipe.count pipe := by
  rw [processCachedBatch, foldl_filterMap]
  congr 1
  funext pipe bytes
  rw [countedMessage]
  split <;> rfl

variable (kinds : List UInt16) (pubkey : String) (eosed : Bool)
  (events : List CountedEvent)

theorem afterEvents_append (more : List CountedEvent) :
    afterEvents kinds pubkey eosed (events ++ more) =
      more.foldl count (afterEvents kinds pubkey eosed events) :=
  foldl_append

theorem afterEvents_fixed :
    (afterEvents kinds pubkey eosed events).kinds = kinds.dedup ∧
      (afterEvents kinds pubkey eosed events).pubkey = pubkey ∧
      (afterEvents kinds pubkey eosed events).eosed = eosed := by
  induction events using List.reverseRecOn with
  | nil => exact ⟨rfl, rfl, rfl⟩
  | append_singleton events e ih =>
    obtain ⟨hkinds, hpubkey, heosed⟩ := (afterEvents kinds pubkey eosed events).count_fixed e
    rw [afterEvents_append]
    exact ⟨hkinds.trans ih.1, hpubkey.trans ih.2.1, heosed.trans ih.2.2⟩

theorem afterEvents_onEose :
    (afterEvents kinds pubkey eosed events).onEose = afterEvents kinds pubkey true events := by
  induction events using List.reverseRecOn with
  | nil => rfl
  | append_singleton events e ih =>
    rw [afterEvents_append, afterEvents_append, foldl_cons, foldl_nil, foldl_cons,
      foldl_nil, ← ih, count, count]
    change _ = if e.2.1 ∈ (afterEvents kinds pubkey eosed events).kinds then _ else _
    split <;> rfl

theorem counted_afterEvents : (afterEvents kinds pubkey eosed events).Counted events := by
  induction events using List.reverseRecOn with
  | nil =>
    have hzero : ∀ (kinds : List UInt16) (counts : Map UInt16 ℕ) (kind : UInt16),
        (counts.lookup kind).getD 0 = 0 →
        ((kinds.foldl (fun counts k => counts.insert k 0) counts).lookup kind).getD 0 = 0 := by
      intro kinds
      induction kinds with
      | nil => exact fun _ _ h => h
      | cons k kinds ih =>
        intro counts kind h
        refine ih _ kind ?_
        rw [Map.lookup_insert_ite]
        split
        · rfl
        · exact h
    exact ⟨fun kind _ => hzero kinds ∅ kind rfl, fun kind _ => rfl⟩
  | append_singleton events e ih =>
    rw [afterEvents_append]
    exact ih.count e

theorem report_afterEvents {kind : UInt16} (hkind : kind ∈ kinds) :
    (afterEvents kinds pubkey eosed events).buildCountResponse kind =
      countReport pubkey events kind := by
  obtain ⟨hkinds, hpubkey, -⟩ := afterEvents_fixed kinds pubkey eosed events
  have hcounted := counted_afterEvents kinds pubkey eosed events
  have hmem := hkinds ▸ List.mem_dedup.mpr hkind
  rw [buildCountResponse, countReport, hcounted.counts kind hmem, hcounted.you kind hmem, hpubkey]

end CounterPipe

/-! ### The ids -/

/-- The ids in the set, while there is room, are those of what has reached the counter. -/
structure Distinct (seen : Finset Bytes32) (ids : List Bytes32) : Prop where
  nodup : ids.Nodup
  mem : ∀ id ∈ ids, id ∈ seen

theorem Distinct.dedup {seen seen' : Finset Bytes32} {ids new : List Bytes32} {id : Bytes32}
    {remembered : Bool} (h : seen.card < dedupMaxSize → Distinct seen ids)
    (hdedup : Pipeline.dedup seen id = some (seen', remembered)) (hnew : new = [] ∨ new = [id]) :
    seen'.card < dedupMaxSize → Distinct seen' (ids ++ new) := by
  rw [Pipeline.dedup] at hdedup
  split at hdedup
  · cases hdedup
  · next hid =>
    split at hdedup
    · next hroom =>
      obtain ⟨rfl, -⟩ := Prod.mk.inj (some.inj hdedup)
      obtain ⟨hnodup, hmem⟩ := h hroom
      have hnotin : id ∉ ids := fun hin => hid (hmem id hin)
      intro _
      rcases hnew with rfl | rfl
      · rw [append_nil]
        exact ⟨hnodup, fun other hother => Finset.mem_insert_of_mem (hmem other hother)⟩
      · refine ⟨List.nodup_append.mpr ⟨hnodup, nodup_singleton id, ?_⟩, fun other hother => ?_⟩
        · rintro a ha b hb rfl
          exact hnotin (List.mem_singleton.mp hb ▸ ha)
        · rcases List.mem_append.mp hother with hold | hlast
          · exact Finset.mem_insert_of_mem (hmem other hold)
          · rw [List.mem_singleton.mp hlast]
            exact Finset.mem_insert_self id seen
    · next hfull =>
      obtain ⟨rfl, -⟩ := Prod.mk.inj (some.inj hdedup)
      exact fun hroom => absurd hroom hfull

namespace CountingPipeline

variable {lower : String → String} {fb : FlatBuffers} {iter : IterOrder String}

theorem process_event {pipe : FilterPipe} {event event' : PipelineEvent}
    (h : (pipe.process lower iter event).2 = .event event') : event' = event := by
  have hite : ∀ (passes : Prop) [Decidable passes],
      (if passes then PipeOutput.event event else .drop) = .event event' → event' = event := by
    intro passes _ heq
    split at heq <;> cases heq
    rfl
  cases pipe with
  | mute pipe =>
    change MuteFilterPipe.process lower pipe event = _ at h
    rw [MuteFilterPipe.process] at h
    rw [← ite_not] at h
    exact hite (¬ _) h
  | kind pipe =>
    change KindFilterPipe.process pipe event = _ at h
    rw [KindFilterPipe.process] at h
    split at h
    · cases h
    · split at h <;> cases h
      rfl
  | chat pipe =>
    change (ChatLimiterPipe.process iter pipe event).2 = _ at h
    rw [ChatLimiterPipe.process] at h
    split at h
    · cases h
    · exact hite _ h
  | npub pipe =>
    change (NpubLimiterPipe.process pipe event).2 = _ at h
    rw [NpubLimiterPipe.process] at h
    split at h
    · cases h
    · split at h
      · cases h
      · split at h
        · cases h
        · exact hite _ h

theorem runFilters_event {filters : List FilterPipe} {event event' : PipelineEvent}
    (h : (runFilters lower iter filters event).2 = some event') : event' = event := by
  induction filters with
  | nil => exact (some.inj h).symm
  | cons pipe rest ih =>
    rw [runFilters] at h
    split at h
    · cases h
    · next pipe' event'' heq =>
      have hsame : event'' = event := process_event (by rw [heq])
      rw [hsame] at h
      exact ih h

theorem runCached_sublist (filters : List FilterPipe) (messages : List Bytes) :
    (runCached fb iter filters messages).2.Sublist messages := by
  have hchat : ∀ (messages : List Bytes) (pipe : ChatLimiterPipe),
      (ChatLimiterPipe.processCachedBatch iter fb pipe messages).2.Sublist messages := by
    intro messages
    induction messages with
    | nil => exact fun _ => .slnil
    | cons bytes rest ih =>
      intro pipe
      rw [ChatLimiterPipe.processCachedBatch]
      dsimp only
      split
      · exact (ih _).cons_cons bytes
      · exact (ih _).cons bytes
  induction filters generalizing messages with
  | nil => exact List.Sublist.refl _
  | cons pipe rest ih =>
    refine (ih _).trans ?_
    cases pipe with
    | mute pipe => exact filter_sublist
    | kind pipe => exact List.Sublist.refl _
    | chat pipe => exact hchat messages pipe
    | npub pipe => exact List.Sublist.refl _

theorem Distinct.remember {seen seen' : Finset Bytes32} {ids : List Bytes32} {bytes : Bytes}
    {passed : List Bytes} (h : seen.card < dedupMaxSize → Distinct seen ids)
    (hseen : rememberIfUnseen seen (fb.workerMessage bytes) = (seen', true))
    (hpassed : passed = [] ∨ passed = [bytes]) :
    seen'.card < dedupMaxSize →
      Distinct seen' (ids ++ (passed.filterMap (countedMessage fb)).filterMap Prod.fst) := by
  have hsame : seen = seen' → (passed.filterMap (countedMessage fb)).filterMap Prod.fst = [] →
      seen'.card < dedupMaxSize →
      Distinct seen' (ids ++ (passed.filterMap (countedMessage fb)).filterMap Prod.fst) := by
    rintro rfl hnone
    rwa [hnone, append_nil]
  rw [rememberIfUnseen.eq_def] at hseen
  split at hseen
  · next ev hmessage =>
    match hid : decodeId ev.id.toList with
    | none =>
      rw [hid] at hseen
      refine hsame (Prod.mk.inj hseen).1 ?_
      rcases hpassed with rfl | rfl
      · rfl
      · simp [countedMessage, hmessage, hid]
    | some id =>
      rw [hid, bind_some] at hseen
      match hdedup : Pipeline.dedup seen id with
      | none =>
        rw [hdedup] at hseen
        exact absurd (Prod.mk.inj hseen).2 Bool.false_ne_true
      | some (next, _) =>
        rw [hdedup] at hseen
        obtain ⟨rfl, -⟩ := Prod.mk.inj hseen
        refine Distinct.dedup h hdedup ?_
        rcases hpassed with rfl | rfl
        · exact .inl rfl
        · right
          simp [countedMessage, hmessage, hid]
  · next hother =>
    refine hsame (Prod.mk.inj hseen).1 ?_
    rcases hpassed with rfl | rfl
    · rfl
    · have hnone : countedMessage fb bytes = none := by
        rw [countedMessage]
        split
        · next ev hmessage => exact absurd hmessage (hother ev)
        · rfl
      rw [filterMap_cons, hnone]
      rfl

/-- After some messages of a subscription: the counter has counted `events`, and the ids of
these are in the set while there is room. -/
structure Tallied (kinds : List UInt16) (pubkey : String)
    (events : List CountedEvent) (eosed : Bool) (st : CountingPipeline) :
    Prop where
  counter : st.counter = .afterEvents kinds pubkey eosed events
  distinct : st.seen.card < dedupMaxSize → Distinct st.seen (events.filterMap Prod.fst)

variable {kinds : List UInt16} {pubkey : String} {st : CountingPipeline}
  {events : List CountedEvent} {eosed : Bool}

/-- One message more keeps the tally of what has reached the counter. -/
theorem Tallied.next (h : st.Tallied kinds pubkey events eosed) (order : IterOrder UInt16)
    (act : CountingAct) :
    (st.step lower fb iter order act).1.Tallied kinds pubkey
        (events ++ st.reached lower fb iter act) (eosed || act.isEose) ∧
      (st.step lower fb iter order act).2 =
        expectedReports kinds pubkey order events eosed (st.reached lower fb iter act) act := by
  obtain ⟨hkinds, -, heosed⟩ := CounterPipe.afterEvents_fixed kinds pubkey eosed events
  have hflush : st.counter.flush order =
      (order.order kinds.dedup).map (countReport pubkey events) := by
    rw [CounterPipe.flush, h.counter, hkinds]
    refine map_congr_left fun kind hkind => ?_
    exact CounterPipe.report_afterEvents kinds pubkey eosed events
      (List.mem_dedup.mp ((order.perm _).mem_iff.mp hkind))
  have hsame : st.Tallied kinds pubkey (events ++ []) (eosed || false) := by
    rwa [append_nil, Bool.or_false]
  cases act with
  | live input =>
    rw [step, reached, pass]
    match hentry : input.entry with
    | none => exact ⟨hsame, rfl⟩
    | some (id, read) =>
      dsimp only
      match hdedup : Pipeline.dedup st.seen id, read with
      | none, _ => exact ⟨hsame, rfl⟩
      | some (seen, remembered), none =>
        have hnew := Distinct.dedup h.distinct hdedup (.inl rfl)
        exact ⟨⟨hsame.counter, by simpa using hnew⟩, rfl⟩
      | some (seen, remembered), some event =>
        dsimp only
        match hfiltered : runFilters lower iter st.filters ⟨some event, none⟩ with
        | (filters, none) =>
          have hnew := Distinct.dedup h.distinct hdedup (.inl rfl)
          exact ⟨⟨hsame.counter, by simpa using hnew⟩, rfl⟩
        | (filters, some passed) =>
          -- the filters have not changed the event, and it is counted
          have hpassed : passed = ⟨some event, none⟩ := runFilters_event (by rw [hfiltered])
          have hnew := Distinct.dedup h.distinct hdedup (.inr rfl)
          rw [← EventInput.id_of_entry hentry] at hnew
          have hcount := CounterPipe.afterEvents_append kinds pubkey eosed events
            [(some event.id, event.kind, event.pubkey.toHex)]
          rw [foldl_cons, foldl_nil] at hcount
          subst hpassed
          dsimp only
          rw [CounterPipe.process_raw, h.counter, heosed, hkinds, ← hcount]
          refine ⟨⟨?_, by simpa [PipelineEvent.nostrEvent] using hnew⟩, ?_⟩
          · rw [CountingAct.isEose, Bool.or_false]
            · rfl
            · exact fun h => CountingAct.noConfusion h
          · rw [bind_some, PipelineEvent.nostrEvent]
            by_cases hsent : eosed = true ∧ event.kind ∈ kinds
            · rw [CounterPipe.report_afterEvents kinds pubkey eosed _ hsent.2]
              simp [expectedReports, hsent]
            · simp [expectedReports, hsent]
  | cached bytes =>
    rw [step, reached, passCached]
    match hseen : rememberIfUnseen st.seen (fb.workerMessage bytes) with
    | (seen, false) => exact ⟨hsame, rfl⟩
    | (seen, true) =>
      have hsub := List.sublist_singleton.mp
        (@runCached_sublist fb iter st.filters [bytes])
      have hnew := Distinct.remember h.distinct hseen hsub
      rw [← filterMap_append] at hnew
      refine ⟨⟨?_, hnew⟩, rfl⟩
      change st.counter.processCachedBatch fb _ = _
      rw [CounterPipe.processCachedBatch_eq, hsame.counter, append_nil,
        CounterPipe.afterEvents_append]
      rfl
  | eoce => exact ⟨hsame, hflush⟩
  | eose =>
    refine ⟨⟨?_, hsame.distinct⟩, hflush⟩
    change st.counter.onEose = _
    rw [hsame.counter, CounterPipe.afterEvents_onEose, CountingAct.isEose, Bool.or_true]
    rfl

end CountingPipeline

open CountingPipeline

/-- **Counting reports.**  In every run, the counter says of each kind how many of the events
that have reached it are of the kind, and whether the user wrote one; and while there is room
for their ids no event has reached it twice. -/
theorem counting_reports (lower : String → String) (fb : FlatBuffers) (filters : List FilterPipe)
    (kinds : List UInt16) (pubkey : String)
    (acts : List (IterOrder String × IterOrder UInt16 × CountingAct)) (iter : IterOrder String)
    (order : IterOrder UInt16) (act : CountingAct) :
    let run := Run.exec (watch lower fb) (⟨∅, filters, .new kinds pubkey⟩, []) acts
    (run.1.step lower fb iter order act).2 =
        expectedReports kinds pubkey order run.2 (acts.any fun a => a.2.2.isEose)
          (run.1.reached lower fb iter act) act ∧
      (run.1.seen.card < dedupMaxSize → (run.2.filterMap Prod.fst).Nodup) := by
  have hrun : ∀ acts : List (IterOrder String × IterOrder UInt16 × CountingAct),
      let run := Run.exec (watch lower fb) (⟨∅, filters, .new kinds pubkey⟩, []) acts
      run.1.Tallied kinds pubkey run.2 (acts.any fun a => a.2.2.isEose) := by
    intro acts
    induction acts using List.reverseRecOn with
    | nil => exact ⟨rfl, fun _ => ⟨nodup_nil, fun id hid => absurd hid not_mem_nil⟩⟩
    | append_singleton acts act ih =>
      rw [Run.exec_append, any_append, any_cons, any_nil, Bool.or_false]
      exact (ih.next act.2.1 act.2.2).1
  exact ⟨((hrun acts).next order act).2, fun hroom => ((hrun acts).distinct hroom).nodup⟩

end Nipworker
