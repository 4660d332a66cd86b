/-
The seen ids of pipelines (`pipeline/mod.rs`).

The pipelines of a subscription and of its pages share one bounded set of ids.  The three
entry points check an id against the set and put it in when there is room; the pipes run
afterwards, with awaits between them, so that calls on other pipelines come in between.
An error of a pipe takes the id out again.
-/
import Nipworker.Lib.History
import Nipworker.Lib.Run
import Nipworker.Pipeline.Process

namespace Nipworker

open List

/-- `Event::from_flatbuffer`. -/
def eventFromFlatbuffer (ev : NostrEvent) : Except TypesError SignedEvent := do
  if ev.id = "" then throw (.invalidFormat "Missing event ID")
  let id ← eventIdFromHex ev.id
  if ev.pubkey = "" then throw (.invalidFormat "Missing pubkey")
  let pubkey ← publicKeyFromHex ev.pubkey
  .ok { id := id, pubkey := pubkey, createdAt := (ev.createdAt % 2 ^ 64).toNat, kind := ev.kind
        tags := ev.tags.filterMap StringVec.items, content := ev.content, sig := ev.sig }

/-- The stage the three entry points share: `none` when the id was seen, else the set
after it, and whether there was room for the id. -/
def Pipeline.dedup (seen : Finset Bytes32) (id : Bytes32) : Option (Finset Bytes32 × Bool) :=
  if id ∈ seen then none
  else if seen.card < dedupMaxSize then some (insert id seen, true)
  else some (seen, false)

/-- What the stage did with an input. -/
inductive DedupEntry
  /-- An input went to the pipes. -/
  | passed (id : Bytes32) (remembered : Bool)
  /-- An input passed the stage, and did not read as an event. -/
  | unread (id : Bytes32) (remembered : Bool)
  /-- An input was dropped as already seen. -/
  | dropped (id : Bytes32)
  /-- A pipe failed, and the id was forgotten. -/
  | failed (id : Bytes32)
  /-- A pipe failed on a batch of cached events. -/
  | batchFailed (ids : List Bytes32)
  deriving DecidableEq

/-- What a pipeline has in its pipes. -/
inductive InPipes
  | event (id : Bytes32)
  | batch (ids : List Bytes32)

/-- How the pipes ended: a pipe that is not the last one may produce output of its own,
which is an error of the pipeline. -/
inductive PipesOutcome
  | done
  | failed
  | misplacedOutput

/-- Pipelines that share their seen ids. -/
structure Pipelines where
  seen : Finset Bytes32
  running : Map ℕ InPipes
  log : List DedupEntry

namespace Pipelines

variable (st : Pipelines)

def new : Pipelines := { seen := ∅, running := ∅, log := [] }

/-- `process`, up to its pipes. -/
def process (pipeline : ℕ) (raw : List Char) : Pipelines :=
  match textEventId raw with
  | none => st
  | some id =>
    match Pipeline.dedup st.seen id with
    | none => { st with log := st.log ++ [.dropped id] }
    | some (seen, remembered) =>
      match SignedEvent.readFields raw with
      | .error _ => { st with seen := seen, log := st.log ++ [.unread id remembered] }
      | .ok _ =>
        { seen := seen
          running := st.running.insert pipeline (.event id)
          log := st.log ++ [.passed id remembered] }

/-- `process_bytes`, up to its pipes, on what the reader finds in the bytes. -/
def processBytes (pipeline : ℕ) (message : Option Message) : Pipelines :=
  match message with
  | some (.nostrEvent ev) =>
    match eventFromFlatbuffer ev with
    | .error _ => st
    | .ok event =>
      match Pipeline.dedup st.seen event.id with
      | none => { st with log := st.log ++ [.dropped event.id] }
      | some (seen, remembered) =>
        { seen := seen
          running := st.running.insert pipeline (.event event.id)
          log := st.log ++ [.passed event.id remembered] }
  | _ => st

/-- The state after it, and whether the message goes on; a message without a parsed event, or
with a bad id, goes on unchecked. -/
def rememberIfUnseen (message : Option Message) : Pipelines × Bool :=
  match message with
  | some (.parsedEvent ev) =>
    match decodeId ev.id.toList with
    | none => (st, true)
    | some id =>
      match Pipeline.dedup st.seen id with
      | none => ({ st with log := st.log ++ [.dropped id] }, false)
      | some (seen, remembered) =>
        ({ st with seen := seen, log := st.log ++ [.passed id remembered] }, true)
  | _ => (st, true)

def messageId : Option Message → Option Bytes32
  | some (.parsedEvent ev) => decodeId ev.id.toList
  | _ => none

/-- The messages of a batch, one after the other, with those that go on. -/
def rememberBatch : Pipelines → List (Option Message) → Pipelines × List (Option Message)
  | st, [] => (st, [])
  | st, message :: messages =>
    let head := st.rememberIfUnseen message
    let rest := rememberBatch head.1 messages
    (rest.1, if head.2 then message :: rest.2 else rest.2)

/-- `process_cached_batch`, up to its pipes. -/
def processCachedBatch (pipeline : ℕ) (messages : List (Option Message)) : Pipelines :=
  let unseen := st.rememberBatch messages
  if unseen.2 = [] then unseen.1
  else
    { unseen.1 with
      running := unseen.1.running.insert pipeline (.batch (unseen.2.filterMap messageId)) }

def finish (pipeline : ℕ) (outcome : PipesOutcome) : Pipelines :=
  match st.running.lookup pipeline, outcome with
  | none, _ => st
  | some (.event id), .failed =>
    { seen := st.seen.erase id
      running := st.running.erase pipeline
      log := st.log ++ [.failed id] }
  | some (.batch ids), .failed =>
    { st with running := st.running.erase pipeline, log := st.log ++ [.batchFailed ids] }
  | some _, _ => { st with running := st.running.erase pipeline }

end Pipelines

/-- A call on one of the pipelines, or the end of its pipes. -/
inductive PipelineAct
  | process (pipeline : ℕ) (raw : List Char)
  | processBytes (pipeline : ℕ) (message : Option Message)
  | processCachedBatch (pipeline : ℕ) (messages : List (Option Message))
  | finish (pipeline : ℕ) (outcome : PipesOutcome)

/-- One step.  A pipeline is behind a lock: a call waits until the pipes are free. -/
def Pipelines.step (st : Pipelines) : PipelineAct → Pipelines
  | .process pipeline raw =>
    if pipeline ∈ st.running then st else st.process pipeline raw
  | .processBytes pipeline message =>
    if pipeline ∈ st.running then st else st.processBytes pipeline message
  | .processCachedBatch pipeline messages =>
    if pipeline ∈ st.running then st else st.processCachedBatch pipeline messages
  | .finish pipeline outcome => st.finish pipeline outcome

/-! ### What is asked, and what is promised -/

/-- The inputs with the id that reached the pipes since its last failure, one entry
later; a failure is an input that does not read, or an error of a pipe. -/
def passesStep (id : Bytes32) (passes : List Bool) : DedupEntry → List Bool
  | .passed other remembered => if other = id then remembered :: passes else passes
  | .unread other _ => if other = id then [] else passes
  | .dropped _ => passes
  | .failed other => if other = id then [] else passes
  | .batchFailed ids => if id ∈ ids then [] else passes

def passesSince (id : Bytes32) (log : List DedupEntry) : List Bool :=
  log.foldl (passesStep id) []

/-- An id reaches the pipes at most once after its last failure, and an input is dropped
only when one with its id has reached them. -/
def PassesOnce (log : List DedupEntry) : Prop :=
  History.Always (fun before entry =>
    match entry with
    | .passed id _ => passesSince id before = []
    | .dropped id => passesSince id before ≠ []
    | _ => True) log

/-- Whether the inputs with the id that passed the stage were remembered, since a pipe
last failed on it, one entry later. -/
def remembersStep (id : Bytes32) (flags : List Bool) : DedupEntry → List Bool
  | .passed other remembered => if other = id then remembered :: flags else flags
  | .unread other remembered => if other = id then remembered :: flags else flags
  | .failed other => if other = id then [] else flags
  | _ => flags

def remembersSince (id : Bytes32) (log : List DedupEntry) : List Bool :=
  log.foldl (remembersStep id) []

def reachesStep (id : Bytes32) (flags : List Bool) : DedupEntry → List Bool
  | .passed other remembered => if other = id then remembered :: flags else flags
  | .failed other => if other = id then [] else flags
  | _ => flags

def reachesSince (id : Bytes32) (log : List DedupEntry) : List Bool :=
  log.foldl (reachesStep id) []

/-- An id that reached the pipes and was remembered does not reach them again until a pipe
fails on it, and an input is dropped only when its id was remembered and no pipe failed
on it since. -/
def RemembersPasses (log : List DedupEntry) : Prop :=
  History.Always (fun before entry =>
    match entry with
    | .passed id _ => true ∉ reachesSince id before
    | .dropped id => true ∈ remembersSince id before
    | _ => True) log

/-! ### The set is what the log remembers -/

/-- The set holds the ids that were remembered and not forgotten. -/
structure SeenFromLog (st : Pipelines) : Prop where
  seen : ∀ id, id ∈ st.seen ↔ true ∈ remembersSince id st.log
  log : RemembersPasses st.log

variable {st : Pipelines}

theorem remembersSince_concat (id : Bytes32) (log : List DedupEntry) (e : DedupEntry) :
    remembersSince id (log ++ [e]) = remembersStep id (remembersSince id log) e := by
  rw [remembersSince, foldl_append]
  rfl

theorem reachesSince_concat (id : Bytes32) (log : List DedupEntry) (e : DedupEntry) :
    reachesSince id (log ++ [e]) = reachesStep id (reachesSince id log) e := by
  rw [reachesSince, foldl_append]
  rfl

variable {id : Bytes32} (pipeline : ℕ)

theorem mem_remembersSince {log : List DedupEntry} (h : true ∈ reachesSince id log) :
    true ∈ remembersSince id log := by
  induction log using List.reverseRecOn with
  | nil => cases h
  | append_singleton log e ih =>
    rw [reachesSince_concat] at h
    rw [remembersSince_concat]
    cases e with
    | passed other remembered =>
      rw [reachesStep] at h
      rw [remembersStep]
      split at h
      · rename_i heq
        rw [if_pos heq]
        exact (List.mem_cons.mp h).elim (fun heq => heq ▸ mem_cons_self)
          fun hold => mem_cons_of_mem _ (ih hold)
      · rename_i hne
        rw [if_neg hne]
        exact ih h
    | unread other remembered =>
      rw [remembersStep]
      split
      · exact mem_cons_of_mem _ (ih h)
      · exact ih h
    | failed other =>
      rw [reachesStep] at h
      rw [remembersStep]
      split at h
      · cases h
      · rename_i hne
        rw [if_neg hne]
        exact ih h
    | _ => exact ih h

theorem seenFromLog_passed (h : SeenFromLog st) {st' : Pipelines}
    {seen : Finset Bytes32} {remembered : Bool} (e : DedupEntry)
    (hdedup : Pipeline.dedup st.seen id = some (seen, remembered))
    (he : e = .passed id remembered ∨ e = .unread id remembered)
    (hseen : st'.seen = seen) (hlog : st'.log = st.log ++ [e]) : SeenFromLog st' := by
  rw [Pipeline.dedup] at hdedup
  split at hdedup
  · cases hdedup
  · rename_i hnew
    have hflags : true ∉ reachesSince id st.log :=
      fun hmem => hnew ((h.seen id).mpr (mem_remembersSince hmem))
    have hstep : ∀ other, remembersStep other (remembersSince other st.log) e =
        if id = other then remembered :: remembersSince other st.log
        else remembersSince other st.log := by
      intro other
      rcases he with rfl | rfl
      · rfl
      · rfl
    refine ⟨fun other => ?_, ?_⟩
    · rw [hlog, hseen, remembersSince_concat, hstep]
      split at hdedup
      · cases hdedup
        by_cases heq : id = other
        · simp [heq]
        · rw [if_neg heq, Finset.mem_insert, h.seen]
          exact or_iff_right fun h => heq h.symm
      · cases hdedup
        rw [h.seen]
        split
        · simp
        · rfl
    · rw [hlog]
      refine History.always_concat.mpr ⟨h.log, ?_⟩
      rcases he with rfl | rfl
      · exact hflags
      · trivial

theorem seenFromLog_dropped (h : SeenFromLog st) (hdedup : Pipeline.dedup st.seen id = none) :
    SeenFromLog { st with log := st.log ++ [.dropped id] } := by
  refine ⟨fun other => ?_, History.always_concat.mpr ⟨h.log, ?_⟩⟩
  · rw [remembersSince_concat]
    exact h.seen other
  · rw [Pipeline.dedup] at hdedup
    split at hdedup
    · rename_i hseen
      exact (h.seen id).mp hseen
    · split at hdedup
      · cases hdedup
      · cases hdedup

theorem seenFromLog_process (raw : List Char) (h : SeenFromLog st) :
    SeenFromLog (st.process pipeline raw) := by
  rw [Pipelines.process]
  split
  · exact h
  · rename_i id _
    split
    · rename_i hdedup
      exact seenFromLog_dropped h hdedup
    · rename_i seen remembered hdedup
      split
      · exact seenFromLog_passed h (.unread id remembered) hdedup (.inr rfl) rfl rfl
      · exact seenFromLog_passed h (.passed id remembered) hdedup (.inl rfl) rfl rfl

theorem seenFromLog_processBytes (message : Option Message) (h : SeenFromLog st) :
    SeenFromLog (st.processBytes pipeline message) := by
  rw [Pipelines.processBytes.eq_def]
  split
  · split
    · exact h
    · split
      · rename_i hdedup
        exact seenFromLog_dropped h hdedup
      · rename_i hdedup
        exact seenFromLog_passed h _ hdedup (.inl rfl) rfl rfl
  · exact h

theorem seenFromLog_rememberIfUnseen (message : Option Message) (h : SeenFromLog st) :
    SeenFromLog (st.rememberIfUnseen message).1 := by
  rw [Pipelines.rememberIfUnseen.eq_def]
  split
  · split
    · exact h
    · split
      · rename_i hdedup
        exact seenFromLog_dropped h hdedup
      · rename_i hdedup
        exact seenFromLog_passed h _ hdedup (.inl rfl) rfl rfl
  · exact h

theorem seenFromLog_rememberBatch (messages : List (Option Message)) (h : SeenFromLog st) :
    SeenFromLog (st.rememberBatch messages).1 := by
  induction messages generalizing st with
  | nil => exact h
  | cons message messages ih => exact ih (seenFromLog_rememberIfUnseen message h)

theorem seenFromLog_processCachedBatch (messages : List (Option Message))
    (h : SeenFromLog st) : SeenFromLog (st.processCachedBatch pipeline messages) := by
  have hbatch := seenFromLog_rememberBatch messages h
  rw [Pipelines.processCachedBatch]
  dsimp only
  split
  · exact hbatch
  · exact ⟨hbatch.seen, hbatch.log⟩

theorem seenFromLog_finish (outcome : PipesOutcome) (h : SeenFromLog st) :
    SeenFromLog (st.finish pipeline outcome) := by
  rw [Pipelines.finish.eq_def]
  split
  · exact h
  · rename_i id _
    refine ⟨fun other => ?_, History.always_concat.mpr ⟨h.log, trivial⟩⟩
    rw [remembersSince_concat, remembersStep, Finset.mem_erase, h.seen]
    by_cases heq : id = other
    · simp [heq]
    · rw [if_neg heq]
      exact and_iff_right fun h => heq h.symm
  · refine ⟨fun other => ?_, History.always_concat.mpr ⟨h.log, trivial⟩⟩
    rw [remembersSince_concat]
    exact h.seen other
  · exact ⟨h.seen, h.log⟩

theorem seenFromLog_step (st : Pipelines) (act : PipelineAct) (h : SeenFromLog st) :
    SeenFromLog (st.step act) := by
  cases act with
  | process pipeline raw =>
    rw [Pipelines.step]
    split
    · exact h
    · exact seenFromLog_process pipeline raw h
  | processBytes pipeline message =>
    rw [Pipelines.step]
    split
    · exact h
    · exact seenFromLog_processBytes pipeline message h
  | processCachedBatch pipeline messages =>
    rw [Pipelines.step]
    split
    · exact h
    · exact seenFromLog_processCachedBatch pipeline messages h
  | finish pipeline outcome => exact seenFromLog_finish pipeline outcome h

/-- **What a shared set of seen ids promises**, in every run of pipelines that share
it. -/
theorem pipelines_remember (acts : List PipelineAct) :
    RemembersPasses (Run.exec Pipelines.step .new acts).log := by
  have hrun : SeenFromLog (Run.exec Pipelines.step .new acts) := by
    induction acts using List.reverseRecOn with
    | nil => exact ⟨fun id => by simp [Pipelines.new, remembersSince], History.always_nil⟩
    | append_singleton acts act ih =>
      rw [Run.exec_append]
      exact seenFromLog_step _ act ih
  exact hrun.log

/-! ### A full set -/

def numberedId (n : ℕ) : Bytes32 := ⟨U32.toLeBytes n ++ List.replicate 28 0, rfl⟩

theorem numberedId_inj {m n : ℕ} (hm : m < 2 ^ 32) (hn : n < 2 ^ 32)
    (h : numberedId m = numberedId n) : m = n := by
  have hbytes : U32.toLeBytes m ++ List.replicate 28 0 = U32.toLeBytes n ++ List.replicate 28 0 :=
    congrArg Bytes32.bytes h
  have hvalues := congrArg U32.ofLeBytes hbytes
  rw [U32.ofLeBytes_toLeBytes hm, U32.ofLeBytes_toLeBytes hn] at hvalues
  exact hvalues

def noteOf (id : Bytes32) : NostrEvent where
  id := id.toHex
  pubkey := id.toHex
  kind := 1
  createdAt := 0
  tags := []
  content := ""
  sig := ""

def eventCall (id : Bytes32) : List PipelineAct :=
  [.processBytes 0 (some (.nostrEvent (noteOf id))), .finish 0 .done]

theorem eventFromFlatbuffer_noteOf (id : Bytes32) :
    ∃ event, eventFromFlatbuffer (noteOf id) = .ok event ∧ event.id = id := by
  have hdecode : Hex.decode id.toHex = some id.bytes := Hex.decode_encode id.bytes
  have hne : id.toHex ≠ "" := by
    intro hempty
    rw [hempty] at hdecode
    have hnil : id.bytes = [] := (Option.some.inj hdecode).symm
    have hsize := id.size
    rw [hnil] at hsize
    cases hsize
  have hid : ∀ invalid, Bytes32.fromHex invalid id.toHex = .ok id := by
    intro invalid
    rw [Bytes32.fromHex, hdecode]
    exact dif_pos id.size
  refine ⟨{ id := id, pubkey := id, createdAt := 0, kind := 1, tags := [], content := "", sig := "" },
    ?_, rfl⟩
  simp only [eventFromFlatbuffer, noteOf, eventIdFromHex, publicKeyFromHex, hne, if_false, hid]
  rfl

theorem exec_eventCall (hfree : 0 ∉ st.running) (hnew : id ∉ st.seen) :
    Run.exec Pipelines.step st (eventCall id) =
      { seen := if st.seen.card < dedupMaxSize then insert id st.seen else st.seen
        running := (st.running.insert 0 (.event id)).erase 0
        log := st.log ++ [.passed id (st.seen.card < dedupMaxSize)] } := by
  obtain ⟨event, hevent, hid⟩ := eventFromFlatbuffer_noteOf id
  have hcall : st.step (.processBytes 0 (some (.nostrEvent (noteOf id)))) =
      { seen := if st.seen.card < dedupMaxSize then insert id st.seen else st.seen
        running := st.running.insert 0 (.event id)
        log := st.log ++ [.passed id (st.seen.card < dedupMaxSize)] } := by
    rw [Pipelines.step, if_neg hfree, Pipelines.processBytes, hevent]
    dsimp only
    rw [hid, Pipeline.dedup, if_neg hnew]
    by_cases hroom : st.seen.card < dedupMaxSize
    · simp [hroom]
    · simp [hroom]
  rw [eventCall, Run.exec_cons, Run.exec_cons, Run.exec_nil, hcall]
  simp only [Pipelines.step, Pipelines.finish, AList.lookup_insert]

theorem not_mem_erase_self (running : Map ℕ InPipes) (n : ℕ) : n ∉ running.erase n :=
  AList.mem_erase.not.mpr fun h => h.1 rfl

theorem exec_eventCalls (st : Pipelines) (ids : List Bytes32) (hnodup : ids.Nodup) (hfree : 0 ∉ st.running)
    (hnew : ∀ id ∈ ids, id ∉ st.seen) (hroom : st.seen.card + ids.length ≤ dedupMaxSize) :
    (Run.exec Pipelines.step st (ids.flatMap eventCall)).seen.card = st.seen.card + ids.length ∧
      (∀ id, id ∈ (Run.exec Pipelines.step st (ids.flatMap eventCall)).seen ↔
        id ∈ st.seen ∨ id ∈ ids) ∧
      0 ∉ (Run.exec Pipelines.step st (ids.flatMap eventCall)).running := by
  induction ids generalizing st with
  | nil => exact ⟨rfl, fun id => by simp, hfree⟩
  | cons id ids ih =>
    obtain ⟨hnotin, hnodup⟩ := List.nodup_cons.mp hnodup
    rw [length_cons] at hroom
    have hcard : (insert id st.seen).card = st.seen.card + 1 :=
      Finset.card_insert_of_notMem (hnew id mem_cons_self)
    have hrest : ∀ other ∈ ids, other ∉ insert id st.seen := by
      intro other hother
      rw [Finset.mem_insert]
      rintro (rfl | hold)
      · exact hnotin hother
      · exact hnew other (mem_cons_of_mem id hother) hold
    rw [flatMap_cons, Run.exec_append, exec_eventCall hfree (hnew id mem_cons_self),
      if_pos (by omega)]
    obtain ⟨hcard', hmem', hfree'⟩ := ih
      { seen := insert id st.seen
        running := (st.running.insert 0 (.event id)).erase 0
        log := st.log ++ [.passed id (st.seen.card < dedupMaxSize)] }
      hnodup (not_mem_erase_self _ 0) hrest (by rw [hcard]; omega)
    refine ⟨?_, fun other => ?_, hfree'⟩
    · rw [hcard', hcard, length_cons]
      omega
    · rw [hmem', Finset.mem_insert, mem_cons]
      tauto

theorem not_passesOnce_of_full (hfree : 0 ∉ st.running) (hnew : id ∉ st.seen)
    (hfull : ¬ st.seen.card < dedupMaxSize) :
    ¬ PassesOnce (Run.exec Pipelines.step st (eventCall id ++ eventCall id)).log := by
  have hlog : (Run.exec Pipelines.step st (eventCall id ++ eventCall id)).log =
      (st.log ++ [.passed id (st.seen.card < dedupMaxSize)]) ++
        [.passed id (st.seen.card < dedupMaxSize)] := by
    rw [Run.exec_append, exec_eventCall hfree hnew, if_neg hfull, exec_eventCall]
    · exact not_mem_erase_self _ 0
    · exact hnew
  rw [PassesOnce, hlog, History.always_concat]
  intro h
  have hnone : passesSince id (st.log ++ [.passed id (st.seen.card < dedupMaxSize)]) = [] := h.2
  rw [passesSince, foldl_append] at hnone
  simp [passesStep] at hnone

/-- The given number of events, each with its own id, and then one more event twice. -/
def fillThenRepeat (n : ℕ) : List PipelineAct :=
  ((List.range n).map numberedId).flatMap eventCall ++
    (eventCall (numberedId n) ++ eventCall (numberedId n))

theorem not_passesOnce_fillThenRepeat {n : ℕ} (hn : n = dedupMaxSize) :
    ¬ PassesOnce (Run.exec Pipelines.step .new (fillThenRepeat n)).log := by
  have hbound : n < 2 ^ 32 := by
    rw [hn, dedupMaxSize]
    norm_num
  have hnodup : ((List.range n).map numberedId).Nodup := by
    refine (nodup_map_iff_inj_on nodup_range).mpr fun i hi j hj heq => ?_
    rw [mem_range] at hi hj
    exact numberedId_inj (by omega) (by omega) heq
  have hnotin : numberedId n ∉ (List.range n).map numberedId := by
    intro hmem
    obtain ⟨i, hi, heq⟩ := List.mem_map.mp hmem
    rw [mem_range] at hi
    have := numberedId_inj (by omega) hbound heq
    omega
  have hlen : ((List.range n).map numberedId).length = n := by
    rw [length_map, length_range]
  have hempty : Pipelines.new.seen.card = 0 := rfl
  obtain ⟨hcard, hmem, hfree⟩ := exec_eventCalls .new ((List.range n).map numberedId) hnodup
    (by simp [Pipelines.new]) (fun id _ => by simp [Pipelines.new]) (by rw [hlen, hempty]; omega)
  rw [fillThenRepeat, Run.exec_append]
  refine not_passesOnce_of_full hfree (fun hseen => ?_) ?_
  · rcases (hmem _).mp hseen with hold | hin
    · cases hold
    · exact hnotin hin
  · rw [hcard, hlen, hempty]
    omega

/-- Ten thousand events fill the set; the next one passes twice, and nothing has
failed. -/
theorem full_set_passes_twice :
    ¬ PassesOnce (Run.exec Pipelines.step .new (fillThenRepeat dedupMaxSize)).log :=
  not_passesOnce_fillThenRepeat rfl

end Nipworker
