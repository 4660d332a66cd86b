/-
The repeats that the proxy drops (`proxy/relayProxyServer.ts`).

For every subscription that a client has asked for, a session remembers the hashes of the
`EVENT` frames that were forwarded, at most `DEDUP_MAX_ENTRIES` of them.
-/
import Nipworker.Proxy.EventFrameAgreement
import Nipworker.Lib.Map
import Nipworker.Lib.Run
import Nipworker.Lib.History

namespace Nipworker.ProxyFrames

open Js JsJson List

/-! ### The code -/

def dedupMaxEntries : ℕ := 10000

def fnv1a (str : JsString) : UInt32 :=
  str.foldl (fun hash u => (hash ^^^ u.toUInt32) * 0x01000193) 0x811c9dc5

/-- The message of `buildRawWorkerMessage`. -/
structure RawWorkerMessage where
  subId : JsString
  relayUrl : JsString
  raw : JsString
  deriving DecidableEq

/-- `dedupBySubId` of a session.  A set is iterated in the order of insertion, oldest
first. -/
abbrev DedupSets := Map JsString (List UInt32)

/-- The set after one more hash: the oldest one goes when there are too many. -/
def addBounded (dedupSet : List UInt32) (hash : UInt32) : List UInt32 :=
  (if dedupMaxEntries ≤ dedupSet.length then dedupSet.tail else dedupSet) ++ [hash]

/-- What a frame opens or closes. -/
inductive SubscriptionFrameState
  | req (subId : JsString)
  | close (subId : JsString)
  deriving DecidableEq

/-- `trackSubscriptionState`, as far as the sets go. -/
def trackSubscriptionState (sets : DedupSets) : Option SubscriptionFrameState → DedupSets
  | none => sets
  | some (.req subId) => if (sets.lookup subId).isNone then sets.insert subId [] else sets
  | some (.close subId) => sets.erase subId

section

variable {N : Type} (E : Numbers N)

def parseSubscriptionFrameState (frame : JsString) : Option SubscriptionFrameState :=
  match parseRelayFrame E frame with
  | some (.str type :: .str subId :: _) =>
    if subId = [] then none
    else if type = units ['R', 'E', 'Q'] then some (.req subId)
    else if type = units ['C', 'L', 'O', 'S', 'E'] then some (.close subId)
    else none
  | _ => none

/-- The subscription id and the payload of a frame, if there is an id. -/
def frameParts (rawFrame : JsString) : Option FrameParts :=
  ((extractEventFrameParts rawFrame).or (parseEventFrameFallback E rawFrame)).filter
    fun parts => parts.subId ≠ []

/-- What becomes of a frame. -/
def eventFrameToWorkerMessage (sets : DedupSets) (relayUrl rawFrame : JsString)
    (subIdHint : Option JsString) : Option RawWorkerMessage × DedupSets :=
  match frameParts E rawFrame with
  | none => (some { subId := subIdHint.getD [], relayUrl, raw := rawFrame }, sets)
  | some parts =>
    let message := { subId := parts.subId, relayUrl, raw := parts.payload }
    match sets.lookup parts.subId with
    | none => (some message, sets)
    | some dedupSet =>
      if fnv1a rawFrame ∈ dedupSet then (none, sets)
      else (some message, sets.insert parts.subId (addBounded dedupSet (fnv1a rawFrame)))

end

/-! ### Sessions -/

/-- What happens to a session: a frame of the client for a relay, its command to close a
subscription, an `EVENT` frame of a relay, or the end of the session. -/
inductive SessionAct
  | clientFrame (frame : JsString)
  | closeSub (subId : JsString)
  | event (relayUrl rawFrame : JsString) (subIdHint : Option JsString)
  | closed

/-- What happened, with what became of the frames of the relays. -/
inductive SessionEntry
  | act (a : SessionAct)
  | event (rawFrame : JsString) (result : Option RawWorkerMessage)

/-- The sets of a session, and its record. -/
structure DedupSession where
  sets : DedupSets
  log : List SessionEntry

namespace DedupSession

def start : DedupSession := { sets := ∅, log := [] }

variable {N : Type} (E : Numbers N)

def step (s : DedupSession) : SessionAct → DedupSession
  | .clientFrame frame =>
    { sets := trackSubscriptionState s.sets (parseSubscriptionFrameState E frame)
      log := s.log ++ [.act (.clientFrame frame)] }
  | .closeSub subId =>
    { sets := s.sets.erase subId
      log := s.log ++ [.act (.closeSub subId)] }
  | .event relayUrl rawFrame subIdHint =>
    let served := eventFrameToWorkerMessage E s.sets relayUrl rawFrame subIdHint
    { sets := served.2, log := s.log ++ [.event rawFrame served.1] }
  | .closed => { sets := ∅, log := s.log ++ [.act .closed] }

def KeepsOpen (subId : JsString) : SessionEntry → Prop
  | .act (.clientFrame frame) => parseSubscriptionFrameState E frame ≠ some (.close subId)
  | .act (.closeSub closed) => closed ≠ subId
  | .act .closed => False
  | _ => True

/-- The frame was forwarded, and its subscription was not closed since. -/
def Forwarded (subId rawFrame : JsString) (log : List SessionEntry) : Prop :=
  ∃ message, History.Since (KeepsOpen E subId) (.event rawFrame (some message)) log

/-- A frame of which nothing becomes is a frame of a subscription, and the same frame was
forwarded for the subscription before. -/
def RepeatDropped (before : List SessionEntry) : SessionEntry → Prop
  | .event rawFrame none => ∃ parts, frameParts E rawFrame = some parts ∧
      Forwarded E parts.subId rawFrame before
  | _ => True

/-- Every hash that is remembered is that of a frame that was forwarded since the
subscription was opened. -/
structure Remembers (s : DedupSession) : Prop where
  forwarded : ∀ {subId dedupSet}, s.sets.lookup subId = some dedupSet → ∀ hash ∈ dedupSet,
    ∃ rawFrame parts, frameParts E rawFrame = some parts ∧ parts.subId = subId ∧
      fnv1a rawFrame = hash ∧ Forwarded E subId rawFrame s.log
  bounded : ∀ {subId dedupSet}, s.sets.lookup subId = some dedupSet →
    dedupSet.length ≤ dedupMaxEntries

/-- No other frame of the same subscription has the hash of the frame. -/
def NoCollision (frames : List JsString) : Prop :=
  ∀ x ∈ frames, ∀ y ∈ frames, ∀ parts parts', frameParts E x = some parts →
    frameParts E y = some parts' → parts.subId = parts'.subId → fnv1a x = fnv1a y → x = y

def relayFrames (acts : List SessionAct) : List JsString :=
  acts.filterMap fun
    | .event _ rawFrame _ => some rawFrame
    | _ => none

variable {E}

/-! ### What is remembered was forwarded -/

theorem length_addBounded {dedupSet : List UInt32} (h : dedupSet.length ≤ dedupMaxEntries)
    (hash : UInt32) : (addBounded dedupSet hash).length ≤ dedupMaxEntries := by
  rw [addBounded, length_append, length_singleton]
  have hmax : dedupMaxEntries = 10000 := rfl
  by_cases hfull : dedupMaxEntries ≤ dedupSet.length
  · rw [if_pos hfull, length_tail]
    omega
  · rw [if_neg hfull]
    omega

theorem mem_addBounded {dedupSet : List UInt32} {hash h : UInt32}
    (hmem : h ∈ addBounded dedupSet hash) : h ∈ dedupSet ∨ h = hash := by
  rcases List.mem_append.mp hmem with hold | hnew
  · refine .inl ?_
    by_cases hfull : dedupMaxEntries ≤ dedupSet.length
    · rw [if_pos hfull] at hold
      exact mem_of_mem_tail hold
    · rwa [if_neg hfull] at hold
  · exact .inr (List.mem_singleton.mp hnew)

variable {rawFrame : JsString} {entry : SessionEntry} {s : DedupSession} {acts : List SessionAct}

theorem Forwarded.keep {subId : JsString} {log : List SessionEntry}
    (h : Forwarded E subId rawFrame log) (hkeep : KeepsOpen E subId entry) :
    Forwarded E subId rawFrame (log ++ [entry]) := by
  obtain ⟨message, hsince⟩ := h
  exact ⟨message, History.since_concat.mpr (.inr ⟨hkeep, hsince⟩)⟩

theorem event_cases (sets : DedupSets) (relayUrl rawFrame : JsString)
    (subIdHint : Option JsString) :
    (∃ message, eventFrameToWorkerMessage E sets relayUrl rawFrame subIdHint =
      (some message, sets)) ∨
    (∃ parts dedupSet, frameParts E rawFrame = some parts ∧
      sets.lookup parts.subId = some dedupSet ∧ fnv1a rawFrame ∈ dedupSet ∧
      eventFrameToWorkerMessage E sets relayUrl rawFrame subIdHint = (none, sets)) ∨
    ∃ parts dedupSet message, frameParts E rawFrame = some parts ∧
      sets.lookup parts.subId = some dedupSet ∧
      eventFrameToWorkerMessage E sets relayUrl rawFrame subIdHint =
        (some message, sets.insert parts.subId (addBounded dedupSet (fnv1a rawFrame))) := by
  rw [eventFrameToWorkerMessage]
  cases hparts : frameParts E rawFrame with
  | none => exact .inl ⟨_, rfl⟩
  | some parts =>
    dsimp only
    cases hset : sets.lookup parts.subId with
    | none => exact .inl ⟨_, rfl⟩
    | some dedupSet =>
      dsimp only
      by_cases hmem : fnv1a rawFrame ∈ dedupSet
      · rw [if_pos hmem]
        exact .inr (.inl ⟨parts, dedupSet, rfl, hset, hmem, rfl⟩)
      · rw [if_neg hmem]
        exact .inr (.inr ⟨parts, dedupSet, _, rfl, hset, rfl⟩)

theorem remembers_start : Remembers E start where
  forwarded h := by
    rw [start, AList.lookup_empty] at h
    contradiction
  bounded h := by
    rw [start, AList.lookup_empty] at h
    contradiction

theorem Remembers.of_sets (h : Remembers E s) {sets : DedupSets}
    (hsets : ∀ {subId dedupSet}, sets.lookup subId = some dedupSet → dedupSet = [] ∨
      s.sets.lookup subId = some dedupSet ∧ KeepsOpen E subId entry) :
    Remembers E { sets := sets, log := s.log ++ [entry] } where
  forwarded hlookup hash hmem := by
    rcases hsets hlookup with rfl | ⟨hold, hkeep⟩
    · contradiction
    · obtain ⟨rawFrame, parts, hparts, hsub, hhash, hforwarded⟩ := h.forwarded hold hash hmem
      exact ⟨rawFrame, parts, hparts, hsub, hhash, hforwarded.keep hkeep⟩
  bounded hlookup := by
    rcases hsets hlookup with rfl | ⟨hold, -⟩
    · exact Nat.zero_le _
    · exact h.bounded hold

theorem remembers_clientFrame (h : Remembers E s) (frame : JsString) :
    Remembers E (s.step E (.clientFrame frame)) := by
  refine h.of_sets fun {subId dedupSet} hlookup => ?_
  show dedupSet = [] ∨ _ ∧ parseSubscriptionFrameState E frame ≠ some (.close subId)
  cases hstate : parseSubscriptionFrameState E frame with
  | none =>
    rw [hstate] at hlookup
    exact .inr ⟨hlookup, by simp⟩
  | some state =>
    rw [hstate] at hlookup
    cases state with
    | req opened =>
      refine Or.imp_right (fun hold => ⟨hold, by simp⟩) ?_
      rw [trackSubscriptionState] at hlookup
      by_cases hnew : (s.sets.lookup opened).isNone = true
      · rw [if_pos hnew] at hlookup
        exact (Map.lookup_insert_eq_some.mp hlookup).imp (fun hlast => hlast.2.symm) And.right
      · rw [if_neg hnew] at hlookup
        exact .inr hlookup
    | close closed =>
      rw [trackSubscriptionState, Map.lookup_erase_ite] at hlookup
      by_cases heq : subId = closed
      · rw [if_pos heq] at hlookup
        contradiction
      · rw [if_neg heq] at hlookup
        exact .inr ⟨hlookup, fun hclose => heq (by injection Option.some.inj hclose with h1; exact h1.symm)⟩

/-- **Everything that happens to a session** keeps what the sets hold. -/
theorem Remembers.step (h : Remembers E s) (a : SessionAct) : Remembers E (s.step E a) := by
  cases a with
  | clientFrame frame => exact remembers_clientFrame h frame
  | closeSub closed =>
    refine h.of_sets fun {subId dedupSet} hlookup => .inr ?_
    obtain ⟨hne, hold⟩ := Map.lookup_erase_eq_some.mp hlookup
    exact ⟨hold, hne.symm⟩
  | closed =>
    refine h.of_sets fun {subId dedupSet} hlookup => ?_
    rw [AList.lookup_empty] at hlookup
    contradiction
  | event relayUrl rawFrame subIdHint =>
    rw [DedupSession.step]
    rcases event_cases (E := E) s.sets relayUrl rawFrame subIdHint with
      ⟨message, heq⟩ | ⟨parts, dedupSet, -, -, -, heq⟩ |
        ⟨parts, dedupSet, message, hparts, hset, heq⟩
    · rw [heq]
      exact h.of_sets fun hlookup => .inr ⟨hlookup, trivial⟩
    · rw [heq]
      exact h.of_sets fun hlookup => .inr ⟨hlookup, trivial⟩
    · rw [heq]
      refine ⟨fun {subId set} hlookup hash hmem => ?_, fun {subId set} hlookup => ?_⟩
      · dsimp only at hlookup
        rw [Map.lookup_insert_ite] at hlookup
        by_cases hsub : subId = parts.subId
        · rw [if_pos hsub] at hlookup
          rw [← Option.some.inj hlookup] at hmem
          rcases mem_addBounded hmem with hold | rfl
          · rw [hsub]
            obtain ⟨x, xparts, hx, hxsub, hhash, hforwarded⟩ := h.forwarded hset hash hold
            exact ⟨x, xparts, hx, hxsub, hhash, hforwarded.keep trivial⟩
          · -- the hash of the frame that was just forwarded
            exact ⟨rawFrame, parts, hparts, hsub.symm, rfl, message,
              History.since_concat.mpr (.inl rfl)⟩
        · rw [if_neg hsub] at hlookup
          obtain ⟨x, xparts, hx, hxsub, hhash, hforwarded⟩ := h.forwarded hlookup hash hmem
          exact ⟨x, xparts, hx, hxsub, hhash, hforwarded.keep trivial⟩
      · dsimp only at hlookup
        obtain ⟨-, rfl⟩ | ⟨-, hold⟩ := Map.lookup_insert_eq_some.mp hlookup
        · exact length_addBounded (h.bounded hset) _
        · exact h.bounded hold

/-! ### Runs -/

variable (E) in
abbrev after (acts : List SessionAct) : DedupSession := Run.exec (DedupSession.step E) start acts

theorem after_concat (acts : List SessionAct) (a : SessionAct) :
    after E (acts ++ [a]) = (after E acts).step E a := by
  rw [after, Run.exec_append]
  rfl

theorem remembers_after (acts : List SessionAct) : Remembers E (after E acts) :=
  Run.Along.exec (P := fun _ _ => True) (fun _ a h _ => h.step a) remembers_start
    (Run.along_of_mem (fun _ _ _ => trivial) _)

theorem relayFrames_concat (acts : List SessionAct) (a : SessionAct) :
    relayFrames (acts ++ [a]) = relayFrames acts ++ relayFrames [a] := filterMap_append

theorem step_log (s : DedupSession) (a : SessionAct) :
    ∃ entry, (s.step E a).log = s.log ++ [entry] ∧
      ∀ rawFrame result, entry = .event rawFrame result → rawFrame ∈ relayFrames [a] := by
  cases a with
  | event relayUrl rawFrame subIdHint =>
    refine ⟨_, rfl, fun x result heq => ?_⟩
    injection heq with hframe
    rw [← hframe]
    exact mem_cons_self
  | clientFrame frame => exact ⟨_, rfl, by rintro x result ⟨⟩⟩
  | closeSub subId => exact ⟨_, rfl, by rintro x result ⟨⟩⟩
  | closed => exact ⟨_, rfl, by rintro x result ⟨⟩⟩

theorem mem_relayFrames
    {result : Option RawWorkerMessage} (h : .event rawFrame result ∈ (after E acts).log) :
    rawFrame ∈ relayFrames acts := by
  induction acts using List.reverseRecOn with
  | nil => contradiction
  | append_singleton acts a ih =>
    rw [after_concat] at h
    obtain ⟨entry, hlog, hentry⟩ := step_log (E := E) (after E acts) a
    rw [hlog] at h
    rw [relayFrames_concat]
    rcases List.mem_append.mp h with hold | hnew
    · exact mem_append_left _ (ih hold)
    · exact mem_append_right _ (hentry _ _ (List.mem_singleton.mp hnew).symm)

theorem Forwarded.mem {subId : JsString} {log : List SessionEntry}
    (h : Forwarded E subId rawFrame log) : ∃ result, .event rawFrame result ∈ log := by
  obtain ⟨message, before, more, rfl, -⟩ := h
  exact ⟨_, mem_append_right _ mem_cons_self⟩

theorem repeatDropped_step {a : SessionAct} (h : NoCollision E (relayFrames (acts ++ [a])))
    (hlog : (after E (acts ++ [a])).log = (after E acts).log ++ [entry]) :
    RepeatDropped E (after E acts).log entry := by
  rw [after_concat] at hlog
  cases a with
  | clientFrame frame =>
    rw [← (List.cons.inj (append_cancel_left hlog)).1]
    trivial
  | closeSub subId =>
    rw [← (List.cons.inj (append_cancel_left hlog)).1]
    trivial
  | closed =>
    rw [← (List.cons.inj (append_cancel_left hlog)).1]
    trivial
  | event relayUrl rawFrame subIdHint =>
    have hentry := (List.cons.inj (append_cancel_left hlog)).1
    rw [← hentry]
    rcases event_cases (E := E) (after E acts).sets relayUrl rawFrame subIdHint with
      ⟨message, heq⟩ | ⟨parts, dedupSet, hparts, hset, hmem, heq⟩ | ⟨_, _, message, -, -, heq⟩
    · rw [heq]
      trivial
    · rw [heq]
      refine ⟨parts, hparts, ?_⟩
      obtain ⟨x, xparts, hx, hsub, hhash, hforwarded⟩ :=
        (remembers_after (E := E) acts).forwarded hset _ hmem
      -- the frame with the hash is the frame itself
      have hsame : x = rawFrame := by
        obtain ⟨result, hresult⟩ := hforwarded.mem
        refine h x ?_ rawFrame ?_ xparts parts hx hparts hsub hhash
        · rw [relayFrames_concat]
          exact mem_append_left _ (mem_relayFrames hresult)
        · rw [relayFrames_concat]
          exact mem_append_right _ mem_cons_self
      rw [hsame] at hforwarded
      exact hforwarded
    · rw [heq]
      trivial

theorem NoCollision.of_append {more : List SessionAct}
    (h : NoCollision E (relayFrames (acts ++ more))) : NoCollision E (relayFrames acts) := by
  have hsub : ∀ x ∈ relayFrames acts, x ∈ relayFrames (acts ++ more) := fun x hx => by
    rw [relayFrames, filterMap_append]
    exact mem_append_left _ hx
  exact fun x hx y hy => h x (hsub x hx) y (hsub y hy)

theorem always_repeatDropped (h : NoCollision E (relayFrames acts)) :
    History.Always (RepeatDropped E) (after E acts).log := by
  induction acts using List.reverseRecOn with
  | nil => exact History.always_nil
  | append_singleton acts a ih =>
    obtain ⟨entry, hlog, -⟩ := step_log (E := E) (after E acts) a
    rw [← after_concat] at hlog
    rw [hlog, History.always_concat]
    exact ⟨ih h.of_append, repeatDropped_step h hlog⟩

/-- **Only repeats are dropped**: in every run of a session in which no two frames of one
subscription have the same hash, a frame of which nothing becomes was forwarded for its
subscription before, without a CLOSE in between; and in every run no set is larger than
`DEDUP_MAX_ENTRIES`. -/
theorem only_repeats_dropped {N : Type} (E : Numbers N) (acts : List SessionAct) :
    (NoCollision E (relayFrames acts) →
      History.Always (RepeatDropped E) (after E acts).log) ∧
    ∀ subId dedupSet, (after E acts).sets.lookup subId = some dedupSet →
      dedupSet.length ≤ dedupMaxEntries :=
  ⟨always_repeatDropped, fun _ _ => (remembers_after acts).bounded⟩

/-! ### Two frames with one hash -/

/-- The frame of an event with this id, for the subscription `s`. -/
def sampleEvent (id : List Char) : FrameLayout :=
  compactFrame eventLiteral [.plain (unit 's')]
    (.obj [] (.cons [] [.plain (unit 'i'), .plain (unit 'd')] [] []
      (.str ((units id).map StrUnit.plain)) [] .nil))

/-- The client asks for the subscription `s`. -/
def sampleReq : JsString := units ['[', '"', 'R', 'E', 'Q', '"', ',', '"', 's', '"', ',', '{', '}', ']']

def firstId : List Char := ['5', 'e', '0', 'c', 'c', '4', '7', '2']

def secondId : List Char := ['0', 'd', 'f', 'a', '0', '1', '6', 'c']

def plainUnits (us : JsString) : Bool := us.all fun u => u ≠ unit '"' ∧ u ≠ unit '\\' ∧ 32 ≤ u

theorem wf_plainUnits {us : JsString} (h : plainUnits us = true) :
    ∀ p ∈ us.map StrUnit.plain, p.Wf := by
  intro p hp
  obtain ⟨u, hu, rfl⟩ := List.mem_map.mp hp
  show u ≠ unit '"' ∧ u ≠ unit '\\' ∧ 32 ≤ u
  exact of_decide_eq_true (List.all_eq_true.mp h u hu)

theorem plain_plainUnits (us : JsString) : Plain (us.map StrUnit.plain) := by
  intro p hp
  obtain ⟨u, -, rfl⟩ := List.mem_map.mp hp
  rfl

theorem valid_sampleEvent {id : List Char} (h : plainUnits (units id) = true) :
    (sampleEvent id).Valid :=
  valid_compactFrame wf_eventLiteral (@wf_plainUnits [unit 's'] (by decide))
    ⟨blank_nil, blank_nil, @wf_plainUnits [unit 'i', unit 'd'] (by decide), blank_nil,
      blank_nil, wf_plainUnits h, blank_nil, trivial⟩ (by decide)

theorem frameParts_sampleEvent {id : List Char} (h : plainUnits (units id) = true) :
    frameParts E (sampleEvent id).text =
      some { subId := [unit 's'], payload := (sampleEvent id).value.text } := by
  rw [frameParts, extractEventFrameParts_text (valid_sampleEvent h),
    if_pos ⟨plain_plainUnits eventKind, plain_plainUnits [unit 's']⟩]
  rfl

/-- The client asks for a subscription, and a relay sends two events for it. -/
def collisionRun : List SessionAct :=
  [.clientFrame sampleReq, .event [] (sampleEvent firstId).text none,
    .event [] (sampleEvent secondId).text none]

theorem parse_sampleReq :
    parseSubscriptionFrameState oneDigit sampleReq = some (.req [unit 's']) := by rfl

theorem fnv1a_collision :
    fnv1a (sampleEvent firstId).text = 690482758 ∧ fnv1a (sampleEvent secondId).text = 690482758 := by
  decide

theorem step_event {relayUrl : JsString} {subIdHint : Option JsString}
    {result : Option RawWorkerMessage} {sets : DedupSets}
    (h : eventFrameToWorkerMessage E s.sets relayUrl rawFrame subIdHint = (result, sets)) :
    s.step E (.event relayUrl rawFrame subIdHint) =
      { sets := sets, log := s.log ++ [.event rawFrame result] } := by
  rw [step, h]

def firstMessage : RawWorkerMessage where
  subId := [unit 's']
  relayUrl := []
  raw := (sampleEvent firstId).value.text

theorem step_second {id : List Char} (h : plainUnits (units id) = true)
    (hhash : fnv1a (sampleEvent id).text = 690482758) :
    (after oneDigit [.clientFrame sampleReq, .event [] (sampleEvent firstId).text none,
        .event [] (sampleEvent id).text none]).log =
      [.act (.clientFrame sampleReq),
        .event (sampleEvent firstId).text (some firstMessage),
        .event (sampleEvent id).text none] := by
  have hreq : (start.step oneDigit (.clientFrame sampleReq)).sets.lookup [unit 's'] = some [] := by
    rw [step, parse_sampleReq]
    rfl
  have hfirst := @frameParts_sampleEvent _ oneDigit firstId (by decide)
  have hevent : eventFrameToWorkerMessage oneDigit
      (start.step oneDigit (.clientFrame sampleReq)).sets [] (sampleEvent firstId).text none =
        (some firstMessage, (start.step oneDigit (.clientFrame sampleReq)).sets.insert [unit 's'] [690482758]) := by
    rw [eventFrameToWorkerMessage, hfirst]
    dsimp only
    rw [hreq]
    dsimp only
    rw [if_neg not_mem_nil, fnv1a_collision.1]
    rfl
  have hrepeat : eventFrameToWorkerMessage oneDigit
      ((start.step oneDigit (.clientFrame sampleReq)).sets.insert [unit 's'] [690482758]) []
        (sampleEvent id).text none =
      (none, (start.step oneDigit (.clientFrame sampleReq)).sets.insert [unit 's'] [690482758]) := by
    rw [eventFrameToWorkerMessage, frameParts_sampleEvent h]
    dsimp only
    rw [AList.lookup_insert]
    dsimp only
    rw [hhash, if_pos mem_cons_self]
  rw [after, Run.exec_cons, Run.exec_cons, Run.exec_cons, Run.exec_nil, step_event hevent,
    step_event hrepeat]
  rfl

/-- An event that comes twice is dropped the second time. -/
theorem only_repeats_dropped_sample :
    (after oneDigit [.clientFrame sampleReq, .event [] (sampleEvent firstId).text none,
        .event [] (sampleEvent firstId).text none]).log.getLast? =
      some (.event (sampleEvent firstId).text none) ∧
    History.Always (RepeatDropped oneDigit)
      (after oneDigit [.clientFrame sampleReq, .event [] (sampleEvent firstId).text none,
        .event [] (sampleEvent firstId).text none]).log := by
  refine ⟨by rw [step_second (by decide) fnv1a_collision.1]; rfl,
    (only_repeats_dropped oneDigit _).1 fun x hx y hy _ _ _ _ _ _ => ?_⟩
  have hall : ∀ z ∈ relayFrames [.clientFrame sampleReq, .event [] (sampleEvent firstId).text none,
      .event [] (sampleEvent firstId).text none], z = (sampleEvent firstId).text := by
    intro z hz
    rcases List.mem_cons.mp hz with rfl | hz
    · rfl
    · exact List.mem_singleton.mp hz
  rw [hall x hx, hall y hy]

/-- The second of two different events is dropped, though it was never forwarded. -/
theorem collision_dropped :
    (sampleEvent firstId).Valid ∧ (sampleEvent secondId).Valid ∧
      (sampleEvent firstId).text ≠ (sampleEvent secondId).text ∧
      ¬ History.Always (RepeatDropped oneDigit) (after oneDigit collisionRun).log := by
  have hne : (sampleEvent firstId).text ≠ (sampleEvent secondId).text := by decide
  refine ⟨valid_sampleEvent (by decide), valid_sampleEvent (by decide), hne, fun h => ?_⟩
  rw [collisionRun, step_second (by decide) fnv1a_collision.2] at h
  obtain ⟨parts, -, hforwarded⟩ := h [_, _] _ [] rfl
  obtain ⟨result, hmem⟩ := hforwarded.mem
  simp only [mem_cons, not_mem_nil, or_false] at hmem
  rcases hmem with hmem | hmem
  · contradiction
  · injection hmem with hframe
    exact hne hframe.symm

end DedupSession

end Nipworker.ProxyFrames
