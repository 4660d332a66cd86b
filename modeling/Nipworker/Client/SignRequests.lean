/-
Sign requests (`NostrManager.ts`, `react-native.ts`).

A callback is kept under the number of its request until a response takes it, and `setSigner`
and `logout` forget the callbacks that are kept.  A response names its request by the number,
which is an unsigned 32-bit field on the wire, or has no number; then it is for the callback
that is kept, if there is one only.
-/
import Nipworker.Lib.History
import Nipworker.Lib.Run

namespace Nipworker

open List

/-- The two managers that keep sign callbacks. -/
inductive SignManager
  | web
  | reactNative
  deriving DecidableEq, Repr

namespace SignRequests

/-- What a manager does: it makes a request, meets a `setSigner` or a `logout`, or invokes the
callback of a request with an event, which is named by the request it was signed for. -/
inductive Entry
  | asked (request : ℕ)
  | boundary
  | invoked (callback event : ℕ)
  deriving DecidableEq, Repr

/-- The fields about sign requests.  A callback is named by the number of its request, so the map
is the list of its keys in the order of their insertion. -/
structure State where
  signRequests : List ℕ
  nextSignRequestId : ℕ
  log : List Entry
  deriving Repr

def start : State := ⟨[], 1, []⟩

/-- The content of a `SignedEvent` message: the request its event was signed for, if the message
has an event, and the field `request_id`. -/
structure SignedEvent where
  event : Option ℕ
  requestId : ℕ
  deriving DecidableEq, Repr

/-- `requestId() || undefined`. -/
def orUndefined (requestId : ℕ) : Option ℕ := if requestId = 0 then none else some requestId

/-- The callback a response takes. -/
def takeSignCallback (st : State) : Option ℕ → Option ℕ × State
  | some id =>
    if id ∈ st.signRequests then
      (some id, { st with signRequests := st.signRequests.erase id })
    else (none, st)
  | none =>
    if st.signRequests.length ≠ 1 then (none, st)
    else
      match st.signRequests with
      | [] => (none, st)
      | first :: _ => (some first, { st with signRequests := st.signRequests.erase first })

/-- The callback that was taken, if any, is invoked with the event. -/
def invoke (event : ℕ) : Option ℕ × State → State
  | (some cb, st) => { st with log := st.log ++ [.invoked cb event] }
  | (none, st) => st

/-- The `SignedEvent` case of `handleCryptoResponse`, and of `handleCryptoMessage`. -/
def handleCryptoResponse (st : State) (resp : SignedEvent) : State :=
  match resp.event with
  | none => (takeSignCallback st (orUndefined resp.requestId)).2
  | some event => invoke event (takeSignCallback st (orUndefined resp.requestId))

/-- The `SignedEvent` case of `handleDirectResponse`: a failure leaves the callback where it is. -/
def handleDirectResponse (st : State) (resp : SignedEvent) : State :=
  match resp.event with
  | none => st
  | some event => invoke event (takeSignCallback st (orUndefined resp.requestId))

def signEvent (st : State) : State :=
  { signRequests := st.signRequests ++ [st.nextSignRequestId]
    nextSignRequestId := st.nextSignRequestId + 1
    log := st.log ++ [.asked st.nextSignRequestId] }

/-- `setSigner` and `onLogout`: `signRequests.clear()`. -/
def boundary (st : State) : State :=
  { st with signRequests := [], log := st.log ++ [.boundary] }

/-- `request_id` in the response to a request: the number is written with `addFieldInt32` and
echoed, or left out. -/
def wireId (request : ℕ) (echoed : Bool) : ℕ := if echoed then request % 2 ^ 32 else 0

def response (request : ℕ) (echoed signed : Bool) : SignedEvent :=
  { event := if signed then some request else none, requestId := wireId request echoed }

def State.Made (st : State) (request : ℕ) : Prop := 1 ≤ request ∧ request < st.nextSignRequestId

instance (st : State) (request : ℕ) : Decidable (st.Made request) := inferInstanceAs (Decidable (_ ∧ _))

/-- What happens to a manager.  `forgotten` is a restart of the worker graph in the one and the
removal of a remote account in the other: both clear the map.  A response may come at any time
after its request, any number of times, and by either of the ways there are. -/
inductive Act
  | signEvent
  | setSigner
  | logout
  | forgotten
  | response (request : ℕ) (echoed signed direct : Bool)
  deriving DecidableEq, Repr

/-- Both managers, with every response that can still arrive. -/
def step (manager : SignManager) (st : State) : Act → State
  | .signEvent => SignRequests.signEvent st
  | .setSigner => boundary st
  | .logout => boundary st
  | .forgotten => { st with signRequests := [] }
  | .response request echoed signed direct =>
    if st.Made request then
      if manager = .reactNative ∧ direct then
        handleDirectResponse st (SignRequests.response request echoed signed)
      else handleCryptoResponse st (SignRequests.response request echoed signed)
    else st

/-! ### What is promised -/

/-- The invocation of a callback, after what happened before it: the event is that of its own
request, it is the first one, and no boundary came after the request. -/
def Rightful (before : List Entry) : Entry → Prop
  | .invoked cb event =>
    event = cb ∧ (∀ other, .invoked cb other ∉ before) ∧
      History.Since (· ≠ .boundary) (.asked event) before
  | _ => True

/-- The condition on a step: a signed event without a number comes while no other request is the
only one that is kept, and a signed event with a number that is kept is for the request of that
number (the numbers below 2^32 are). -/
def Attributable (st : State) : Act → Prop
  | .response request echoed true _ =>
    st.Made request →
      (wireId request echoed = 0 → ∀ other, st.signRequests = [other] → other = request) ∧
      (wireId request echoed ≠ 0 → wireId request echoed ∈ st.signRequests → request < 2 ^ 32)
  | _ => True

/-- What every run keeps: a callback that is kept has not been invoked, and no boundary came after
its request. -/
structure Kept (st : State) : Prop where
  nodup : st.signRequests.Nodup
  fresh : ∀ cb event, .invoked cb event ∈ st.log → cb < st.nextSignRequestId
  made : ∀ p ∈ st.signRequests, p < st.nextSignRequestId
  uninvoked : ∀ p ∈ st.signRequests, ∀ event, .invoked p event ∉ st.log
  since : ∀ p ∈ st.signRequests, History.Since (· ≠ .boundary) (.asked p) st.log

theorem kept_start : Kept start :=
  ⟨nodup_nil, by simp [start], by simp [start], by simp [start], by simp [start]⟩

/-! ### One step -/

theorem takeSignCallback_cases (st : State) (id : Option ℕ) :
    takeSignCallback st id = (none, st) ∨
      ∃ p ∈ st.signRequests, takeSignCallback st id =
        (some p, { st with signRequests := st.signRequests.erase p }) := by
  cases id with
  | some id =>
    by_cases hid : id ∈ st.signRequests
    · exact .inr ⟨id, hid, if_pos hid⟩
    · exact .inl (if_neg hid)
  | none =>
    by_cases hone : st.signRequests.length ≠ 1
    · exact .inl (if_pos hone)
    · obtain ⟨p, hp⟩ := List.length_eq_one_iff.mp (not_not.mp hone)
      refine .inr ⟨p, by rw [hp]; exact mem_singleton_self p, ?_⟩
      rw [takeSignCallback, if_neg hone]
      simp only [hp]

variable {st : State} (manager : SignManager)

theorem takeSignCallback_wire {requestId p : ℕ} {st' : State}
    (h : takeSignCallback st (orUndefined requestId) = (some p, st')) :
    (requestId = 0 ∧ st.signRequests = [p]) ∨
      (requestId ≠ 0 ∧ p = requestId ∧ p ∈ st.signRequests) := by
  by_cases hzero : requestId = 0
  · refine .inl ⟨hzero, ?_⟩
    rw [orUndefined, if_pos hzero, takeSignCallback] at h
    by_cases hone : st.signRequests.length ≠ 1
    · rw [if_pos hone] at h
      exact absurd (congrArg Prod.fst h) (by simp)
    · obtain ⟨q, hq⟩ := List.length_eq_one_iff.mp (not_not.mp hone)
      rw [if_neg hone] at h
      simp only [hq] at h
      rw [hq, Option.some.inj (congrArg Prod.fst h)]
  · refine .inr ⟨hzero, ?_⟩
    rw [orUndefined, if_neg hzero, takeSignCallback] at h
    by_cases hid : requestId ∈ st.signRequests
    · rw [if_pos hid] at h
      have hp := Option.some.inj (congrArg Prod.fst h)
      exact ⟨hp.symm, hp ▸ hid⟩
    · rw [if_neg hid] at h
      exact absurd (congrArg Prod.fst h) (by simp)

theorem takeSignCallback_none {requestId : ℕ} {st' : State}
    (h : takeSignCallback st (orUndefined requestId) = (none, st')) :
    (requestId = 0 → ∀ p, st.signRequests ≠ [p]) ∧
      (requestId ≠ 0 → requestId ∉ st.signRequests) := by
  constructor
  · intro hzero p hp
    rw [orUndefined, if_pos hzero, takeSignCallback, hp, if_neg (by simp)] at h
    exact absurd (congrArg Prod.fst h) (by simp)
  · intro hzero hid
    rw [orUndefined, if_neg hzero, takeSignCallback, if_pos hid] at h
    exact absurd (congrArg Prod.fst h) (by simp)

theorem kept_erase (h : Kept st) (p : ℕ) :
    Kept { st with signRequests := st.signRequests.erase p } where
  nodup := h.nodup.erase p
  fresh := h.fresh
  made := fun q hq => h.made q (mem_of_mem_erase hq)
  uninvoked := fun q hq => h.uninvoked q (mem_of_mem_erase hq)
  since := fun q hq => h.since q (mem_of_mem_erase hq)

theorem kept_invoke (h : Kept st) (event : ℕ) (id : Option ℕ) :
    Kept (invoke event (takeSignCallback st id)) := by
  rcases takeSignCallback_cases st id with hnone | ⟨p, hp, hsome⟩
  · rw [hnone]
    exact h
  · rw [hsome]
    have herase := kept_erase h p
    refine ⟨herase.nodup, ?_, herase.made, ?_, ?_⟩
    · intro cb e hmem
      rcases List.mem_append.mp hmem with hold | hnew
      · exact h.fresh cb e hold
      · obtain ⟨rfl, -⟩ := Entry.invoked.inj (List.mem_singleton.mp hnew)
        exact h.made cb hp
    · intro q hq e hmem
      rcases List.mem_append.mp hmem with hold | hnew
      · exact herase.uninvoked q hq e hold
      · -- the callback that was invoked is the one that is kept no longer
        obtain ⟨rfl, -⟩ := Entry.invoked.inj (List.mem_singleton.mp hnew)
        exact (h.nodup.not_mem_erase hq).elim
    · intro q hq
      exact History.since_concat.mpr (.inr ⟨by simp, herase.since q hq⟩)

theorem kept_handleCryptoResponse (h : Kept st) (resp : SignedEvent) :
    Kept (handleCryptoResponse st resp) := by
  rw [handleCryptoResponse]
  split
  · rcases takeSignCallback_cases st (orUndefined resp.requestId) with hnone | ⟨p, -, hsome⟩
    · rw [hnone]
      exact h
    · rw [hsome]
      exact kept_erase h p
  · exact kept_invoke h _ _

theorem kept_handleDirectResponse (h : Kept st) (resp : SignedEvent) :
    Kept (handleDirectResponse st resp) := by
  rw [handleDirectResponse]
  split
  · exact h
  · exact kept_invoke h _ _

theorem kept_signEvent (h : Kept st) : Kept (signEvent st) := by
  have hnew : st.nextSignRequestId ∉ st.signRequests := fun hmem =>
    lt_irrefl _ (h.made _ hmem)
  have hlog : ∀ cb e, Entry.invoked cb e ∈ (signEvent st).log → Entry.invoked cb e ∈ st.log := by
    intro cb e hmem
    rcases List.mem_append.mp hmem with hold | hlast
    · exact hold
    · exact absurd (List.mem_singleton.mp hlast) (by simp)
  refine ⟨?_, ?_, ?_, ?_, ?_⟩
  · show (st.signRequests ++ [st.nextSignRequestId]).Nodup
    rw [nodup_append_comm]
    exact List.nodup_cons.mpr ⟨hnew, h.nodup⟩
  · intro cb e hmem
    exact Nat.lt_succ_of_lt (h.fresh cb e (hlog cb e hmem))
  · intro p hp
    rcases List.mem_append.mp hp with hold | hlast
    · exact Nat.lt_succ_of_lt (h.made p hold)
    · rw [List.mem_singleton.mp hlast]
      exact Nat.lt_succ_self _
  · intro p hp e hmem
    rcases List.mem_append.mp hp with hold | hlast
    · exact h.uninvoked p hold e (hlog p e hmem)
    · have hlt := h.fresh p e (hlog p e hmem)
      rw [List.mem_singleton.mp hlast] at hlt
      exact lt_irrefl _ hlt
  · intro p hp
    rcases List.mem_append.mp hp with hold | hlast
    · exact History.since_concat.mpr (.inr ⟨by simp, h.since p hold⟩)
    · rw [List.mem_singleton.mp hlast]
      exact History.since_concat.mpr (.inl rfl)

theorem kept_boundary (h : Kept st) : Kept (boundary st) := by
  refine ⟨nodup_nil, ?_, by simp [boundary], by simp [boundary], by simp [boundary]⟩
  intro cb e hmem
  rcases List.mem_append.mp hmem with hold | hlast
  · exact h.fresh cb e hold
  · exact absurd (List.mem_singleton.mp hlast) (by simp)

theorem kept_step (h : Kept st) (act : Act) : Kept (step manager st act) := by
  cases act with
  | signEvent => exact kept_signEvent h
  | setSigner => exact kept_boundary h
  | logout => exact kept_boundary h
  | forgotten =>
    exact ⟨nodup_nil, h.fresh, fun _ hp => absurd hp not_mem_nil,
      fun _ hp => absurd hp not_mem_nil, fun _ hp => absurd hp not_mem_nil⟩
  | response request echoed signed direct =>
    rw [step]
    split
    · split
      · exact kept_handleDirectResponse h _
      · exact kept_handleCryptoResponse h _
    · exact h

/-! ### The invocations of a step -/

theorem always_invoke (h : Kept st) {request : ℕ} (echoed direct : Bool) (hmade : st.Made request) :
    History.Always Rightful
        (invoke request (takeSignCallback st (orUndefined (wireId request echoed)))).log ↔
      History.Always Rightful st.log ∧
        Attributable st (.response request echoed true direct) := by
  have hwire : wireId request echoed ≠ 0 → wireId request echoed = request % 2 ^ 32 := by
    intro hne
    cases echoed with
    | true => rfl
    | false => exact absurd rfl hne
  rcases takeSignCallback_cases st (orUndefined (wireId request echoed)) with
    hnone | ⟨p, hp, hsome⟩
  · -- no callback: the condition asks nothing
    obtain ⟨hzero, hid⟩ := takeSignCallback_none hnone
    rw [hnone]
    refine (and_iff_left ?_).symm
    intro _
    exact ⟨fun h0 other hother => absurd hother (hzero h0 other),
      fun hne hmem => absurd hmem (hid hne)⟩
  · rw [hsome]
    show History.Always Rightful (st.log ++ [.invoked p request]) ↔ _
    rw [History.always_concat]
    refine and_congr_right fun _ => ?_
    -- the callback is the one of the request, or the condition fails
    have hown : request = p ↔ Attributable st (.response request echoed true direct) := by
      rcases takeSignCallback_wire hsome with ⟨h0, hall⟩ | ⟨hne, hpid, hmem⟩
      · constructor
        · intro heq _
          exact ⟨fun _ other hother => by rw [hall] at hother; rw [heq, (List.cons.inj hother).1],
            fun hne => absurd h0 hne⟩
        · intro hattr
          exact ((hattr hmade).1 h0 p hall).symm
      · constructor
        · intro heq _
          refine ⟨fun h0 => absurd h0 hne, fun _ _ => ?_⟩
          rw [heq, hpid, hwire hne]
          exact Nat.mod_lt _ (by norm_num)
        · intro hattr
          have hlt := (hattr hmade).2 hne (hpid ▸ hmem)
          rw [hpid, hwire hne, Nat.mod_eq_of_lt hlt]
    rw [← hown]
    constructor
    · rintro ⟨heq, -, -⟩
      exact heq
    · intro heq
      refine ⟨heq, h.uninvoked p hp, ?_⟩
      rw [heq]
      exact h.since p hp

theorem always_step (h : Kept st) (act : Act) :
    History.Always Rightful (step manager st act).log ↔
      History.Always Rightful st.log ∧ Attributable st act := by
  cases act with
  | signEvent => exact History.always_concat
  | setSigner => exact History.always_concat
  | logout => exact History.always_concat
  | forgotten => exact (and_iff_left trivial).symm
  | response request echoed signed direct =>
    by_cases hmade : st.Made request
    · rw [step, if_pos hmade]
      cases signed with
      | true =>
        -- both ways lead to the same callback
        have hboth : (if manager = .reactNative ∧ direct then
              handleDirectResponse st (response request echoed true)
            else handleCryptoResponse st (response request echoed true)) =
            invoke request (takeSignCallback st (orUndefined (wireId request echoed))) := by
          split
          · rfl
          · rfl
        rw [hboth]
        exact always_invoke h echoed direct hmade
      | false =>
        refine Iff.trans ?_ (and_iff_left trivial).symm
        split
        · exact Iff.rfl
        · show History.Always Rightful (takeSignCallback st _).2.log ↔ _
          rcases takeSignCallback_cases st (orUndefined (wireId request echoed)) with
            hnone | ⟨p, -, hsome⟩
          · rw [show (response request echoed false).requestId = wireId request echoed from rfl,
              hnone]
          · rw [show (response request echoed false).requestId = wireId request echoed from rfl,
              hsome]
    · rw [step, if_neg hmade]
      refine (and_iff_left ?_).symm
      cases signed with
      | true => exact fun hm => absurd hm hmade
      | false => trivial

theorem always_exec (h : Kept st) (acts : List Act) :
    History.Always Rightful (Run.exec (step manager) st acts).log ↔
      History.Always Rightful st.log ∧ Run.Along (step manager) Attributable st acts := by
  induction acts generalizing st with
  | nil => exact (and_iff_left trivial).symm
  | cons act acts ih =>
    rw [Run.exec_cons, ih (kept_step manager h act), always_step manager h act, and_assoc]
    exact Iff.rfl

end SignRequests

/-- **Sign responses reach their own request.**  In every run of either manager, all callbacks are
invoked once at most, with the event of their own request, and with no boundary in between, if and
only if every response with a signed event is attributable when it arrives. -/
theorem sign_responses_rightful_iff (manager : SignManager) (acts : List SignRequests.Act) :
    History.Always SignRequests.Rightful
        (Run.exec (SignRequests.step manager) SignRequests.start acts).log ↔
      Run.Along (SignRequests.step manager) SignRequests.Attributable SignRequests.start acts := by
  rw [SignRequests.always_exec manager SignRequests.kept_start]
  exact and_iff_right History.always_nil

/-- A request, a change of the account, another request, and then the event of the first request
without a number: either manager gives it to the callback of the second. -/
theorem late_response_crosses_boundary :
    ¬ History.Always SignRequests.Rightful
        (Run.exec (SignRequests.step .web) SignRequests.start
          [.signEvent, .setSigner, .signEvent, .response 1 false true false]).log ∧
      ¬ History.Always SignRequests.Rightful
        (Run.exec (SignRequests.step .reactNative) SignRequests.start
          [.signEvent, .logout, .signEvent, .response 1 false true true]).log := by
  constructor
  · intro h
    exact absurd (h [.asked 1, .boundary, .asked 2] (.invoked 2 1) [] rfl).1 (by decide)
  · intro h
    exact absurd (h [.asked 1, .boundary, .asked 2] (.invoked 2 1) [] rfl).1 (by decide)

end Nipworker
