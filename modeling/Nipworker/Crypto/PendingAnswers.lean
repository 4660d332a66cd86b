/-
The answers that a remote signer is waited for (`crypto/signers/nip46/mod.rs`: `rpc_call`,
`await_response`, `close`; `pump.rs`: `process_rpc_response`).

A call takes an id, sends its request, and looks into a table again and again until the
answer under its id is there, the time is up, or the signer is closed.  The pump puts every
answer into the table, under the id that it reads in it.
-/
import Nipworker.Crypto.Nip46Pump

namespace Nipworker

open List
namespace PendingAnswers

/-! ### The code -/

abbrev Answer := String × Except String String

/-- `Nip46Signer`: the cells it shares with the pump, the counter of its ids, and the ids of
the calls in progress.  What was put into the table, and what calls got, is logged. -/
structure State where
  pump : PumpState
  idCounter : UInt64
  calls : List String
  inserted : List Answer
  delivered : List Answer

/-- `Nip46Signer::new`, at a time in seconds, from which the ids are counted. -/
def State.new (now : UInt32) : State :=
  { pump := PumpState.new, idCounter := now.toUInt64, calls := [], inserted := [], delivered := [] }

/-- `next_id`, at a time in milliseconds. -/
def State.nextId (s : State) (ms : ℕ) : String :=
  toString (s.idCounter + 1).toNat ++ "-" ++ toString ms

/-- What happens to a signer: a call begins, and its request is sent or not; a logout is sent,
which nobody waits for; a frame arrives; a call in progress wakes up, perhaps when its time
is up; the signer is closed. -/
inductive Act
  | rpcCall (ms : ℕ) (sent : Bool)
  | sendLogout (ms : ℕ)
  | frame (bytes : Bytes)
  | wake (id : String) (expired : Bool)
  | close
  deriving DecidableEq, Repr

def answerOf : PumpEffect → Option Answer
  | .insertPending rid outcome => some (rid, outcome)
  | .authChallenge _ _ => none
  | .discover _ => none

def State.finish (s : State) (id : String) : State :=
  { s with
    pump := { s.pump with authPending := s.pump.authPending.erase id }
    calls := s.calls.erase id }

/-- One round of `await_response`. -/
def State.awaitResponse (s : State) (id : String) (expired : Bool) : State :=
  if s.pump.closed = true then s.finish id
  else
    match s.pump.pending.lookup id with
    | some done =>
      State.finish
        { s with
          pump := { s.pump with pending := s.pump.pending.erase id }
          delivered := s.delivered ++ [(id, done)] } id
    | none => if expired = true then s.finish id else s

variable (cfg : Nip46Config) (readers : PumpReaders)

/-- Calls, frames and the end of the session. -/
def step (s : State) : Act → State
  | .rpcCall ms sent =>
    if s.pump.closed = true ∨ sent = false then { s with idCounter := s.idCounter + 1 }
    else { s with idCounter := s.idCounter + 1, calls := s.nextId ms :: s.calls }
  | .sendLogout _ => { s with idCounter := s.idCounter + 1 }
  | .frame bytes =>
    { s with
      pump := (Pump.frameEffects cfg readers bytes).foldl PumpState.apply s.pump
      inserted := s.inserted ++ (Pump.frameEffects cfg readers bytes).filterMap answerOf }
  | .wake id expired => if id ∈ s.calls then s.awaitResponse id expired else s
  | .close =>
    if s.pump.closed = true then s
    else { s with pump := { s.pump with pending := ∅, authPending := ∅, closed := true } }

/-! ### The property -/

/-- A call gets what was put into the table under its own id. -/
def OwnAnswers (s : State) : Prop := ∀ answer ∈ s.delivered, answer ∈ s.inserted

/-- While no call waits, no answer is kept. -/
def EmptyAtRest (s : State) : Prop := s.calls = [] → ∀ id, s.pump.pending.lookup id = none

/-- The condition: an answer arrives while its call is in progress and the signer is open. -/
def Awaited (s : State) : Act → Prop
  | .frame bytes => ∀ rid outcome,
      .insertPending rid outcome ∈ Pump.frameEffects cfg readers bytes →
        rid ∈ s.calls ∧ s.pump.closed = false
  | _ => True

variable {cfg readers}

/-! ### Own answers -/

/-- What is in the table was put there, and calls got what was. -/
structure Sourced (s : State) : Prop where
  pending : ∀ id outcome, s.pump.pending.lookup id = some outcome → (id, outcome) ∈ s.inserted
  own : OwnAnswers s

theorem sourced_new (now : UInt32) : Sourced (State.new now) :=
  ⟨fun id outcome h => absurd h (by simp [State.new, PumpState.new]), fun _ h => absurd h (by simp [State.new])⟩

variable {s : State}

theorem Sourced.finish (h : Sourced s) (id : String) : Sourced (s.finish id) :=
  ⟨h.pending, h.own⟩

theorem Sourced.awaitResponse (h : Sourced s) (id : String) (expired : Bool) :
    Sourced (s.awaitResponse id expired) := by
  rw [State.awaitResponse]
  by_cases hclosed : s.pump.closed = true
  · rw [if_pos hclosed]
    exact h.finish id
  · rw [if_neg hclosed]
    rcases hdone : s.pump.pending.lookup id with _ | done
    · show Sourced (if expired = true then s.finish id else s)
      by_cases hexpired : expired = true
      · rw [if_pos hexpired]
        exact h.finish id
      · rw [if_neg hexpired]
        exact h
    · refine Sourced.finish ⟨fun other outcome hother => ?_, fun answer hanswer => ?_⟩ id
      · exact h.pending other outcome (Map.lookup_erase_eq_some.mp hother).2
      · obtain hold | hnew := List.mem_append.mp hanswer
        · exact h.own answer hold
        · rw [List.mem_singleton.mp hnew]
          exact h.pending id done hdone

theorem Sourced.step (h : Sourced s) (act : Act) : Sourced (step cfg readers s act) := by
  cases act with
  | rpcCall ms sent =>
    rw [PendingAnswers.step]
    by_cases hno : s.pump.closed = true ∨ sent = false
    · rw [if_pos hno]
      exact ⟨h.pending, h.own⟩
    · rw [if_neg hno]
      exact ⟨h.pending, h.own⟩
  | sendLogout ms => exact ⟨h.pending, h.own⟩
  | frame bytes =>
    refine ⟨fun id outcome hpending => ?_, fun answer hanswer => ?_⟩
    · obtain hold | hnew := Pump.pending_foldl_apply _ _ hpending
      · exact mem_append_left _ (h.pending id outcome hold)
      · exact mem_append_right _ (List.mem_filterMap.mpr ⟨_, hnew, rfl⟩)
    · exact mem_append_left _ (h.own answer hanswer)
  | wake id expired =>
    rw [PendingAnswers.step]
    by_cases hcall : id ∈ s.calls
    · rw [if_pos hcall]
      exact h.awaitResponse id expired
    · rw [if_neg hcall]
      exact h
  | close =>
    rw [PendingAnswers.step]
    by_cases hclosed : s.pump.closed = true
    · rw [if_pos hclosed]
      exact h
    · rw [if_neg hclosed]
      exact ⟨fun id outcome hpending => absurd hpending (by simp), h.own⟩

/-! ### At rest -/

/-- The table holds answers to calls in progress, and none once the signer is closed. -/
structure Tidy (s : State) : Prop where
  called : ∀ id outcome, s.pump.pending.lookup id = some outcome → id ∈ s.calls
  closed : s.pump.closed = true → ∀ id, s.pump.pending.lookup id = none

theorem tidy_new (now : UInt32) : Tidy (State.new now) :=
  ⟨fun id outcome h => absurd h (by simp [State.new, PumpState.new]), fun _ _ => rfl⟩

theorem Tidy.finish (h : Tidy s) {id : String}
    (hnone : s.pump.pending.lookup id = none) : Tidy (s.finish id) := by
  refine ⟨fun other outcome hother => ?_, h.closed⟩
  have hne : other ≠ id := by
    rintro rfl
    exact Option.some_ne_none outcome (Eq.trans (Eq.symm hother) hnone)
  exact (mem_erase_of_ne hne).mpr (h.called other outcome hother)

theorem Tidy.awaitResponse (h : Tidy s) (id : String) (expired : Bool) :
    Tidy (s.awaitResponse id expired) := by
  rw [State.awaitResponse]
  by_cases hclosed : s.pump.closed = true
  · rw [if_pos hclosed]
    exact h.finish (h.closed hclosed id)
  · rw [if_neg hclosed]
    rcases hdone : s.pump.pending.lookup id with _ | done
    · show Tidy (if expired = true then s.finish id else s)
      by_cases hexpired : expired = true
      · rw [if_pos hexpired]
        exact h.finish hdone
      · rw [if_neg hexpired]
        exact h
    · -- the answer is taken out, whatever else waits for it
      have htaken : Tidy { s with
          pump := { s.pump with pending := s.pump.pending.erase id }
          delivered := s.delivered ++ [(id, done)] } := by
        refine ⟨fun other outcome hother => ?_, fun hc => absurd hc hclosed⟩
        exact h.called other outcome (Map.lookup_erase_eq_some.mp hother).2
      exact htaken.finish (AList.lookup_erase _ _)

theorem closed_foldl_apply (effects : List PumpEffect) (p : PumpState) :
    (effects.foldl PumpState.apply p).closed = p.closed := by
  induction effects generalizing p with
  | nil => rfl
  | cons effect rest ih =>
    rw [foldl_cons, ih]
    cases effect with
    | authChallenge url rid => rfl
    | discover pubkey => rfl
    | insertPending rid outcome => rfl

theorem Tidy.step (h : Tidy s) {act : Act} (hawaited : Awaited cfg readers s act) :
    Tidy (step cfg readers s act) := by
  cases act with
  | rpcCall ms sent =>
    rw [PendingAnswers.step]
    by_cases hno : s.pump.closed = true ∨ sent = false
    · rw [if_pos hno]
      exact ⟨h.called, h.closed⟩
    · rw [if_neg hno]
      exact ⟨fun id outcome hid => mem_cons_of_mem _ (h.called id outcome hid), h.closed⟩
  | sendLogout ms => exact ⟨h.called, h.closed⟩
  | frame bytes =>
    refine ⟨fun id outcome hpending => ?_, fun hclosed id => ?_⟩
    · obtain hold | hnew := Pump.pending_foldl_apply _ _ hpending
      · exact h.called id outcome hold
      · exact (hawaited id outcome hnew).1
    · have hclosed' : s.pump.closed = true := (closed_foldl_apply _ _).symm.trans hclosed
      rcases hpending : ((Pump.frameEffects cfg readers bytes).foldl PumpState.apply
          s.pump).pending.lookup id with _ | outcome
      · exact hpending
      · obtain hold | hnew := Pump.pending_foldl_apply _ _ hpending
        · rw [h.closed hclosed' id] at hold
          exact absurd hold.symm (Option.some_ne_none outcome)
        · rw [(hawaited id outcome hnew).2] at hclosed'
          exact absurd hclosed' Bool.false_ne_true
  | wake id expired =>
    rw [PendingAnswers.step]
    by_cases hcall : id ∈ s.calls
    · rw [if_pos hcall]
      exact h.awaitResponse id expired
    · rw [if_neg hcall]
      exact h
  | close =>
    rw [PendingAnswers.step]
    by_cases hclosed : s.pump.closed = true
    · rw [if_pos hclosed]
      exact h
    · rw [if_neg hclosed]
      exact ⟨fun id outcome hpending => absurd hpending (by simp), fun _ _ => rfl⟩

/-- **The table of pending answers.**  In every session a call gets an answer that came under
its own id; and when no call is in progress the table is empty, in a session in which every
answer arrives while its call is in progress and the signer is open. -/
theorem pending_awaited (cfg : Nip46Config) (readers : PumpReaders) (now : UInt32)
    (acts : List Act) :
    OwnAnswers (Run.exec (step cfg readers) (State.new now) acts) ∧
      (Run.Along (step cfg readers) (Awaited cfg readers) (State.new now) acts →
        EmptyAtRest (Run.exec (step cfg readers) (State.new now) acts)) := by
  constructor
  · have hkeep : ∀ s act, Sourced s → True → Sourced (step cfg readers s act) :=
      fun _ act hs _ => hs.step act
    have hall : Run.Along (step cfg readers) (fun _ _ => True) (State.new now) acts :=
      Run.along_of_mem (fun _ _ _ => trivial) _
    exact (hall.exec hkeep (sourced_new now)).own
  · intro hawaited
    have hkeep : ∀ s act, Tidy s → Awaited cfg readers s act → Tidy (step cfg readers s act) :=
      fun _ _ hs ha => hs.step ha
    have htidy := hawaited.exec hkeep (tidy_new now)
    intro hrest id
    rcases hpending : (Run.exec (step cfg readers) (State.new now) acts).pump.pending.lookup id
      with _ | outcome
    · rfl
    · have hcall := htidy.called id outcome hpending
      rw [hrest] at hcall
      exact absurd hcall not_mem_nil

/-! ### An answer that nobody waits for -/

/-- The first id of a signer made at 1700000000 s. -/
def firstId : String := "1700000001-1700000002000"

def firstAnswer : Json := .object [("id", .string firstId), ("result", .string "pong")]

def answerReaders : PumpReaders :=
  { Pump.qrReaders with
    serde := { fromStr := fun _ => some firstAnswer, toText := fun _ => "" } }

theorem frameEffects_answer :
    Pump.frameEffects Pump.qrSession answerReaders [1] = [.insertPending firstId (.ok "pong")] := by
  have hevent : Pump.frameEvent Pump.qrSession answerReaders [1]
      = some (Pump.responseEvent 0xaa "first") := Pump.frameEvent_first
  have hdecrypt : Pump.decryptHelper Pump.qrSession answerReaders
      (Pump.responseEvent 0xaa "first").content (Pump.responseEvent 0xaa "first").pubkey.toHex
      = some Pump.secretResponse := by decide +kernel
  rw [Pump.frameEffects, hevent]
  show Pump.eventEffects _ _ _ = _
  rw [Pump.eventEffects, hdecrypt]
  rfl

theorem pending_awaited_call :
    EmptyAtRest (Run.exec (step Pump.qrSession answerReaders) (State.new 1700000000)
      [.rpcCall 1700000002000 true, .frame [1], .wake firstId false]) := by
  refine (pending_awaited Pump.qrSession answerReaders _ _).2 ⟨trivial, ?_, trivial, trivial⟩
  intro rid outcome hmem
  rw [frameEffects_answer, mem_singleton] at hmem
  cases hmem
  exact ⟨by decide, rfl⟩

/-- The same answer when no call is in progress stays in the table. -/
theorem unsolicited_answer_stays :
    ¬ EmptyAtRest (Run.exec (step Pump.qrSession answerReaders) (State.new 1700000000)
      [.frame [1]]) := by
  intro h
  have hnone := h rfl firstId
  rw [Run.exec_cons, Run.exec_nil, step, frameEffects_answer] at hnone
  exact absurd hnone (by decide)

end PendingAnswers
end Nipworker
