/-
What comes out of the batch buffers.

A call overruns a buffer when a message whose frame alone reaches the
threshold meets a buffer that is not empty: the buffer is taken out first, and
then the return value is taken by the large frame.
-/
import Nipworker.Worker.BatchBuffer

namespace Nipworker

open List

/-! ### Runs -/

/-- A call on the manager, with the clock reading it makes. -/
inductive BatchOp
  | addMessage (subId : String) (data : Bytes) (now : ℕ)
  | flushSub (subId : String)
  | drainTimedOut (iter : IterOrder String) (now : ℕ)

/-- The buffers, and the payloads that have left them. -/
structure BatchRun where
  manager : BatchBufferManager
  payloads : List Bytes

namespace BatchRun

def init : BatchRun := { manager := BatchBufferManager.new, payloads := [] }

def step (r : BatchRun) : BatchOp → BatchRun
  | .addMessage subId data now =>
    let (m, payload) := r.manager.addMessage subId data now
    { manager := m, payloads := r.payloads ++ payload.toList }
  | .flushSub subId =>
    let (m, payload) := r.manager.flushSub subId
    { manager := m, payloads := r.payloads ++ payload.toList }
  | .drainTimedOut iter now =>
    let (m, payloads) := r.manager.drainTimedOut iter now
    { manager := m, payloads := r.payloads ++ payloads }

def run (r : BatchRun) (ops : List BatchOp) : BatchRun := ops.foldl step r

/-- The messages of a subscription, decoded from the payloads returned so far
and then from its buffer. -/
def delivered (r : BatchRun) (subId : String) : List (String × Bytes) :=
  ((r.payloads.flatMap decodeTaggedBatch).filter fun msg => msg.1 = subId)
    ++ decodeTaggedBatch (r.manager.residual subId)

end BatchRun

def BatchOp.added (subId : String) : BatchOp → List (String × Bytes)
  | .addMessage s data _ => if s = subId then [(s, data)] else []
  | _ => []

def BatchOp.Fits : BatchOp → Prop
  | .addMessage s data _ => (encodeTagged s data).length < 2 ^ 32
  | _ => True

/-- The call adds a message whose frame alone reaches the threshold while the
subscription's buffer is not empty. -/
def BatchRun.Overrun (r : BatchRun) (subId : String) : BatchOp → Prop
  | .addMessage s data _ =>
    s = subId ∧ r.manager.residual s ≠ [] ∧
      (BatchBufferManager.messageFrame s data).length ≥ batchSizeThreshold
  | _ => False

/-- No call of the run overruns the buffer of the subscription. -/
def BatchRun.NoOverrun (subId : String) : BatchRun → List BatchOp → Prop
  | _, [] => True
  | r, op :: ops => ¬ r.Overrun subId op ∧ NoOverrun subId (r.step op) ops

/-! ### What a call gives out and what it keeps -/

/-- Every buffer holds whole frames of its own subscription. -/
def BatchBufferManager.Framed (m : BatchBufferManager) : Prop :=
  ∀ subId, ∃ msgs : List Bytes,
    (∀ data ∈ msgs, (encodeTagged subId data).length < 2 ^ 32) ∧
      m.residual subId = batch subId msgs

def emitted (payloads : List Bytes) (subId : String) : List (String × Bytes) :=
  (payloads.flatMap decodeTaggedBatch).filter fun msg => msg.1 = subId

theorem emitted_append (xs ys : List Bytes) (subId : String) :
    emitted (xs ++ ys) subId = emitted xs subId ++ emitted ys subId := by
  rw [emitted, flatMap_append, filter_append]
  rfl

theorem emitted_batch {k : String} {msgs : List Bytes}
    (hfits : ∀ data ∈ msgs, (encodeTagged k data).length < 2 ^ 32) (subId : String) :
    emitted [batch k msgs] subId
      = if k = subId then decodeTaggedBatch (batch k msgs) else [] := by
  rw [emitted, flatMap_cons, flatMap_nil, append_nil,
    decodeTaggedBatch_batch k msgs hfits, filter_map]
  by_cases hk : k = subId
  · rw [if_pos hk, List.filter_eq_self.mpr]
    intro data _
    simp [hk]
  · rw [if_neg hk, map_eq_nil_iff, filter_eq_nil_iff]
    intro data _
    simp [hk]

namespace BatchBufferManager

variable {m : BatchBufferManager}

theorem residual_insert (b : BatchBuffer) (k subId : String) :
    residual { buffers := m.buffers.insert k b } subId
      = if subId = k then b.buf else m.residual subId := by
  rw [residual, Map.lookup_insert_ite]
  split <;> rfl

theorem residual_erase (k subId : String) :
    residual { buffers := m.buffers.erase k } subId
      = if subId = k then [] else m.residual subId := by
  rw [residual, Map.lookup_erase_ite]
  split <;> rfl

theorem residual_flushSub (m : BatchBufferManager) (k : String) : (m.flushSub k).1.residual k = [] := by
  rw [flushSub]
  cases hk : m.buffers.lookup k with
  | none => exact congrArg (fun b => (Option.getD b BatchBuffer.new).buf) hk
  | some b =>
    dsimp only
    rw [BatchBuffer.take]
    split
    · next hempty =>
      split at hempty
      · next hb => exact (congrArg (fun b => (Option.getD b BatchBuffer.new).buf) hk).trans hb
      · cases hempty
    · exact (residual_erase k k).trans (if_pos rfl)

/-- Every message has a length that 32 bits hold. -/
def AllFit (k : String) (msgs : List Bytes) : Prop :=
  ∀ data ∈ msgs, (encodeTagged k data).length < 2 ^ 32

theorem AllFit.append {k : String} {xs ys : List Bytes} (hx : AllFit k xs) (hy : AllFit k ys) :
    AllFit k (xs ++ ys) := by
  intro d hd
  rcases List.mem_append.mp hd with hd | hd
  · exact hx d hd
  · exact hy d hd

theorem addMessage_of_split (hm : m.Framed) {k : String} {data : Bytes} {now : ℕ}
    (out : Option (List Bytes)) (rest : List Bytes)
    (hout : ∀ msgs, out = some msgs → AllFit k msgs) (hrest : AllFit k rest)
    (hp : (m.addMessage k data now).2 = out.map (batch k))
    (hb : (m.addMessage k data now).1.residual k = batch k rest) :
    (m.addMessage k data now).1.Framed ∧
    ∀ subId, emitted (m.addMessage k data now).2.toList subId
        ++ decodeTaggedBatch ((m.addMessage k data now).1.residual subId)
      = if k = subId then (out.getD [] ++ rest).map fun d => (k, d)
        else decodeTaggedBatch (m.residual subId) := by
  have hother : ∀ subId, subId ≠ k →
      (m.addMessage k data now).1.residual subId = m.residual subId := by
    intro subId hs
    refine (residual_insert _ k subId).trans ?_
    rw [if_neg hs]
  refine ⟨?_, ?_⟩
  · intro subId
    by_cases hs : subId = k
    · subst hs
      exact ⟨rest, hrest, hb⟩
    · rw [hother subId hs]
      exact hm subId
  · intro subId
    rw [hp]
    by_cases hs : k = subId
    · subst hs
      rw [if_pos rfl, hb, map_append, decodeTaggedBatch_batch k rest hrest]
      cases out with
      | none => rfl
      | some msgs =>
        have hmsgs := hout msgs rfl
        rw [Option.map_some, Option.toList_some, emitted_batch hmsgs, if_pos rfl,
          decodeTaggedBatch_batch k msgs hmsgs, Option.getD_some]
    · rw [if_neg hs, hother subId (Ne.symm hs)]
      cases out with
      | none => rfl
      | some msgs =>
        rw [Option.map_some, Option.toList_some, emitted_batch (hout msgs rfl), if_neg hs,
          nil_append]

/-- `add_message`: everything of every subscription is given out or kept, in
order; or the buffer of the subscription is overrun. -/
theorem addMessage_spec (hm : m.Framed) {k : String} {data : Bytes} (now : ℕ)
    (hfits : (encodeTagged k data).length < 2 ^ 32) :
    (m.addMessage k data now).1.Framed ∧
    ∀ subId, emitted (m.addMessage k data now).2.toList subId
        ++ decodeTaggedBatch ((m.addMessage k data now).1.residual subId)
      = if k = subId then
          if m.residual k ≠ [] ∧ (messageFrame k data).length ≥ batchSizeThreshold then
            [(k, data)]
          else decodeTaggedBatch (m.residual k) ++ [(k, data)]
        else decodeTaggedBatch (m.residual subId) := by
  obtain ⟨msgs, hmsgs, hres⟩ := hm k
  have hone : AllFit k [data] := by
    intro d hd
    rwa [List.mem_singleton.mp hd]
  have hkept : (m.addMessage k data now).1.residual k
      = ((m.buffers.lookup k).getD BatchBuffer.new |>.addFrame (messageFrame k data) now).1.buf :=
    (residual_insert _ k k).trans (if_pos rfl)
  rw [hres, decodeTaggedBatch_batch k msgs hmsgs, ← hres]
  by_cases hover : m.residual k ≠ [] ∧ (messageFrame k data).length ≥ batchSizeThreshold
  · obtain ⟨h1, h2⟩ := BatchBuffer.addFrame_overrun now hover.1 hover.2
    rw [if_pos hover]
    exact addMessage_of_split hm (some [data]) [] (by rintro _ ⟨⟩; exact hone) nofun
      (by rw [Option.map_some, batch_singleton]; exact h1) (hkept.trans h2)
  · rw [if_neg hover]
    rcases BatchBuffer.addFrame_cases now hover with ⟨h1, h2⟩ | ⟨h1, h2⟩ | ⟨h1, h2⟩
    · -- the old batch is returned, the frame starts a new one
      have := addMessage_of_split hm (some msgs) [data] (by rintro _ ⟨⟩; exact hmsgs) hone
        (by rw [Option.map_some, ← hres]; exact h1) (by rw [batch_singleton, hkept]; exact h2)
      simpa using this
    · -- everything is returned
      have := addMessage_of_split hm (some (msgs ++ [data])) []
        (by rintro _ ⟨⟩; exact AllFit.append hmsgs hone) nofun
        (by rw [Option.map_some, batch_append, batch_singleton, ← hres]; exact h1)
        (hkept.trans h2)
      simpa using this
    · -- everything is kept
      have := addMessage_of_split hm none (msgs ++ [data]) nofun (AllFit.append hmsgs hone) h1
        (by rw [batch_append, batch_singleton, ← hres, hkept]; exact h2)
      simpa using this

theorem flushSub_spec (hm : m.Framed) (k : String) :
    (m.flushSub k).1.Framed ∧
    ∀ subId, emitted (m.flushSub k).2.toList subId
        ++ decodeTaggedBatch ((m.flushSub k).1.residual subId)
      = decodeTaggedBatch (m.residual subId) := by
  rcases hk : m.buffers.lookup k with _ | b
  · have hsame : m.flushSub k = (m, none) := by simp [flushSub, hk]
    rw [hsame]
    exact ⟨hm, fun _ => rfl⟩
  by_cases hb : b.buf = []
  · have hsame : m.flushSub k = (m, none) := by simp [flushSub, hk, BatchBuffer.take, hb]
    rw [hsame]
    exact ⟨hm, fun _ => rfl⟩
  · have hflush : m.flushSub k = ({ buffers := m.buffers.erase k }, some b.buf) := by
      simp [flushSub, hk, BatchBuffer.take, hb]
    rw [hflush]
    obtain ⟨msgs, hmsgs, hres⟩ := hm k
    have hbuf : m.residual k = b.buf := by rw [residual, hk, Option.getD_some]
    refine ⟨?_, ?_⟩
    · intro subId
      rw [residual_erase]
      by_cases hs : subId = k
      · rw [if_pos hs]
        exact ⟨[], nofun, rfl⟩
      · rw [if_neg hs]
        exact hm subId
    · intro subId
      rw [residual_erase, ← hbuf, hres, Option.toList_some, emitted_batch hmsgs]
      by_cases hs : k = subId
      · subst hs
        have hempty : decodeTaggedBatch [] = [] := decodeTaggedBatch_batch k [] nofun
        rw [if_pos rfl, if_pos rfl, ← hres, hempty, append_nil]
      · rw [if_neg hs, if_neg (Ne.symm hs), nil_append]

theorem flushSubs_spec (keys : List String) : ∀ {m : BatchBufferManager}, m.Framed →
    (m.flushSubs keys).1.Framed ∧
    ∀ subId, emitted (m.flushSubs keys).2 subId
        ++ decodeTaggedBatch ((m.flushSubs keys).1.residual subId)
      = decodeTaggedBatch (m.residual subId) := by
  induction keys with
  | nil => exact fun hm => ⟨hm, fun _ => rfl⟩
  | cons k rest ih =>
    intro m hm
    obtain ⟨hm', hone⟩ := flushSub_spec hm k
    obtain ⟨hm'', hrest⟩ := ih hm'
    refine ⟨hm'', fun subId => ?_⟩
    show emitted ((m.flushSub k).2.toList ++ ((m.flushSub k).1.flushSubs rest).2) subId
      ++ decodeTaggedBatch (((m.flushSub k).1.flushSubs rest).1.residual subId) = _
    rw [emitted_append, append_assoc, hrest subId, hone subId]

end BatchBufferManager

/-! ### Whole runs -/

namespace BatchRun

variable {r : BatchRun}

theorem init_framed : init.manager.Framed := fun _ => ⟨[], nofun, rfl⟩

theorem init_delivered (subId : String) : init.delivered subId = [] := by
  show [] ++ decodeTaggedBatch (batch subId []) = []
  rw [decodeTaggedBatch_batch subId [] nofun]
  rfl

theorem delivered_of_payloads {m : BatchBufferManager} {payloads : List Bytes} {subId : String} :
    delivered { manager := m, payloads := r.payloads ++ payloads } subId
      = emitted r.payloads subId
        ++ (emitted payloads subId ++ decodeTaggedBatch (m.residual subId)) := by
  rw [← append_assoc, ← emitted_append]
  rfl

/-- A call neither loses, repeats nor reorders messages, unless it is an `Overrun`. -/
theorem step_delivered (hr : r.manager.Framed) {op : BatchOp} (hop : op.Fits) (subId : String) :
    (r.step op).manager.Framed ∧
    (¬ r.Overrun subId op → (r.step op).delivered subId = r.delivered subId ++ op.added subId) ∧
    (r.Overrun subId op →
      ((r.step op).delivered subId).length < (r.delivered subId ++ op.added subId).length) := by
  have hold : r.delivered subId
      = emitted r.payloads subId ++ decodeTaggedBatch (r.manager.residual subId) := rfl
  cases op with
  | addMessage k data now =>
    obtain ⟨hframed, hspec⟩ := BatchBufferManager.addMessage_spec hr now hop
    have hnew : (r.step (.addMessage k data now)).delivered subId = _ :=
      delivered_of_payloads.trans (congrArg _ (hspec subId))
    refine ⟨hframed, ?_, ?_⟩
    · intro hno
      rw [hnew, hold, append_assoc]
      refine congrArg _ ?_
      by_cases hs : k = subId
      · subst hs
        have hno' : ¬ (r.manager.residual k ≠ [] ∧
            (BatchBufferManager.messageFrame k data).length ≥ batchSizeThreshold) :=
          fun h => hno ⟨rfl, h⟩
        simp only [BatchOp.added, if_true, if_neg hno']
      · simp only [BatchOp.added, if_neg hs, append_nil]
    · rintro ⟨rfl, hne, hbig⟩
      obtain ⟨msgs, hmsgs, hres⟩ := hr k
      have hpos : msgs ≠ [] := fun h => hne (by rw [hres, h]; rfl)
      have hlen : 0 < msgs.length := List.length_pos_iff.mpr hpos
      rw [hnew, hold, if_pos rfl, if_pos ⟨hne, hbig⟩, hres, decodeTaggedBatch_batch k msgs hmsgs]
      simp only [BatchOp.added, if_true, length_append, length_map, length_singleton]
      omega
  | flushSub k =>
    obtain ⟨hframed, hspec⟩ := BatchBufferManager.flushSub_spec hr k
    refine ⟨hframed, fun _ => ?_, False.elim⟩
    rw [hold]
    refine (delivered_of_payloads.trans (congrArg _ (hspec subId))).trans ?_
    simp only [BatchOp.added, append_nil]
  | drainTimedOut iter now =>
    obtain ⟨hframed, hspec⟩ := BatchBufferManager.flushSubs_spec
      ((iter.order r.manager.buffers.keys).filter fun subId =>
        (r.manager.buffers.lookup subId).any fun b => b.timedOut now) hr
    refine ⟨hframed, fun _ => ?_, False.elim⟩
    rw [hold]
    refine (delivered_of_payloads.trans (congrArg _ (hspec subId))).trans ?_
    simp only [BatchOp.added, append_nil]

theorem step_delivered_length (hr : r.manager.Framed) {op : BatchOp} (hop : op.Fits)
    (subId : String) :
    ((r.step op).delivered subId).length
      ≤ (r.delivered subId).length + (op.added subId).length := by
  obtain ⟨-, hkeep, hlose⟩ := step_delivered hr hop subId
  by_cases hover : r.Overrun subId op
  · have := hlose hover
    rw [length_append] at this
    omega
  · rw [hkeep hover, length_append]

theorem run_delivered_length (subId : String) (ops : List BatchOp) : ∀ {r : BatchRun},
    r.manager.Framed → (∀ op ∈ ops, op.Fits) →
    ((r.run ops).delivered subId).length
      ≤ (r.delivered subId).length + (ops.flatMap (BatchOp.added subId)).length := by
  induction ops with
  | nil => exact fun _ _ => Nat.le_refl _
  | cons op rest ih =>
    intro r hr hfits
    have hop := hfits op mem_cons_self
    have hstep := step_delivered_length hr hop subId
    have hrest := ih (step_delivered hr hop subId).1 fun o ho =>
      hfits o (mem_cons_of_mem _ ho)
    show (((r.step op).run rest).delivered subId).length ≤ _
    rw [flatMap_cons, length_append]
    omega

/-- From any state: the messages of a subscription go on by those the run adds
exactly when no call overruns its buffer. -/
theorem run_delivered (subId : String) (ops : List BatchOp) : ∀ {r : BatchRun},
    r.manager.Framed → (∀ op ∈ ops, op.Fits) →
    ((r.run ops).delivered subId = r.delivered subId ++ ops.flatMap (BatchOp.added subId) ↔
      NoOverrun subId r ops) := by
  induction ops with
  | nil =>
    intro r _ _
    simp [run, NoOverrun]
  | cons op rest ih =>
    intro r hr hfits
    have hop := hfits op mem_cons_self
    have hfits' : ∀ o ∈ rest, o.Fits := fun o ho => hfits o (mem_cons_of_mem _ ho)
    obtain ⟨hframed, hkeep, hlose⟩ := step_delivered hr hop subId
    show ((r.step op).run rest).delivered subId = _ ↔ ¬ r.Overrun subId op ∧ _
    rw [flatMap_cons, ← append_assoc]
    by_cases hover : r.Overrun subId op
    · -- the loss shows in the number of messages, now and at the end
      have hlen := run_delivered_length subId rest hframed hfits'
      have hlost := hlose hover
      refine iff_of_false (fun heq => ?_) fun h => h.1 hover
      rw [heq, length_append] at hlen
      omega
    · rw [← hkeep hover, ih hframed hfits']
      exact (and_iff_right hover).symm

end BatchRun

/-- **Batching neither loses, repeats nor reorders**, exactly as long as no
message whose frame alone reaches the threshold is added to a buffer that is
not empty. -/
theorem delivered_eq_added_iff (ops : List BatchOp) (hfits : ∀ op ∈ ops, op.Fits)
    (subId : String) :
    (BatchRun.init.run ops).delivered subId = ops.flatMap (BatchOp.added subId) ↔
      BatchRun.NoOverrun subId BatchRun.init ops := by
  have hrun := BatchRun.run_delivered subId ops BatchRun.init_framed hfits
  rwa [BatchRun.init_delivered, nil_append] at hrun

/-- A small message, then one that fills a batch by itself. -/
def smallThenLarge : List BatchOp :=
  [.addMessage "s" [1] 0, .addMessage "s" (List.replicate batchSizeThreshold 0) 0]

theorem smallThenLarge_fits : ∀ op ∈ smallThenLarge, op.Fits := by
  intro op hop
  simp only [smallThenLarge, mem_cons, not_mem_nil, or_false] at hop
  rcases hop with rfl | rfl
  · show (encodeTagged "s" [1]).length < 2 ^ 32
    decide
  · show (encodeTagged "s" (List.replicate batchSizeThreshold 0)).length < 2 ^ 32
    rw [encodeTagged, length_append, length_replicate]
    decide

/-- The small message is never seen again. -/
theorem smallThenLarge_loses :
    (BatchRun.init.run smallThenLarge).delivered "s"
      ≠ smallThenLarge.flatMap (BatchOp.added "s") := by
  have hrun := BatchRun.run_delivered "s" smallThenLarge BatchRun.init_framed smallThenLarge_fits
  rw [BatchRun.init_delivered, nil_append] at hrun
  rw [ne_eq, hrun]
  rintro ⟨-, hno, -⟩
  refine hno ⟨rfl, by decide, ?_⟩
  rw [BatchBufferManager.messageFrame, length_frame, encodeTagged, length_append,
    length_replicate]
  omega

theorem delivered_eq_added_iff_small :
    (BatchRun.init.run [.addMessage "s" [1] 0, .addMessage "s" [2] 1, .flushSub "s"]).delivered "s"
      = [("s", [1]), ("s", [2])] := by
  refine (delivered_eq_added_iff _ ?_ "s").mpr ⟨?_, ?_, fun h => h, trivial⟩
  · intro op hop
    simp only [mem_cons, not_mem_nil, or_false] at hop
    rcases hop with rfl | rfl | rfl
    · show (encodeTagged "s" [1]).length < 2 ^ 32
      decide
    · show (encodeTagged "s" [2]).length < 2 ^ 32
      decide
    · trivial
  · exact fun h => absurd h.2.2 (by decide)
  · exact fun h => absurd h.2.2 (by decide)

end Nipworker
