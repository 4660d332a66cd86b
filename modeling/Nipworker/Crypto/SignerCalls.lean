/-
The calls of a signer client are matched, and when they are abandoned.

A number that is pending is that of a call that still waits or whose caller has gone away, and a
call that waits is pending: so the calls that wait when the listener ends are those that are
pending then.
-/
import Nipworker.Crypto.CryptoClient

namespace Nipworker

open List Option

namespace CryptoClient

/-! ### The calls and the numbers -/

/-- What every run keeps: the numbers that are pending are those of calls that wait or whose caller
has gone away, a call that waits is pending, and a call that was resolved is neither. -/
structure Linked (st : State) : Prop where
  pendingCall : ∀ requestId c, st.pending.lookup requestId = some c →
    ∃ call, st.calls[c]? = some call ∧ call.requestId = requestId ∧
      (call.outcome = .waiting ∨ call.outcome = .dropped)
  waitingPending : ∀ c call, st.calls[c]? = some call → call.outcome = .waiting →
    st.pending.lookup call.requestId = some c
  resolvedCall : ∀ c requestId, (c, requestId) ∈ st.resolutions →
    ∃ call result, st.calls[c]? = some call ∧ call.requestId = requestId ∧
      call.outcome = .resolved result
  once : (st.resolutions.map Prod.fst).Nodup

theorem linked_start : Linked start :=
  ⟨by simp [start], by simp [start], by simp [start], by simp [start]⟩

theorem abandoned_of_ne {call : Call} (h : call.outcome ≠ .waiting) : call.abandoned = call := by
  rw [Call.abandoned]
  split
  · contradiction
  · rfl

theorem abandoned_not_waiting (call : Call) : call.abandoned.outcome ≠ .waiting := by
  rw [Call.abandoned]
  split
  · simp
  · assumption

theorem getElem?_abandon (calls : List Call) (old : Option ℕ) (c : ℕ) :
    (abandon calls old)[c]? =
      calls[c]?.map fun call => if old = some c then call.abandoned else call := by
  cases old with
  | none => simp [abandon]
  | some d =>
    rw [abandon, List.getElem?_modify]
    simp only [some.injEq]
    rfl

theorem length_abandon (calls : List Call) (old : Option ℕ) :
    (abandon calls old).length = calls.length := by
  cases old with
  | none => rfl
  | some d => exact length_modify ..

theorem getElem?_added {calls : List Call} {old : Option ℕ} {new : Call} {c : ℕ} {call : Call} :
    (abandon calls old ++ [new])[c]? = some call ↔
      (∃ call₀, calls[c]? = some call₀ ∧
        call = if old = some c then call₀.abandoned else call₀) ∨
      (c = calls.length ∧ call = new) := by
  rcases lt_trichotomy c calls.length with hlt | rfl | hgt
  · rw [List.getElem?_append_left (by rw [length_abandon]; exact hlt), getElem?_abandon]
    simp only [map_eq_some_iff]
    constructor
    · rintro ⟨call₀, h₀, rfl⟩
      exact .inl ⟨call₀, h₀, rfl⟩
    · rintro (⟨call₀, h₀, rfl⟩ | ⟨rfl, -⟩)
      · exact ⟨call₀, h₀, rfl⟩
      · omega
  · rw [List.getElem?_append_right (by rw [length_abandon]), length_abandon, Nat.sub_self]
    simp only [List.getElem?_eq_none le_rfl, List.getElem?_cons_zero, some.injEq, reduceCtorEq,
      false_and, exists_false, true_and, false_or]
    exact eq_comm
  · rw [List.getElem?_eq_none (by simp [length_abandon]; omega), List.getElem?_eq_none (by omega)]
    simp
    omega

variable {st : State}

theorem linked_call (h : Linked st) (op : SignerOp)
    (payload pubkey sender recipient : String) (sent : Except ChannelError Unit) :
    Linked (call st op payload pubkey sender recipient sent) := by
  have hfresh : st.calls[st.calls.length]? = none := List.getElem?_eq_none le_rfl
  -- a resolved call is not touched by the overwriting
  have hresolved : ∀ new : Call, ∀ c requestId, (c, requestId) ∈ st.resolutions →
      ∃ call result, (abandon st.calls (st.pending.lookup st.nextRequestId) ++ [new])[c]? = some call ∧
        call.requestId = requestId ∧ call.outcome = .resolved result := by
    intro new c requestId hmem
    obtain ⟨call, result, hcall, hid, hout⟩ := h.resolvedCall c requestId hmem
    refine ⟨call, result, getElem?_added.mpr (.inl ⟨call, hcall, ?_⟩), hid, hout⟩
    split
    · exact (abandoned_of_ne (by rw [hout]; simp)).symm
    · rfl
  -- an old call that waits has another number than the new one
  have hwaiting : ∀ c call₀ call', st.calls[c]? = some call₀ →
      (call' = if st.pending.lookup st.nextRequestId = some c then call₀.abandoned else call₀) →
      call'.outcome = .waiting →
      call'.requestId ≠ st.nextRequestId ∧ st.pending.lookup call'.requestId = some c := by
    intro c call₀ call' h₀ hcall' hout
    by_cases hold : st.pending.lookup st.nextRequestId = some c
    · rw [if_pos hold] at hcall'
      rw [hcall'] at hout
      exact absurd hout (abandoned_not_waiting call₀)
    · rw [if_neg hold] at hcall'
      subst hcall'
      have hlook := h.waitingPending c call' h₀ hout
      exact ⟨fun heq => hold (heq ▸ hlook), hlook⟩
  -- an entry under another number is that of a call that is not touched
  have hpending : ∀ requestId c, requestId ≠ st.nextRequestId →
      st.pending.lookup requestId = some c →
      ∃ call₀, st.calls[c]? = some call₀ ∧
        (call₀ = if st.pending.lookup st.nextRequestId = some c then call₀.abandoned else call₀) ∧
        call₀.requestId = requestId ∧ (call₀.outcome = .waiting ∨ call₀.outcome = .dropped) := by
    intro requestId c hne hlook
    obtain ⟨call₀, h₀, hid, hout⟩ := h.pendingCall requestId c hlook
    refine ⟨call₀, h₀, ?_, hid, hout⟩
    split
    · rename_i hold
      -- the entry under the new number names a call with that number
      obtain ⟨call₁, h₁, hid₁, -⟩ := h.pendingCall _ c hold
      rw [h₀] at h₁
      rw [some.inj h₁] at hid
      exact absurd (hid.symm.trans hid₁) hne
    · rfl
  cases sent with
  | ok u =>
    refine ⟨?_, ?_, hresolved _, h.once⟩
    · intro requestId c hlook
      change AList.lookup requestId (AList.insert st.nextRequestId st.calls.length st.pending)
        = some c at hlook
      obtain ⟨heq, hlast⟩ | ⟨heq, hlook⟩ := Map.lookup_insert_eq_some.mp hlook
      · exact ⟨⟨st.nextRequestId, .waiting⟩, getElem?_added.mpr (.inr ⟨hlast.symm, rfl⟩), heq.symm,
          .inl rfl⟩
      · obtain ⟨call₀, h₀, hsame, hid, hout⟩ := hpending requestId c heq hlook
        exact ⟨call₀, getElem?_added.mpr (.inl ⟨call₀, h₀, hsame⟩), hid, hout⟩
    · intro c call' hcall' hout
      show AList.lookup call'.requestId (AList.insert st.nextRequestId st.calls.length st.pending)
        = some c
      rw [Map.lookup_insert_ite]
      rcases getElem?_added.mp hcall' with ⟨call₀, h₀, hsame⟩ | ⟨hc, hnew⟩
      · obtain ⟨hne, hlook⟩ := hwaiting c call₀ call' h₀ hsame hout
        rw [if_neg hne]
        exact hlook
      · rw [hnew, if_pos rfl, hc]
  | error e =>
    refine ⟨?_, ?_, hresolved _, h.once⟩
    · intro requestId c hlook
      change AList.lookup requestId (AList.erase st.nextRequestId
        (AList.insert st.nextRequestId st.calls.length st.pending)) = some c at hlook
      rw [Map.lookup_erase_ite, Map.lookup_insert_ite] at hlook
      by_cases heq : requestId = st.nextRequestId
      · rw [if_pos heq] at hlook
        exact absurd hlook (by simp)
      · rw [if_neg heq, if_neg heq] at hlook
        obtain ⟨call₀, h₀, hsame, hid, hout⟩ := hpending requestId c heq hlook
        exact ⟨call₀, getElem?_added.mpr (.inl ⟨call₀, h₀, hsame⟩), hid, hout⟩
    · intro c call' hcall' hout
      show AList.lookup call'.requestId (AList.erase st.nextRequestId
        (AList.insert st.nextRequestId st.calls.length st.pending)) = some c
      rw [Map.lookup_erase_ite, Map.lookup_insert_ite]
      rcases getElem?_added.mp hcall' with ⟨call₀, h₀, hsame⟩ | ⟨-, hnew⟩
      · obtain ⟨hne, hlook⟩ := hwaiting c call₀ call' h₀ hsame hout
        rw [if_neg hne, if_neg hne]
        exact hlook
      · rw [hnew] at hout
        exact absurd hout (by simp)

theorem getElem?_setOutcome (st : State) (c d : ℕ) (outcome : Outcome) :
    (st.setOutcome c outcome).calls[d]? =
      st.calls[d]?.map fun call => if c = d then { call with outcome := outcome } else call :=
  List.getElem?_modify ..

theorem linked_dropCall (h : Linked st) (c : ℕ) : Linked (dropCall st c) := by
  rw [dropCall]
  split
  · rename_i requestId hc
    refine ⟨?_, ?_, ?_, h.once⟩
    · intro id d hlook
      obtain ⟨call, hcall, hid, hout⟩ := h.pendingCall id d hlook
      by_cases hd : c = d
      · refine ⟨{ call with outcome := .dropped }, ?_, hid, .inr rfl⟩
        rw [getElem?_setOutcome, hcall, map_some, if_pos hd]
      · refine ⟨call, ?_, hid, hout⟩
        rw [getElem?_setOutcome, hcall, map_some, if_neg hd]
    · intro d call hcall hout
      rw [getElem?_setOutcome, map_eq_some_iff] at hcall
      obtain ⟨call₀, h₀, rfl⟩ := hcall
      by_cases hd : c = d
      · rw [if_pos hd] at hout
        exact absurd hout (by simp)
      · rw [if_neg hd] at hout ⊢
        exact h.waitingPending d call₀ h₀ hout
    · intro d id hmem
      obtain ⟨call, result, hcall, hid, hout⟩ := h.resolvedCall d id hmem
      refine ⟨call, result, ?_, hid, hout⟩
      rw [getElem?_setOutcome, hcall, map_some, if_neg]
      -- the call that goes away was waiting
      rintro rfl
      rw [hc] at hcall
      rw [← some.inj hcall] at hout
      exact absurd hout (by simp)
  · exact h

theorem linked_listen (h : Linked st) (bytes : Except String SignerResponse) :
    Linked (listen st bytes) := by
  cases bytes with
  | error e => exact h
  | ok resp =>
    rw [listen]
    split
    · rename_i c hlook
      obtain ⟨call, hcall, hid, hout⟩ := h.pendingCall _ c hlook
      -- without the entry, all is as before but for the call itself
      have hothers : ∀ id d, AList.lookup id (AList.erase resp.requestId st.pending) = some d →
          d ≠ c ∧ st.pending.lookup id = some d := by
        intro id d hd
        obtain ⟨heq, hd⟩ := Map.lookup_erase_eq_some.mp hd
        refine ⟨?_, hd⟩
        rintro rfl
        obtain ⟨call₁, h₁, hid₁, -⟩ := h.pendingCall id d hd
        rw [hcall] at h₁
        rw [← some.inj h₁, hid] at hid₁
        exact heq hid₁.symm
      have hwaits : ∀ d call', st.calls[d]? = some call' → d ≠ c → call'.outcome = .waiting →
          AList.lookup call'.requestId (AList.erase resp.requestId st.pending) = some d := by
        intro d call' hd hne hw
        have hlook' := h.waitingPending d call' hd hw
        rw [Map.lookup_erase_ite, if_neg]
        · exact hlook'
        · intro heq
          rw [heq, hlook] at hlook'
          exact hne (some.inj hlook').symm
      rw [send]
      split
      · -- the caller has gone away: nobody is answered
        rename_i requestId hdropped
        refine ⟨?_, ?_, h.resolvedCall, h.once⟩
        · intro id d hd
          exact h.pendingCall id d (hothers id d hd).2
        · intro d call' hd hw
          refine hwaits d call' hd ?_ hw
          rintro rfl
          change st.calls[d]? = _ at hdropped
          rw [show st.calls[d]? = some call' from hd] at hdropped
          rw [some.inj hdropped] at hw
          exact absurd hw (by simp)
      · rename_i hnotDropped
        have hwaiting : call.outcome = .waiting := by
          refine hout.resolve_right fun hdrop => hnotDropped call.requestId ?_
          show st.calls[c]? = _
          rw [hcall, ← hdrop]
        refine ⟨?_, ?_, ?_, ?_⟩
        · intro id d hd
          obtain ⟨hne, hd'⟩ := hothers id d hd
          obtain ⟨call', h', hid', hout'⟩ := h.pendingCall id d hd'
          refine ⟨call', ?_, hid', hout'⟩
          show (State.setOutcome _ c _).calls[d]? = _
          rw [getElem?_setOutcome, h', map_some, if_neg (Ne.symm hne)]
        · intro d call' hd hw
          change (State.setOutcome _ c _).calls[d]? = _ at hd
          rw [getElem?_setOutcome, map_eq_some_iff] at hd
          obtain ⟨call₀, h₀, rfl⟩ := hd
          by_cases hcd : c = d
          · rw [if_pos hcd] at hw
            exact absurd hw (by simp)
          · rw [if_neg hcd] at hw ⊢
            exact hwaits d call₀ h₀ (Ne.symm hcd) hw
        · intro d id hmem
          rcases List.mem_append.mp hmem with hold | hnew
          · obtain ⟨call', result, h', hid', hout'⟩ := h.resolvedCall d id hold
            refine ⟨call', result, ?_, hid', hout'⟩
            show (State.setOutcome _ c _).calls[d]? = _
            rw [getElem?_setOutcome, h', map_some, if_neg]
            rintro rfl
            rw [hcall] at h'
            rw [← some.inj h', hwaiting] at hout'
            exact absurd hout' (by simp)
          · obtain ⟨rfl, rfl⟩ := Prod.mk.inj (List.mem_singleton.mp hnew)
            refine ⟨{ call with outcome := .resolved (responseResult resp) }, _, ?_, hid, rfl⟩
            show (State.setOutcome _ d _).calls[d]? = _
            rw [getElem?_setOutcome, hcall, map_some, if_pos rfl]
        · show ((st.resolutions ++ [(c, resp.requestId)]).map Prod.fst).Nodup
          rw [map_append, nodup_append_comm]
          refine List.nodup_cons.mpr ⟨?_, h.once⟩
          -- a call that was resolved before does not wait
          intro hmem
          obtain ⟨⟨d, id⟩, hmem', hd⟩ := List.mem_map.mp hmem
          change d = c at hd
          subst hd
          obtain ⟨call', result, h', -, hout'⟩ := h.resolvedCall d id hmem'
          rw [hcall] at h'
          rw [← some.inj h', hwaiting] at hout'
          exact absurd hout' (by simp)
    · exact h

theorem Linked.of_eq {st' : State} (h : Linked st) (hcalls : st'.calls = st.calls)
    (hpending : st'.pending = st.pending) (hres : st'.resolutions = st.resolutions) :
    Linked st' := by
  refine ⟨?_, ?_, ?_, ?_⟩
  · rw [hcalls, hpending]
    exact h.pendingCall
  · rw [hcalls, hpending]
    exact h.waitingPending
  · rw [hcalls, hres]
    exact h.resolvedCall
  · rw [hres]
    exact h.once

theorem linked_step (h : Linked st) (act : Act) : Linked (step st act) := by
  cases act with
  | call op payload pubkey sender recipient sent =>
    exact linked_call h op payload pubkey sender recipient sent
  | dropCall c => exact linked_dropCall h c
  | serve signer =>
    rw [step]
    split
    · exact h.of_eq rfl rfl rfl
    · exact h
  | serverClosed => exact h.of_eq rfl rfl rfl
  | strayRequest bytes => exact h.of_eq rfl rfl rfl
  | strayResponse bytes => exact h.of_eq rfl rfl rfl
  | receive =>
    rw [step]
    split
    · rename_i bytes rest _ _
      have htaken : Linked { st with toClient := rest } := h.of_eq rfl rfl rfl
      exact linked_listen htaken bytes
    · exact h
  | receiveClosed e => exact h.of_eq rfl rfl rfl

/-! ### No call is left waiting -/

theorem not_waiting (h : Linked st) (hempty : ∀ requestId, st.pending.lookup requestId = none) :
    ∀ call ∈ st.calls, call.outcome ≠ .waiting := by
  intro call hmem hwaiting
  obtain ⟨c, hc⟩ := mem_iff_getElem?.mp hmem
  have hlook := h.waitingPending c call hc hwaiting
  rw [hempty] at hlook
  exact absurd hlook (by simp)

theorem settled_iff (h : Linked st) :
    Settled st ↔
      (st.listening = false → ∀ requestId, st.pending.lookup requestId = none) := by
  constructor
  · intro hs hl
    exact (hs.answered hl).1
  · intro hempty
    refine ⟨?_, h.once, fun hl => ⟨hempty hl, not_waiting h (hempty hl)⟩⟩
    intro c requestId hmem
    obtain ⟨call, -, hcall, hid, -⟩ := h.resolvedCall c requestId hmem
    exact ⟨call, hcall, hid⟩

/-- A step from a settled state leads to one exactly if it is attended. -/
theorem settled_step (h : Linked st) (hs : Settled st) (act : Act) :
    Settled (step st act) ↔ Attended st act := by
  rw [settled_iff (linked_step h act)]
  rw [settled_iff h] at hs
  cases act with
  | call op payload pubkey sender recipient sent =>
    cases sent with
    | ok u =>
      -- the new call is pending
      constructor
      · intro hempty hl
        have hnew : AList.lookup st.nextRequestId
            (AList.insert st.nextRequestId st.calls.length st.pending) = none :=
          hempty hl st.nextRequestId
        rw [AList.lookup_insert] at hnew
        exact absurd hnew (by simp)
      · intro hatt hl
        obtain ⟨e, he⟩ := hatt hl
        exact absurd he (by simp)
    | error e =>
      refine ⟨fun _ _ => ⟨e, rfl⟩, fun _ hl requestId => ?_⟩
      show AList.lookup requestId (AList.erase st.nextRequestId
        (AList.insert st.nextRequestId st.calls.length st.pending)) = none
      rw [Map.lookup_erase_ite, Map.lookup_insert_ite]
      split
      · rfl
      · exact hs hl requestId
  | dropCall c =>
    refine iff_of_true ?_ trivial
    rw [step, dropCall]
    split
    · exact hs
    · exact hs
  | serve signer =>
    refine iff_of_true ?_ trivial
    rw [step]
    split
    · exact hs
    · exact hs
  | serverClosed => exact iff_of_true hs trivial
  | strayRequest bytes => exact iff_of_true hs trivial
  | strayResponse bytes => exact iff_of_true hs trivial
  | receive =>
    refine iff_of_true ?_ trivial
    rw [step]
    split
    · -- the listener has not ended
      rename_i bytes rest hl _
      intro hl'
      have hsame : (listen { st with toClient := rest } bytes).listening = st.listening := by
        cases bytes with
        | error e => rfl
        | ok resp =>
          rw [listen]
          split
          · rw [send]
            split
            · rfl
            · rfl
          · rfl
      rw [hsame, hl] at hl'
      exact absurd hl' (by simp)
    · exact hs
  | receiveClosed e =>
    constructor
    · intro hempty _
      exact hempty rfl
    · intro hatt _ requestId
      cases hl : st.listening with
      | true => exact hatt hl requestId
      | false => exact hs hl requestId

theorem settled_start : Settled start := (settled_iff linked_start).mpr fun h => absurd h (by decide)

theorem settled_exec (h : Linked st) (hs : Settled st) (acts : List Act) :
    (∀ before, before <+: acts → Settled (Run.exec step st before)) ↔
      Run.Along step Attended st acts := by
  induction acts generalizing st with
  | nil =>
    refine iff_of_true ?_ trivial
    intro before hbefore
    rw [List.prefix_nil.mp hbefore]
    exact hs
  | cons act acts ih =>
    constructor
    · intro hall
      have hstep : Settled (step st act) := hall [act] ⟨acts, rfl⟩
      refine ⟨(settled_step h hs act).mp hstep, (ih (linked_step h act) hstep).mp ?_⟩
      intro before hbefore
      exact hall (act :: before) ((prefix_cons_inj act).mpr hbefore)
    · rintro ⟨hatt, hrest⟩ before hbefore
      have hstep := (settled_step h hs act).mpr hatt
      cases before with
      | nil => exact hs
      | cons b before =>
        obtain ⟨rfl, hbefore'⟩ := List.cons_prefix_cons.mp hbefore
        exact (ih (linked_step h b) hstep).mpr hrest before hbefore'

end CryptoClient

/-- **Signer calls are matched and never abandoned.**  Every state of a run is settled if and only
if, at every step, the channel of the listener ends while no call is pending, and once it has ended
no request can be sent. -/
theorem signer_calls_settled_iff (acts : List CryptoClient.Act) :
    (∀ before, before <+: acts →
        CryptoClient.Settled (Run.exec CryptoClient.step CryptoClient.start before)) ↔
      Run.Along CryptoClient.step CryptoClient.Attended CryptoClient.start acts :=
  CryptoClient.settled_exec CryptoClient.linked_start CryptoClient.settled_start acts

/-- The crypto worker ends while a call waits: the listener ends too, and the call waits for
ever. -/
theorem abandoned_call :
    ¬ CryptoClient.Settled (Run.exec CryptoClient.step CryptoClient.start
      [.call .getPubkey "" "" "" "" (.ok ()), .serverClosed, .receiveClosed .channelClosed]) := by
  intro h
  exact (h.answered rfl).2 ⟨1, .waiting⟩ (mem_singleton_self _) rfl

end Nipworker
