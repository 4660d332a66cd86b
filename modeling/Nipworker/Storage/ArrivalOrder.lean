/-
One target and the order of arrival.

A deletion should have the same effect before and after its target.  The two
cases run through different code: after the target, a deletion works through
the indexes (`covers`); before it, through the one pending slot of the
target's id and through the recorded address (`addresses`).  The slot belongs
to the newest deletion, whoever signed it, and its author is compared only when
the target arrives; the address is compared as text, for one range of kinds and
for the first `d` tag only.
-/
import Nipworker.Storage.AuthorSafety

namespace Nipworker

open List

/-! ### The condition -/

/-- A kind 5 that names `t` by an `e` tag. -/
def Event.deletesId (del t : Event) : Bool := del.kind = eventDeletion && del.HasTag "e" t.id

/-- All orders of arrival of `evs` agree on `t`: it deletes itself, or nothing
reaches it, or one deletion reaches it from both sides, or its author deletes it
by id and outdates every foreign deletion of that id (unless that one reaches
`t` by address). -/
def OrderStable (evs : List Event) (t : Event) : Prop :=
  (t.kind = eventDeletion ∧ covers t t = true) ∨
  (∀ del ∈ evs, del.kind = eventDeletion → covers del t = false ∧ addresses del t = false) ∨
  (∃ del ∈ evs, del.kind = eventDeletion ∧ covers del t = true ∧ addresses del t = true) ∨
  ((∃ del ∈ evs, del.deletesId t = true ∧ del.pubkey = t.pubkey) ∧
    ∀ h ∈ evs, h.deletesId t = true → h.pubkey ≠ t.pubkey → addresses h t = false →
      ∃ del ∈ evs, del.deletesId t = true ∧ del.pubkey = t.pubkey ∧ h.createdAt < del.createdAt)

instance (evs : List Event) (t : Event) : Decidable (OrderStable evs t) :=
  inferInstanceAs (Decidable (_ ∨ _ ∨ _ ∨ _))

/-! ### One event after another -/

namespace Fate

variable {t ev : Event} {f : Fate}

def event (t : Event) (f : Fate) (ev : Event) : Fate :=
  let f := if ev.id = t.id then arrive t f else f
  if ev.kind = eventDeletion then delete t f ev else f

def events (t : Event) (f : Fate) (evs : List Event) : Fate := evs.foldl (event t) f

theorem events_append (t : Event) (f : Fate) (xs ys : List Event) :
    events t f (xs ++ ys) = events t (events t f xs) ys := by
  rw [events, foldl_append]
  rfl

theorem hidden_event (h : f.hidden = true) : (event t f ev).hidden = true := by
  have harr : (if ev.id = t.id then arrive t f else f).hidden = true := by
    split
    · simp [arrive, h]
    · exact h
  unfold event
  dsimp only
  split
  · simp [delete, harr]
  · exact harr

variable (evs : List Event)

theorem hidden_events : ∀ {f : Fate}, f.hidden = true → (events t f evs).hidden = true := by
  induction evs with
  | nil => exact fun h => h
  | cons ev rest ih => exact fun h => ih (hidden_event h)

theorem arrived_event (h : f.arrived = true) : (event t f ev).arrived = true := by
  have harr : (if ev.id = t.id then arrive t f else f).arrived = true := by
    split
    · rfl
    · exact h
  unfold event
  dsimp only
  split <;> exact harr

theorem addressed_event (h : f.addressed = true) : (event t f ev).addressed = true := by
  have harr : (if ev.id = t.id then arrive t f else f).addressed = true := by
    split <;> exact h
  unfold event
  dsimp only
  split
  · simp [delete, harr]
  · exact harr

theorem hidden_of_covers {del : Event} (hdel : del ∈ evs)
    (hkind : del.kind = eventDeletion) (hc : covers del t = true) :
    ∀ {f : Fate}, f.arrived = true → (events t f evs).hidden = true := by
  induction evs with
  | nil => cases hdel
  | cons ev rest ih =>
    intro f harr
    rcases List.mem_cons.mp hdel with rfl | hdel
    · refine hidden_events rest ?_
      have harr' : (if del.id = t.id then arrive t f else f).arrived = true := by
        split
        · rfl
        · exact harr
      simp [event, hkind, delete, harr', hc]
    · exact ih hdel (arrived_event harr)

theorem addressed_of_addresses {del : Event} (hdel : del ∈ evs)
    (hkind : del.kind = eventDeletion) (ha : addresses del t = true) :
    ∀ {f : Fate}, (events t f evs).addressed = true := by
  have hkeep : ∀ (evs : List Event) {f : Fate}, f.addressed = true →
      (events t f evs).addressed = true := by
    intro evs
    induction evs with
    | nil => exact fun h => h
    | cons ev rest ih => exact fun h => ih (addressed_event h)
  induction evs with
  | nil => cases hdel
  | cons ev rest ih =>
    intro f
    rcases List.mem_cons.mp hdel with rfl | hdel
    · exact hkeep rest (by simp [event, hkind, delete, ha])
    · exact ih hdel

/-! ### Waiting for the target -/

/-- Before the target arrives: nothing is hidden, and the pending slot belongs
to a newest one of the deletions of that id among `seen`. -/
structure Waiting (t : Event) (seen : List Event) (f : Fate) : Prop where
  arrived : f.arrived = false
  hidden : f.hidden = false
  winner : ∀ slot, f.pending = some slot →
    ∃ w ∈ seen, w.deletesId t = true ∧ slot = (w.pubkey, w.createdAt)
  newest : ∀ w ∈ seen, w.deletesId t = true →
    ∃ slot, f.pending = some slot ∧ w.createdAt ≤ slot.2

theorem Waiting.init : Waiting t [] Fate.init := ⟨rfl, rfl, nofun, nofun⟩

theorem Waiting.event {seen : List Event} (h : Waiting t seen f) (hid : ev.id ≠ t.id) :
    Waiting t (ev :: seen) (event t f ev) := by
  unfold Fate.event
  rw [if_neg hid]
  dsimp only
  by_cases hdel : ev.deletesId t = true
  · -- the event competes for the slot
    have hd := hdel
    rw [Event.deletesId, Bool.and_eq_true, decide_eq_true_eq, decide_eq_true_eq] at hd
    have hpend : (Fate.delete t f ev).pending = bump f.pending ev.pubkey ev.createdAt := by
      simp [Fate.delete, h.arrived, hd.2]
    rw [if_pos hd.1]
    refine ⟨h.arrived, by simp [Fate.delete, h.hidden, h.arrived], ?_, ?_⟩
    · intro slot hslot
      rw [hpend] at hslot
      have hown : ∃ w ∈ ev :: seen, w.deletesId t = true ∧
          (ev.pubkey, ev.createdAt) = (w.pubkey, w.createdAt) :=
        ⟨ev, mem_cons_self, hdel, rfl⟩
      rcases hp : f.pending with _ | old <;> rw [hp] at hslot
      · cases hslot
        exact hown
      · simp only [bump] at hslot
        split at hslot <;> cases hslot
        · exact hown
        · obtain ⟨w, hw, hwd, hwe⟩ := h.winner old hp
          exact ⟨w, mem_cons_of_mem _ hw, hwd, hwe⟩
    · intro w hw hwd
      rw [hpend]
      have hseen : w ∈ seen → ∃ slot, f.pending = some slot ∧ w.createdAt ≤ slot.2 :=
        fun hw => h.newest w hw hwd
      rcases hp : f.pending with _ | old
      · rw [hp] at hseen
        rcases List.mem_cons.mp hw with rfl | hw
        · exact ⟨_, rfl, le_refl _⟩
        · obtain ⟨slot, hslot, -⟩ := hseen hw
          cases hslot
      · rw [hp] at hseen
        simp only [bump]
        rcases List.mem_cons.mp hw with rfl | hw
        · split
          · exact ⟨_, rfl, le_refl _⟩
          · next hle => exact ⟨old, rfl, Nat.le_of_not_lt hle⟩
        · obtain ⟨slot, hslot, hle⟩ := hseen hw
          cases hslot
          split
          · next hlt => exact ⟨_, rfl, hle.trans hlt.le⟩
          · exact ⟨old, rfl, hle⟩
  · have hkeep : Waiting t (ev :: seen) f := by
      refine ⟨h.arrived, h.hidden, ?_, ?_⟩
      · intro slot hslot
        obtain ⟨w, hw, hwd, hwe⟩ := h.winner slot hslot
        exact ⟨w, mem_cons_of_mem _ hw, hwd, hwe⟩
      · intro w hw hwd
        rcases List.mem_cons.mp hw with rfl | hw
        · exact absurd hwd hdel
        · exact h.newest w hw hwd
    split
    · next hkind =>
      have hno : ¬ ev.HasTag "e" t.id := by
        intro he
        exact hdel (by simp [Event.deletesId, hkind, he])
      have hpend : (Fate.delete t f ev).pending = f.pending := by
        simp [Fate.delete, hno]
      refine ⟨hkeep.arrived, by simp [Fate.delete, h.hidden, h.arrived], ?_, ?_⟩
      · rw [hpend]
        exact hkeep.winner
      · rw [hpend]
        exact hkeep.newest
    · exact hkeep

theorem Waiting.events : ∀ {seen : List Event} {f : Fate},
    Waiting t seen f → (∀ ev ∈ evs, ev.id ≠ t.id) →
      Waiting t (evs.reverse ++ seen) (events t f evs) := by
  induction evs with
  | nil => exact fun h _ => h
  | cons ev rest ih =>
    intro seen f h hid
    have hstep := h.event (hid ev mem_cons_self)
    have hrest := ih hstep fun x hx => hid x (mem_cons_of_mem _ hx)
    rw [reverse_cons, append_assoc]
    exact hrest

theorem arrived_target : (event t f t).arrived = true := by
  unfold event
  rw [if_pos rfl]
  dsimp only
  split <;> rfl

theorem hidden_target (h : (arrive t f).hidden = true) : (event t f t).hidden = true := by
  unfold event
  rw [if_pos rfl]
  dsimp only
  split
  · simp [delete, h]
  · exact h

end Fate

/-! ### When a target is hidden in every order -/

variable {t : Event} {pre post : List Event}

theorem hidden_of_covers_after (pre : List Event) {del : Event} (hdel : del ∈ t :: post)
    (hkind : del.kind = eventDeletion) (hc : covers del t = true) :
    (Fate.events t Fate.init (pre ++ t :: post)).hidden = true := by
  rw [Fate.events_append]
  rcases List.mem_cons.mp hdel with rfl | hdel
  · refine Fate.hidden_events post ?_
    simp [Fate.event, hkind, Fate.delete, Fate.arrive, hc]
  · exact Fate.hidden_of_covers post hdel hkind hc Fate.arrived_target

theorem hidden_of_addresses_before {del : Event} (hdel : del ∈ pre)
    (hkind : del.kind = eventDeletion) (ha : addresses del t = true) :
    (Fate.events t Fate.init (pre ++ t :: post)).hidden = true := by
  rw [Fate.events_append]
  refine Fate.hidden_events post (Fate.hidden_target ?_)
  simp [Fate.arrive, Fate.addressed_of_addresses pre hdel hkind ha]

theorem covers_of_deletesId {del : Event} (h : del.deletesId t = true)
    (hpk : del.pubkey = t.pubkey) : del.kind = eventDeletion ∧ covers del t = true := by
  rw [Event.deletesId, Bool.and_eq_true, decide_eq_true_eq, decide_eq_true_eq] at h
  exact ⟨h.1, by simp [covers, hpk, h.2]⟩

theorem hidden_of_outdates (hpre : ∀ ev ∈ pre, ev.id ≠ t.id)
    (hgen : ∃ del ∈ pre ++ t :: post, del.deletesId t = true ∧ del.pubkey = t.pubkey)
    (hforeign : ∀ h ∈ pre ++ t :: post, h.deletesId t = true → h.pubkey ≠ t.pubkey →
      addresses h t = false → ∃ del ∈ pre ++ t :: post, del.deletesId t = true ∧
        del.pubkey = t.pubkey ∧ h.createdAt < del.createdAt) :
    (Fate.events t Fate.init (pre ++ t :: post)).hidden = true := by
  -- a deletion by the author at or after the arrival settles it
  by_cases hafter : ∃ del ∈ t :: post, del.deletesId t = true ∧ del.pubkey = t.pubkey
  · obtain ⟨del, hdel, hd, hpk⟩ := hafter
    obtain ⟨hkind, hc⟩ := covers_of_deletesId hd hpk
    exact hidden_of_covers_after pre hdel hkind hc
  have hbefore : ∀ del ∈ pre ++ t :: post, del.deletesId t = true → del.pubkey = t.pubkey →
      del ∈ pre := by
    intro del hdel hd hpk
    rcases List.mem_append.mp hdel with hdel | hdel
    · exact hdel
    · exact absurd ⟨del, hdel, hd, hpk⟩ hafter
  by_cases haddr : ∃ h ∈ pre, h.kind = eventDeletion ∧ addresses h t = true
  · obtain ⟨h, hh, hkind, ha⟩ := haddr
    exact hidden_of_addresses_before hh hkind ha
  -- otherwise the slot decides, and the newest deletion is by the author
  have hwait := (Fate.Waiting.init (t := t)).events pre hpre
  rw [append_nil] at hwait
  obtain ⟨del, hdel, hd, hpk⟩ := hgen
  obtain ⟨slot, hslot, -⟩ := hwait.newest del
    (List.mem_reverse.mpr (hbefore del hdel hd hpk)) hd
  obtain ⟨w, hw, hwd, rfl⟩ := hwait.winner slot hslot
  have hw' : w ∈ pre := List.mem_reverse.mp hw
  have hauthor : w.pubkey = t.pubkey := by
    by_contra hne
    have hna : addresses w t = false := by
      by_contra ha
      have hkind : w.kind = eventDeletion := by
        rw [Event.deletesId, Bool.and_eq_true, decide_eq_true_eq] at hwd
        exact hwd.1
      exact haddr ⟨w, hw', hkind, Bool.not_eq_false _ ▸ ha⟩
    obtain ⟨del', hdel', hd', hpk', hlt⟩ :=
      hforeign w (mem_append_left _ hw') hwd hne hna
    obtain ⟨slot', hslot', hle⟩ := hwait.newest del'
      (List.mem_reverse.mpr (hbefore del' hdel' hd' hpk')) hd'
    rw [hslot] at hslot'
    cases hslot'
    exact absurd hlt (Nat.not_lt.mpr hle)
  rw [Fate.events_append]
  refine Fate.hidden_events post (Fate.hidden_target ?_)
  simp [Fate.arrive, hslot, hauthor]

end Nipworker
