/-
How far NIP-09 suppression depends on the order of arrival.
-/
import Nipworker.Storage.ArrivalOrder

namespace Nipworker

open List

variable {t : Event} {evs : List Event}

/-! ### An order that spares the target -/

/-- Before the target: the given slot is held and nothing else is recorded. -/
def Fate.Held (slot : Option (String × ℕ)) (f : Fate) : Prop :=
  f.arrived = false ∧ f.hidden = false ∧ f.addressed = false ∧ f.pending = slot

theorem Fate.Held.events {slot : Option (String × ℕ)} (xs : List Event) :
    ∀ {f : Fate}, Fate.Held slot f →
    (∀ ev ∈ xs, ev.id ≠ t.id ∧ (ev.kind = eventDeletion → addresses ev t = false ∧
      (ev.HasTag "e" t.id → bump slot ev.pubkey ev.createdAt = slot))) →
    Fate.Held slot (Fate.events t f xs) := by
  induction xs with
  | nil => exact fun h _ => h
  | cons ev rest ih =>
    intro f h hev
    refine ih ?_ fun x hx => hev x (mem_cons_of_mem _ hx)
    obtain ⟨hid, hdel⟩ := hev ev mem_cons_self
    obtain ⟨h1, h2, h3, h4⟩ := h
    unfold Fate.event
    rw [if_neg hid]
    dsimp only
    split
    · next hkind =>
      obtain ⟨ha, hb⟩ := hdel hkind
      refine ⟨h1, by simp [Fate.delete, h1, h2], by simp [Fate.delete, h3, ha], ?_⟩
      by_cases he : ev.HasTag "e" t.id
      · simp [Fate.delete, h1, he, h4, hb he]
      · simp [Fate.delete, he, h4]
    · exact ⟨h1, h2, h3, h4⟩

theorem Fate.spared_replicate {slot : Option (String × ℕ)}
    (hslot : slot.any (fun s => s.1 = t.pubkey) = false)
    (hself : ¬ (t.kind = eventDeletion ∧ covers t t = true)) (n : ℕ) :
    ∀ {f : Fate}, f.hidden = false → f.addressed = false → f.pending = slot →
      (Fate.events t f (List.replicate n t)).hidden = false := by
  induction n with
  | zero => exact fun h _ _ => h
  | succ n ih =>
    intro f h2 h3 h4
    have harr : (Fate.arrive t f).hidden = false := by
      simp only [Fate.arrive, h2, h3, h4, hslot, Bool.or_false]
    rw [replicate_succ]
    unfold Fate.events
    rw [foldl_cons]
    by_cases hkind : t.kind = eventDeletion
    · have hc : covers t t = false := by
        by_contra hc
        exact hself ⟨hkind, Bool.not_eq_false _ ▸ hc⟩
      have ha : addresses t t = false := by
        have : isAddressable t.kind = false := by
          rw [hkind]
          decide
        simp [addresses, this]
      have hev : Fate.event t f t = Fate.delete t (Fate.arrive t f) t := by
        simp [Fate.event, hkind]
      refine ih ?_ ?_ ?_
      · simp [hev, Fate.delete, harr, hc]
      · simp [hev, Fate.delete, Fate.arrive, h3, ha]
      · simp [hev, Fate.delete, Fate.arrive, h4]
    · have hev : Fate.event t f t = Fate.arrive t f := by
        simp [Fate.event, hkind]
      refine ih ?_ ?_ ?_
      · rw [hev, harr]
      · rw [hev]
        exact h3
      · rw [hev]
        exact h4

theorem Fate.spared_events (xs : List Event) : ∀ {f : Fate}, f.hidden = false →
    (∀ ev ∈ xs, ev.id ≠ t.id ∧ (ev.kind = eventDeletion → covers ev t = false)) →
    (Fate.events t f xs).hidden = false := by
  induction xs with
  | nil => exact fun h _ => h
  | cons ev rest ih =>
    intro f h hev
    refine ih ?_ fun x hx => hev x (mem_cons_of_mem _ hx)
    obtain ⟨hid, hdel⟩ := hev ev mem_cons_self
    unfold Fate.event
    rw [if_neg hid]
    dsimp only
    split
    · next hkind => simp [Fate.delete, h, hdel hkind]
    · exact h

/-- The events with `p` in front, then the other deletions that cover the
target, then the target, then the rest. -/
def spareOrder (p : Event → Bool) (t : Event) (evs : List Event) : List Event :=
  let others := evs.filter fun ev => !p ev
  let others' := others.filter fun ev => !(covers ev t && ev ≠ t)
  evs.filter p ++ (others.filter (fun ev => covers ev t && ev ≠ t) ++
    (others'.filter (· = t) ++ others'.filter fun ev => !(ev = t)))

theorem spareOrder_perm (p : Event → Bool) (t : Event) (evs : List Event) :
    (spareOrder p t evs).Perm evs := by
  refine .trans (.append_left _ ?_) (filter_append_perm p evs)
  refine .trans (.append_left _ ?_) (filter_append_perm (fun ev => covers ev t && ev ≠ t) _)
  exact filter_append_perm (· = t) _

/-- In this order the target is spared, provided that the slot the front part
leaves is of another author and not outdated by the target's author. -/
theorem not_hidden_spareOrder {p : Event → Bool} (slot : Option (String × ℕ))
    (hids : ∀ ev ∈ evs, ev.id = t.id → ev = t)
    (hself : ¬ (t.kind = eventDeletion ∧ covers t t = true))
    (hboth : ∀ del ∈ evs, del.kind = eventDeletion → covers del t = true →
      addresses del t = false)
    (hfront : Fate.Held slot (Fate.events t Fate.init (evs.filter p)))
    (hslot : slot.any (fun s => s.1 = t.pubkey) = false)
    (hbump : ∀ del ∈ evs, del.deletesId t = true → del.pubkey = t.pubkey →
      bump slot del.pubkey del.createdAt = slot) :
    (Fate.events t Fate.init (spareOrder p t evs)).hidden = false := by
  unfold spareOrder
  dsimp only
  rw [Fate.events_append, Fate.events_append, Fate.events_append]
  have hheld := hfront.events (t := t)
    ((evs.filter fun ev => !p ev).filter fun ev => covers ev t && ev ≠ t) ?_
  · obtain ⟨-, h2, h3, h4⟩ := hheld
    refine Fate.spared_events _ ?_ ?_
    · -- the copies of the target itself
      have hcopies : ∀ ev ∈ ((evs.filter fun ev => !p ev).filter fun ev =>
          !(covers ev t && ev ≠ t)).filter (· = t), ev = t := by
        intro ev hev
        exact of_decide_eq_true (List.mem_filter.mp hev).2
      rw [eq_replicate_of_mem hcopies]
      exact Fate.spared_replicate hslot hself _ h2 h3 h4
    · intro ev hev
      simp only [mem_filter, Bool.not_eq_true', decide_eq_false_iff_not] at hev
      obtain ⟨⟨⟨hmem, -⟩, hc⟩, hne⟩ := hev
      refine ⟨fun hid => hne (hids ev hmem hid), fun _ => ?_⟩
      simpa [hne] using hc
  · -- the covering deletions are by the target's author
    intro ev hev
    simp only [mem_filter, Bool.and_eq_true, decide_eq_true_eq] at hev
    obtain ⟨⟨hmem, -⟩, hc, hne⟩ := hev
    refine ⟨fun hid => hne (hids ev hmem hid), fun hkind => ⟨hboth ev hmem hkind hc, ?_⟩⟩
    intro he
    exact hbump ev hmem (by simp [Event.deletesId, hkind, he]) (covers_spec hc).1

/-- Without `OrderStable` one order spares the target. -/
theorem exists_order_not_hidden (hdet : DeterminedIds evs) (ht : t ∈ evs)
    (hns : ¬ OrderStable evs t) :
    ∃ evs', evs'.Perm evs ∧ (Fate.events t Fate.init evs').hidden = false := by
  simp only [OrderStable, not_or] at hns
  obtain ⟨hself, -, hboth, hlast⟩ := hns
  have hids : ∀ ev ∈ evs, ev.id = t.id → ev = t := fun ev hev => hdet ev hev t ht
  have hboth' : ∀ del ∈ evs, del.kind = eventDeletion → covers del t = true →
      addresses del t = false := by
    intro del hdel hkind hc
    by_contra ha
    exact hboth ⟨del, hdel, hkind, hc, Bool.not_eq_false _ ▸ ha⟩
  by_cases hgen : ∃ del ∈ evs, del.deletesId t = true ∧ del.pubkey = t.pubkey
  · -- a foreign deletion that is not outdated goes first and keeps the slot
    obtain ⟨h, hh, hhd, hne, hna, hold⟩ : ∃ h ∈ evs, h.deletesId t = true ∧
        h.pubkey ≠ t.pubkey ∧ addresses h t = false ∧
        ∀ del ∈ evs, del.deletesId t = true → del.pubkey = t.pubkey →
          del.createdAt ≤ h.createdAt := by
      by_contra hno
      refine hlast ⟨hgen, fun h hh hhd hne hna => ?_⟩
      by_contra hno'
      refine hno ⟨h, hh, hhd, hne, hna, fun del hdel hd hpk => ?_⟩
      by_contra hlt
      exact hno' ⟨del, hdel, hd, hpk, Nat.lt_of_not_le hlt⟩
    refine ⟨spareOrder (· = h) t evs, spareOrder_perm _ _ _, not_hidden_spareOrder
      (some (h.pubkey, h.createdAt)) hids hself hboth' ?_ (by simp [hne]) ?_⟩
    · rw [Event.deletesId, Bool.and_eq_true, decide_eq_true_eq, decide_eq_true_eq] at hhd
      have hcopies : ∀ ev ∈ evs.filter (· = h), ev = h := fun ev hev =>
        of_decide_eq_true (List.mem_filter.mp hev).2
      have hhid : h.id ≠ t.id := fun hid => hne (congrArg Event.pubkey (hids h hh hid))
      have hmem : h ∈ evs.filter (· = h) := List.mem_filter.mpr ⟨hh, by simp⟩
      rcases hf : evs.filter (· = h) with _ | ⟨ev, rest⟩
      · rw [hf] at hmem
        cases hmem
      · rw [hf] at hcopies
        obtain rfl : ev = h := hcopies ev mem_cons_self
        refine Fate.Held.events (t := t) (f := Fate.event t Fate.init ev) rest ?_ ?_
        · simp [Fate.event, hhid, hhd.1, hhd.2, Fate.delete, Fate.init, hna, bump, Fate.Held]
        · intro x hx
          obtain rfl := hcopies x (mem_cons_of_mem _ hx)
          exact ⟨hhid, fun _ => ⟨hna, fun _ => by simp [bump]⟩⟩
    · intro del hdel hd hpk
      simp [bump, Nat.not_lt.mpr (hold del hdel hd hpk)]
  · -- without a deletion by id the slot stays empty
    refine ⟨spareOrder (fun _ => false) t evs, spareOrder_perm _ _ _, not_hidden_spareOrder
      none hids hself hboth' ?_ rfl ?_⟩
    · rw [filter_false]
      exact ⟨rfl, rfl, rfl, rfl⟩
    · intro del hdel hd hpk
      exact absurd ⟨del, hdel, hd, hpk⟩ hgen

/-- Without `OrderStable` one order hides the target. -/
theorem exists_order_hidden (ht : t ∈ evs) (hns : ¬ OrderStable evs t) :
    ∃ evs', evs'.Perm evs ∧ (Fate.events t Fate.init evs').hidden = true := by
  simp only [OrderStable, not_or] at hns
  obtain ⟨hself, hsome, -, -⟩ := hns
  obtain ⟨del, hdel, hkind, hreach⟩ : ∃ del ∈ evs, del.kind = eventDeletion ∧
      (covers del t = true ∨ addresses del t = true) := by
    by_contra hno
    refine hsome fun del hdel hkind => ?_
    have hnot : ¬ (covers del t = true ∨ addresses del t = true) :=
      fun h => hno ⟨del, hdel, hkind, h⟩
    rwa [not_or, Bool.not_eq_true, Bool.not_eq_true] at hnot
  have hne : del ≠ t := by
    rintro rfl
    rcases hreach with hc | ha
    · exact hself ⟨hkind, hc⟩
    · rw [addresses, hkind] at ha
      exact absurd ha (by simp [show isAddressable eventDeletion = false by decide])
  obtain ⟨pre, post, rfl⟩ := append_of_mem ht
  rcases hreach with hc | ha
  · -- the target first
    refine ⟨t :: (pre ++ post), List.perm_middle.symm, ?_⟩
    refine hidden_of_covers_after [] ?_ hkind hc
    simp only [mem_append, mem_cons] at hdel ⊢
    tauto
  · -- the target last
    refine ⟨(pre ++ post) ++ [t], ?_, ?_⟩
    · exact (perm_append_singleton t _).trans List.perm_middle.symm
    · refine hidden_of_addresses_before ?_ hkind ha
      simp only [mem_append, mem_cons] at hdel ⊢
      tauto

/-- All orders of an order-stable history agree. -/
theorem hidden_iff_of_orderStable (hdet : DeterminedIds evs) (ht : t ∈ evs)
    (hs : OrderStable evs t) {xs : List Event} (hxs : xs.Perm evs) :
    (Fate.events t Fate.init xs).hidden = true ↔
      ∃ del ∈ evs, del.kind = eventDeletion ∧ (covers del t = true ∨ addresses del t = true) := by
  constructor
  · intro h
    have hj : Fate.Justified t (xs.filter fun ev => ev.kind = eventDeletion)
        (Fate.events t Fate.init xs) := by
      have hdels : ∀ op ∈ xs.map (IndexOp.index · 0), op.event.kind = eventDeletion →
          op.event ∈ xs.filter fun ev => ev.kind = eventDeletion := by
        intro op hop hk
        obtain ⟨ev, hev, rfl⟩ := List.mem_map.mp hop
        exact List.mem_filter.mpr ⟨hev, decide_eq_true hk⟩
      have hrun := Fate.Justified.init.run (t := t) (xs.map (IndexOp.index · 0)) hdels
      rw [Fate.run, foldl_map] at hrun
      exact hrun
    obtain ⟨del, hdel, hreach⟩ := hj.hidden h
    rw [mem_filter, decide_eq_true_eq] at hdel
    exact ⟨del, hxs.mem_iff.mp hdel.1, hdel.2, hreach⟩
  · rintro ⟨del, hdel, hkind, hreach⟩
    obtain ⟨pre, post, rfl, hpre⟩ := eq_append_cons_of_mem (hxs.mem_iff.mpr ht)
    have hids : ∀ ev ∈ pre, ev.id ≠ t.id := by
      intro ev hev hid
      have hmem : ev ∈ evs := hxs.mem_iff.mp (mem_append_left _ hev)
      exact hpre (hdet ev hmem t ht hid ▸ hev)
    rcases hs with ⟨hk, hc⟩ | hnone | ⟨d, hd, hk, hc, ha⟩ | ⟨⟨d, hd, hdel, hpk⟩, hforeign⟩
    · exact hidden_of_covers_after pre mem_cons_self hk hc
    · obtain ⟨hc, ha⟩ := hnone del hdel hkind
      rw [hc, ha] at hreach
      rcases hreach with h | h <;> cases h
    · -- one deletion works from both sides
      rcases List.mem_append.mp (hxs.mem_iff.mpr hd) with hd | hd
      · exact hidden_of_addresses_before hd hk ha
      · exact hidden_of_covers_after pre hd hk hc
    · refine hidden_of_outdates hids ⟨d, hxs.mem_iff.mpr hd, hdel, hpk⟩ ?_
      intro h hh hhd hne hna
      obtain ⟨d', hd', hrest⟩ := hforeign h (hxs.mem_iff.mp hh) hhd hne hna
      exact ⟨d', hxs.mem_iff.mpr hd', hrest⟩

/-! ### Lists of events, indexed one by one -/

/-- Index events one by one, each at its offset, from the empty cache. -/
def indexAll (evs : List (StoredEvent × ℕ)) : IndexState :=
  evs.foldl (fun st p => indexStoredEvent st p.1 p.2) IndexState.empty

/-- Indexing the events of `evs` in any order, at any offsets, suppresses the
same ids. -/
def OrderIndependent (evs : List StoredEvent) : Prop :=
  ∀ run₁ run₂ : List (StoredEvent × ℕ),
    (run₁.map Prod.fst).Perm evs → (run₂.map Prod.fst).Perm evs →
      ∀ id, (indexAll run₁).Suppressed id ↔ (indexAll run₂).Suppressed id

def indexOps (evs : List (StoredEvent × ℕ)) : List IndexOp :=
  evs.map fun p => .index p.1.event p.2

theorem indexAll_eq (evs : List (StoredEvent × ℕ)) :
    indexAll evs = IndexState.empty.run (indexOps evs) := by
  rw [indexAll, IndexState.run, indexOps, foldl_map]
  refine congrArg (fun step => evs.foldl step IndexState.empty) ?_
  funext st p
  exact indexStoredEvent_eq st p.1 p.2

theorem indexOps_event (evs : List (StoredEvent × ℕ)) :
    (indexOps evs).map IndexOp.event = (evs.map Prod.fst).map StoredEvent.event := by
  simp only [indexOps, map_map]
  rfl

theorem suppressed_indexAll_iff {evs : List (StoredEvent × ℕ)}
    (hdet : DeterminedIds ((evs.map Prod.fst).map StoredEvent.event))
    (ht : t ∈ (evs.map Prod.fst).map StoredEvent.event) :
    (indexAll evs).Suppressed t.id ↔
      (Fate.events t Fate.init ((evs.map Prod.fst).map StoredEvent.event)).hidden = true := by
  have hdet' : DeterminedIds (t :: (indexOps evs).map IndexOp.event) := by
    rw [indexOps_event]
    refine hdet.of_subset fun x hx => ?_
    rcases List.mem_cons.mp hx with rfl | hx
    · exact ht
    · exact hx
  rw [indexAll_eq, suppressed_iff_hidden hdet', ← indexOps_event, Fate.run, Fate.events,
    indexOps, map_map, foldl_map, foldl_map]
  rfl

theorem exists_perm_of_map_perm {α β : Type} (f : α → β) :
    ∀ {m : List β} {l : List α}, m.Perm (l.map f) → ∃ l' : List α, l'.Perm l ∧ l'.map f = m := by
  intro m
  induction m with
  | nil =>
    intro l h
    have : l = [] := by simpa using h.symm.eq_nil
    exact ⟨[], by rw [this], rfl⟩
  | cons b m ih =>
    intro l h
    obtain ⟨a, ha, rfl⟩ := List.mem_map.mp (h.mem_iff.mp mem_cons_self)
    obtain ⟨s, r, rfl⟩ := append_of_mem ha
    have hrest : m.Perm ((s ++ r).map f) := by
      rw [map_append, map_cons] at h
      rw [map_append]
      exact (h.trans perm_middle).cons_inv
    obtain ⟨l', hl', rfl⟩ := ih hrest
    exact ⟨a :: l', (hl'.cons a).trans List.perm_middle.symm, rfl⟩

/-- **Order independence.**  A list of events in which an id determines the
event ends with the same suppressed ids in every order of arrival exactly when
it is order stable for each of its events. -/
theorem orderIndependent_iff (evs : List StoredEvent)
    (hdet : DeterminedIds (evs.map StoredEvent.event)) :
    OrderIndependent evs ↔ ∀ t ∈ evs.map StoredEvent.event,
      OrderStable (evs.map StoredEvent.event) t := by
  constructor
  · intro hind t ht
    by_contra hns
    obtain ⟨xs, hxs, hhid⟩ := exists_order_hidden ht hns
    obtain ⟨ys, hys, hnot⟩ := exists_order_not_hidden hdet ht hns
    -- an order of the views is an order of the events
    have hrun : ∀ xs : List Event, xs.Perm (evs.map StoredEvent.event) →
        ∃ run : List (StoredEvent × ℕ), (run.map Prod.fst).Perm evs ∧
          (run.map Prod.fst).map StoredEvent.event = xs := by
      intro xs hxs
      obtain ⟨l, hl, rfl⟩ := exists_perm_of_map_perm _ hxs
      refine ⟨l.map (·, 0), ?_, ?_⟩
      · simpa [Function.comp_def] using hl
      · simp
    obtain ⟨run₁, hp₁, rfl⟩ := hrun xs hxs
    obtain ⟨run₂, hp₂, rfl⟩ := hrun ys hys
    have hiff := hind run₁ run₂ hp₁ hp₂ t.id
    rw [suppressed_indexAll_iff (hdet.of_subset fun x hx => hxs.mem_iff.mp hx)
        (hxs.mem_iff.mpr ht),
      suppressed_indexAll_iff (hdet.of_subset fun x hx => hys.mem_iff.mp hx)
        (hys.mem_iff.mpr ht)] at hiff
    rw [hiff.mp hhid] at hnot
    cases hnot
  · intro hstable run₁ run₂ hp₁ hp₂ id
    -- in both orders: hidden if and only if something reaches the event
    have hone : ∀ run : List (StoredEvent × ℕ), (run.map Prod.fst).Perm evs →
        ((indexAll run).Suppressed id ↔ ∃ t ∈ evs.map StoredEvent.event, t.id = id ∧
          ∃ del ∈ evs.map StoredEvent.event, del.kind = eventDeletion ∧
            (covers del t = true ∨ addresses del t = true)) := by
      intro run hp
      have hperm := hp.map StoredEvent.event
      have hdet' : DeterminedIds ((run.map Prod.fst).map StoredEvent.event) :=
        hdet.of_subset fun x hx => hperm.mem_iff.mp hx
      constructor
      · intro h
        have h' := h
        rw [indexAll_eq] at h'
        obtain ⟨t, ht, rfl⟩ := exists_indexed_of_suppressed (by rwa [indexOps_event]) h'
        have ht' : t ∈ (run.map Prod.fst).map StoredEvent.event := by
          rcases indexedEvents_subset _ ht with ht | ht
          · rwa [indexOps_event] at ht
          · cases ht
        have ht'' := hperm.mem_iff.mp ht'
        refine ⟨t, ht'', rfl, ?_⟩
        rw [suppressed_indexAll_iff hdet' ht',
          hidden_iff_of_orderStable hdet ht'' (hstable t ht'') hperm] at h
        exact h
      · rintro ⟨t, ht, rfl, hreach⟩
        rw [suppressed_indexAll_iff hdet' (hperm.mem_iff.mpr ht),
          hidden_iff_of_orderStable hdet ht (hstable t ht) hperm]
        exact hreach
    rw [hone run₁ hp₁, hone run₂ hp₂]

/-- A note, its deletion by its author, and a newer deletion of the same id by
someone else. -/
def contestedNote : List StoredEvent :=
  [.nostr { id := "note", pubkey := "alice", kind := 1, createdAt := 100,
            tags := [], content := "hi", sig := "" },
   .nostr { id := "byAlice", pubkey := "alice", kind := 5, createdAt := 200,
            tags := [⟨some ["e", "note"]⟩], content := "", sig := "" },
   .nostr { id := "byMallory", pubkey := "mallory", kind := 5, createdAt := 300,
            tags := [⟨some ["e", "note"]⟩], content := "", sig := "" }]

/-- Note first, it is suppressed; note last, the foreign deletion holds the
slot and the note is not. -/
theorem contestedNote_not_orderIndependent :
    DeterminedIds (contestedNote.map StoredEvent.event) ∧ ¬ OrderIndependent contestedNote := by
  refine ⟨by decide, fun h => ?_⟩
  have hiff := h (contestedNote.map (·, 0)) (contestedNote.reverse.map (·, 0)) (by decide)
    (by decide) "note"
  exact absurd hiff (by decide)

/-- Without the foreign deletion every order agrees. -/
theorem orderIndependent_iff_uncontested : OrderIndependent (contestedNote.take 2) :=
  (orderIndependent_iff (contestedNote.take 2) (by decide)).mpr (by decide)

end Nipworker
