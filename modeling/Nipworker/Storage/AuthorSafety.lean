/-
Author safety of NIP-09 deletions.

A deletion is taken from anyone, so the cache must not let one author hide the
events of another.  The author is checked in a different place on every route:
against the author's key set, against the author stored with a pending id,
inside the address text.  Over the automaton of `Fate` the routes share one
invariant, `Fate.Justified`: whatever the target has collected so far is owed
to a deletion that was processed.
-/
import Nipworker.Storage.Fate
import Nipworker.Storage.Message

namespace Nipworker

open List

/-! ### Addresses name their author -/

theorem toList_toString (n : ℕ) : (toString n).toList = Nat.toDigits 10 n := by
  rw [Nat.toString_eq_repr, Nat.toList_repr]

theorem dropPlus_toDigits (n : ℕ) : dropPlus (Nat.toDigits 10 n) = Nat.toDigits 10 n := by
  unfold dropPlus
  split
  · next rest hd =>
    have hplus : '+' ∈ Nat.toDigits 10 n := by
      rw [hd]
      exact mem_cons_self
    exact absurd (Nat.isDigit_of_mem_toDigits (by decide) (by decide) hplus) (by decide)
  · rfl

theorem parseU16_toString (kind : UInt16) : parseU16 (toString kind.toNat) = some kind := by
  have hlt : kind.toNat < 65536 := kind.toNat_lt
  rw [parseU16, toList_toString, dropPlus_toDigits, Text.parseDecimal_toDigits]
  simp [hlt]

theorem splitn3_addressText {kind : UInt16} {author d : String} (hcolon : ':' ∉ author.toList) :
    Text.splitn3 ':' (addressText kind author d) = some (toString kind.toNat, author, d) := by
  rw [Text.splitn3_eq_some]
  refine ⟨by simp [addressText], ?_, hcolon⟩
  intro hmem
  rw [toList_toString] at hmem
  exact absurd (Nat.isDigit_of_mem_toDigits (by decide) (by decide) hmem) (by decide)

theorem hasTag_of_firstDTag : ∀ {tags : List StringVec} {d : String},
    firstDTag tags = some d → ∃ tag ∈ tags, tag.pair = some ("d", d) := by
  intro tags
  induction tags with
  | nil =>
    intro d h
    cases h
  | cons tag rest ih =>
    intro d h
    have hrest : firstDTag rest = some d → ∃ tag' ∈ tag :: rest, tag'.pair = some ("d", d) := by
      intro h
      obtain ⟨tag', htag, hp⟩ := ih h
      exact ⟨tag', mem_cons_of_mem _ htag, hp⟩
    rw [firstDTag] at h
    rcases hp : tag.pair with _ | ⟨name, value⟩ <;> rw [hp] at h
    · exact hrest h
    · dsimp only at h
      split at h
      · next hname =>
        cases h
        exact ⟨tag, mem_cons_self, by rw [hp, hname]⟩
      · exact hrest h

/-- A deletion that records the address of an event covers it by that tag, if
the event's pubkey holds no colon.  The author of the deletion is then the
author in the address. -/
theorem covers_of_addresses {del t : Event} (hcolon : ':' ∉ t.pubkey.toList)
    (h : addresses del t = true) : covers del t = true := by
  rw [addresses, Bool.and_eq_true] at h
  obtain ⟨-, h⟩ := h
  rcases hd : firstDTag t.tags with _ | d <;> rw [hd] at h
  · cases h
  · simp only [Bool.and_eq_true, decide_eq_true_eq, Event.anyTag_iff] at h
    obtain ⟨⟨a, ha, hrec, rfl⟩, hts⟩ := h
    rw [recordsAddress, splitn3_addressText hcolon] at hrec
    simp only [Bool.and_eq_true, decide_eq_true_eq] at hrec
    have hits : addressHits del.pubkey del.createdAt t (addressText t.kind t.pubkey d) = true := by
      have hdtag : t.HasTag "d" d := hasTag_of_firstDTag hd
      rw [addressHits, splitn3_addressText hcolon]
      simp only [← hrec.1, parseU16_toString, hdtag, hts, decide_true, Bool.and_true]
    rw [covers, Bool.or_eq_true]
    exact .inr (Event.anyTag_iff.mpr ⟨_, ha, hits⟩)

/-! ### What the target has collected is owed to a deletion -/

/-- Everything the automaton holds against the target comes from a deletion in
`dels`. -/
structure Fate.Justified (t : Event) (dels : List Event) (f : Fate) : Prop where
  hidden : f.hidden = true → ∃ del ∈ dels, covers del t = true ∨ addresses del t = true
  pending : ∀ slot, f.pending = some slot →
    ∃ del ∈ dels, del.pubkey = slot.1 ∧ del.HasTag "e" t.id
  addressed : f.addressed = true → ∃ del ∈ dels, addresses del t = true

namespace Fate.Justified

variable {t : Event} {dels : List Event} {f : Fate}

theorem init : Justified t dels Fate.init :=
  ⟨nofun, nofun, nofun⟩

theorem arrive (h : Justified t dels f) : Justified t dels (Fate.arrive t f) := by
  refine ⟨?_, h.pending, h.addressed⟩
  intro hh
  simp only [Fate.arrive, Bool.or_eq_true] at hh
  rcases hh with (hh | hh) | hh
  · exact h.hidden hh
  · -- the pending reference is by the target's author
    obtain ⟨slot, hslot, hauth⟩ := (Option.any_eq_true _ _).mp hh
    obtain ⟨del, hdel, hpk, he⟩ := h.pending slot hslot
    refine ⟨del, hdel, .inl ?_⟩
    rw [decide_eq_true_eq] at hauth
    simp [covers, hpk.trans hauth, he]
  · obtain ⟨del, hdel, ha⟩ := h.addressed hh
    exact ⟨del, hdel, .inr ha⟩

theorem delete {del : Event} (h : Justified t dels f) (hdel : del ∈ dels) :
    Justified t dels (Fate.delete t f del) := by
  refine ⟨?_, ?_, ?_⟩
  · intro hh
    simp only [Fate.delete, Bool.or_eq_true, Bool.and_eq_true] at hh
    rcases hh with hh | ⟨-, hc⟩
    · exact h.hidden hh
    · exact ⟨del, hdel, .inl hc⟩
  · intro slot hslot
    simp only [Fate.delete] at hslot
    split at hslot
    · next hcond =>
      have hown : ∃ d ∈ dels, d.pubkey = del.pubkey ∧ d.HasTag "e" t.id :=
        ⟨del, hdel, rfl, hcond.2⟩
      unfold bump at hslot
      rcases hp : f.pending with _ | ⟨a, old⟩ <;> rw [hp] at hslot
      · cases hslot
        exact hown
      · dsimp only at hslot
        split at hslot <;> cases hslot
        · exact hown
        · exact h.pending _ hp
    · exact h.pending slot hslot
  · intro hh
    simp only [Fate.delete, Bool.or_eq_true] at hh
    rcases hh with hh | ha
    · exact h.addressed hh
    · exact ⟨del, hdel, ha⟩

theorem step {op : IndexOp} (h : Justified t dels f)
    (hdel : op.event.kind = eventDeletion → op.event ∈ dels) :
    Justified t dels (Fate.step t f op) := by
  cases op with
  | index ev offset =>
    have harr : Justified t dels (if ev.id = t.id then Fate.arrive t f else f) := by
      split
      · exact h.arrive
      · exact h
    simp only [Fate.step]
    split
    · next hk => exact harr.delete (hdel hk)
    · exact harr
  | replay ev =>
    simp only [Fate.step]
    split
    · next hk => exact h.delete (hdel hk)
    · exact h

theorem run (ops : List IndexOp) : ∀ {f : Fate}, Justified t dels f →
    (∀ op ∈ ops, op.event.kind = eventDeletion → op.event ∈ dels) →
      Justified t dels (Fate.run t f ops) := by
  induction ops with
  | nil => exact fun h _ => h
  | cons op rest ih =>
    intro f h hdel
    exact ih (h.step (hdel op mem_cons_self))
      fun op' hop => hdel op' (mem_cons_of_mem _ hop)

end Fate.Justified

/-- A suppressed event has a deletion that covers it. -/
theorem suppressed_justified {t : Event} {ops : List IndexOp}
    (hdet : DeterminedIds (t :: ops.map IndexOp.event))
    (h : (IndexState.empty.run ops).Suppressed t.id) :
    ∃ del ∈ ops.map IndexOp.event, del.kind = eventDeletion ∧
      (covers del t = true ∨ addresses del t = true) := by
  have hdels : ∀ op ∈ ops, op.event.kind = eventDeletion →
      op.event ∈ (ops.map IndexOp.event).filter fun ev => ev.kind = eventDeletion := by
    intro op hop hk
    exact List.mem_filter.mpr ⟨mem_map_of_mem hop, decide_eq_true hk⟩
  have hj := Fate.Justified.init.run (t := t) ops hdels
  obtain ⟨del, hdel, hc⟩ := hj.hidden ((suppressed_iff_hidden hdet).mp h)
  rw [mem_filter, decide_eq_true_eq] at hdel
  exact ⟨del, hdel.1, hdel.2, hc⟩

/-! ### Runs of the index -/

inductive IndexCall
  | indexParsedEvent (ev : ParsedEvent) (offset : ℕ)
  | indexNostrEvent (ev : NostrEvent) (offset : ℕ)
  | applyDeletionsFromBytes (bytes : Bytes)

namespace IndexCall

/-- The event a call brings in: none when the bytes of a replay hold none. -/
def event (fb : FlatBuffers) : IndexCall → Option Event
  | .indexParsedEvent ev _ => some ev.event
  | .indexNostrEvent ev _ => some ev.event
  | .applyDeletionsFromBytes bytes => fb.wrappedEvent bytes

def op (fb : FlatBuffers) : IndexCall → Option IndexOp
  | .indexParsedEvent ev offset => some (.index ev.event offset)
  | .indexNostrEvent ev offset => some (.index ev.event offset)
  | .applyDeletionsFromBytes bytes => (fb.wrappedEvent bytes).map .replay

theorem op_event (fb : FlatBuffers) (c : IndexCall) : (c.op fb).map IndexOp.event = c.event fb := by
  cases c with
  | indexParsedEvent ev offset => rfl
  | indexNostrEvent ev offset => rfl
  | applyDeletionsFromBytes bytes =>
    rw [op, Option.map_map]
    exact Option.map_id'

end IndexCall

def IndexState.call (fb : FlatBuffers) (st : IndexState) : IndexCall → IndexState
  | .indexParsedEvent ev offset => indexParsedEvent st ev offset
  | .indexNostrEvent ev offset => indexNostrEvent st ev offset
  | .applyDeletionsFromBytes bytes => (applyDeletionsFromBytes fb st bytes).1

def IndexState.runCalls (fb : FlatBuffers) (st : IndexState) (calls : List IndexCall) :
    IndexState :=
  calls.foldl (IndexState.call fb) st

theorem IndexState.runCalls_eq (fb : FlatBuffers) (calls : List IndexCall) :
    ∀ st : IndexState, st.runCalls fb calls = st.run (calls.filterMap (IndexCall.op fb)) := by
  induction calls with
  | nil => exact fun _ => rfl
  | cons c rest ih =>
    intro st
    rw [IndexState.runCalls, foldl_cons]
    refine (ih _).trans ?_
    cases c with
    | indexParsedEvent ev offset => rfl
    | indexNostrEvent ev offset => rfl
    | applyDeletionsFromBytes bytes =>
      rw [IndexState.call, applyDeletionsFromBytes_fst]
      rcases hev : fb.wrappedEvent bytes with _ | ev
      · rw [filterMap_cons_none (by rw [IndexCall.op, hev]; rfl)]
      · rw [filterMap_cons_some (b := .replay ev) (by rw [IndexCall.op, hev]; rfl)]
        rfl

theorem covers_spec {del t : Event} (h : covers del t = true) :
    del.pubkey = t.pubkey ∧ (del.HasTag "e" t.id ∨
      ∃ kindText d, del.HasTag "a" (kindText ++ ":" ++ t.pubkey ++ ":" ++ d) ∧
        parseU16 kindText = some t.kind ∧ t.HasTag "d" d ∧ t.createdAt ≤ del.createdAt) := by
  rw [covers, Bool.or_eq_true, Bool.and_eq_true, decide_eq_true_eq, decide_eq_true_eq,
    Event.anyTag_iff] at h
  rcases h with ⟨hpk, he⟩ | ⟨a, ha, hits⟩
  · exact ⟨hpk, .inl he⟩
  · unfold addressHits at hits
    rcases hs : Text.splitn3 ':' a with _ | ⟨kindText, author, d⟩ <;> rw [hs] at hits
    · cases hits
    · simp only [Bool.and_eq_true, decide_eq_true_eq] at hits
      obtain ⟨⟨⟨⟨hauthor, hkind⟩, hpk⟩, hd⟩, hts⟩ := hits
      refine ⟨hpk, .inr ⟨kindText, d, ?_, hkind, hd, hts⟩⟩
      have htext : a = kindText ++ ":" ++ t.pubkey ++ ":" ++ d := by
        rw [← String.toList_inj, (Text.splitn3_eq_some.mp hs).1, hauthor, hpk]
        simp
      rwa [← htext]

/-- **Author safety.**  Whatever is indexed and replayed, and in whatever
order, a suppressed event is named by a kind 5 of its own author: by an `e` tag
with its id, or by an `a` tag `kind:pubkey:d` with its kind, its pubkey and one
of its `d` tags, made at or after its creation. -/
theorem suppressed_only_by_author (fb : FlatBuffers) (calls : List IndexCall)
    (hdet : DeterminedIds (calls.filterMap (IndexCall.event fb)))
    (hcolon : ∀ ev ∈ calls.filterMap (IndexCall.event fb), ':' ∉ ev.pubkey.toList)
    (id : String) (h : (IndexState.empty.runCalls fb calls).Suppressed id) :
    ∃ t ∈ calls.filterMap (IndexCall.event fb), t.id = id ∧
      ∃ del ∈ calls.filterMap (IndexCall.event fb), del.kind = eventDeletion ∧
        del.pubkey = t.pubkey ∧ (del.HasTag "e" t.id ∨
          ∃ kindText d, del.HasTag "a" (kindText ++ ":" ++ t.pubkey ++ ":" ++ d) ∧
            parseU16 kindText = some t.kind ∧ t.HasTag "d" d ∧
            t.createdAt ≤ del.createdAt) := by
  have hevents : (calls.filterMap (IndexCall.op fb)).map IndexOp.event
      = calls.filterMap (IndexCall.event fb) := by
    rw [map_filterMap]
    exact congrArg (List.filterMap · calls) (funext (IndexCall.op_event fb))
  rw [IndexState.runCalls_eq] at h
  rw [← hevents] at hdet hcolon ⊢
  generalize calls.filterMap (IndexCall.op fb) = ops at h hdet hcolon ⊢
  -- the suppressed id has a record, so an event with that id was indexed
  obtain ⟨t, ht, rfl⟩ : ∃ t ∈ ops.map IndexOp.event, t.id = id := by
    obtain ⟨t, ht, hid⟩ := exists_indexed_of_suppressed hdet h
    rcases indexedEvents_subset ops ht with ht | ht
    · exact ⟨t, ht, hid⟩
    · cases ht
  have hdet' : DeterminedIds (t :: ops.map IndexOp.event) := by
    refine hdet.of_subset fun x hx => ?_
    rcases List.mem_cons.mp hx with rfl | hx
    · exact ht
    · exact hx
  obtain ⟨del, hdel, hkind, hc⟩ := suppressed_justified hdet' h
  have hcovers : covers del t = true := hc.elim id (covers_of_addresses (hcolon t ht))
  exact ⟨t, ht, rfl, del, hdel, hkind, covers_spec hcovers⟩

/-- A deletion, an unreadable buffer and then the deleted note. -/
def deletionBeforeNote : List IndexCall :=
  [.indexParsedEvent
    { id := "deletion", pubkey := "alice", kind := 5, createdAt := 9,
      tags := [⟨some ["e", "note"]⟩] } 0,
   .applyDeletionsFromBytes [],
   .indexNostrEvent
    { id := "note", pubkey := "alice", kind := 1, createdAt := 7, tags := [], content := "hi",
      sig := "" } 1]

theorem suppressed_only_by_author_deletionBeforeNote :
    let fb : FlatBuffers := ⟨fun _ => none, fun _ => none, fun _ => none⟩
    (IndexState.empty.runCalls fb deletionBeforeNote).Suppressed "note" ∧
      ∃ t ∈ deletionBeforeNote.filterMap (IndexCall.event fb), t.id = "note" ∧
        ∃ del ∈ deletionBeforeNote.filterMap (IndexCall.event fb),
          del.kind = eventDeletion ∧ del.pubkey = t.pubkey := by
  intro fb
  have hsupp : (IndexState.empty.runCalls fb deletionBeforeNote).Suppressed "note" := by decide
  obtain ⟨t, ht, hid, del, hdel, hkind, hpk, -⟩ :=
    suppressed_only_by_author fb deletionBeforeNote (by decide) (by decide) "note" hsupp
  exact ⟨hsupp, t, ht, hid, del, hdel, hkind, hpk⟩

end Nipworker
