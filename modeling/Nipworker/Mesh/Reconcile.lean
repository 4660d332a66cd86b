/-
Event stores, frames and the direct reconciliation of two mesh nodes
(`crates/mesh/src/lib.rs`).

The set reconciliation itself is the `negentropy` crate; it is a parameter here,
with the operations that the mesh calls.  A reconciler is changed by every call,
so each operation returns the next one; `reconcileWithIds` returns the ids of
its round, which the callers append to their lists.

A frame is a JSON text.  It is represented by the value the text stands for, or
by `none` when it is not JSON.
-/
import Nipworker.Lib.Hex
import Nipworker.Mesh.Framing

namespace Nipworker

open List

/-- An event as the mesh stores it. -/
structure CanonicalEvent where
  id : String
  pubkey : String
  createdAt : ℕ
  kind : ℕ
  tags : List (List String)
  content : String
  sig : String
  deriving DecidableEq, Repr

/-- A value of `serde_json`. -/
inductive Value
  | null
  | bool (b : Bool)
  | number (text : String)
  | string (text : String)
  | array (items : List Value)
  | object (fields : List (String × Value))

namespace Value

def asArray : Value → Option (List Value)
  | array items => some items
  | _ => none

def asStr : Value → Option String
  | string text => some text
  | _ => none

end Value

structure NostrFrame where
  json : Option Value

namespace NostrFrame

def negOpen (subscriptionId : String) (filter : Value) (payload : Bytes) : NostrFrame :=
  ⟨some (.array [.string "NEG-OPEN", .string subscriptionId, filter,
    .string (Hex.encode payload)])⟩

def negMsg (subscriptionId : String) (payload : Bytes) : NostrFrame :=
  ⟨some (.array [.string "NEG-MSG", .string subscriptionId, .string (Hex.encode payload)])⟩

def negClose (subscriptionId : String) : NostrFrame :=
  ⟨some (.array [.string "NEG-CLOSE", .string subscriptionId])⟩

end NostrFrame

def negentropyFrameSizeLimit : ℕ := 4096

/-- The `negentropy` crate: ids, sealed storages and reconcilers. -/
structure Negentropy (Id Storage Reconciler : Type) where
  /-- `Id::from_slice`. -/
  fromSlice : Bytes → Except String Id
  /-- `Id::to_bytes`. -/
  toBytes : Id → Bytes
  toBytes_injective : Function.Injective toBytes
  /-- `NegentropyStorageVector`: the inserted items, sealed. -/
  sealed : List (ℕ × Id) → Except String Storage
  /-- `Negentropy::owned`. -/
  owned : Storage → ℕ → Except String Reconciler
  /-- `Negentropy::initiate`. -/
  initiate : Reconciler → Except String (Bytes × Reconciler)
  /-- `Negentropy::reconcile`. -/
  reconcile : Reconciler → Bytes → Except String (Bytes × Reconciler)
  /-- `Negentropy::reconcile_with_ids`: the next query, `none` when the
  reconciliation is complete, and the ids found in this round. -/
  reconcileWithIds : Reconciler → Bytes →
    Except String (Option Bytes × List Id × List Id × Reconciler)

/-- What one round reports: ids that the other side misses and ids that this
side misses. -/
structure Round (Id : Type) where
  haveIds : List Id
  needIds : List Id
  deriving DecidableEq, Repr

namespace Negentropy

variable {Id Storage Reconciler : Type} (n : Negentropy Id Storage Reconciler)

/-- The crate's error, as `MeshError`. -/
def lift {α : Type} : Except String α → Except MeshError α
  | .ok a => .ok a
  | .error e => .error (.negentropy e)

def negentropyId (event : CanonicalEvent) : Except MeshError Id :=
  match Hex.decode event.id with
  | some bytes => lift (n.fromSlice bytes)
  | none => .error (.invalidEventId event.id)

/-- `negentropy_storage`, on the events of a store. -/
def storage (events : List CanonicalEvent) : Except MeshError Storage := do
  let items ← events.mapM fun event => do return (event.createdAt, ← n.negentropyId event)
  lift (n.sealed items)

def ids (events : List CanonicalEvent) : List Id :=
  events.filterMap fun event => (n.negentropyId event).toOption

def idsToHex (ids : List Id) : List String := ids.map fun id => Hex.encode (n.toBytes id)

/-- The rounds of a reconciliation that runs to its end: the responder answers
a query, the initiator takes the answer and asks again or is done. -/
inductive Rounds : Reconciler → Reconciler → Bytes → List (Round Id) → Prop
  | last {a b a' b' : Reconciler} {query response : Bytes} {haveIds needIds : List Id}
      (hresponse : n.reconcile b query = .ok (response, b'))
      (hids : n.reconcileWithIds a response = .ok (none, haveIds, needIds, a')) :
      Rounds a b query [⟨haveIds, needIds⟩]
  | next {a b a' b' : Reconciler} {query response query' : Bytes} {haveIds needIds : List Id}
      {rounds : List (Round Id)}
      (hresponse : n.reconcile b query = .ok (response, b'))
      (hids : n.reconcileWithIds a response = .ok (some query', haveIds, needIds, a'))
      (hrest : Rounds a' b' query' rounds) :
      Rounds a b query (⟨haveIds, needIds⟩ :: rounds)

/-- The two ends of a reconciliation of two stores, and the first query. -/
structure Starts (mine theirs : List CanonicalEvent) (a b : Reconciler) (query : Bytes) :
    Prop where
  initiator : ∃ storage reconciler, n.storage mine = .ok storage
    ∧ n.owned storage negentropyFrameSizeLimit = .ok reconciler
    ∧ n.initiate reconciler = .ok (query, a)
  responder : ∃ storage, n.storage theirs = .ok storage
    ∧ n.owned storage negentropyFrameSizeLimit = .ok b

/-- A reconciliation of the two sides, with all its rounds. -/
def Reconciles (mine theirs : List CanonicalEvent) (rounds : List (Round Id)) : Prop :=
  ∃ a b query, n.Starts mine theirs a b query ∧ n.Rounds a b query rounds

/-- The crate's contract on two stores: over all rounds it reports exactly the
two set differences. -/
structure Finds (mine theirs : List CanonicalEvent) (rounds : List (Round Id)) : Prop where
  haveIds : ∀ id, id ∈ rounds.flatMap Round.haveIds ↔ id ∈ n.ids mine ∧ id ∉ n.ids theirs
  needIds : ∀ id, id ∈ rounds.flatMap Round.needIds ↔ id ∈ n.ids theirs ∧ id ∉ n.ids mine

/-- The loop of `MeshNode::reconcile_with`: the two lists at its start and at
its end. -/
inductive ReconcileLoop : Reconciler → Reconciler → Bytes → List Id → List Id →
    List Id → List Id → Prop
  | done {a b a' b' : Reconciler} {query response : Bytes}
      {haveIds needIds moreHave moreNeed : List Id}
      (hresponse : n.reconcile b query = .ok (response, b'))
      (hids : n.reconcileWithIds a response = .ok (none, moreHave, moreNeed, a')) :
      ReconcileLoop a b query haveIds needIds (haveIds ++ moreHave) (needIds ++ moreNeed)
  | again {a b a' b' : Reconciler} {query response query' : Bytes}
      {haveIds needIds moreHave moreNeed haveIds' needIds' : List Id}
      (hresponse : n.reconcile b query = .ok (response, b'))
      (hids : n.reconcileWithIds a response = .ok (some query', moreHave, moreNeed, a'))
      (hrest : ReconcileLoop a' b' query' (haveIds ++ moreHave) (needIds ++ moreNeed)
        haveIds' needIds') :
      ReconcileLoop a b query haveIds needIds haveIds' needIds'

/-- The `have` and `need` lists that `MeshNode::reconcile_with` computes. -/
def ReconcileWith (mine theirs : List CanonicalEvent) (haveTexts needTexts : List String) :
    Prop :=
  ∃ a b query haveIds needIds, n.Starts mine theirs a b query
    ∧ n.ReconcileLoop a b query [] [] haveIds needIds
    ∧ haveTexts = n.idsToHex haveIds ∧ needTexts = n.idsToHex needIds

variable {n} {mine theirs : List CanonicalEvent} {a b : Reconciler} {query : Bytes}
  {rounds : List (Round Id)}

theorem Rounds.ne_nil (h : n.Rounds a b query rounds) : rounds ≠ [] := by
  cases h <;> exact cons_ne_nil _ _

theorem Rounds.eq_singleton (h : n.Rounds a b query rounds) {a' b' : Reconciler}
    {response : Bytes} {haveIds needIds : List Id}
    (hresponse : n.reconcile b query = .ok (response, b'))
    (hids : n.reconcileWithIds a response = .ok (none, haveIds, needIds, a')) :
    rounds = [⟨haveIds, needIds⟩] := by
  cases h with
  | last hresponse' hids' =>
    simp only [hresponse, Except.ok.injEq, Prod.mk.injEq] at hresponse'
    obtain ⟨rfl, rfl⟩ := hresponse'
    simp only [hids, Except.ok.injEq, Prod.mk.injEq, true_and] at hids'
    obtain ⟨rfl, rfl, -⟩ := hids'
    rfl
  | next hresponse' hids' _ =>
    simp only [hresponse, Except.ok.injEq, Prod.mk.injEq] at hresponse'
    obtain ⟨rfl, rfl⟩ := hresponse'
    simp [hids] at hids'

theorem Rounds.eq_cons (h : n.Rounds a b query rounds) {a' b' : Reconciler}
    {response query' : Bytes} {haveIds needIds : List Id}
    (hresponse : n.reconcile b query = .ok (response, b'))
    (hids : n.reconcileWithIds a response = .ok (some query', haveIds, needIds, a')) :
    ∃ rest, rounds = ⟨haveIds, needIds⟩ :: rest ∧ n.Rounds a' b' query' rest := by
  cases h with
  | last hresponse' hids' =>
    simp only [hresponse, Except.ok.injEq, Prod.mk.injEq] at hresponse'
    obtain ⟨rfl, rfl⟩ := hresponse'
    simp [hids] at hids'
  | next hresponse' hids' hrest =>
    simp only [hresponse, Except.ok.injEq, Prod.mk.injEq] at hresponse'
    obtain ⟨rfl, rfl⟩ := hresponse'
    simp only [hids, Except.ok.injEq, Prod.mk.injEq, Option.some.injEq] at hids'
    obtain ⟨rfl, rfl, rfl, rfl⟩ := hids'
    exact ⟨_, rfl, hrest⟩

theorem Starts.unique {a' b' : Reconciler} {query' : Bytes} (h : n.Starts mine theirs a b query)
    (h' : n.Starts mine theirs a' b' query') : a' = a ∧ b' = b ∧ query' = query := by
  obtain ⟨⟨s, r, hs, hr, hi⟩, ⟨t, ht, hb⟩⟩ := h
  obtain ⟨⟨s', r', hs', hr', hi'⟩, ⟨t', ht', hb'⟩⟩ := h'
  obtain rfl := Except.ok.inj (hs.symm.trans hs')
  obtain rfl := Except.ok.inj (ht.symm.trans ht')
  obtain rfl := Except.ok.inj (hr.symm.trans hr')
  obtain ⟨rfl, rfl⟩ := Prod.mk.inj (Except.ok.inj (hi.symm.trans hi'))
  exact ⟨rfl, (Except.ok.inj (hb.symm.trans hb')).symm, rfl⟩

theorem ReconcileLoop.eq_append {haveIds needIds haveIds' needIds' : List Id}
    (h : n.ReconcileLoop a b query haveIds needIds haveIds' needIds')
    (hrounds : n.Rounds a b query rounds) :
    haveIds' = haveIds ++ rounds.flatMap Round.haveIds
      ∧ needIds' = needIds ++ rounds.flatMap Round.needIds := by
  induction h generalizing rounds with
  | done hresponse hids =>
    rw [hrounds.eq_singleton hresponse hids, flatMap_singleton, flatMap_singleton]
    exact ⟨rfl, rfl⟩
  | again hresponse hids _ ih =>
    obtain ⟨rest, rfl, hrest⟩ := hrounds.eq_cons hresponse hids
    obtain ⟨h1, h2⟩ := ih hrest
    exact ⟨by rw [h1, flatMap_cons, append_assoc],
      by rw [h2, flatMap_cons, append_assoc]⟩

/-- The loop of `MeshNode::reconcile_with` collects what all rounds report. -/
theorem reconcileLoop_of_rounds (h : n.Rounds a b query rounds) (haveIds needIds : List Id) :
    n.ReconcileLoop a b query haveIds needIds (haveIds ++ rounds.flatMap Round.haveIds)
      (needIds ++ rounds.flatMap Round.needIds) := by
  induction h generalizing haveIds needIds with
  | last hresponse hids =>
    rw [flatMap_singleton, flatMap_singleton]
    exact .done hresponse hids
  | next hresponse hids _ ih =>
    rw [flatMap_cons, flatMap_cons, ← append_assoc, ← append_assoc]
    exact .again hresponse hids (ih _ _)

theorem mem_idsToHex {ids : List Id} {id : Id} :
    Hex.encode (n.toBytes id) ∈ n.idsToHex ids ↔ id ∈ ids := by
  rw [idsToHex, mem_map]
  constructor
  · rintro ⟨id', hmem, heq⟩
    have hdecode := congrArg Hex.decode heq
    rw [Hex.decode_encode, Hex.decode_encode] at hdecode
    rwa [← n.toBytes_injective (Option.some.inj hdecode)]
  · intro hmem
    exact ⟨id, hmem, rfl⟩

end Negentropy

end Nipworker
