/-
Finite maps and multimaps.

Hash maps are association lists without repeated keys (Mathlib's `AList`), so
they can be evaluated, enumerated and counted; a multimap is a map into finite
sets whose absent keys read as the empty set.
-/
import Mathlib

universe u v

/-- A finite map: an association list in which no key occurs twice. -/
abbrev Map (K : Type u) (V : Type v) := AList (fun _ : K => V)

namespace Map

variable {K : Type u} {V : Type v} [DecidableEq K]

/-- What a lookup sees after an insertion. -/
theorem lookup_insert_ite (m : Map K V) (a k : K) (b : V) :
    AList.lookup k (AList.insert a b m) = if k = a then some b else m.lookup k := by
  by_cases h : k = a
  · subst h
    rw [AList.lookup_insert, if_pos rfl]
  · rw [AList.lookup_insert_ne h, if_neg h]

theorem lookup_erase_ite (m : Map K V) (a k : K) :
    AList.lookup k (AList.erase a m) = if k = a then none else m.lookup k := by
  by_cases h : k = a
  · subst h
    rw [AList.lookup_erase, if_pos rfl]
  · rw [AList.lookup_erase_ne h, if_neg h]

theorem lookup_insert_eq_some {m : Map K V} {a k : K} {b v : V} :
    AList.lookup k (AList.insert a b m) = some v ↔
      (k = a ∧ b = v) ∨ (k ≠ a ∧ m.lookup k = some v) := by
  rw [lookup_insert_ite]
  by_cases h : k = a
  · simp [h]
  · simp [h]

theorem lookup_erase_eq_some {m : Map K V} {a k : K} {v : V} :
    AList.lookup k (AList.erase a m) = some v ↔ k ≠ a ∧ m.lookup k = some v := by
  rw [lookup_erase_ite]
  by_cases h : k = a
  · simp [h]
  · simp [h]

def values (m : Map K V) : List V := m.entries.map Sigma.snd

/-- The values listed by an iteration are the ones found by a lookup. -/
theorem mem_values {m : Map K V} {b : V} :
    b ∈ m.values ↔ ∃ k, m.lookup k = some b := by
  rw [values, List.mem_map]
  constructor
  · rintro ⟨⟨k, v⟩, hmem, rfl⟩
    exact ⟨k, AList.mem_lookup_iff.mpr hmem⟩
  · rintro ⟨k, hk⟩
    exact ⟨⟨k, b⟩, AList.mem_lookup_iff.mp hk, rfl⟩

def mapValues {W : Type*} (f : V → W) (m : Map K V) : Map K W :=
  ⟨m.entries.map (Sigma.map id fun _ => f), List.NodupKeys.map₂ (fun _ => f) m.entries m.nodupKeys⟩

/-- What a lookup sees when all values are changed. -/
theorem lookup_mapValues {W : Type*} (f : V → W) (m : Map K V) (k : K) :
    (m.mapValues f).lookup k = (m.lookup k).map f :=
  List.dlookup_map₂ k

end Map

/-- An order of iteration over a hash table: any rearrangement, and possibly a
different one at every walk. -/
structure IterOrder (K : Type u) where
  order : List K → List K
  perm : ∀ keys, (order keys).Perm keys

def IterOrder.entries (K : Type u) : IterOrder K := ⟨fun keys => keys, fun _ => .refl _⟩

/-- A map into finite sets; a key that is not there reads as the empty set. -/
abbrev Multimap (K : Type u) (X : Type v) := Map K (Finset X)

namespace Multimap

variable {K : Type u} {X : Type v} [DecidableEq K]

def bucket (m : Multimap K X) (k : K) : Finset X := (m.lookup k).getD ∅

@[simp] theorem bucket_empty (k : K) : bucket (∅ : Multimap K X) k = ∅ := rfl

variable [DecidableEq X]

/-- Add one value under a key, creating the entry when it is not there. -/
def add (m : Multimap K X) (k : K) (x : X) : Multimap K X :=
  AList.insert k (insert x (m.bucket k)) m

theorem bucket_add (m : Multimap K X) (k k' : K) (x : X) :
    (m.add k x).bucket k' = if k' = k then insert x (m.bucket k) else m.bucket k' := by
  by_cases h : k' = k
  · subst h
    simp [Multimap.bucket, Multimap.add]
  · rw [if_neg h, Multimap.bucket, Multimap.add, Map.lookup_insert_ite, if_neg h, Multimap.bucket]

/-- The only change of `add` is the pair it adds. -/
theorem mem_bucket_add {m : Multimap K X} {k k' : K} {x y : X} :
    y ∈ (m.add k x).bucket k' ↔ (k' = k ∧ y = x) ∨ y ∈ m.bucket k' := by
  rw [bucket_add]
  by_cases h : k' = k
  · subst h
    simp
  · simp [h]

end Multimap
