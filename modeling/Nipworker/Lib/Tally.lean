/-
Counting occurrences, and the keys that occur most often.

A walk over some keys counts each in a hash map; the map is then listed, in
whatever order the table has, sorted by falling count and then by key, and cut
off.
-/
import Mathlib.Data.List.Sort
import Mathlib.Data.List.Induction
import Nipworker.Lib.Map

universe u

variable {K : Type u} [LinearOrder K]

/-- One more occurrence of a key, `*counts.entry(key).or_insert(0) += 1`. -/
def countUp (counts : Map K ℕ) (key : K) : Map K ℕ :=
  AList.insert key ((counts.lookup key).getD 0 + 1) counts

/-- How often each key occurs. -/
def tally (keys : List K) : Map K ℕ := keys.foldl countUp ∅

/-- An entry holds how often its key occurs. -/
theorem lookup_tally (keys : List K) (key : K) :
    (tally keys).lookup key = if key ∈ keys then some (keys.count key) else none := by
  induction keys using List.reverseRecOn with
  | nil => rfl
  | append_singleton keys last ih =>
    have hfold : tally (keys ++ [last]) = countUp (tally keys) last := by
      rw [tally, List.foldl_append]
      rfl
    rw [hfold, countUp, Map.lookup_insert_ite, List.count_append]
    by_cases hkey : key = last
    · subst hkey
      rw [if_pos rfl, if_pos (List.mem_append_right _ (List.mem_singleton_self key)), ih,
        List.count_singleton_self]
      by_cases hmem : key ∈ keys
      · rw [if_pos hmem, Option.getD_some]
      · rw [if_neg hmem, Option.getD_none, List.count_eq_zero_of_not_mem hmem]
    · have hlast : key ∈ keys ++ [last] ↔ key ∈ keys := by simp [hkey]
      have hother : [last].count key = 0 := List.count_eq_zero_of_not_mem (by simpa using hkey)
      rw [if_neg hkey, ih, hother, Nat.add_zero]
      simp only [hlast]

theorem tally_eq_empty_iff (keys : List K) : (tally keys).keys = [] ↔ keys = [] := by
  constructor
  · intro hempty
    rcases keys with _ | ⟨key, rest⟩
    · rfl
    · have hmem : key ∈ (tally (key :: rest)).keys := by
        rw [← AList.mem_keys, ← AList.lookup_isSome, lookup_tally,
          if_pos List.mem_cons_self]
        rfl
      rw [hempty] at hmem
      exact absurd hmem List.not_mem_nil
  · rintro rfl
    rfl

/-! ### The keys that occur most often -/

/-- A key with a larger count, or with the same count and smaller itself. -/
def Outranks (count : K → ℕ) (a b : K) : Prop :=
  count b < count a ∨ count b = count a ∧ a < b

/-- The first `n` keys that have a count, by falling count and then by key. -/
structure TopRanked (count : K → ℕ) (n : ℕ) (out : List K) : Prop where
  counted : ∀ a ∈ out, 0 < count a
  ranked : out.Pairwise (Outranks count)
  short : out.length ≤ n
  complete : ∀ a, 0 < count a → a ∉ out → out.length = n ∧ ∀ b ∈ out, Outranks count b a

/-- The order of the entries, `b.1.cmp(&a.1).then_with(|| a.0.cmp(&b.0))`. -/
def RanksBefore (a b : K × ℕ) : Prop := b.2 < a.2 ∨ b.2 = a.2 ∧ a.1 ≤ b.1

instance : DecidableRel (RanksBefore (K := K)) := fun a b =>
  inferInstanceAs (Decidable (b.2 < a.2 ∨ b.2 = a.2 ∧ a.1 ≤ b.1))

instance : Std.Total (RanksBefore (K := K)) := ⟨fun a b => by
  rcases lt_trichotomy a.2 b.2 with h | h | h
  · exact .inr (.inl h)
  · rcases le_total a.1 b.1 with hle | hle
    · exact .inl (.inr ⟨h.symm, hle⟩)
    · exact .inr (.inr ⟨h, hle⟩)
  · exact .inl (.inl h)⟩

instance : IsTrans (K × ℕ) RanksBefore := ⟨by
  rintro a b c (hab | ⟨hab, hle⟩) (hbc | ⟨hbc, hle'⟩)
  · exact .inl (by omega)
  · exact .inl (by omega)
  · exact .inl (by omega)
  · exact .inr ⟨by omega, hle.trans hle'⟩⟩

def walkEntries (walk : IterOrder K) (counts : Map K ℕ) : List (K × ℕ) :=
  (walk.order counts.keys).filterMap fun key => (counts.lookup key).map fun n => (key, n)

/-- The first `n` keys of a map of counts. -/
def rankedKeys (walk : IterOrder K) (n : ℕ) (counts : Map K ℕ) : List K :=
  ((List.insertionSort RanksBefore (walkEntries walk counts)).take n).map Prod.fst

theorem mem_walkEntries {walk : IterOrder K} {counts : Map K ℕ} {key : K} {n : ℕ} :
    (key, n) ∈ walkEntries walk counts ↔ counts.lookup key = some n := by
  rw [walkEntries, List.mem_filterMap]
  constructor
  · rintro ⟨key', -, heq⟩
    rw [Option.map_eq_some_iff] at heq
    obtain ⟨n', hlookup, heq⟩ := heq
    cases heq
    exact hlookup
  · intro hlookup
    refine ⟨key, ?_, by rw [hlookup]; rfl⟩
    rw [(walk.perm _).mem_iff, ← AList.mem_keys, ← AList.lookup_isSome, hlookup]
    rfl

theorem nodup_walkEntries (walk : IterOrder K) (counts : Map K ℕ) :
    ((walkEntries walk counts).map Prod.fst).Nodup := by
  have hsub : ((walkEntries walk counts).map Prod.fst).Sublist (walk.order counts.keys) := by
    rw [walkEntries, List.map_filterMap]
    generalize walk.order counts.keys = keys
    induction keys with
    | nil => exact .slnil
    | cons key rest ih =>
      rw [List.filterMap_cons]
      rcases counts.lookup key with _ | n
      · exact ih.cons key
      · exact ih.cons_cons key
  exact hsub.nodup ((walk.perm _).nodup_iff.mpr counts.keys_nodup)

/-- **The selection from a tally.**  Whatever the order of the table, the keys
that are selected are the first ones by how often they occur. -/
theorem topRanked_rankedKeys (walk : IterOrder K) (n : ℕ) (keys : List K) :
    TopRanked (keys.count ·) n (rankedKeys walk n (tally keys)) := by
  set sorted := List.insertionSort RanksBefore (walkEntries walk (tally keys)) with hsorted
  have hperm : sorted.Perm (walkEntries walk (tally keys)) := List.perm_insertionSort _ _
  have hmem : ∀ key m, (key, m) ∈ sorted ↔ key ∈ keys ∧ keys.count key = m := by
    intro key m
    rw [hperm.mem_iff, mem_walkEntries, lookup_tally]
    by_cases hkey : key ∈ keys
    · rw [if_pos hkey, Option.some.injEq]
      exact ⟨fun h => ⟨hkey, h⟩, And.right⟩
    · rw [if_neg hkey]
      exact ⟨fun h => absurd h.symm (Option.some_ne_none m), fun h => absurd h.1 hkey⟩
  have hnodup : (sorted.map Prod.fst).Nodup :=
    (hperm.map Prod.fst).nodup_iff.mpr (nodup_walkEntries walk _)
  -- no key is listed twice, so the order is a strict one
  have hstrict : sorted.Pairwise fun a b => Outranks (keys.count ·) a.1 b.1 := by
    have hsort : sorted.Pairwise RanksBefore := List.pairwise_insertionSort _ _
    refine (hsort.and (List.pairwise_map.mp hnodup)).imp_of_mem ?_
    rintro ⟨a, m⟩ ⟨b, m'⟩ ha hb ⟨hle, hne⟩
    obtain ⟨-, hm⟩ := (hmem a m).mp ha
    obtain ⟨-, hm'⟩ := (hmem b m').mp hb
    rcases hle with hlt | ⟨heq, hle⟩
    · exact .inl (by show keys.count b < keys.count a; rw [hm, hm']; exact hlt)
    · exact .inr ⟨by show keys.count b = keys.count a; rw [hm, hm']; exact heq,
        lt_of_le_of_ne hle hne⟩
  have hsplit := List.take_append_drop n sorted
  rw [← hsplit, List.pairwise_append] at hstrict
  obtain ⟨htake, -, hacross⟩ := hstrict
  refine ⟨?_, List.pairwise_map.mpr htake, ?_, ?_⟩
  · intro a ha
    obtain ⟨⟨b, m⟩, hb, rfl⟩ := List.mem_map.mp ha
    exact List.count_pos_iff.mpr ((hmem b m).mp (List.mem_of_mem_take hb)).1
  · rw [rankedKeys, List.length_map, List.length_take]
    exact Nat.min_le_left _ _
  · intro a ha hout
    have hentry : (a, keys.count a) ∈ sorted :=
      (hmem a _).mpr ⟨List.count_pos_iff.mp ha, rfl⟩
    rw [← hsplit, List.mem_append] at hentry
    rcases hentry with htaken | hdrop
    · exact absurd (List.mem_map.mpr ⟨_, htaken, rfl⟩) hout
    · refine ⟨?_, ?_⟩
      · have hlen := List.length_pos_of_mem hdrop
        rw [List.length_drop] at hlen
        rw [rankedKeys, List.length_map, List.length_take, ← hsorted]
        omega
      · intro b hb
        obtain ⟨entry, hentry, rfl⟩ := List.mem_map.mp hb
        exact hacross entry hentry _ hdrop
