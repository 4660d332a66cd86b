/-
Sums over a finite map.

A counter beside a hash table often holds the sum of something over its values.
-/
import Nipworker.Lib.Map

namespace Map

open List

variable {K V : Type*}

/-- The sum over the entries. -/
def total (f : V → ℕ) (m : Map K V) : ℕ := (m.values.map f).sum

variable {m : Map K V} (f : V → ℕ)

theorem total_eq_sum (m : Map K V) : total f m = (m.entries.map fun entry => f entry.2).sum := by
  rw [total, values, map_map]
  rfl

variable [DecidableEq K]

theorem sum_kerase {k : K} {b : V} {entries : List (Sigma fun _ : K => V)}
    (hb : entries.dlookup k = some b) :
    (entries.map fun entry => f entry.2).sum =
      f b + ((entries.kerase k).map fun entry => f entry.2).sum := by
  induction entries with
  | nil => contradiction
  | cons entry entries ih =>
    by_cases hk : k = entry.1
    · subst hk
      have hentry : entry.2 = b := by
        rw [dlookup_cons_eq] at hb
        exact Option.some.inj hb
      rw [kerase_cons_eq rfl, map_cons, sum_cons, hentry]
    · rw [dlookup_cons_ne _ _ hk] at hb
      have hrest := ih hb
      rw [kerase_cons_ne hk, map_cons, sum_cons, map_cons, sum_cons, hrest]
      omega

/-- **One entry and the rest.** -/
theorem total_of_lookup {k : K} {b : V} (h : m.lookup k = some b) :
    total f m = f b + total f (m.erase k) := by
  rw [total_eq_sum, total_eq_sum]
  exact sum_kerase f h

theorem le_total {k : K} {b : V} (h : m.lookup k = some b) : f b ≤ total f m := by
  rw [total_of_lookup f h]
  exact Nat.le_add_right _ _

/-- An insertion puts the new value in the place of the old one. -/
theorem total_insert (m : Map K V) (k : K) (b : V) :
    total f (AList.insert k b m) = f b + total f (m.erase k) := by
  rw [total_eq_sum, total_eq_sum, AList.entries_insert, map_cons, sum_cons]
  rfl

theorem erase_of_lookup_none {k : K} (h : m.lookup k = none) : m.erase k = m := by
  refine AList.ext ?_
  exact kerase_of_notMem_keys (AList.lookup_eq_none.mp h)

theorem total_congr {f g : V → ℕ} (h : ∀ k b, m.lookup k = some b → f b = g b) :
    total f m = total g m := by
  rw [total, total, map_congr_left]
  intro b hb
  obtain ⟨k, hk⟩ := mem_values.mp hb
  exact h k b hk

/-! ### The number of entries -/

theorem length_keys_insert_new {k : K} (h : m.lookup k = none) (b : V) :
    (AList.insert k b m).keys.length = m.keys.length + 1 := by
  rw [AList.keys_insert, length_cons, erase_of_not_mem (AList.lookup_eq_none.mp h)]

theorem length_keys_insert_old {k : K} {b : V} (h : m.lookup k = some b) (b' : V) :
    (AList.insert k b' m).keys.length = m.keys.length := by
  have hmem : k ∈ m.keys := AList.lookup_isSome.mp (Option.isSome_iff_exists.mpr ⟨b, h⟩)
  have hpos := length_pos_of_mem hmem
  rw [AList.keys_insert, length_cons, length_erase_of_mem hmem]
  omega

theorem length_keys_erase_le (m : Map K V) (k : K) : (m.erase k).keys.length ≤ m.keys.length := by
  rw [AList.keys_erase]
  exact length_erase_le
end Map
