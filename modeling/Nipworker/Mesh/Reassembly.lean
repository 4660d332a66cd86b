/-
The state of a reassembler (`crates/mesh/src/framing.rs`) after some arrivals.

Messages are cut by one `Fragmenter`; their fragments arrive in any order, the
fragments of different messages mixed, and a fragment possibly again while its
message is unfinished.
-/
import Nipworker.Mesh.Arrivals
import Nipworker.Mesh.Framing

namespace Nipworker

open Arrival List

/-! ### Messages that were cut -/

/-- `count` messages with the ids and payload sizes they were cut with, within
the bounds that the header of a fragment needs. -/
structure Transfer where
  count : ℕ
  id : ℕ → UInt32
  message : ℕ → Bytes
  size : ℕ → ℕ
  id_inj : ∀ {k k'}, k < count → k' < count → id k = id k' → k = k'
  size_pos : ∀ k < count, 0 < size k
  message_pos : ∀ k < count, 0 < (message k).length
  parts_le : ∀ k < count, divCeil (message k).length (size k) ≤ 65535
  payload_le : ∀ k < count, (message k).length ≤ 65535 ∨ size k ≤ 65535

namespace Transfer

variable (t : Transfer)

/-- The number of fragments of message `k`. -/
def parts (k : ℕ) : ℕ := divCeil (t.message k).length (t.size k)

def payload (k j : ℕ) : Bytes := chunk (t.size k) (t.message k) j

def weight (k j : ℕ) : ℕ := (t.payload k j).length

/-- Fragment `j` of message `k`. -/
def fragment (k j : ℕ) : Fragment where
  messageId := t.id k
  index := UInt16.ofNat j
  count := UInt16.ofNat (t.parts k)
  totalLen := UInt32.ofNat (t.message k).length
  payload := t.payload k j

/-- The assembly of message `k` after some arrivals. -/
def assembly (seen : List Arrival) (k : ℕ) : Assembly where
  createdAt := firstAt seen k
  totalLen := (t.message k).length
  fragments := (List.range (t.parts k)).map fun j =>
    if Arrived seen k j then some (t.payload k j) else none
  receivedBytes := held t.parts t.weight seen k

variable {t} {k j : ℕ}

theorem weight_le (hk : k < t.count) : t.weight k j ≤ 65535 := by
  have hlen : t.weight k j = min (t.size k) ((t.message k).length - j * t.size k) :=
    length_chunk _ _ _
  rcases t.payload_le k hk with h | h <;> omega

theorem length_message_lt (hk : k < t.count) : (t.message k).length < 2 ^ 32 := by
  rcases t.payload_le k hk with h | h
  · omega
  · have hcover : (t.message k).length ≤ t.parts k * t.size k :=
      length_le_divCeil_mul (t.size_pos k hk)
    have hmul : t.parts k * t.size k ≤ 65535 * 65535 := Nat.mul_le_mul (t.parts_le k hk) h
    omega

theorem toNat_totalLen (hk : k < t.count) :
    (t.fragment k j).totalLen.toNat = (t.message k).length := by
  show (UInt32.ofNat _).toNat = _
  rw [UInt32.toNat_ofNat']
  exact Nat.mod_eq_of_lt (length_message_lt hk)

theorem toNat_count (hk : k < t.count) : (t.fragment k j).count.toNat = t.parts k := by
  have hle := t.parts_le k hk
  show (UInt16.ofNat _).toNat = _
  rw [UInt16.toNat_ofNat']
  exact Nat.mod_eq_of_lt (show t.parts k < 2 ^ 16 from Nat.lt_succ_of_le hle)

theorem toNat_index (hk : k < t.count) (hj : j < t.parts k) :
    (t.fragment k j).index.toNat = j := by
  have hle : t.parts k ≤ 65535 := t.parts_le k hk
  show (UInt16.ofNat _).toNat = _
  rw [UInt16.toNat_ofNat']
  exact Nat.mod_eq_of_lt (by omega)

theorem decode_fragment (hk : k < t.count) (hj : j < t.parts k) :
    Fragment.decode (t.fragment k j).encode = .ok (t.fragment k j) := by
  refine Fragment.decode_encode ?_ ?_
  · rw [UInt16.lt_iff_toNat_lt, toNat_index hk hj, toNat_count hk]
    exact hj
  · exact Nat.lt_succ_of_le (weight_le hk)

theorem flatMap_payload (hk : k < t.count) :
    (List.range (t.parts k)).flatMap (t.payload k) = t.message k := by
  rw [flatMap_def]
  exact flatten_chunks (t.size_pos k hk) (t.message k)

theorem sum_weight (hk : k < t.count) :
    ∑ j ∈ Finset.range (t.parts k), t.weight k j = (t.message k).length := by
  have hlen := congrArg List.length (flatMap_payload hk)
  rw [length_flatMap] at hlen
  show (Multiset.map (t.weight k) (List.range (t.parts k) : Multiset ℕ)).sum = _
  rw [Multiset.map_coe, Multiset.sum_coe]
  exact hlen

/-! ### The state of a reassembler -/

variable (t) in
def load (seen : List Arrival) : ℕ :=
  ∑ k ∈ Finset.range t.count,
    if Unfinished t.parts seen k then held t.parts t.weight seen k else 0

variable (t) in
/-- A reassembler that has seen some arrivals holds the assemblies of the
unfinished messages and nothing else. -/
structure Holds (r : Reassembler) (seen : List Arrival) : Prop where
  lookup : ∀ k < t.count, r.assemblies.lookup (t.id k)
    = if Unfinished t.parts seen k then some (t.assembly seen k) else none
  keys : ∀ id ∈ r.assemblies, ∃ k < t.count, Unfinished t.parts seen k ∧ id = t.id k
  bytes : r.inflightBytes = t.load seen

variable (t) in
/-- The bounds of the reassembler hold when `a` comes in after `seen`. -/
structure Within (r : Reassembler) (seen : List Arrival) (a : Arrival) : Prop where
  messages : (assembling t.parts t.count seen a).card ≤ r.maxInflightMessages
  bytes : ∑ k ∈ assembling t.parts t.count seen a, held t.parts t.weight (seen ++ [a]) k
    ≤ r.maxInflightBytes
  timeout : ∀ k < t.count, Unfinished t.parts seen k → a.time - firstAt seen k < r.timeout

def result (t : Transfer) (seen : List Arrival) (a : Arrival) : Option Bytes :=
  if Complete t.parts (seen ++ [a]) a.message then some (t.message a.message) else none

variable {r : Reassembler} {seen : List Arrival} {a : Arrival}

theorem holds_new (timeout maxMessageSize maxInflightMessages maxInflightBytes : ℕ) :
    t.Holds (Reassembler.new timeout maxMessageSize maxInflightMessages maxInflightBytes) [] where
  lookup := by
    intro k _
    rw [if_neg]
    · rfl
    · rintro ⟨⟨a, hmem, -⟩, -⟩
      exact absurd hmem not_mem_nil
  keys := by
    intro id hid
    exact absurd hid (AList.notMem_empty id)
  bytes := by
    refine (Finset.sum_eq_zero fun k _ => if_neg ?_).symm
    rintro ⟨⟨a, hmem, -⟩, -⟩
    exact absurd hmem not_mem_nil

theorem Holds.prune (h : t.Holds r seen)
    (ha : ∀ k < t.count, Unfinished t.parts seen k → a.time - firstAt seen k < r.timeout) :
    r.prune a.time = r := by
  have hexpired : r.expired a.time = [] := by
    rw [Reassembler.expired, map_eq_nil_iff, filter_eq_nil_iff]
    rintro ⟨id, assembly⟩ hmem hold
    have hlookup : r.assemblies.lookup id = some assembly := AList.mem_lookup_iff.mpr hmem
    obtain ⟨k, hk, hunf, rfl⟩ := h.keys id (AList.lookup_isSome.mp (by rw [hlookup]; rfl))
    rw [h.lookup k hk, if_pos hunf, Option.some.injEq] at hlookup
    have hage := ha k hk hunf
    have hold : a.time - assembly.createdAt ≥ r.timeout := of_decide_eq_true hold
    rw [← hlookup] at hold
    have : a.time - firstAt seen k ≥ r.timeout := hold
    omega
  rw [Reassembler.prune, hexpired, foldl_nil]

theorem Holds.length_keys (h : t.Holds r seen) :
    r.assemblies.keys.length
      = ((Finset.range t.count).filter fun k => Unfinished t.parts seen k).card := by
  have himage : r.assemblies.keys.toFinset
      = ((Finset.range t.count).filter fun k => Unfinished t.parts seen k).image t.id := by
    ext id
    rw [mem_toFinset, ← AList.mem_keys, Finset.mem_image]
    constructor
    · intro hid
      obtain ⟨k, hk, hunf, rfl⟩ := h.keys id hid
      exact ⟨k, Finset.mem_filter.mpr ⟨Finset.mem_range.mpr hk, hunf⟩, rfl⟩
    · rintro ⟨k, hmem, rfl⟩
      obtain ⟨hk, hunf⟩ := Finset.mem_filter.mp hmem
      rw [← AList.lookup_isSome, h.lookup k (Finset.mem_range.mp hk), if_pos hunf]
      rfl
  rw [← toFinset_card_of_nodup r.assemblies.keys_nodup, himage, Finset.card_image_of_injOn]
  intro k hk k' hk' heq
  have hlt := Finset.mem_range.mp (Finset.mem_filter.mp hk).1
  have hlt' := Finset.mem_range.mp (Finset.mem_filter.mp hk').1
  exact t.id_inj hlt hlt' heq

variable (t) in
/-- The bytes held for the unfinished messages other than `k`. -/
def loadOthers (seen : List Arrival) (k : ℕ) : ℕ :=
  ∑ k' ∈ (Finset.range t.count).erase k,
    if Unfinished t.parts seen k' then held t.parts t.weight seen k' else 0

theorem load_eq (hk : k < t.count) :
    t.load seen
      = (if Unfinished t.parts seen k then held t.parts t.weight seen k else 0)
        + t.loadOthers seen k :=
  (Finset.add_sum_erase _ _ (Finset.mem_range.mpr hk)).symm

theorem load_of_expected (ha : Expected t.parts t.count seen a) :
    t.load seen = held t.parts t.weight seen a.message + t.loadOthers seen a.message := by
  obtain ⟨hk, -, hopen⟩ := ha
  rw [load_eq hk]
  by_cases hstarted : Started seen a.message
  · rw [if_pos ⟨hstarted, hopen⟩]
  · rw [if_neg fun h => hstarted h.1, held_of_not_started hstarted]

theorem loadOthers_append :
    t.loadOthers (seen ++ [a]) a.message = t.loadOthers seen a.message := by
  refine Finset.sum_congr rfl fun k' hk' => ?_
  have hne : a.message ≠ k' := (Finset.ne_of_mem_erase hk').symm
  exact if_congr (unfinished_append_of_ne hne) (held_append_of_ne hne) rfl

theorem load_append (hk : a.message < t.count) :
    t.load (seen ++ [a])
      = (if Unfinished t.parts (seen ++ [a]) a.message then
          held t.parts t.weight (seen ++ [a]) a.message else 0)
        + t.loadOthers seen a.message := by
  rw [load_eq hk, loadOthers_append]

theorem sum_assembling (hk : a.message < t.count) :
    ∑ k ∈ assembling t.parts t.count seen a, held t.parts t.weight (seen ++ [a]) k
      = held t.parts t.weight (seen ++ [a]) a.message + t.loadOthers seen a.message := by
  rw [assembling, Finset.sum_filter, ← Finset.add_sum_erase _ _ (Finset.mem_range.mpr hk),
    if_pos (.inr rfl)]
  congr 1
  refine Finset.sum_congr rfl fun k' hk' => ?_
  have hne : a.message ≠ k' := (Finset.ne_of_mem_erase hk').symm
  exact if_congr (or_iff_left hne.symm) (held_append_of_ne hne) rfl

/-- The assembly of `a`'s message at the moment `a` is put in. -/
def opened (t : Transfer) (seen : List Arrival) (a : Arrival) : Assembly :=
  { t.assembly seen a.message with createdAt := firstAt (seen ++ [a]) a.message }

theorem Holds.assemblyFor (h : t.Holds r seen) (ha : Expected t.parts t.count seen a)
    (hw : t.Within r seen a) :
    r.assemblyFor (t.fragment a.message a.fragment) a.time = .ok (t.opened seen a) := by
  obtain ⟨hk, -, hopen⟩ := ha
  have hlookup := h.lookup a.message hk
  by_cases hstarted : Started seen a.message
  · rw [if_pos ⟨hstarted, hopen⟩] at hlookup
    rw [Reassembler.assemblyFor, show (t.fragment a.message a.fragment).messageId = t.id a.message
      from rfl, hlookup, opened, firstAt_append_of_started hstarted]
    rfl
  · -- the message is new, and it counts among the ones under assembly
    have hnot : ¬ Unfinished t.parts seen a.message := fun hunf => hstarted hunf.1
    rw [if_neg hnot] at hlookup
    have hroom : ¬ r.assemblies.keys.length ≥ r.maxInflightMessages := by
      have hmem : a.message ∉ (Finset.range t.count).filter fun k => Unfinished t.parts seen k :=
        fun hm => hnot (Finset.mem_filter.mp hm).2
      have hcard : (assembling t.parts t.count seen a).card = r.assemblies.keys.length + 1 := by
        rw [h.length_keys, ← Finset.card_insert_of_notMem hmem]
        congr 1
        ext k
        simp only [assembling, Finset.mem_filter, Finset.mem_range, Finset.mem_insert]
        constructor
        · rintro ⟨hlt, hunf | rfl⟩
          · exact .inr ⟨hlt, hunf⟩
          · exact .inl rfl
        · rintro (rfl | ⟨hlt, hunf⟩)
          · exact ⟨hk, .inr rfl⟩
          · exact ⟨hlt, .inl hunf⟩
      have := hw.messages
      omega
    have hempty : (List.range (t.parts a.message)).map (fun j =>
        if Arrived seen a.message j then some (t.payload a.message j) else none)
        = List.replicate (t.parts a.message) none := by
      refine List.eq_replicate_iff.mpr ⟨by simp, ?_⟩
      intro part hpart
      obtain ⟨j, -, rfl⟩ := List.mem_map.mp hpart
      exact if_neg fun harr => hstarted harr.started
    rw [Reassembler.assemblyFor, show (t.fragment a.message a.fragment).messageId = t.id a.message
      from rfl, hlookup]
    dsimp only
    rw [if_neg hroom, toNat_totalLen hk, toNat_count hk, opened, assembly, hempty,
      firstAt_append_of_not_started hstarted, held_of_not_started hstarted]

theorem assembly_append_of_ne (h : a.message ≠ k) :
    t.assembly (seen ++ [a]) k = t.assembly seen k := by
  have hparts : ∀ j, (if Arrived (seen ++ [a]) k j then some (t.payload k j) else none)
      = if Arrived seen k j then some (t.payload k j) else none :=
    fun j => if_congr (arrived_append_of_ne h) rfl rfl
  rw [assembly, assembly, firstAt_append_of_ne h, held_append_of_ne h]
  simp only [hparts]

theorem Holds.update (h : t.Holds r seen) (hk : a.message < t.count) {r' : Reassembler}
    (hentry : r'.assemblies.lookup (t.id a.message)
      = if Unfinished t.parts (seen ++ [a]) a.message then
          some (t.assembly (seen ++ [a]) a.message) else none)
    (hothers : ∀ id ≠ t.id a.message, r'.assemblies.lookup id = r.assemblies.lookup id)
    (hbytes : r'.inflightBytes = t.load (seen ++ [a])) : t.Holds r' (seen ++ [a]) where
  lookup := by
    intro k hlt
    by_cases heq : a.message = k
    · subst heq
      exact hentry
    · have hid : t.id k ≠ t.id a.message := fun hid => heq (t.id_inj hk hlt hid.symm)
      rw [hothers _ hid, h.lookup k hlt, assembly_append_of_ne heq]
      exact (if_congr (unfinished_append_of_ne heq) rfl rfl).symm
  keys := by
    intro id hid
    by_cases heq : id = t.id a.message
    · subst heq
      refine ⟨a.message, hk, ?_, rfl⟩
      by_contra hnot
      rw [if_neg hnot] at hentry
      rw [← AList.lookup_isSome, hentry] at hid
      exact absurd hid (by decide)
    · rw [← AList.lookup_isSome, hothers id heq, AList.lookup_isSome] at hid
      obtain ⟨k, hlt, hunf, rfl⟩ := h.keys id hid
      have hne : a.message ≠ k := fun hne => heq (by rw [hne])
      exact ⟨k, hlt, (unfinished_append_of_ne hne).mpr hunf, rfl⟩
  bytes := hbytes

theorem getD_fragments (hj : j < t.parts k) :
    (t.assembly seen k).fragments.getD j none
      = if Arrived seen k j then some (t.payload k j) else none := by
  rw [getD_eq_getElem?_getD, assembly, List.getElem?_map, List.getElem?_range hj]
  rfl

theorem opened_of_arrived (h : Arrived seen a.message a.fragment) :
    t.opened seen a = t.assembly (seen ++ [a]) a.message := by
  have hparts : ∀ j, (if Arrived (seen ++ [a]) a.message j then some (t.payload a.message j)
      else none) = if Arrived seen a.message j then some (t.payload a.message j) else none :=
    fun j => if_congr (arrived_append_of_arrived h) rfl rfl
  have hheld : held t.parts t.weight (seen ++ [a]) a.message
      = held t.parts t.weight seen a.message :=
    Finset.sum_congr rfl fun j _ => if_congr (arrived_append_of_arrived h) rfl rfl
  rw [opened, assembly, assembly, hheld]
  simp only [hparts]

theorem opened_set (hj : a.fragment < t.parts a.message)
    (hnew : ¬ Arrived seen a.message a.fragment) :
    (t.opened seen a).put a.fragment (t.fragment a.message a.fragment).payload
      = t.assembly (seen ++ [a]) a.message := by
  have hset : (t.opened seen a).fragments.set a.fragment
      (some (t.fragment a.message a.fragment).payload)
      = (t.assembly (seen ++ [a]) a.message).fragments := by
    refine ext_getElem? fun j => ?_
    show (((List.range (t.parts a.message)).map fun j =>
        if Arrived seen a.message j then some (t.payload a.message j) else none).set a.fragment
          (some (t.payload a.message a.fragment)))[j]? = _
    rw [List.getElem?_set, assembly, List.getElem?_map, List.getElem?_map]
    by_cases heq : a.fragment = j
    · subst heq
      rw [if_pos rfl, if_pos (by simpa using hj), List.getElem?_range hj, Option.map_some,
        if_pos (arrived_append.mpr (.inr ⟨rfl, rfl⟩))]
    · rw [if_neg heq]
      by_cases hlt : j < t.parts a.message
      · have harr : Arrived seen a.message j ↔ Arrived (seen ++ [a]) a.message j :=
          (arrived_append.trans (or_iff_left fun h => heq h.2)).symm
        rw [List.getElem?_range hlt, Option.map_some, Option.map_some]
        exact congrArg some (if_congr harr rfl rfl)
      · rw [List.getElem?_eq_none (by simpa using hlt), Option.map_none, Option.map_none]
  have hheld : (t.opened seen a).receivedBytes + (t.fragment a.message a.fragment).payload.length
      = held t.parts t.weight (seen ++ [a]) a.message :=
    (held_append_of_new hj hnew).symm
  rw [Assembly.put, hset, hheld]
  rfl

theorem none_mem_fragments :
    none ∈ (t.assembly seen k).fragments ↔ ¬ Complete t.parts seen k := by
  rw [assembly, mem_map, Complete, not_forall]
  constructor
  · rintro ⟨j, hj, hnone⟩
    refine ⟨j, fun hall => ?_⟩
    rw [if_pos (hall (List.mem_range.mp hj))] at hnone
    cases hnone
  · rintro ⟨j, hj⟩
    rw [Classical.not_imp] at hj
    exact ⟨j, List.mem_range.mpr hj.1, if_neg hj.2⟩

theorem flatMap_fragments (hk : k < t.count) (h : Complete t.parts seen k) :
    (t.assembly seen k).fragments.flatMap (fun part => part.getD []) = t.message k := by
  rw [assembly, flatMap_map, ← flatMap_payload hk]
  refine flatMap_congr fun j hj => ?_
  rw [if_pos (h j (List.mem_range.mp hj))]
  rfl

def SameBounds (r r' : Reassembler) : Prop :=
  r'.timeout = r.timeout ∧ r'.maxMessageSize = r.maxMessageSize
    ∧ r'.maxInflightMessages = r.maxInflightMessages ∧ r'.maxInflightBytes = r.maxInflightBytes

theorem fill_check (hk : a.message < t.count) :
    ¬ ((t.opened seen a).totalLen ≠ (t.fragment a.message a.fragment).totalLen.toNat
      ∨ (t.opened seen a).fragments.length
        ≠ (t.fragment a.message a.fragment).count.toNat) := by
  rw [toNat_totalLen hk, toNat_count hk, not_or, not_not, not_not]
  exact ⟨rfl, by simp [opened, assembly]⟩

theorem started_append_self : Started (seen ++ [a]) a.message := started_append.mpr (.inr rfl)

theorem Holds.fill_again (h : t.Holds r seen) (ha : Expected t.parts t.count seen a)
    (harr : Arrived seen a.message a.fragment) :
    ∃ r', r.fill (t.fragment a.message a.fragment) (t.opened seen a)
        = (.ok (t.result seen a), r')
      ∧ t.Holds r' (seen ++ [a]) ∧ SameBounds r r' := by
  have ⟨hk, hj, hopen⟩ := ha
  have hslot : (t.opened seen a).fragments.getD a.fragment none
      = some (t.payload a.message a.fragment) :=
    (getD_fragments hj).trans (if_pos harr)
  have hopen' : ¬ Complete t.parts (seen ++ [a]) a.message := fun hc =>
    hopen fun j hj => (arrived_append_of_arrived harr).mp (hc j hj)
  have hunf : Unfinished t.parts (seen ++ [a]) a.message := ⟨started_append_self, hopen'⟩
  have hheld : held t.parts t.weight (seen ++ [a]) a.message
      = held t.parts t.weight seen a.message :=
    Finset.sum_congr rfl fun j _ => if_congr (arrived_append_of_arrived harr) rfl rfl
  refine ⟨r.store (t.id a.message) (t.opened seen a), ?_, h.update hk ?_ ?_ ?_, rfl, rfl, rfl, rfl⟩
  · rw [Reassembler.fill, if_neg (fill_check hk), toNat_index hk hj, hslot, result, if_neg hopen']
    exact if_neg (not_not.mpr rfl)
  · rw [if_pos hunf, Reassembler.store, AList.lookup_insert, opened_of_arrived harr]
  · intro id hne
    exact AList.lookup_insert_ne hne
  · rw [load_append hk, if_pos hunf, hheld, ← load_of_expected ha]
    exact h.bytes

theorem Holds.fill_new (h : t.Holds r seen) (ha : Expected t.parts t.count seen a)
    (hw : t.Within r seen a) (hnew : ¬ Arrived seen a.message a.fragment) :
    ∃ r', r.fill (t.fragment a.message a.fragment) (t.opened seen a)
        = (.ok (t.result seen a), r')
      ∧ t.Holds r' (seen ++ [a]) ∧ SameBounds r r' := by
  have ⟨hk, hj, hopen⟩ := ha
  have hslot : (t.opened seen a).fragments.getD a.fragment none = none :=
    (getD_fragments hj).trans (if_neg hnew)
  have hload : r.inflightBytes + (t.fragment a.message a.fragment).payload.length
      = held t.parts t.weight (seen ++ [a]) a.message + t.loadOthers seen a.message := by
    have hadd : held t.parts t.weight (seen ++ [a]) a.message
        = held t.parts t.weight seen a.message
          + (t.fragment a.message a.fragment).payload.length :=
      held_append_of_new hj hnew
    rw [h.bytes, load_of_expected ha, hadd]
    omega
  have hroom : ¬ r.inflightBytes + (t.fragment a.message a.fragment).payload.length
      > r.maxInflightBytes := by
    have hbytes := hw.bytes
    rw [sum_assembling hk] at hbytes
    omega
  by_cases hc : Complete t.parts (seen ++ [a]) a.message
  · have hsize : ¬ (t.assembly (seen ++ [a]) a.message).receivedBytes
        ≠ (t.assembly (seen ++ [a]) a.message).totalLen := by
      rw [not_not]
      exact (held_of_complete hc).trans (sum_weight hk)
    have hfin : ¬ Unfinished t.parts (seen ++ [a]) a.message := fun hunf => hunf.2 hc
    refine ⟨{ r with
        assemblies := (((r.store (t.id a.message) (t.opened seen a)).store (t.id a.message)
          (t.assembly (seen ++ [a]) a.message)).assemblies).erase (t.id a.message)
        inflightBytes := r.inflightBytes + (t.fragment a.message a.fragment).payload.length
          - (t.assembly (seen ++ [a]) a.message).receivedBytes }, ?_,
      h.update hk ?_ ?_ ?_, rfl, rfl, rfl, rfl⟩
    · rw [Reassembler.fill, if_neg (fill_check hk), toNat_index hk hj, hslot]
      dsimp only
      rw [if_neg hroom, opened_set hj hnew, Reassembler.finish,
        if_neg (fun hmem => none_mem_fragments.mp hmem hc), if_neg hsize,
        flatMap_fragments hk hc, result, if_pos hc]
      rfl
    · dsimp only
      rw [if_neg hfin, AList.lookup_erase]
    · intro id hne
      dsimp only [Reassembler.store]
      rw [AList.lookup_erase_ne hne, AList.lookup_insert_ne hne, AList.lookup_insert_ne hne]
    · rw [load_append hk, if_neg hfin]
      show r.inflightBytes + (t.fragment a.message a.fragment).payload.length
        - held t.parts t.weight (seen ++ [a]) a.message = _
      omega
  · have hunf : Unfinished t.parts (seen ++ [a]) a.message := ⟨started_append_self, hc⟩
    refine ⟨{ (r.store (t.id a.message) (t.opened seen a)).store (t.id a.message)
          (t.assembly (seen ++ [a]) a.message) with
        inflightBytes := r.inflightBytes + (t.fragment a.message a.fragment).payload.length }, ?_,
      h.update hk ?_ ?_ ?_, rfl, rfl, rfl, rfl⟩
    · rw [Reassembler.fill, if_neg (fill_check hk), toNat_index hk hj, hslot]
      dsimp only
      rw [if_neg hroom, opened_set hj hnew, Reassembler.finish,
        if_pos (none_mem_fragments.mpr hc), result, if_neg hc]
      rfl
    · dsimp only [Reassembler.store]
      rw [if_pos hunf, AList.lookup_insert]
    · intro id hne
      dsimp only [Reassembler.store]
      rw [AList.lookup_insert_ne hne, AList.lookup_insert_ne hne]
    · rw [load_append hk, if_pos hunf]
      exact hload

/-- **One push.**  An expected fragment within the bounds returns its message
when it was the last one missing, and nothing otherwise. -/
theorem Holds.push (h : t.Holds r seen) (ha : Expected t.parts t.count seen a)
    (hw : t.Within r seen a) (hsize : (t.message a.message).length ≤ r.maxMessageSize) :
    ∃ r', r.push (t.fragment a.message a.fragment).encode a.time = (.ok (t.result seen a), r')
      ∧ t.Holds r' (seen ++ [a]) ∧ SameBounds r r' := by
  have ⟨hk, hj, _⟩ := ha
  have hpos := t.message_pos a.message hk
  have htotal : ¬ ((t.fragment a.message a.fragment).totalLen.toNat = 0
      ∨ (t.fragment a.message a.fragment).totalLen.toNat > r.maxMessageSize) := by
    rw [toNat_totalLen hk]
    omega
  have hpush : r.push (t.fragment a.message a.fragment).encode a.time
      = r.fill (t.fragment a.message a.fragment) (t.opened seen a) := by
    rw [Reassembler.push, h.prune hw.timeout, decode_fragment hk hj]
    dsimp only
    rw [if_neg htotal, h.assemblyFor ha hw]
  rw [hpush]
  by_cases harr : Arrived seen a.message a.fragment
  · exact h.fill_again ha harr
  · exact h.fill_new ha hw harr

/-! ### The run -/

def write (t : Transfer) (a : Arrival) : Bytes × ℕ :=
  ((t.fragment a.message a.fragment).encode, a.time)

theorem Within.of_sameBounds {r' : Reassembler} (hw : t.Within r seen a) (hb : SameBounds r r') :
    t.Within r' seen a where
  messages := by rw [hb.2.2.1]; exact hw.messages
  bytes := by rw [hb.2.2.2]; exact hw.bytes
  timeout := by rw [hb.1]; exact hw.timeout

/-- **All pushes.**  From a reassembler that holds `seen`, every further arrival
returns what it should. -/
theorem Holds.pushAll {rest : List Arrival} (h : t.Holds r seen)
    (ha : ∀ mid b tail, rest = mid ++ b :: tail → Expected t.parts t.count (seen ++ mid) b)
    (hw : ∀ mid b tail, rest = mid ++ b :: tail → t.Within r (seen ++ mid) b)
    (hsize : ∀ k < t.count, (t.message k).length ≤ r.maxMessageSize) :
    ∀ (i : ℕ) (a : Arrival), rest[i]? = some a →
      (r.pushAll (rest.map t.write)).1[i]?
        = some (Except.ok (t.result (seen ++ rest.take i) a)) := by
  induction rest generalizing r seen with
  | nil =>
    intro i a hi
    simp at hi
  | cons b rest ih =>
    obtain ⟨hb, ha⟩ := along_cons ha
    obtain ⟨hwb, hw⟩ := along_cons hw
    obtain ⟨r', hpush, hholds, hbounds⟩ := h.push hb hwb (hsize _ hb.1)
    have hall : r.pushAll ((b :: rest).map t.write)
        = (.ok (t.result seen b) :: (r'.pushAll (rest.map t.write)).1,
          (r'.pushAll (rest.map t.write)).2) := by
      rw [map_cons, write, Reassembler.pushAll, hpush]
    intro i a hi
    rw [hall]
    cases i with
    | zero =>
      rw [List.getElem?_cons_zero, Option.some.injEq] at hi
      subst hi
      rw [take_zero, append_nil]
      rfl
    | succ i =>
      rw [List.getElem?_cons_succ] at hi
      rw [take_succ_cons, List.getElem?_cons_succ]
      have hstep := ih hholds ha (fun mid c tail hc => (hw mid c tail hc).of_sameBounds hbounds)
        (fun k hk => by rw [hbounds.2.1]; exact hsize k hk) i a hi
      rw [hstep, append_assoc, singleton_append]

end Transfer

end Nipworker
