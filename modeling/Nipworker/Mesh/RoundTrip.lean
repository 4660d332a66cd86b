/-
The round trip through fragmentation and reassembly
(`crates/mesh/src/framing.rs`).
-/
import Nipworker.Mesh.Reassembly

namespace Nipworker

open Arrival List Option

section RoundTrip

variable (frames : List (List Bytes))

/-- The number of fragments of message `k`. -/
def partsOf (k : ℕ) : ℕ := (frames.getD k []).length

/-- The bytes of message `k` in fragment `j`. -/
def weightOf (k j : ℕ) : ℕ := ((frames.getD k []).getD j []).length - headerLen

def writes (arrivals : List Arrival) : List (Bytes × ℕ) :=
  arrivals.map fun a => ((frames.getD a.message []).getD a.fragment [], a.time)

/-- All fragments arrive, in some order; a fragment may come again as long as
its message is not complete. -/
structure ArrivesAll (arrivals : List Arrival) : Prop where
  expected : Along (Expected (partsOf frames) frames.length) arrivals
  complete : ∀ k < frames.length, Complete (partsOf frames) arrivals k

/-- The bounds of the reassembler are kept at every arrival: on the size of a
message, on the messages under assembly, on the bytes held for them, and on the
time since the first fragment of an unfinished message. -/
structure WithinBounds (r : Reassembler) (messages : List (Bytes × ℕ))
    (arrivals : List Arrival) : Prop where
  size : ∀ m ∈ messages, m.1.length ≤ r.maxMessageSize
  inflightMessages : Along (fun seen a =>
    (assembling (partsOf frames) frames.length seen a).card ≤ r.maxInflightMessages) arrivals
  inflightBytes : Along (fun seen a =>
    ∑ k ∈ assembling (partsOf frames) frames.length seen a,
      held (partsOf frames) (weightOf frames) (seen ++ [a]) k ≤ r.maxInflightBytes) arrivals
  timeout : Along (fun seen a => ∀ k < frames.length, Unfinished (partsOf frames) seen k →
    a.time - firstAt seen k < r.timeout) arrivals

/-- Every push returns the message it completes and nothing otherwise, and each
message is returned by exactly one push of its fragments. -/
def RoundTrip (r : Reassembler) (messages : List (Bytes × ℕ)) (arrivals : List Arrival) : Prop :=
  let results := (r.pushAll (writes frames arrivals)).1
  (∀ (i : ℕ) (a : Arrival), arrivals[i]? = some a → results[i]? = some (Except.ok
    (if Complete (partsOf frames) (arrivals.take (i + 1)) a.message then
      messages[a.message]?.map (·.1) else none)))
  ∧ ∀ (k : ℕ) (m : Bytes × ℕ), messages[k]? = some m →
    ∃! i : ℕ, arrivals[i]?.map Arrival.message = some k ∧ results[i]? = some (Except.ok (some m.1))

end RoundTrip

theorem pushAll_error {r : Reassembler} {writes : List (Bytes × ℕ)} {i : ℕ} {write : Bytes × ℕ}
    {e : MeshError} (hwrite : writes[i]? = some write)
    (hdecode : Fragment.decode write.1 = .error e) :
    (r.pushAll writes).1[i]? = some (Except.error e) := by
  induction writes generalizing r i with
  | nil => simp at hwrite
  | cons head rest ih =>
    cases i with
    | zero =>
      rw [List.getElem?_cons_zero, some.injEq] at hwrite
      subst hwrite
      have hpush : (r.push head.1 head.2).1 = .error e := by rw [Reassembler.push, hdecode]
      show some (r.push head.1 head.2).1 = _
      rw [hpush]
    | succ i =>
      rw [List.getElem?_cons_succ] at hwrite
      exact ih hwrite

/-- The transfer of a list of messages whose payload lengths fit their field. -/
def Transfer.ofMessages (self : Fragmenter) (messages : List (Bytes × ℕ))
    (hids : self.nextMessageId.toNat + messages.length ≤ 2 ^ 32)
    (hsent : ∀ (k : ℕ) (message : Bytes) (mtu : ℕ), messages[k]? = some (message, mtu) →
      message ≠ [] ∧ headerLen < mtu ∧ divCeil message.length (mtu - headerLen) ≤ 65535)
    (hfits : ∀ m ∈ messages, m.1.length ≤ 65535 ∨ m.2 ≤ 65535 + headerLen) : Transfer where
  count := messages.length
  id k := UInt32.ofNat (self.nextMessageId.toNat + k)
  message k := (messages.getD k ([], 0)).1
  size k := (messages.getD k ([], 0)).2 - headerLen
  id_inj := by
    intro k k' hk hk' heq
    have hnat := congrArg UInt32.toNat heq
    rw [UInt32.toNat_ofNat', UInt32.toNat_ofNat', Nat.mod_eq_of_lt (by omega),
      Nat.mod_eq_of_lt (by omega)] at hnat
    omega
  size_pos := by
    intro k hk
    obtain ⟨-, hmtu, -⟩ := hsent k _ _ (List.getElem?_eq_getElem hk)
    rw [getD_eq_getElem _ _ hk]
    exact Nat.sub_pos_of_lt hmtu
  message_pos := by
    intro k hk
    obtain ⟨hne, -, -⟩ := hsent k _ _ (List.getElem?_eq_getElem hk)
    rw [getD_eq_getElem _ _ hk]
    exact List.length_pos_iff.mpr hne
  parts_le := by
    intro k hk
    obtain ⟨-, -, hcount⟩ := hsent k _ _ (List.getElem?_eq_getElem hk)
    rw [getD_eq_getElem _ _ hk]
    exact hcount
  payload_le := by
    intro k hk
    rw [getD_eq_getElem _ _ hk]
    rcases hfits _ (getElem_mem hk) with h | h
    · exact .inl h
    · exact .inr (Nat.sub_le_iff_le_add.mpr h)

section Sent

variable {self self' : Fragmenter} {messages : List (Bytes × ℕ)} {frames : List (List Bytes)}
  (hsent : self.fragmentAll messages = .ok (frames, self'))
  (hids : self.nextMessageId.toNat + messages.length ≤ 2 ^ 32)
include hsent hids

theorem frames_getD {k : ℕ} {message : Bytes} {mtu : ℕ} (hk : messages[k]? = some (message, mtu)) :
    frames.getD k [] = (Fragmenter.fragments (UInt32.ofNat (self.nextMessageId.toNat + k)) message
      (mtu - headerLen)).map Fragment.encode := by
  obtain ⟨-, hall⟩ := Fragmenter.fragmentAll_spec hsent hids
  obtain ⟨-, -, -, hframes⟩ := hall k message mtu hk
  rw [getD_eq_getElem?_getD, hframes, getD_some]

theorem frame_getD {k j : ℕ} {message : Bytes} {mtu : ℕ}
    (hk : messages[k]? = some (message, mtu))
    (hj : j < divCeil message.length (mtu - headerLen)) :
    (frames.getD k []).getD j [] = Fragment.encode
      { messageId := UInt32.ofNat (self.nextMessageId.toNat + k)
        index := UInt16.ofNat j
        count := UInt16.ofNat (divCeil message.length (mtu - headerLen))
        totalLen := UInt32.ofNat message.length
        payload := chunk (mtu - headerLen) message j } := by
  rw [frames_getD hsent hids hk, getD_eq_getElem?_getD, List.getElem?_map,
    Fragmenter.fragments, List.getElem?_mapIdx, chunks, List.getElem?_map,
    List.getElem?_range hj]
  rfl

theorem partsOf_eq {k : ℕ} {message : Bytes} {mtu : ℕ}
    (hk : messages[k]? = some (message, mtu)) :
    partsOf frames k = divCeil message.length (mtu - headerLen) := by
  rw [partsOf, frames_getD hsent hids hk, length_map, Fragmenter.length_fragments]

theorem fits_of_roundTrip {r : Reassembler} {arrivals : List Arrival}
    (harr : ArrivesAll frames arrivals) (h : RoundTrip frames r messages arrivals) :
    ∀ m ∈ messages, m.1.length ≤ 65535 ∨ m.2 ≤ 65535 + headerLen := by
  rintro ⟨message, mtu⟩ hmem
  by_contra hnot
  rw [not_or, not_le, not_le] at hnot
  obtain ⟨hlong, hmtu⟩ := hnot
  dsimp only at hlong hmtu
  obtain ⟨k, hk⟩ := List.getElem?_of_mem hmem
  obtain ⟨hlen, -⟩ := Fragmenter.fragmentAll_spec hsent hids
  have hlt : k < frames.length := by
    rw [hlen]
    exact (List.getElem?_eq_some_iff.mp hk).1
  have hzero : 0 < divCeil message.length (mtu - headerLen) := divCeil_pos (by omega) (by omega)
  -- the first fragment arrives
  obtain ⟨a, ha, rfl, hfirst⟩ := harr.complete k hlt 0 (by rw [partsOf_eq hsent hids hk]; exact hzero)
  obtain ⟨i, hi⟩ := List.getElem?_of_mem ha
  have hwrite : (writes frames arrivals)[i]?
      = some ((frames.getD a.message []).getD a.fragment [], a.time) := by
    rw [writes, List.getElem?_map, hi]
    rfl
  have hpayload : 2 ^ 16 ≤ (chunk (mtu - headerLen) message 0).length := by
    rw [length_chunk]
    omega
  have herror := pushAll_error (r := r) hwrite (e := .frame "invalid fragment metadata") (by
    rw [hfirst, frame_getD hsent hids hk hzero]
    exact Fragment.decode_encode_oversized hpayload)
  have hok := h.1 i a hi
  rw [herror] at hok
  cases hok

variable (hfits : ∀ m ∈ messages, m.1.length ≤ 65535 ∨ m.2 ≤ 65535 + headerLen)
include hfits

theorem exists_transfer : ∃ t : Transfer, t.count = frames.length ∧ frames.length = messages.length
    ∧ (∀ k m, messages[k]? = some m → t.message k = m.1)
    ∧ partsOf frames = t.parts ∧ weightOf frames = t.weight
    ∧ ∀ k < t.count, ∀ j < t.parts k,
        (frames.getD k []).getD j [] = (t.fragment k j).encode := by
  obtain ⟨hlen, hall⟩ := Fragmenter.fragmentAll_spec hsent hids
  obtain ⟨t, hcount, hid, hmsg, hsize⟩ : ∃ t : Transfer, t.count = messages.length
      ∧ (∀ k, t.id k = UInt32.ofNat (self.nextMessageId.toNat + k))
      ∧ (∀ k, t.message k = (messages.getD k ([], 0)).1)
      ∧ ∀ k, t.size k = (messages.getD k ([], 0)).2 - headerLen :=
    ⟨Transfer.ofMessages self messages hids
      (fun k message mtu hk => ⟨(hall k message mtu hk).1, (hall k message mtu hk).2.1,
        (hall k message mtu hk).2.2.1⟩) hfits, rfl, fun _ => rfl, fun _ => rfl, fun _ => rfl⟩
  have hmessage : ∀ k message mtu, messages[k]? = some (message, mtu) →
      t.message k = message ∧ t.size k = mtu - headerLen := by
    intro k message mtu hk
    have hget : messages.getD k ([], 0) = (message, mtu) := by
      rw [getD_eq_getElem?_getD, hk, getD_some]
    rw [hmsg, hsize, hget]
    exact ⟨rfl, rfl⟩
  -- past the last message there is nothing on either side
  have hpast : ∀ k, messages[k]? = none →
      frames.getD k [] = [] ∧ t.message k = [] ∧ t.size k = 0 := by
    intro k hk
    have hget : messages.getD k ([], 0) = ([], 0) := by
      rw [getD_eq_getElem?_getD, hk, getD_none]
    have hnone : frames[k]? = none := by
      rw [List.getElem?_eq_none_iff] at hk ⊢
      omega
    rw [hmsg, hsize, hget, getD_eq_getElem?_getD, hnone, getD_none]
    exact ⟨rfl, rfl, rfl⟩
  have hparts : ∀ k, partsOf frames k = t.parts k := by
    intro k
    rcases hk : messages[k]? with _ | ⟨message, mtu⟩
    · obtain ⟨hframes, hm, hs⟩ := hpast k hk
      rw [partsOf, hframes, Transfer.parts, hm, hs]
      rfl
    · rw [partsOf_eq hsent hids hk, Transfer.parts, (hmessage k _ _ hk).1, (hmessage k _ _ hk).2]
  have hframe : ∀ k < t.count, ∀ j < t.parts k,
      (frames.getD k []).getD j [] = (t.fragment k j).encode := by
    intro k hlt j hj
    rw [hcount] at hlt
    obtain ⟨⟨message, mtu⟩, hk⟩ : ∃ m, messages[k]? = some m :=
      ⟨_, List.getElem?_eq_getElem hlt⟩
    obtain ⟨hm, hs⟩ := hmessage k _ _ hk
    rw [frame_getD hsent hids hk (by rw [← hm, ← hs]; exact hj), Transfer.fragment,
      Transfer.parts, Transfer.payload, hid, hm, hs]
  have hweight : ∀ k j, weightOf frames k j = t.weight k j := by
    intro k j
    rcases hk : messages[k]? with _ | ⟨message, mtu⟩
    · obtain ⟨hframes, hm, hs⟩ := hpast k hk
      rw [weightOf, hframes, Transfer.weight, Transfer.payload, hm, hs]
      simp [chunk]
    · have hlt : k < t.count := hcount ▸ (List.getElem?_eq_some_iff.mp hk).1
      by_cases hj : j < t.parts k
      · rw [weightOf, hframe k hlt j hj, Fragment.length_encode, Nat.add_sub_cancel_left]
        rfl
      · have hcover : (t.message k).length ≤ t.parts k * t.size k :=
          length_le_divCeil_mul (t.size_pos k hlt)
        have hmul : t.parts k * t.size k ≤ j * t.size k := Nat.mul_le_mul_right _ (not_lt.mp hj)
        have hnone : (frames.getD k [])[j]? = none := by
          rw [List.getElem?_eq_none_iff]
          exact (hparts k).trans_le (not_lt.mp hj)
        rw [weightOf, getD_eq_getElem?_getD (l := frames.getD k []), hnone, Transfer.weight,
          Transfer.payload, length_chunk]
        show 0 = _
        omega
  refine ⟨t, hcount.trans hlen.symm, hlen, fun k m hk => (hmessage k m.1 m.2 hk).1, funext hparts,
    funext₂ hweight, hframe⟩

theorem results_of_fits {timeout maxMessageSize maxInflightMessages maxInflightBytes : ℕ}
    {arrivals : List Arrival} (harr : ArrivesAll frames arrivals)
    (hw : WithinBounds frames (Reassembler.new timeout maxMessageSize maxInflightMessages
      maxInflightBytes) messages arrivals) :
    ∀ (i : ℕ) (a : Arrival), arrivals[i]? = some a →
      ((Reassembler.new timeout maxMessageSize maxInflightMessages
          maxInflightBytes).pushAll (writes frames arrivals)).1[i]? = some (Except.ok
        (if Complete (partsOf frames) (arrivals.take (i + 1)) a.message then
          messages[a.message]?.map (·.1) else none)) := by
  obtain ⟨t, hcount, hlen, hmessage, hparts, hweight, hframe⟩ :=
    exists_transfer hsent hids hfits
  obtain ⟨hexpected, -⟩ := harr
  rw [hparts, ← hcount] at hexpected
  have hwrites : writes frames arrivals = arrivals.map t.write := by
    refine map_congr_left fun a ha => ?_
    obtain ⟨i, hi, rfl⟩ := getElem_of_mem ha
    obtain ⟨hk, hj, -⟩ := hexpected i hi
    rw [Transfer.write, hframe _ hk _ hj]
  have hwithin : ∀ mid b tail, arrivals = mid ++ b :: tail →
      t.Within (Reassembler.new timeout maxMessageSize maxInflightMessages maxInflightBytes)
        ([] ++ mid) b := by
    intro mid b tail hsplit
    rw [nil_append]
    have hm := hw.inflightMessages.split hsplit
    have hb := hw.inflightBytes.split hsplit
    have ht := hw.timeout.split hsplit
    rw [hparts, ← hcount] at hm ht
    rw [hparts, hweight, ← hcount] at hb
    exact ⟨hm, hb, ht⟩
  have hmsg : ∀ k < t.count, ∃ m, messages[k]? = some m ∧ t.message k = m.1 := by
    intro k hk
    have hlt : k < messages.length := by omega
    exact ⟨messages[k], List.getElem?_eq_getElem hlt,
      hmessage k _ (List.getElem?_eq_getElem hlt)⟩
  intro i a hi
  have hresult := (t.holds_new timeout maxMessageSize maxInflightMessages
    maxInflightBytes).pushAll
    (fun mid b tail hsplit => by rw [nil_append]; exact hexpected.split hsplit) hwithin
    (fun k hk => by
      obtain ⟨m, hm, heq⟩ := hmsg k hk
      rw [heq]
      exact hw.size m (mem_of_getElem? hm)) i a hi
  have hlt : a.message < t.count := by
    obtain ⟨hi', rfl⟩ := List.getElem?_eq_some_iff.mp hi
    exact (hexpected i hi').1
  have htake : arrivals.take (i + 1) = arrivals.take i ++ [a] := by
    rw [take_add_one, hi]
    rfl
  obtain ⟨m, hm, heq⟩ := hmsg a.message hlt
  rw [hwrites, hresult, nil_append, Transfer.result, hparts, htake, hm, heq]
  rfl

end Sent

/-- **Round trip.**  Messages that one `Fragmenter` accepts, all their fragments
arriving in any order at a new `Reassembler` within its bounds: the messages
come back, each at its last missing fragment, exactly when every message is at
most 65535 bytes long or was cut for an MTU of at most 65552 bytes, so that no
payload is longer than its 16-bit length field can say. -/
theorem roundTrip_iff {self self' : Fragmenter} {messages : List (Bytes × ℕ)}
    {frames : List (List Bytes)} (hsent : self.fragmentAll messages = .ok (frames, self'))
    (hids : self.nextMessageId.toNat + messages.length ≤ 2 ^ 32)
    {timeout maxMessageSize maxInflightMessages maxInflightBytes : ℕ} {arrivals : List Arrival}
    (harr : ArrivesAll frames arrivals)
    (hw : WithinBounds frames (Reassembler.new timeout maxMessageSize maxInflightMessages
      maxInflightBytes) messages arrivals) :
    RoundTrip frames (Reassembler.new timeout maxMessageSize maxInflightMessages maxInflightBytes)
        messages arrivals
      ↔ ∀ m ∈ messages, m.1.length ≤ 65535 ∨ m.2 ≤ 65552 := by
  constructor
  · exact fits_of_roundTrip hsent hids harr
  · intro hfits
    have hresults := results_of_fits hsent hids hfits harr hw
    obtain ⟨hlen, hall⟩ := Fragmenter.fragmentAll_spec hsent hids
    refine ⟨hresults, ?_⟩
    rintro k ⟨message, mtu⟩ hk
    obtain ⟨hne, hmtu, -⟩ := hall k message mtu hk
    have hlt : k < frames.length := by
      rw [hlen]
      exact (List.getElem?_eq_some_iff.mp hk).1
    have hpos : 0 < partsOf frames k := by
      rw [partsOf_eq hsent hids hk]
      exact divCeil_pos (List.length_pos_iff.mpr hne) (Nat.sub_pos_of_lt hmtu)
    obtain ⟨i, a, hi, rfl, hcomplete⟩ := exists_completing hpos (harr.complete k hlt)
    refine ⟨i, ⟨by rw [hi]; rfl, ?_⟩, ?_⟩
    · rw [hresults i a hi, if_pos hcomplete, hk]
      rfl
    · -- two pushes that return the message would both complete it
      rintro i' ⟨hmessage, hreturned⟩
      obtain ⟨a', hi', hk'⟩ := Option.map_eq_some_iff.mp hmessage
      have hcomplete' : Complete (partsOf frames) (arrivals.take (i' + 1)) a.message := by
        rw [hresults i' a' hi', hk'] at hreturned
        by_contra hnot
        rw [if_neg hnot] at hreturned
        cases hreturned
      have hopen : ∀ (j : ℕ) (b : Arrival), arrivals[j]? = some b → b.message = a.message →
          ¬ Complete (partsOf frames) (arrivals.take j) a.message := by
        intro j b hj hb
        obtain ⟨hj', rfl⟩ := List.getElem?_eq_some_iff.mp hj
        rw [← hb]
        exact (harr.expected j hj').2.2
      rcases Nat.lt_trichotomy i' i with hlt | heq | hgt
      · exact absurd (Complete.mono hlt hcomplete') (hopen i a hi rfl)
      · exact heq
      · exact absurd (Complete.mono hgt hcomplete) (hopen i' a' hi' hk')

/-- Two messages of two fragments each, cut for MTUs of 19 and 18 bytes. -/
def twoMessages : List (Bytes × ℕ) := [([1, 2, 3], 19), ([4, 5], 18)]

/-- Their fragments, the second of the first message twice. -/
def mixedArrivals : List Arrival := [⟨1, 1, 0⟩, ⟨0, 1, 1⟩, ⟨0, 1, 2⟩, ⟨1, 0, 3⟩, ⟨0, 0, 4⟩]

theorem roundTrip_twoMessages :
    ∃ frames self', (Fragmenter.new 64).fragmentAll twoMessages = .ok (frames, self')
      ∧ RoundTrip frames (Reassembler.new 30 64 2 64) twoMessages mixedArrivals := by
  have hsent : (Fragmenter.new 64).fragmentAll twoMessages = .ok (_, _) := rfl
  exact ⟨_, _, hsent, (roundTrip_iff hsent (by decide) ⟨by decide, by decide⟩
    ⟨by decide, by decide, by decide, by decide⟩).mpr (by decide)⟩

theorem fragmentAll_single {message : Bytes} {mtu maxMessageSize : ℕ} (hne : message ≠ [])
    (hsize : message.length ≤ maxMessageSize) (hmtu : headerLen < mtu)
    (hone : divCeil message.length (mtu - headerLen) = 1) :
    (Fragmenter.new maxMessageSize).fragmentAll [(message, mtu)]
      = .ok ([(Fragmenter.fragments 1 message (mtu - headerLen)).map Fragment.encode],
        ⟨2, maxMessageSize⟩) := by
  have hfirst : (Fragmenter.new maxMessageSize).fragment message mtu
      = .ok ((Fragmenter.fragments 1 message (mtu - headerLen)).map Fragment.encode,
        ⟨2, maxMessageSize⟩) := by
    have hempty : ¬ (message = [] ∨ message.length > (Fragmenter.new maxMessageSize).maxMessageSize) :=
      fun h => h.elim hne (fun hlong => absurd hsize (not_le.mpr hlong))
    rw [Fragmenter.fragment, if_neg hempty, if_neg (not_le.mpr hmtu)]
    dsimp only
    rw [if_neg (by rw [hone]; decide)]
    rfl
  rw [Fragmenter.fragmentAll, hfirst]
  rfl

/-- One byte more than a 16-bit length can say, in one fragment. -/
theorem not_roundTrip_of_length {message : Bytes} (hlen : message.length = 65536) :
    ∃ frames self', (Fragmenter.new 65536).fragmentAll [(message, 70000)] = .ok (frames, self')
      ∧ ArrivesAll frames [⟨0, 0, 0⟩]
      ∧ WithinBounds frames (Reassembler.new 30 65536 1 65536) [(message, 70000)] [⟨0, 0, 0⟩]
      ∧ ¬ RoundTrip frames (Reassembler.new 30 65536 1 65536) [(message, 70000)]
        [⟨0, 0, 0⟩] := by
  have hone : divCeil message.length (70000 - headerLen) = 1 := by
    rw [hlen]
    decide
  have hne : message ≠ [] := by
    intro hnil
    rw [hnil] at hlen
    cases hlen
  have hsent := fragmentAll_single hne hlen.le (by decide) hone
  have hids : (Fragmenter.new 65536).nextMessageId.toNat + [(message, 70000)].length
      ≤ 2 ^ 32 := by
    show 1 + 1 ≤ 2 ^ 32
    decide
  have hparts := partsOf_eq hsent hids (k := 0) rfl
  have hframe := frame_getD hsent hids (k := 0) (j := 0) rfl (by rw [hone]; decide)
  rw [hone] at hparts
  refine ⟨_, _, hsent, ?_⟩
  generalize hfs : (Fragmenter.fragments 1 message (70000 - headerLen)).map Fragment.encode
    = fs at *
  have hweight : weightOf [fs] 0 0 = 65536 := by
    rw [weightOf, hframe, Fragment.length_encode, length_chunk, hlen]
    decide
  have hpos : 0 < partsOf [fs] 0 := by rw [hparts]; exact Nat.one_pos
  have harr : ArrivesAll [fs] [⟨0, 0, 0⟩] := by
    constructor
    · intro i hi
      obtain rfl : i = 0 := Nat.lt_one_iff.mp hi
      refine ⟨Nat.one_pos, hpos, fun hc => ?_⟩
      obtain ⟨a, hmem, -⟩ := hc 0 hpos
      exact absurd hmem not_mem_nil
    · intro k hk j hj
      obtain rfl : k = 0 := Nat.lt_one_iff.mp hk
      rw [hparts] at hj
      obtain rfl : j = 0 := Nat.lt_one_iff.mp hj
      exact ⟨_, mem_singleton_self _, rfl, rfl⟩
  refine ⟨harr, ?_, fun h => ?_⟩
  · constructor
    · intro m hm
      rw [List.mem_singleton.mp hm]
      exact hlen.le
    · intro i _
      exact Finset.card_filter_le _ _
    · intro i hi
      obtain rfl : i = 0 := Nat.lt_one_iff.mp hi
      have hheld : held (partsOf [fs]) (weightOf [fs]) [⟨0, 0, 0⟩] 0 = 65536 := by
        rw [held, hparts, Finset.sum_range_one, if_pos ⟨_, mem_singleton_self _, rfl, rfl⟩,
          hweight]
      calc ∑ k ∈ assembling (partsOf [fs]) 1 [] ⟨0, 0, 0⟩,
            held (partsOf [fs]) (weightOf [fs]) [⟨0, 0, 0⟩] k
          ≤ ∑ k ∈ Finset.range 1, held (partsOf [fs]) (weightOf [fs]) [⟨0, 0, 0⟩] k :=
            Finset.sum_le_sum_of_subset (Finset.filter_subset _ _)
        _ = 65536 := by rw [Finset.sum_range_one, hheld]
        _ ≤ 65536 := le_rfl
    · intro i hi k _ hunf
      obtain rfl : i = 0 := Nat.lt_one_iff.mp hi
      obtain ⟨⟨a, hmem, -⟩, -⟩ := hunf
      exact absurd hmem not_mem_nil
  · have hfits := fits_of_roundTrip hsent hids harr h _ (mem_singleton_self _)
    rw [hlen] at hfits
    exact absurd (show 65536 ≤ 65535 ∨ 70000 ≤ 65535 + headerLen from hfits) (by decide)

/-- A message of 65536 bytes, one more than a 16-bit length can say. -/
def longMessage : Bytes := List.replicate 65536 0

/-- Cut for an MTU of 70000 bytes the message is one fragment; it arrives alone
and within all bounds, and does not come back. -/
theorem longMessage_not_roundTrip :
    ∃ frames self', (Fragmenter.new 65536).fragmentAll [(longMessage, 70000)] = .ok (frames, self')
      ∧ ArrivesAll frames [⟨0, 0, 0⟩]
      ∧ WithinBounds frames (Reassembler.new 30 65536 1 65536) [(longMessage, 70000)] [⟨0, 0, 0⟩]
      ∧ ¬ RoundTrip frames (Reassembler.new 30 65536 1 65536) [(longMessage, 70000)]
        [⟨0, 0, 0⟩] :=
  not_roundTrip_of_length length_replicate

end Nipworker
