/-
The counters of a reassembler (`crates/mesh/src/framing.rs`).

A peer writes whatever it likes.  The reassembler counts the bytes that it holds for
unfinished messages, takes them off when a message is complete or too old, and refuses what
would exceed its bounds.
-/
import Nipworker.Lib.MapTotal
import Nipworker.Lib.Run
import Nipworker.Mesh.Framing

namespace Nipworker

open List

/-! ### What stops the source -/

namespace Fragment

/-- `bytes[i..j]`. -/
def sliceChecked (bytes : Bytes) (i j : ℕ) : Option Bytes :=
  if i ≤ j ∧ j ≤ bytes.length then some (slice bytes i j) else none

/-- `Fragment::decode`, with its slices and its index. -/
def decodeChecked (bytes : Bytes) : Option (Except MeshError Fragment) :=
  if bytes.length < headerLen then some (.error (.frame "invalid header"))
  else do
    let start ← sliceChecked bytes 0 2
    let third ← bytes[2]?
    if start ≠ magic ∨ third ≠ version then return .error (.frame "invalid header")
    else
      let messageId ← sliceChecked bytes 3 7
      let index ← sliceChecked bytes 7 9
      let count ← sliceChecked bytes 9 11
      let totalLen ← sliceChecked bytes 11 15
      let payloadLen ← sliceChecked bytes 15 17
      if UInt16.ofNat (ofBeBytes count) = 0 ∨
          UInt16.ofNat (ofBeBytes index) ≥ UInt16.ofNat (ofBeBytes count) ∨
          bytes.length ≠ headerLen + ofBeBytes payloadLen then
        return .error (.frame "invalid fragment metadata")
      else
        let payload ← sliceChecked bytes headerLen bytes.length
        return .ok ⟨UInt32.ofNat (ofBeBytes messageId), UInt16.ofNat (ofBeBytes index),
          UInt16.ofNat (ofBeBytes count), UInt32.ofNat (ofBeBytes totalLen), payload⟩

theorem sliceChecked_eq {bytes : Bytes} {i j : ℕ} (hij : i ≤ j) (hj : j ≤ bytes.length) :
    sliceChecked bytes i j = some (slice bytes i j) := if_pos ⟨hij, hj⟩

theorem decodeChecked_eq (bytes : Bytes) : decodeChecked bytes = some (decode bytes) := by
  by_cases hshort : bytes.length < headerLen
  · rw [decodeChecked, decode, if_pos hshort, if_pos (.inl hshort)]
  · have hlen : 17 ≤ bytes.length := Nat.not_lt.mp hshort
    have hthird : bytes[2]? = some bytes[2] := List.getElem?_eq_getElem (by omega)
    have hstart : slice bytes 0 2 = bytes.take 2 := by rw [slice, drop_zero]
    have hpayload : slice bytes headerLen bytes.length = bytes.drop headerLen := by
      rw [slice, take_of_length_le (by rw [length_drop])]
    rw [decodeChecked, decode, if_neg hshort, sliceChecked_eq (by omega) (by omega), hthird,
      sliceChecked_eq (by omega) (by omega), sliceChecked_eq (by omega) (by omega),
      sliceChecked_eq (by omega) (by omega), sliceChecked_eq (by omega) (by omega),
      sliceChecked_eq (by omega) (by omega), sliceChecked_eq (show headerLen ≤ bytes.length from hlen) le_rfl, hstart, hpayload]
    by_cases hheader : bytes.take 2 ≠ magic ∨ bytes[2] ≠ version
    · have hor : bytes.length < headerLen ∨ bytes.take 2 ≠ magic ∨ some bytes[2] ≠ some version :=
        .inr (hheader.imp_right fun h heq => h (Option.some.inj heq))
      rw [if_pos hor]
      exact if_pos hheader
    · have hor : ¬ (bytes.length < headerLen ∨ bytes.take 2 ≠ magic ∨
          some bytes[2] ≠ some version) := by
        rintro (h | h)
        · exact hshort h
        · exact hheader (h.imp_right fun h heq => h (congrArg some heq))
      rw [if_neg hor]
      refine (if_neg hheader).trans ?_
      dsimp only [Option.bind_eq_bind, Option.bind_some]
      split
      · rfl
      · rfl

theorem index_lt_count {bytes : Bytes} {fragment : Fragment} (h : decode bytes = .ok fragment) :
    fragment.index.toNat < fragment.count.toNat := by
  rw [decode] at h
  split at h
  · contradiction
  · dsimp only at h
    split at h
    · contradiction
    · next hmeta =>
      obtain rfl := Except.ok.inj h
      rw [not_or, not_or] at hmeta
      exact UInt16.lt_iff_toNat_lt.mp (UInt16.not_le.mp hmeta.2.1)

end Fragment

namespace Reassembler

/-- `self.inflight_bytes -= bytes`. -/
def giveBack (self : Reassembler) (bytes : ℕ) : Option Reassembler :=
  if bytes ≤ self.inflightBytes then
    some { self with inflightBytes := self.inflightBytes - bytes }
  else none

/-- `drop`, with its subtraction. -/
def dropChecked (self : Reassembler) (id : UInt32) : Option Reassembler :=
  match self.assemblies.lookup id with
  | some assembly =>
    giveBack { self with assemblies := self.assemblies.erase id } assembly.receivedBytes
  | none => some self

/-- `Reassembler::prune`, with its subtractions. -/
def pruneChecked (self : Reassembler) (now : ℕ) : Option Reassembler :=
  (self.expired now).foldlM dropChecked self

/-- `finish`, with its subtraction and the `unwrap` of every part. -/
def finishChecked (self : Reassembler) (id : UInt32) (assembly : Assembly) :
    Option (Except MeshError (Option Bytes) × Reassembler) :=
  if assembly.fragments.any Option.isNone then some (.ok none, self)
  else if assembly.receivedBytes ≠ assembly.totalLen then
    some (.error (.frame "reassembled size mismatch"), self)
  else do
    let rest ← giveBack { self with assemblies := self.assemblies.erase id } assembly.receivedBytes
    let parts ← assembly.fragments.mapM fun part => part
    return (.ok (some parts.flatten), rest)

/-- `fill`, with the index of the slot. -/
def fillChecked (self : Reassembler) (fragment : Fragment) (assembly : Assembly) :
    Option (Except MeshError (Option Bytes) × Reassembler) :=
  let opened := self.store fragment.messageId assembly
  if assembly.totalLen ≠ fragment.totalLen.toNat
      ∨ assembly.fragments.length ≠ fragment.count.toNat then
    some (.error (.frame "inconsistent fragment stream"), opened)
  else do
    match ← assembly.fragments[fragment.index.toNat]? with
    | some existing =>
      if existing ≠ fragment.payload then
        return (.error (.frame "conflicting duplicate fragment"), opened)
      else return (.ok none, opened)
    | none =>
      if self.inflightBytes + fragment.payload.length > self.maxInflightBytes then
        return (.error (.frame "inflight byte limit exceeded"), opened)
      else
        let filled := assembly.put fragment.index.toNat fragment.payload
        finishChecked
          { opened.store fragment.messageId filled with
            inflightBytes := self.inflightBytes + fragment.payload.length }
          fragment.messageId filled

/-- `Reassembler::push`, with all of them. -/
def pushChecked (self : Reassembler) (bytes : Bytes) (now : ℕ) :
    Option (Except MeshError (Option Bytes) × Reassembler) := do
  let self ← self.pruneChecked now
  match ← Fragment.decodeChecked bytes with
  | .error e => return (.error e, self)
  | .ok fragment =>
    if fragment.totalLen.toNat = 0 ∨ fragment.totalLen.toNat > self.maxMessageSize then
      return (.error (.frame "declared message size outside limits"), self)
    else
      match self.assemblyFor fragment now with
      | .error e => return (.error e, self)
      | .ok assembly => self.fillChecked fragment assembly

inductive Call
  | push (bytes : Bytes) (now : ℕ)
  | prune (now : ℕ)

def call (self : Reassembler) : Call → Reassembler
  | .push bytes now => (self.push bytes now).2
  | .prune now => self.prune now

/-- The state that a call leaves, when it does not panic. -/
def callChecked (self : Reassembler) : Call → Option Reassembler
  | .push bytes now => (self.pushChecked bytes now).map Prod.snd
  | .prune now => self.pruneChecked now

end Reassembler

/-! ### The counters -/

def Assembly.storedBytes (assembly : Assembly) : ℕ :=
  (assembly.fragments.map fun part => (part.getD []).length).sum

/-- The bytes of the assemblies are counted, and the bounds are kept. -/
structure Reassembler.Accounted (r : Reassembler) : Prop where
  received : r.inflightBytes = r.assemblies.total Assembly.receivedBytes
  stored : ∀ id assembly, r.assemblies.lookup id = some assembly →
    assembly.receivedBytes = assembly.storedBytes
  bytes_le : r.inflightBytes ≤ r.maxInflightBytes
  keys_le : r.assemblies.keys.length ≤ r.maxInflightMessages

namespace Assembly

theorem storedBytes_put {assembly : Assembly} {index : ℕ} {payload : Bytes}
    (hfree : assembly.fragments[index]? = some none) :
    (assembly.put index payload).storedBytes = assembly.storedBytes + payload.length := by
  show ((assembly.fragments.set index (some payload)).map fun part => (part.getD []).length).sum =
    (assembly.fragments.map fun part => (part.getD []).length).sum + payload.length
  generalize assembly.fragments = parts at hfree
  induction parts generalizing index with
  | nil => contradiction
  | cons part parts ih =>
    cases index with
    | zero =>
      obtain rfl : part = none := Option.some.inj hfree
      show payload.length + _ = 0 + _ + payload.length
      omega
    | succ index =>
      have hrest := ih hfree
      rw [set_cons_succ, map_cons, sum_cons, hrest, map_cons, sum_cons]
      omega

theorem storedBytes_new (now totalLen count : ℕ) :
    (Assembly.mk now totalLen (List.replicate count none) 0).storedBytes = 0 := by
  rw [storedBytes, map_replicate, sum_replicate]
  exact Nat.mul_zero count

end Assembly

namespace Reassembler

variable {r : Reassembler}

theorem accounted_new (timeout maxMessageSize maxInflightMessages maxInflightBytes : ℕ) :
    (new timeout maxMessageSize maxInflightMessages maxInflightBytes).Accounted where
  received := rfl
  stored := by
    intro id assembly h
    rw [new, AList.lookup_empty] at h
    contradiction
  bytes_le := Nat.zero_le _
  keys_le := Nat.zero_le _

theorem Accounted.storedBytes (h : r.Accounted) :
    r.inflightBytes = r.assemblies.total Assembly.storedBytes := by
  rw [h.received]
  exact Map.total_congr h.stored

variable {id : UInt32} {assembly : Assembly}

theorem Accounted.receivedBytes_le (h : r.Accounted)
    (hlook : r.assemblies.lookup id = some assembly) :
    assembly.receivedBytes ≤ r.inflightBytes := by
  rw [h.received]
  exact Map.le_total _ hlook

theorem Accounted.remove (h : r.Accounted) (hlook : r.assemblies.lookup id = some assembly) :
    Accounted { r with
      assemblies := r.assemblies.erase id
      inflightBytes := r.inflightBytes - assembly.receivedBytes } where
  received := by
    show r.inflightBytes - assembly.receivedBytes =
      Map.total Assembly.receivedBytes (r.assemblies.erase id)
    rw [h.received, Map.total_of_lookup _ hlook, Nat.add_sub_cancel_left]
  stored := by
    intro other assembly' hother
    exact h.stored other assembly' (Map.lookup_erase_eq_some.mp hother).2
  bytes_le := (Nat.sub_le _ _).trans h.bytes_le
  keys_le := (Map.length_keys_erase_le _ _).trans h.keys_le

theorem Accounted.replace (h : r.Accounted) {more : ℕ}
    (hold : (∃ old, r.assemblies.lookup id = some old ∧
        assembly.receivedBytes = old.receivedBytes + more) ∨
      r.assemblies.lookup id = none ∧ assembly.receivedBytes = more ∧
        r.assemblies.keys.length < r.maxInflightMessages)
    (hstored : assembly.receivedBytes = assembly.storedBytes)
    (hmore : r.inflightBytes + more ≤ r.maxInflightBytes) :
    Accounted { r.store id assembly with inflightBytes := r.inflightBytes + more } where
  received := by
    show r.inflightBytes + more = Map.total _ (AList.insert id assembly r.assemblies)
    rw [h.received, Map.total_insert]
    obtain ⟨old, hlook, hbytes⟩ | ⟨hnone, hbytes, -⟩ := hold
    · rw [Map.total_of_lookup _ hlook, hbytes]
      omega
    · rw [Map.erase_of_lookup_none hnone, hbytes]
      omega
  stored := by
    intro other assembly' hother
    obtain ⟨-, rfl⟩ | ⟨-, hold⟩ := Map.lookup_insert_eq_some.mp hother
    · exact hstored
    · exact h.stored other assembly' hold
  bytes_le := hmore
  keys_le := by
    show (AList.insert id assembly r.assemblies).keys.length ≤ r.maxInflightMessages
    obtain ⟨old, hlook, -⟩ | ⟨hnone, -, hroom⟩ := hold
    · rw [Map.length_keys_insert_old hlook]
      exact h.keys_le
    · rw [Map.length_keys_insert_new hnone]
      exact hroom

/-! ### `prune` -/

theorem Accounted.drop (h : r.Accounted) (id : UInt32) :
    (r.drop id).Accounted ∧ r.dropChecked id = some (r.drop id) := by
  rw [Reassembler.drop, dropChecked]
  cases hlook : r.assemblies.lookup id with
  | none => exact ⟨h, rfl⟩
  | some assembly => exact ⟨h.remove hlook, if_pos (h.receivedBytes_le hlook)⟩

theorem foldl_drop (h : r.Accounted) (ids : List UInt32) :
    (ids.foldl Reassembler.drop r).Accounted ∧
      ids.foldlM dropChecked r = some (ids.foldl Reassembler.drop r) := by
  induction ids generalizing r with
  | nil => exact ⟨h, rfl⟩
  | cons id ids ih =>
    obtain ⟨hdrop, hchecked⟩ := h.drop id
    obtain ⟨hrest, hrestChecked⟩ := ih hdrop
    refine ⟨hrest, ?_⟩
    rw [foldlM_cons, hchecked]
    exact hrestChecked

/-- **Pruning** keeps the account, and no subtraction underflows. -/
theorem Accounted.prune (h : r.Accounted) (now : ℕ) :
    (r.prune now).Accounted ∧ r.pruneChecked now = some (r.prune now) := foldl_drop h _

/-! ### `push` -/

theorem assemblyFor_eq_ok {fragment : Fragment} {now : ℕ}
    (h : r.assemblyFor fragment now = .ok assembly) :
    r.assemblies.lookup fragment.messageId = some assembly ∨
      r.assemblies.lookup fragment.messageId = none ∧
        r.assemblies.keys.length < r.maxInflightMessages ∧
        assembly = ⟨now, fragment.totalLen.toNat, List.replicate fragment.count.toNat none, 0⟩ := by
  rw [assemblyFor] at h
  cases hlook : r.assemblies.lookup fragment.messageId with
  | some found =>
    rw [hlook] at h
    exact .inl (congrArg some (Except.ok.inj h))
  | none =>
    rw [hlook] at h
    dsimp only at h
    by_cases hfull : r.assemblies.keys.length ≥ r.maxInflightMessages
    · rw [if_pos hfull] at h
      contradiction
    · rw [if_neg hfull] at h
      exact .inr ⟨rfl, Nat.not_le.mp hfull, (Except.ok.inj h).symm⟩

theorem Accounted.finish (h : r.Accounted) (hlook : r.assemblies.lookup id = some assembly) :
    (r.finish id assembly).2.Accounted ∧
      r.finishChecked id assembly = some (r.finish id assembly) := by
  rw [Reassembler.finish, finishChecked]
  have hany : assembly.fragments.any Option.isNone = true ↔ none ∈ assembly.fragments := by
    simp only [any_eq_true, Option.isNone_iff_eq_none, exists_eq_right]
  by_cases hfree : none ∈ assembly.fragments
  · rw [if_pos hfree, if_pos (hany.mpr hfree)]
    exact ⟨h, rfl⟩
  rw [if_neg hfree, if_neg fun hnone => hfree (hany.mp hnone)]
  by_cases hsize : assembly.receivedBytes ≠ assembly.totalLen
  · rw [if_pos hsize, if_pos hsize]
    exact ⟨h, rfl⟩
  rw [if_neg hsize, if_neg hsize]
  refine ⟨h.remove hlook, ?_⟩
  have hback : giveBack { r with assemblies := r.assemblies.erase id } assembly.receivedBytes =
      some { r with
        assemblies := r.assemblies.erase id
        inflightBytes := r.inflightBytes - assembly.receivedBytes } :=
    if_pos (h.receivedBytes_le hlook)
  -- every part is there
  have hparts : ∀ parts : List (Option Bytes), none ∉ parts →
      (parts.mapM fun part => part) = some (parts.map fun part => part.getD []) := by
    intro parts hparts
    induction parts with
    | nil => rfl
    | cons part parts ih =>
      obtain ⟨hpart, hrest⟩ := ne_and_not_mem_of_not_mem_cons hparts
      obtain ⟨payload, rfl⟩ := Option.ne_none_iff_exists'.mp (Ne.symm hpart)
      rw [mapM_cons, ih hrest]
      rfl
  rw [hback, hparts _ hfree, flatMap_def]
  rfl

theorem Accounted.fill (h : r.Accounted) {fragment : Fragment} {now : ℕ}
    (hassembly : r.assemblyFor fragment now = .ok assembly)
    (hindex : fragment.index.toNat < fragment.count.toNat) :
    (r.fill fragment assembly).2.Accounted ∧
      r.fillChecked fragment assembly = some (r.fill fragment assembly) := by
  have hcases := assemblyFor_eq_ok hassembly
  have hstored : assembly.receivedBytes = assembly.storedBytes := by
    obtain hlook | ⟨-, -, rfl⟩ := hcases
    · exact h.stored _ _ hlook
    · rw [Assembly.storedBytes_new]
  have hopened : (r.store fragment.messageId assembly).Accounted := by
    show Accounted { r.store fragment.messageId assembly with inflightBytes := r.inflightBytes + 0 }
    refine h.replace ?_ hstored h.bytes_le
    obtain hlook | ⟨hnone, hroom, rfl⟩ := hcases
    · exact .inl ⟨assembly, hlook, rfl⟩
    · exact .inr ⟨hnone, rfl, hroom⟩
  rw [Reassembler.fill, fillChecked]
  dsimp only
  by_cases hheader : assembly.totalLen ≠ fragment.totalLen.toNat ∨
      assembly.fragments.length ≠ fragment.count.toNat
  · rw [if_pos hheader, if_pos hheader]
    exact ⟨hopened, rfl⟩
  rw [if_neg hheader, if_neg hheader]
  -- the header agrees with the assembly, so the slot exists
  have hlength : assembly.fragments.length = fragment.count.toNat := by
    by_contra hne
    exact hheader (.inr hne)
  have hslot : assembly.fragments[fragment.index.toNat]? =
      some (assembly.fragments.getD fragment.index.toNat none) := by
    rw [getD_eq_getElem?_getD, List.getElem?_eq_getElem (by omega), Option.getD_some]
  rw [hslot]
  cases hpart : assembly.fragments.getD fragment.index.toNat none with
  | some existing =>
    dsimp only [Option.bind_eq_bind, Option.bind_some]
    by_cases hconflict : existing ≠ fragment.payload
    · rw [if_pos hconflict, if_pos hconflict]
      exact ⟨hopened, rfl⟩
    · rw [if_neg hconflict, if_neg hconflict]
      exact ⟨hopened, rfl⟩
  | none =>
    dsimp only [Option.bind_eq_bind, Option.bind_some]
    by_cases hlimit : r.inflightBytes + fragment.payload.length > r.maxInflightBytes
    · rw [if_pos hlimit, if_pos hlimit]
      exact ⟨hopened, rfl⟩
    · rw [if_neg hlimit, if_neg hlimit]
      rw [hpart] at hslot
      have hfilled : (assembly.put fragment.index.toNat fragment.payload).receivedBytes =
          (assembly.put fragment.index.toNat fragment.payload).storedBytes := by
        rw [Assembly.storedBytes_put hslot, ← hstored]
        rfl
      have hput : Accounted {
          (r.store fragment.messageId assembly).store fragment.messageId
            (assembly.put fragment.index.toNat fragment.payload) with
          inflightBytes := r.inflightBytes + fragment.payload.length } :=
        hopened.replace (.inl ⟨assembly, AList.lookup_insert _, rfl⟩) hfilled (Nat.not_lt.mp hlimit)
      exact hput.finish (AList.lookup_insert _)

/-- **A push** keeps the account, and does not panic. -/
theorem Accounted.push (h : r.Accounted) (bytes : Bytes) (now : ℕ) :
    (r.push bytes now).2.Accounted ∧ r.pushChecked bytes now = some (r.push bytes now) := by
  obtain ⟨hpruned, hchecked⟩ := h.prune now
  rw [Reassembler.push, pushChecked, hchecked, Fragment.decodeChecked_eq]
  dsimp only [Option.bind_eq_bind, Option.bind_some]
  cases hdecode : Fragment.decode bytes with
  | error e => exact ⟨hpruned, rfl⟩
  | ok fragment =>
    dsimp only
    by_cases hsize : fragment.totalLen.toNat = 0 ∨
        fragment.totalLen.toNat > (r.prune now).maxMessageSize
    · rw [if_pos hsize, if_pos hsize]
      exact ⟨hpruned, rfl⟩
    rw [if_neg hsize, if_neg hsize]
    cases hassembly : (r.prune now).assemblyFor fragment now with
    | error e => exact ⟨hpruned, rfl⟩
    | ok assembly => exact hpruned.fill hassembly (Fragment.index_lt_count hdecode)

/-! ### Any calls -/

theorem Accounted.call (h : r.Accounted) (c : Call) :
    (r.call c).Accounted ∧ r.callChecked c = some (r.call c) := by
  cases c with
  | push bytes now =>
    obtain ⟨hpush, hchecked⟩ := h.push bytes now
    refine ⟨hpush, ?_⟩
    rw [callChecked, hchecked, Option.map_some, Reassembler.call]
  | prune now => exact h.prune now

def SameLimits (r r' : Reassembler) : Prop :=
  r'.maxInflightMessages = r.maxInflightMessages ∧ r'.maxInflightBytes = r.maxInflightBytes

theorem sameLimits_prune (r : Reassembler) (now : ℕ) : SameLimits r (r.prune now) := by
  rw [prune]
  generalize r.expired now = ids
  induction ids generalizing r with
  | nil => exact ⟨rfl, rfl⟩
  | cons id ids ih =>
    obtain ⟨hmessages, hbytes⟩ := ih (r.drop id)
    have hdrop : SameLimits r (r.drop id) := by
      rw [Reassembler.drop]
      cases r.assemblies.lookup id with
      | none => exact ⟨rfl, rfl⟩
      | some assembly => exact ⟨rfl, rfl⟩
    exact ⟨hmessages.trans hdrop.1, hbytes.trans hdrop.2⟩

theorem sameLimits_finish (r : Reassembler) (id : UInt32) (assembly : Assembly) :
    SameLimits r (r.finish id assembly).2 := by
  rw [Reassembler.finish]
  by_cases hfree : none ∈ assembly.fragments
  · rw [if_pos hfree]
    exact ⟨rfl, rfl⟩
  rw [if_neg hfree]
  by_cases hsize : assembly.receivedBytes ≠ assembly.totalLen
  · rw [if_pos hsize]
    exact ⟨rfl, rfl⟩
  · rw [if_neg hsize]
    exact ⟨rfl, rfl⟩

theorem sameLimits_fill (r : Reassembler) (fragment : Fragment) (assembly : Assembly) :
    SameLimits r (r.fill fragment assembly).2 := by
  rw [Reassembler.fill]
  dsimp only
  by_cases hheader : assembly.totalLen ≠ fragment.totalLen.toNat ∨
      assembly.fragments.length ≠ fragment.count.toNat
  · rw [if_pos hheader]
    exact ⟨rfl, rfl⟩
  rw [if_neg hheader]
  cases assembly.fragments.getD fragment.index.toNat none with
  | some existing =>
    dsimp only
    by_cases hconflict : existing ≠ fragment.payload
    · rw [if_pos hconflict]
      exact ⟨rfl, rfl⟩
    · rw [if_neg hconflict]
      exact ⟨rfl, rfl⟩
  | none =>
    dsimp only
    by_cases hlimit : r.inflightBytes + fragment.payload.length > r.maxInflightBytes
    · rw [if_pos hlimit]
      exact ⟨rfl, rfl⟩
    · rw [if_neg hlimit]
      exact sameLimits_finish _ _ _

theorem sameLimits_call (r : Reassembler) (c : Call) : SameLimits r (r.call c) := by
  cases c with
  | prune now => exact sameLimits_prune r now
  | push bytes now =>
    have hpruned := sameLimits_prune r now
    rw [call, Reassembler.push]
    cases Fragment.decode bytes with
    | error e => exact hpruned
    | ok fragment =>
      dsimp only
      by_cases hsize : fragment.totalLen.toNat = 0 ∨
          fragment.totalLen.toNat > (r.prune now).maxMessageSize
      · rw [if_pos hsize]
        exact hpruned
      rw [if_neg hsize]
      cases (r.prune now).assemblyFor fragment now with
      | error e => exact hpruned
      | ok assembly =>
        obtain ⟨hmessages, hbytes⟩ := sameLimits_fill (r.prune now) fragment assembly
        exact ⟨hmessages.trans hpruned.1, hbytes.trans hpruned.2⟩

theorem foldl_call (h : r.Accounted) (calls : List Call) :
    (calls.foldl Reassembler.call r).Accounted ∧
      calls.foldlM callChecked r = some (calls.foldl Reassembler.call r) ∧
      SameLimits r (calls.foldl Reassembler.call r) := by
  induction calls generalizing r with
  | nil => exact ⟨h, rfl, rfl, rfl⟩
  | cons c calls ih =>
    obtain ⟨hcall, hchecked⟩ := h.call c
    obtain ⟨hrest, hrestChecked, hmessages, hbytes⟩ := ih hcall
    obtain ⟨hmessages', hbytes'⟩ := sameLimits_call r c
    refine ⟨hrest, ?_, hmessages.trans hmessages', hbytes.trans hbytes'⟩
    rw [foldlM_cons, hchecked]
    exact hrestChecked

/-- **The accounting of a reassembler.**  After any pushes and prunes, whatever was written
and whatever the clock said, the counter is the sum over the assemblies, both bounds hold,
and nothing has underflowed or left its range. -/
theorem pushAndPrune_accounted (timeout maxMessageSize maxInflightMessages maxInflightBytes : ℕ)
    (calls : List Call) :
    let start := new timeout maxMessageSize maxInflightMessages maxInflightBytes
    let r := calls.foldl Reassembler.call start
    calls.foldlM callChecked start = some r ∧
      r.inflightBytes = r.assemblies.total Assembly.receivedBytes ∧
      r.inflightBytes = r.assemblies.total Assembly.storedBytes ∧
      r.inflightBytes ≤ maxInflightBytes ∧
      r.assemblies.keys.length ≤ maxInflightMessages := by
  intro start r
  obtain ⟨haccounted, hchecked, hmessages, hbytes⟩ :=
    foldl_call (accounted_new timeout maxMessageSize maxInflightMessages maxInflightBytes) calls
  refine ⟨hchecked, haccounted.received, haccounted.storedBytes, ?_, ?_⟩
  · exact haccounted.bytes_le.trans_eq hbytes
  · exact haccounted.keys_le.trans_eq hmessages

end Reassembler

end Nipworker
