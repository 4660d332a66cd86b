/-
What a refused fragment leaves behind (`crates/mesh/src/framing.rs`).

`push` opens the assembly of a new message before it looks at the byte limit, and puts the
last payload of a message into its slot before it looks at the size of the message.  The
other refusals come before any change.
-/
import Nipworker.Mesh.Accounting

namespace Nipworker

open Option

namespace Reassembler

/-- The same assemblies, the same counter and the same bounds. -/
structure SameState (r r' : Reassembler) : Prop where
  lookup : ∀ id, r'.assemblies.lookup id = r.assemblies.lookup id
  inflightBytes : r'.inflightBytes = r.inflightBytes
  timeout : r'.timeout = r.timeout
  maxMessageSize : r'.maxMessageSize = r.maxMessageSize
  limits : SameLimits r r'

theorem SameState.refl (r : Reassembler) : SameState r r := ⟨fun _ => rfl, rfl, rfl, rfl, rfl, rfl⟩

/-- A fragment that gets as far as its own free slot, in a table that was pruned. -/
structure Admitted (r : Reassembler) (bytes : Bytes) (now : ℕ) (fragment : Fragment)
    (assembly : Assembly) : Prop where
  decoded : Fragment.decode bytes = .ok fragment
  size : ¬ (fragment.totalLen.toNat = 0 ∨ fragment.totalLen.toNat > r.maxMessageSize)
  found : r.assemblyFor fragment now = .ok assembly
  header : ¬ (assembly.totalLen ≠ fragment.totalLen.toNat ∨
    assembly.fragments.length ≠ fragment.count.toNat)
  free : assembly.fragments.getD fragment.index.toNat none = none

/-- The fragment opens an assembly and exceeds the byte limit, or it fills the last slot of
its assembly and the bytes are not as many as were declared. -/
def LeavesTrace (r : Reassembler) (bytes : Bytes) (now : ℕ) : Prop :=
  ∃ fragment assembly, Admitted r bytes now fragment assembly ∧
    if r.inflightBytes + fragment.payload.length > r.maxInflightBytes then
      r.assemblies.lookup fragment.messageId = none
    else none ∉ (assembly.put fragment.index.toNat fragment.payload).fragments ∧
      (assembly.put fragment.index.toNat fragment.payload).receivedBytes ≠ assembly.totalLen

variable {r : Reassembler}

theorem sameState_store_iff {id : UInt32} {assembly : Assembly} :
    SameState r (r.store id assembly) ↔ r.assemblies.lookup id = some assembly := by
  constructor
  · intro h
    have hlook := h.lookup id
    rw [store, AList.lookup_insert] at hlook
    exact hlook.symm
  · intro h
    refine ⟨fun other => ?_, rfl, rfl, rfl, rfl, rfl⟩
    rw [store, Map.lookup_insert_ite]
    by_cases hother : other = id
    · rw [if_pos hother, hother, h]
    · rw [if_neg hother]

section Fill

variable {fragment : Fragment} {now : ℕ} {assembly : Assembly}

theorem lookup_of_header (hassembly : r.assemblyFor fragment now = .ok assembly)
    (hheader : assembly.totalLen ≠ fragment.totalLen.toNat ∨
      assembly.fragments.length ≠ fragment.count.toNat) :
    r.assemblies.lookup fragment.messageId = some assembly := by
  obtain hlook | ⟨-, -, rfl⟩ := assemblyFor_eq_ok hassembly
  · exact hlook
  · rw [List.length_replicate] at hheader
    exact absurd hheader (by simp)

theorem lookup_of_taken (hassembly : r.assemblyFor fragment now = .ok assembly) {existing : Bytes}
    (htaken : assembly.fragments.getD fragment.index.toNat none = some existing) :
    r.assemblies.lookup fragment.messageId = some assembly := by
  obtain hlook | ⟨-, -, rfl⟩ := assemblyFor_eq_ok hassembly
  · exact hlook
  · have hnone : (List.replicate fragment.count.toNat (none : Option Bytes)).getD
        fragment.index.toNat none = none := by
      rw [List.getD_eq_getElem?_getD, List.getElem?_replicate]
      by_cases hindex : fragment.index.toNat < fragment.count.toNat
      · rw [if_pos hindex, getD_some]
      · rw [if_neg hindex, getD_none]
    rw [hnone] at htaken
    contradiction

theorem put_ne {index : ℕ} (hindex : index < assembly.fragments.length)
    (hfree : assembly.fragments.getD index none = none) (payload : Bytes) :
    assembly.put index payload ≠ assembly := by
  intro heq
  have hslot : (assembly.put index payload).fragments.getD index none = some payload := by
    rw [Assembly.put, List.getD_eq_getElem?_getD, List.getElem?_set_self hindex, getD_some]
  rw [heq, hfree] at hslot
  contradiction

/-- **After the assembly is found**, in a table that was pruned. -/
theorem fill_unchanged_iff (hassembly : r.assemblyFor fragment now = .ok assembly)
    (hindex : fragment.index.toNat < fragment.count.toNat) :
    ((∃ e, (r.fill fragment assembly).1 = .error e) →
        SameState r (r.fill fragment assembly).2) ↔
      ¬ (¬ (assembly.totalLen ≠ fragment.totalLen.toNat ∨
            assembly.fragments.length ≠ fragment.count.toNat) ∧
          assembly.fragments.getD fragment.index.toNat none = none ∧
          if r.inflightBytes + fragment.payload.length > r.maxInflightBytes then
            r.assemblies.lookup fragment.messageId = none
          else none ∉ (assembly.put fragment.index.toNat fragment.payload).fragments ∧
            (assembly.put fragment.index.toNat fragment.payload).receivedBytes ≠
              assembly.totalLen) := by
  rw [fill]
  dsimp only
  by_cases hheader : assembly.totalLen ≠ fragment.totalLen.toNat ∨
      assembly.fragments.length ≠ fragment.count.toNat
  · rw [if_pos hheader]
    refine iff_of_true (fun _ => ?_) fun h => h.1 hheader
    exact sameState_store_iff.mpr (lookup_of_header hassembly hheader)
  rw [if_neg hheader, and_iff_right hheader]
  cases hpart : assembly.fragments.getD fragment.index.toNat none with
  | some existing =>
    have hsame := sameState_store_iff.mpr (lookup_of_taken hassembly hpart)
    refine iff_of_true (fun _ => ?_) (by simp)
    dsimp only
    by_cases hconflict : existing ≠ fragment.payload
    · rw [if_pos hconflict]
      exact hsame
    · rw [if_neg hconflict]
      exact hsame
  | none =>
    rw [and_iff_right rfl]
    dsimp only
    by_cases hlimit : r.inflightBytes + fragment.payload.length > r.maxInflightBytes
    · -- the assembly stays in the table
      rw [if_pos hlimit, if_pos hlimit]
      refine ⟨fun h hnone => ?_, fun h _ => ?_⟩
      · have hlook := sameState_store_iff.mp (h ⟨_, rfl⟩)
        rw [hnone] at hlook
        contradiction
      · obtain hlook | ⟨hnone, -⟩ := assemblyFor_eq_ok hassembly
        · exact sameState_store_iff.mpr hlook
        · exact absurd hnone h
    rw [if_neg hlimit, if_neg hlimit, finish]
    by_cases hfree : none ∈ (assembly.put fragment.index.toNat fragment.payload).fragments
    · rw [if_pos hfree]
      refine iff_of_true ?_ fun h => h.1 hfree
      rintro ⟨e, he⟩
      contradiction
    rw [if_neg hfree, and_iff_right hfree]
    by_cases hsize : (assembly.put fragment.index.toNat fragment.payload).receivedBytes ≠
        assembly.totalLen
    · -- the last payload stays in its slot
      rw [if_pos (show (assembly.put fragment.index.toNat fragment.payload).receivedBytes ≠
        (assembly.put fragment.index.toNat fragment.payload).totalLen from hsize)]
      refine iff_of_false (fun h => ?_) (not_not.mpr hsize)
      have hlook : some (assembly.put fragment.index.toNat fragment.payload) =
          r.assemblies.lookup fragment.messageId := by
        rw [← (h ⟨_, rfl⟩).lookup fragment.messageId]
        exact (AList.lookup_insert (b := assembly.put fragment.index.toNat fragment.payload)
          (r.store fragment.messageId assembly).assemblies).symm
      have hlength : fragment.index.toNat < assembly.fragments.length := by
        have : assembly.fragments.length = fragment.count.toNat := by
          by_contra hne
          exact hheader (.inr hne)
        omega
      obtain hold | ⟨hnone, -⟩ := assemblyFor_eq_ok hassembly
      · rw [hold] at hlook
        exact put_ne hlength hpart fragment.payload (some.inj hlook)
      · rw [hnone] at hlook
        contradiction
    · rw [if_neg (show ¬ (assembly.put fragment.index.toNat fragment.payload).receivedBytes ≠
        (assembly.put fragment.index.toNat fragment.payload).totalLen from hsize)]
      refine iff_of_true ?_ hsize
      rintro ⟨e, he⟩
      contradiction

end Fill

theorem push_unchanged_iff (r : Reassembler) (bytes : Bytes) (now : ℕ) :
    ((∃ e, (r.push bytes now).1 = .error e) → SameState (r.prune now) (r.push bytes now).2) ↔
      ¬ LeavesTrace (r.prune now) bytes now := by
  rw [push, LeavesTrace]
  generalize r.prune now = pruned
  cases hdecode : Fragment.decode bytes with
  | error e =>
    refine iff_of_true (fun _ => SameState.refl _) ?_
    rintro ⟨fragment, assembly, hadmitted, -⟩
    rw [hadmitted.decoded] at hdecode
    contradiction
  | ok fragment =>
    dsimp only
    by_cases hsize : fragment.totalLen.toNat = 0 ∨ fragment.totalLen.toNat > pruned.maxMessageSize
    · rw [if_pos hsize]
      refine iff_of_true (fun _ => SameState.refl _) ?_
      rintro ⟨fragment', assembly, hadmitted, -⟩
      rw [hadmitted.decoded] at hdecode
      obtain rfl := Except.ok.inj hdecode
      exact hadmitted.size hsize
    rw [if_neg hsize]
    cases hassembly : pruned.assemblyFor fragment now with
    | error e =>
      refine iff_of_true (fun _ => SameState.refl _) ?_
      rintro ⟨fragment', assembly, hadmitted, -⟩
      obtain rfl := Except.ok.inj (hadmitted.decoded.symm.trans hdecode)
      rw [hadmitted.found] at hassembly
      contradiction
    | ok assembly =>
      rw [fill_unchanged_iff hassembly (Fragment.index_lt_count hdecode), not_iff_not]
      constructor
      · rintro ⟨hheader, hfree, htrace⟩
        exact ⟨fragment, assembly, ⟨hdecode, hsize, hassembly, hheader, hfree⟩, htrace⟩
      · rintro ⟨fragment', assembly', hadmitted, htrace⟩
        obtain rfl := Except.ok.inj (hadmitted.decoded.symm.trans hdecode)
        obtain rfl := Except.ok.inj (hadmitted.found.symm.trans hassembly)
        exact ⟨hadmitted.header, hadmitted.free, htrace⟩

/-- **Refused fragments.**  In every state that calls lead to, a fragment that is refused
leaves the state that pruning alone leaves, exactly when it is not refused too late. -/
theorem rejected_unchanged_iff (timeout maxMessageSize maxInflightMessages maxInflightBytes : ℕ)
    (calls : List Call) (bytes : Bytes) (now : ℕ) :
    let r := calls.foldl call (new timeout maxMessageSize maxInflightMessages maxInflightBytes)
    ((∃ e, (r.push bytes now).1 = .error e) → SameState (r.prune now) (r.push bytes now).2) ↔
      ¬ LeavesTrace (r.prune now) bytes now :=
  push_unchanged_iff _ bytes now

/-- A message of five bytes, in one fragment with four of them. -/
def shortFragment : Fragment := ⟨7, 0, 1, 5, [1, 2, 3, 4]⟩

/-- The first fragment of a message, with more bytes than may be held. -/
def longFragment : Fragment := ⟨7, 0, 2, 5, [1, 2, 3, 4]⟩

/-- **Two refused fragments that stay.**  The one keeps its bytes, and the other keeps the only
place that there is. -/
theorem refused_fragments_stay :
    (((new 30 65536 8 262144).push shortFragment.encode 0).1 =
        .error (.frame "reassembled size mismatch") ∧
      ¬ SameState ((new 30 65536 8 262144).prune 0)
        ((new 30 65536 8 262144).push shortFragment.encode 0).2) ∧
    ((new 30 65536 1 3).push longFragment.encode 0).1 =
        .error (.frame "inflight byte limit exceeded") ∧
      ¬ SameState ((new 30 65536 1 3).prune 0) ((new 30 65536 1 3).push longFragment.encode 0).2 := by
  refine ⟨⟨by decide, fun h => ?_⟩, by decide, fun h => ?_⟩
  · have hbytes : ((new 30 65536 8 262144).push shortFragment.encode 0).2.inflightBytes =
        ((new 30 65536 8 262144).prune 0).inflightBytes := h.inflightBytes
    exact absurd hbytes (by decide)
  · have hlook : ((new 30 65536 1 3).push longFragment.encode 0).2.assemblies.lookup 7 =
        ((new 30 65536 1 3).prune 0).assemblies.lookup 7 := h.lookup 7
    exact absurd hlook (by decide)

end Reassembler

end Nipworker
