/-
The head of a pipeline (`pipeline/mod.rs`, `Pipeline::process`).

Before the pipes see an event, the pipeline takes its id from the text, drops it
when the id has been seen, remembers the id and only then reads the event.  An
error of a pipe forgets the id again; a text that does not read as an event does
not.
-/
import Nipworker.Lib.Result
import Nipworker.Transport.EventFrame

namespace Nipworker

def dedupMaxSize : ℕ := 10000

/-- The seen ids after the call, and the event that entered the pipes. `fails` says whether a
pipe returned an error on it. -/
def Pipeline.process (seen : Finset Bytes32) (raw : List Char) (fails : Bool) :
    Finset Bytes32 × Option SignedEvent :=
  match textEventId raw with
  | none => (seen, none)
  | some id =>
    if id ∈ seen then (seen, none)
    else
      let remembered := if seen.card < dedupMaxSize then insert id seen else seen
      match SignedEvent.readFields raw with
      | .error _ => (remembered, none)
      | .ok event => (if fails then remembered.erase id else remembered, some event)

/-! ### The two readings of the id -/

theorem readFields_id {json : List Char} {event : SignedEvent}
    (h : SignedEvent.readFields json = .ok event) :
    ∃ tail text, SignedEvent.afterKey "\"id\"" json "Missing id" = .ok tail ∧
      SignedEvent.quotedAfter tail "Invalid id format" "Missing id value" = .ok text ∧
      eventIdFromHex text = .ok event.id := by
  obtain ⟨tail, htail, h⟩ := Result.bind_eq_ok.mp h
  obtain ⟨text, htext, h⟩ := Result.bind_eq_ok.mp h
  obtain ⟨id, hid, h⟩ := Result.bind_eq_ok.mp h
  refine ⟨tail, text, htail, htext, ?_⟩
  obtain ⟨_, _, h⟩ := Result.bind_eq_ok.mp h
  obtain ⟨_, _, h⟩ := Result.bind_eq_ok.mp h
  obtain ⟨_, _, h⟩ := Result.bind_eq_ok.mp h
  obtain ⟨_, _, h⟩ := Result.bind_eq_ok.mp h
  obtain ⟨_, _, h⟩ := Result.bind_eq_ok.mp h
  obtain ⟨_, _, h⟩ := Result.bind_eq_ok.mp h
  obtain ⟨_, _, h⟩ := Result.bind_eq_ok.mp h
  obtain ⟨_, _, h⟩ := Result.bind_eq_ok.mp h
  obtain ⟨_, _, h⟩ := Result.bind_eq_ok.mp h
  obtain ⟨_, _, h⟩ := Result.bind_eq_ok.mp h
  split at h
  · cases h
  · cases h
    exact hid

/-- **The two readings agree** where both succeed. -/
theorem fromJson_id {json : List Char} {id : Bytes32} {event : SignedEvent}
    (hid : textEventId json = some id) (h : SignedEvent.readFields json = .ok event) :
    event.id = id := by
  obtain ⟨tail, separator, hex, rest, htail, rfl, hsep, hdecode⟩ := textEventId_iff.mp hid
  obtain ⟨tail', text, hkey, hquoted, hhex⟩ := readFields_id h
  have htail' : tail' = separator ++ '"' :: (hex ++ '"' :: rest) := by
    rw [SignedEvent.afterKey, htail] at hkey
    exact (Except.ok.inj hkey).symm
  have hsepQuote : '"' ∉ separator := by
    intro hmem
    exact absurd (hsep _ hmem) (by decide)
  have hhexQuote : '"' ∉ hex := by
    intro hmem
    obtain ⟨n, hn⟩ := Hex.digitValue_of_mem hdecode _ hmem
    rw [show Hex.digitValue '"' = none by decide] at hn
    cases hn
  have htext : text = String.ofList hex := by
    rw [htail', SignedEvent.quotedAfter, Text.splitOnce_eq_some.mpr ⟨rfl, hsepQuote⟩] at hquoted
    dsimp only at hquoted
    rw [Text.splitOnce_eq_some.mpr ⟨rfl, hhexQuote⟩] at hquoted
    exact (Except.ok.inj hquoted).symm
  rw [htext, eventIdFromHex, Bytes32.fromHex, Hex.decode, String.toList_ofList, hdecode] at hhex
  dsimp only at hhex
  rw [dif_pos id.size] at hhex
  exact (Except.ok.inj hhex).symm

/-- **What the pipeline remembers.**  Of a text that reads as an event when the
search finds an id in it, only the id of the event that entered the pipes is new to
the seen ids; and the id found was seen before or has entered. -/
theorem Pipeline.process_spec (seen : Finset Bytes32) {raw : List Char} (fails : Bool)
    (hraw : ∀ id, textEventId raw = some id → ∃ event, SignedEvent.readFields raw = .ok event) :
    (∀ id ∈ (process seen raw fails).1,
      id ∈ seen ∨ ∃ event, (process seen raw fails).2 = some event ∧ event.id = id) ∧
    ∀ id, textEventId raw = some id →
      id ∈ seen ∨ ∃ event, (process seen raw fails).2 = some event ∧ event.id = id := by
  rw [process]
  cases hid : textEventId raw with
  | none => exact ⟨fun id h => Or.inl h, fun id h => nomatch h⟩
  | some id =>
    obtain ⟨event, hread⟩ := hraw id hid
    have hevent : event.id = id := fromJson_id hid hread
    dsimp only
    by_cases hseen : id ∈ seen
    · rw [if_pos hseen]
      refine ⟨fun other h => Or.inl h, ?_⟩
      intro other h
      cases h
      exact Or.inl hseen
    · rw [if_neg hseen, hread]
      dsimp only
      constructor
      · intro other hother
        have hremembered : other ∈ (if seen.card < dedupMaxSize then insert id seen else seen) := by
          by_cases hfails : fails = true
          · rw [if_pos hfails] at hother
            exact Finset.mem_of_mem_erase hother
          · rwa [if_neg hfails] at hother
        split at hremembered
        · rcases Finset.mem_insert.mp hremembered with rfl | hold
          · exact Or.inr ⟨event, rfl, hevent⟩
          · exact Or.inl hold
        · exact Or.inl hremembered
      · intro other h
        cases h
        exact Or.inr ⟨event, rfl, hevent⟩

end Nipworker
