/-
How the hand-written JSON parsers end (`utils/mod.rs`, `types/nostr.rs`,
`types/proof.rs`).

`peek` reads the byte at the position without a test.  The loops test the
position first and skip whitespace afterwards, so a text that ends in whitespace
where an element or a member is due makes them read past its end; so do a value
of an unknown key, and `signatures`, that are missing at the end of the text, and
a witness without any text.  Nothing else panics, and no loop goes on for ever.
-/
import Nipworker.Lib.FuelLoop
import Nipworker.Parser.JsonSkips
import Nipworker.Transport.EventFrame

namespace Nipworker

open BaseJsonParser FuelLoop List

/-- The call neither panics nor hangs. -/
def Returns {α : Type} (r : ParserResult α) : Prop := r ≠ .error .panic ∧ r ≠ .error .hang

/-! ### Readers -/

/-- A reader panics exactly on certain texts, comes back on all others, and what
it leaves is no longer than what it was given. -/
structure Outcome {α : Type} (read : List Char → ParserResult (α × List Char))
    (out : List Char → Prop) : Prop where
  panics : ∀ cs, read cs = .error .panic ↔ out cs
  hangs : ∀ cs, read cs ≠ .error .hang
  shorter : ∀ cs a rest, read cs = .ok (a, rest) → rest.length ≤ cs.length

namespace Outcome

variable {α β : Type} {read : List Char → ParserResult (α × List Char)} {out : List Char → Prop}

theorem map (h : Outcome read out) (f : α → β) :
    Outcome (fun cs => (read cs).map fun p => (f p.1, p.2)) out := by
  refine ⟨fun cs => Result.map_eq_error.trans (h.panics cs),
    fun cs => Result.map_eq_error.not.mpr (h.hangs cs), ?_⟩
  intro cs b rest hread
  obtain ⟨⟨a, rest'⟩, ha, heq⟩ := Result.map_eq_ok.mp hread
  cases heq
  exact h.shorter cs a rest' ha

theorem of_error (herror : ∀ cs stop, read cs = .error stop → ∃ e, stop = .error e)
    (hshorter : ∀ cs a rest, read cs = .ok (a, rest) → rest.length ≤ cs.length) :
    Outcome read fun _ => False := by
  refine ⟨fun cs => iff_of_false ?_ id, ?_, hshorter⟩
  · intro h
    obtain ⟨e, he⟩ := herror cs _ h
    contradiction
  · intro cs h
    obtain ⟨e, he⟩ := herror cs _ h
    contradiction

end Outcome

variable {cs rest : List Char} (size : ℕ)

theorem expect_error {size : ℕ} {expected : Char} {stop : ReadStop ParserError}
    (h : expect size expected cs = .error stop) : ∃ e, stop = .error e := by
  rw [expect.eq_def] at h
  cases cs with
  | nil => exact ⟨_, (Except.error.inj h).symm⟩
  | cons c rest =>
    dsimp only at h
    by_cases hc : c = expected
    · rw [if_pos hc] at h
      contradiction
    · rw [if_neg hc] at h
      exact ⟨_, (Except.error.inj h).symm⟩

theorem expect_eq_ok {size : ℕ} {expected : Char} :
    expect size expected cs = .ok rest ↔ cs = expected :: rest := by
  rw [expect.eq_def]
  cases cs with
  | nil => exact iff_of_false (by simp [invalidFormat]) (by simp)
  | cons c cs =>
    dsimp only
    by_cases hc : c = expected
    · rw [if_pos hc, hc]
      simp
    · rw [if_neg hc]
      exact iff_of_false (by simp [invalidFormat]) fun h => hc (List.cons.inj h).1

theorem string_outcome :
    (∀ cs stop, string size cs = .error stop → ∃ e, stop = .error e) ∧
      ∀ cs raw rest, string size cs = .ok (raw, rest) → rest.length + 2 ≤ cs.length := by
  constructor
  · intro cs stop h
    rw [string] at h
    rcases Result.bind_eq_error.mp h with h | ⟨rest, -, h⟩
    · exact expect_error h
    · cases hskip : skipString rest with
      | none =>
        rw [hskip] at h
        exact ⟨_, (Except.error.inj h).symm⟩
      | some p =>
        rw [hskip] at h
        contradiction
  · intro cs raw rest h
    rw [string] at h
    obtain ⟨inner, hopen, h⟩ := Result.bind_eq_ok.mp h
    rw [expect_eq_ok] at hopen
    cases hskip : skipString inner with
    | none =>
      rw [hskip] at h
      contradiction
    | some p =>
      rw [hskip] at h
      obtain rfl : p = (raw, rest) := Except.ok.inj h
      rw [hopen, skipString_eq_some hskip, length_cons, length_append, length_cons]
      omega

theorem stringUnescaped_shorter {size : ℕ} {s : String}
    (h : stringUnescaped size cs = .ok (s, rest)) : rest.length + 2 ≤ cs.length := by
  rw [stringUnescaped] at h
  obtain ⟨⟨raw, rest'⟩, hstring, h⟩ := Result.bind_eq_ok.mp h
  cases h
  exact (string_outcome size).2 cs raw rest hstring

theorem stringUnescaped_lt {size : ℕ} {s : String}
    (h : stringUnescaped size cs = .ok (s, rest)) : rest.length < cs.length := by
  have := stringUnescaped_shorter h
  omega

theorem outcome_stringUnescaped : Outcome (stringUnescaped size) fun _ => False := by
  refine .of_error (fun cs stop h => ?_) fun cs s rest h => ?_
  · rw [stringUnescaped] at h
    rcases Result.bind_eq_error.mp h with h | ⟨p, -, h⟩
    · exact (string_outcome size).1 cs stop h
    · contradiction
  · exact (stringUnescaped_lt h).le

theorem outcome_parseU64 : Outcome parseU64 fun _ => False := by
  refine .of_error (fun cs stop h => ?_) fun cs n rest h => ?_
  · rw [parseU64] at h
    cases hn : Text.parseDecimal (cs.takeWhile Char.isDigit) with
    | none =>
      rw [hn] at h
      exact ⟨_, (Except.error.inj h).symm⟩
    | some n =>
      rw [hn] at h
      dsimp only at h
      by_cases hlt : n < 2 ^ 64
      · rw [if_pos hlt] at h
        contradiction
      · rw [if_neg hlt] at h
        exact ⟨_, (Except.error.inj h).symm⟩
  · rw [parseU64] at h
    cases hn : Text.parseDecimal (cs.takeWhile Char.isDigit) with
    | none =>
      rw [hn] at h
      contradiction
    | some m =>
      rw [hn] at h
      dsimp only at h
      by_cases hlt : m < 2 ^ 64
      · rw [if_pos hlt] at h
        cases h
        exact (dropWhile_sublist _).length_le
      · rw [if_neg hlt] at h
        contradiction

theorem rawValue_eq_some {raw : List Char} : ∀ {depth : ℤ} {inString escaped : Bool},
    rawValue depth inString escaped cs = some (raw, rest) → cs = raw ++ rest := by
  induction cs generalizing raw rest with
  | nil =>
    intro depth inString escaped h
    rw [rawValue] at h
    contradiction
  | cons c cs ih =>
    intro depth inString escaped h
    have hgo : ∀ {depth : ℤ} {inString escaped : Bool},
        (rawValue depth inString escaped cs).map (fun p => (c :: p.1, p.2)) = some (raw, rest) →
          c :: cs = raw ++ rest := by
      intro depth inString escaped hmap
      obtain ⟨⟨raw', rest'⟩, hrest, heq⟩ := Option.map_eq_some_iff.mp hmap
      cases heq
      rw [ih hrest]
      rfl
    rw [rawValue] at h
    split_ifs at h
    · exact hgo h
    · exact hgo h
    · exact hgo h
    · exact hgo h
    · obtain ⟨rfl, rfl⟩ := Prod.mk.inj (Option.some.inj h)
      rfl
    · exact hgo h
    · obtain ⟨rfl, rfl⟩ := Prod.mk.inj (Option.some.inj h)
      rfl
    · exact hgo h

theorem parseRawJsonValue_eq_ok {raw : List Char}
    (h : parseRawJsonValue cs = .ok (raw, rest)) : cs = raw ++ rest := by
  rw [parseRawJsonValue] at h
  cases hraw : rawValue 0 false false cs with
  | none =>
    rw [hraw] at h
    contradiction
  | some p =>
    rw [hraw] at h
    obtain rfl : p = (raw, rest) := Except.ok.inj h
    exact rawValue_eq_some hraw

theorem outcome_parseRawJsonValue : Outcome parseRawJsonValue fun _ => False := by
  refine .of_error (fun cs stop h => ?_) fun cs raw rest h => ?_
  · rw [parseRawJsonValue] at h
    cases hraw : rawValue 0 false false cs with
    | none =>
      rw [hraw] at h
      exact ⟨_, (Except.error.inj h).symm⟩
    | some p =>
      rw [hraw] at h
      contradiction
  · rw [parseRawJsonValue_eq_ok h, length_append]
    omega

/-- The result is no panic, and what is left of the text is not longer. -/
def Shortens (cs : List Char) (r : ParserResult (List Char)) : Prop :=
  (∀ stop, r = .error stop → ∃ e, stop = .error e) ∧ ∀ rest, r = .ok rest → rest.length ≤ cs.length

theorem shortens_ok (h : rest.length ≤ cs.length) : Shortens cs (.ok rest) := by
  refine ⟨fun stop hstop => ?_, fun rest' hrest => ?_⟩
  · contradiction
  · rwa [← Except.ok.inj hrest]

theorem shortens_error (cs : List Char) (message : String) :
    Shortens cs (.error (invalidFormat message)) := by
  refine ⟨fun stop hstop => ⟨_, (Except.error.inj hstop).symm⟩, fun rest hrest => ?_⟩
  contradiction

theorem shortens_string (cs : List Char) : Shortens cs ((string size cs).map Prod.snd) := by
  constructor
  · intro stop h
    exact (string_outcome size).1 cs stop (Result.map_eq_error.mp h)
  · intro rest h
    obtain ⟨⟨raw, rest'⟩, hstring, rfl⟩ := Result.map_eq_ok.mp h
    have hlen := (string_outcome size).2 cs raw rest' hstring
    show rest'.length ≤ cs.length
    omega

theorem skipValue_cons (c : Char) (rest : List Char) :
    Shortens (c :: rest) (skipValue size (c :: rest)) := by
  have hdrop : ∀ n, ((c :: rest).drop n).length ≤ (c :: rest).length := fun n => by
    rw [length_drop]
    omega
  rw [skipValue]
  split_ifs
  · exact shortens_string size (c :: rest)
  · exact shortens_ok (Nat.le_succ_of_le (length_skipNested_le rest 1))
  · exact shortens_ok (Nat.le_succ_of_le (length_skipNested_le rest 1))
  · exact shortens_ok (hdrop 4)
  · exact shortens_ok (hdrop 5)
  · exact shortens_error _ _
  · exact shortens_ok (hdrop 4)
  · exact shortens_error _ _
  · exact shortens_ok (dropWhile_sublist _).length_le

theorem outcome_skipValue {σ : Type} (st : σ) :
    Outcome (fun cs => (skipValue size cs).map fun rest => (st, rest)) fun cs => cs = [] := by
  refine ⟨fun cs => Result.map_eq_error.trans ?_, fun cs => Result.map_eq_error.not.mpr ?_, ?_⟩
  · cases cs with
    | nil => exact iff_of_true rfl rfl
    | cons c rest =>
      refine iff_of_false (fun h => ?_) (cons_ne_nil c rest)
      obtain ⟨e, he⟩ := (skipValue_cons size c rest).1 _ h
      contradiction
  · intro h
    cases cs with
    | nil =>
      rw [skipValue] at h
      contradiction
    | cons c rest =>
      obtain ⟨e, he⟩ := (skipValue_cons size c rest).1 _ h
      contradiction
  · intro cs a rest h
    obtain ⟨next, hskip, heq⟩ := Result.map_eq_ok.mp h
    cases heq
    cases cs with
    | nil =>
      rw [skipValue] at hskip
      contradiction
    | cons c cs => exact (skipValue_cons size c cs).2 _ hskip

/-! ### Loops -/

theorem length_skipWs_le (cs : List Char) : (skipWs cs).length ≤ cs.length :=
  (dropWhile_sublist _).length_le

theorem length_skipCommaOrEnd_le (cs : List Char) : (skipCommaOrEnd cs).length ≤ cs.length := by
  have hskip := length_skipWs_le cs
  rw [skipCommaOrEnd]
  cases hcs : skipWs cs with
  | nil => exact Nat.zero_le _
  | cons c rest =>
    rw [hcs, length_cons] at hskip
    dsimp only
    split
    · omega
    · rw [length_cons]
      omega

section Parts

variable {σ β : Type} (close : Char) (read : σ → List Char → ParserResult (σ × List Char))

/-- One turn of a loop over the parts of a value: it ends at the end of the text, in front
of whitespace only, behind the closing bracket, or in a part that is not read. -/
def partTurn (s : σ × List Char) : (σ × List Char) ⊕ ParserResult (List Char) :=
  if s.2 = [] then .inr (.ok [])
  else
    match skipWs s.2 with
    | [] => .inr (.error .panic)
    | d :: rest =>
      if d = close then .inr (.ok rest)
      else
        match read s.1 (d :: rest) with
        | .ok p => .inl (p.1, skipCommaOrEnd p.2)
        | .error stop => .inr (.error stop)

/-- The parts of a value, as the loops go through them. -/
def parts : ℕ → σ × List Char → ParserResult (List Char) := run (partTurn close read) (.error .hang)

/-- At this position the loop reads past the end of the text: only whitespace is
left where a part is due, or the part itself runs out. -/
def PartOut (out : List Char → Prop) (s : σ × List Char) : Prop :=
  (s.2 ≠ [] ∧ skipWs s.2 = []) ∨ ∃ d rest, skipWs s.2 = d :: rest ∧ d ≠ close ∧ out (d :: rest)

/-- A value that runs out somewhere behind its opening bracket. -/
def PartsOut (opening : Char) (out : List Char → Prop) (st : σ) (cs : List Char) : Prop :=
  ∃ rest, cs = opening :: rest ∧ ComesTo (partTurn close read) (PartOut close out) (st, rest)

variable {close read}

theorem partTurn_of_skipWs {st : σ} {cs rest : List Char} {d : Char} (h : skipWs cs = d :: rest) :
    partTurn close read (st, cs) =
      if d = close then .inr (.ok rest)
      else
        match read st (d :: rest) with
        | .ok p => .inl (p.1, skipCommaOrEnd p.2)
        | .error stop => .inr (.error stop) := by
  have hne : cs ≠ [] := by
    rintro rfl
    contradiction
  rw [partTurn, if_neg hne, h]

theorem parts_succ (n : ℕ) (s : σ × List Char) : parts close read (n + 1) s =
    match partTurn close read s with
    | .inl s' => parts close read n s'
    | .inr r => r := by
  rw [parts, run]
  cases partTurn close read s <;> rfl

variable {out : List Char → Prop}

theorem partOut_iff {st : σ} {cs rest : List Char} {d : Char}
    (h : skipWs cs = d :: rest) : PartOut close out (st, cs) ↔ d ≠ close ∧ out (d :: rest) := by
  constructor
  · rintro (⟨-, hnil⟩ | ⟨d', rest', hcons, hout⟩)
    · exact absurd (h.symm.trans hnil) (cons_ne_nil d rest)
    · obtain ⟨rfl, rfl⟩ := List.cons.inj (h.symm.trans hcons)
      exact hout
  · exact fun hout => .inr ⟨d, rest, h, hout⟩

def TurnSays (close : Char) (out : List Char → Prop) (s : σ × List Char) :
    (σ × List Char) ⊕ ParserResult (List Char) → Prop
  | .inl s' => s'.2.length < s.2.length ∧ ¬ PartOut close out s
  | .inr (.ok rest) => rest.length ≤ s.2.length ∧ ¬ PartOut close out s
  | .inr (.error .panic) => PartOut close out s
  | .inr (.error .hang) => False
  | .inr (.error (.error _)) => ¬ PartOut close out s

theorem partTurn_says (h : ∀ st, Outcome (read st) out)
    (hless : ∀ st cs st' rest, read st cs = .ok (st', rest) → rest.length < cs.length)
    (s : σ × List Char) : TurnSays close out s (partTurn close read s) := by
  obtain ⟨st, cs⟩ := s
  have hle := length_skipWs_le cs
  cases hskip : skipWs cs with
  | nil =>
    by_cases hne : cs = []
    · rw [partTurn, if_pos hne]
      refine ⟨Nat.zero_le _, ?_⟩
      rintro (⟨h', -⟩ | ⟨d, rest, hcons, -⟩)
      · exact h' hne
      · exact cons_ne_nil d rest (hcons.symm.trans hskip)
    · rw [partTurn, if_neg hne, hskip]
      exact .inl ⟨hne, hskip⟩
  | cons d rest =>
    rw [hskip, length_cons] at hle
    rw [partTurn_of_skipWs hskip]
    by_cases hd : d = close
    · rw [if_pos hd]
      refine ⟨?_, fun hout => ((partOut_iff hskip).mp hout).1 hd⟩
      show rest.length ≤ cs.length
      omega
    rw [if_neg hd]
    have hout : PartOut close out (st, cs) ↔ read st (d :: rest) = .error .panic := by
      rw [partOut_iff hskip, and_iff_right hd, (h st).panics]
    cases hread : read st (d :: rest) with
    | ok p =>
      have hlt := hless _ _ p.1 p.2 hread
      have hcomma := length_skipCommaOrEnd_le p.2
      rw [length_cons] at hlt
      refine ⟨?_, by rw [hout, hread]; simp⟩
      show (skipCommaOrEnd p.2).length < cs.length
      omega
    | error stop =>
      cases stop with
      | panic => exact hout.mpr hread
      | hang => exact (h st).hangs _ hread
      | error e =>
        show ¬ PartOut close out (st, cs)
        rw [hout, hread]
        simp

/-- **Loops over parts**: where they panic, and that they come back with less text. -/
theorem outcome_parts {out : List Char → Prop} (h : ∀ st, Outcome (read st) out)
    (hless : ∀ st cs st' rest, read st cs = .ok (st', rest) → rest.length < cs.length) {n : ℕ}
    {s : σ × List Char} (hn : s.2.length < n) :
    (parts close read n s = .error .panic ↔ ComesTo (partTurn close read) (PartOut close out) s) ∧
      parts close read n s ≠ .error .hang ∧
      ∀ rest, parts close read n s = .ok rest → rest.length ≤ s.2.length := by
  have htells : ∀ s t, partTurn close read s = t → TurnSays close out s t :=
    fun s t ht => ht ▸ partTurn_says h hless s
  have hsize : ∀ s s', partTurn close read s = .inl s' → s'.2.length < s.2.length :=
    fun s s' ht => (htells s _ ht).1
  have hpanics : ∀ s r, partTurn close read s = .inr r →
      (r = .error .panic ↔ PartOut close out s) := by
    intro s r ht
    have hr := htells s _ ht
    match r with
    | .ok _ => exact iff_of_false (by simp) hr.2
    | .error .panic => exact iff_of_true rfl hr
    | .error .hang => exact hr.elim
    | .error (.error _) => exact iff_of_false (by simp) hr
  have hends : ∀ s r, partTurn close read s = .inr r →
      r ≠ .error .hang ∧ ∀ rest, r = .ok rest → rest.length ≤ s.2.length := by
    intro s r ht
    have hr := htells s _ ht
    match r with
    | .ok _ => exact ⟨by simp, fun rest hrest => Except.ok.inj hrest ▸ hr.1⟩
    | .error .panic => exact ⟨by simp, by simp⟩
    | .error .hang => exact hr.elim
    | .error (.error _) => exact ⟨by simp, by simp⟩
  have hpanic := run_iff hsize (fun s s' ht => (htells s _ ht).2) hpanics (.error .hang) n s hn
  exact ⟨hpanic, @run_of_ends _ _ _ _ _ hsize
    (fun m r => r ≠ .error .hang ∧ ∀ rest, r = .ok rest → rest.length ≤ m) hends
    (fun m k r hle hr => ⟨hr.1, fun rest hrest => (hr.2 rest hrest).trans hle⟩) n s hn⟩

theorem Outcome.parts {opening : Char} (size : ℕ)
    {loop : ℕ → List Char → ParserResult (β × List Char)} {st : σ}
    (hloop : ∀ n cs, (loop n cs).map Prod.snd = Nipworker.parts close read n (st, cs))
    (h : ∀ st, Outcome (read st) out)
    (hless : ∀ st cs st' rest, read st cs = .ok (st', rest) → rest.length < cs.length) :
    Outcome (fun cs => expect size opening cs >>= fun rest => loop (rest.length + 1) rest)
        (PartsOut close read opening out st) ∧
      ∀ cs b rest, (expect size opening cs >>= fun rest => loop (rest.length + 1) rest) =
        .ok (b, rest) → rest.length < cs.length := by
  have hparts := fun inner : List Char => @outcome_parts σ close read out h hless
    (inner.length + 1) (st, inner) (Nat.lt_succ_self _)
  have hshort : ∀ cs b rest, (expect size opening cs >>= fun rest => loop (rest.length + 1) rest) =
      .ok (b, rest) → rest.length < cs.length := by
    intro cs b rest hok
    obtain ⟨inner, hopen, hok⟩ := Result.bind_eq_ok.mp hok
    have hlen := (hparts inner).2.2 rest (by rw [← hloop, hok]; rfl)
    rw [expect_eq_ok.mp hopen, length_cons]
    exact Nat.lt_succ_of_le hlen
  refine ⟨⟨fun cs => ?_, fun cs hhang => ?_, fun cs b rest hok => (hshort cs b rest hok).le⟩, hshort⟩
  · rw [Result.bind_eq_error]
    constructor
    · rintro (hopen | ⟨rest, hopen, hpanic⟩)
      · obtain ⟨e, he⟩ := expect_error hopen
        contradiction
      · refine ⟨rest, expect_eq_ok.mp hopen, (hparts rest).1.mp ?_⟩
        rw [← hloop, Result.map_eq_error.mpr hpanic]
    · rintro ⟨rest, rfl, hcomes⟩
      have hpanic := (hloop (rest.length + 1) rest).trans ((hparts rest).1.mpr hcomes)
      exact .inr ⟨rest, expect_eq_ok.mpr rfl, Result.map_eq_error.mp hpanic⟩
  · rcases Result.bind_eq_error.mp hhang with hopen | ⟨rest, -, hhang⟩
    · obtain ⟨e, he⟩ := expect_error hopen
      contradiction
    · exact (hparts rest).2.1 (by rw [← hloop, Result.map_eq_error.mpr hhang])

end Parts

/-! ### Arrays and objects -/

section Arrays

variable {α : Type} {parse : List Char → ParserResult (α × List Char)} {out : List Char → Prop}

def readElement (parse : List Char → ParserResult (α × List Char)) (_ : Unit) (cs : List Char) :
    ParserResult (Unit × List Char) :=
  (parse cs).map fun p => ((), p.2)

def ArrayOut (parse : List Char → ParserResult (α × List Char)) (out : List Char → Prop) :
    List Char → Prop := PartsOut ']' (readElement parse) '[' out ()

theorem readElement_shorter
    (hless : ∀ cs a rest, parse cs = .ok (a, rest) → rest.length < cs.length) (u : Unit)
    (cs : List Char) (u' : Unit) (rest : List Char)
    (hok : readElement parse u cs = .ok (u', rest)) : rest.length < cs.length := by
  obtain ⟨⟨a, rest'⟩, hparse, heq⟩ := Result.map_eq_ok.mp hok
  rw [← (Prod.mk.inj heq).2]
  exact hless cs a rest' hparse

theorem elements_parts (n : ℕ) : ∀ cs, (elements parse n cs).map Prod.snd =
    parts ']' (readElement parse) n ((), cs) := by
  induction n with
  | zero => exact fun _ => rfl
  | succ n ih =>
    intro cs
    rw [parts_succ]
    cases hskip : skipWs cs with
    | nil =>
      cases cs with
      | nil => rfl
      | cons c cs =>
        rw [elements, partTurn, if_neg (cons_ne_nil c cs), hskip]
        rfl
    | cons d rest =>
      rw [elements_of_skipWs hskip, partTurn_of_skipWs hskip, readElement]
      by_cases hd : d = ']'
      · rw [if_pos hd, if_pos hd]
        rfl
      rw [if_neg hd, if_neg hd]
      cases hread : parse (d :: rest) with
      | error stop => rfl
      | ok p =>
        show (elements parse n (skipCommaOrEnd p.2) >>= _).map _ = parts _ _ n ((), skipCommaOrEnd p.2)
        rw [← ih]
        cases elements parse n (skipCommaOrEnd p.2) <;> rfl

/-- **Arrays** run out where their loop does. -/
theorem Outcome.array (h : Outcome parse out)
    (hless : ∀ cs a rest, parse cs = .ok (a, rest) → rest.length < cs.length) (size : ℕ) :
    Outcome (BaseJsonParser.array size parse) (ArrayOut parse out) :=
  (Outcome.parts size elements_parts (fun _ => h.map fun _ => ()) (readElement_shorter hless)).1

theorem array_shorter (h : Outcome parse out)
    (hless : ∀ cs a rest, parse cs = .ok (a, rest) → rest.length < cs.length) {size : ℕ}
    {cs rest : List Char} {l : List α}
    (hok : BaseJsonParser.array size parse cs = .ok (l, rest)) : rest.length < cs.length :=
  (Outcome.parts size elements_parts (fun _ => h.map fun _ => ()) (readElement_shorter hless)).2
    cs l rest hok

end Arrays

section Objects

variable {σ : Type} {size : ℕ}
  {field : List Char → σ → List Char → ParserResult (σ × List Char)}
  {out : List Char → List Char → Prop}

def memberStart (size : ℕ) (cs : List Char) : ParserResult (List Char × List Char) := do
  let (key, rest) ← string size cs
  let rest ← expect size ':' (skipWs rest)
  .ok (key, skipWs rest)

def readMember (size : ℕ) (field : List Char → σ → List Char → ParserResult (σ × List Char))
    (st : σ) (cs : List Char) : ParserResult (σ × List Char) :=
  memberStart size cs >>= fun m => field m.1 st m.2

def MemberOut (size : ℕ) (out : List Char → List Char → Prop) (cs : List Char) : Prop :=
  ∃ key rest, memberStart size cs = .ok (key, rest) ∧ out key rest

def ObjectOut (size : ℕ) (field : List Char → σ → List Char → ParserResult (σ × List Char))
    (out : List Char → List Char → Prop) : σ → List Char → Prop :=
  PartsOut '}' (readMember size field) '{' (MemberOut size out)

variable {cs : List Char}

theorem memberStart_error {stop : ReadStop ParserError}
    (h : memberStart size cs = .error stop) : ∃ e, stop = .error e := by
  rw [memberStart] at h
  rcases Result.bind_eq_error.mp h with h | ⟨p, -, h⟩
  · exact (string_outcome size).1 cs stop h
  · rcases Result.bind_eq_error.mp h with h | ⟨rest, -, h⟩
    · exact expect_error h
    · contradiction

theorem memberStart_shorter {key rest : List Char} (h : memberStart size cs = .ok (key, rest)) :
    rest.length < cs.length := by
  rw [memberStart] at h
  obtain ⟨⟨key', rest₁⟩, hkey, h⟩ := Result.bind_eq_ok.mp h
  obtain ⟨rest₂, hcolon, h⟩ := Result.bind_eq_ok.mp h
  have hstring := (string_outcome size).2 cs key' rest₁ hkey
  have hskip := length_skipWs_le rest₁
  rw [expect_eq_ok] at hcolon
  rw [hcolon, length_cons] at hskip
  have hskip₂ := length_skipWs_le rest₂
  rw [← (Prod.mk.inj (Except.ok.inj h)).2]
  omega

theorem members_of_skipWs {st : σ} {rest : List Char} {d : Char} (hskip : skipWs cs = d :: rest)
    (fuel : ℕ) : members size field (fuel + 1) st cs =
      if d = '}' then .ok (st, rest)
      else readMember size field st (d :: rest) >>= fun p =>
        members size field fuel p.1 (skipCommaOrEnd p.2) := by
  cases cs with
  | nil => exact absurd hskip.symm (cons_ne_nil d rest)
  | cons c cs =>
    rw [members, hskip]
    dsimp only
    by_cases hd : d = '}'
    · rw [if_pos hd, if_pos hd]
    · rw [if_neg hd, if_neg hd, readMember, memberStart]
      cases string size (d :: rest) with
      | error e => rfl
      | ok p =>
        show (expect size ':' (skipWs p.2) >>= _) = (expect size ':' (skipWs p.2) >>= _) >>= _ >>= _
        cases expect size ':' (skipWs p.2) <;> rfl

theorem members_parts (n : ℕ) : ∀ (st : σ) (cs : List Char),
    (members size field n st cs).map Prod.snd = parts '}' (readMember size field) n (st, cs) := by
  induction n with
  | zero => exact fun _ _ => rfl
  | succ n ih =>
    intro st cs
    rw [parts_succ]
    cases hskip : skipWs cs with
    | nil =>
      cases cs with
      | nil => rfl
      | cons c cs =>
        rw [members, partTurn, if_neg (cons_ne_nil c cs), hskip]
        rfl
    | cons d rest =>
      rw [members_of_skipWs hskip, partTurn_of_skipWs hskip]
      by_cases hd : d = '}'
      · rw [if_pos hd, if_pos hd]
        rfl
      rw [if_neg hd, if_neg hd]
      cases hread : readMember size field st (d :: rest) with
      | error stop => rfl
      | ok p => exact ih p.1 (skipCommaOrEnd p.2)

theorem readMember_shorter (h : ∀ key st, Outcome (field key st) (out key)) {st st' : σ}
    {rest : List Char} (hok : readMember size field st cs = .ok (st', rest)) :
    rest.length < cs.length := by
  rw [readMember] at hok
  obtain ⟨⟨key, value⟩, hstart, hfield⟩ := Result.bind_eq_ok.mp hok
  have hstart := memberStart_shorter hstart
  have hvalue := (h key st).shorter value st' rest hfield
  omega

theorem outcome_readMember (h : ∀ key st, Outcome (field key st) (out key)) (st : σ) :
    Outcome (readMember size field st) (MemberOut size out) := by
  refine ⟨fun cs => ?_, fun cs hhang => ?_, fun cs st' rest hok => ?_⟩
  · rw [readMember, Result.bind_eq_error]
    constructor
    · rintro (hstart | ⟨⟨key, rest⟩, hstart, hpanic⟩)
      · obtain ⟨e, he⟩ := memberStart_error hstart
        contradiction
      · exact ⟨key, rest, hstart, ((h key st).panics rest).mp hpanic⟩
    · rintro ⟨key, rest, hstart, hout⟩
      exact .inr ⟨(key, rest), hstart, ((h key st).panics rest).mpr hout⟩
  · rw [readMember] at hhang
    rcases Result.bind_eq_error.mp hhang with hstart | ⟨p, -, hhang⟩
    · obtain ⟨e, he⟩ := memberStart_error hstart
      contradiction
    · exact (h p.1 st).hangs p.2 hhang
  · exact (readMember_shorter h hok).le

/-- **Objects** run out where their loop does. -/
theorem Outcome.object (h : ∀ key st, Outcome (field key st) (out key)) (st : σ) :
    Outcome (BaseJsonParser.object size field st) (ObjectOut size field out st) :=
  (Outcome.parts size (fun n cs => members_parts n st cs) (outcome_readMember h)
    fun _ _ _ _ => readMember_shorter h).1

end Objects

end Nipworker
