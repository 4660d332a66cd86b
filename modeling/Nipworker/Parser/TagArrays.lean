/-
The reader of the private tags on every text (`parser/nip51.rs`,
`parser_utils/json.rs`).

`parse_tag_arrays_json` skips what it does not expect.  `skip_value` takes any other
byte for the beginning of a number, and `skip_number` takes no step in front of a byte
that no number has: the loop stands still.  An exponent is enough, since the digits in
front of it are skipped and the letter is not.
-/
import Nipworker.Parser.JsonOutcomes

namespace Nipworker

open JsonText BaseJsonParser FuelLoop List

/-! ### Skipping -/

variable {cs rest : List Char} {c : Char} (size : ℕ)

theorem skipWs_of_skipWs (h : skipWs cs = c :: rest) : skipWs (c :: rest) = c :: rest := by
  rw [← h]
  exact dropWhile_idempotent _ cs

/-- A byte at which `skip_value` finds a number without any byte of it, and which is
neither a comma nor a closing bracket. -/
def isStuck (c : Char) : Bool :=
  !(isNumberByte c || ['"', '[', '{', 't', 'f', 'n', ',', ']'].contains c)

theorem not_mem_of_isStuck (h : isStuck c = true) :
    isNumberByte c = false ∧ c ≠ '"' ∧ c ≠ '[' ∧ c ≠ '{' ∧ c ≠ 't' ∧ c ≠ 'f' ∧ c ≠ 'n' ∧ c ≠ ',' := by
  have hne : ∀ d, isStuck d = false → c ≠ d := by
    rintro d hd rfl
    rw [h] at hd
    contradiction
  refine ⟨?_, hne _ (by decide), hne _ (by decide), hne _ (by decide), hne _ (by decide),
    hne _ (by decide), hne _ (by decide), hne _ (by decide)⟩
  rw [isStuck, Bool.not_eq_true', Bool.or_eq_false_iff] at h
  exact h.1

theorem skipValue_stuck (h : isStuck c = true) (rest : List Char) :
    skipValue size (c :: rest) = .ok (c :: rest) := by
  obtain ⟨hnumber, hquote, harray, hobject, ht, hf, hn, -⟩ := not_mem_of_isStuck h
  rw [skipValue, if_neg hquote, if_neg harray, if_neg hobject, if_neg fun h => h.elim ht hf,
    if_neg hn, dropWhile_cons_of_neg (by rw [hnumber]; exact Bool.false_ne_true)]

theorem skipCommaOrEnd_stuck (h : isStuck c = true)
    (hskip : skipWs cs = c :: rest) : skipCommaOrEnd (c :: rest) = c :: rest := by
  obtain ⟨-, -, -, -, -, -, -, hcomma⟩ := not_mem_of_isStuck h
  rw [skipCommaOrEnd, skipWs_of_skipWs hskip]
  exact if_neg hcomma

theorem skipValue_moves {size : ℕ} {next : List Char}
    (hskip : skipWs cs = c :: rest) (hc : c ≠ ']') (h : isStuck c = false)
    (hok : skipValue size (c :: rest) = .ok next) :
    (skipCommaOrEnd next).length < (c :: rest).length := by
  have hcomma := length_skipCommaOrEnd_le next
  have hle : next.length < (c :: rest).length → (skipCommaOrEnd next).length < (c :: rest).length :=
    fun hlt => by omega
  have hdrop : ∀ n, ((c :: rest).drop (n + 1)).length < (c :: rest).length := fun n => by
    rw [length_drop, length_cons]
    omega
  rw [skipValue] at hok
  by_cases h1 : c = '"'
  · rw [if_pos h1] at hok
    obtain ⟨⟨raw, next'⟩, hstring, rfl⟩ := Result.map_eq_ok.mp hok
    have hlen := (string_outcome size).2 _ raw next' hstring
    exact hle (by show next'.length < _; omega)
  rw [if_neg h1] at hok
  by_cases h2 : c = '['
  · rw [if_pos h2] at hok
    cases hok
    exact hle (Nat.lt_succ_of_le (length_skipNested_le rest 1))
  rw [if_neg h2] at hok
  by_cases h3 : c = '{'
  · rw [if_pos h3] at hok
    cases hok
    exact hle (Nat.lt_succ_of_le (length_skipNested_le rest 1))
  rw [if_neg h3] at hok
  by_cases h4 : c = 't' ∨ c = 'f'
  · rw [if_pos h4] at hok
    split_ifs at hok
    · cases hok
      exact hle (hdrop 3)
    · cases hok
      exact hle (hdrop 4)
  rw [if_neg h4] at hok
  by_cases h5 : c = 'n'
  · rw [if_pos h5] at hok
    split_ifs at hok
    cases hok
    exact hle (hdrop 3)
  rw [if_neg h5] at hok
  by_cases hnumber : isNumberByte c = true
  · cases hok
    rw [dropWhile_cons_of_pos hnumber] at hle ⊢
    exact hle (Nat.lt_succ_of_le (dropWhile_sublist _).length_le)
  · -- what is left of the bytes is the comma
    rw [dropWhile_cons_of_neg hnumber] at hok
    cases hok
    have hcomma : c = ',' := by
      rw [isStuck, Bool.not_eq_false', Bool.or_eq_true] at h
      have hmem := List.contains_iff_mem.mp (h.resolve_left hnumber)
      rw [not_or] at h4
      simp only [mem_cons, not_mem_nil, or_false] at hmem
      tauto
    rw [skipCommaOrEnd, skipWs_of_skipWs hskip]
    dsimp only
    rw [if_pos hcomma]
    exact Nat.lt_succ_self _

/-! ### Tolerant loops -/

/-- One turn of a loop over the parts of an array, and `atEnd` at the end of the text. -/
def tolerantTurn (atEnd : ParserResult (List Char)) (read : List Char → ParserResult (List Char))
    (cs : List Char) : List Char ⊕ ParserResult (List Char) :=
  match skipWs cs with
  | [] => .inr atEnd
  | c :: rest =>
    if c = ']' then .inr (.ok rest)
    else if isStuck c then .inr (.error .hang)
    else
      match read (c :: rest) with
      | .ok next => .inl (skipCommaOrEnd next)
      | .error stop => .inr (.error stop)

/-- At this position the loop stands still: in front of a byte it does not get over, or
of a part from which it does not come back. -/
def StandsAt (stands : List Char → Prop) (s : List Char) : Prop :=
  ∃ c rest, skipWs s = c :: rest ∧ (isStuck c = true ∨ stands (c :: rest))

def StandsSays (stands : List Char → Prop) (s : List Char) :
    List Char ⊕ ParserResult (List Char) → Prop
  | .inl s' => s'.length < s.length ∧ ¬ StandsAt stands s
  | .inr (.ok rest) => rest.length ≤ s.length ∧ ¬ StandsAt stands s
  | .inr (.error .hang) => StandsAt stands s
  | .inr (.error .panic) => False
  | .inr (.error (.error _)) => ¬ StandsAt stands s

/-- A reader of parts: it does not panic, it comes back unless the part `stands`, and it
takes a step. -/
def Reads (read : List Char → ParserResult (List Char)) (stands : List Char → Prop) : Prop :=
  ∀ c rest, skipWs (c :: rest) = c :: rest → c ≠ ']' → isStuck c = false →
    (read (c :: rest) = .error .hang ↔ stands (c :: rest)) ∧ read (c :: rest) ≠ .error .panic ∧
      ∀ next, read (c :: rest) = .ok next → (skipCommaOrEnd next).length < (c :: rest).length

section Tolerant

variable {atEnd : ParserResult (List Char)} {read : List Char → ParserResult (List Char)}
  {stands : List Char → Prop}

theorem tolerantTurn_says (hend : atEnd = .ok [] ∨ ∃ e, atEnd = .error (.error e))
    (h : Reads read stands) (hclose : ∀ rest, ¬ stands (']' :: rest)) (cs : List Char) :
    StandsSays stands cs (tolerantTurn atEnd read cs) := by
  have hle := length_skipWs_le cs
  rw [tolerantTurn]
  cases hskip : skipWs cs with
  | nil =>
    have hnot : ¬ StandsAt stands cs := by
      rintro ⟨c, rest, hcons, -⟩
      exact cons_ne_nil c rest (hcons.symm.trans hskip)
    rcases hend with rfl | ⟨e, rfl⟩
    · exact ⟨Nat.zero_le _, hnot⟩
    · exact hnot
  | cons c rest =>
    have hstands : StandsAt stands cs ↔ isStuck c = true ∨ stands (c :: rest) := by
      constructor
      · rintro ⟨c', rest', hcons, hs⟩
        obtain ⟨rfl, rfl⟩ := List.cons.inj (hskip.symm.trans hcons)
        exact hs
      · exact fun hs => ⟨c, rest, hskip, hs⟩
    dsimp only
    by_cases hc : c = ']'
    · rw [if_pos hc]
      rw [hskip, length_cons] at hle
      refine ⟨by omega, ?_⟩
      rw [hstands, hc]
      exact fun hs => hs.elim (by decide) (hclose rest)
    rw [if_neg hc]
    cases hstuck : isStuck c with
    | true => exact hstands.mpr (.inl hstuck)
    | false =>
      rw [hstuck, or_iff_right Bool.false_ne_true] at hstands
      obtain ⟨hhang, hpanic, hshort⟩ := h c rest (skipWs_of_skipWs hskip) hc hstuck
      rw [if_neg Bool.false_ne_true]
      rw [← hhang] at hstands
      cases hread : read (c :: rest) with
      | ok next =>
        have hlt := hshort next hread
        rw [hskip] at hle
        exact ⟨by omega, by rw [hstands, hread]; simp⟩
      | error stop =>
        cases stop with
        | hang => exact hstands.mpr hread
        | panic => exact hpanic hread
        | error e =>
          show ¬ StandsAt stands cs
          rw [hstands, hread]
          simp

/-- **Tolerant loops** never panic, and go on for ever exactly if they come to stand
still; otherwise less text is left. -/
theorem outcome_tolerant (hend : atEnd = .ok [] ∨ ∃ e, atEnd = .error (.error e))
    (h : Reads read stands) (hclose : ∀ rest, ¬ stands (']' :: rest)) {n : ℕ} {cs : List Char}
    (hn : cs.length < n) :
    (run (tolerantTurn atEnd read) (.error .hang) n cs = .error .hang ↔
        ComesTo (tolerantTurn atEnd read) (StandsAt stands) cs) ∧
      run (tolerantTurn atEnd read) (.error .hang) n cs ≠ .error .panic ∧
      ∀ rest, run (tolerantTurn atEnd read) (.error .hang) n cs = .ok rest →
        rest.length ≤ cs.length := by
  have htells : ∀ s t, tolerantTurn atEnd read s = t → StandsSays stands s t :=
    fun s t ht => ht ▸ tolerantTurn_says hend h hclose s
  have hsize : ∀ s s', tolerantTurn atEnd read s = .inl s' → s'.length < s.length :=
    fun s s' ht => (htells s _ ht).1
  have hhangs : ∀ s r, tolerantTurn atEnd read s = .inr r →
      (r = .error .hang ↔ StandsAt stands s) := by
    intro s r ht
    have hr := htells s _ ht
    match r with
    | .ok _ => exact iff_of_false (by simp) hr.2
    | .error .panic => exact hr.elim
    | .error .hang => exact iff_of_true rfl hr
    | .error (.error _) => exact iff_of_false (by simp) hr
  have hends : ∀ s r, tolerantTurn atEnd read s = .inr r →
      r ≠ .error .panic ∧ ∀ rest, r = .ok rest → rest.length ≤ s.length := by
    intro s r ht
    have hr := htells s _ ht
    constructor
    · rintro rfl
      exact hr
    · rintro rest rfl
      exact hr.1
  have hhang := run_iff hsize (fun s s' ht => (htells s _ ht).2) hhangs (.error .hang) n cs hn
  exact ⟨hhang, @run_of_ends _ _ _ _ _ hsize
    (fun m r => r ≠ .error .panic ∧ ∀ rest, r = .ok rest → rest.length ≤ m) hends
    (fun m k r hle hr => ⟨hr.1, fun rest hrest => (hr.2 rest hrest).trans hle⟩) n cs hn⟩

/-- A loop that reads parts in this way is a run of its turns; in front of a byte it does
not get over it uses up its fuel. -/
theorem run_of_step {γ : Type} {loop : ℕ → List Char → ParserResult γ} {keep : List Char → γ}
    (hzero : ∀ cs, loop 0 cs = .error .hang)
    (hnil : ∀ n cs, skipWs cs = [] → loop (n + 1) cs = atEnd.map keep)
    (hclosed : ∀ n cs rest, skipWs cs = ']' :: rest → loop (n + 1) cs = .ok (keep rest))
    (hstep : ∀ n cs c rest, skipWs cs = c :: rest → c ≠ ']' →
      loop (n + 1) cs = read (c :: rest) >>= fun next => loop n (skipCommaOrEnd next))
    (hstuck : ∀ c rest, isStuck c = true → read (c :: rest) = .ok (c :: rest)) (n : ℕ) :
    ∀ cs, loop n cs = (run (tolerantTurn atEnd read) (.error .hang) n cs).map keep := by
  have hhang : ∀ c rest, isStuck c = true → ∀ n cs, skipWs cs = c :: rest →
      loop n cs = .error .hang := by
    intro c rest h n
    induction n with
    | zero => exact fun cs _ => hzero cs
    | succ n ih =>
      intro cs hskip
      have hc : c ≠ ']' := by
        rintro rfl
        contradiction
      rw [hstep n cs c rest hskip hc, hstuck c rest h]
      show loop n (skipCommaOrEnd (c :: rest)) = _
      rw [skipCommaOrEnd_stuck h hskip]
      exact ih (c :: rest) (skipWs_of_skipWs hskip)
  induction n with
  | zero => exact hzero
  | succ n ih =>
    intro cs
    rw [run, tolerantTurn]
    cases hskip : skipWs cs with
    | nil => exact hnil n cs hskip
    | cons c rest =>
      dsimp only
      by_cases hc : c = ']'
      · rw [if_pos hc]
        exact hclosed n cs rest (hc ▸ hskip)
      rw [if_neg hc]
      by_cases h : isStuck c = true
      · rw [if_pos h]
        exact hhang c rest h (n + 1) cs hskip
      rw [if_neg h, hstep n cs c rest hskip hc]
      cases read (c :: rest) with
      | error stop => rfl
      | ok next => exact ih (skipCommaOrEnd next)

end Tolerant

/-! ### An array of strings -/

/-- One turn of `parse_string_array`: strings end where `skip_value` leaves them. -/
def valueTurn (size : ℕ) : List Char → List Char ⊕ ParserResult (List Char) :=
  tolerantTurn (.error (invalidFormat "Unterminated array")) (skipValue size)

/-- What `parse_string_array` leaves of the text. -/
def behindArray (size : ℕ) (inner : List Char) : ParserResult (List Char) :=
  run (valueTurn size) (.error .hang) (inner.length + 1) inner

def TagStuck (size : ℕ) (inner : List Char) : Prop :=
  ComesTo (valueTurn size) (StandsAt fun _ => False) inner

theorem stringArray_of_skipWs {size : ℕ} (hskip : skipWs cs = c :: rest) (n : ℕ) :
    stringArray size (n + 1) cs =
      if c = ']' then .ok ([], rest)
      else if c = '"' then stringUnescaped size (c :: rest) >>= fun p =>
        stringArray size n (skipCommaOrEnd p.2) >>= fun q => .ok (p.1 :: q.1, q.2)
      else skipValue size (c :: rest) >>= fun next => stringArray size n (skipCommaOrEnd next) := by
  rw [stringArray, hskip]

theorem stringArray_step {size : ℕ} (hskip : skipWs cs = c :: rest)
    (hc : c ≠ ']') (n : ℕ) : (stringArray size (n + 1) cs).map Prod.snd =
      skipValue size (c :: rest) >>= fun next =>
        (stringArray size n (skipCommaOrEnd next)).map Prod.snd := by
  rw [stringArray_of_skipWs hskip, if_neg hc]
  by_cases hquote : c = '"'
  · rw [skipValue, if_pos hquote, if_pos hquote, stringUnescaped]
    cases string size (c :: rest) with
    | error stop => rfl
    | ok p =>
      show (stringArray size n (skipCommaOrEnd p.2) >>= _).map _ =
        (stringArray size n (skipCommaOrEnd p.2)).map _
      cases stringArray size n (skipCommaOrEnd p.2) <;> rfl
  · rw [if_neg hquote]
    cases skipValue size (c :: rest) <;> rfl

theorem stringArray_run (n : ℕ) (cs : List Char) :
    (stringArray size n cs).map Prod.snd = run (valueTurn size) (.error .hang) n cs := by
  have h := @run_of_step (.error (invalidFormat "Unterminated array")) (skipValue size) (List Char)
    (fun n cs => (stringArray size n cs).map Prod.snd) id (fun _ => rfl)
    (fun n cs hskip => by rw [stringArray, hskip]; rfl)
    (fun n cs rest hskip => by rw [stringArray_of_skipWs hskip, if_pos rfl]; rfl)
    (fun n cs c rest hskip hc => stringArray_step hskip hc n)
    (fun c rest h => skipValue_stuck size h rest) n cs
  refine h.trans ?_
  rw [valueTurn]
  cases run (tolerantTurn _ (skipValue size)) (.error .hang) n cs <;> rfl

theorem reads_skipValue : Reads (skipValue size) fun _ => False := by
  intro c rest hskip hc hstuck
  have herror := (skipValue_cons size c rest).1
  refine ⟨iff_of_false (fun hhang => ?_) id, fun hpanic => ?_, fun next hok =>
    skipValue_moves hskip hc hstuck hok⟩
  · obtain ⟨e, he⟩ := herror _ hhang
    contradiction
  · obtain ⟨e, he⟩ := herror _ hpanic
    contradiction

theorem behindArray_outcome (inner : List Char) :
    (behindArray size inner = .error .hang ↔ TagStuck size inner) ∧
      behindArray size inner ≠ .error .panic ∧
      ∀ rest, behindArray size inner = .ok rest → rest.length ≤ inner.length :=
  outcome_tolerant (.inr ⟨_, rfl⟩) (reads_skipValue size) (fun _ => id) (Nat.lt_succ_self _)

/-! ### The array of arrays -/

def behindPart (size : ℕ) (cs : List Char) : ParserResult (List Char) :=
  match cs with
  | '[' :: inner => behindArray size inner
  | cs => skipValue size cs

/-- One turn of `parse_tag_arrays_json`. -/
def tagTurn (size : ℕ) : List Char → List Char ⊕ ParserResult (List Char) :=
  tolerantTurn (.ok []) (behindPart size)

/-- The part is an array that comes to a byte it does not get over. -/
def PartStuck (size : ℕ) (cs : List Char) : Prop := ∃ inner, cs = '[' :: inner ∧ TagStuck size inner

/-- The text leads the reader to a byte it does not get over. -/
def StandsStill (json : List Char) : Prop :=
  ∃ inner, skipWs json = '[' :: inner ∧
    ComesTo (tagTurn (byteLength json)) (StandsAt (PartStuck (byteLength json))) inner

theorem tagArraysLoop_of_skipWs {size : ℕ} (hskip : skipWs cs = c :: rest) (n : ℕ) :
    tagArraysLoop size (n + 1) cs =
      if c = ']' then .ok []
      else if c = '[' then stringArray size (rest.length + 1) rest >>= fun p =>
        tagArraysLoop size n (skipCommaOrEnd p.2) >>= fun tags => .ok (p.1 :: tags)
      else skipValue size (c :: rest) >>= fun next => tagArraysLoop size n (skipCommaOrEnd next) := by
  rw [tagArraysLoop, hskip]

theorem behindPart_cons (c : Char) (rest : List Char) : behindPart size (c :: rest) =
    if c = '[' then behindArray size rest else skipValue size (c :: rest) := by
  by_cases hc : c = '['
  · rw [if_pos hc, hc, behindPart]
  · rw [if_neg hc, behindPart]
    exact fun inner h => hc (List.cons.inj h).1

theorem reads_behindPart : Reads (behindPart size) (PartStuck size) := by
  intro c rest hskip hc hstuck
  rw [behindPart_cons]
  by_cases hopen : c = '['
  · obtain ⟨hhang, hpanic, hshort⟩ := behindArray_outcome size rest
    rw [if_pos hopen]
    refine ⟨hhang.trans ⟨fun h => ⟨rest, by rw [hopen], h⟩, ?_⟩, hpanic, fun next hok => ?_⟩
    · rintro ⟨inner, hcons, h⟩
      rwa [(List.cons.inj hcons).2]
    · have hcomma := length_skipCommaOrEnd_le next
      have hle := hshort next hok
      rw [length_cons]
      omega
  · obtain ⟨hhang, hread⟩ := reads_skipValue size c rest hskip hc hstuck
    rw [if_neg hopen]
    refine ⟨hhang.trans (iff_of_false id ?_), hread⟩
    rintro ⟨inner, hcons, -⟩
    exact hopen (List.cons.inj hcons).1

theorem tagArraysLoop_step {size : ℕ} (hskip : skipWs cs = c :: rest)
    (hc : c ≠ ']') (n : ℕ) : (tagArraysLoop size (n + 1) cs).map (fun _ => ()) =
      behindPart size (c :: rest) >>= fun next =>
        (tagArraysLoop size n (skipCommaOrEnd next)).map fun _ => () := by
  rw [tagArraysLoop_of_skipWs hskip, if_neg hc, behindPart_cons]
  by_cases hopen : c = '['
  · rw [if_pos hopen, if_pos hopen, behindArray, ← stringArray_run]
    cases stringArray size (rest.length + 1) rest with
    | error stop => rfl
    | ok p =>
      show (tagArraysLoop size n (skipCommaOrEnd p.2) >>= _).map _ =
        (tagArraysLoop size n (skipCommaOrEnd p.2)).map _
      cases tagArraysLoop size n (skipCommaOrEnd p.2) <;> rfl
  · rw [if_neg hopen, if_neg hopen]
    cases skipValue size (c :: rest) <;> rfl

theorem tagArraysLoop_run (n : ℕ) (cs : List Char) : (tagArraysLoop size n cs).map (fun _ => ()) =
    (run (tagTurn size) (.error .hang) n cs).map fun _ => () := by
  refine @run_of_step (.ok []) (behindPart size) Unit
    (fun n cs => (tagArraysLoop size n cs).map fun _ => ()) (fun _ => ()) (fun _ => rfl)
    (fun n cs hskip => by rw [tagArraysLoop, hskip]; rfl)
    (fun n cs rest hskip => by rw [tagArraysLoop_of_skipWs hskip, if_pos rfl]; rfl)
    (fun n cs c rest hskip hc => tagArraysLoop_step hskip hc n) (fun c rest h => ?_) n cs
  obtain ⟨-, -, hopen, -⟩ := not_mem_of_isStuck h
  rw [behindPart_cons, if_neg hopen, skipValue_stuck size h]

/-- **The reader of the private tags** comes back exactly from the texts that do not
lead it to a byte it does not get over. -/
theorem tagArrays_returns_iff (json : String) :
    Returns (tagArrays json) ↔ ¬ StandsStill json.toList := by
  have hloop : ∀ rest stop, tagArraysLoop (byteLength json.toList) (rest.length + 1) rest = .error stop ↔
      run (tagTurn (byteLength json.toList)) (.error .hang) (rest.length + 1) rest = .error stop := by
    intro rest stop
    rw [← Result.map_eq_error, tagArraysLoop_run, Result.map_eq_error]
  have hclose : ∀ rest, ¬ PartStuck (byteLength json.toList) (']' :: rest) := by
    rintro rest ⟨inner, hcons, -⟩
    exact absurd (List.cons.inj hcons).1 (by decide)
  have hrun := fun rest : List Char => outcome_tolerant (.inl rfl)
    (reads_behindPart (byteLength json.toList)) hclose (Nat.lt_succ_self rest.length)
  have hpanic : tagArrays json ≠ .error .panic := by
    intro h
    rw [tagArrays] at h
    rcases Result.bind_eq_error.mp h with hopen | ⟨rest, -, h⟩
    · obtain ⟨e, he⟩ := expect_error hopen
      contradiction
    · exact (hrun rest).2.1 ((hloop rest _).mp h)
  rw [Returns, and_iff_right hpanic, Ne, not_iff_not, tagArrays, Result.bind_eq_error]
  constructor
  · rintro (hopen | ⟨rest, hopen, hhang⟩)
    · obtain ⟨e, he⟩ := expect_error hopen
      contradiction
    · exact ⟨rest, expect_eq_ok.mp hopen, (hrun rest).1.mp ((hloop rest _).mp hhang)⟩
  · rintro ⟨rest, hopen, hcomes⟩
    exact .inr ⟨rest, expect_eq_ok.mpr hopen, (hloop rest _).mpr ((hrun rest).1.mpr hcomes)⟩

end Nipworker
