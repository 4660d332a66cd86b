/-
What `skip_value` and `parse_raw_json_value` take for one value
(`utils/mod.rs`).

`skip_array` and `skip_object` count one kind of bracket and do not know of
strings; `skip_number` does not know of exponents.  `parse_raw_json_value`
follows strings and all brackets, but a value without brackets ends for it only
at a comma.
-/
import Nipworker.Lib.JsonGrammar
import Nipworker.Types.TagsJson

namespace Nipworker

open JsonText BaseJsonParser List

/-! ### Counting brackets -/

/-- Read inside `depth` open brackets, no prefix of the text closes more of them
than are open, and the text as a whole closes them all. -/
def Balanced (opening closing : Char) (depth : ℕ) (cs : List Char) : Prop :=
  (∀ k, (cs.take k).count closing ≤ depth + (cs.take k).count opening) ∧
    cs.count closing = depth + cs.count opening

section Counting

variable {opening closing : Char}

variable {depth : ℕ} {cs : List Char}

theorem balanced_nil : Balanced opening closing depth [] ↔ depth = 0 := by
  simp only [Balanced, take_nil, count_nil]
  exact ⟨fun h => by omega, fun h => ⟨fun _ => by omega, by omega⟩⟩

theorem balanced_cons {c : Char} :
    Balanced opening closing depth (c :: cs) ↔
      (∀ k, (cs.take k).count closing + (if c = closing then 1 else 0) ≤
        depth + ((cs.take k).count opening + if c = opening then 1 else 0)) ∧
      cs.count closing + (if c = closing then 1 else 0) =
        depth + (cs.count opening + if c = opening then 1 else 0) := by
  have hcount : ∀ (x : Char) (l : List Char), (c :: l).count x = l.count x + if c = x then 1 else 0 := by
    intro x l
    rw [count_cons]
    simp only [beq_iff_eq]
  rw [Balanced, hcount, hcount]
  refine and_congr_left fun _ => ?_
  constructor
  · intro h k
    have hk := h (k + 1)
    rwa [take_succ_cons, hcount, hcount] at hk
  · intro h k
    cases k with
    | zero => exact Nat.zero_le _
    | succ k =>
      rw [take_succ_cons, hcount, hcount]
      exact h k

theorem balanced_opening (hne : opening ≠ closing) :
    Balanced opening closing depth (opening :: cs) ↔ Balanced opening closing (depth + 1) cs := by
  rw [balanced_cons, if_neg hne, if_pos rfl, Balanced]
  exact and_congr (forall_congr' fun k => by omega) (by omega)

theorem balanced_closing (hne : opening ≠ closing) :
    Balanced opening closing (depth + 1) (closing :: cs) ↔ Balanced opening closing depth cs := by
  rw [balanced_cons, if_pos rfl, if_neg hne.symm, Balanced]
  exact and_congr (forall_congr' fun k => by omega) (by omega)

theorem not_balanced_closing (hne : opening ≠ closing) :
    ¬ Balanced opening closing 0 (closing :: cs) := by
  rw [balanced_cons, if_pos rfl, if_neg hne.symm]
  rintro ⟨h, -⟩
  have hk := h 0
  rw [take_zero, count_nil, count_nil] at hk
  omega

theorem balanced_other {c : Char} (h1 : c ≠ opening) (h2 : c ≠ closing) :
    Balanced opening closing depth (c :: cs) ↔ Balanced opening closing depth cs := by
  rw [balanced_cons, if_neg h2, if_neg h1, Balanced]
  exact and_congr (forall_congr' fun k => by omega) (by omega)

theorem skipNested_opening (depth : ℕ) (cs : List Char) :
    skipNested opening closing (depth + 1) (opening :: cs) =
      skipNested opening closing (depth + 2) cs := by
  rw [skipNested, if_pos rfl]

theorem skipNested_closing (hne : opening ≠ closing) (depth : ℕ) (cs : List Char) :
    skipNested opening closing (depth + 1) (closing :: cs) = skipNested opening closing depth cs := by
  rw [skipNested, if_neg hne.symm, if_pos rfl]

theorem skipNested_other {c : Char} (h1 : c ≠ opening) (h2 : c ≠ closing) (depth : ℕ)
    (cs : List Char) : skipNested opening closing (depth + 1) (c :: cs) =
      skipNested opening closing (depth + 1) cs := by
  rw [skipNested, if_neg h1, if_neg h2]

theorem length_skipNested_le (cs : List Char) : ∀ depth : ℕ,
    (skipNested opening closing depth cs).length ≤ cs.length := by
  induction cs with
  | nil =>
    intro depth
    cases depth <;> exact Nat.le_refl _
  | cons c cs ih =>
    intro depth
    cases depth with
    | zero => exact Nat.le_refl _
    | succ depth =>
      rw [skipNested, length_cons]
      split
      · exact Nat.le_succ_of_le (ih _)
      · split
        · exact Nat.le_succ_of_le (ih _)
        · exact Nat.le_succ_of_le (ih _)

theorem length_skipNested_lt {cs : List Char} (hcs : cs ≠ []) (depth : ℕ) :
    (skipNested opening closing (depth + 1) cs).length < cs.length := by
  obtain ⟨c, cs, rfl⟩ := exists_cons_of_ne_nil hcs
  rw [skipNested, length_cons]
  split
  · exact Nat.lt_succ_of_le (length_skipNested_le cs _)
  · split
    · exact Nat.lt_succ_of_le (length_skipNested_le cs _)
    · exact Nat.lt_succ_of_le (length_skipNested_le cs _)

/-- **Where the counting stops**: at the closing bracket, exactly if the text in
front of it is balanced. -/
theorem skipNested_eq_iff (hne : opening ≠ closing) {after : List Char} (hafter : after ≠ [])
    (cs : List Char) : ∀ depth : ℕ,
    skipNested opening closing (depth + 1) (cs ++ closing :: after) = after ↔
      Balanced opening closing depth cs := by
  induction cs with
  | nil =>
    intro depth
    rw [nil_append, skipNested_closing hne, balanced_nil]
    cases depth with
    | zero => exact iff_of_true (by rw [skipNested]) rfl
    | succ depth =>
      refine iff_of_false (fun h => ?_) (Nat.succ_ne_zero depth)
      have hlt := @length_skipNested_lt opening closing after hafter depth
      rw [h] at hlt
      omega
  | cons c cs ih =>
    intro depth
    rw [cons_append]
    by_cases h1 : c = opening
    · subst h1
      rw [skipNested_opening, ih, balanced_opening hne]
    · by_cases h2 : c = closing
      · subst h2
        rw [skipNested_closing hne]
        cases depth with
        | zero =>
          -- the bracket is closed too early
          refine iff_of_false (fun h => ?_) (not_balanced_closing hne)
          have hlen := congrArg List.length h
          rw [skipNested, length_append, length_cons] at hlen
          omega
        | succ depth => rw [ih, balanced_closing hne]
      · rw [skipNested_other h1 h2, ih, balanced_other h1 h2]

end Counting

/-! ### Skipping a value -/

/-- The values `skip_value` skips whole: strings and words; numbers without an
exponent; arrays and objects whose text, strings included, is balanced in their
own kind of bracket. -/
def SkippedWhole : Doc → Prop
  | .atom text => text = ['t', 'r', 'u', 'e'] ∨ text = ['f', 'a', 'l', 's', 'e'] ∨
      text = ['n', 'u', 'l', 'l'] ∨ ∃ n : NumberLit, n.Wf ∧ n.exp = none ∧ text = n.text
  | .str _ => True
  | .arr blank items => Balanced '[' ']' 0 (blank ++ items.text)
  | .obj blank members => Balanced '{' '}' 0 (blank ++ members.text)

def numberLead (n : NumberLit) : List Char := (if n.minus then ['-'] else []) ++ (n.int ++ n.fracText)

theorem text_eq_numberLead (n : NumberLit) : n.text = numberLead n ++ n.expText := by
  rw [NumberLit.text, numberLead, append_assoc, append_assoc]

theorem isNumberByte_digit {c : Char} (h : c.isDigit = true) : isNumberByte c = true := by
  rw [isNumberByte, decide_eq_true_iff]
  exact .inl h

theorem numberLead_bytes {n : NumberLit} (h : n.Wf) :
    numberLead n ≠ [] ∧ ∀ c ∈ numberLead n, isNumberByte c = true := by
  constructor
  · intro hnil
    rw [numberLead, append_eq_nil_iff, append_eq_nil_iff] at hnil
    exact h.int_ne hnil.2.1
  · intro c hc
    rw [numberLead, mem_append, mem_append] at hc
    rcases hc with hminus | hint | hfrac
    · cases hm : n.minus with
      | false =>
        rw [hm] at hminus
        contradiction
      | true =>
        rw [hm] at hminus
        rw [List.mem_singleton.mp hminus]
        decide
    · exact isNumberByte_digit (h.int_digits c hint)
    · rw [NumberLit.fracText] at hfrac
      by_cases hnil : n.frac = []
      · rw [if_pos hnil] at hfrac
        contradiction
      · rw [if_neg hnil] at hfrac
        rcases List.mem_cons.mp hfrac with rfl | hdigit
        · decide
        · exact isNumberByte_digit (h.frac_digits c hdigit)

theorem skipValue_number (size : ℕ) {lead : List Char} (hne : lead ≠ [])
    (hlead : ∀ c ∈ lead, isNumberByte c = true) (rest : List Char) :
    skipValue size (lead ++ rest) = .ok (rest.dropWhile isNumberByte) := by
  obtain ⟨c, cs, rfl⟩ := exists_cons_of_ne_nil hne
  have hc : ∀ d, isNumberByte d = false → c ≠ d := by
    rintro d hd rfl
    rw [hlead c mem_cons_self] at hd
    contradiction
  rw [cons_append, skipValue, if_neg (hc _ (by decide)), if_neg (hc _ (by decide)),
    if_neg (hc _ (by decide)), if_neg fun h => h.elim (hc _ (by decide)) (hc _ (by decide)),
    if_neg (hc _ (by decide)), ← cons_append, dropWhile_append_of_pos hlead]

theorem skipValue_string (size : ℕ) {lit : List Piece} (hlit : ∀ p ∈ lit, p.Closed)
    (after : List Char) : skipValue size ((Doc.str lit).text ++ after) = .ok after := by
  have htext : (Doc.str lit).text ++ after = '"' :: (literalText lit ++ '"' :: after) := by
    simp [Doc.text]
  have hstring : string size ('"' :: (literalText lit ++ '"' :: after)) =
      .ok (literalText lit, after) := by
    have hquote : expect size '"' ('"' :: (literalText lit ++ '"' :: after)) =
        .ok (literalText lit ++ '"' :: after) := rfl
    simp only [string, hquote, bind, Except.bind, skipString_literal hlit]
  rw [htext, skipValue, if_pos rfl, hstring]
  rfl

theorem skipValue_atom_iff {size : ℕ} {text : List Char} (h : IsAtom text) {after : List Char}
    (hafter : ∀ c ∈ after.head?, isNumberByte c = false) :
    skipValue size (text ++ after) = .ok after ↔ SkippedWhole (.atom text) := by
  rcases h with rfl | rfl | rfl | ⟨n, hn, rfl⟩
  · exact iff_of_true rfl (.inl rfl)
  · exact iff_of_true rfl (.inr (.inl rfl))
  · exact iff_of_true rfl (.inr (.inr (.inl rfl)))
  · obtain ⟨hne, hbytes⟩ := numberLead_bytes hn
    rw [text_eq_numberLead, append_assoc, skipValue_number size hne hbytes]
    cases hexp : n.exp with
    | none =>
      have htext : n.expText = [] := by rw [NumberLit.expText, hexp]
      have hdrop : after.dropWhile isNumberByte = after := by
        cases after with
        | nil => rfl
        | cons c after =>
          have hc := hafter c rfl
          exact dropWhile_cons_of_neg (by rw [hc]; exact Bool.false_ne_true)
      rw [htext, nil_append, hdrop, append_nil]
      refine iff_of_true rfl (.inr (.inr (.inr ⟨n, hn, hexp, ?_⟩)))
      rw [text_eq_numberLead, htext, append_nil]
    | some e =>
      obtain ⟨letter, sign, digits⟩ := e
      obtain ⟨hletter, -⟩ := hn.exp_letter _ hexp
      have htext : n.expText = letter :: (sign ++ digits) := by rw [NumberLit.expText, hexp]
      have hstop : isNumberByte letter = false := by
        rcases hletter with hl | hl
        · rw [show letter = 'e' from hl]
          decide
        · rw [show letter = 'E' from hl]
          decide
      rw [htext, cons_append,
        dropWhile_cons_of_neg (by rw [hstop]; exact Bool.false_ne_true)]
      refine iff_of_false ?_ ?_
      · -- the exponent is left over
        intro h
        have hlen := congrArg List.length (Except.ok.inj h)
        rw [length_cons, length_append] at hlen
        omega
      · have hword : ∀ c cs, isNumberByte c = false →
            numberLead n ++ letter :: (sign ++ digits) ≠ c :: cs := by
          intro c cs hc h
          refine absurd (hbytes c ?_) (by rw [hc]; exact Bool.false_ne_true)
          obtain ⟨d, ds, hlead⟩ := exists_cons_of_ne_nil hne
          rw [hlead, cons_append] at h
          rw [hlead, (List.cons.inj h).1]
          exact mem_cons_self
        rintro (h | h | h | ⟨m, hm, hnone, h⟩)
        · exact hword _ _ (by decide) h
        · exact hword _ _ (by decide) h
        · exact hword _ _ (by decide) h
        · -- a number without an exponent has no such letter
          have hmtext : m.expText = [] := by rw [NumberLit.expText, hnone]
          rw [text_eq_numberLead m, hmtext, append_nil] at h
          have hmem : letter ∈ numberLead m := h ▸ mem_append_right _ mem_cons_self
          rw [(numberLead_bytes hm).2 letter hmem] at hstop
          contradiction

/-- **Skipping a value**: it ends exactly behind the value if the value is one of
those that are skipped whole. -/
theorem skipValue_eq_iff {size : ℕ} {v : Doc} (hv : v.Json) {after : List Char} (hne : after ≠ [])
    (hafter : ∀ c ∈ after.head?, isNumberByte c = false) :
    skipValue size (v.text ++ after) = .ok after ↔ SkippedWhole v := by
  cases v with
  | atom text => exact skipValue_atom_iff hv hafter
  | str lit => exact iff_of_true (skipValue_string size (fun p hp => (hv p hp).closed) after) trivial
  | arr blank items =>
    have htext : (Doc.arr blank items).text ++ after =
        '[' :: ((blank ++ items.text) ++ ']' :: after) := by simp [Doc.text]
    rw [htext, skipValue, if_neg (by decide), if_pos rfl, Except.ok.injEq]
    exact skipNested_eq_iff (by decide) hne _ 0
  | obj blank members =>
    have htext : (Doc.obj blank members).text ++ after =
        '{' :: ((blank ++ members.text) ++ '}' :: after) := by simp [Doc.text]
    rw [htext, skipValue, if_neg (by decide), if_neg (by decide), if_pos rfl, Except.ok.injEq]
    exact skipNested_eq_iff (by decide) hne _ 0

/-! ### Cutting a value out -/

/-- A character that is no quote, backslash, bracket or comma. -/
def isOrdinary (c : Char) : Bool :=
  !(c == '"' || c == '\\' || c == '{' || c == '}' || c == '[' || c == ']' || c == ',')

theorem isOrdinary_of_isWs {c : Char} (h : isWs c = true) : isOrdinary c = true := by
  rw [isWs, decide_eq_true_iff] at h
  obtain rfl | rfl | rfl | rfl := h
  all_goals decide

theorem isOrdinary_of_token {c : Char} (h : isTokenChar c = true) : isOrdinary c = true := by
  have hne : ∀ d, isTokenChar d = false → (c == d) = false := fun d hd =>
    beq_eq_false_iff_ne.mpr (token_ne h hd)
  rw [isOrdinary, hne '"' (by decide), hne '\\' (by decide), hne '{' (by decide),
    hne '}' (by decide), hne '[' (by decide), hne ']' (by decide), hne ',' (by decide)]
  rfl

namespace Through

variable {depth : ℤ}

theorem ordinary {part : List Char} (h : ∀ c ∈ part, isOrdinary c = true) : Through depth part := by
  induction part with
  | nil => exact nil
  | cons c part ih =>
    have hc := h c mem_cons_self
    have hne : ∀ d, isOrdinary d = false → c ≠ d := by
      rintro d hd rfl
      rw [hd] at hc
      contradiction
    have hone : Through depth [c] := char (hne _ (by decide)) (hne _ (by decide))
      (fun h => h.elim (hne _ (by decide)) (hne _ (by decide)))
      (fun h => h.elim (hne _ (by decide)) (hne _ (by decide)))
      fun h => absurd h (hne _ (by decide))
    exact hone.append (ih fun d hd => h d (mem_cons_of_mem _ hd))

theorem blank {cs : List Char} (h : Blank cs) : Through depth cs :=
  ordinary fun c hc => isOrdinary_of_isWs (h c hc)

theorem rawValue_opening {opening : Char} (ho : opening = '{' ∨ opening = '[') (rest : List Char) :
    rawValue depth false false (opening :: rest) =
      (rawValue (depth + 1) false false rest).map fun p => (opening :: p.1, p.2) := by
  have h1 : opening ≠ '\\' := by obtain rfl | rfl := ho <;> decide
  have h2 : opening ≠ '"' := by obtain rfl | rfl := ho <;> decide
  rw [rawValue, if_neg h1, if_neg h2, if_pos ⟨ho, Bool.false_ne_true⟩]

theorem rawValue_closing {closing : Char} (hc : closing = '}' ∨ closing = ']') (rest : List Char) :
    rawValue (depth + 1) false false (closing :: rest) =
      if depth = 0 then some ([closing], rest)
      else (rawValue depth false false rest).map fun p => (closing :: p.1, p.2) := by
  have h1 : closing ≠ '\\' := by obtain rfl | rfl := hc <;> decide
  have h2 : closing ≠ '"' := by obtain rfl | rfl := hc <;> decide
  have h3 : ¬ (closing = '{' ∨ closing = '[') := by obtain rfl | rfl := hc <;> decide
  rw [rawValue, if_neg h1, if_neg h2, if_neg fun h => h3 h.1, if_pos ⟨hc, Bool.false_ne_true⟩,
    Int.add_sub_cancel]

theorem brackets {opening closing : Char} (ho : opening = '{' ∨ opening = '[')
    (hc : closing = '}' ∨ closing = ']') (hdepth : depth ≠ 0) {inner : List Char}
    (h : Through (depth + 1) inner) : Through depth (opening :: (inner ++ [closing])) := by
  intro rest
  have htext : opening :: (inner ++ [closing]) ++ rest = opening :: (inner ++ closing :: rest) := by
    simp
  rw [htext, rawValue_opening ho, h, rawValue_closing hc, if_neg hdepth, Option.map_map,
    Option.map_map]
  simp [Function.comp_def]

theorem rawValue_brackets {opening closing : Char} (ho : opening = '{' ∨ opening = '[')
    (hc : closing = '}' ∨ closing = ']') {inner : List Char} (h : Through 1 inner)
    (rest : List Char) : rawValue 0 false false (opening :: (inner ++ [closing]) ++ rest) =
      some (opening :: (inner ++ [closing]), rest) := by
  have htext : opening :: (inner ++ [closing]) ++ rest = opening :: (inner ++ closing :: rest) := by
    simp
  have hclose := @rawValue_closing 0 closing hc rest
  rw [if_pos rfl, Int.zero_add] at hclose
  rw [htext, rawValue_opening ho, Int.zero_add, h, hclose]
  rfl

theorem itemsComma (rest : Items) (hdepth : depth ≠ 0) : Through depth rest.comma := by
  cases rest with
  | nil => exact nil
  | cons => exact comma hdepth

theorem membersComma (rest : Members) (hdepth : depth ≠ 0) : Through depth rest.comma := by
  cases rest with
  | nil => exact nil
  | cons => exact comma hdepth

end Through

mutual

/-- `parse_raw_json_value` goes through every nested value. -/
theorem Doc.Json.through : ∀ {d : Doc}, d.Json → ∀ {depth : ℤ}, 1 ≤ depth → Through depth d.text
  | .atom _, h, _, _ => .ordinary fun c hc => isOrdinary_of_token ((IsAtom.tokens h).2 c hc)
  | .str _, h, _, _ => .literal fun p hp => (h p hp).closed
  | .arr _ _, h, _, hdepth => by
    rw [Doc.text, ← append_assoc]
    exact .brackets (.inr rfl) (.inr rfl) (by omega)
      ((Through.blank h.1).append (Items.Json.through h.2 (by omega)))
  | .obj _ _, h, _, hdepth => by
    rw [Doc.text, ← append_assoc]
    exact .brackets (.inl rfl) (.inl rfl) (by omega)
      ((Through.blank h.1).append (Members.Json.through h.2 (by omega)))

theorem Items.Json.through : ∀ {l : Items}, l.Json → ∀ {depth : ℤ}, 1 ≤ depth →
    Through depth l.text
  | .nil, _, _, _ => .nil
  | .cons _ _ _ rest, h, _, hdepth =>
    (Through.blank h.1).append ((Doc.Json.through h.2.1 hdepth).append
      ((Through.blank h.2.2.1).append
        ((Through.itemsComma rest (by omega)).append (Items.Json.through h.2.2.2 hdepth))))

theorem Members.Json.through : ∀ {l : Members}, l.Json → ∀ {depth : ℤ}, 1 ≤ depth →
    Through depth l.text
  | .nil, _, _, _ => .nil
  | .cons before key afterKey beforeValue value after rest, h, _, hdepth => by
    have htext : (Members.cons before key afterKey beforeValue value after rest).text =
        before ++ (quoted (literalText key) ++ (afterKey ++ ([':'] ++ (beforeValue ++
          (value.text ++ (after ++ (rest.comma ++ rest.text))))))) := by
      simp [Members.text, quoted]
    rw [htext]
    exact (Through.blank h.1).append ((Through.literal fun p hp => (h.2.1 p hp).closed).append
      ((Through.blank h.2.2.1).append (Through.colon.append ((Through.blank h.2.2.2.1).append
        ((Doc.Json.through h.2.2.2.2.1 hdepth).append ((Through.blank h.2.2.2.2.2.1).append
          ((Through.membersComma rest (by omega)).append
            (Members.Json.through h.2.2.2.2.2.2 hdepth))))))))

end

def isNested : Doc → Bool
  | .arr _ _ | .obj _ _ => true
  | _ => false

theorem parseRawJsonValue_nested {v : Doc} (hv : v.Json) (hnested : isNested v = true)
    (after : List Char) : parseRawJsonValue (v.text ++ after) = .ok (v.text, after) := by
  have hraw : rawValue 0 false false (v.text ++ after) = some (v.text, after) := by
    cases v with
    | atom text => contradiction
    | str lit => contradiction
    | arr blank items =>
      rw [Doc.text, ← append_assoc]
      exact Through.rawValue_brackets (.inr rfl) (.inr rfl)
        ((Through.blank hv.1).append (Items.Json.through hv.2 (by decide))) after
    | obj blank members =>
      rw [Doc.text, ← append_assoc]
      exact Through.rawValue_brackets (.inl rfl) (.inl rfl)
        ((Through.blank hv.1).append (Members.Json.through hv.2 (by decide))) after
  rw [parseRawJsonValue, hraw]

theorem parseRawJsonValue_scalar_iff {v : Doc} (hv : v.Json) (hnested : isNested v = false)
    {d : Char} (hd : d = ',' ∨ d = '}' ∨ d = ']') (rest : List Char) :
    parseRawJsonValue (v.text ++ d :: rest) = .ok (v.text, d :: rest) ↔ d = ',' := by
  have hthrough : Through 0 v.text := by
    cases v with
    | atom text => exact .ordinary fun c hc => isOrdinary_of_token ((IsAtom.tokens hv).2 c hc)
    | str lit => exact .literal fun p hp => (hv p hp).closed
    | arr blank items => contradiction
    | obj blank members => contradiction
  rw [parseRawJsonValue, hthrough]
  by_cases hcomma : d = ','
  · subst hcomma
    have hend : rawValue 0 false false (',' :: rest) = some ([], ',' :: rest) := by
      rw [rawValue, if_neg (by decide), if_neg (by decide), if_neg (by decide),
        if_neg (by decide), if_pos ⟨rfl, Bool.false_ne_true, rfl⟩]
    rw [hend, Option.map_some, append_nil]
    exact iff_of_true rfl rfl
  · refine iff_of_false ?_ hcomma
    have hclosing : d = '}' ∨ d = ']' := hd.resolve_left hcomma
    have hgo : rawValue 0 false false (d :: rest) =
        (rawValue (-1) false false rest).map fun p => (d :: p.1, p.2) := by
      have h := @Through.rawValue_closing (-1) d hclosing rest
      rwa [if_neg (by decide)] at h
    rw [hgo]
    intro h
    cases hrest : rawValue (-1) false false rest with
    | none =>
      rw [hrest] at h
      contradiction
    | some p =>
      rw [hrest] at h
      -- the text that is cut out is longer than the value
      have hlen := congrArg (fun r => List.length r.1) (Except.ok.inj h)
      simp only [length_append, length_cons] at hlen
      omega

/-! ### Both together -/

/-- **Skipping and slicing.**  In front of each delimiter, `skip_value` stops
exactly behind the value and `parse_raw_json_value` returns exactly its text, if
and only if the value is one that is skipped whole and it is an array, an object,
or in front of a comma. -/
theorem skips_and_slices_iff {v : Doc} (hv : v.Json) {d : Char}
    (hd : d = ',' ∨ d = '}' ∨ d = ']') (size : ℕ) (rest : List Char) :
    (skipValue size (v.text ++ d :: rest) = .ok (d :: rest) ∧
        parseRawJsonValue (v.text ++ d :: rest) = .ok (v.text, d :: rest)) ↔
      SkippedWhole v ∧ (isNested v = true ∨ d = ',') := by
  have hbyte : ∀ c ∈ (d :: rest).head?, isNumberByte c = false := by
    intro c hc
    obtain rfl : d = c := Option.some.inj hc
    obtain rfl | rfl | rfl := hd
    all_goals decide
  rw [skipValue_eq_iff hv (cons_ne_nil d rest) hbyte]
  refine and_congr_right fun _ => ?_
  cases hnested : isNested v with
  | true => exact iff_of_true (parseRawJsonValue_nested hv hnested (d :: rest)) (.inl rfl)
  | false =>
    rw [parseRawJsonValue_scalar_iff hv hnested hd rest]
    simp

/-- A string in an object, in front of a comma. -/
theorem skips_and_slices_iff_string :
    (skipValue 9 ((Doc.str [.plain 'a', .plain '}']).text ++ [',', '1', '}']) = .ok [',', '1', '}'] ∧
        parseRawJsonValue ((Doc.str [.plain 'a', .plain '}']).text ++ [',', '1', '}']) =
          .ok ((Doc.str [.plain 'a', .plain '}']).text, [',', '1', '}'])) ↔
      SkippedWhole (.str [.plain 'a', .plain '}']) ∧
        (isNested (.str [.plain 'a', .plain '}']) = true ∨ ',' = ',') :=
  skips_and_slices_iff (v := .str [.plain 'a', .plain '}'])
    (by simp [Doc.Json, Piece.Wf]) (.inl rfl) 9 ['1', '}']

/-- The array `["]"]` in front of a comma: skipping stops inside its string. -/
theorem bracketInString_cut :
    (Doc.arr [] (.cons [] (.str [.plain ']']) [] .nil)).Json ∧
      ¬ (skipValue 6 ((Doc.arr [] (.cons [] (.str [.plain ']']) [] .nil)).text ++ [',']) = .ok [','] ∧
        parseRawJsonValue ((Doc.arr [] (.cons [] (.str [.plain ']']) [] .nil)).text ++ [',']) =
          .ok ((Doc.arr [] (.cons [] (.str [.plain ']']) [] .nil)).text, [','])) := by
  refine ⟨?_, fun h => absurd h.1 (by decide)⟩
  simp [Doc.Json, Items.Json, Piece.Wf, Blank]

end Nipworker
