/-
A proof as JSON text, written and read back (`types/proof.rs`).

`to_json` leaves the witness out.  The reader wants a secret and a signature that are
not empty, both numbers of the DLEQ, and a version without a sign.
-/
import Nipworker.Parser.SealedContent

namespace Nipworker

open JsonText BaseJsonParser List

/-! ### Writing -/

/-- `escape_string` of the proofs: a text without a backslash and a quote is not looked at
again. -/
def escapeQuick (s : String) : List Char :=
  if '\\' ∉ s.toList ∧ '"' ∉ s.toList then s.toList else escapeString s

def objectText (members : List (String × List Char)) : List Char :=
  '{' :: ([','].intercalate (members.map fun m => member m.1 m.2) ++ ['}'])

def DleqProof.members (d : DleqProof) : List (String × List Char) :=
  [("e", quoted (escapeQuick d.e)), ("s", quoted (escapeQuick d.s))] ++
    (d.r.map fun r => ("r", quoted (escapeString r))).toList

def DleqProof.toJson (d : DleqProof) : List Char := objectText d.members

/-- The text of an integer (`Display`). -/
def intText (n : Int) : List Char :=
  if n < 0 then '-' :: Nat.toDigits 10 n.natAbs else Nat.toDigits 10 n.natAbs

def Proof.members (p : Proof) : List (String × List Char) :=
  [("amount", Nat.toDigits 10 p.amount.toNat), ("secret", quoted (escapeQuick p.secret)),
      ("C", quoted (escapeQuick p.c))] ++
    ((p.id.map fun id => ("id", quoted (escapeString id))).toList ++
      ((p.version.map fun version => ("version", intText version.toInt)).toList ++
        (p.dleq.map fun dleq => ("dleq", dleq.toJson)).toList))

def Proof.toJson (p : Proof) : List Char := objectText p.members

/-! ### Reading what was written -/

def Ends (after : List Char) : Prop := ∃ rest, after = ',' :: rest ∨ after = '}' :: rest

theorem skipWs_cons {c : Char} (h : isAsciiWhitespace c = false) (cs : List Char) :
    skipWs (c :: cs) = c :: cs :=
  dropWhile_cons_of_neg (by rw [h]; exact Bool.false_ne_true)

section Members

variable {σ : Type} {size : ℕ}
  {field : List Char → σ → List Char → ParserResult (σ × List Char)} {st st' : σ}

/-- The member has a name without escapes and a value to be read. -/
def ReadableMember (m : String × List Char) : Prop :=
  (∀ c ∈ m.1.toList, c ≠ '"' ∧ c ≠ '\\') ∧
    ∃ c cs, m.2 = c :: cs ∧ isAsciiWhitespace c = false

def FieldReads (field : List Char → σ → List Char → ParserResult (σ × List Char))
    (m : String × List Char) (st st' : σ) : Prop :=
  ReadableMember m ∧ ∀ after, Ends after → field m.1.toList st (m.2 ++ after) = .ok (st', after)

def FieldFails (field : List Char → σ → List Char → ParserResult (σ × List Char))
    (m : String × List Char) (st : σ) : Prop :=
  ReadableMember m ∧ ∀ after, Ends after → ∃ e, field m.1.toList st (m.2 ++ after) = .error e

def ReadsTo (field : List Char → σ → List Char → ParserResult (σ × List Char)) :
    σ → List (String × List Char) → σ → Prop
  | st, [], st' => st' = st
  | st, m :: ms, st' => ∃ st₁, FieldReads field m st st₁ ∧ ReadsTo field st₁ ms st'

variable {more : List (String × List Char)} {m : String × List Char}
    (ms : List (String × List Char)) (rest : List Char)

theorem ReadsTo.append {st₁ : σ} {ms : List (String × List Char)}
    (h : ReadsTo field st ms st₁) (hmore : ReadsTo field st₁ more st') :
    ReadsTo field st (ms ++ more) st' := by
  induction ms generalizing st with
  | nil =>
    obtain rfl : st₁ = st := h
    exact hmore
  | cons m ms ih =>
    obtain ⟨st₂, hm, hms⟩ := h
    exact ⟨st₂, hm, ih hms⟩

theorem ReadsTo.option {α : Type} {o : Option α} {f : α → String × List Char}
    (hnone : o = none → st' = st) (hsome : ∀ a, o = some a → FieldReads field (f a) st st') :
    ReadsTo field st (o.map f).toList st' := by
  cases o with
  | none => exact hnone rfl
  | some a => exact ⟨_, hsome a rfl, rfl⟩

theorem members_member (hm : ReadableMember m) (fuel : ℕ) (st : σ) (after : List Char) :
    members size field (fuel + 1) st (member m.1 m.2 ++ after) =
      (field m.1.toList st (m.2 ++ after) >>= fun p =>
        members size field fuel p.1 (skipCommaOrEnd p.2)) := by
  obtain ⟨hkey, c, cs, hvalue, hc⟩ := hm
  have htext : member m.1 m.2 ++ after =
      '"' :: (m.1.toList ++ '"' :: ':' :: (m.2 ++ after)) := by
    simp [member, quoted]
  have hstring : string size ('"' :: (m.1.toList ++ '"' :: ':' :: (m.2 ++ after))) =
      .ok (m.1.toList, ':' :: (m.2 ++ after)) := by
    have hskip := skipString_append hkey ('"' :: ':' :: (m.2 ++ after))
    rw [skipString_quote, Option.map_some, append_nil] at hskip
    have hquote : expect size '"' ('"' :: (m.1.toList ++ '"' :: ':' :: (m.2 ++ after))) =
        .ok (m.1.toList ++ '"' :: ':' :: (m.2 ++ after)) := rfl
    simp only [string, hquote, bind, Except.bind, hskip]
  have hcolon : skipWs (':' :: (m.2 ++ after)) = ':' :: (m.2 ++ after) := skipWs_cons (by decide) _
  have hfirst : skipWs (m.2 ++ after) = m.2 ++ after := by
    rw [hvalue, cons_append]
    exact skipWs_cons hc _
  rw [htext, members, skipWs_cons (by decide)]
  dsimp only
  rw [if_neg (by decide), hstring]
  show (expect size ':' (skipWs (':' :: (m.2 ++ after))) >>= fun rest =>
    field m.1.toList st (skipWs rest) >>= fun p =>
      members size field fuel p.1 (skipCommaOrEnd p.2)) = _
  rw [hcolon]
  show (field m.1.toList st (skipWs (m.2 ++ after)) >>= fun p =>
    members size field fuel p.1 (skipCommaOrEnd p.2)) = _
  rw [hfirst]

theorem members_end (fuel : ℕ) (st : σ) (rest : List Char) :
    members size field (fuel + 1) st ('}' :: rest) = .ok (st, rest) := by
  rw [members, skipWs_cons (by decide)]
  rfl

def membersText (ms : List (String × List Char)) (rest : List Char) : List Char :=
  [','].intercalate (ms.map fun m => member m.1 m.2) ++ '}' :: rest

def afterMember (ms : List (String × List Char)) (rest : List Char) : List Char :=
  if ms = [] then '}' :: rest else ',' :: membersText ms rest

theorem membersText_cons (m : String × List Char) (ms : List (String × List Char))
    (rest : List Char) : membersText (m :: ms) rest = member m.1 m.2 ++ afterMember ms rest := by
  rw [membersText, afterMember]
  cases ms with
  | nil => simp
  | cons m' ms =>
    rw [if_neg (cons_ne_nil _ _), map_cons, map_cons,
      intercalate_cons_cons, membersText, map_cons]
    simp

theorem ends_afterMember : Ends (afterMember ms rest) := by
  rw [afterMember]
  split
  · exact ⟨rest, .inr rfl⟩
  · exact ⟨_, .inl rfl⟩

theorem skipCommaOrEnd_afterMember :
    skipCommaOrEnd (afterMember ms rest) = membersText ms rest := by
  by_cases hms : ms = []
  · rw [afterMember, if_pos hms, skipCommaOrEnd, skipWs_cons (by decide), hms]
    rfl
  · rw [afterMember, if_neg hms, skipCommaOrEnd, skipWs_cons (by decide)]
    rfl

/-- **The loop over the members** that were written. -/
theorem members_written {ms : List (String × List Char)} (h : ReadsTo field st ms st')
    (rest : List Char) (fuel : ℕ) :
    members size field (fuel + ms.length + 1) st (membersText ms rest) = .ok (st', rest) := by
  induction ms generalizing st with
  | nil =>
    obtain rfl : st' = st := h
    exact members_end _ _ _
  | cons m ms ih =>
    obtain ⟨st₁, hm, hms⟩ := h
    rw [membersText_cons, members_member hm.1, hm.2 _ (ends_afterMember ms rest)]
    show members size field (fuel + ms.length + 1) st₁ (skipCommaOrEnd (afterMember ms rest)) = _
    rw [skipCommaOrEnd_afterMember, ih hms]

theorem members_failed {ms : List (String × List Char)}
    (h : ReadsTo field st ms st') (hm : FieldFails field m st') (rest : List Char) (fuel : ℕ) :
    ∃ e, members size field (fuel + ms.length + 1) st (membersText (ms ++ m :: more) rest) =
      .error e := by
  induction ms generalizing st with
  | nil =>
    obtain rfl : st' = st := h
    obtain ⟨e, he⟩ := hm.2 _ (ends_afterMember more rest)
    refine ⟨e, ?_⟩
    rw [nil_append, membersText_cons, members_member hm.1, he]
    rfl
  | cons m' ms ih =>
    obtain ⟨st₁, hm', hms⟩ := h
    obtain ⟨e, he⟩ := ih hms
    refine ⟨e, ?_⟩
    rw [cons_append, membersText_cons, members_member hm'.1,
      hm'.2 _ (ends_afterMember (ms ++ m :: more) rest)]
    show members size field (fuel + ms.length + 1) st₁
      (skipCommaOrEnd (afterMember (ms ++ m :: more) rest)) = _
    rw [skipCommaOrEnd_afterMember, he]

theorem length_le_membersText : ms.length ≤ (membersText ms rest).length := by
  induction ms with
  | nil => exact Nat.zero_le _
  | cons m ms ih =>
    have hmember : 0 < (member m.1 m.2).length := by simp [member, quoted]
    have hafter : (membersText ms rest).length ≤ (afterMember ms rest).length := by
      rw [afterMember]
      split
      · next hms => rw [hms]; rfl
      · rw [length_cons]
        omega
    rw [membersText_cons, length_append, length_cons]
    omega

theorem objectText_eq : objectText ms = '{' :: membersText ms [] :=
  rfl

theorem object_eq (st : σ) :
    object size field st (skipWs (objectText ms)) =
      members size field ((membersText ms []).length + 1) st (membersText ms []) := by
  rw [objectText_eq, skipWs_cons (by decide)]
  rfl

theorem object_written {ms : List (String × List Char)} (h : ReadsTo field st ms st') :
    object size field st (skipWs (objectText ms)) = .ok (st', []) := by
  obtain ⟨fuel, hfuel⟩ := Nat.exists_eq_add_of_le' (length_le_membersText ms [])
  rw [object_eq, hfuel]
  exact members_written h [] fuel

theorem object_failed {ms : List (String × List Char)}
    (h : ReadsTo field st ms st') (hm : FieldFails field m st') :
    ∃ e, object size field st (skipWs (objectText (ms ++ m :: more))) = .error e := by
  have hlen : ms.length ≤ (membersText (ms ++ m :: more) []).length := by
    refine le_trans ?_ (length_le_membersText (ms ++ m :: more) [])
    rw [length_append]
    exact Nat.le_add_right _ _
  obtain ⟨fuel, hfuel⟩ := Nat.exists_eq_add_of_le' hlen
  rw [object_eq, hfuel]
  exact members_failed h hm [] fuel

end Members

theorem unescapeIfNeeded_objectText {m : String × List Char} (ms : List (String × List Char)) :
    unescapeIfNeeded (objectText (m :: ms)) = objectText (m :: ms) := by
  have htext : objectText (m :: ms) =
      '{' :: ([','].intercalate ((m :: ms).map fun m => member m.1 m.2) ++ ['}']) := rfl
  have htrim : needsUnescape (Text.trim (objectText (m :: ms))) = false := by
    rw [htext, Text.trim_of_ends (by decide) (by decide)]
    have hfirst : ∃ cs, [','].intercalate ((m :: ms).map fun m => member m.1 m.2) ++ ['}'] =
        '"' :: cs := by
      cases ms with
      | nil => exact ⟨_, rfl⟩
      | cons m' ms => exact ⟨_, rfl⟩
    obtain ⟨cs, hcs⟩ := hfirst
    rw [hcs]
    rfl
  rw [unescapeIfNeeded]
  simp only [htrim, Bool.false_eq_true, if_false]

/-! ### Strings and numbers -/

theorem stringUnescaped_literal (size : ℕ) {lit : List Piece} (hlit : ∀ p ∈ lit, p.Closed)
    (rest : List Char) : stringUnescaped size (quoted (literalText lit) ++ rest) =
      .ok (String.ofList (lit.flatMap tagRead), rest) := by
  have htext : quoted (literalText lit) ++ rest = '"' :: (literalText lit ++ '"' :: rest) := by
    simp [quoted]
  have hstring : string size ('"' :: (literalText lit ++ '"' :: rest)) =
      .ok (literalText lit, rest) := by
    have hquote : expect size '"' ('"' :: (literalText lit ++ '"' :: rest)) =
        .ok (literalText lit ++ '"' :: rest) := rfl
    simp only [string, hquote, bind, Except.bind, skipString_literal hlit]
  rw [htext, ← unescapeString_literal hlit]
  show (string size ('"' :: (literalText lit ++ '"' :: rest)) >>= _) = _
  rw [hstring]
  rfl

def quickWritten (s : String) : List Piece :=
  if '\\' ∉ s.toList ∧ '"' ∉ s.toList then plainLiteral s.toList else written s

theorem quickWritten_spec (s : String) : literalText (quickWritten s) = escapeQuick s ∧
    (∀ p ∈ quickWritten s, p.Closed) ∧ String.ofList ((quickWritten s).flatMap tagRead) = s := by
  rw [quickWritten, escapeQuick]
  by_cases hplain : '\\' ∉ s.toList ∧ '"' ∉ s.toList
  · rw [if_pos hplain, if_pos hplain]
    refine ⟨literalText_plainLiteral _, fun p hp => ?_, ?_⟩
    · obtain ⟨c, hc, rfl⟩ := List.mem_map.mp hp
      exact ⟨fun h => hplain.2 (h ▸ hc), fun h => hplain.1 (h ▸ hc)⟩
    · rw [(tagRead_iff _).mpr fun p hp => ?_, literalValue_plainLiteral, String.ofList_toList]
      obtain ⟨c, -, rfl⟩ := List.mem_map.mp hp
      trivial
  · rw [if_neg hplain, if_neg hplain]
    exact ⟨literalText_written s, closed_written s, tagRead_written s⟩

theorem plainName {name : String} (h : name.toList.all needsNoEscape = true) :
    ∀ c ∈ name.toList, c ≠ '"' ∧ c ≠ '\\' := by
  intro c hc
  have hplain := of_decide_eq_true (List.all_eq_true.mp h c hc)
  exact ⟨hplain.1, hplain.2.1⟩

section Fields

variable {σ : Type} {size : ℕ}
  {field : List Char → σ → List Char → ParserResult (σ × List Char)} {st : σ}

theorem fieldReads_literal (name : String) (hname : name.toList.all needsNoEscape = true)
    (set : String → σ)
    (hfield : ∀ cs, field name.toList st cs = (stringUnescaped size cs).map fun p => (set p.1, p.2))
    {lit : List Piece} (hlit : ∀ p ∈ lit, p.Closed) {s : String}
    (hread : String.ofList (lit.flatMap tagRead) = s) :
    FieldReads field (name, quoted (literalText lit)) st (set s) := by
  refine ⟨⟨plainName hname, _, _, rfl, by decide⟩, fun after _ => ?_⟩
  rw [hfield, stringUnescaped_literal size hlit, hread]
  rfl

theorem fieldReads_escaped (name : String) (hname : name.toList.all needsNoEscape = true)
    (set : String → σ)
    (hfield : ∀ cs, field name.toList st cs = (stringUnescaped size cs).map fun p => (set p.1, p.2))
    (s : String) : FieldReads field (name, quoted (escapeString s)) st (set s) := by
  rw [← literalText_written]
  exact fieldReads_literal name hname set hfield (closed_written s) (tagRead_written s)

theorem fieldReads_quick (name : String) (hname : name.toList.all needsNoEscape = true)
    (set : String → σ)
    (hfield : ∀ cs, field name.toList st cs = (stringUnescaped size cs).map fun p => (set p.1, p.2))
    (s : String) : FieldReads field (name, quoted (escapeQuick s)) st (set s) := by
  obtain ⟨htext, hlit, hread⟩ := quickWritten_spec s
  rw [← htext]
  exact fieldReads_literal name hname set hfield hlit hread

end Fields

theorem Ends.cons {after : List Char} (h : Ends after) :
    ∃ c rest, after = c :: rest ∧ c.isDigit = false ∧ (c = ',' ∨ c = '}') := by
  obtain ⟨rest, rfl | rfl⟩ := h
  · exact ⟨_, rest, rfl, by decide, .inl rfl⟩
  · exact ⟨_, rest, rfl, by decide, .inr rfl⟩

theorem digits_append {n : ℕ} {after : List Char} (h : Ends after) :
    (Nat.toDigits 10 n ++ after).takeWhile Char.isDigit = Nat.toDigits 10 n ∧
      (Nat.toDigits 10 n ++ after).dropWhile Char.isDigit = after := by
  obtain ⟨c, rest, rfl, hc, -⟩ := h.cons
  have hdigits : ∀ d ∈ Nat.toDigits 10 n, d.isDigit = true := fun d hd =>
    Nat.isDigit_of_mem_toDigits (by decide) (by decide) hd
  constructor
  · rw [takeWhile_append_of_pos hdigits, takeWhile_cons_of_neg, append_nil]
    rw [hc]
    exact Bool.false_ne_true
  · rw [dropWhile_append_of_pos hdigits, dropWhile_cons_of_neg]
    rw [hc]
    exact Bool.false_ne_true

theorem parseU64_toDigits {n : ℕ} (hn : n < 2 ^ 64) {after : List Char} (h : Ends after) :
    parseU64 (Nat.toDigits 10 n ++ after) = .ok (n, after) := by
  rw [parseU64, (digits_append h).1, (digits_append h).2, Text.parseDecimal_toDigits]
  exact if_pos hn

theorem toDigits_first (n : ℕ) :
    ∃ c cs, Nat.toDigits 10 n = c :: cs ∧ isAsciiWhitespace c = false := by
  match hdigits : Nat.toDigits 10 n with
  | [] => exact absurd (hdigits ▸ Nat.length_toDigits_pos (n := n)) (by decide)
  | c :: cs =>
    refine ⟨c, cs, rfl, ?_⟩
    have hc : c.isDigit = true :=
      Nat.isDigit_of_mem_toDigits (by decide) (by decide) (hdigits ▸ mem_cons_self)
    by_contra hws
    rw [Bool.not_eq_false, isAsciiWhitespace, decide_eq_true_iff] at hws
    obtain rfl | rfl | rfl | rfl | rfl := hws
    all_goals exact absurd hc (by decide)

/-! ### The text of a value -/

/-- `parse_raw_json_value` goes through the text at this depth. -/
def Through (depth : ℤ) (part : List Char) : Prop :=
  ∀ rest, rawValue depth false false (part ++ rest) =
    (rawValue depth false false rest).map fun p => (part ++ p.1, p.2)

namespace Through

variable {depth : ℤ}

theorem append {a b : List Char} (ha : Through depth a) (hb : Through depth b) :
    Through depth (a ++ b) := by
  intro rest
  rw [append_assoc, ha, hb, Option.map_map]
  simp [Function.comp_def]

theorem rawValue_plain {c : Char} (h1 : c ≠ '"') (h2 : c ≠ '\\') (escaped : Bool)
    (rest : List Char) : rawValue depth true escaped (c :: rest) =
      (rawValue depth true false rest).map fun p => (c :: p.1, p.2) := by
  rw [rawValue, if_neg h2, if_neg h1, if_neg (by simp), if_neg (by simp), if_neg (by simp)]

theorem rawValue_plains {part : List Char} (hpart : ∀ c ∈ part, c ≠ '"' ∧ c ≠ '\\')
    (rest : List Char) : rawValue depth true false (part ++ rest) =
      (rawValue depth true false rest).map fun q => (part ++ q.1, q.2) := by
  induction part with
  | nil => exact Option.map_id'.symm
  | cons c part ih =>
    obtain ⟨h1, h2⟩ := hpart c mem_cons_self
    rw [cons_append, rawValue_plain h1 h2,
      ih fun d hd => hpart d (mem_cons_of_mem _ hd), Option.map_map]
    rfl

theorem rawValue_escape {c : Char} (h1 : c ≠ '"') (h2 : c ≠ '\\') (rest : List Char) :
    rawValue depth true false ('\\' :: c :: rest) =
      (rawValue depth true false rest).map fun q => ('\\' :: c :: q.1, q.2) := by
  rw [rawValue, if_pos rfl, Bool.not_false, rawValue_plain h1 h2, Option.map_map]
  rfl

theorem rawValue_piece {p : Piece} (hp : p.Closed) (rest : List Char) :
    rawValue depth true false (p.text ++ rest) =
      (rawValue depth true false rest).map fun q => (p.text ++ q.1, q.2) := by
  cases p with
  | plain c => exact rawValue_plain hp.1 hp.2 false rest
  | short e =>
    show rawValue depth true false ('\\' :: e.letter :: rest) = _
    cases e with
    | quote =>
      show rawValue depth true false ('\\' :: '"' :: rest) = _
      rw [rawValue, if_pos rfl, Bool.not_false, rawValue, if_neg (by decide), if_pos rfl,
        Option.map_map]
      rfl
    | backslash =>
      show rawValue depth true false ('\\' :: '\\' :: rest) = _
      rw [rawValue, if_pos rfl, rawValue, if_pos rfl, Option.map_map]
      rfl
    | slash => exact rawValue_escape (by decide) (by decide) rest
    | backspace => exact rawValue_escape (by decide) (by decide) rest
    | formFeed => exact rawValue_escape (by decide) (by decide) rest
    | newline => exact rawValue_escape (by decide) (by decide) rest
    | carriageReturn => exact rawValue_escape (by decide) (by decide) rest
    | tab => exact rawValue_escape (by decide) (by decide) rest
  | unicode c hex =>
    obtain ⟨n, hn⟩ := hp
    show rawValue depth true false ('\\' :: 'u' :: (hex ++ rest)) = _
    rw [rawValue_escape (by decide) (by decide), rawValue_plains (mem_hex4_ne hn), Option.map_map]
    rfl
  | surrogates c high low =>
    obtain ⟨⟨n, hn⟩, ⟨m, hm⟩⟩ := hp
    have htext : (Piece.surrogates c high low).text ++ rest =
        '\\' :: 'u' :: (high ++ '\\' :: 'u' :: (low ++ rest)) := by simp [Piece.text]
    rw [htext, rawValue_escape (by decide) (by decide), rawValue_plains (mem_hex4_ne hn),
      rawValue_escape (by decide) (by decide), rawValue_plains (mem_hex4_ne hm), Option.map_map,
      Option.map_map, Option.map_map]
    simp [Function.comp_def, Piece.text]

theorem rawValue_literal {lit : List Piece} (hlit : ∀ p ∈ lit, p.Closed)
    (rest : List Char) : rawValue depth true false (literalText lit ++ rest) =
      (rawValue depth true false rest).map fun q => (literalText lit ++ q.1, q.2) := by
  induction lit with
  | nil => exact Option.map_id'.symm
  | cons p lit ih =>
    rw [literalText_cons, append_assoc, rawValue_piece (hlit p mem_cons_self),
      ih fun q hq => hlit q (mem_cons_of_mem _ hq), Option.map_map]
    simp [Function.comp_def]

theorem literal {lit : List Piece} (hlit : ∀ p ∈ lit, p.Closed) :
    Through depth (quoted (literalText lit)) := by
  intro rest
  have htext : quoted (literalText lit) ++ rest = '"' :: (literalText lit ++ '"' :: rest) := by
    simp [quoted]
  have hclose : rawValue depth true false ('"' :: rest) =
      (rawValue depth false false rest).map fun q => ('"' :: q.1, q.2) := by
    rw [rawValue, if_neg (by decide), if_pos rfl]
    rfl
  rw [htext, rawValue, if_neg (by decide), if_pos rfl]
  show Option.map _ (rawValue depth true false (literalText lit ++ '"' :: rest)) = _
  rw [rawValue_literal hlit, hclose, Option.map_map, Option.map_map]
  simp [Function.comp_def, quoted]

theorem nil : Through depth [] := fun _ => Option.map_id'.symm

theorem char {c : Char} (h1 : c ≠ '"') (h2 : c ≠ '\\') (h3 : ¬ (c = '{' ∨ c = '['))
    (h4 : ¬ (c = '}' ∨ c = ']')) (hdepth : c = ',' → depth ≠ 0) : Through depth [c] := by
  intro rest
  show rawValue depth false false (c :: rest) = _
  rw [rawValue, if_neg h2, if_neg h1, if_neg fun h => h3 h.1, if_neg fun h => h4 h.1,
    if_neg fun h => hdepth h.1 h.2.2]
  rfl

theorem comma (hdepth : depth ≠ 0) : Through depth [','] :=
  char (by decide) (by decide) (by decide) (by decide) fun _ => hdepth

theorem colon : Through depth [':'] :=
  char (by decide) (by decide) (by decide) (by decide) fun h => absurd h (by decide)

theorem members {ms : List (String × List Char)} (hdepth : depth ≠ 0)
    (h : ∀ m ∈ ms, Through depth (member m.1 m.2)) :
    Through depth ([','].intercalate (ms.map fun m => member m.1 m.2)) := by
  induction ms with
  | nil => exact fun rest => Option.map_id'.symm
  | cons m ms ih =>
    have hm := h m mem_cons_self
    have hms := ih fun m' hm' => h m' (mem_cons_of_mem _ hm')
    cases ms with
    | nil =>
      simp only [map_cons, map_nil, intercalate_singleton]
      exact hm
    | cons m' ms =>
      rw [map_cons, map_cons, intercalate_cons_cons]
      exact (hm.append (comma hdepth)).append hms

end Through

theorem parseRawJsonValue_objectText {ms : List (String × List Char)}
    (h : ∀ m ∈ ms, Through 1 (member m.1 m.2)) (rest : List Char) :
    parseRawJsonValue (objectText ms ++ rest) = .ok (objectText ms, rest) := by
  have htext : objectText ms ++ rest =
      '{' :: ([','].intercalate (ms.map fun m => member m.1 m.2) ++ '}' :: rest) := by
    simp [objectText]
  have hend : rawValue 1 false false ('}' :: rest) = some (['}'], rest) := by
    rw [rawValue, if_neg (by decide), if_neg (by decide), if_neg (by decide), if_pos (by decide)]
    rfl
  have hraw : rawValue 0 false false (objectText ms ++ rest) = some (objectText ms, rest) := by
    rw [htext, rawValue, if_neg (by decide), if_neg (by decide), if_pos (by decide), Int.zero_add,
      Through.members (by decide) h, hend]
    rfl
  rw [parseRawJsonValue, hraw]

/-! ### DLEQs -/

theorem through_member (name : String) (hname : name.toList.all needsNoEscape = true)
    {text : List Char} (htext : Through 1 text) : Through 1 (member name text) := by
  have hquoted : Through 1 (quoted name.toList) := by
    rw [← literalText_plainLiteral name.toList]
    exact .literal fun p hp => (wf_plainLiteral hname p hp).closed
  exact hquoted.append (Through.colon.append htext)

theorem through_escaped (s : String) : Through 1 (quoted (escapeString s)) := by
  rw [← literalText_written]
  exact .literal (closed_written s)

theorem through_quick (s : String) : Through 1 (quoted (escapeQuick s)) := by
  rw [← (quickWritten_spec s).1]
  exact .literal (quickWritten_spec s).2.1

theorem parseRawJsonValue_dleq (d : DleqProof) (rest : List Char) :
    parseRawJsonValue (d.toJson ++ rest) = .ok (d.toJson, rest) := by
  refine parseRawJsonValue_objectText (fun m hm => ?_) rest
  simp only [DleqProof.members, mem_append, mem_cons, not_mem_nil, or_false,
    Option.mem_toList, Option.map_eq_some_iff] at hm
  obtain (rfl | rfl) | ⟨r, -, rfl⟩ := hm
  · exact through_member "e" (by decide) (through_quick d.e)
  · exact through_member "s" (by decide) (through_quick d.s)
  · exact through_member "r" (by decide) (through_escaped r)

/-- What is asked of a DLEQ. -/
def DleqProof.Complete (d : DleqProof) : Prop := d.e ≠ "" ∧ d.s ≠ ""

theorem DleqProof.readsTo (d : DleqProof) (size : ℕ) :
    ReadsTo (DleqProof.field size) ⟨"", "", none⟩ d.members d := by
  have he : FieldReads (DleqProof.field size) ("e", quoted (escapeQuick d.e)) ⟨"", "", none⟩
      (⟨d.e, "", none⟩ : DleqProof) :=
    fieldReads_quick "e" (by decide) (fun e => (⟨e, "", none⟩ : DleqProof))
      (fun _ => if_pos rfl) d.e
  have hs : FieldReads (DleqProof.field size) ("s", quoted (escapeQuick d.s)) ⟨d.e, "", none⟩
      ⟨d.e, d.s, none⟩ :=
    fieldReads_quick "s" (by decide) (fun s => (⟨d.e, s, none⟩ : DleqProof)) (fun _ => by
      rw [DleqProof.field, if_neg (by decide), if_pos rfl]) d.s
  have hr : ReadsTo (DleqProof.field size) ⟨d.e, d.s, none⟩
      (d.r.map fun r => ("r", quoted (escapeString r))).toList ⟨d.e, d.s, d.r⟩ := by
    refine ReadsTo.option (fun h => by rw [h]) fun r h => ?_
    rw [h]
    exact fieldReads_escaped "r" (by decide) (fun r => (⟨d.e, d.s, some r⟩ : DleqProof)) (fun _ => by
      rw [DleqProof.field, if_neg (by decide), if_neg (by decide), if_pos rfl]) r
  exact ReadsTo.append ⟨_, he, _, hs, rfl⟩ hr

theorem DleqProof.fromJson_eq (d : DleqProof) : DleqProof.fromJson d.toJson =
    if d.e = "" ∨ d.s = "" then .error (invalidFormat "Missing required fields in DleqProof")
    else .ok d := by
  have htext : unescapeIfNeeded d.toJson = d.toJson := unescapeIfNeeded_objectText _
  rw [DleqProof.fromJson, htext]
  show (object (byteLength d.toJson) (DleqProof.field (byteLength d.toJson)) ⟨"", "", none⟩
    (skipWs (objectText d.members)) >>= _) = _
  rw [object_written (d.readsTo (byteLength d.toJson))]
  rfl

/-! ### Proofs -/

namespace Proof

/-- What is asked of a proof. -/
structure Readable (p : Proof) : Prop where
  secret : p.secret ≠ ""
  c : p.c ≠ ""
  version : ∀ version ∈ p.version, 0 ≤ version.toInt
  dleq : ∀ dleq ∈ p.dleq, dleq.Complete

def upToId (p : Proof) : Proof :=
  { amount := p.amount
    secret := p.secret
    c := p.c
    id := p.id
    version := none
    dleq := none
    witness := none }

def membersUpToId (p : Proof) : List (String × List Char) :=
  [("amount", Nat.toDigits 10 p.amount.toNat), ("secret", quoted (escapeQuick p.secret)),
      ("C", quoted (escapeQuick p.c))] ++
    (p.id.map fun id => ("id", quoted (escapeString id))).toList

theorem members_eq (p : Proof) : p.members = p.membersUpToId ++
    ((p.version.map fun version => ("version", intText version.toInt)).toList ++
      (p.dleq.map fun dleq => ("dleq", dleq.toJson)).toList) := by
  rw [Proof.members, membersUpToId, append_assoc]

/-! Which field a member goes to. -/

section

variable (size : ℕ) (st : Proof) (cs : List Char)

theorem field_amount : Proof.field size "amount".toList st cs =
    (parseU64 cs).map fun p => ({ st with amount := UInt64.ofNat p.1 }, p.2) := if_pos rfl

theorem field_secret : Proof.field size "secret".toList st cs =
    (stringUnescaped size cs).map fun p => ({ st with secret := p.1 }, p.2) := by
  rw [Proof.field, if_neg (by decide), if_pos rfl]

theorem field_c : Proof.field size "C".toList st cs =
    (stringUnescaped size cs).map fun p => ({ st with c := p.1 }, p.2) := by
  rw [Proof.field, if_neg (by decide), if_neg (by decide), if_pos rfl]

theorem field_id : Proof.field size "id".toList st cs =
    (stringUnescaped size cs).map fun p => ({ st with id := some p.1 }, p.2) := by
  rw [Proof.field, if_neg (by decide), if_neg (by decide), if_neg (by decide), if_pos rfl]

theorem field_version : Proof.field size "version".toList st cs =
    (parseU64 cs).map fun p => ({ st with version := some (Int32.ofNat p.1) }, p.2) := by
  rw [Proof.field, if_neg (by decide), if_neg (by decide), if_neg (by decide),
    if_neg (by decide), if_pos rfl]

end

theorem readsTo_upToId (p : Proof) (size : ℕ) :
    ReadsTo (Proof.field size) ⟨0, "", "", none, none, none, none⟩ p.membersUpToId p.upToId := by
  have hamount : FieldReads (Proof.field size) ("amount", Nat.toDigits 10 p.amount.toNat)
      ⟨0, "", "", none, none, none, none⟩ ⟨p.amount, "", "", none, none, none, none⟩ := by
    refine ⟨⟨@plainName "amount" (by decide), toDigits_first _⟩, fun after hafter => ?_⟩
    rw [field_amount, parseU64_toDigits p.amount.toNat_lt hafter, Except.map, UInt64.ofNat_toNat]
  have hsecret : FieldReads (Proof.field size) ("secret", quoted (escapeQuick p.secret))
      ⟨p.amount, "", "", none, none, none, none⟩ ⟨p.amount, p.secret, "", none, none, none, none⟩ :=
    fieldReads_quick "secret" (by decide)
      (fun secret => (⟨p.amount, secret, "", none, none, none, none⟩ : Proof)) (field_secret size _) p.secret
  have hc : FieldReads (Proof.field size) ("C", quoted (escapeQuick p.c))
      ⟨p.amount, p.secret, "", none, none, none, none⟩
      ⟨p.amount, p.secret, p.c, none, none, none, none⟩ :=
    fieldReads_quick "C" (by decide)
      (fun c => (⟨p.amount, p.secret, c, none, none, none, none⟩ : Proof)) (field_c size _) p.c
  have hid : ReadsTo (Proof.field size) ⟨p.amount, p.secret, p.c, none, none, none, none⟩
      (p.id.map fun id => ("id", quoted (escapeString id))).toList
      ⟨p.amount, p.secret, p.c, p.id, none, none, none⟩ := by
    refine ReadsTo.option (fun h => by rw [h]) fun id h => ?_
    rw [h]
    exact fieldReads_escaped "id" (by decide)
      (fun id => (⟨p.amount, p.secret, p.c, some id, none, none, none⟩ : Proof)) (field_id size _) id
  exact ReadsTo.append ⟨_, hamount, _, hsecret, _, hc, rfl⟩ hid

theorem readable_version (n : Int) : ReadableMember ("version", intText n) := by
  refine ⟨@plainName "version" (by decide), ?_⟩
  show ∃ c cs, intText n = c :: cs ∧ _
  rw [intText]
  split
  · exact ⟨_, _, rfl, by decide⟩
  · exact toDigits_first _

theorem fieldReads_version {size : ℕ} {version : Int32} (h : 0 ≤ version.toInt) (st : Proof) :
    FieldReads (Proof.field size) ("version", intText version.toInt) st
      { st with version := some version } := by
  refine ⟨readable_version _, fun after hafter => ?_⟩
  have hlt : version.toInt.natAbs < 2 ^ 64 := by
    have := int32_bounds version
    omega
  have hversion : Int32.ofNat version.toInt.natAbs = version := by
    rw [← Int32.toInt_inj, Int32.toInt_ofNat_of_lt (by have := int32_bounds version; omega)]
    omega
  rw [field_version, intText, if_neg (by omega), parseU64_toDigits hlt hafter, Except.map, hversion]

theorem fieldFails_version {size : ℕ} {version : Int32} (h : version.toInt < 0) (st : Proof) :
    FieldFails (Proof.field size) ("version", intText version.toInt) st := by
  refine ⟨readable_version _, fun after _ => ⟨invalidFormat "Expected number", ?_⟩⟩
  rw [field_version, intText, if_pos h, cons_append, parseU64,
    takeWhile_cons_of_neg (by decide)]
  rfl

theorem readable_dleq (d : DleqProof) : ReadableMember ("dleq", d.toJson) :=
  ⟨@plainName "dleq" (by decide), _, _, rfl, by decide⟩

theorem field_dleq (size : ℕ) (d : DleqProof) (st : Proof) (after : List Char) :
    Proof.field size "dleq".toList st (d.toJson ++ after) =
      (DleqProof.fromJson d.toJson).map fun dleq => ({ st with dleq := some dleq }, after) := by
  rw [Proof.field, if_neg (by decide), if_neg (by decide), if_neg (by decide), if_neg (by decide),
    if_neg (by decide), if_pos rfl, parseRawJsonValue_dleq]
  show (DleqProof.fromJson d.toJson >>= fun dleq =>
    Except.ok (({ st with dleq := some dleq } : Proof), after)) = _
  match DleqProof.fromJson d.toJson with
  | .ok _ => rfl
  | .error _ => rfl

theorem fieldReads_dleq {size : ℕ} {d : DleqProof} (h : d.Complete) (st : Proof) :
    FieldReads (Proof.field size) ("dleq", d.toJson) st { st with dleq := some d } := by
  refine ⟨readable_dleq d, fun after _ => ?_⟩
  rw [field_dleq, d.fromJson_eq, if_neg (not_or.mpr h)]
  rfl

theorem fieldFails_dleq {size : ℕ} {d : DleqProof} (h : ¬ d.Complete) (st : Proof) :
    FieldFails (Proof.field size) ("dleq", d.toJson) st := by
  refine ⟨readable_dleq d, fun after _ => ?_⟩
  have hmissing : d.e = "" ∨ d.s = "" := by
    by_contra hno
    exact h (not_or.mp hno)
  refine ⟨invalidFormat "Missing required fields in DleqProof", ?_⟩
  rw [field_dleq, d.fromJson_eq, if_pos hmissing]
  rfl

theorem fromJson_object (p : Proof) : Proof.fromJson p.toJson =
    (object (byteLength p.toJson) (Proof.field (byteLength p.toJson))
      ⟨0, "", "", none, none, none, none⟩ (skipWs (objectText p.members)) >>= fun r =>
        if r.1.secret = "" ∨ r.1.c = "" then
          .error (invalidFormat "Missing required fields in Proof")
        else .ok r.1) := by
  have htext : unescapeIfNeeded p.toJson = p.toJson := unescapeIfNeeded_objectText _
  rw [Proof.fromJson, htext]
  rfl

variable {p : Proof}

theorem fromJson_of_readsTo {q : Proof} (h : ReadsTo (Proof.field (byteLength p.toJson))
    ⟨0, "", "", none, none, none, none⟩ p.members q) : Proof.fromJson p.toJson =
      if q.secret = "" ∨ q.c = "" then .error (invalidFormat "Missing required fields in Proof")
      else .ok q := by
  rw [fromJson_object, object_written h]
  rfl

theorem readsTo_version (h : ∀ version ∈ p.version, 0 ≤ version.toInt) (size : ℕ) :
    ReadsTo (Proof.field size) p.upToId
      (p.version.map fun version => ("version", intText version.toInt)).toList
      { p.upToId with version := p.version } := by
  refine ReadsTo.option (fun hv => by rw [hv]; rfl) fun version hv => ?_
  rw [hv]
  exact fieldReads_version (h version hv) p.upToId

theorem readsTo_members (hversion : ∀ version ∈ p.version, 0 ≤ version.toInt)
    (hdleq : ∀ dleq ∈ p.dleq, dleq.Complete) (size : ℕ) :
    ReadsTo (Proof.field size) ⟨0, "", "", none, none, none, none⟩ p.members
      { p with witness := none } := by
  have hd : ReadsTo (Proof.field size) { p.upToId with version := p.version }
      (p.dleq.map fun dleq => ("dleq", dleq.toJson)).toList
      ⟨p.amount, p.secret, p.c, p.id, p.version, p.dleq, none⟩ := by
    refine ReadsTo.option (fun h => by rw [h]; rfl) fun dleq h => ?_
    rw [h]
    exact fieldReads_dleq (hdleq dleq h) { p.upToId with version := p.version }
  rw [members_eq]
  exact (p.readsTo_upToId size).append ((readsTo_version hversion size).append hd)

/-- **A proof is read back**, without its witness, which is not written. -/
theorem fromJson_toJson (h : p.Readable) :
    Proof.fromJson p.toJson = .ok { p with witness := none } := by
  rw [fromJson_of_readsTo (readsTo_members h.version h.dleq _)]
  exact if_neg (not_or.mpr ⟨h.secret, h.c⟩)

theorem fromJson_of_fieldFails {q : Proof} {ms more : List (String × List Char)}
    {m : String × List Char} (hmembers : p.members = ms ++ m :: more)
    (hreads : ReadsTo (Proof.field (byteLength p.toJson)) ⟨0, "", "", none, none, none, none⟩ ms q)
    (hfails : FieldFails (Proof.field (byteLength p.toJson)) m q) :
    ∃ e, Proof.fromJson p.toJson = .error e := by
  obtain ⟨e, he⟩ := object_failed hreads hfails
  refine ⟨e, ?_⟩
  rw [fromJson_object, hmembers, he]
  rfl

/-- **Any other proof is not.** -/
theorem fromJson_toJson_error (h : ¬ p.Readable) : ∃ e, Proof.fromJson p.toJson = .error e := by
  by_cases hversion : ∀ version ∈ p.version, 0 ≤ version.toInt
  · by_cases hdleq : ∀ dleq ∈ p.dleq, dleq.Complete
    · -- everything is read, and then a field is missed
      refine ⟨_, (fromJson_of_readsTo (readsTo_members hversion hdleq _)).trans (if_pos ?_)⟩
      by_contra hno
      obtain ⟨hsecret, hc⟩ := not_or.mp hno
      exact h ⟨hsecret, hc, hversion, hdleq⟩
    · push Not at hdleq
      obtain ⟨d, hd, hincomplete⟩ := hdleq
      have hmembers : p.members = (p.membersUpToId ++
          (p.version.map fun version => ("version", intText version.toInt)).toList) ++
            ("dleq", d.toJson) :: [] := by
        rw [members_eq, Option.mem_def.mp hd, append_assoc]
        rfl
      exact fromJson_of_fieldFails hmembers
        ((p.readsTo_upToId _).append (readsTo_version hversion _)) (fieldFails_dleq hincomplete _)
  · push Not at hversion
    obtain ⟨version, hv, hneg⟩ := hversion
    have hmembers : p.members = p.membersUpToId ++ ("version", intText version.toInt) ::
        (p.dleq.map fun dleq => ("dleq", dleq.toJson)).toList := by
      rw [members_eq, Option.mem_def.mp hv]
      rfl
    exact fromJson_of_fieldFails hmembers (p.readsTo_upToId _) (fieldFails_version hneg _)

end Proof

end Nipworker
