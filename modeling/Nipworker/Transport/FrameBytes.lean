/-
The frame scanner as it runs: on the bytes of a text, with positions
(`transport/frame_scan.rs`).

Every index, slice and subtraction of the source that could panic is checked here, so that
a panic is a value, and a loop moves its position forward or ends.  `scan_relay_frame` never
panics, and what it returns are the slices `Nipworker.scanRelayFrame` finds by characters.
-/
import Nipworker.Lib.StrSlice
import Nipworker.Transport.EventFrame

namespace Nipworker

open List Option

namespace FrameBytes

open Utf8 StrSlice

/-! ### The code -/

/-- What would be a panic: an index or a slice that is out of range or ends inside a
character, and a subtraction below zero. -/
inductive Fault
  | index
  | slice
  | underflow
  deriving DecidableEq, Repr

/-- `ScannedValue`. -/
structure Value where
  raw : Bytes
  isString : Bool
  deriving DecidableEq, Repr

/-- `ScannedFrame`; `args` holds the elements after the kind that were found. -/
structure Frame where
  kind : Bytes
  args : List Value
  deriving DecidableEq, Repr

/-- `&text[start..stop]`. -/
def cut (text : Bytes) (start stop : ℕ) : Except Fault Bytes :=
  match slice text start stop with
  | some part => .ok part
  | none => .error .slice

def Value.inner (v : Value) : Except Fault Bytes :=
  if v.isString then
    if v.raw.length = 0 then .error .underflow else cut v.raw 1 (v.raw.length - 1)
  else .ok v.raw

def isAsciiWhitespace (b : UInt8) : Bool :=
  b = byteOf ' ' || b = byteOf '\t' || b = byteOf '\n' || b = byteOf '\r' || b = byteOf (Char.ofNat 12)

def skipWs (text : Bytes) (pos : ℕ) : ℕ :=
  pos + ((text.drop pos).takeWhile isAsciiWhitespace).length

def isSpecial (b : UInt8) : Bool := b = byteOf '"' || b = byteOf '\\'

variable {text : Bytes} {pos start : ℕ} {cs : List Char}

theorem skip_shorter {i : ℕ} (h : (text.drop pos).findIdx? isSpecial = some i) :
    text.length - (pos + min (i + 2) (text.drop pos).length) < text.length - pos := by
  obtain ⟨hi, -⟩ := List.findIdx?_eq_some_iff_getElem.mp h
  rw [length_drop] at hi ⊢
  omega

/-- The loop of `skip_string`: `memchr2` finds the next quote or backslash.  The position
and whether the string is closed. -/
def skipLoop (text : Bytes) (pos : ℕ) : Except Fault (ℕ × Bool) :=
  if text.length < pos then .error .slice
  else
    match _hfind : (text.drop pos).findIdx? isSpecial with
    | none => .ok (text.length, false)
    | some i =>
      match (text.drop pos)[i]? with
      | none => .error .index
      | some b =>
        if b = byteOf '"' then .ok (pos + (i + 1), true)
        else skipLoop text (pos + min (i + 2) (text.drop pos).length)
termination_by text.length - pos
decreasing_by exact skip_shorter _hfind

def skipString (text : Bytes) (pos : ℕ) : Except Fault (ℕ × Bool) := skipLoop text (pos + 1)

/-- The bytes `memchr3` looks for, and those `memchr2` looks for. -/
def isQuoteOrOpening (b : UInt8) : Bool := b = byteOf '"' || b = byteOf '{' || b = byteOf '['

def isClosing (b : UInt8) : Bool := b = byteOf '}' || b = byteOf ']'

def findStructural (hay : Bytes) : Option ℕ :=
  match hay.findIdx? isQuoteOrOpening, hay.findIdx? isClosing with
  | some a, some b => some (min a b)
  | a, b => a.or b

def endsPrimitive (b : UInt8) : Bool :=
  b = byteOf ',' || b = byteOf ']' || b = byteOf ' ' || b = byteOf '\t' || b = byteOf '\n' ||
    b = byteOf '\r'

theorem findStructural_eq (hay : Bytes) :
    findStructural hay = hay.findIdx? fun b => isQuoteOrOpening b || isClosing b := by
  rw [findStructural]
  induction hay with
  | nil => rfl
  | cons b hay ih =>
    simp only [List.findIdx?_cons]
    cases hq : isQuoteOrOpening b with
    | true =>
      cases hc : isClosing b with
      | true => rfl
      | false => cases hay.findIdx? isClosing <;> rfl
    | false =>
      cases hc : isClosing b with
      | true => cases hay.findIdx? isQuoteOrOpening <;> rfl
      | false =>
        simp only [Bool.or_self, Bool.false_eq_true, if_false]
        rw [← ih]
        cases hay.findIdx? isQuoteOrOpening with
        | none => cases hay.findIdx? isClosing <;> rfl
        | some i =>
          cases hay.findIdx? isClosing with
          | none => rfl
          | some j =>
            simp only [map_some]
            exact congrArg some (by omega)

theorem findStructural_lt {hay : Bytes} {off : ℕ} (h : findStructural hay = some off) :
    off < hay.length := by
  rw [findStructural_eq] at h
  exact (List.findIdx?_eq_some_iff_getElem.mp h).1

theorem skipLoop_none (hpos : pos ≤ text.length)
    (h : (text.drop pos).findIdx? isSpecial = none) : skipLoop text pos = .ok (text.length, false) := by
  rw [skipLoop, if_neg (Nat.not_lt.mpr hpos)]
  split
  · rfl
  · next i hi =>
    rw [h] at hi
    contradiction

theorem skipLoop_some {i : ℕ} {b : UInt8} (hpos : pos ≤ text.length)
    (h : (text.drop pos).findIdx? isSpecial = some i) (hb : (text.drop pos)[i]? = some b) :
    skipLoop text pos =
      if b = byteOf '"' then .ok (pos + (i + 1), true)
      else skipLoop text (pos + min (i + 2) (text.drop pos).length) := by
  rw [skipLoop, if_neg (Nat.not_lt.mpr hpos)]
  split
  · next hnone =>
    rw [h] at hnone
    contradiction
  · next j hj =>
    obtain rfl : i = j := some.inj (h.symm.trans hj)
    simp only [hb]

theorem skipLoop_advance {pos' : ℕ} (h : skipLoop text pos = .ok (pos', true)) : pos < pos' := by
  induction pos using skipLoop.induct text with
  | case1 pos hout =>
    rw [skipLoop, if_pos hout] at h
    contradiction
  | case2 pos hin hnone =>
    rw [skipLoop_none (Nat.le_of_not_lt hin) hnone] at h
    exact absurd (congrArg Prod.snd (Except.ok.inj h)) Bool.false_ne_true
  | case3 pos hin i hi hnone =>
    have hlt := (List.findIdx?_eq_some_iff_getElem.mp hi).1
    rw [List.getElem?_eq_getElem hlt] at hnone
    contradiction
  | case4 pos hin i hi hb =>
    rw [skipLoop_some (Nat.le_of_not_lt hin) hi hb, if_pos rfl] at h
    have := congrArg Prod.fst (Except.ok.inj h)
    dsimp only at this
    omega
  | case5 pos hin i hi b hb hne ih =>
    rw [skipLoop_some (Nat.le_of_not_lt hin) hi hb, if_neg hne] at h
    have := ih h
    omega

theorem nested_shorter {off : ℕ} (h : findStructural (text.drop pos) = some off) :
    text.length - (pos + off + 1) < text.length - pos := by
  have hlt := findStructural_lt h
  rw [length_drop] at hlt
  omega

theorem nested_string_shorter {off pos' : ℕ} (h : findStructural (text.drop pos) = some off)
    (hskip : skipString text (pos + off) = .ok (pos', true)) :
    text.length - pos' < text.length - pos := by
  have hlt := findStructural_lt h
  have hadvance := skipLoop_advance hskip
  rw [length_drop] at hlt
  omega

/-- `scan_element` inside an object or an array that begins at `start`. -/
def nestedLoop (text : Bytes) (start pos depth : ℕ) : Except Fault (Option (Value × ℕ)) :=
  if text.length < pos then .error .slice
  else
    match _hoff : findStructural (text.drop pos) with
    | none => .ok none
    | some off =>
      match text[pos + off]? with
      | none => .error .index
      | some b =>
        if b = byteOf '"' then
          match _hskip : skipString text (pos + off) with
          | .error fault => .error fault
          | .ok (_, false) => .ok none
          | .ok (pos', true) => nestedLoop text start pos' depth
        else if b = byteOf '{' ∨ b = byteOf '[' then
          nestedLoop text start (pos + off + 1) (depth + 1)
        else if depth = 0 then .error .underflow
        else if depth - 1 = 0 then
          (cut text start (pos + off + 1)).map fun raw =>
            some ({ raw := raw, isString := false }, pos + off + 1)
        else nestedLoop text start (pos + off + 1) (depth - 1)
termination_by text.length - pos
decreasing_by
  · exact nested_string_shorter _hoff _hskip
  · exact nested_shorter _hoff
  · exact nested_shorter _hoff

def scanElement (text : Bytes) (start : ℕ) : Except Fault (Option (Value × ℕ)) :=
  match text[start]? with
  | none => .error .index
  | some b =>
    if b = byteOf '"' then
      match skipString text start with
      | .error fault => .error fault
      | .ok (_, false) => .ok none
      | .ok (pos, true) =>
        (cut text start pos).map fun raw => some ({ raw := raw, isString := true }, pos)
    else if b = byteOf '{' ∨ b = byteOf '[' then nestedLoop text start start 0
    else
      let pos := start + ((text.drop start).takeWhile fun d => !endsPrimitive d).length
      if pos = start then .ok none
      else (cut text start pos).map fun raw => some ({ raw := raw, isString := false }, pos)

/-- The loop over the elements after the kind, at most `filled` more of them. -/
def scanArgs (text : Bytes) : ℕ → ℕ → Except Fault (List Value)
  | 0, _ => .ok []
  | filled + 1, pos =>
    match text[skipWs text pos]? with
    | none => .ok []
    | some b =>
      if b ≠ byteOf ',' then .ok []
      else
        let start := skipWs text (skipWs text pos + 1)
        match text[start]? with
        | none => .ok []
        | some d =>
          if d = byteOf ']' then .ok []
          else
            match scanElement text start with
            | .error fault => .error fault
            | .ok none => .ok []
            | .ok (some (v, after)) => (scanArgs text filled after).map fun vs => v :: vs

def scanRelayFrame (text : Bytes) : Except Fault (Option Frame) :=
  match text[skipWs text 0]? with
  | none => .ok none
  | some b =>
    if b ≠ byteOf '[' then .ok none
    else
      let start := skipWs text (skipWs text 0 + 1)
      match text[start]? with
      | none => .ok none
      | some d =>
        if d = byteOf ']' then .ok none
        else
          match scanElement text start with
          | .error fault => .error fault
          | .ok none => .ok none
          | .ok (some (first, after)) => do
            let kind ← first.inner
            let args ← scanArgs text 3 after
            return some { kind := kind, args := args }

/-! ### Bytes and characters -/

theorem special_test : AsciiTest isSpecial fun c => c = '"' || c = '\\' :=
  (AsciiTest.eq (by decide)).or (.eq (by decide))

theorem quoteOrOpening_test : AsciiTest isQuoteOrOpening fun c => c = '"' || c = '{' || c = '[' :=
  ((AsciiTest.eq (by decide)).or (.eq (by decide))).or (.eq (by decide))

theorem closing_test : AsciiTest isClosing fun c => c = '}' || c = ']' :=
  (AsciiTest.eq (by decide)).or (.eq (by decide))

theorem structural_test :
    AsciiTest (fun b => isQuoteOrOpening b || isClosing b) fun c =>
      (c = '"' || c = '{' || c = '[') || (c = '}' || c = ']') :=
  quoteOrOpening_test.or closing_test

theorem whitespace_test : AsciiTest isAsciiWhitespace Nipworker.isAsciiWhitespace := by
  have h : AsciiTest isAsciiWhitespace fun c =>
      c = ' ' || c = '\t' || c = '\n' || c = '\r' || c = Char.ofNat 12 :=
    ((((AsciiTest.eq (by decide)).or (.eq (by decide))).or (.eq (by decide))).or
      (.eq (by decide))).or (.eq (by decide))
  have heq : Nipworker.isAsciiWhitespace = fun c =>
      c = ' ' || c = '\t' || c = '\n' || c = '\r' || c = Char.ofNat 12 := by
    funext c
    simp [Nipworker.isAsciiWhitespace, Bool.or_assoc]
  rw [heq]
  exact h

theorem endsPrimitive_test : AsciiTest endsPrimitive Nipworker.endsPrimitive := by
  have h : AsciiTest endsPrimitive fun c =>
      c = ',' || c = ']' || c = ' ' || c = '\t' || c = '\n' || c = '\r' :=
    (((((AsciiTest.eq (by decide)).or (.eq (by decide))).or (.eq (by decide))).or
      (.eq (by decide))).or (.eq (by decide))).or (.eq (by decide))
  have heq : Nipworker.endsPrimitive = fun c =>
      c = ',' || c = ']' || c = ' ' || c = '\t' || c = '\n' || c = '\r' := by
    funext c
    simp [Nipworker.endsPrimitive, Bool.or_assoc]
  rw [heq]
  exact h

variable {chars : List Char}

theorem skipWs_at (h : At chars pos cs) :
    At chars (skipWs (bytes chars) pos) (Nipworker.skipWs cs) :=
  h.skip whitespace_test

theorem findIdx?_idle {p : UInt8 → Bool} {idle : Bytes} (h : ∀ b ∈ idle, p b = false)
    (rest : Bytes) : (idle ++ rest).findIdx? p = (rest.findIdx? p).map (· + idle.length) := by
  rw [List.findIdx?_append, List.findIdx?_eq_none_iff.mpr h, none_or]

/-! ### Strings -/

theorem skipLoop_special {idle more : Bytes} {c : Char}
    (hidle : ∀ b ∈ idle, isSpecial b = false) (hpos : pos ≤ text.length)
    (hdrop : text.drop pos = idle ++ byteOf c :: more) (hc : c = '"' ∨ c = '\\') :
    skipLoop text pos =
      if c = '"' then .ok (pos + (idle.length + 1), true)
      else skipLoop text (pos + min (idle.length + 2) (idle.length + 1 + more.length)) := by
  have hascii : c.toNat < 128 := by rcases hc with rfl | rfl <;> decide
  have hspecial : isSpecial (byteOf c) = true := by
    rw [special_test.byteOf c hascii]
    simpa using hc
  have hfind : (text.drop pos).findIdx? isSpecial = some idle.length := by
    rw [hdrop, findIdx?_idle hidle, List.findIdx?_cons, hspecial, if_pos rfl, map_some,
      Nat.zero_add]
  have hbyte : (text.drop pos)[idle.length]? = some (byteOf c) := by
    rw [hdrop, List.getElem?_append_right le_rfl, Nat.sub_self]
    rfl
  have hlen : (text.drop pos).length = idle.length + 1 + more.length := by
    rw [hdrop, length_append, length_cons]
    omega
  rw [skipLoop_some hpos hfind hbyte, hlen]
  simp only [byteOf_inj hascii (show '"'.toNat < 128 by decide)]

/-- **The loop of `skip_string`**, wherever it stands in a text: bytes that are no quote and no
backslash, the rest of an escaped character among them, and then whole characters. -/
theorem skipLoop_at (cs : List Char) : ∀ (idle : Bytes) {pos : ℕ},
    (∀ b ∈ idle, isSpecial b = false) → pos ≤ text.length → text.drop pos = idle ++ bytes cs →
      skipLoop text pos = .ok ((Nipworker.skipString cs).elim (text.length, false) fun p =>
        (text.length - (bytes p.2).length, true)) := by
  induction cs using Nipworker.skipString.induct with
  | case1 =>
    intro idle pos hidle hpos hdrop
    rw [bytes_nil, append_nil] at hdrop
    exact skipLoop_none hpos (hdrop ▸ List.findIdx?_eq_none_iff.mpr hidle)
  | case2 =>
    intro idle pos hidle hpos hdrop
    have hlen := congrArg List.length hdrop
    rw [length_drop, length_append, bytes_cons,
      encodeChar_ascii (show '"'.toNat < 128 by decide)] at hlen
    rw [bytes_cons, encodeChar_ascii (by decide)] at hdrop
    rw [skipLoop_special hidle hpos hdrop (.inl rfl), if_pos rfl]
    simp only [Nipworker.skipString, if_true, elim_some, bytes_nil, length_nil,
      length_singleton, append_nil] at hlen ⊢
    exact congrArg (fun n => Except.ok (n, true)) (by omega)
  | case3 c hc =>
    intro idle pos hidle hpos hdrop
    have hnone : Nipworker.skipString [c] = none := by rw [Nipworker.skipString, if_neg hc]
    rw [hnone, elim_none]
    by_cases hback : c = '\\'
    · subst hback
      rw [bytes_cons, encodeChar_ascii (by decide), bytes_nil, append_nil] at hdrop
      have hlen := congrArg List.length hdrop
      rw [length_drop, length_append, length_singleton] at hlen
      rw [skipLoop_special hidle hpos hdrop (.inr rfl), if_neg (by decide), length_nil]
      refine skipLoop_none (by omega) ?_
      rw [drop_eq_nil_of_le (by omega)]
      rfl
    · have hfails := special_test.fails (c := c) (by simp [hc, hback])
      refine skipLoop_none hpos (hdrop ▸ List.findIdx?_eq_none_iff.mpr fun b hb => ?_)
      rw [bytes_cons, bytes_nil, append_nil] at hb
      exact (List.mem_append.mp hb).elim (hidle b) (hfails b)
  | case4 d tail =>
    intro idle pos hidle hpos hdrop
    rw [bytes_cons, encodeChar_ascii (by decide), singleton_append] at hdrop
    have hlen := congrArg List.length hdrop
    rw [length_drop, length_append, length_cons] at hlen
    rw [skipLoop_special hidle hpos hdrop (.inl rfl), if_pos rfl, skipString_quote,
      elim_some]
    exact congrArg (fun n => Except.ok (n, true)) (by dsimp only; omega)
  | case5 d tail _ ih =>
    intro idle pos hidle hpos hdrop
    rw [bytes_cons, encodeChar_ascii (by decide), singleton_append] at hdrop
    have hlen := congrArg List.length hdrop
    rw [length_drop, length_append, length_cons] at hlen
    obtain ⟨lead, more, heq, -⟩ := encodeChar_head d
    have hmore : (bytes (d :: tail)).length = 1 + (more ++ bytes tail).length := by
      rw [bytes_cons, heq, cons_append, length_cons]
      omega
    have htail : ∀ b ∈ more, isSpecial b = false := by
      intro b hb
      cases hspecial : isSpecial b with
      | false => rfl
      | true =>
        rcases Bool.or_eq_true_iff.mp hspecial with hq | hq
        all_goals
          have hmem : b ∈ (String.utf8EncodeChar d).tail := by rwa [heq]
          rw [of_decide_eq_true hq] at hmem
          exact absurd hmem (byteOf_not_mem_tail (by decide))
    -- the escaped character loses its first byte, and the others are passed over
    rw [skipLoop_special hidle hpos hdrop (.inr rfl), if_neg (by decide), hmore,
      min_eq_left (by omega), ih _ htail (by omega), skipString_escape]
    · cases Nipworker.skipString tail <;> rfl
    · rw [← drop_drop, hdrop, bytes_cons, heq]
      simp
  | case6 c d tail hc hback ih =>
    intro idle pos hidle hpos hdrop
    have hfails := special_test.fails (c := c) (by simp [hc, hback])
    rw [bytes_cons, ← append_assoc] at hdrop
    rw [ih _ (fun b hb => (List.mem_append.mp hb).elim (hidle b) (hfails b)) hpos hdrop,
      skipString_plain hc hback]
    cases Nipworker.skipString (d :: tail) <;> rfl

theorem skipString_at (h : At chars pos ('"' :: cs)) :
    (Nipworker.skipString cs = none →
      skipString (bytes chars) pos = .ok ((bytes chars).length, false)) ∧
    ∀ inner rest, Nipworker.skipString cs = some (inner, rest) →
      ∃ pos', skipString (bytes chars) pos = .ok (pos', true) ∧ At chars pos' rest := by
  have hnext := h.next (by decide)
  have hloop := skipLoop_at cs [] (by simp) hnext.le (by rw [hnext.drop, nil_append])
  rw [skipString, hloop]
  refine ⟨fun hnone => by rw [hnone, elim_none], fun inner rest hsome => ?_⟩
  rw [hsome, elim_some]
  refine ⟨_, rfl, ?_⟩
  rw [skipString_eq_some hsome] at hnext
  have hat : At chars _ rest := (hnext.advance inner).next (by decide)
  have := hat.length
  rwa [show (bytes chars).length - (bytes rest).length = pos + 1 + (bytes inner).length + 1 by omega]

/-! ### Objects and arrays -/

theorem scanNested_inString_none (h : Nipworker.skipString cs = none)
    (depth : ℕ) : scanNested depth .inString cs = none := by
  induction cs using Nipworker.skipString.induct with
  | case1 => rfl
  | case2 =>
    rw [skipString_quote] at h
    contradiction
  | case3 c hc =>
    rw [scanNested]
    simp only [if_neg hc]
    by_cases hback : c = '\\'
    · rw [if_pos hback]
      rfl
    · rw [if_neg hback]
      rfl
  | case4 d tail =>
    rw [skipString_quote] at h
    contradiction
  | case5 d tail _ ih =>
    rw [skipString_escape, map_eq_none_iff] at h
    show Option.map _ (Option.map _ (scanNested depth .inString tail)) = none
    rw [ih h]
    rfl
  | case6 c d tail hc hback ih =>
    rw [skipString_plain hc hback, map_eq_none_iff] at h
    rw [scanNested]
    simp only [if_neg hc, if_neg hback, ih h, map_none]

/-- A bracket or a quote, in the sense of `find_structural`. -/
def isStructural (c : Char) : Bool := (c = '"' || c = '{' || c = '[') || (c = '}' || c = ']')

theorem nestedLoop_some (start : ℕ) (depth : ℕ) {off : ℕ} {b : UInt8}
    (hpos : pos ≤ text.length) (h : findStructural (text.drop pos) = some off)
    (hb : text[pos + off]? = some b) :
    (b = byteOf '"' → (∀ end', skipString text (pos + off) = .ok (end', false) →
        nestedLoop text start pos depth = .ok none) ∧
      ∀ pos', skipString text (pos + off) = .ok (pos', true) →
        nestedLoop text start pos depth = nestedLoop text start pos' depth) ∧
    (b ≠ byteOf '"' → nestedLoop text start pos depth =
      if b = byteOf '{' ∨ b = byteOf '[' then nestedLoop text start (pos + off + 1) (depth + 1)
      else if depth = 0 then .error .underflow
      else if depth - 1 = 0 then
        (cut text start (pos + off + 1)).map fun raw =>
          some ({ raw := raw, isString := false }, pos + off + 1)
      else nestedLoop text start (pos + off + 1) (depth - 1)) := by
  rw [nestedLoop, if_neg (Nat.not_lt.mpr hpos)]
  split
  · next hnone =>
    rw [h] at hnone
    contradiction
  next off' hoff =>
  obtain rfl : off = off' := some.inj (h.symm.trans hoff)
  simp only [hb]
  refine ⟨fun hquote => ⟨fun end' hskip => ?_, fun pos' hskip => ?_⟩, fun hquote => ?_⟩
  · rw [if_pos hquote]
    split
    · next hfault =>
      rw [hskip] at hfault
      contradiction
    · rfl
    · next hclosed =>
      rw [hskip] at hclosed
      exact absurd (congrArg Prod.snd (Except.ok.inj hclosed)) Bool.false_ne_true
  · rw [if_pos hquote]
    split
    · next hfault =>
      rw [hskip] at hfault
      contradiction
    · next hopen =>
      rw [hskip] at hopen
      exact absurd (congrArg Prod.snd (Except.ok.inj hopen)).symm Bool.false_ne_true
    · next pos'' hclosed =>
      rw [hskip] at hclosed
      obtain rfl : pos' = pos'' := congrArg Prod.fst (Except.ok.inj hclosed)
      rfl
  · rw [if_neg hquote]

theorem findStructural_plain {plain : List Char} (h : ∀ c ∈ plain, isStructural c = false)
    (rest : Bytes) :
    findStructural (bytes plain ++ rest) =
      (rest.findIdx? fun b => isQuoteOrOpening b || isClosing b).map (· + (bytes plain).length) := by
  rw [findStructural_eq]
  refine findIdx?_idle (fun b hb => ?_) rest
  obtain ⟨c, hc, hbc⟩ := List.mem_flatMap.mp hb
  exact structural_test.fails (h c hc) b hbc

theorem nestedLoop_none {plain : List Char} {depth : ℕ}
    (hplain : ∀ c ∈ plain, isStructural c = false) (h : At chars pos plain) :
    nestedLoop (bytes chars) start pos depth = .ok none := by
  have hnone : findStructural ((bytes chars).drop pos) = none := by
    have hfind := findStructural_plain hplain []
    rw [append_nil] at hfind
    rw [h.drop, hfind]
    rfl
  rw [nestedLoop, if_neg (Nat.not_lt.mpr h.le)]
  split
  · rfl
  · next off hoff =>
    rw [hnone] at hoff
    contradiction

theorem structural_at (plain : List Char) {c : Char}
    (hplain : ∀ d ∈ plain, isStructural d = false) (hc : isStructural c = true)
    (h : At chars pos (plain ++ c :: cs)) :
    findStructural ((bytes chars).drop pos) = some (bytes plain).length ∧
      (bytes chars)[pos + (bytes plain).length]? = some (byteOf c) := by
  obtain ⟨hbytes, hp⟩ := structural_test.passes hc
  constructor
  · rw [h.drop, bytes_append, findStructural_plain hplain, bytes_cons, hbytes,
      singleton_append, List.findIdx?_cons, hp, if_pos rfl, map_some, Nat.zero_add]
  · rw [(h.advance plain).getElem?, bytes_cons, hbytes]
    rfl

/-- The loop gives what the scan by characters finds, behind the part that was passed before. -/
def Agrees (chars done : List Char) (found : Option (List Char × List Char))
    (result : Except Fault (Option (Value × ℕ))) : Prop :=
  (found = none → result = .ok none) ∧
    ∀ part rest, found = some (part, rest) → ∃ pos,
      result = .ok (some ({ raw := bytes (done ++ part), isString := false }, pos)) ∧
        At chars pos rest

theorem Agrees.pass (done passed : List Char) {found : Option (List Char × List Char)}
    {result : Except Fault (Option (Value × ℕ))} (h : Agrees chars (done ++ passed) found result) :
    Agrees chars done (found.map fun p => (passed ++ p.1, p.2)) result := by
  refine ⟨fun hnone => h.1 (Option.map_eq_none_iff.mp hnone), fun part rest hsome => ?_⟩
  obtain ⟨⟨part', rest'⟩, hp, heq⟩ := Option.map_eq_some_iff.mp hsome
  obtain ⟨rfl, rfl⟩ := Prod.mk.inj heq
  obtain ⟨pos, hresult, hat⟩ := h.2 part' rest' hp
  exact ⟨pos, by rw [hresult, append_assoc], hat⟩

/-- **The loop over an object or an array**: `done` is what it has passed, from the opening
bracket on, and `plain` what it will pass at once. -/
theorem nestedLoop_at (n : ℕ) : ∀ (cs done plain : List Char) {pos : ℕ} (depth : ℕ),
    cs.length < n → 1 ≤ depth → (∀ c ∈ plain, isStructural c = false) →
    At chars start (done ++ (plain ++ cs)) → At chars pos (plain ++ cs) →
    Agrees chars (done ++ plain) (scanNested depth .outside cs)
      (nestedLoop (bytes chars) start pos depth) := by
  induction n with
  | zero =>
    intro cs done plain pos depth hlt
    omega
  | succ n ih =>
    intro cs done plain pos depth hlt hdepth hplain hstart hpos
    cases cs with
    | nil =>
      rw [append_nil] at hpos
      refine ⟨fun _ => nestedLoop_none hplain hpos, fun part rest hsome => ?_⟩
      rw [scanNested] at hsome
      contradiction
    | cons c tail =>
      rw [length_cons] at hlt
      cases hc : isStructural c with
      | false =>
        have hplain' : ∀ d ∈ plain ++ [c], isStructural d = false := by
          intro d hd
          rcases List.mem_append.mp hd with hold | hnew
          · exact hplain d hold
          · rwa [List.mem_singleton.mp hnew]
        have hgo := ih tail done (plain ++ [c]) depth (by omega) hdepth hplain'
          (by simpa using hstart) (by simpa using hpos)
        rw [← append_assoc] at hgo
        simp only [isStructural, Bool.or_eq_false_iff, decide_eq_false_iff_not] at hc
        obtain ⟨⟨⟨hquote, hbrace⟩, hbracket⟩, hbrace', hbracket'⟩ := hc
        rw [scanNested, if_neg hquote, if_neg (by tauto), if_neg (by tauto)]
        exact hgo.pass _ [c]
      | true =>
        obtain ⟨hfind, hbyte⟩ := structural_at plain hplain hc hpos
        have hhere : At chars (pos + (bytes plain).length) (c :: tail) := hpos.advance plain
        have hascii : c.toNat < 128 := structural_test.char c hc
        have hstep := nestedLoop_some start depth hpos.le hfind hbyte
        by_cases hquote : c = '"'
        · subst hquote
          have hstring := hstep.1 rfl
          have hskipped := skipString_at hhere
          rw [scanNested, if_pos rfl]
          cases hskip : Nipworker.skipString tail with
          | none =>
            rw [scanNested_inString_none hskip, map_none]
            exact ⟨fun _ => hstring.1 _ (hskipped.1 hskip), fun part rest hsome => by contradiction⟩
          | some p =>
            obtain ⟨inner, after⟩ := p
            obtain ⟨pos', hclosed, hat⟩ := hskipped.2 inner after hskip
            have htail := skipString_eq_some hskip
            have hshort := congrArg List.length htail
            rw [length_append, length_cons] at hshort
            have hgo := ih after ((done ++ plain) ++ '"' :: (inner ++ ['"'])) [] depth (by omega)
              hdepth (by simp) (by rw [htail] at hstart; simpa using hstart) hat
            rw [append_nil] at hgo
            rw [scanNested_inString hskip, hstring.2 pos' hclosed, Option.map_map]
            have hpassed := hgo.pass _ _
            refine (congrArg (fun f => Agrees chars (done ++ plain) (Option.map f _) _)
              (funext fun p => ?_)).mp hpassed
            simp
        · -- a bracket, outside strings
          have hne : byteOf c ≠ byteOf '"' := fun h =>
            hquote ((byteOf_inj hascii (by decide)).mp h)
          have hbranch := hstep.2 hne
          simp only [byteOf_inj hascii (show '{'.toNat < 128 by decide),
            byteOf_inj hascii (show '['.toNat < 128 by decide)] at hbranch
          have hnext : At chars (pos + (bytes plain).length + 1) tail := hhere.next hascii
          have hgo := fun depth' (h : 1 ≤ depth') =>
            ih tail ((done ++ plain) ++ [c]) [] depth' (by omega) h (by simp)
              (by simpa using hstart) hnext
          simp only [append_nil] at hgo
          rw [scanNested, if_neg hquote, hbranch]
          by_cases hopen : c = '{' ∨ c = '['
          · rw [if_pos hopen, if_pos hopen]
            exact (hgo (depth + 1) (by omega)).pass _ _
          · have hclose : c = '}' ∨ c = ']' := by
              simp only [isStructural, Bool.or_eq_true, decide_eq_true_eq] at hc
              tauto
            rw [if_neg hopen, if_neg hopen, if_pos hclose, if_neg (show ¬ depth = 0 by omega)]
            by_cases hlast : depth - 1 = 0
            · rw [if_pos hlast, if_pos hlast]
              refine ⟨fun hnone => by contradiction, fun part rest hsome => ?_⟩
              obtain ⟨rfl, rfl⟩ := Prod.mk.inj (some.inj hsome)
              have hcut := slice_at ((done ++ plain) ++ [c]) (by simpa using hstart) hnext
              refine ⟨_, ?_, hnext⟩
              rw [cut, hcut]
              rfl
            · rw [if_neg hlast, if_neg hlast]
              exact (hgo (depth - 1) (by omega)).pass _ _

theorem nestedLoop_open {c : Char} (hc : c = '{' ∨ c = '[') (h : At chars start (c :: cs)) :
    Agrees chars [] (scanNested 0 .outside (c :: cs)) (nestedLoop (bytes chars) start start 0) := by
  have hascii : c.toNat < 128 := by rcases hc with rfl | rfl <;> decide
  have hquote : c ≠ '"' := by rcases hc with rfl | rfl <;> decide
  have hstructural : isStructural c = true := by rcases hc with rfl | rfl <;> rfl
  obtain ⟨hfind, hbyte⟩ := structural_at [] (by simp) hstructural h
  have hne : byteOf c ≠ byteOf '"' := fun heq => hquote ((byteOf_inj hascii (by decide)).mp heq)
  have hbranch := (nestedLoop_some start 0 h.le hfind hbyte).2 hne
  simp only [byteOf_inj hascii (show '{'.toNat < 128 by decide),
    byteOf_inj hascii (show '['.toNat < 128 by decide), if_pos hc] at hbranch
  rw [scanNested, if_neg hquote, if_pos hc, hbranch]
  have hgo : Agrees chars ([c] ++ []) _ (nestedLoop (bytes chars) start (start + 1) 1) :=
    nestedLoop_at (cs.length + 1) cs [c] [] 1 (Nat.lt_succ_self _) le_rfl (by simp) h
      (h.next hascii)
  exact Agrees.pass [] [c] hgo

/-! ### The elements of a frame -/

def Value.of (v : ScannedValue) : Value := { raw := bytes v.raw, isString := v.isString }

def Frame.of (f : ScannedFrame) : Frame :=
  { kind := bytes f.kind, args := f.args.map Value.of }

theorem scanElement_at {c : Char} (h : At chars start (c :: cs)) :
    (Nipworker.scanElement (c :: cs) = none → scanElement (bytes chars) start = .ok none) ∧
      ∀ v after, Nipworker.scanElement (c :: cs) = some (v, after) → ∃ pos,
        scanElement (bytes chars) start = .ok (some (Value.of v, pos)) ∧ At chars pos after := by
  obtain ⟨b, hb, hbyte⟩ := h.getElem?_cons
  rw [scanElement, hb, Nipworker.scanElement]
  simp only [hbyte _ (show '"'.toNat < 128 by decide), hbyte _ (show '{'.toNat < 128 by decide),
    hbyte _ (show '['.toNat < 128 by decide)]
  by_cases hquote : c = '"'
  · subst hquote
    rw [if_pos rfl, if_pos rfl]
    obtain ⟨hopen, hclosed⟩ := skipString_at h
    refine ⟨fun hnone => ?_, fun v after hsome => ?_⟩
    · rw [hopen (Option.map_eq_none_iff.mp hnone)]
    · obtain ⟨⟨inner, rest⟩, hskip, heq⟩ := Option.map_eq_some_iff.mp hsome
      obtain ⟨rfl, rfl⟩ := Prod.mk.inj heq
      obtain ⟨pos, hpos, hat⟩ := hclosed inner rest hskip
      have hcut := slice_at ('"' :: (inner ++ ['"']))
        (by rw [skipString_eq_some hskip] at h; simpa using h) hat
      refine ⟨pos, ?_, hat⟩
      rw [hpos]
      dsimp only
      rw [cut, hcut]
      rfl
  · rw [if_neg hquote, if_neg hquote]
    by_cases hnested : c = '{' ∨ c = '['
    · rw [if_pos hnested, if_pos hnested]
      obtain ⟨hopen, hclosed⟩ := nestedLoop_open hnested h
      refine ⟨fun hnone => hopen (Option.map_eq_none_iff.mp hnone), fun v after hsome => ?_⟩
      obtain ⟨⟨part, rest⟩, hscan, heq⟩ := Option.map_eq_some_iff.mp hsome
      obtain ⟨rfl, rfl⟩ := Prod.mk.inj heq
      exact hclosed part rest hscan
    · rw [if_neg hnested, if_neg hnested]
      -- a token, up to what ends it
      have hat := h.skip_not endsPrimitive_test
      have hlen := hat.length
      have hall := h.length
      have hsplit := congrArg (fun l => (bytes l).length)
        (takeWhile_append_dropWhile (p := fun d => !Nipworker.endsPrimitive d) (l := c :: cs))
      simp only [bytes_append, length_append] at hsplit
      have hempty : start + (((bytes chars).drop start).takeWhile fun d => !endsPrimitive d).length =
          start ↔ ((c :: cs).takeWhile fun d => !Nipworker.endsPrimitive d) = [] := by
        rw [h.drop, endsPrimitive_test.takeWhile_not, Nat.add_eq_left, length_eq_zero_iff]
        constructor
        · intro hnil
          cases htoken : (c :: cs).takeWhile fun d => !Nipworker.endsPrimitive d with
          | nil => rfl
          | cons d ds =>
            obtain ⟨lead, more, heq, -⟩ := encodeChar_head d
            rw [htoken, bytes_cons, heq] at hnil
            contradiction
        · intro hnil
          rw [hnil, bytes_nil]
      by_cases htoken : ((c :: cs).takeWhile fun d => !Nipworker.endsPrimitive d) = []
      · rw [if_pos (hempty.mpr htoken), if_pos htoken]
        exact ⟨fun _ => rfl, fun v after hsome => by contradiction⟩
      · rw [if_neg (mt hempty.mp htoken), if_neg htoken]
        refine ⟨fun hnone => by contradiction, fun v after hsome => ?_⟩
        obtain ⟨rfl, rfl⟩ := Prod.mk.inj (some.inj hsome)
        refine ⟨_, ?_, hat⟩
        rw [cut, slice_at ((c :: cs).takeWhile fun d => !Nipworker.endsPrimitive d)
          (by rwa [takeWhile_append_dropWhile]) hat]
        rfl

/-- **The loop over the elements after the kind.** -/
theorem scanArgs_at (filled : ℕ) : ∀ {cs : List Char} {pos : ℕ}, At chars pos cs →
    scanArgs (bytes chars) filled pos = .ok ((Nipworker.scanArgs filled cs).map Value.of) := by
  induction filled with
  | zero => exact fun _ => rfl
  | succ filled ih =>
    intro cs pos h
    have hcomma := skipWs_at h
    rw [scanArgs, Nipworker.scanArgs]
    cases hskip : Nipworker.skipWs cs with
    | nil =>
      rw [hskip] at hcomma
      rw [hcomma.getElem?_nil]
      rfl
    | cons c rest =>
      rw [hskip] at hcomma
      obtain ⟨b, hb, hbyte⟩ := hcomma.getElem?_cons
      rw [hb]
      simp only [ne_eq, hbyte _ (show ','.toNat < 128 by decide)]
      by_cases hc : c = ','
      · subst hc
        have hstart := skipWs_at (hcomma.next (by decide))
        rw [if_neg (not_not.mpr rfl), if_neg (not_not.mpr rfl)]
        cases hskip' : Nipworker.skipWs rest with
        | nil =>
          rw [hskip'] at hstart
          rw [hstart.getElem?_nil]
          rfl
        | cons d rest' =>
          rw [hskip'] at hstart
          obtain ⟨e, he, hbyte'⟩ := hstart.getElem?_cons
          rw [he]
          simp only [hbyte' _ (show ']'.toNat < 128 by decide)]
          by_cases hd : d = ']'
          · rw [if_pos hd, if_pos hd]
            rfl
          · rw [if_neg hd, if_neg hd]
            obtain ⟨hnone, hsome⟩ := scanElement_at hstart
            cases hscan : Nipworker.scanElement (d :: rest') with
            | none =>
              rw [hnone hscan]
              rfl
            | some p =>
              obtain ⟨v, after⟩ := p
              obtain ⟨pos', hpos', hat⟩ := hsome v after hscan
              rw [hpos']
              dsimp only
              rw [ih hat]
              rfl
      · rw [if_pos hc, if_pos hc]
        rfl

theorem scanElement_quotes {after : List Char} {v : ScannedValue}
    (h : Nipworker.scanElement cs = some (v, after)) (hstring : v.isString = true) :
    ∃ inner, v.raw = '"' :: (inner ++ ['"']) := by
  cases cs with
  | nil =>
    rw [Nipworker.scanElement] at h
    contradiction
  | cons c cs =>
    rw [Nipworker.scanElement] at h
    by_cases hquote : c = '"'
    · rw [if_pos hquote] at h
      obtain ⟨p, -, heq⟩ := Option.map_eq_some_iff.mp h
      obtain ⟨rfl, -⟩ := Prod.mk.inj heq
      exact ⟨p.1, rfl⟩
    · rw [if_neg hquote] at h
      by_cases hnested : c = '{' ∨ c = '['
      · rw [if_pos hnested] at h
        obtain ⟨p, -, heq⟩ := Option.map_eq_some_iff.mp h
        obtain ⟨rfl, -⟩ := Prod.mk.inj heq
        contradiction
      · rw [if_neg hnested] at h
        dsimp only at h
        by_cases htoken : ((c :: cs).takeWhile fun d => !Nipworker.endsPrimitive d) = []
        · rw [if_pos htoken] at h
          contradiction
        · rw [if_neg htoken] at h
          obtain ⟨rfl, -⟩ := Prod.mk.inj (some.inj h)
          contradiction

theorem inner_of {after : List Char} {v : ScannedValue}
    (h : Nipworker.scanElement cs = some (v, after)) :
    (Value.of v).inner = .ok (bytes v.inner) := by
  rw [Value.inner, ScannedValue.inner]
  cases hstring : v.isString with
  | false =>
    rw [if_neg (by simp [Value.of, hstring]), if_neg (by simp)]
    rfl
  | true =>
    obtain ⟨inner, hraw⟩ := scanElement_quotes h hstring
    have hzero : At v.raw 0 ('"' :: (inner ++ ['"'])) := hraw ▸ at_zero _
    have hone : At v.raw 1 (inner ++ ['"']) := hzero.next (by decide)
    have hquote : (bytes ['"']).length = 1 := by
      rw [bytes_cons, encodeChar_ascii (by decide)]
      rfl
    have hlast : At v.raw (1 + (bytes inner).length) ['"'] := hone.advance inner
    have hlen := hlast.length
    rw [hquote] at hlen
    have hinner : v.raw.tail.dropLast = inner := by
      rw [hraw, tail_cons, dropLast_concat]
    rw [if_pos (by simpa [Value.of] using hstring), if_pos rfl, hinner]
    show (if (bytes v.raw).length = 0 then _ else cut (bytes v.raw) 1 ((bytes v.raw).length - 1)) = _
    rw [if_neg (by omega), show (bytes v.raw).length - 1 = 1 + (bytes inner).length by omega, cut,
      slice_at inner hone hlast]

/-- **The scanner on any text**: it does not panic, and finds the slices the scan by characters
finds. -/
theorem scanRelayFrame_encode (text : String) :
    scanRelayFrame (Utf8.encode text) = .ok ((Nipworker.scanRelayFrame text).map Frame.of) := by
  have hopening := skipWs_at (at_zero text.toList)
  rw [encode_eq_bytes, scanRelayFrame, Nipworker.scanRelayFrame]
  cases hskip : Nipworker.skipWs text.toList with
  | nil =>
    rw [hskip] at hopening
    rw [hopening.getElem?_nil]
    rfl
  | cons c rest =>
    rw [hskip] at hopening
    obtain ⟨b, hb, hbyte⟩ := hopening.getElem?_cons
    rw [hb]
    simp only [ne_eq, hbyte _ (show '['.toNat < 128 by decide)]
    by_cases hc : c = '['
    · subst hc
      have hstart := skipWs_at (hopening.next (by decide))
      rw [if_neg (not_not.mpr rfl), if_neg (not_not.mpr rfl)]
      cases hskip' : Nipworker.skipWs rest with
      | nil =>
        rw [hskip'] at hstart
        rw [hstart.getElem?_nil]
        rfl
      | cons d rest' =>
        rw [hskip'] at hstart
        obtain ⟨e, he, hbyte'⟩ := hstart.getElem?_cons
        rw [he]
        simp only [hbyte' _ (show ']'.toNat < 128 by decide)]
        by_cases hd : d = ']'
        · rw [if_pos hd, if_pos hd]
          rfl
        · rw [if_neg hd, if_neg hd]
          obtain ⟨hnone, hsome⟩ := scanElement_at hstart
          cases hscan : Nipworker.scanElement (d :: rest') with
          | none =>
            rw [hnone hscan]
            rfl
          | some p =>
            obtain ⟨first, after⟩ := p
            obtain ⟨pos, hpos, hat⟩ := hsome first after hscan
            rw [hpos]
            dsimp only
            rw [inner_of hscan, scanArgs_at 3 hat]
            rfl
    · rw [if_pos hc, if_pos hc]
      rfl

end FrameBytes

end Nipworker
