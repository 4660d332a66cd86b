/-
JSON as ECMAScript reads and writes it: over UTF-16 code units.

`Doc` is a JSON text with its layout, `Doc.text` the text and `Doc.value` the value that
is denoted.  Any code unit from the space on may stand in a string, and a `\u` escape
stands for one code unit, so that halves of surrogate pairs are nothing special to the
reader.

Numbers are a parameter: `Numbers` has the two conversions between literals and numbers.
-/
import Nipworker.Lib.JsString
import Nipworker.Lib.JsonDoc

namespace JsJson

open Js List
open JsonText (NumberLit ShortEscape)

/-! ### Strings -/

def hexUnit (u : UInt16) : Option UInt16 :=
  if 48 ≤ u ∧ u ≤ 57 then some (u - 48)
  else if 97 ≤ u ∧ u ≤ 102 then some (u - 87)
  else if 65 ≤ u ∧ u ≤ 70 then some (u - 55)
  else none

def hex4 (a b c d : UInt16) : Option UInt16 := do
  let a ← hexUnit a
  let b ← hexUnit b
  let c ← hexUnit c
  let d ← hexUnit d
  some (((a * 16 + b) * 16 + c) * 16 + d)

def shortUnit (u : UInt16) : Option UInt16 :=
  if u = unit '"' then some (unit '"')
  else if u = unit '\\' then some (unit '\\')
  else if u = unit '/' then some (unit '/')
  else if u = unit 'b' then some 8
  else if u = unit 'f' then some 12
  else if u = unit 'n' then some 10
  else if u = unit 'r' then some 13
  else if u = unit 't' then some 9
  else none

/-- A code unit of a string, as JSON writes it. -/
inductive StrUnit
  | plain (u : UInt16)
  | short (e : ShortEscape)
  | unicode (a b c d : UInt16)

namespace StrUnit

def text : StrUnit → JsString
  | .plain u => [u]
  | .short e => [unit '\\', unit e.letter]
  | .unicode a b c d => [unit '\\', unit 'u', a, b, c, d]

def value : StrUnit → UInt16
  | .plain u => u
  | .short e => unit e.char
  | .unicode a b c d => (hex4 a b c d).getD 0

/-- A plain code unit is no quote, no backslash and no control character. -/
def Wf : StrUnit → Prop
  | .plain u => u ≠ unit '"' ∧ u ≠ unit '\\' ∧ 32 ≤ u
  | .short _ => True
  | .unicode a b c d => (hex4 a b c d).isSome = true

def isPlain : StrUnit → Bool
  | .plain _ => true
  | _ => false

end StrUnit

def literalText (lit : List StrUnit) : JsString := lit.flatMap StrUnit.text

def literalValue (lit : List StrUnit) : JsString := lit.map StrUnit.value

theorem literalText_cons (p : StrUnit) (lit : List StrUnit) :
    literalText (p :: lit) = p.text ++ literalText lit := rfl

theorem literalValue_cons (p : StrUnit) (lit : List StrUnit) :
    literalValue (p :: lit) = p.value :: literalValue lit := rfl

/-- A string literal after its opening quote: the string, and what follows. -/
def readString : JsString → Option (JsString × JsString)
  | [] => none
  | u :: rest =>
    if u = unit '"' then some ([], rest)
    else if u = unit '\\' then
      match rest with
      | [] => none
      | e :: rest =>
        if e = unit 'u' then
          match rest with
          | a :: b :: c :: d :: rest => do
            let v ← hex4 a b c d
            let (string, rest) ← readString rest
            some (v :: string, rest)
          | _ => none
        else do
          let v ← shortUnit e
          let (string, rest) ← readString rest
          some (v :: string, rest)
    else if u < 32 then none
    else do
      let (string, rest) ← readString rest
      some (u :: string, rest)

theorem shortUnit_letter (e : ShortEscape) : shortUnit (unit e.letter) = some (unit e.char) := by
  cases e <;> decide

theorem readString_unit {p : StrUnit} (hp : p.Wf) (rest : JsString) :
    readString (p.text ++ rest) = (readString rest).map fun r => (p.value :: r.1, r.2) := by
  cases p with
  | plain u =>
    obtain ⟨hquote, hback, hlow⟩ := hp
    rw [StrUnit.text, singleton_append, readString.eq_def (u :: rest)]
    dsimp only
    rw [if_neg hquote, if_neg hback, if_neg (UInt16.not_lt.mpr hlow)]
    cases readString rest <;> rfl
  | short e =>
    have hu : unit e.letter ≠ unit 'u' := by cases e <;> decide
    rw [StrUnit.text, cons_append, singleton_append, readString.eq_def (_ :: _)]
    dsimp only
    rw [if_neg (by decide), if_pos rfl, if_neg hu, shortUnit_letter]
    cases readString rest <;> rfl
  | unicode a b c d =>
    obtain ⟨v, hv⟩ := Option.isSome_iff_exists.mp hp
    rw [StrUnit.text, cons_append, readString.eq_def (_ :: _)]
    dsimp only [cons_append, nil_append]
    rw [if_neg (by decide), if_pos rfl, if_pos rfl, StrUnit.value, hv]
    cases readString rest <;> rfl

/-- **A literal is read as its value.** -/
theorem readString_literal {lit : List StrUnit} (h : ∀ p ∈ lit, p.Wf) (rest : JsString) :
    readString (literalText lit ++ unit '"' :: rest) = some (literalValue lit, rest) := by
  induction lit with
  | nil =>
    rw [literalText, flatMap_nil, nil_append, readString.eq_def (_ :: _)]
    exact if_pos rfl
  | cons p lit ih =>
    rw [literalText_cons, append_assoc, readString_unit (h p mem_cons_self),
      ih fun q hq => h q (mem_cons_of_mem _ hq)]
    rfl

/-! ### Numbers -/

def isDigitUnit (u : UInt16) : Bool := 48 ≤ u ∧ u ≤ 57

def charOf (u : UInt16) : Char := Char.ofNat u.toNat

def takeDigits (s : JsString) : List Char × JsString :=
  ((s.takeWhile isDigitUnit).map charOf, s.dropWhile isDigitUnit)

def takeDigits1 (s : JsString) : Option (List Char × JsString) :=
  if (takeDigits s).1 = [] then none else some (takeDigits s)

/-- The digits before the point: none follow a leading zero. -/
def takeInt (s : JsString) : Option (List Char × JsString) :=
  if s.head? = some (unit '0') then some (['0'], s.tail) else takeDigits1 s

def takeFrac (s : JsString) : Option (List Char × JsString) :=
  if s.head? = some (unit '.') then takeDigits1 s.tail else some ([], s)

def takeSign (s : JsString) : List Char × JsString :=
  if s.head? = some (unit '+') then (['+'], s.tail)
  else if s.head? = some (unit '-') then (['-'], s.tail)
  else ([], s)

def takeScale (letter : Char) (s : JsString) :
    Option (Option (Char × List Char × List Char) × JsString) :=
  (takeDigits1 (takeSign s).2).map fun r => (some (letter, (takeSign s).1, r.1), r.2)

def takeExp (s : JsString) : Option (Option (Char × List Char × List Char) × JsString) :=
  if s.head? = some (unit 'e') then takeScale 'e' s.tail
  else if s.head? = some (unit 'E') then takeScale 'E' s.tail
  else some (none, s)

def takeUnsigned (minus : Bool) (s : JsString) : Option (NumberLit × JsString) := do
  let (int, s) ← takeInt s
  let (frac, s) ← takeFrac s
  let (exp, s) ← takeExp s
  some (⟨minus, int, frac, exp⟩, s)

def takeNumber (s : JsString) : Option (NumberLit × JsString) :=
  if s.head? = some (unit '-') then takeUnsigned true s.tail else takeUnsigned false s

def continuesNumber (u : UInt16) : Bool :=
  isDigitUnit u || u = unit '.' || u = unit 'e' || u = unit 'E'

def NumberEnds (s : JsString) : Prop := ∀ u ∈ s.head?, continuesNumber u = false

def NoDigit (s : JsString) : Prop := ∀ u ∈ s.head?, isDigitUnit u = false

theorem NumberEnds.noDigit {s : JsString} (h : NumberEnds s) : NoDigit s := by
  intro u hu
  have := h u hu
  simp only [continuesNumber, Bool.or_eq_false_iff] at this
  exact this.1.1.1

variable {u : UInt16} {c : Char} {rest : JsString} {n : NumberLit}

theorem NumberEnds.head_ne {s : JsString} (h : NumberEnds s)
    (hu : continuesNumber u = true) : s.head? ≠ some u := by
  intro hs
  rw [h u hs] at hu
  contradiction

theorem isDigit_bounds (h : c.isDigit = true) : 48 ≤ c.toNat ∧ c.toNat ≤ 57 := by
  rw [Char.isDigit, Bool.and_eq_true, decide_eq_true_eq, decide_eq_true_eq] at h
  exact ⟨UInt32.le_iff_toNat_le.mp h.1, UInt32.le_iff_toNat_le.mp h.2⟩

theorem toNat_unit_digit (h : c.isDigit = true) : (unit c).toNat = c.toNat := by
  have := isDigit_bounds h
  exact toNat_unit (by omega)

theorem isDigitUnit_unit (h : c.isDigit = true) : isDigitUnit (unit c) = true := by
  have hb := isDigit_bounds h
  rw [isDigitUnit, decide_eq_true_eq, UInt16.le_iff_toNat_le, UInt16.le_iff_toNat_le,
    toNat_unit_digit h]
  exact hb

theorem charOf_unit_digit (h : c.isDigit = true) : charOf (unit c) = c := by
  rw [charOf, toNat_unit_digit h, Char.ofNat_toNat]

theorem map_charOf_digits {ds : List Char} (h : ∀ c ∈ ds, c.isDigit = true) :
    (units ds).map charOf = ds := by
  rw [units, map_map]
  calc ds.map (charOf ∘ unit) = ds.map id := map_congr_left fun c hc =>
        charOf_unit_digit (h c hc)
    _ = ds := map_id ds

theorem takeDigits_units {ds : List Char} (h : ∀ c ∈ ds, c.isDigit = true)
    (hrest : NoDigit rest) : takeDigits (units ds ++ rest) = (ds, rest) := by
  have hall : ∀ u ∈ units ds, isDigitUnit u = true := by
    intro u hu
    obtain ⟨c, hc, rfl⟩ := List.mem_map.mp hu
    exact isDigitUnit_unit (h c hc)
  have hstop : rest.takeWhile isDigitUnit = [] ∧ rest.dropWhile isDigitUnit = rest := by
    cases rest with
    | nil => exact ⟨rfl, rfl⟩
    | cons u rest =>
      have hu : ¬ isDigitUnit u = true := by
        rw [hrest u rfl]
        exact Bool.false_ne_true
      exact ⟨takeWhile_cons_of_neg hu, dropWhile_cons_of_neg hu⟩
  rw [takeDigits, takeWhile_append_of_pos hall, dropWhile_append_of_pos hall, hstop.1,
    hstop.2, append_nil, map_charOf_digits h]

theorem takeDigits1_units {ds : List Char} (hne : ds ≠ []) (h : ∀ c ∈ ds, c.isDigit = true)
    (hrest : NoDigit rest) : takeDigits1 (units ds ++ rest) = some (ds, rest) := by
  rw [takeDigits1, takeDigits_units h hrest, if_neg hne]

theorem head_units_append {cs : List Char} (h : cs ≠ []) (rest : JsString) :
    (units cs ++ rest).head? = cs.head?.map unit := by
  cases cs with
  | nil => contradiction
  | cons c cs => rfl

theorem head_units_ne {d : Char} (h : unit c ≠ unit d) {cs : List Char} :
    (units (c :: cs) ++ rest).head? ≠ some (unit d) := fun heq => h (Option.some.inj heq)

theorem unit_inj_ascii {d : Char} (hc : c.toNat < 65536) (hd : d.toNat < 65536)
    (h : unit c = unit d) : c = d := by
  have := congrArg UInt16.toNat h
  rwa [toNat_unit hc, toNat_unit hd, Char.toNat_inj] at this

theorem takeInt_units {int : List Char} (hne : int ≠ []) (h : ∀ c ∈ int, c.isDigit = true)
    (hzero : int.head? = some '0' → int = ['0']) (hrest : NoDigit rest) :
    takeInt (units int ++ rest) = some (int, rest) := by
  by_cases h0 : int.head? = some '0'
  · rw [hzero h0]
    exact if_pos rfl
  · rw [takeInt, if_neg, takeDigits1_units hne h hrest]
    rw [head_units_append hne]
    intro hhead
    obtain ⟨c, hc, hunit⟩ := Option.map_eq_some_iff.mp hhead
    have hdigit := isDigit_bounds (h c (mem_of_mem_head? hc))
    rw [unit_inj_ascii (by omega) (by decide) hunit] at hc
    exact h0 hc

theorem takeFrac_units (hn : n.Wf) (hrest : NoDigit rest) (hpoint : rest.head? ≠ some (unit '.')) :
    takeFrac (units n.fracText ++ rest) = some (n.frac, rest) := by
  rw [NumberLit.fracText]
  by_cases hnil : n.frac = []
  · rw [if_pos hnil, hnil]
    exact if_neg hpoint
  · rw [if_neg hnil, units_cons]
    exact (if_pos rfl).trans (takeDigits1_units hnil hn.frac_digits hrest)

theorem takeSign_units {sign digits : List Char} (hsign : sign = [] ∨ sign = ['+'] ∨ sign = ['-'])
    (hne : digits ≠ []) (h : ∀ c ∈ digits, c.isDigit = true) (rest : JsString) :
    takeSign (units sign ++ (units digits ++ rest)) = (sign, units digits ++ rest) := by
  rcases hsign with rfl | rfl | rfl
  · have hhead : ∀ d : Char, d.toNat < 48 →
        ¬ (units digits ++ rest).head? = some (unit d) := by
      intro d hd hhead
      rw [head_units_append hne] at hhead
      obtain ⟨c, hc, hunit⟩ := Option.map_eq_some_iff.mp hhead
      have hdigit := isDigit_bounds (h c (mem_of_mem_head? hc))
      have := congrArg Char.toNat (unit_inj_ascii (by omega) (by omega) hunit)
      omega
    rw [units_nil, nil_append, takeSign, if_neg (hhead '+' (by decide)),
      if_neg (hhead '-' (by decide))]
  · exact if_pos rfl
  · exact (if_neg (head_units_ne (by decide))).trans (if_pos rfl)

theorem takeScale_units {letter : Char} {sign digits : List Char}
    (hsign : sign = [] ∨ sign = ['+'] ∨ sign = ['-']) (hne : digits ≠ [])
    (h : ∀ c ∈ digits, c.isDigit = true) {rest : JsString} (hrest : NoDigit rest) :
    takeScale letter (units sign ++ (units digits ++ rest)) =
      some (some (letter, sign, digits), rest) := by
  rw [takeScale, takeSign_units hsign hne h, takeDigits1_units hne h hrest]
  rfl

theorem takeExp_units (hn : n.Wf) (hrest : NumberEnds rest) :
    takeExp (units n.expText ++ rest) = some (n.exp, rest) := by
  rw [NumberLit.expText]
  cases hexp : n.exp with
  | none =>
    exact (if_neg (hrest.head_ne (by decide))).trans (if_neg (hrest.head_ne (by decide)))
  | some e =>
    obtain ⟨letter, sign, digits⟩ := e
    obtain ⟨hletter, hsign, hne, hdigits⟩ := hn.exp_letter _ hexp
    dsimp only at hletter hsign hne hdigits ⊢
    have hscale := @takeScale_units letter _ _ hsign hne hdigits _ hrest.noDigit
    rw [← append_assoc, ← units_append] at hscale
    rcases hletter with rfl | rfl
    · exact (if_pos rfl).trans hscale
    · exact (if_neg (head_units_ne (by decide))).trans ((if_pos rfl).trans hscale)

theorem noDigit_expText (hn : n.Wf) (hrest : NumberEnds rest) :
    NoDigit (units n.expText ++ rest) ∧ (units n.expText ++ rest).head? ≠ some (unit '.') := by
  rw [NumberLit.expText]
  cases hexp : n.exp with
  | none => exact ⟨hrest.noDigit, hrest.head_ne (by decide)⟩
  | some e =>
    obtain ⟨letter, sign, digits⟩ := e
    obtain ⟨hletter, -⟩ := hn.exp_letter _ hexp
    dsimp only at hletter ⊢
    rcases hletter with rfl | rfl
    · refine ⟨fun u hu => ?_, head_units_ne (by decide)⟩
      rw [← Option.some.inj hu]
      decide
    · refine ⟨fun u hu => ?_, head_units_ne (by decide)⟩
      rw [← Option.some.inj hu]
      decide

theorem noDigit_fracText (hn : n.Wf) (hrest : NumberEnds rest) :
    NoDigit (units n.fracText ++ (units n.expText ++ rest)) := by
  rw [NumberLit.fracText]
  by_cases hnil : n.frac = []
  · rw [if_pos hnil]
    exact (noDigit_expText hn hrest).1
  · rw [if_neg hnil]
    intro u hu
    rw [← Option.some.inj hu]
    decide

theorem takeUnsigned_units (hn : n.Wf) (hrest : NumberEnds rest) :
    takeUnsigned n.minus (units n.int ++ (units n.fracText ++ (units n.expText ++ rest))) =
      some (n, rest) := by
  have hexp := noDigit_expText hn hrest
  rw [takeUnsigned, takeInt_units hn.int_ne hn.int_digits hn.int_zero (noDigit_fracText hn hrest)]
  dsimp only [Option.bind_eq_bind, Option.bind_some]
  rw [takeFrac_units hn hexp.1 hexp.2]
  dsimp only [Option.bind_some]
  rw [takeExp_units hn hrest]
  rfl

/-- **A number is read as it is written.** -/
theorem takeNumber_text (hn : n.Wf) (hrest : NumberEnds rest) :
    takeNumber (units n.text ++ rest) = some (n, rest) := by
  have hbody := takeUnsigned_units hn hrest
  rw [NumberLit.text, units_append, units_append, units_append, append_assoc,
    append_assoc, append_assoc]
  cases hminus : n.minus with
  | true =>
    rw [hminus] at hbody
    exact (if_pos rfl).trans hbody
  | false =>
    rw [hminus] at hbody
    refine (if_neg ?_).trans hbody
    show (units n.int ++ _).head? ≠ some (unit '-')
    rw [head_units_append hn.int_ne]
    intro hhead
    obtain ⟨c, hc, hunit⟩ := Option.map_eq_some_iff.mp hhead
    have hdigit := isDigit_bounds (hn.int_digits c (mem_of_mem_head? hc))
    have := congrArg Char.toNat (unit_inj_ascii (by omega) (by decide) hunit)
    have hminus : Char.toNat '-' = 45 := rfl
    omega

/-! ### Values -/

/-- The numbers of the engine, told apart as `===` does (so that there is one zero), and
the conversions between them and literals: the number a literal denotes, which is not
finite when the literal is too large, and the literal that `Number::toString` gives for a
finite number. -/
structure Numbers (N : Type) where
  ofLiteral : NumberLit → N
  isFinite : N → Bool
  toLiteral : N → NumberLit
  toLiteral_wf : ∀ x, isFinite x = true → (toLiteral x).Wf
  ofLiteral_toLiteral : ∀ x, isFinite x = true → ofLiteral (toLiteral x) = x

/-- A value that `JSON.parse` returns.  The properties of an object stand in the order of
`OrdinaryOwnPropertyKeys`. -/
inductive JsValue (N : Type)
  | null
  | bool (b : Bool)
  | num (n : N)
  | str (s : JsString)
  | arr (items : List (JsValue N))
  | obj (props : List (JsString × JsValue N))

/-- The index of a property key that is an array index: a canonical numeral below
`2^32 - 1`. -/
def arrayIndex (key : JsString) : Option ℕ :=
  if takeInt key = some (key.map charOf, []) ∧ Nat.ofDigitChars 10 (key.map charOf) 0 < 2 ^ 32 - 1
  then some (Nat.ofDigitChars 10 (key.map charOf) 0)
  else none

/-- The place of a key among the keys of an object: array indices first, in ascending
order. -/
def keyRank (key : JsString) : WithTop ℕ := (arrayIndex key).elim ⊤ fun n => (n : WithTop ℕ)

section

variable {V : Type}

/-- `CreateDataProperty` with a key that the object does not have. -/
def addProperty (key : JsString) (value : V) :
    List (JsString × V) → List (JsString × V)
  | [] => [(key, value)]
  | p :: props =>
    if keyRank key < keyRank p.1 then (key, value) :: p :: props else p :: addProperty key value props

/-- `CreateDataProperty`: a property that exists keeps its place. -/
def setProperty (props : List (JsString × V)) (p : JsString × V) : List (JsString × V) :=
  if p.1 ∈ props.map Prod.fst then props.map fun q => if q.1 = p.1 then p else q
  else addProperty p.1 p.2 props

/-- The properties after members in the order of the text. -/
def properties (members : List (JsString × V)) : List (JsString × V) :=
  members.foldl setProperty []

end

variable {N : Type}

/-! ### Documents -/

mutual

/-- A JSON document, with the blanks between its tokens. -/
inductive Doc
  | null
  | bool (b : Bool)
  | num (n : NumberLit)
  | str (lit : List StrUnit)
  | arr (blank : JsString) (items : Items)
  | obj (blank : JsString) (members : Members)

/-- The items of an array, each with the whitespace around it. -/
inductive Items
  | nil
  | cons (before : JsString) (value : Doc) (after : JsString) (rest : Items)

/-- The members of an object, each with the whitespace around its parts. -/
inductive Members
  | nil
  | cons (before : JsString) (key : List StrUnit) (afterKey beforeValue : JsString) (value : Doc)
      (after : JsString) (rest : Members)

end

def Items.comma : Items → JsString
  | .nil => []
  | .cons .. => [unit ',']

def Members.comma : Members → JsString
  | .nil => []
  | .cons .. => [unit ',']

def boolWord (b : Bool) : JsString :=
  units (if b then ['t', 'r', 'u', 'e'] else ['f', 'a', 'l', 's', 'e'])

def nullWord : JsString := units ['n', 'u', 'l', 'l']

mutual

def Doc.text : Doc → JsString
  | .null => nullWord
  | .bool b => boolWord b
  | .num n => units n.text
  | .str lit => unit '"' :: (literalText lit ++ [unit '"'])
  | .arr blank items => unit '[' :: (blank ++ (items.text ++ [unit ']']))
  | .obj blank members => unit '{' :: (blank ++ (members.text ++ [unit '}']))

def Items.text : Items → JsString
  | .nil => []
  | .cons before value after rest =>
    before ++ (value.text ++ (after ++ (rest.comma ++ rest.text)))

def Members.text : Members → JsString
  | .nil => []
  | .cons before key afterKey beforeValue value after rest =>
    before ++ (unit '"' :: (literalText key ++ (unit '"' :: (afterKey ++ (unit ':' ::
      (beforeValue ++ (value.text ++ (after ++ (rest.comma ++ rest.text)))))))))

end

def isJsonWs (u : UInt16) : Bool := u = 32 ∨ u = 9 ∨ u = 10 ∨ u = 13

def Blank (s : JsString) : Prop := ∀ u ∈ s, isJsonWs u = true

mutual

def Doc.Json : Doc → Prop
  | .null => True
  | .bool _ => True
  | .num n => n.Wf
  | .str lit => ∀ p ∈ lit, p.Wf
  | .arr blank items => Blank blank ∧ items.Json
  | .obj blank members => Blank blank ∧ members.Json

def Items.Json : Items → Prop
  | .nil => True
  | .cons before value after rest => Blank before ∧ value.Json ∧ Blank after ∧ rest.Json

def Members.Json : Members → Prop
  | .nil => True
  | .cons before key afterKey beforeValue value after rest =>
    Blank before ∧ (∀ p ∈ key, p.Wf) ∧ Blank afterKey ∧ Blank beforeValue ∧ value.Json ∧
      Blank after ∧ rest.Json

end

mutual

def Doc.value (E : Numbers N) : Doc → JsValue N
  | .null => .null
  | .bool b => .bool b
  | .num n => .num (E.ofLiteral n)
  | .str lit => .str (literalValue lit)
  | .arr _ items => .arr (items.values E)
  | .obj _ members => .obj (properties (members.values E))

def Items.values (E : Numbers N) : Items → List (JsValue N)
  | .nil => []
  | .cons _ value _ rest => value.value E :: rest.values E

def Members.values (E : Numbers N) : Members → List (JsString × JsValue N)
  | .nil => []
  | .cons _ key _ _ value _ rest => (literalValue key, value.value E) :: rest.values E

end

/-! ### `JSON.parse` -/

def skipWs (s : JsString) : JsString := s.dropWhile isJsonWs

def takeWord (word s : JsString) : Option JsString :=
  if word.isPrefixOf s then some (s.drop word.length) else none

def parseScalar (E : Numbers N) (s : JsString) : Option (JsValue N × JsString) :=
  if s.head? = some (unit 'n') then (takeWord nullWord s).map (JsValue.null, ·)
  else if s.head? = some (unit 't') then (takeWord (boolWord true) s).map (JsValue.bool true, ·)
  else if s.head? = some (unit 'f') then (takeWord (boolWord false) s).map (JsValue.bool false, ·)
  else (takeNumber s).map fun r => (.num (E.ofLiteral r.1), r.2)

mutual

def parseValue (E : Numbers N) : ℕ → JsString → Option (JsValue N × JsString)
  | 0, _ => none
  | _ + 1, [] => none
  | fuel + 1, u :: rest =>
    if u = unit '"' then (readString rest).map fun r => (.str r.1, r.2)
    else if u = unit '[' then
      if (skipWs rest).head? = some (unit ']') then some (.arr [], (skipWs rest).tail)
      else (parseItems E fuel (skipWs rest)).map fun r => (.arr r.1, r.2)
    else if u = unit '{' then
      if (skipWs rest).head? = some (unit '}') then some (.obj [], (skipWs rest).tail)
      else (parseMembers E fuel (skipWs rest)).map fun r => (.obj (properties r.1), r.2)
    else parseScalar E (u :: rest)

/-- The items of an array up to the bracket, from the start of one of them. -/
def parseItems (E : Numbers N) : ℕ → JsString → Option (List (JsValue N) × JsString)
  | 0, _ => none
  | fuel + 1, s => do
    let (value, s) ← parseValue E fuel (skipWs s)
    let s := skipWs s
    if s.head? = some (unit ']') then some ([value], s.tail)
    else if s.head? = some (unit ',') then
      let (values, s) ← parseItems E fuel s.tail
      some (value :: values, s)
    else none

/-- The members of an object up to the brace, from the start of one of them. -/
def parseMembers (E : Numbers N) :
    ℕ → JsString → Option (List (JsString × JsValue N) × JsString)
  | 0, _ => none
  | fuel + 1, s => do
    let s := skipWs s
    if s.head? = some (unit '"') then
      let (key, s) ← readString s.tail
      let s := skipWs s
      if s.head? = some (unit ':') then
        let (value, s) ← parseValue E fuel (skipWs s.tail)
        let s := skipWs s
        if s.head? = some (unit '}') then some ([(key, value)], s.tail)
        else if s.head? = some (unit ',') then
          let (members, s) ← parseMembers E fuel s.tail
          some ((key, value) :: members, s)
        else none
      else none
    else none

end

/-- `JSON.parse`; `none` is a `SyntaxError`. -/
def parse (E : Numbers N) (s : JsString) : Option (JsValue N) := do
  let (value, rest) ← parseValue E s.length (skipWs s)
  if skipWs rest = [] then some value else none

/-! ### Texts are read as their values -/

theorem skipWs_append {blank : JsString} (h : Blank blank) (s : JsString) :
    skipWs (blank ++ s) = skipWs s := dropWhile_append_of_pos h

theorem skipWs_cons (h : isJsonWs u = false) (s : JsString) :
    skipWs (u :: s) = u :: s := dropWhile_cons_of_neg (by rw [h]; exact Bool.false_ne_true)

theorem head_cons (u : UInt16) (s : JsString) : (u :: s).head? = some u := rfl

theorem head_cons_ne {v : UInt16} (h : u ≠ v) (s : JsString) : (u :: s).head? ≠ some v :=
  fun heq => h (Option.some.inj heq)

theorem skipWs_skipWs (s : JsString) : skipWs (skipWs s) = skipWs s := dropWhile_idempotent _ s

theorem continuesNumber_of_ws (h : isJsonWs u = true) : continuesNumber u = false := by
  rw [isJsonWs, decide_eq_true_eq] at h
  rcases h with rfl | rfl | rfl | rfl <;> decide

theorem numberEnds_cons (h : continuesNumber u = false) (s : JsString) : NumberEnds (u :: s) := by
  intro v hv
  rw [← Option.some.inj hv]
  exact h

theorem numberEnds_nil : NumberEnds [] := by
  intro v hv
  contradiction

theorem numberEnds_append {blank : JsString} (h : Blank blank) {s : JsString}
    (hs : NumberEnds s) : NumberEnds (blank ++ s) := by
  cases blank with
  | nil => exact hs
  | cons u blank =>
    exact numberEnds_cons (continuesNumber_of_ws (h u mem_cons_self)) _

def startsValue (u : UInt16) : Bool :=
  !isJsonWs u && u != unit ']' && u != unit '}'

theorem number_head (hn : n.Wf) : ∃ c cs, n.text = c :: cs ∧ (c = '-' ∨ c.isDigit = true) := by
  obtain ⟨c, cs, hint⟩ := exists_cons_of_ne_nil hn.int_ne
  rw [NumberLit.text, hint]
  cases n.minus with
  | true => exact ⟨_, _, rfl, .inl rfl⟩
  | false =>
    exact ⟨_, _, rfl, .inr (hn.int_digits c (by rw [hint]; exact mem_cons_self))⟩

theorem number_unit (h : c = '-' ∨ c.isDigit = true) :
    unit c = 45 ∨ 48 ≤ (unit c).toNat ∧ (unit c).toNat ≤ 57 := by
  rcases h with rfl | h
  · exact .inl rfl
  · rw [toNat_unit_digit h]
    exact .inr (isDigit_bounds h)

theorem startsValue_number (h : c = '-' ∨ c.isDigit = true) :
    startsValue (unit c) = true ∧ unit c ≠ unit '"' ∧ unit c ≠ unit '[' ∧ unit c ≠ unit '{' ∧
      unit c ≠ unit 'n' ∧ unit c ≠ unit 't' ∧ unit c ≠ unit 'f' := by
  rcases number_unit h with heq | hrange
  · rw [heq]
    decide
  · have hne : ∀ v : UInt16, (v.toNat < 48 ∨ 57 < v.toNat) → unit c ≠ v := by
      rintro v hv heq
      rw [heq] at hrange
      omega
    refine ⟨?_, hne _ (by decide), hne _ (by decide), hne _ (by decide), hne _ (by decide),
      hne _ (by decide), hne _ (by decide)⟩
    have hws : isJsonWs (unit c) = false := by
      rw [isJsonWs, decide_eq_false_iff_not]
      rintro (h | h | h | h)
      · exact hne 32 (by decide) h
      · exact hne 9 (by decide) h
      · exact hne 10 (by decide) h
      · exact hne 13 (by decide) h
    have h1 : unit c ≠ unit ']' := hne _ (by decide)
    have h2 : unit c ≠ unit '}' := hne _ (by decide)
    simp [startsValue, hws, h1, h2]

theorem Doc.Json.starts {d : Doc} (h : d.Json) : ∃ u s, d.text = u :: s ∧ startsValue u = true := by
  cases d with
  | null => exact ⟨_, _, rfl, by decide⟩
  | bool b => cases b <;> exact ⟨_, _, rfl, by decide⟩
  | num n =>
    obtain ⟨c, cs, htext, hc⟩ := number_head h
    exact ⟨unit c, units cs, by rw [Doc.text, htext, units_cons], (startsValue_number hc).1⟩
  | str lit => exact ⟨_, _, rfl, by decide⟩
  | arr blank items => exact ⟨_, _, rfl, by decide⟩
  | obj blank members => exact ⟨_, _, rfl, by decide⟩

theorem Doc.Json.skipWs {d : Doc} (h : d.Json) (s : JsString) :
    JsJson.skipWs (d.text ++ s) = d.text ++ s := by
  obtain ⟨u, t, htext, hu⟩ := h.starts
  rw [htext, cons_append]
  apply skipWs_cons
  simp only [startsValue, Bool.and_eq_true, Bool.not_eq_true'] at hu
  exact hu.1.1

theorem Doc.Json.head_ne {d : Doc} (h : d.Json) (s : JsString) :
    (d.text ++ s).head? ≠ some (unit ']') ∧ (d.text ++ s).head? ≠ some (unit '}') := by
  obtain ⟨u, t, htext, hu⟩ := h.starts
  simp only [startsValue, Bool.and_eq_true, bne_iff_ne] at hu
  rw [htext, cons_append]
  exact ⟨fun hs => hu.1.2 (Option.some.inj hs), fun hs => hu.2 (Option.some.inj hs)⟩

theorem Doc.Json.length_pos {d : Doc} (h : d.Json) : 1 ≤ d.text.length := by
  obtain ⟨u, t, htext, -⟩ := h.starts
  rw [htext, length_cons]
  omega

theorem takeWord_append (word s : JsString) : takeWord word (word ++ s) = some s := by
  rw [takeWord, if_pos (List.isPrefixOf_iff_prefix.mpr ⟨s, rfl⟩), drop_left' rfl]

theorem parseScalar_num (E : Numbers N) (hn : n.Wf) (hrest : NumberEnds rest) :
    parseScalar E (units n.text ++ rest) = some (.num (E.ofLiteral n), rest) := by
  have htake := takeNumber_text hn hrest
  obtain ⟨c, cs, htext, hc⟩ := number_head hn
  obtain ⟨-, -, -, -, hnull, htrue, hfalse⟩ := startsValue_number hc
  have hhead : ∀ u, unit c ≠ u → ¬ (units n.text ++ rest).head? = some u := by
    intro u hu heq
    rw [htext] at heq
    exact hu (Option.some.inj heq)
  rw [parseScalar, if_neg (hhead _ hnull), if_neg (hhead _ htrue), if_neg (hhead _ hfalse), htake]
  rfl

theorem parseValue_scalar (E : Numbers N) (fuel : ℕ) (hquote : u ≠ unit '"')
    (hbracket : u ≠ unit '[') (hbrace : u ≠ unit '{') (s : JsString) :
    parseValue E (fuel + 1) (u :: s) = parseScalar E (u :: s) := by
  rw [parseValue, if_neg hquote, if_neg hbracket, if_neg hbrace]

theorem parseItems_skipWs (E : Numbers N) (fuel : ℕ) (s : JsString) :
    parseItems E fuel (JsJson.skipWs s) = parseItems E fuel s := by
  cases fuel with
  | zero => rfl
  | succ fuel => rw [parseItems, parseItems, skipWs_skipWs]

theorem parseMembers_skipWs (E : Numbers N) (fuel : ℕ) (s : JsString) :
    parseMembers E fuel (JsJson.skipWs s) = parseMembers E fuel s := by
  cases fuel with
  | zero => rfl
  | succ fuel => rw [parseMembers, parseMembers, skipWs_skipWs]

mutual

/-- **The text of a document is read as its value.** -/
theorem parseValue_text (E : Numbers N) : ∀ {d : Doc}, d.Json → ∀ {fuel : ℕ},
    d.text.length ≤ fuel → ∀ {rest : JsString}, NumberEnds rest →
      parseValue E fuel (d.text ++ rest) = some (d.value E, rest)
  | d, h, 0, hfuel, rest, hrest => by
    have := h.length_pos
    omega
  | .null, h, fuel + 1, hfuel, rest, hrest => by
    rw [Doc.text, nullWord, units_cons, cons_append,
      parseValue_scalar E fuel (by decide) (by decide) (by decide)]
    refine (if_pos rfl).trans ?_
    rw [← cons_append, ← units_cons, ← nullWord, takeWord_append]
    rfl
  | .bool b, h, fuel + 1, hfuel, rest, hrest => by
    cases b with
    | true =>
      rw [Doc.text, boolWord, if_pos rfl, units_cons, cons_append,
        parseValue_scalar E fuel (by decide) (by decide) (by decide)]
      refine (if_neg (head_units_ne (by decide))).trans ((if_pos rfl).trans ?_)
      have := takeWord_append (boolWord true) rest
      rw [← cons_append, ← units_cons]
      exact congrArg _ this
    | false =>
      rw [Doc.text, boolWord, if_neg Bool.false_ne_true, units_cons, cons_append,
        parseValue_scalar E fuel (by decide) (by decide) (by decide)]
      refine (if_neg (head_units_ne (by decide))).trans
        ((if_neg (head_units_ne (by decide))).trans ((if_pos rfl).trans ?_))
      have := takeWord_append (boolWord false) rest
      rw [← cons_append, ← units_cons]
      exact congrArg _ this
  | .num n, h, fuel + 1, hfuel, rest, hrest => by
    have hscalar := parseScalar_num E h hrest
    obtain ⟨c, cs, htext, hc⟩ := number_head h
    obtain ⟨-, hquote, hbracket, hbrace, -⟩ := startsValue_number hc
    rw [htext, units_cons, cons_append] at hscalar
    rw [Doc.text, htext, units_cons, cons_append,
      parseValue_scalar E fuel hquote hbracket hbrace, hscalar, Doc.value]
  | .str lit, h, fuel + 1, hfuel, rest, hrest => by
    rw [Doc.text, cons_append, append_assoc, singleton_append, parseValue,
      if_pos rfl, readString_literal h]
    rfl
  | .arr blank .nil, h, fuel + 1, hfuel, rest, hrest => by
    rw [Doc.text, Items.text, nil_append, cons_append, append_assoc,
      singleton_append, parseValue, if_neg (by decide), if_pos rfl, skipWs_append h.1,
      skipWs_cons (by decide), if_pos (by rfl)]
    rfl
  | .arr blank (.cons before value after items), h, fuel + 1, hfuel, rest, hrest => by
    obtain ⟨hblank, hitems⟩ := h
    have hlen : (Items.cons before value after items).text.length + 1 ≤ fuel := by
      rw [Doc.text, length_cons, length_append, length_append,
        length_singleton] at hfuel
      omega
    have hparse := @parseItems_text E _ hitems (by rintro ⟨⟩) _ hlen rest
    rw [Doc.text, cons_append, append_assoc, append_assoc, singleton_append,
      parseValue, if_neg (by decide), if_pos rfl, skipWs_append hblank, parseItems_skipWs, hparse,
      if_neg, Doc.value]
    · rfl
    · rw [Items.text, append_assoc, skipWs_append hitems.1, append_assoc,
        hitems.2.1.skipWs]
      exact (hitems.2.1.head_ne _).1
  | .obj blank .nil, h, fuel + 1, hfuel, rest, hrest => by
    rw [Doc.text, Members.text, nil_append, cons_append, append_assoc,
      singleton_append, parseValue, if_neg (by decide), if_neg (by decide), if_pos rfl,
      skipWs_append h.1, skipWs_cons (by decide), if_pos (by rfl)]
    rfl
  | .obj blank (.cons before key afterKey beforeValue value after members), h, fuel + 1, hfuel,
      rest, hrest => by
    obtain ⟨hblank, hmembers⟩ := h
    have hlen : (Members.cons before key afterKey beforeValue value after members).text.length + 1
        ≤ fuel := by
      rw [Doc.text, length_cons, length_append, length_append,
        length_singleton] at hfuel
      omega
    have hparse := @parseMembers_text E _ hmembers (by rintro ⟨⟩) _ hlen rest
    rw [Doc.text, cons_append, append_assoc, append_assoc, singleton_append,
      parseValue, if_neg (by decide), if_neg (by decide), if_pos rfl, skipWs_append hblank,
      parseMembers_skipWs, hparse, if_neg, Doc.value]
    · rfl
    · rw [Members.text, append_assoc, skipWs_append hmembers.1, cons_append,
        skipWs_cons (by decide)]
      exact head_cons_ne (by decide) _

theorem parseItems_text (E : Numbers N) : ∀ {items : Items}, items.Json → items ≠ .nil →
    ∀ {fuel : ℕ}, items.text.length + 1 ≤ fuel → ∀ {rest : JsString},
      parseItems E fuel (items.text ++ unit ']' :: rest) = some (items.values E, rest)
  | _, _, _, 0, hfuel, _ => by omega
  | .nil, _, hne, _ + 1, _, _ => absurd rfl hne
  | .cons before value after .nil, h, _, fuel + 1, hfuel, rest => by
    obtain ⟨hbefore, hvalue, hafter, -⟩ := h
    have hends : NumberEnds (after ++ unit ']' :: rest) :=
      numberEnds_append hafter (numberEnds_cons (by decide) _)
    have hlen : value.text.length ≤ fuel := by
      rw [Items.text, length_append, length_append] at hfuel
      omega
    have hparse := parseValue_text E hvalue hlen hends
    rw [Items.text, Items.comma, Items.text, append_nil, append_nil, append_assoc,
      append_assoc, parseItems, skipWs_append hbefore, hvalue.skipWs, hparse]
    dsimp only [Option.bind_eq_bind, Option.bind_some]
    rw [skipWs_append hafter, skipWs_cons (by decide)]
    exact if_pos rfl
  | .cons before value after (.cons b v a items), h, _, fuel + 1, hfuel, rest => by
    obtain ⟨hbefore, hvalue, hafter, hitems⟩ := h
    have hends : NumberEnds (after ++ unit ',' ::
        ((Items.cons b v a items).text ++ unit ']' :: rest)) :=
      numberEnds_append hafter (numberEnds_cons (by decide) _)
    have hlens : value.text.length ≤ fuel ∧ (Items.cons b v a items).text.length + 1 ≤ fuel := by
      have := hvalue.length_pos
      rw [Items.text, Items.comma, length_append, length_append, length_append,
        length_append, length_singleton] at hfuel
      omega
    have hparse := parseValue_text E hvalue hlens.1 hends
    have hrest := @parseItems_text E _ hitems (by rintro ⟨⟩) _ hlens.2 rest
    rw [Items.text, Items.comma, append_assoc, append_assoc, append_assoc,
      singleton_append, cons_append, parseItems, skipWs_append hbefore, hvalue.skipWs,
      hparse]
    dsimp only [Option.bind_eq_bind, Option.bind_some]
    rw [skipWs_append hafter, skipWs_cons (by decide),
      if_neg (head_cons_ne (by decide) _), if_pos (head_cons _ _), tail_cons, hrest]
    rfl

theorem parseMembers_text (E : Numbers N) : ∀ {members : Members}, members.Json →
    members ≠ .nil → ∀ {fuel : ℕ}, members.text.length + 1 ≤ fuel → ∀ {rest : JsString},
      parseMembers E fuel (members.text ++ unit '}' :: rest) = some (members.values E, rest)
  | _, _, _, 0, hfuel, _ => by omega
  | .nil, _, hne, _ + 1, _, _ => absurd rfl hne
  | .cons before key afterKey beforeValue value after members, h, _, fuel + 1, hfuel, rest => by
    obtain ⟨hbefore, hkey, hafterKey, hbeforeValue, hvalue, hafter, hmembers⟩ := h
    have hlens : value.text.length ≤ fuel ∧
        (members.comma.length + members.text.length) + 1 ≤ fuel := by
      have := hvalue.length_pos
      rw [Members.text] at hfuel
      simp only [length_append, length_cons] at hfuel
      omega
    have hends : NumberEnds (after ++ (members.comma ++ (members.text ++ unit '}' :: rest))) := by
      apply numberEnds_append hafter
      cases members with
      | nil => exact numberEnds_cons (by decide) _
      | cons => exact numberEnds_cons (by decide) _
    have hparse := parseValue_text E hvalue hlens.1 hends
    rw [Members.text]
    simp only [append_assoc, cons_append]
    rw [parseMembers, skipWs_append hbefore, skipWs_cons (by decide)]
    dsimp only [Option.bind_eq_bind]
    rw [if_pos (head_cons _ _), tail_cons, readString_literal hkey]
    dsimp only [Option.bind_some]
    rw [skipWs_append hafterKey, skipWs_cons (by decide), if_pos (head_cons _ _), tail_cons,
      skipWs_append hbeforeValue, hvalue.skipWs, hparse]
    dsimp only [Option.bind_some]
    rw [skipWs_append hafter]
    cases members with
    | nil =>
      rw [Members.comma, Members.text, nil_append, nil_append, skipWs_cons (by decide)]
      exact if_pos rfl
    | cons b k ak bv v a more =>
      have hlen : (Members.cons b k ak bv v a more).text.length + 1 ≤ fuel := by
        have := hlens.2
        omega
      have hrest := @parseMembers_text E _ hmembers (by rintro ⟨⟩) _ hlen rest
      rw [Members.comma, singleton_append, skipWs_cons (by decide),
        if_neg (head_cons_ne (by decide) _), if_pos (head_cons _ _), tail_cons, hrest]
      rfl

end

/-- **`JSON.parse` on a JSON text.** -/
theorem parse_text (E : Numbers N) {d : Doc} (h : d.Json) {lead trail : JsString}
    (hlead : Blank lead) (htrail : Blank trail) :
    parse E (lead ++ (d.text ++ trail)) = some (d.value E) := by
  have hlen : d.text.length ≤ (lead ++ (d.text ++ trail)).length := by
    rw [length_append, length_append]
    omega
  have hends : NumberEnds trail := by
    rw [← append_nil trail]
    exact numberEnds_append htrail numberEnds_nil
  have hend : skipWs trail = [] := by
    rw [← append_nil trail, skipWs_append htrail]
    rfl
  rw [parse, skipWs_append hlead, h.skipWs, parseValue_text E h hlen hends]
  dsimp only [Option.bind_eq_bind, Option.bind_some]
  rw [hend]
  exact if_pos rfl

end JsJson
