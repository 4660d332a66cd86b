/-
JSON documents as they are written.

A `Doc` is a JSON value together with its layout: the whitespace between its
parts and the way its strings are escaped.  `Doc.text` writes it down, so every
text of a value is the text of some document, whatever its layout and the order
of its members.

Numbers, booleans and `null` are kept as text; a `NumberLit` is the text of a
number.
-/
import Nipworker.Lib.JsonText

namespace JsonText

open List

mutual

/-- A document of atoms, strings, arrays and objects, with its blanks. -/
inductive Doc
  | atom (text : List Char)
  | str (lit : List Piece)
  | arr (blank : List Char) (items : Items)
  | obj (blank : List Char) (members : Members)

/-- The items of an array, each with the whitespace around it. -/
inductive Items
  | nil
  | cons (before : List Char) (value : Doc) (after : List Char) (rest : Items)

/-- The members of an object, each with the whitespace around its parts. -/
inductive Members
  | nil
  | cons (before : List Char) (key : List Piece) (afterKey beforeValue : List Char) (value : Doc)
      (after : List Char) (rest : Members)

end

def Items.comma : Items → List Char
  | .nil => []
  | .cons .. => [',']

def Members.comma : Members → List Char
  | .nil => []
  | .cons .. => [',']

mutual

def Doc.text : Doc → List Char
  | .atom text => text
  | .str lit => '"' :: (literalText lit ++ ['"'])
  | .arr blank items => '[' :: (blank ++ (items.text ++ [']']))
  | .obj blank members => '{' :: (blank ++ (members.text ++ ['}']))

def Items.text : Items → List Char
  | .nil => []
  | .cons before value after rest =>
    before ++ (value.text ++ (after ++ (rest.comma ++ rest.text)))

def Members.text : Members → List Char
  | .nil => []
  | .cons before key afterKey beforeValue value after rest =>
    before ++ ('"' :: (literalText key ++ ('"' :: (afterKey ++ (':' :: (beforeValue ++
      (value.text ++ (after ++ (rest.comma ++ rest.text)))))))))

end

def Blank (cs : List Char) : Prop := ∀ c ∈ cs, isWs c = true

/-- A character of a number, a boolean or a `null`. -/
def isAtomChar (c : Char) : Bool :=
  !(isWs c || c == '"' || c == '{' || c == '}' || c == '[' || c == ']' || c == ',' || c == ':')

mutual

/-- Whitespace is whitespace, literals are well formed, atoms are no other
token. -/
def Doc.Wf : Doc → Prop
  | .atom text => text ≠ [] ∧ ∀ c ∈ text, isAtomChar c = true
  | .str lit => ∀ p ∈ lit, p.Wf
  | .arr blank items => Blank blank ∧ items.Wf
  | .obj blank members => Blank blank ∧ members.Wf

def Items.Wf : Items → Prop
  | .nil => True
  | .cons before value after rest => Blank before ∧ value.Wf ∧ Blank after ∧ rest.Wf

def Members.Wf : Members → Prop
  | .nil => True
  | .cons before key afterKey beforeValue value after rest =>
    Blank before ∧ (∀ p ∈ key, p.Wf) ∧ Blank afterKey ∧ Blank beforeValue ∧ value.Wf ∧
      Blank after ∧ rest.Wf

end

def Members.valuesOf (key : List Char) : Members → List Doc
  | .nil => []
  | .cons _ lit _ _ value _ rest =>
    if literalValue lit = key then value :: rest.valuesOf key else rest.valuesOf key

/-! ### Arrays -/

/-- The items of an array stand for values, one for each. -/
inductive Listed {α : Type} (R : Doc → α → Prop) : Items → List α → Prop
  | nil : Listed R .nil []
  | cons {before after : List Char} {value : Doc} {rest : Items} {a : α} {as : List α} :
      Blank before → R value a → Blank after → Listed R rest as →
        Listed R (.cons before value after rest) (a :: as)

theorem Listed.and {α : Type} {R : Doc → α → Prop} {P : α → Prop} {items : Items} {as : List α}
    (h : Listed R items as) (hP : ∀ a ∈ as, P a) : Listed (fun d a => R d a ∧ P a) items as := by
  induction h with
  | nil => exact .nil
  | cons hbefore ha hafter _ ih =>
    exact .cons hbefore ⟨ha, hP _ mem_cons_self⟩ hafter
      (ih fun a hmem => hP a (mem_cons_of_mem _ hmem))

def IsString (d : Doc) (lit : List Piece) : Prop := d = .str lit ∧ ∀ p ∈ lit, p.Closed

def IsTag (d : Doc) (lits : List (List Piece)) : Prop :=
  ∃ blank items, d = .arr blank items ∧ Blank blank ∧ Listed IsString items lits

def IsTags (d : Doc) (tags : List (List (List Piece))) : Prop :=
  ∃ blank items, d = .arr blank items ∧ Blank blank ∧ Listed IsTag items tags

/-! ### Numbers -/

/-- A number, as it is written. -/
structure NumberLit where
  minus : Bool
  int : List Char
  frac : List Char
  exp : Option (Char × List Char × List Char)

namespace NumberLit

def fracText (n : NumberLit) : List Char := if n.frac = [] then [] else '.' :: n.frac

def expText (n : NumberLit) : List Char :=
  match n.exp with
  | none => []
  | some (letter, sign, digits) => letter :: (sign ++ digits)

def text (n : NumberLit) : List Char :=
  (if n.minus then ['-'] else []) ++ (n.int ++ (n.fracText ++ n.expText))

structure Wf (n : NumberLit) : Prop where
  int_ne : n.int ≠ []
  int_digits : ∀ c ∈ n.int, c.isDigit = true
  int_zero : n.int.head? = some '0' → n.int = ['0']
  frac_digits : ∀ c ∈ n.frac, c.isDigit = true
  exp_letter : ∀ e ∈ n.exp, (e.1 = 'e' ∨ e.1 = 'E') ∧ (e.2.1 = [] ∨ e.2.1 = ['+'] ∨ e.2.1 = ['-']) ∧
    e.2.2 ≠ [] ∧ ∀ c ∈ e.2.2, c.isDigit = true

def intValue (n : NumberLit) : ℕ := Nat.ofDigitChars 10 n.int 0

def scale (n : NumberLit) : ℤ :=
  match n.exp with
  | none => 0
  | some (_, sign, digits) =>
    if sign = ['-'] then -(Nat.ofDigitChars 10 digits 0 : ℤ) else Nat.ofDigitChars 10 digits 0

def value (n : NumberLit) : ℚ :=
  (if n.minus then -1 else 1) *
    (n.intValue + (Nat.ofDigitChars 10 n.frac 0 : ℚ) / 10 ^ n.frac.length) * 10 ^ n.scale

end NumberLit

def NumberLit.plain (n : ℕ) : NumberLit := ⟨false, Nat.toDigits 10 n, [], none⟩

/-! ### Without whitespace and escapes -/

def plainLiteral (cs : List Char) : List Piece := cs.map Piece.plain

theorem literalText_plainLiteral (cs : List Char) : literalText (plainLiteral cs) = cs := by
  induction cs with
  | nil => rfl
  | cons c cs ih => exact congrArg (c :: ·) ih

theorem literalValue_plainLiteral (cs : List Char) : literalValue (plainLiteral cs) = cs := by
  rw [literalValue, plainLiteral, map_map]
  exact map_id _

theorem plain_plainLiteral (cs : List Char) : Plain (plainLiteral cs) := by
  intro p hp
  obtain ⟨c, -, rfl⟩ := List.mem_map.mp hp
  rfl

def needsNoEscape (c : Char) : Bool := c ≠ '"' ∧ c ≠ '\\' ∧ 0x20 ≤ c.toNat

theorem wf_plainLiteral {cs : List Char} (h : cs.all needsNoEscape = true) :
    ∀ p ∈ plainLiteral cs, p.Wf := by
  intro p hp
  obtain ⟨c, hc, rfl⟩ := List.mem_map.mp hp
  have := List.all_eq_true.mp h c hc
  simpa [needsNoEscape, Piece.Wf] using this

theorem blank_nil : Blank [] := by
  intro c hc
  cases hc

def compactItems : List Doc → Items
  | [] => .nil
  | d :: ds => .cons [] d [] (compactItems ds)

theorem text_compactItems (ds : List Doc) :
    (compactItems ds).text = [','].intercalate (ds.map Doc.text) := by
  induction ds with
  | nil => rfl
  | cons d ds ih =>
    cases ds with
    | nil => simp [compactItems, Items.text, Items.comma]
    | cons e ds =>
      rw [map_cons, map_cons, intercalate_cons_cons, ← map_cons, ← ih]
      simp [compactItems, Items.text, Items.comma]

theorem listed_compactItems {α β : Type} {R : Doc → α → Prop} {f : β → Doc} {g : β → α}
    (h : ∀ b, R (f b) (g b)) (bs : List β) : Listed R (compactItems (bs.map f)) (bs.map g) := by
  induction bs with
  | nil => exact .nil
  | cons b bs ih => exact .cons blank_nil (h b) blank_nil ih

def compactMember (key : String) (value : Doc) (rest : Members) : Members :=
  .cons [] (plainLiteral key.toList) [] [] value [] rest

def compactString (text : String) : Doc := .str (plainLiteral text.toList)

theorem wf_compactMember {key : String} {value : Doc} {rest : Members}
    (hkey : key.toList.all needsNoEscape = true) (hvalue : value.Wf) (hrest : rest.Wf) :
    (compactMember key value rest).Wf :=
  ⟨blank_nil, wf_plainLiteral hkey, blank_nil, blank_nil, hvalue, blank_nil, hrest⟩

theorem wf_compactString {text : String} (h : text.toList.all needsNoEscape = true) :
    (compactString text).Wf := wf_plainLiteral h

theorem wf_atom_one : (Doc.atom ['1']).Wf := by
  refine ⟨cons_ne_nil _ _, fun c hc => ?_⟩
  rw [List.mem_singleton.mp hc]
  decide

end JsonText
