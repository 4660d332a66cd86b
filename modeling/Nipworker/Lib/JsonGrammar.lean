/-
The grammar of JSON, over documents as they are written.

`Doc.Wf` leaves open what the tokens without quotes are; here they are numbers, booleans
and `null`.
-/
import Nipworker.Lib.JsonDoc

namespace JsonText

open List

/-- A number, a boolean or `null`. -/
def IsAtom (text : List Char) : Prop :=
  text = ['t', 'r', 'u', 'e'] ∨ text = ['f', 'a', 'l', 's', 'e'] ∨ text = ['n', 'u', 'l', 'l'] ∨
    ∃ n : NumberLit, n.Wf ∧ text = n.text

mutual

/-- The document is JSON. -/
def Doc.Json : Doc → Prop
  | .atom text => IsAtom text
  | .str lit => ∀ p ∈ lit, p.Wf
  | .arr blank items => Blank blank ∧ items.Json
  | .obj blank members => Blank blank ∧ members.Json

def Items.Json : Items → Prop
  | .nil => True
  | .cons before value after rest => Blank before ∧ value.Json ∧ Blank after ∧ rest.Json

def Members.Json : Members → Prop
  | .nil => True
  | .cons before key afterKey beforeValue value after rest =>
    Blank before ∧ (∀ p ∈ key, p.Wf) ∧ Blank afterKey ∧ Blank beforeValue ∧ value.Json ∧
      Blank after ∧ rest.Json

end

def Doc.isString : Doc → Bool
  | .str _ => true
  | _ => false

/-- The elements of an array. -/
def Items.values : Items → List Doc
  | .nil => []
  | .cons _ value _ rest => value :: rest.values

/-! ### The characters of atoms -/

def wordChars : List Char :=
  ['+', '-', '.', 'e', 'E', 't', 'r', 'u', 'f', 'a', 'l', 's', 'n']

/-- A character of a number, a boolean or `null`. -/
def isTokenChar (c : Char) : Bool := c.isDigit || wordChars.contains c

theorem token_ne {c d : Char} (hc : isTokenChar c = true) (hd : isTokenChar d = false) : c ≠ d := by
  rintro rfl
  rw [hc] at hd
  contradiction

theorem token_of_digit {c : Char} (h : c.isDigit = true) : isTokenChar c = true := by
  rw [isTokenChar, h, Bool.true_or]

theorem tokens_word {cs : List Char} (h : cs.all wordChars.contains = true) :
    ∀ c ∈ cs, isTokenChar c = true := by
  intro c hc
  rw [isTokenChar, List.all_eq_true.mp h c hc, Bool.or_true]

theorem NumberLit.Wf.tokens {n : NumberLit} (h : n.Wf) :
    n.text ≠ [] ∧ ∀ c ∈ n.text, isTokenChar c = true := by
  constructor
  · intro hnil
    rw [NumberLit.text, append_eq_nil_iff, append_eq_nil_iff] at hnil
    exact h.int_ne hnil.2.1
  · intro c hc
    rw [NumberLit.text, mem_append, mem_append, mem_append] at hc
    rcases hc with hminus | hint | hfrac | hexp
    · cases hm : n.minus with
      | false =>
        rw [hm] at hminus
        contradiction
      | true =>
        rw [hm] at hminus
        rw [List.mem_singleton.mp hminus]
        decide
    · exact token_of_digit (h.int_digits c hint)
    · rw [NumberLit.fracText] at hfrac
      by_cases hnil : n.frac = []
      · rw [if_pos hnil] at hfrac
        contradiction
      · rw [if_neg hnil] at hfrac
        rcases List.mem_cons.mp hfrac with rfl | hdigit
        · decide
        · exact token_of_digit (h.frac_digits c hdigit)
    · rw [NumberLit.expText] at hexp
      cases he : n.exp with
      | none =>
        rw [he] at hexp
        contradiction
      | some e =>
        obtain ⟨letter, sign, digits⟩ := e
        obtain ⟨hletter, hsign, -, hdigits⟩ := h.exp_letter _ he
        rw [he] at hexp
        dsimp only at hletter hsign hdigits hexp
        rcases List.mem_cons.mp hexp with rfl | hrest
        · rcases hletter with rfl | rfl <;> decide
        · rcases List.mem_append.mp hrest with hs | hd
          · rcases hsign with rfl | rfl | rfl
            · contradiction
            · rw [List.mem_singleton.mp hs]
              decide
            · rw [List.mem_singleton.mp hs]
              decide
          · exact token_of_digit (hdigits c hd)

theorem IsAtom.tokens {text : List Char} (h : IsAtom text) :
    text ≠ [] ∧ ∀ c ∈ text, isTokenChar c = true := by
  rcases h with rfl | rfl | rfl | ⟨n, hn, rfl⟩
  · exact ⟨cons_ne_nil _ _, tokens_word rfl⟩
  · exact ⟨cons_ne_nil _ _, tokens_word rfl⟩
  · exact ⟨cons_ne_nil _ _, tokens_word rfl⟩
  · exact hn.tokens

theorem isAtomChar_of_token {c : Char} (h : isTokenChar c = true) : isAtomChar c = true := by
  have hne : ∀ d, isTokenChar d = false → (c == d) = false := fun d hd =>
    beq_eq_false_iff_ne.mpr (token_ne h hd)
  have hws : isWs c = false := by
    rw [isWs, decide_eq_false_iff_not]
    rintro (rfl | rfl | rfl | rfl) <;> exact absurd h (by decide)
  rw [isAtomChar, hws, hne '"' (by decide), hne '{' (by decide), hne '}' (by decide),
    hne '[' (by decide), hne ']' (by decide), hne ',' (by decide), hne ':' (by decide)]
  rfl

mutual

/-- JSON is well formed. -/
theorem Doc.Json.wf : ∀ {d : Doc}, d.Json → d.Wf
  | .atom _, h => ⟨(IsAtom.tokens h).1, fun c hc => isAtomChar_of_token ((IsAtom.tokens h).2 c hc)⟩
  | .str _, h => h
  | .arr _ _, h => ⟨h.1, Items.Json.wf h.2⟩
  | .obj _ _, h => ⟨h.1, Members.Json.wf h.2⟩

theorem Items.Json.wf : ∀ {l : Items}, l.Json → l.Wf
  | .nil, _ => trivial
  | .cons _ _ _ _, h => ⟨h.1, Doc.Json.wf h.2.1, h.2.2.1, Items.Json.wf h.2.2.2⟩

theorem Members.Json.wf : ∀ {l : Members}, l.Json → l.Wf
  | .nil, _ => trivial
  | .cons _ _ _ _ _ _ _, h =>
    ⟨h.1, h.2.1, h.2.2.1, h.2.2.2.1, Doc.Json.wf h.2.2.2.2.1, h.2.2.2.2.2.1,
      Members.Json.wf h.2.2.2.2.2.2⟩

end

end JsonText
