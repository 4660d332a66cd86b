/-
What the reader of the private tags returns on JSON (`parser/nip51.rs`).

The text is an array; its arrays are read for their strings, and all other values are
skipped.  Skipping ends behind a value only if the value is skipped whole, and a string
is read as what it denotes only without a `\u` escape.
-/
import Nipworker.Parser.TagArrays

namespace Nipworker

open JsonText BaseJsonParser List Option

/-! ### The strings of an array -/

def stringBy (read : List Piece → List Char) : Doc → Option String
  | .str lit => some (String.ofList (read lit))
  | _ => none

def arrayBy (read : List Piece → List Char) : Doc → Option (List String)
  | .arr _ items => some (items.values.filterMap (stringBy read))
  | _ => none

/-- The arrays of strings among the items: what the strings denote, in order. -/
def stringArrays (items : Items) : List (List String) :=
  items.values.filterMap (arrayBy literalValue)

def readLiteral (lit : List Piece) : List Char := lit.flatMap tagRead

theorem listed_values {items : Items} (h : items.Json) :
    Listed (fun d v => d = v ∧ d.Json) items items.values := by
  induction items using Items.values.induct with
  | case1 => exact .nil
  | case2 before value after rest ih => exact .cons h.1 ⟨rfl, h.2.1⟩ h.2.2.1 (ih h.2.2.2)

theorem Doc.Json.first {d : Doc} (h : d.Json) :
    ∃ c cs, d.text = c :: cs ∧ isAsciiWhitespace c = false ∧ c ≠ ']' ∧
      (c = '"' → ∃ lit, d = .str lit) ∧ (c = '[' → ∃ blank items, d = .arr blank items) := by
  cases d with
  | atom text =>
    obtain ⟨hne, htokens⟩ := IsAtom.tokens h
    obtain ⟨c, cs, rfl⟩ := exists_cons_of_ne_nil hne
    have hc := htokens c mem_cons_self
    refine ⟨c, cs, rfl, ?_, token_ne hc (by decide), fun h => absurd h (token_ne hc (by decide)),
      fun h => absurd h (token_ne hc (by decide))⟩
    cases hws : isAsciiWhitespace c with
    | false => rfl
    | true =>
      rw [isAsciiWhitespace, decide_eq_true_iff] at hws
      rcases hws with rfl | rfl | rfl | rfl | rfl
      all_goals exact absurd hc (by decide)
  | str lit =>
    exact ⟨_, _, rfl, by decide, by decide, fun _ => ⟨lit, rfl⟩, fun h => absurd h (by decide)⟩
  | arr blank items =>
    exact ⟨_, _, rfl, by decide, by decide, fun h => absurd h (by decide),
      fun _ => ⟨blank, items, rfl⟩⟩
  | obj blank members =>
    exact ⟨_, _, rfl, by decide, by decide, fun h => absurd h (by decide),
      fun h => absurd h (by decide)⟩

theorem listed_first {d v : Doc} (h : d = v ∧ d.Json) :
    ∃ c cs, d.text = c :: cs ∧ isAsciiWhitespace c = false ∧ c ≠ ']' := by
  obtain ⟨c, cs, htext, hws, hclose, -⟩ := Doc.Json.first h.2
  exact ⟨c, cs, htext, hws, hclose⟩

theorem head_behind {after : List Char} (hafter : Blank after) (more : Items) (rest : List Char) :
    ∀ c ∈ (after ++ (more.comma ++ (more.text ++ ']' :: rest))).head?, isNumberByte c = false := by
  intro c hc
  cases after with
  | nil =>
    cases more with
    | nil =>
      obtain rfl : ']' = c := some.inj hc
      decide
    | cons before value after' more =>
      obtain rfl : ',' = c := some.inj hc
      decide
  | cons d after =>
    obtain rfl : d = c := some.inj hc
    have hws := hafter d mem_cons_self
    rw [isWs, decide_eq_true_iff] at hws
    rcases hws with rfl | rfl | rfl | rfl
    all_goals decide

theorem behind_ne_nil {after : List Char} (more : Items) (rest : List Char) :
    after ++ (more.comma ++ (more.text ++ ']' :: rest)) ≠ [] := by
  simp

/-! ### The loops -/

theorem filterMap_cons_toList {α β : Type} (f : α → Option β) (a : α) (l : List α) :
    (a :: l).filterMap f = (f a).toList ++ l.filterMap f := by
  rw [filterMap_cons]
  cases f a <;> rfl

theorem stringArray_value {size : ℕ} {v : Doc} (hv : v.Json) (hskip : SkippedWhole v)
    {tail : List Char} (hne : tail ≠ []) (htail : ∀ c ∈ tail.head?, isNumberByte c = false)
    {cs : List Char} (hcs : skipWs cs = v.text ++ tail) (n : ℕ) :
    stringArray size (n + 1) cs =
      (stringArray size n (skipCommaOrEnd tail)).map fun q =>
        ((stringBy readLiteral v).toList ++ q.1, q.2) := by
  obtain ⟨c, rest, htext, -, hclose, hquote, -⟩ := Doc.Json.first hv
  have hfront : skipWs cs = c :: (rest ++ tail) := by rw [hcs, htext, cons_append]
  rw [stringArray_of_skipWs hfront, if_neg hclose, ← cons_append, ← htext]
  by_cases hc : c = '"'
  · obtain ⟨lit, rfl⟩ := hquote hc
    have hread := stringUnescaped_literal size (fun p hp => (hv p hp).closed) tail
    rw [if_pos hc]
    show (stringUnescaped size (quoted (literalText lit) ++ tail) >>= _) = _
    rw [hread]
    show (stringArray size n (skipCommaOrEnd tail) >>= _) = _
    cases stringArray size n (skipCommaOrEnd tail) <;> rfl
  · have hnone : stringBy readLiteral v = none := by
      cases v with
      | str lit => exact absurd (List.cons.inj htext).1.symm hc
      | _ => rfl
    rw [if_neg hc, (skipValue_eq_iff hv hne htail).mpr hskip, hnone]
    show stringArray size n (skipCommaOrEnd tail) = _
    cases stringArray size n (skipCommaOrEnd tail) <;> rfl

/-- The inner loop, item by item. -/
theorem stringArray_items {size : ℕ} {items : Items} {values : List Doc}
    (h : Listed (fun d v => d = v ∧ d.Json) items values)
    (hskip : ∀ v ∈ values, SkippedWhole v) : ∀ (n : ℕ) (gap rest : List Char),
      values.length < n → Blank gap →
        stringArray size n (gap ++ (items.text ++ ']' :: rest)) =
          .ok (values.filterMap (stringBy readLiteral), rest) := by
  refine NostrTags.loop_items (fun values rest => Except.ok (values.filterMap (stringBy readLiteral), rest))
    (fun _ _ h => listed_first h.1) ?_ ?_ (h.and hskip)
  · intro n cs rest hclose
    rw [stringArray_of_skipWs hclose, if_pos rfl]
    rfl
  · rintro d v values after more n cs rest ⟨⟨rfl, hjson⟩, hwhole⟩ hafter hcs hrest
    rw [stringArray_value hjson hwhole (behind_ne_nil more rest) (head_behind hafter more rest) hcs,
      NostrTags.skipCommaOrEnd_items hafter, hrest, filterMap_cons_toList]
    rfl

/-- The values that are skipped, among the items and inside their arrays, are skipped
whole. -/
def SkipsWhole (values : List Doc) : Prop :=
  ∀ v ∈ values, match v with
    | .arr _ items => ∀ w ∈ items.values, SkippedWhole w
    | v => SkippedWhole v

theorem tagArraysLoop_value {size : ℕ} {v : Doc} (hv : v.Json)
    (hskip : SkipsWhole [v]) {tail : List Char} (hne : tail ≠ [])
    (htail : ∀ c ∈ tail.head?, isNumberByte c = false) {cs : List Char}
    (hcs : skipWs cs = v.text ++ tail) (n : ℕ) :
    tagArraysLoop size (n + 1) cs =
      (tagArraysLoop size n (skipCommaOrEnd tail)).map ((arrayBy readLiteral v).toList ++ ·) := by
  have hskip := hskip v (List.mem_singleton.mpr rfl)
  obtain ⟨c, rest, htext, -, hclose, -, hopen⟩ := Doc.Json.first hv
  have hfront : skipWs cs = c :: (rest ++ tail) := by rw [hcs, htext, cons_append]
  rw [tagArraysLoop_of_skipWs hfront, if_neg hclose]
  by_cases hc : c = '['
  · obtain ⟨blank, items, rfl⟩ := hopen hc
    have hinner : rest ++ tail = blank ++ (items.text ++ ']' :: tail) := by
      rw [← (List.cons.inj htext).2]
      simp
    have hlisted := listed_values hv.2
    have hlen := NostrTags.length_lt_of_listed (fun _ _ => listed_first) hlisted blank tail
    have hread : stringArray size ((rest ++ tail).length + 1) (rest ++ tail) =
        .ok (items.values.filterMap (stringBy readLiteral), tail) := by
      rw [hinner]
      exact stringArray_items hlisted hskip _ blank tail (Nat.lt_succ_of_lt hlen) hv.1
    rw [if_pos hc, hread]
    show (tagArraysLoop size n (skipCommaOrEnd tail) >>= _) = _
    cases tagArraysLoop size n (skipCommaOrEnd tail) <;> rfl
  · have hnone : arrayBy readLiteral v = none := by
      cases v with
      | arr blank items => exact absurd (List.cons.inj htext).1.symm hc
      | _ => rfl
    have hwhole : SkippedWhole v := by
      cases v with
      | arr blank items => exact absurd (List.cons.inj htext).1.symm hc
      | _ => exact hskip
    rw [if_neg hc, ← cons_append, ← htext, (skipValue_eq_iff hv hne htail).mpr hwhole, hnone]
    show tagArraysLoop size n (skipCommaOrEnd tail) = _
    cases tagArraysLoop size n (skipCommaOrEnd tail) <;> rfl

/-- The outer loop, item by item. -/
theorem tagArraysLoop_items {size : ℕ} {items : Items} {values : List Doc}
    (h : Listed (fun d v => d = v ∧ d.Json) items values) (hskip : SkipsWhole values) :
    ∀ (n : ℕ) (gap rest : List Char), values.length < n → Blank gap →
      tagArraysLoop size n (gap ++ (items.text ++ ']' :: rest)) =
        .ok (values.filterMap (arrayBy readLiteral)) := by
  refine NostrTags.loop_items (fun values _ => Except.ok (values.filterMap (arrayBy readLiteral)))
    (fun _ _ h => listed_first h.1) ?_ ?_ (h.and hskip)
  · intro n cs rest hclose
    rw [tagArraysLoop_of_skipWs hclose, if_pos rfl]
    rfl
  · rintro d v values after more n cs rest ⟨⟨rfl, hjson⟩, hvalue⟩ hafter hcs hrest
    rw [tagArraysLoop_value hjson (by simpa [SkipsWhole] using hvalue) (behind_ne_nil more rest)
      (head_behind hafter more rest) hcs, NostrTags.skipCommaOrEnd_items hafter, hrest,
      filterMap_cons_toList]
    rfl

/-- The arrays of strings that are returned. -/
theorem tagArrays_arr {lead blank : List Char} {items : Items} (hlead : Blank lead)
    (hjson : (Doc.arr blank items).Json) (hskip : SkipsWhole items.values) (trail : List Char) :
    tagArrays (String.ofList (lead ++ ((Doc.arr blank items).text ++ trail))) =
      .ok (items.values.filterMap (arrayBy readLiteral)) := by
  have hlisted := listed_values hjson.2
  have hlen := NostrTags.length_lt_of_listed (fun _ _ => listed_first) hlisted blank trail
  have htext : lead ++ ((Doc.arr blank items).text ++ trail) =
      lead ++ '[' :: (blank ++ (items.text ++ ']' :: trail)) := by simp [Doc.text]
  have hopen : skipWs (lead ++ '[' :: (blank ++ (items.text ++ ']' :: trail))) =
      '[' :: (blank ++ (items.text ++ ']' :: trail)) := skipWs_append hlead (by decide) _
  rw [tagArrays, String.toList_ofList, htext, hopen, expect_eq_ok.mpr rfl]
  exact tagArraysLoop_items hlisted hskip _ blank trail (Nat.lt_succ_of_lt hlen) hjson.1

/-! ### What is returned -/

theorem filterMap_eq_iff {α β : Type} {f g : α → Option β}
    (hsome : ∀ a, (f a).isSome = (g a).isSome) (l : List α) :
    l.filterMap f = l.filterMap g ↔ ∀ a ∈ l, f a = g a := by
  induction l with
  | nil => exact iff_of_true rfl fun a ha => absurd ha not_mem_nil
  | cons a l ih =>
    rw [forall_mem_cons, ← ih, filterMap_cons_toList, filterMap_cons_toList]
    have ha := hsome a
    cases hf : f a with
    | none =>
      rw [hf] at ha
      have hg : g a = none := Option.not_isSome_iff_eq_none.mp (ha ▸ Bool.false_ne_true)
      rw [hg]
      simp
    | some b =>
      rw [hf] at ha
      obtain ⟨b', hg⟩ := Option.isSome_iff_exists.mp ha.symm
      rw [hg]
      simp

/-- The strings of the inner arrays are written without `\u` escapes. -/
def NoUnicodeEscapes (items : Items) : Prop :=
  ∀ blank inner, Doc.arr blank inner ∈ items.values → ∀ lit, Doc.str lit ∈ inner.values →
    ∀ p ∈ lit, KnownInTag p

theorem strings_eq_iff (values : List Doc) :
    values.filterMap (stringBy readLiteral) = values.filterMap (stringBy literalValue) ↔
      ∀ lit, Doc.str lit ∈ values → ∀ p ∈ lit, KnownInTag p := by
  rw [filterMap_eq_iff fun d => by cases d <;> rfl]
  constructor
  · intro h lit hlit
    have hread := String.ofList_injective (some.inj (h _ hlit))
    exact (tagRead_iff lit).mp hread
  · intro h d hd
    cases d with
    | str lit => exact congrArg (fun cs => some (String.ofList cs)) ((tagRead_iff lit).mpr (h lit hd))
    | _ => rfl

theorem stringArrays_eq_iff (items : Items) :
    items.values.filterMap (arrayBy readLiteral) = stringArrays items ↔ NoUnicodeEscapes items := by
  rw [stringArrays, filterMap_eq_iff fun d => by cases d <;> rfl]
  constructor
  · intro h blank inner hinner
    exact (strings_eq_iff inner.values).mp (some.inj (h _ hinner))
  · intro h d hd
    cases d with
    | arr blank inner => exact congrArg some ((strings_eq_iff inner.values).mpr (h blank inner hd))
    | _ => rfl

/-- **Private tags.**  The reader comes back from every text that does not lead it to a
byte it does not get over; and from an array whose other values are skipped whole it
returns the arrays of strings exactly if no string has a `\u` escape. -/
theorem tagArrays_exact_iff (json : String) (lead blank trail : List Char) (items : Items) :
    (Returns (tagArrays json) ↔ ¬ StandsStill json.toList) ∧
      (Blank lead → (Doc.arr blank items).Json → SkipsWhole items.values →
        (tagArrays (String.ofList (lead ++ ((Doc.arr blank items).text ++ trail))) =
          .ok (stringArrays items) ↔ NoUnicodeEscapes items)) := by
  refine ⟨tagArrays_returns_iff json, fun hlead hjson hskip => ?_⟩
  rw [tagArrays_arr hlead hjson hskip trail, Except.ok.injEq]
  exact stringArrays_eq_iff items

/-- The items of `[["a",true],null]`. -/
def tagAndNull : Items :=
  compactItems [.arr [] (compactItems [compactString "a", .atom ['t', 'r', 'u', 'e']]),
    .atom ['n', 'u', 'l', 'l']]

theorem tagArrays_exact_iff_tagAndNull :
    tagArrays (String.ofList ([] ++ ((Doc.arr [] tagAndNull).text ++ []))) =
      .ok (stringArrays tagAndNull) ↔ NoUnicodeEscapes tagAndNull := by
  have hjson : (Doc.arr [] tagAndNull).Json := by
    refine ⟨blank_nil, blank_nil, ⟨blank_nil, blank_nil, ?_, blank_nil, blank_nil, .inl rfl,
      blank_nil, trivial⟩, blank_nil, blank_nil, .inr (.inr (.inl rfl)), blank_nil, trivial⟩
    exact wf_compactString (by decide)
  refine (tagArrays_exact_iff "" [] [] [] tagAndNull).2 blank_nil hjson fun v hv => ?_
  rcases List.mem_cons.mp hv with rfl | hv
  · intro w hw
    rcases List.mem_cons.mp hw with rfl | hw
    · trivial
    · rw [List.mem_singleton.mp hw]
      exact .inl rfl
  · rw [List.mem_singleton.mp hv]
    exact .inr (.inr (.inl rfl))

/-- An exponent in an array of strings. -/
theorem exponent_standsStill : ¬ ∀ json : String, Returns (tagArrays json) := by
  intro h
  have hhang : tagArrays "[[1e5]]" = .error .hang := by decide
  exact (h "[[1e5]]").2 hhang

end Nipworker
