/-
`JSON.stringify` on the values that `JSON.parse` returns.
-/
import Nipworker.Lib.JsJson

namespace JsJson

open Js List
open JsonText (NumberLit ShortEscape)

variable {N : Type}

/-! ### Writing -/

def hexLower (u : UInt16) : UInt16 := if u < 10 then 48 + u else 87 + u

/-- The `\u` escape for a code unit. -/
def unicodeEscape (u : UInt16) : StrUnit :=
  .unicode (hexLower (u / 4096)) (hexLower (u / 256 % 16)) (hexLower (u / 16 % 16))
    (hexLower (u % 16))

/-- How `QuoteJSONString` writes a code unit outside the surrogates. -/
def quoteUnit (u : UInt16) : StrUnit :=
  if u = 8 then .short .backspace
  else if u = 9 then .short .tab
  else if u = 10 then .short .newline
  else if u = 12 then .short .formFeed
  else if u = 13 then .short .carriageReturn
  else if u = unit '"' then .short .quote
  else if u = unit '\\' then .short .backslash
  else if u < 32 then unicodeEscape u
  else .plain u

/-- `QuoteJSONString`: halves of a pair that stand alone are escaped. -/
def quoted : JsString → List StrUnit
  | [] => []
  | [u] => if isLead u || isTrail u then [unicodeEscape u] else [quoteUnit u]
  | u :: v :: rest =>
    if isLead u && isTrail v then .plain u :: .plain v :: quoted rest
    else if isLead u || isTrail u then unicodeEscape u :: quoted (v :: rest)
    else quoteUnit u :: quoted (v :: rest)

mutual

/-- The document that is written for a value: numbers that are not finite become null. -/
def written (E : Numbers N) : JsValue N → Doc
  | .null => .null
  | .bool b => .bool b
  | .num n => if E.isFinite n then .num (E.toLiteral n) else .null
  | .str s => .str (quoted s)
  | .arr items => .arr [] (writtenItems E items)
  | .obj props => .obj [] (writtenMembers E props)

def writtenItems (E : Numbers N) : List (JsValue N) → Items
  | [] => .nil
  | value :: rest => .cons [] (written E value) [] (writtenItems E rest)

def writtenMembers (E : Numbers N) : List (JsString × JsValue N) → Members
  | [] => .nil
  | (key, value) :: rest => .cons [] (quoted key) [] [] (written E value) [] (writtenMembers E rest)

end

/-- `JSON.stringify`. -/
def stringify (E : Numbers N) (value : JsValue N) : JsString := (written E value).text

/-! ### Strings are read back -/

theorem hexUnit_hexLower {u : UInt16} (h : u < 16) : hexUnit (hexLower u) = some u := by
  have hall : ∀ n < 16, hexUnit (hexLower (UInt16.ofNat n)) = some (UInt16.ofNat n) := by decide
  have := hall u.toNat (UInt16.lt_iff_toNat_lt.mp h)
  rwa [UInt16.ofNat_toNat] at this

theorem unicodeEscape_spec (u : UInt16) : (unicodeEscape u).Wf ∧ (unicodeEscape u).value = u := by
  have hlt : u.toNat < 65536 := u.toNat_lt
  have h1 : u / 4096 < 16 := by
    rw [UInt16.lt_iff_toNat_lt, UInt16.toNat_div]
    show u.toNat / 4096 < 16
    omega
  have hmod : ∀ v : UInt16, v % 16 < 16 := fun v => UInt16.mod_lt v (by decide)
  have hhex : hex4 (hexLower (u / 4096)) (hexLower (u / 256 % 16)) (hexLower (u / 16 % 16))
      (hexLower (u % 16)) = some u := by
    rw [hex4, hexUnit_hexLower h1, hexUnit_hexLower (hmod _), hexUnit_hexLower (hmod _),
      hexUnit_hexLower (hmod _)]
    refine congrArg some (UInt16.toNat_inj.mp ?_)
    simp only [UInt16.toNat_add, UInt16.toNat_mul, UInt16.toNat_div, UInt16.toNat_mod,
      UInt16.reduceToNat]
    omega
  constructor
  · show (hex4 _ _ _ _).isSome = true
    rw [hhex]
    rfl
  · show (hex4 _ _ _ _).getD 0 = u
    rw [hhex]
    rfl

theorem quoteUnit_spec (u : UInt16) : (quoteUnit u).Wf ∧ (quoteUnit u).value = u := by
  rw [quoteUnit]
  by_cases h8 : u = 8
  · rw [if_pos h8, h8]
    exact ⟨trivial, by decide⟩
  rw [if_neg h8]
  by_cases h9 : u = 9
  · rw [if_pos h9, h9]
    exact ⟨trivial, by decide⟩
  rw [if_neg h9]
  by_cases h10 : u = 10
  · rw [if_pos h10, h10]
    exact ⟨trivial, by decide⟩
  rw [if_neg h10]
  by_cases h12 : u = 12
  · rw [if_pos h12, h12]
    exact ⟨trivial, by decide⟩
  rw [if_neg h12]
  by_cases h13 : u = 13
  · rw [if_pos h13, h13]
    exact ⟨trivial, by decide⟩
  rw [if_neg h13]
  by_cases hquote : u = unit '"'
  · rw [if_pos hquote, hquote]
    exact ⟨trivial, rfl⟩
  rw [if_neg hquote]
  by_cases hback : u = unit '\\'
  · rw [if_pos hback, hback]
    exact ⟨trivial, rfl⟩
  rw [if_neg hback]
  by_cases hlow : u < 32
  · rw [if_pos hlow]
    exact unicodeEscape_spec u
  · rw [if_neg hlow]
    exact ⟨⟨hquote, hback, UInt16.not_lt.mp hlow⟩, rfl⟩

theorem plain_surrogate {u : UInt16} (h : isLead u = true ∨ isTrail u = true) :
    (StrUnit.plain u).Wf := by
  have hge : 0xD800 ≤ u.toNat := by
    simp only [isLead, isTrail, decide_eq_true_eq, UInt16.le_iff_toNat_le,
      UInt16.lt_iff_toNat_lt, UInt16.reduceToNat] at h
    omega
  refine ⟨?_, ?_, UInt16.le_iff_toNat_le.mpr ?_⟩
  · rintro rfl
    exact absurd hge (by decide)
  · rintro rfl
    exact absurd hge (by decide)
  · show 32 ≤ u.toNat
    omega

/-- **A string is read back** from its quoted form. -/
theorem quoted_spec (s : JsString) : (∀ p ∈ quoted s, p.Wf) ∧ literalValue (quoted s) = s := by
  induction s using quoted.induct with
  | case1 => exact ⟨fun p hp => absurd hp not_mem_nil, rfl⟩
  | case2 u hsurrogate =>
    rw [quoted, if_pos hsurrogate]
    refine ⟨fun p hp => ?_, ?_⟩
    · rw [List.mem_singleton.mp hp]
      exact (unicodeEscape_spec u).1
    · exact congrArg (· :: []) (unicodeEscape_spec u).2
  | case3 u hsurrogate =>
    rw [quoted, if_neg hsurrogate]
    refine ⟨fun p hp => ?_, ?_⟩
    · rw [List.mem_singleton.mp hp]
      exact (quoteUnit_spec u).1
    · exact congrArg (· :: []) (quoteUnit_spec u).2
  | case4 u v rest hpair ih =>
    rw [quoted, if_pos hpair]
    rw [Bool.and_eq_true] at hpair
    refine ⟨fun p hp => ?_, ?_⟩
    · rcases List.mem_cons.mp hp with rfl | hp
      · exact plain_surrogate (.inl hpair.1)
      · rcases List.mem_cons.mp hp with rfl | hp
        · exact plain_surrogate (.inr hpair.2)
        · exact ih.1 p hp
    · rw [literalValue_cons, literalValue_cons, ih.2]
      rfl
  | case5 u v rest hpair hsurrogate ih =>
    rw [quoted, if_neg hpair, if_pos hsurrogate]
    refine ⟨fun p hp => ?_, ?_⟩
    · rcases List.mem_cons.mp hp with rfl | hp
      · exact (unicodeEscape_spec u).1
      · exact ih.1 p hp
    · rw [literalValue_cons, ih.2, (unicodeEscape_spec u).2]
  | case6 u v rest hpair hsurrogate ih =>
    rw [quoted, if_neg hpair, if_neg hsurrogate]
    refine ⟨fun p hp => ?_, ?_⟩
    · rcases List.mem_cons.mp hp with rfl | hp
      · exact (quoteUnit_spec u).1
      · exact ih.1 p hp
    · rw [literalValue_cons, ih.2, (quoteUnit_spec u).2]

/-! ### Objects are read back -/

section

variable {V : Type}

/-- The keys are different and in the order of an object. -/
def KeysOrdered (props : List (JsString × V)) : Prop :=
  props.Pairwise fun p q => p.1 ≠ q.1 ∧ keyRank p.1 ≤ keyRank q.1

variable {props : List (JsString × V)}

theorem mem_addProperty {key : JsString} {value : V}
    {p : JsString × V} : p ∈ addProperty key value props ↔ p = (key, value) ∨ p ∈ props := by
  induction props with
  | nil => exact mem_cons
  | cons q props ih =>
    rw [addProperty]
    by_cases h : keyRank key < keyRank q.1
    · rw [if_pos h, mem_cons]
    · rw [if_neg h, mem_cons, ih, mem_cons]
      tauto

theorem keysOrdered_addProperty {key : JsString} (value : V)
    (h : KeysOrdered props) (hkey : key ∉ props.map Prod.fst) :
    KeysOrdered (addProperty key value props) := by
  induction props with
  | nil => exact pairwise_singleton _ _
  | cons q props ih =>
    obtain ⟨hq, hprops⟩ := List.pairwise_cons.mp h
    rw [map_cons, mem_cons, not_or] at hkey
    rw [addProperty]
    by_cases hlt : keyRank key < keyRank q.1
    · rw [if_pos hlt]
      refine List.pairwise_cons.mpr ⟨fun p hp => ⟨?_, ?_⟩, h⟩
      · rintro rfl
        rcases List.mem_cons.mp hp with rfl | hp
        · exact hkey.1 rfl
        · exact hkey.2 (mem_map_of_mem hp)
      · rcases List.mem_cons.mp hp with rfl | hp
        · exact hlt.le
        · exact hlt.le.trans (hq p hp).2
    · rw [if_neg hlt]
      refine List.pairwise_cons.mpr ⟨fun p hp => ?_, ih hprops hkey.2⟩
      rcases mem_addProperty.mp hp with rfl | hp
      · exact ⟨fun heq => hkey.1 heq.symm, not_lt.mp hlt⟩
      · exact hq p hp

theorem keysOrdered_setProperty (h : KeysOrdered props)
    (p : JsString × V) : KeysOrdered (setProperty props p) := by
  rw [setProperty]
  by_cases hmem : p.1 ∈ props.map Prod.fst
  · rw [if_pos hmem]
    refine List.pairwise_map.mpr (h.imp fun {a b} hab => ?_)
    -- the keys stay what they are
    have hkey : ∀ q : JsString × V, (if q.1 = p.1 then p else q).1 = q.1 := by
      intro q
      by_cases hq : q.1 = p.1
      · rw [if_pos hq, hq]
      · rw [if_neg hq]
    rw [hkey, hkey]
    exact hab
  · rw [if_neg hmem]
    exact keysOrdered_addProperty _ h hmem

theorem mem_setProperty {p q : JsString × V} (h : q ∈ setProperty props p) : q = p ∨ q ∈ props := by
  rw [setProperty] at h
  by_cases hmem : p.1 ∈ props.map Prod.fst
  · rw [if_pos hmem] at h
    obtain ⟨r, hr, rfl⟩ := List.mem_map.mp h
    by_cases hkey : r.1 = p.1
    · rw [if_pos hkey]
      exact .inl rfl
    · rw [if_neg hkey]
      exact .inr hr
  · rw [if_neg hmem] at h
    exact mem_addProperty.mp h

theorem foldl_setProperty {members acc : List (JsString × V)} (h : KeysOrdered acc) :
    KeysOrdered (members.foldl setProperty acc) ∧
      ∀ q ∈ members.foldl setProperty acc, q ∈ acc ∨ q ∈ members := by
  induction members generalizing acc with
  | nil => exact ⟨h, fun q hq => .inl hq⟩
  | cons p members ih =>
    obtain ⟨hordered, hmem⟩ := ih (keysOrdered_setProperty h p)
    refine ⟨hordered, fun q hq => ?_⟩
    rcases hmem q hq with hq | hq
    · rcases mem_setProperty hq with rfl | hq
      · exact .inr mem_cons_self
      · exact .inl hq
    · exact .inr (mem_cons_of_mem _ hq)

theorem keysOrdered_properties (members : List (JsString × V)) :
    KeysOrdered (properties members) := (foldl_setProperty List.Pairwise.nil).1

theorem mem_properties {members : List (JsString × V)} {q : JsString × V}
    (h : q ∈ properties members) : q ∈ members := by
  rcases (foldl_setProperty List.Pairwise.nil).2 q h with h | h
  · contradiction
  · exact h

theorem addProperty_last {key : JsString} {value : V} (h : ∀ p ∈ props, keyRank p.1 ≤ keyRank key) :
    addProperty key value props = props ++ [(key, value)] := by
  induction props with
  | nil => rfl
  | cons q props ih =>
    rw [addProperty, if_neg (not_lt.mpr (h q mem_cons_self)),
      ih fun p hp => h p (mem_cons_of_mem _ hp)]
    rfl

theorem properties_ordered (h : KeysOrdered props) : properties props = props := by
  have hfold : ∀ (rest acc : List (JsString × V)), KeysOrdered (acc ++ rest) →
      rest.foldl setProperty acc = acc ++ rest := by
    intro rest
    induction rest with
    | nil =>
      intro acc _
      exact (append_nil acc).symm
    | cons p rest ih =>
      intro acc hacc
      have hbefore : ∀ q ∈ acc, q.1 ≠ p.1 ∧ keyRank q.1 ≤ keyRank p.1 := fun q hq =>
        (List.pairwise_append.mp hacc).2.2 q hq p mem_cons_self
      have hnew : p.1 ∉ acc.map Prod.fst := by
        intro hmem
        obtain ⟨q, hq, heq⟩ := List.mem_map.mp hmem
        exact (hbefore q hq).1 heq
      rw [foldl_cons, setProperty, if_neg hnew, addProperty_last fun q hq => (hbefore q hq).2,
        ih _ (by rwa [append_assoc]), append_assoc]
      rfl
  exact hfold props [] h

end

/-! ### Values are read back -/

mutual

def JsValue.Finite (E : Numbers N) : JsValue N → Prop
  | .num n => E.isFinite n = true
  | .arr items => FiniteItems E items
  | .obj props => FiniteProps E props
  | _ => True

def FiniteItems (E : Numbers N) : List (JsValue N) → Prop
  | [] => True
  | value :: rest => value.Finite E ∧ FiniteItems E rest

def FiniteProps (E : Numbers N) : List (JsString × JsValue N) → Prop
  | [] => True
  | (_, value) :: rest => value.Finite E ∧ FiniteProps E rest

end

mutual

/-- Every object in the value has its properties in the order of their keys. -/
def JsValue.Ordered : JsValue N → Prop
  | .arr items => OrderedItems items
  | .obj props => KeysOrdered props ∧ OrderedProps props
  | _ => True

def OrderedItems : List (JsValue N) → Prop
  | [] => True
  | value :: rest => value.Ordered ∧ OrderedItems rest

def OrderedProps : List (JsString × JsValue N) → Prop
  | [] => True
  | (_, value) :: rest => value.Ordered ∧ OrderedProps rest

end

theorem orderedProps_iff {props : List (JsString × JsValue N)} :
    OrderedProps props ↔ ∀ p ∈ props, p.2.Ordered := by
  induction props with
  | nil => exact ⟨fun _ p hp => absurd hp not_mem_nil, fun _ => trivial⟩
  | cons p props ih =>
    rw [forall_mem_cons, ← ih]
    exact Iff.rfl

mutual

/-- **What is read is in order.** -/
theorem ordered_value (E : Numbers N) : ∀ d : Doc, (d.value E).Ordered
  | .null => trivial
  | .bool _ => trivial
  | .num _ => trivial
  | .str _ => trivial
  | .arr _ items => ordered_values E items
  | .obj _ members => by
    refine ⟨keysOrdered_properties _, orderedProps_iff.mpr fun p hp => ?_⟩
    exact orderedProps_iff.mp (ordered_members E members) p (mem_properties hp)

theorem ordered_values (E : Numbers N) : ∀ items : Items, OrderedItems (items.values E)
  | .nil => trivial
  | .cons _ value _ rest => ⟨ordered_value E value, ordered_values E rest⟩

theorem ordered_members (E : Numbers N) : ∀ members : Members, OrderedProps (members.values E)
  | .nil => trivial
  | .cons _ _ _ _ value _ rest => ⟨ordered_value E value, ordered_members E rest⟩

end

theorem blank_nil : Blank [] := by
  intro u hu
  contradiction

mutual

theorem json_written (E : Numbers N) : ∀ v : JsValue N, (written E v).Json
  | .null => trivial
  | .bool _ => trivial
  | .num n => by
    rw [written]
    by_cases hfinite : E.isFinite n = true
    · rw [if_pos hfinite]
      exact E.toLiteral_wf n hfinite
    · rw [if_neg hfinite]
      trivial
  | .str s => (quoted_spec s).1
  | .arr items => ⟨blank_nil, json_writtenItems E items⟩
  | .obj props => ⟨blank_nil, json_writtenMembers E props⟩

theorem json_writtenItems (E : Numbers N) : ∀ items : List (JsValue N),
    (writtenItems E items).Json
  | [] => trivial
  | value :: rest => ⟨blank_nil, json_written E value, blank_nil, json_writtenItems E rest⟩

theorem json_writtenMembers (E : Numbers N) : ∀ props : List (JsString × JsValue N),
    (writtenMembers E props).Json
  | [] => trivial
  | (key, value) :: rest => ⟨blank_nil, (quoted_spec key).1, blank_nil, blank_nil,
      json_written E value, blank_nil, json_writtenMembers E rest⟩

end

mutual

theorem value_written (E : Numbers N) : ∀ v : JsValue N, v.Finite E → v.Ordered →
    (written E v).value E = v
  | .null, _, _ => rfl
  | .bool _, _, _ => rfl
  | .num n, hfinite, _ => by
    rw [JsValue.Finite] at hfinite
    rw [written, if_pos hfinite, Doc.value, E.ofLiteral_toLiteral n hfinite]
  | .str s, _, _ => by rw [written, Doc.value, (quoted_spec s).2]
  | .arr items, hfinite, hordered => by
    rw [written, Doc.value, values_writtenItems E items hfinite hordered]
  | .obj props, hfinite, hordered => by
    rw [written, Doc.value, values_writtenMembers E props hfinite hordered.2,
      properties_ordered hordered.1]

theorem values_writtenItems (E : Numbers N) : ∀ items : List (JsValue N), FiniteItems E items →
    OrderedItems items → (writtenItems E items).values E = items
  | [], _, _ => rfl
  | value :: rest, hfinite, hordered => by
    rw [writtenItems, Items.values, value_written E value hfinite.1 hordered.1,
      values_writtenItems E rest hfinite.2 hordered.2]

theorem values_writtenMembers (E : Numbers N) : ∀ props : List (JsString × JsValue N),
    FiniteProps E props → OrderedProps props → (writtenMembers E props).values E = props
  | [], _, _ => rfl
  | (key, value) :: rest, hfinite, hordered => by
    rw [writtenMembers, Members.values, value_written E value hfinite.1 hordered.1,
      values_writtenMembers E rest hfinite.2 hordered.2, (quoted_spec key).2]

end

/-- **A value that was read is read back** from the text that is written for it. -/
theorem parse_stringify (E : Numbers N) {v : JsValue N} (hfinite : v.Finite E)
    (hordered : v.Ordered) : parse E (stringify E v) = some v := by
  have h := parse_text E (json_written E v) blank_nil blank_nil
  rwa [nil_append, append_nil, value_written E v hfinite hordered] at h

end JsJson
