/-
The tag helpers (`lib/NostrUtils.ts`), on the representations of a tag.

A tag is an array of strings, a FlatBuffers accessor or an unpacked object, and the tags of an
event are an array of these or stand behind an accessor of their own.
-/
import Nipworker.Client.MainDelivery
import Nipworker.Lib.JsJson

namespace Nipworker

open Js (JsString)

/-! ### Representations -/

/-- An element of a tag: a string, its bytes, or nothing. -/
inductive TagItem
  | text (s : JsString)
  | bytes (value : Bytes)
  | null

/-- A `NostrTag`, a `StringVecLike` or a `StringVecObjectLike`. -/
inductive TagLike
  | strings (items : List TagItem)
  | accessor (items : ℕ → TagItem) (itemsLength : ℕ)
  | object (items : List TagItem)

/-- Tags, as an array or behind accessors. -/
inductive TagCollectionLike
  | array (tags : List TagLike)
  | accessor (tags : ℕ → Option TagLike) (tagsLength : ℕ)

/-- The condition on a tag, if there is one. -/
structure TagMatchOptions where
  holds : Option (List JsString → Bool)

inductive IndexOrOptions
  | index (valueIndex : ℤ)
  | options (options : TagMatchOptions)

namespace TagHelpers

def toUtf8String : TagItem → Option JsString
  | .text s => some s
  | .bytes value => some (Js.ofChars (textDecoderDecode value).toList)
  | .null => none

/-- The strings of a tag; the reader of objects passes over empty ones. -/
def readStringVec : TagLike → List JsString
  | .strings items => items.filterMap fun item =>
    match item with
    | .text s => some s
    | _ => none
  | .accessor items itemsLength => (List.range itemsLength).filterMap fun i => toUtf8String (items i)
  | .object items => items.flatMap fun item =>
    match toUtf8String item with
    -- an empty string is not truthy
    | some value => if value ≠ [] then [value] else []
    | none => []

def matchesTag (tag : List JsString) (key : JsString) (options : Option TagMatchOptions) : Bool :=
  if tag.head? ≠ some key then false
  else match options.bind TagMatchOptions.holds with
    | some holds => holds tag
    | none => true

/-- The tags that the loops of the helpers visit; an accessor may have none at an index. -/
def visited : TagCollectionLike → List TagLike
  | .array tags => tags
  | .accessor tags tagsLength => (List.range tagsLength).filterMap tags

/-- `items[valueIndex]`. -/
def itemAt (items : List JsString) (valueIndex : ℤ) : Option JsString :=
  if valueIndex < 0 then none else items[valueIndex.toNat]?

def valueIndexOf : IndexOrOptions → ℤ
  | .index valueIndex => valueIndex
  | .options _ => 1

def tagOptionsOf (options : Option TagMatchOptions) : IndexOrOptions → Option TagMatchOptions
  | .index _ => options
  | .options options => some options

/-- The first tag with the key that the condition accepts. -/
def extractTag (source : TagCollectionLike) (key : JsString) (options : Option TagMatchOptions) :
    Option (List JsString) :=
  ((visited source).map readStringVec).find? fun items => matchesTag items key options

def extractTagValue (source : TagCollectionLike) (key : JsString)
    (valueIndexOrOptions : IndexOrOptions) (options : Option TagMatchOptions) : Option JsString :=
  (extractTag source key (tagOptionsOf options valueIndexOrOptions)).bind fun items =>
    itemAt items (valueIndexOf valueIndexOrOptions)

def extractTagValues (source : TagCollectionLike) (key : JsString)
    (valueIndexOrOptions : IndexOrOptions) (options : Option TagMatchOptions) : List JsString :=
  ((visited source).map readStringVec).filterMap fun items =>
    if matchesTag items key (tagOptionsOf options valueIndexOrOptions) then
      itemAt items (valueIndexOf valueIndexOrOptions)
    else none

/-- `tags.get(key) || []` with more values pushed, and set again. -/
def pushValues (tags : List (JsString × List JsString)) (key : JsString) (values : List JsString) :
    List (JsString × List JsString) :=
  if key ∈ tags.map Prod.fst then
    tags.map fun entry => if entry.1 = key then (key, entry.2 ++ values) else entry
  else tags ++ [(key, values)]

def extractTagMap (source : TagCollectionLike) (options : Option TagMatchOptions) :
    List (JsString × List JsString) :=
  JsJson.properties (((visited source).map readStringVec).foldl (fun tags items =>
    match items with
    | key :: value :: values =>
      if matchesTag items key options then pushValues tags key (value :: values) else tags
    | _ => tags) [])

end TagHelpers

/-! ### What a source stands for -/

open TagHelpers

def TagLike.Represents (tag : TagLike) (strings : List JsString) : Prop :=
  match tag with
  | .strings items => items = strings.map .text
  | .accessor items itemsLength =>
    itemsLength = strings.length ∧
      ∀ i (h : i < strings.length), toUtf8String (items i) = some strings[i]
  | .object items => items.map toUtf8String = strings.map some

/-- The tags that a source stands for. -/
def TagCollectionLike.Represents (source : TagCollectionLike) (tags : List (List JsString)) : Prop :=
  match source with
  | .array vectors => List.Forall₂ TagLike.Represents vectors tags
  | .accessor vectors tagsLength =>
    tagsLength = tags.length ∧
      ∀ i (h : i < tags.length), ∃ vector, vectors i = some vector ∧ vector.Represents tags[i]

def plainTags (tags : List (List JsString)) : TagCollectionLike :=
  .array (tags.map fun strings => .strings (strings.map .text))

/-- The helpers answer as on arrays of strings. -/
def SameAnswers (source : TagCollectionLike) (tags : List (List JsString)) : Prop :=
  ∀ (key : JsString) (valueIndexOrOptions : IndexOrOptions) (options : Option TagMatchOptions),
    extractTag source key options = extractTag (plainTags tags) key options ∧
    extractTagValue source key valueIndexOrOptions options =
      extractTagValue (plainTags tags) key valueIndexOrOptions options ∧
    extractTagValues source key valueIndexOrOptions options =
      extractTagValues (plainTags tags) key valueIndexOrOptions options ∧
    extractTagMap source options = extractTagMap (plainTags tags) options

/-- No tag that is given as an object has an empty string. -/
def NoEmptyInObjects (source : TagCollectionLike) : Prop :=
  ∀ items, .object items ∈ visited source → ∀ item ∈ items, toUtf8String item ≠ some []

/-! ### The readers -/

theorem filterMap_range {α : Type} (xs : List α) {f : ℕ → Option α}
    (h : ∀ i (hi : i < xs.length), f i = some xs[i]) :
    (List.range xs.length).filterMap f = xs := by
  induction xs using List.reverseRecOn with
  | nil => rfl
  | append_singleton xs x ih =>
    have hlast : f xs.length = some x := by
      rw [h xs.length (by rw [List.length_append, List.length_singleton]; omega),
        List.getElem_concat_length rfl]
    rw [List.length_append, List.length_singleton, List.range_succ, List.filterMap_append, ih,
      List.filterMap_cons_some hlast]
    · rfl
    · intro i hi
      rw [h i (by rw [List.length_append, List.length_singleton]; omega), List.getElem_append_left hi]

theorem readStringVec_object_eq : ∀ {items : List TagItem} {strings : List JsString},
    items.map toUtf8String = strings.map some → (∀ item ∈ items, toUtf8String item ≠ some []) →
      readStringVec (.object items) = strings
  | [], [], _, _ => rfl
  | item :: items, s :: strings, h, hne => by
    obtain ⟨hitem, hitems⟩ := List.cons.inj h
    have hs : s ≠ [] := fun hs => hne item List.mem_cons_self (hitem.trans (congrArg some hs))
    have hrest := readStringVec_object_eq hitems fun i hi => hne i (List.mem_cons_of_mem _ hi)
    rw [readStringVec] at hrest
    rw [readStringVec, List.flatMap_cons, hrest, hitem]
    dsimp only
    rw [if_pos hs, List.singleton_append]

theorem readStringVec_eq {tag : TagLike} {strings : List JsString} (h : tag.Represents strings)
    (hne : ∀ items, tag = .object items → ∀ item ∈ items, toUtf8String item ≠ some []) :
    readStringVec tag = strings := by
  cases tag with
  | strings items =>
    have hitems : items = strings.map .text := h
    rw [hitems, readStringVec, List.filterMap_map]
    exact List.filterMap_some
  | accessor items itemsLength =>
    obtain ⟨rfl, hitems⟩ := h
    exact filterMap_range strings hitems
  | object items => exact readStringVec_object_eq h (hne items rfl)

theorem not_mem_readStringVec (items : List TagItem) : [] ∉ readStringVec (.object items) := by
  rw [readStringVec, List.mem_flatMap]
  rintro ⟨item, -, hitem⟩
  cases h : toUtf8String item with
  | none =>
    rw [h] at hitem
    exact List.not_mem_nil hitem
  | some value =>
    rw [h] at hitem
    dsimp only at hitem
    split at hitem
    · next hne => exact hne (List.mem_singleton.mp hitem).symm
    · exact List.not_mem_nil hitem

variable {source : TagCollectionLike} {tags : List (List JsString)}

theorem visited_represents
    (h : source.Represents tags) : List.Forall₂ TagLike.Represents (visited source) tags := by
  cases source with
  | array vectors => exact h
  | accessor vectors tagsLength =>
    obtain ⟨rfl, hvectors⟩ := h
    choose vector hsome hrepresents using hvectors
    have hvisited := @filterMap_range _ (List.ofFn fun i : Fin tags.length => vector i i.2) vectors ?_
    · rw [List.length_ofFn] at hvisited
      rw [visited, hvisited, List.forall₂_iff_get]
      refine ⟨List.length_ofFn, fun i hi hi' => ?_⟩
      rw [List.get_eq_getElem, List.get_eq_getElem, List.getElem_ofFn]
      exact hrepresents i hi'
    · intro i hi
      rw [List.length_ofFn] at hi
      rw [List.getElem_ofFn, hsome i hi]

def reads (source : TagCollectionLike) : List (List JsString) := (visited source).map readStringVec

theorem reads_plainTags (tags : List (List JsString)) : reads (plainTags tags) = tags := by
  rw [reads, plainTags, visited, List.map_map]
  refine (List.map_congr_left fun strings _ => ?_).trans (List.map_id tags)
  exact @readStringVec_eq (.strings (strings.map .text)) strings rfl (by rintro _ ⟨⟩)

theorem sameAnswers_of_reads (h : reads source = tags) : SameAnswers source tags := by
  have hreads : (visited source).map readStringVec = (visited (plainTags tags)).map readStringVec :=
    h.trans (reads_plainTags tags).symm
  intro key valueIndexOrOptions options
  have htag : ∀ options, extractTag source key options = extractTag (plainTags tags) key options := by
    intro options
    rw [extractTag, extractTag, hreads]
  refine ⟨htag options, ?_, ?_, ?_⟩
  · rw [extractTagValue, extractTagValue, htag]
  · rw [extractTagValues, extractTagValues, hreads]
  · rw [extractTagMap, extractTagMap, hreads]

theorem reads_eq
    (h : source.Represents tags) (hne : NoEmptyInObjects source) : reads source = tags := by
  have hvectors : ∀ {vectors : List TagLike} {tags : List (List JsString)},
      List.Forall₂ TagLike.Represents vectors tags →
      (∀ items, .object items ∈ vectors → ∀ item ∈ items, toUtf8String item ≠ some []) →
      vectors.map readStringVec = tags := by
    intro vectors tags h
    induction h with
    | nil => exact fun _ => rfl
    | @cons vector strings vectors tags hvector _ ih =>
      intro hne
      rw [List.map_cons, ih fun items hmem => hne items (List.mem_cons_of_mem _ hmem),
        readStringVec_eq hvector]
      rintro items rfl
      exact hne items List.mem_cons_self
  exact hvectors (visited_represents h) hne

/-! ### An empty string in an object -/

def exactly (tag : List JsString) : TagMatchOptions := { holds := some (· == tag) }

theorem length_filterMap_one {α β : Type} [BEq α] [LawfulBEq α] {f : α → Option β} {x : α} {y : β}
    (hx : f x = some y) (hother : ∀ z ≠ x, f z = none) (xs : List α) :
    (xs.filterMap f).length = xs.count x := by
  induction xs with
  | nil => rfl
  | cons z xs ih =>
    by_cases h : z = x
    · rw [List.filterMap_cons_some (h ▸ hx), List.length_cons, h, List.count_cons_self, ih]
    · rw [List.filterMap_cons_none (hother z h), List.count_cons_of_ne h, ih]

theorem length_extractTagValues (source : TagCollectionLike) (key : JsString)
    (rest : List JsString) :
    (extractTagValues source key (.index 0) (some (exactly (key :: rest)))).length =
      (reads source).count (key :: rest) := by
  have hmatch : ∀ items, matchesTag items key (some (exactly (key :: rest))) =
      decide (items = key :: rest) := by
    intro items
    rw [matchesTag]
    by_cases h : items = key :: rest
    · rw [if_neg (by rw [h]; exact not_not_intro rfl), decide_eq_true h, h]
      exact beq_self_eq_true _
    · rw [decide_eq_false h]
      split
      · rfl
      · exact beq_eq_false_iff_ne.mpr h
  refine length_filterMap_one (y := key) ?_ (fun items hne => ?_) (reads source)
  · show (if matchesTag (key :: rest) key (some (exactly (key :: rest))) then _ else none) = _
    rw [hmatch, if_pos (decide_eq_true rfl)]
    rfl
  · show (if matchesTag items key (some (exactly (key :: rest))) then _ else none) = _
    rw [hmatch, if_neg (by rw [decide_eq_true_iff]; exact hne)]

theorem count_lt {vectors : List TagLike}
    (h : List.Forall₂ TagLike.Represents vectors tags) {tag : List JsString} (hempty : [] ∈ tag) :
    (vectors.map readStringVec).count tag ≤ tags.count tag ∧
      ((∃ items, .object items ∈ vectors ∧ items.map toUtf8String = tag.map some) →
        (vectors.map readStringVec).count tag < tags.count tag) := by
  induction h with
  | nil => exact ⟨le_rfl, fun ⟨_, hmem, _⟩ => absurd hmem List.not_mem_nil⟩
  | @cons vector strings vectors tags hvector _ ih =>
    obtain ⟨hle, hlt⟩ := ih
    rw [List.map_cons, List.count_cons, List.count_cons]
    -- what is read of the first tag is that tag, or has no empty string
    have hfirst : readStringVec vector = tag → strings = tag := by
      intro hread
      have hobject : ∀ items, vector ≠ .object items := by
        rintro items rfl
        rw [← hread] at hempty
        exact not_mem_readStringVec items hempty
      rw [← hread, readStringVec_eq hvector fun items hitems => absurd hitems (hobject items)]
    constructor
    · by_cases hread : readStringVec vector = tag
      · rw [hread, hfirst hread]
        omega
      · rw [beq_eq_false_iff_ne.mpr hread, if_neg (by decide)]
        omega
    · rintro ⟨items, hmem, hitems⟩
      rcases List.mem_cons.mp hmem with rfl | hmem
      · have hread : readStringVec (.object items) ≠ tag := by
          rintro hread
          rw [← hread] at hempty
          exact not_mem_readStringVec items hempty
        have hstrings : strings = tag :=
          List.map_injective_iff.mpr (Option.some_injective _) (hvector.symm.trans hitems)
        rw [beq_eq_false_iff_ne.mpr hread, if_neg (by decide), hstrings, beq_self_eq_true,
          if_pos rfl]
        omega
      · have hlt := hlt ⟨items, hmem, hitems⟩
        by_cases hread : readStringVec vector = tag
        · rw [hread, hfirst hread]
          omega
        · rw [beq_eq_false_iff_ne.mpr hread, if_neg (by decide)]
          omega

theorem exists_represented {vectors : List TagLike}
    (h : List.Forall₂ TagLike.Represents vectors tags) {vector : TagLike} (hmem : vector ∈ vectors) :
    ∃ strings, vector.Represents strings := by
  induction h with
  | nil => exact absurd hmem List.not_mem_nil
  | cons hvector _ ih =>
    rcases List.mem_cons.mp hmem with rfl | hmem
    · exact ⟨_, hvector⟩
    · exact ih hmem

/-- **The helpers do not depend on the representation, except for empty strings in objects**:
for every key, index and condition they answer as on arrays of strings if and only if no tag
that is given as an object has an empty string. -/
theorem same_answers_iff (source : TagCollectionLike) (tags : List (List JsString))
    (h : source.Represents tags) : SameAnswers source tags ↔ NoEmptyInObjects source := by
  refine ⟨fun hsame items hmem item hitem hempty => ?_,
    fun hne => sameAnswers_of_reads (reads_eq h hne)⟩
  have hvisited := visited_represents h
  obtain ⟨tag, htag⟩ := exists_represented hvisited hmem
  have htag : items.map toUtf8String = tag.map some := htag
  have hin : [] ∈ tag := by
    have hmem := List.mem_map_of_mem (f := toUtf8String) hitem
    rw [htag, hempty, List.mem_map] at hmem
    obtain ⟨s, hs, heq⟩ := hmem
    rwa [Option.some.inj heq] at hs
  cases tag with
  | nil => exact List.not_mem_nil hin
  | cons key rest =>
    -- the helper that asks for this tag alone finds it less often
    have hlt := (count_lt hvisited hin).2 ⟨items, hmem, htag⟩
    have hvalues := (hsame key (.index 0) (some (exactly (key :: rest)))).2.2.1
    have hcount := congrArg List.length hvalues
    rw [length_extractTagValues, length_extractTagValues, reads_plainTags] at hcount
    exact absurd hcount hlt.ne

/-! ### Samples -/

def replyTag : List JsString :=
  [Js.units ['e'], Js.units ['a', 'b'], [], Js.units ['r', 'e', 'p', 'l', 'y']]

def replyAccessor : TagCollectionLike :=
  .accessor (fun _ => some (.accessor (fun i => .text (replyTag.getD i [])) 4)) 1

def replyObject : TagCollectionLike := .array [.object (replyTag.map .text)]

theorem same_answers_iff_sample :
    SameAnswers replyAccessor [replyTag] ↔ NoEmptyInObjects replyAccessor := by
  refine same_answers_iff replyAccessor [replyTag] ⟨rfl, fun i hi => ?_⟩
  obtain rfl : i = 0 := Nat.lt_one_iff.mp hi
  refine ⟨_, rfl, rfl, fun k hk => ?_⟩
  exact congrArg some (@List.getD_eq_getElem _ replyTag [] k hk)

/-- The marker of the tag is at its place in an array and behind an accessor, and moves up in an
object. -/
theorem marker_moves :
    replyObject.Represents [replyTag] ∧
    extractTagValue (plainTags [replyTag]) (Js.units ['e']) (.index 3) none =
      some (Js.units ['r', 'e', 'p', 'l', 'y']) ∧
    extractTagValue replyAccessor (Js.units ['e']) (.index 3) none =
      some (Js.units ['r', 'e', 'p', 'l', 'y']) ∧
    extractTagValue replyObject (Js.units ['e']) (.index 3) none = none ∧
    ¬ SameAnswers replyObject [replyTag] := by
  have hplain : extractTagValue (plainTags [replyTag]) (Js.units ['e']) (.index 3) none =
      some (Js.units ['r', 'e', 'p', 'l', 'y']) := by decide
  have hobject : extractTagValue replyObject (Js.units ['e']) (.index 3) none = none := by decide
  refine ⟨.cons rfl .nil, hplain, by decide, hobject, fun hsame => ?_⟩
  have h := (hsame (Js.units ['e']) (.index 3) none).2.1
  rw [hplain, hobject] at h
  contradiction

end Nipworker
