/-
What the key of a request says about the request
(`crates/core/src/parser_utils/request_deduplication.rs`).

Requests with the same filter have the same key.  The other way round, the text of a key can be
cut at its separators again, unless a text of the request has a separator in it.
-/
import Nipworker.Lib.Split
import Nipworker.Parser.RequestDeduplication

namespace Nipworker

open List Option

namespace RequestDeduplicator

variable {q q' : RoutedRequest}

/-! ### Lists in a key -/

variable {texts texts' : List String} {c : Char} {text : List Char}
    {tags : Map String (List String)}

theorem sortTexts_eq_iff : sortTexts texts = sortTexts texts' ↔ texts.Perm texts' := by
  constructor
  · intro h
    have hperm := perm_insertionSort (· ≤ ·) texts
    have hperm' := perm_insertionSort (· ≤ ·) texts'
    exact hperm.symm.trans (List.Perm.trans (.of_eq h) hperm')
  · intro h
    refine List.Perm.eq_of_pairwise' (pairwise_insertionSort (· ≤ ·) texts)
      (pairwise_insertionSort (· ≤ ·) texts') ?_
    exact (perm_insertionSort _ texts).trans (h.trans (perm_insertionSort _ texts').symm)

theorem sortKinds_eq_iff {kinds kinds' : List Int32} :
    sortKinds kinds = sortKinds kinds' ↔ kinds.Perm kinds' := by
  have hinj : Function.Injective Int32.toInt := fun a b h => Int32.toInt_inj.mp h
  rw [← map_perm_map_iff hinj]
  constructor
  · intro h
    have hperm := perm_insertionSort (· ≤ ·) (kinds.map Int32.toInt)
    have hperm' := perm_insertionSort (· ≤ ·) (kinds'.map Int32.toInt)
    exact hperm.symm.trans (List.Perm.trans (.of_eq h) hperm')
  · intro h
    refine List.Perm.eq_of_pairwise' (pairwise_insertionSort (· ≤ ·) _)
      (pairwise_insertionSort (· ≤ ·) _) ?_
    exact (perm_insertionSort _ _).trans (h.trans (perm_insertionSort _ _).symm)

theorem eq_of_intercalate {ps ps' : List (List Char)} (hne : ps ≠ []) (hne' : ps' ≠ [])
    (hps : ∀ p ∈ ps, c ∉ p) (hps' : ∀ p ∈ ps', c ∉ p)
    (h : [c].intercalate ps = [c].intercalate ps') : ps = ps' := by
  rw [← splitOn_intercalate c hps hne, h, splitOn_intercalate c hps' hne']

theorem joinTexts_inj (hne : texts ≠ []) (hne' : texts' ≠ [])
    (hcomma : ∀ text ∈ texts, ',' ∉ text.toList) (hcomma' : ∀ text ∈ texts', ',' ∉ text.toList)
    (h : joinTexts texts = joinTexts texts') : texts = texts' := by
  refine List.map_injective_iff.mpr (fun a b => String.toList_inj.mp) (eq_of_intercalate (c := ',')
    (by simpa using hne) (by simpa using hne') ?_ ?_ h)
  · intro p hp
    obtain ⟨text, htext, rfl⟩ := List.mem_map.mp hp
    exact hcomma text htext
  · intro p hp
    obtain ⟨text, htext, rfl⟩ := List.mem_map.mp hp
    exact hcomma' text htext

theorem listText_eq {α β : Type} {l : List α} {l' : List β} {text' : List Char}
    (h : listText l text = listText l' text') : (l = [] ∧ l' = []) ∨
      (l ≠ [] ∧ l' ≠ [] ∧ text = text') := by
  rw [listText, listText] at h
  cases l with
  | nil =>
    cases l' with
    | nil => exact .inl ⟨rfl, rfl⟩
    | cons b l' => simp at h
  | cons a l =>
    cases l' with
    | nil => simp at h
    | cons b l' => exact .inr ⟨cons_ne_nil _ _, cons_ne_nil _ _, by simpa using h⟩

theorem sortTexts_ne_nil (h : texts ≠ []) : sortTexts texts ≠ [] := by
  intro hnil
  have hlength := length_insertionSort (· ≤ ·) texts
  rw [sortTexts] at hnil
  rw [hnil] at hlength
  exact h (eq_nil_of_length_eq_zero hlength.symm)

theorem perm_of_listText (hcomma : ∀ text ∈ texts, ',' ∉ text.toList)
    (hcomma' : ∀ text ∈ texts', ',' ∉ text.toList) (h : listText texts (joinTexts (sortTexts texts))
      = listText texts' (joinTexts (sortTexts texts'))) : texts.Perm texts' := by
  obtain ⟨rfl, rfl⟩ | ⟨hne, hne', htext⟩ := listText_eq h
  · exact .nil
  · refine sortTexts_eq_iff.mp (joinTexts_inj (sortTexts_ne_nil hne) (sortTexts_ne_nil hne') ?_ ?_
      htext)
    · exact fun text hmem => hcomma text (mem_sortTexts.mp hmem)
    · exact fun text hmem => hcomma' text (mem_sortTexts.mp hmem)

/-! ### Numbers in a key -/

theorem mem_intText {n : ℤ} (h : c ∈ intText n) : c = '-' ∨ c.isDigit = true := by
  have hdigit : ∀ {m : ℕ}, c ∈ Nat.toDigits 10 m → c.isDigit = true :=
    fun hmem => Nat.isDigit_of_mem_toDigits (by decide) (by decide) hmem
  rw [intText] at h
  by_cases hneg : n < 0
  · rw [if_pos hneg] at h
    exact (List.mem_cons.mp h).imp_right hdigit
  · rw [if_neg hneg] at h
    exact .inr (hdigit h)

theorem intText_inj {n m : ℤ} (h : intText n = intText m) : n = m := by
  have hdigits : ∀ {a b : ℕ}, Nat.toDigits 10 a = Nat.toDigits 10 b → a = b := by
    intro a b hab
    have hread := congrArg Text.parseDecimal hab
    rw [Text.parseDecimal_toDigits, Text.parseDecimal_toDigits] at hread
    exact some.inj hread
  have hsign : ∀ {a b : ℕ}, '-' :: Nat.toDigits 10 a ≠ Nat.toDigits 10 b := by
    intro a b hab
    have hmem : '-' ∈ Nat.toDigits 10 b := hab ▸ mem_cons_self
    exact absurd (Nat.isDigit_of_mem_toDigits (by decide) (by decide) hmem) (by decide)
  rw [intText, intText] at h
  by_cases hn : n < 0
  · rw [if_pos hn] at h
    by_cases hm : m < 0
    · rw [if_pos hm] at h
      have := hdigits (tail_eq_of_cons_eq h)
      omega
    · rw [if_neg hm] at h
      exact absurd h hsign
  · rw [if_neg hn] at h
    by_cases hm : m < 0
    · rw [if_pos hm] at h
      exact absurd h.symm hsign
    · rw [if_neg hm] at h
      have := hdigits h
      omega

theorem not_mem_intText (hminus : c ≠ '-') (hdigit : c.isDigit = false) (n : ℤ) :
    c ∉ intText n := by
  intro h
  obtain heq | hc := mem_intText h
  · exact hminus heq
  · rw [hdigit] at hc
    contradiction

theorem perm_of_kindText {kinds kinds' : List Int32}
    (h : listText kinds ([','].intercalate ((sortKinds kinds).map intText))
      = listText kinds' ([','].intercalate ((sortKinds kinds').map intText))) :
    kinds.Perm kinds' := by
  have hcomma : ∀ ns : List ℤ, ∀ p ∈ ns.map intText, ',' ∉ p := by
    intro ns p hp
    obtain ⟨n, -, rfl⟩ := List.mem_map.mp hp
    exact not_mem_intText (by decide) (by decide) n
  have hsorted : ∀ {ks : List Int32}, ks ≠ [] → (sortKinds ks).map intText ≠ [] := by
    intro ks hne hnil
    have hlength := length_insertionSort (· ≤ ·) (ks.map Int32.toInt)
    rw [← sortKinds, List.map_eq_nil_iff.mp hnil, length_map] at hlength
    exact hne (eq_nil_of_length_eq_zero hlength.symm)
  obtain ⟨rfl, rfl⟩ | ⟨hne, hne', htext⟩ := listText_eq h
  · exact .nil
  · refine sortKinds_eq_iff.mp (List.map_injective_iff.mpr (fun a b => intText_inj) ?_)
    exact eq_of_intercalate (hsorted hne) (hsorted hne') (hcomma _) (hcomma _) htext

theorem cut_inj {a a' b b' : List Char} (ha : c ∉ a) (ha' : c ∉ a')
    (h : a ++ c :: b = a' ++ c :: b') : a = a' ∧ b = b' := by
  have hcut : Text.splitOnce c (a ++ c :: b) = some (a, b) :=
    Text.splitOnce_eq_some.mpr ⟨rfl, ha⟩
  have hcut' : Text.splitOnce c (a ++ c :: b) = some (a', b') :=
    Text.splitOnce_eq_some.mpr ⟨h, ha'⟩
  exact Prod.mk.inj (some.inj (hcut.symm.trans hcut'))

/-! ### Tag conditions in a key -/

def valuesText (tags : Map String (List String)) (key : String) : List Char :=
  joinTexts (sortTexts ((tags.lookup key).getD []))

theorem tagText_inj {tags' : Map String (List String)} {key key' : String}
    (hkey : ':' ∉ key.toList) (hkey' : ':' ∉ key'.toList)
    (h : tagText tags key = tagText tags' key') :
    key = key' ∧ valuesText tags key = valuesText tags' key' := by
  obtain ⟨hname, hvalues⟩ := cut_inj hkey hkey' h
  exact ⟨String.toList_inj.mp hname, hvalues⟩

theorem map_tagText_inj {tags' : Map String (List String)} {keys keys' : List String}
    (hkeys : ∀ key ∈ keys, ':' ∉ key.toList) (hkeys' : ∀ key ∈ keys', ':' ∉ key.toList)
    (h : keys.map (tagText tags) = keys'.map (tagText tags')) :
    keys = keys' ∧ ∀ key ∈ keys, valuesText tags key = valuesText tags' key := by
  induction keys generalizing keys' with
  | nil =>
    obtain rfl := List.map_eq_nil_iff.mp h.symm
    exact ⟨rfl, fun key hmem => absurd hmem not_mem_nil⟩
  | cons key keys ih =>
    obtain ⟨key', keys', rfl, hhead, htail⟩ := List.map_eq_cons_iff.mp h.symm
    obtain ⟨rfl, hvalues⟩ := tagText_inj (hkeys _ mem_cons_self)
      (hkeys' _ mem_cons_self) hhead.symm
    obtain ⟨rfl, hrest⟩ := ih (fun key hmem => hkeys key (mem_cons_of_mem _ hmem))
      (fun key hmem => hkeys' key (mem_cons_of_mem _ hmem)) htail.symm
    refine ⟨rfl, fun key hmem => ?_⟩
    obtain rfl | hmem := List.mem_cons.mp hmem
    · exact hvalues
    · exact hrest key hmem

/-! ### The parts of a key -/

/-- No text of the request has a separator of the key in it, and no tag condition is without
values. -/
structure SeparatorFree (q : RoutedRequest) : Prop where
  ids : ∀ id ∈ q.ids, ',' ∉ id.toList ∧ '|' ∉ id.toList
  authors : ∀ author ∈ q.authors, ',' ∉ author.toList ∧ '|' ∉ author.toList
  tagKeys : ∀ key ∈ q.tags.keys, ':' ∉ key.toList ∧ ';' ∉ key.toList ∧ '|' ∉ key.toList
  tagValues : ∀ key values, q.tags.lookup key = some values → values ≠ [] ∧
    ∀ value ∈ values, ',' ∉ value.toList ∧ ';' ∉ value.toList ∧ '|' ∉ value.toList
  search : ∀ text ∈ q.search, '|' ∉ text.toList

theorem KeyPart.mem_all (part : KeyPart) : part ∈ KeyPart.all := by
  cases part <;> decide

theorem KeyPart.label_plain (part : KeyPart) : ':' ∉ part.label ∧ '|' ∉ part.label := by
  cases part <;> decide

theorem KeyPart.label_inj {part part' : KeyPart} (h : part.label = part'.label) :
    part = part' := by
  revert h
  cases part <;> cases part' <;> decide

theorem mem_keyParts {part : KeyPart} : (part, text) ∈ keyParts q ↔ keyText q part = some text := by
  rw [keyParts, mem_filterMap]
  constructor
  · rintro ⟨part', -, htext⟩
    obtain ⟨text', htext', heq⟩ := Option.map_eq_some_iff.mp htext
    obtain ⟨rfl, rfl⟩ := Prod.mk.inj heq
    exact htext'
  · intro htext
    exact ⟨part, part.mem_all, by rw [htext, map_some]⟩

theorem keyParts_ne_nil (q : RoutedRequest) : keyParts q ≠ [] := by
  intro hnil
  have hmem : (KeyPart.cacheFirst, boolText q.cacheFirst) ∈ keyParts q := mem_keyParts.mpr rfl
  rw [hnil] at hmem
  exact not_mem_nil hmem

theorem labelled_inj {part part' : KeyPart × List Char} (h : labelled part = labelled part') :
    part = part' := by
  obtain ⟨hlabel, htext⟩ := cut_inj part.1.label_plain.1 part'.1.label_plain.1 h
  exact Prod.ext (KeyPart.label_inj hlabel) htext

theorem not_mem_joinTexts (hcomma : c ≠ ',')
    (htexts : ∀ text ∈ texts, c ∉ text.toList) : c ∉ joinTexts (sortTexts texts) := by
  intro h
  obtain ⟨p, hp, hc⟩ | hc := Text.mem_intercalate h
  · obtain ⟨text, htext, rfl⟩ := List.mem_map.mp hp
    exact htexts text (mem_sortTexts.mp htext) hc
  · exact hcomma (List.mem_singleton.mp hc)

theorem not_mem_tagText {key : String} (hcolon : c ≠ ':') (hcomma : c ≠ ',') (hkey : c ∉ key.toList)
    (hvalues : ∀ values, tags.lookup key = some values → ∀ value ∈ values, c ∉ value.toList) :
    c ∉ tagText tags key := by
  rw [tagText, mem_append, mem_cons]
  rintro (h | h | h)
  · exact hkey h
  · exact hcolon h
  · refine not_mem_joinTexts hcomma ?_ h
    cases hlookup : tags.lookup key with
    | none => exact fun value hmem => absurd hmem not_mem_nil
    | some values => exact hvalues values hlookup

theorem listText_eq_some {α : Type} {l : List α} {text' : List Char}
    (h : listText l text = some text') : text = text' := by
  rw [listText] at h
  obtain ⟨-, h⟩ := Option.ite_none_left_eq_some.mp h
  exact some.inj h

theorem SeparatorFree.not_mem_keyText (h : SeparatorFree q) {part : KeyPart}
    (htext : keyText q part = some text) : '|' ∉ text := by
  have hbool : ∀ b, '|' ∉ boolText b := by decide
  have hnumber : ∀ {n : Option Int32}, (n.map fun n => intText n.toInt) = some text →
      '|' ∉ text := by
    intro n hn
    obtain ⟨n, -, rfl⟩ := Option.map_eq_some_iff.mp hn
    exact not_mem_intText (by decide) (by decide) _
  cases part with
  | ids =>
    rw [← listText_eq_some htext]
    exact not_mem_joinTexts (by decide) fun id hid => (h.ids id hid).2
  | authors =>
    rw [← listText_eq_some htext]
    exact not_mem_joinTexts (by decide) fun author hauthor => (h.authors author hauthor).2
  | kinds =>
    rw [← listText_eq_some htext]
    intro hmem
    obtain ⟨p, hp, hc⟩ | hc := Text.mem_intercalate hmem
    · obtain ⟨n, -, rfl⟩ := List.mem_map.mp hp
      exact not_mem_intText (by decide) (by decide) n hc
    · exact absurd (List.mem_singleton.mp hc) (by decide)
  | tags =>
    rw [← listText_eq_some htext]
    intro hmem
    obtain ⟨p, hp, hc⟩ | hc := Text.mem_intercalate hmem
    · obtain ⟨key, hkey, rfl⟩ := List.mem_map.mp hp
      refine not_mem_tagText (by decide) (by decide) (h.tagKeys key (mem_sortTexts.mp hkey)).2.2 ?_ hc
      exact fun values hvalues value hvalue => ((h.tagValues key values hvalues).2 value hvalue).2.2
    · exact absurd (List.mem_singleton.mp hc) (by decide)
  | sinceTime => exact hnumber htext
  | untilTime => exact hnumber htext
  | limit => exact hnumber htext
  | search =>
    obtain ⟨search, hsearch, rfl⟩ := Option.map_eq_some_iff.mp htext
    exact h.search search hsearch
  | cacheFirst =>
    obtain rfl := some.inj htext
    exact hbool _
  | meshOnly =>
    obtain rfl := some.inj htext
    exact hbool _

/-- **A key without separators in its texts** says what stands in each part. -/
theorem keyText_eq (h : SeparatorFree q) (h' : SeparatorFree q')
    (hkey : createFilterKey q = createFilterKey q') (part : KeyPart) :
    keyText q part = keyText q' part := by
  have hbar : ∀ {q : RoutedRequest}, SeparatorFree q → ∀ p ∈ (keyParts q).map labelled, '|' ∉ p := by
    intro q hq p hp
    obtain ⟨⟨part, text⟩, hmem, rfl⟩ := List.mem_map.mp hp
    rw [labelled, mem_append, mem_cons]
    rintro (hc | hc | hc)
    · exact part.label_plain.2 hc
    · exact absurd hc (by decide)
    · exact hq.not_mem_keyText (mem_keyParts.mp hmem) hc
  have hparts : (keyParts q).map labelled = (keyParts q').map labelled :=
    eq_of_intercalate (fun hnil => keyParts_ne_nil q (List.map_eq_nil_iff.mp hnil))
      (fun hnil => keyParts_ne_nil q' (List.map_eq_nil_iff.mp hnil)) (hbar h) (hbar h')
      (String.ofList_injective hkey)
  have hsame := List.map_injective_iff.mpr (fun a b => labelled_inj) hparts
  ext text
  rw [← mem_keyParts, hsame, mem_keyParts]

/-! ### Keys and filters -/

theorem perm_keys (h : ∀ key, Option.Rel List.Perm (q.tags.lookup key) (q'.tags.lookup key)) :
    q.tags.keys.Perm q'.tags.keys := by
  refine (perm_ext_iff_of_nodup (AList.keys_nodup _) (AList.keys_nodup _)).mpr fun key => ?_
  have hrel := h key
  rw [← AList.mem_keys, ← AList.mem_keys, ← AList.lookup_isSome, ← AList.lookup_isSome]
  generalize q.tags.lookup key = values at hrel ⊢
  generalize q'.tags.lookup key = values' at hrel ⊢
  cases hrel with
  | some hperm => exact iff_of_true rfl rfl
  | none => exact Iff.rfl

theorem listText_of_perm {α : Type} {l l' : List α} (h : l.Perm l') (text : List Char) :
    listText l text = listText l' text := by
  have hempty : l.isEmpty = l'.isEmpty := by
    rw [Bool.eq_iff_iff, List.isEmpty_iff, List.isEmpty_iff]
    exact ⟨fun hnil => List.perm_nil.mp (hnil ▸ h.symm), fun hnil => List.perm_nil.mp (hnil ▸ h)⟩
  rw [listText, listText, hempty]

/-- **Requests with the same filter have the same key.** -/
theorem createFilterKey_of_sameFilter (h : SameFilter q q') :
    createFilterKey q = createFilterKey q' := by
  have htagText : tagText q.tags = tagText q'.tags := by
    funext key
    have hrel := h.tags key
    rw [tagText, tagText]
    generalize q.tags.lookup key = values at hrel ⊢
    generalize q'.tags.lookup key = values' at hrel ⊢
    cases hrel with
    | some hperm => rw [getD_some, getD_some, sortTexts_eq_iff.mpr hperm]
    | none => rfl
  have htext : keyText q = keyText q' := by
    funext part
    cases part with
    | ids => rw [keyText, keyText, sortTexts_eq_iff.mpr h.ids, listText_of_perm h.ids]
    | authors =>
      rw [keyText, keyText, sortTexts_eq_iff.mpr h.authors, listText_of_perm h.authors]
    | kinds => rw [keyText, keyText, sortKinds_eq_iff.mpr h.kinds, listText_of_perm h.kinds]
    | tags =>
      have hkeys := perm_keys h.tags
      rw [keyText, keyText, sortTexts_eq_iff.mpr hkeys, listText_of_perm hkeys, htagText]
    | sinceTime => rw [keyText, keyText, h.sinceTime]
    | untilTime => rw [keyText, keyText, h.untilTime]
    | limit => rw [keyText, keyText, h.limit]
    | search => rw [keyText, keyText, h.search]
    | cacheFirst => rw [keyText, keyText, h.cacheFirst]
    | meshOnly => rw [keyText, keyText, h.meshOnly]
  rw [createFilterKey, createFilterKey, keyParts, keyParts, htext]

theorem tags_of_keyText (h : SeparatorFree q) (h' : SeparatorFree q')
    (htext : keyText q .tags = keyText q' .tags) (key : String) :
    Option.Rel List.Perm (q.tags.lookup key) (q'.tags.lookup key) := by
  have hsemicolon : ∀ {q : RoutedRequest}, SeparatorFree q →
      ∀ p ∈ (sortTexts q.tags.keys).map (tagText q.tags), ';' ∉ p := by
    intro q hq p hp
    obtain ⟨key, hkey, rfl⟩ := List.mem_map.mp hp
    refine not_mem_tagText (by decide) (by decide) (hq.tagKeys key (mem_sortTexts.mp hkey)).2.1 ?_
    exact fun values hvalues value hvalue => ((hq.tagValues key values hvalues).2 value hvalue).2.1
  have hcolon : ∀ {q : RoutedRequest}, SeparatorFree q →
      ∀ key ∈ sortTexts q.tags.keys, ':' ∉ key.toList :=
    fun hq key hkey => (hq.tagKeys key (mem_sortTexts.mp hkey)).1
  obtain ⟨hnil, hnil'⟩ | ⟨hne, hne', htext⟩ := listText_eq htext
  · have hnone : ∀ {tags : Map String (List String)}, tags.keys = [] → tags.lookup key = none := by
      intro tags hkeys
      refine AList.lookup_eq_none.mpr fun hmem => ?_
      rw [AList.mem_keys, hkeys] at hmem
      exact not_mem_nil hmem
    rw [hnone hnil, hnone hnil']
    exact .none
  · have hentries := eq_of_intercalate
      (fun hmap => sortTexts_ne_nil hne (List.map_eq_nil_iff.mp hmap))
      (fun hmap => sortTexts_ne_nil hne' (List.map_eq_nil_iff.mp hmap)) (hsemicolon h)
      (hsemicolon h') htext
    obtain ⟨hkeys, hvalues⟩ := map_tagText_inj (hcolon h) (hcolon h') hentries
    have hmem : key ∈ q.tags ↔ key ∈ q'.tags := by
      rw [AList.mem_keys, AList.mem_keys, ← mem_sortTexts, hkeys, mem_sortTexts]
    cases hlookup : q.tags.lookup key with
    | none =>
      rw [AList.lookup_eq_none.mpr fun hin => AList.lookup_eq_none.mp hlookup (hmem.mpr hin)]
      exact .none
    | some values =>
      have hin : key ∈ q.tags := AList.lookup_isSome.mp (by rw [hlookup]; rfl)
      obtain ⟨values', hlookup'⟩ :=
        Option.isSome_iff_exists.mp (AList.lookup_isSome.mpr (hmem.mp hin))
      have hsame := hvalues key (mem_sortTexts.mpr (AList.mem_keys.mp hin))
      obtain ⟨hne, hplain⟩ := h.tagValues key values hlookup
      obtain ⟨hne', hplain'⟩ := h'.tagValues key values' hlookup'
      rw [valuesText, valuesText, hlookup, hlookup', getD_some, getD_some] at hsame
      rw [hlookup']
      refine .some (sortTexts_eq_iff.mp (joinTexts_inj (sortTexts_ne_nil hne)
        (sortTexts_ne_nil hne') ?_ ?_ hsame))
      · exact fun value hvalue => (hplain value (mem_sortTexts.mp hvalue)).1
      · exact fun value hvalue => (hplain' value (mem_sortTexts.mp hvalue)).1

/-- **Without separators** requests with the same key have the same filter. -/
theorem createFilterKey_eq_iff (h : SeparatorFree q) (h' : SeparatorFree q') :
    createFilterKey q = createFilterKey q' ↔ SameFilter q q' := by
  refine ⟨fun hkey => ?_, createFilterKey_of_sameFilter⟩
  have htext := keyText_eq h h' hkey
  have hnumber : ∀ {n n' : Option Int32}, (n.map fun n => intText n.toInt)
      = (n'.map fun n => intText n.toInt) → n = n' :=
    fun heq => map_injective (fun a b hab => Int32.toInt_inj.mp (intText_inj hab)) heq
  have hbool : ∀ b b', boolText b = boolText b' → b = b' := by decide
  exact {
    ids := perm_of_listText (fun id hid => (h.ids id hid).1) (fun id hid => (h'.ids id hid).1)
      (htext .ids)
    authors := perm_of_listText (fun author hauthor => (h.authors author hauthor).1)
      (fun author hauthor => (h'.authors author hauthor).1) (htext .authors)
    kinds := perm_of_kindText (htext .kinds)
    tags := tags_of_keyText h h' (htext .tags)
    sinceTime := hnumber (htext .sinceTime)
    untilTime := hnumber (htext .untilTime)
    limit := hnumber (htext .limit)
    search := map_injective (fun a b => String.toList_inj.mp) (htext .search)
    cacheFirst := hbool _ _ (some.inj (htext .cacheFirst))
    meshOnly := hbool _ _ (some.inj (htext .meshOnly)) }

/-! ### Deduplication -/

/-- **Deduplication preserves the meaning of a list** exactly when its requests with the same
filter also have the same `no_cache`, `max_relays` and `cache_only`, and its requests with
different filters have different keys. -/
theorem deduplicate_preserves_iff (walk : IterOrder String) (found : String → Event → Prop)
    (requests : List RoutedRequest) :
    Preserves walk found requests ↔
      (∀ q ∈ requests, ∀ q' ∈ requests, SameFilter q q' →
        q.noCache = q'.noCache ∧ q.maxRelays = q'.maxRelays ∧ q.cacheOnly = q'.cacheOnly) ∧
      ∀ q ∈ requests, ∀ q' ∈ requests, ¬ SameFilter q q' →
        createFilterKey q ≠ createFilterKey q' := by
  rw [preserves_iff_keys]
  constructor
  · intro h
    refine ⟨fun q hq q' hq' hsame => ?_, fun q hq q' hq' hother hkey => ?_⟩
    · have hall := h q hq q' hq' (createFilterKey_of_sameFilter hsame)
      exact ⟨hall.noCache, hall.maxRelays, hall.cacheOnly⟩
    · exact hother (h q hq q' hq' hkey).filter
  · rintro ⟨hflags, hkeys⟩ q hq q' hq' hkey
    have hsame : SameFilter q q' := by
      by_contra hother
      exact hkeys q hq q' hq' hother hkey
    obtain ⟨hnoCache, hmaxRelays, hcacheOnly⟩ := hflags q hq q' hq' hsame
    exact ⟨hsame, hnoCache, hmaxRelays, hcacheOnly⟩

/-- The same, of requests without separators. -/
theorem preserves_iff_of_separatorFree (walk : IterOrder String) (found : String → Event → Prop)
    {requests : List RoutedRequest} (h : ∀ q ∈ requests, SeparatorFree q) :
    Preserves walk found requests ↔ ∀ q ∈ requests, ∀ q' ∈ requests, SameFilter q q' →
      q.noCache = q'.noCache ∧ q.maxRelays = q'.maxRelays ∧ q.cacheOnly = q'.cacheOnly := by
  rw [preserves_iff_keys]
  constructor
  · intro hkeys q hq q' hq' hsame
    have hall := hkeys q hq q' hq' (createFilterKey_of_sameFilter hsame)
    exact ⟨hall.noCache, hall.maxRelays, hall.cacheOnly⟩
  · intro hflags q hq q' hq' hkey
    have hsame := (createFilterKey_eq_iff (h q hq) (h q' hq')).mp hkey
    obtain ⟨hnoCache, hmaxRelays, hcacheOnly⟩ := hflags q hq q' hq' hsame
    exact ⟨hsame, hnoCache, hmaxRelays, hcacheOnly⟩

def profileRequest (noCache : Bool) (relay : String) : RoutedRequest where
  ids := []
  authors := []
  kinds := [0]
  tags := ∅
  sinceTime := none
  untilTime := none
  limit := none
  search := none
  relays := [relay]
  cacheFirst := false
  noCache := noCache
  maxRelays := 0
  cacheOnly := false
  meshOnly := false

theorem preserves_iff_profileRequests :
    let requests := [profileRequest true "wss://relay.one", profileRequest true "wss://relay.two"]
    Preserves (.entries String) (fun _ _ => False) requests ↔
      ∀ q ∈ requests, ∀ q' ∈ requests, SameFilter q q' →
        q.noCache = q'.noCache ∧ q.maxRelays = q'.maxRelays ∧ q.cacheOnly = q'.cacheOnly :=
  preserves_iff_of_separatorFree (.entries String) (fun _ _ => False) (by
    have hfree : ∀ relay, SeparatorFree (profileRequest true relay) := fun relay =>
      ⟨by simp [profileRequest], by simp [profileRequest], by simp [profileRequest],
        by simp [profileRequest], by simp [profileRequest]⟩
    intro q hq
    rcases List.mem_pair.mp hq with rfl | rfl
    · exact hfree _
    · exact hfree _)

/-- A request that must not be answered from the cache and one that may be: they become one. -/
theorem noCache_merged :
    ¬ Preserves (.entries String) (fun _ _ => False)
      [profileRequest true "wss://relay.one", profileRequest false "wss://relay.two"] := by
  intro h
  have hsame := h.merged _ mem_cons_self _ (mem_cons_of_mem _ mem_cons_self)
    (merged_iff.mpr rfl)
  exact absurd hsame.noCache (by decide)

end RequestDeduplicator

end Nipworker
