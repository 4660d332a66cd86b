/-
The key of a mint that a proof is verified with (`crypto/utils.rs`,
`pipeline/pipes/proof_verification.rs`).

A mint answers with its keysets, each with an id, a unit and the keys of its amounts.  The
body goes behind the JSON of the proof and a `|||`, is cut at that again, and then at every
comma and at the first colon of each part; all amounts go into one map.
-/
import Nipworker.Lib.Split
import Nipworker.Storage.AuthorSafety
import Nipworker.Types.ProofJson

namespace Nipworker

open JsonText BaseJsonParser List Option

/-! ### The code -/

/-- `ParserError`, as this code raises it. -/
inductive PayloadError
  | other (message : String)
  | parse (message : String)
  deriving DecidableEq, Repr

/-- `str::trim_matches('"')` after `str::trim`. -/
def bareText (cs : List Char) : List Char := Text.trimMatches (fun c => c = '"') (Text.trim cs)

/-- One turn of the loop of `parse_mint_keys_json`: what is put into the map. -/
def mintKeyUpdate (pair : List Char) : Option (ℕ × String) :=
  match Text.splitOnce ':' pair with
  | none => none
  | some (amount, key) =>
    (parseU64Text (String.ofList (bareText amount))).map fun amount =>
      (amount, String.ofList (bareText key))

/-- `parse_mint_keys_json`, which raises no error. -/
def parseMintKeysJson (content : List Char) : Map ℕ String :=
  if Text.trim content = [] then ∅
  else (content.splitOn ',').foldl (fun map pair =>
    match mintKeyUpdate pair with
    | some (amount, key) => map.insert amount key
    | none => map) ∅

def payloadSeparator : List Char := ['|', '|', '|']

def payloadParts (payload : List Char) : Option (List Char × List Char) :=
  match Text.splitAt payloadSeparator payload with
  | none => none
  | some (first, second) =>
    if (Text.splitAt payloadSeparator second).isSome then none else some (first, second)

/-- The proof and the keys, cut at `|||`. -/
def parseVerificationPayload (payload : List Char) :
    Except (ReadStop PayloadError) (Proof × Map ℕ String) :=
  match payloadParts payload with
  | none => .error (.error (.other "Invalid payload format: expected proof|||mint_keys"))
  | some (proofJson, mintKeysJson) =>
    match Proof.fromJson proofJson with
    | .error e => .error (e.map fun e => .parse e.display)
    | .ok proof => .ok (proof, parseMintKeysJson mintKeysJson)

/-- `k256` and `sha2`: the check of a DLEQ with a key, and the point of a secret. -/
structure MintCrypto where
  checkDleq : Proof → DleqProof → String → Bool
  computeYPoint : String → String

def verifyProofDleqWithKeys (crypto : MintCrypto) (proof : Proof) (keys : Map ℕ String) : Bool :=
  match proof.dleq with
  | none => false
  | some dleq =>
    match keys.lookup proof.amount.toNat with
    | none => false
    | some key => crypto.checkDleq proof dleq key

def verificationPayload (proof : Proof) (mintKeysJson : List Char) : List Char :=
  proof.toJson ++ (payloadSeparator ++ mintKeysJson)

/-- The check of a proof, and the point of its secret. -/
def verifyProofAndReturnYPoint (crypto : MintCrypto) (proof : Proof) (mintKeysJson : List Char) :
    Except (ReadStop PayloadError) String :=
  match parseVerificationPayload (verificationPayload proof mintKeysJson) with
  | .error e => .error e
  | .ok (proof, keys) =>
    .ok (if verifyProofDleqWithKeys crypto proof keys then crypto.computeYPoint proof.secret else "")

def keyUsed (proof : Proof) (mintKeysJson : List Char) : Option String :=
  match parseVerificationPayload (verificationPayload proof mintKeysJson) with
  | .error _ => none
  | .ok (proof, keys) => keys.lookup proof.amount.toNat

/-! ### The answer of a mint -/

def isHexChar (c : Char) : Bool := (Hex.digitValue c).isSome

/-- An entry of a `keys` object, with the blanks around it. -/
structure KeyEntry where
  amount : ℕ
  key : String
  before : List Char
  amountLit : List Piece
  afterAmount : List Char
  beforeKey : List Char
  keyLit : List Piece
  after : List Char
  blanks : Blank before ∧ Blank afterAmount ∧ Blank beforeKey ∧ Blank after
  amount_wf : ∀ p ∈ amountLit, p.Wf
  key_wf : ∀ p ∈ keyLit, p.Wf
  amount_spelled : literalValue amountLit = Nat.toDigits 10 amount
  key_spelled : literalValue keyLit = key.toList
  key_hex : key.toList.length = 66 ∧ ∀ c ∈ key.toList, isHexChar c = true

/-- The members of a keyset. -/
inductive KeysetField
  | id | unit | keys
  deriving DecidableEq, Repr

def KeysetField.name : KeysetField → String
  | id => "id"
  | unit => "unit"
  | keys => "keys"

/-- What stands behind the name of a member. -/
inductive KeysetValue
  | text (lit : List Piece)
  | keys (blank : List Char) (entries : List KeyEntry)

/-- The whitespace is whitespace, and a string has no comma. -/
def KeysetValue.Wf : KeysetValue → Prop
  | text lit => (∀ p ∈ lit, p.Wf) ∧ Piece.plain ',' ∉ lit
  | keys blank entries => Blank blank ∧ (entries.map KeyEntry.amount).Nodup

/-- A keys object is the value of `keys`, a string that of the others. -/
def KeysetValue.fits (field : KeysetField) : KeysetValue → Prop
  | text _ => field ≠ .keys
  | keys _ _ => field = .keys

/-- A member of a keyset, as it is written. -/
structure KeysetMember where
  field : KeysetField
  before : List Char
  nameLit : List Piece
  afterName : List Char
  beforeValue : List Char
  value : KeysetValue
  after : List Char
  blanks : Blank before ∧ Blank afterName ∧ Blank beforeValue ∧ Blank after
  name_wf : ∀ p ∈ nameLit, p.Wf
  name_spelled : literalValue nameLit = field.name.toList
  value_wf : value.Wf
  value_fits : value.fits field

def KeysetMember.entries (m : KeysetMember) : List KeyEntry :=
  match m.value with
  | .text _ => []
  | .keys _ entries => entries

def KeysetMember.id (m : KeysetMember) : Option String :=
  match m.value with
  | .text lit => if m.field = .id then some (String.ofList (literalValue lit)) else none
  | .keys _ _ => none

/-- A keyset with its members in some order, and its layout. -/
structure Keyset where
  before : List Char
  members : List KeysetMember
  after : List Char
  blanks : Blank before ∧ Blank after
  fields : (members.map KeysetMember.field).Perm [.id, .unit, .keys]

def Keyset.id (ks : Keyset) : Option String := ks.members.findSome? KeysetMember.id

def Keyset.entries (ks : Keyset) : List KeyEntry := ks.members.flatMap KeysetMember.entries

/-- The answer of a mint to `/v1/keys`, and its layout. -/
structure KeysBody where
  before : List Char
  blank : List Char
  nameLit : List Piece
  afterName : List Char
  beforeValue : List Char
  arrayBlank : List Char
  keysets : List Keyset
  afterValue : List Char
  after : List Char
  blanks : Blank before ∧ Blank blank ∧ Blank afterName ∧ Blank beforeValue ∧ Blank arrayBlank ∧
    Blank afterValue ∧ Blank after
  name_wf : ∀ p ∈ nameLit, p.Wf
  name_spelled : literalValue nameLit = "keysets".toList
  ids : (keysets.map Keyset.id).Nodup

def KeysBody.listed (body : KeysBody) (proof : Proof) : Option String :=
  (body.keysets.find? fun ks => ks.id = proof.id ∧ proof.id.isSome).bind fun ks =>
    (ks.entries.find? fun e => e.amount = proof.amount.toNat).map KeyEntry.key

/-! ### The text of an answer -/

def KeyEntry.text (e : KeyEntry) : List Char :=
  e.before ++ (quoted (literalText e.amountLit) ++ (e.afterAmount ++ (':' :: (e.beforeKey ++
    (quoted (literalText e.keyLit) ++ e.after)))))

def KeysetValue.toText : KeysetValue → List Char
  | text lit => quoted (literalText lit)
  | keys blank entries => '{' :: (blank ++ ([','].intercalate (entries.map KeyEntry.text) ++ ['}']))

def KeysetMember.text (m : KeysetMember) : List Char :=
  m.before ++ (quoted (literalText m.nameLit) ++ (m.afterName ++ (':' :: (m.beforeValue ++
    (m.value.toText ++ m.after)))))

def Keyset.text (ks : Keyset) : List Char :=
  ks.before ++ ('{' :: ([','].intercalate (ks.members.map KeysetMember.text) ++ ('}' :: ks.after)))

def KeysBody.text (body : KeysBody) : List Char :=
  body.before ++ ('{' :: (body.blank ++ (quoted (literalText body.nameLit) ++ (body.afterName ++
    (':' :: (body.beforeValue ++ ('[' :: (body.arrayBlank ++
      ([','].intercalate (body.keysets.map Keyset.text) ++ (']' :: (body.afterValue ++
        ('}' :: body.after))))))))))))

/-! ### The parts between the commas -/

/-- A character that keeps a text from being read as an amount, wherever it stands. -/
def stopsAmount (c : Char) : Bool :=
  !(c.isDigit || Text.isWhitespace c || c == '"' || c == '+')

variable {c d : Char} {cs post : List Char} {parts : List (List Char)} {es : List KeyEntry}
    {lit : List Piece}

theorem mem_trimMatches {p : Char → Bool} (hc : p c = false)
    (h : c ∈ cs) : c ∈ Text.trimMatches p cs := by
  have hdrop : ∀ l : List Char, c ∈ l → c ∈ l.dropWhile p := by
    intro l hl
    induction l with
    | nil => exact absurd hl not_mem_nil
    | cons d l ih =>
      by_cases hd : p d = true
      · rw [dropWhile_cons_of_pos hd]
        obtain rfl | hl := List.mem_cons.mp hl
        · rw [hc] at hd
          exact nomatch hd
        · exact ih hl
      · rw [dropWhile_cons_of_neg hd]
        exact hl
  rw [Text.trimMatches, mem_reverse]
  exact hdrop _ (List.mem_reverse.mpr (hdrop _ h))

theorem mem_bareText (hws : Text.isWhitespace c = false)
    (hquote : c ≠ '"') (h : c ∈ cs) : c ∈ bareText cs :=
  mem_trimMatches (decide_eq_false hquote) (mem_trimMatches hws h)

theorem parseDecimal_eq_none (hc : c.isDigit = false) (h : c ∈ cs) :
    Text.parseDecimal cs = none := by
  refine if_neg fun hall => ?_
  rw [List.all_eq_true.mp hall.2 c h] at hc
  exact nomatch hc

theorem parseU64Text_eq_none (hdigit : c.isDigit = false)
    (hplus : c ≠ '+') (h : c ∈ cs) : parseU64Text (String.ofList cs) = none := by
  have hdrop : c ∈ dropPlus cs := by
    unfold dropPlus
    split
    · exact (List.mem_cons.mp h).resolve_left hplus
    · exact h
  rw [parseU64Text, String.toList_ofList, parseDecimal_eq_none hdigit hdrop]
  rfl

/-- A part that puts nothing into the map: there is no amount in front of its colon. -/
def Skipped (part : List Char) : Prop :=
  ∃ front back, part = front ++ ':' :: back ∧ ':' ∉ front ∧ ∃ c ∈ front, stopsAmount c = true

namespace Skipped

variable {part : List Char}

theorem update (h : Skipped part) : mintKeyUpdate part = none := by
  obtain ⟨front, back, rfl, hcolon, c, hc, hstops⟩ := h
  rw [stopsAmount, Bool.not_eq_true', Bool.or_eq_false_iff, Bool.or_eq_false_iff,
    Bool.or_eq_false_iff] at hstops
  obtain ⟨⟨⟨hdigit, hws⟩, hquote⟩, hplus⟩ := hstops
  rw [mintKeyUpdate, Text.splitOnce_eq_some.mpr ⟨rfl, hcolon⟩]
  dsimp only
  rw [parseU64Text_eq_none hdigit (ne_of_beq_false hplus)
    (mem_bareText hws (ne_of_beq_false hquote) hc)]
  rfl

theorem append (h : Skipped part) (post : List Char) : Skipped (part ++ post) := by
  obtain ⟨front, back, rfl, hcolon, hstops⟩ := h
  exact ⟨front, back ++ post, by simp, hcolon, hstops⟩

theorem prepend (h : Skipped part) {pre : List Char} (hpre : ':' ∉ pre) : Skipped (pre ++ part) := by
  obtain ⟨front, back, rfl, hcolon, c, hc, hstops⟩ := h
  refine ⟨pre ++ front, back, by simp, fun hmem => ?_, c, mem_append_right _ hc, hstops⟩
  obtain hmem | hmem := List.mem_append.mp hmem
  · exact hpre hmem
  · exact hcolon hmem

end Skipped

/-- Something that may stand in front of a part that is skipped. -/
def Front (pre : List Char) : Prop := (':' ∉ pre ∨ Skipped pre) ∧ ',' ∉ pre

theorem Front.skipped {pre part : List Char} (h : Front pre) (hpart : Skipped part) :
    Skipped (pre ++ part) :=
  h.1.elim (fun hpre => hpart.prepend hpre) fun hpre => hpre.append part

/-- The parts of further entries: the last of them has the rest of the body up to the next
comma behind it. -/
inductive EntryRow : List (List Char) → List KeyEntry → Prop
  | nil : EntryRow [] []
  | last (e : KeyEntry) {suffix : List Char} : ',' ∉ suffix → suffix.head? = some '}' →
      EntryRow [e.text ++ suffix] [e]
  | cons (e : KeyEntry) {part : List Char} {parts : List (List Char)} {es : List KeyEntry} :
      ',' ∉ e.text → EntryRow (part :: parts) es → EntryRow (e.text :: part :: parts) (e :: es)

theorem EntryRow.appendLast (h : EntryRow parts es)
    (hpost : ',' ∉ post) : EntryRow (Text.appendLast post parts) es := by
  induction h with
  | nil => exact .nil
  | @last e suffix hcomma hhead =>
    rw [Text.appendLast, append_assoc]
    refine .last e (fun hmem => ?_) ?_
    · obtain hmem | hmem := List.mem_append.mp hmem
      · exact hcomma hmem
      · exact hpost hmem
    · rw [List.head?_append, hhead]
      rfl
  | @cons e part parts es hcomma h ih =>
    rw [Text.appendLast_cons _ _ (cons_ne_nil _ _)]
    have hne : Text.appendLast post (part :: parts) ≠ [] := by
      cases parts with
      | nil => exact cons_ne_nil _ _
      | cons _ _ => exact cons_ne_nil _ _
    obtain ⟨part', parts', heq⟩ := exists_cons_of_ne_nil hne
    rw [heq] at ih ⊢
    exact .cons e hcomma ih

/-- The parts of a member: the first is skipped, the others are the entries after the
first one. -/
def Row (parts : List (List Char)) (es : List KeyEntry) : Prop :=
  ∃ first rest, parts = first :: rest ∧ Skipped first ∧ ',' ∉ first ∧ EntryRow rest es

theorem Row.ne_nil (h : Row parts es) : parts ≠ [] := by
  obtain ⟨first, rest, rfl, -⟩ := h
  exact cons_ne_nil first rest

theorem Row.prependHead (h : Row parts es)
    {pre : List Char} (hpre : Front pre) : Row (Text.prependHead pre parts) es := by
  obtain ⟨first, rest, rfl, hskipped, hcomma, hrest⟩ := h
  refine ⟨pre ++ first, rest, rfl, hpre.skipped hskipped, fun hmem => ?_, hrest⟩
  obtain hmem | hmem := List.mem_append.mp hmem
  · exact hpre.2 hmem
  · exact hcomma hmem

theorem Row.appendLast (h : Row parts es)
    (hpost : ',' ∉ post) : Row (Text.appendLast post parts) es := by
  obtain ⟨first, rest, rfl, hskipped, hcomma, hrest⟩ := h
  cases rest with
  | nil =>
    refine ⟨first ++ post, [], rfl, hskipped.append post, fun hmem => ?_, hrest⟩
    obtain hmem | hmem := List.mem_append.mp hmem
    · exact hcomma hmem
    · exact hpost hmem
  | cons part rest =>
    rw [Text.appendLast_cons _ _ (cons_ne_nil _ _)]
    exact ⟨first, _, rfl, hskipped, hcomma, hrest.appendLast hpost⟩

def Cut (ess : List (List KeyEntry)) (text : List Char) : Prop :=
  ∃ rows, List.Forall₂ Row rows ess ∧ rows ≠ [] ∧ [','].intercalate rows.flatten = text

namespace Cut

variable {ess ess' : List (List KeyEntry)} {text text' : List Char}

theorem flatten_ne_nil {rows : List (List (List Char))} (h : List.Forall₂ Row rows ess)
    (hne : rows ≠ []) : rows.flatten ≠ [] := by
  cases h with
  | nil => exact absurd rfl hne
  | cons hrow _ => simp [hrow.ne_nil]

theorem single {parts : List (List Char)} {es : List KeyEntry} (h : Row parts es) :
    Cut [es] ([','].intercalate parts) :=
  ⟨[parts], .cons h .nil, cons_ne_nil _ _, by simp⟩

theorem join (h : Cut ess text) (h' : Cut ess' text') : Cut (ess ++ ess') (text ++ ',' :: text') := by
  obtain ⟨rows, hrows, hne, rfl⟩ := h
  obtain ⟨rows', hrows', hne', rfl⟩ := h'
  refine ⟨rows ++ rows', rel_append hrows hrows', by simp [hne], ?_⟩
  rw [flatten_append, Text.intercalate_append _ (flatten_ne_nil hrows hne)
    (flatten_ne_nil hrows' hne')]
  rfl

theorem list {ι : Type} {es : ι → List (List KeyEntry)} {t : ι → List Char} {items : List ι}
    (hne : items ≠ []) (h : ∀ i ∈ items, Cut (es i) (t i)) :
    Cut (items.flatMap es) ([','].intercalate (items.map t)) := by
  induction items with
  | nil => exact absurd rfl hne
  | cons i items ih =>
    cases items with
    | nil =>
      simp only [flatMap_cons, flatMap_nil, append_nil, map_cons, map_nil,
        intercalate_singleton]
      exact h i mem_cons_self
    | cons j items =>
      rw [flatMap_cons, map_cons, map_cons, intercalate_cons_cons,
        ← map_cons, append_assoc]
      exact (h i mem_cons_self).join
        (ih (cons_ne_nil _ _) fun k hk => h k (mem_cons_of_mem _ hk))

theorem prepend (h : Cut ess text) {pre : List Char} (hpre : Front pre) : Cut ess (pre ++ text) := by
  obtain ⟨rows, hrows, hne, rfl⟩ := h
  cases hrows with
  | nil => exact absurd rfl hne
  | @cons row es rows ess hrow hrows =>
    refine ⟨Text.prependHead pre row :: rows, .cons (hrow.prependHead hpre) hrows,
      cons_ne_nil _ _, ?_⟩
    rw [flatten_cons, ← Text.prependHead_append pre hrow.ne_nil, flatten_cons,
      Text.intercalate_prependHead]
    simp [hrow.ne_nil]

theorem append (h : Cut ess text) {post : List Char} (hpost : ',' ∉ post) :
    Cut ess (text ++ post) := by
  obtain ⟨rows, hrows, hne, rfl⟩ := h
  induction hrows with
  | nil => exact absurd rfl hne
  | @cons row es rows ess hrow hrows ih =>
    cases hrows with
    | nil =>
      refine ⟨[Text.appendLast post row], .cons (hrow.appendLast hpost) .nil, cons_ne_nil _ _, ?_⟩
      simp [Text.intercalate_appendLast _ _ hrow.ne_nil]
    | @cons row' es' rows ess hrow' hrows =>
      obtain ⟨rows', hrows', hne', heq⟩ := ih (cons_ne_nil _ _)
      have hflat := flatten_ne_nil (.cons hrow' hrows) (cons_ne_nil row' rows)
      refine ⟨row :: rows', .cons hrow hrows', cons_ne_nil _ _, ?_⟩
      have htotal : (row :: row' :: rows).flatten = row ++ (row' :: rows).flatten := rfl
      rw [flatten_cons, Text.intercalate_append _ hrow.ne_nil (flatten_ne_nil hrows' hne'), heq,
        htotal, Text.intercalate_append _ hrow.ne_nil hflat, append_assoc, append_assoc]

end Cut

/-! ### What gets into the map -/

/-- What an entry puts into the map: nothing when its amount is spelled with an escape or
does not fit; `none` for a text that is no key. -/
def KeyEntry.kept (e : KeyEntry) (isLast : Bool) : Option (ℕ × Option String) :=
  if e.amountLit.all Piece.isPlain ∧ e.amount < 2 ^ 64 then
    some (e.amount, if isLast = false ∧ e.keyLit.all Piece.isPlain then some e.key else none)
  else none

/-- What the entries after the first one put into the map. -/
def keptEntries : List KeyEntry → List (ℕ × Option String)
  | [] => []
  | [e] => (e.kept true).toList
  | e :: es => (e.kept false).toList ++ keptEntries es

def KeysBody.kept (body : KeysBody) : List (ℕ × Option String) :=
  body.keysets.flatMap fun ks => ks.members.flatMap fun m => keptEntries m.entries.tail

/-- The same amount, and the key or something that is no hexadecimal text. -/
def Agrees (update : ℕ × String) (kept : ℕ × Option String) : Prop :=
  update.1 = kept.1 ∧
    match kept.2 with
    | some key => update.2 = key
    | none => ∃ c ∈ update.2.toList, isHexChar c = false

/-! The text of a literal. -/

theorem separator_of_mem (hd : d = ',' ∨ d = ':') {p : Piece} (hp : p.Wf)
    (h : d ∈ p.text) : p = .plain d := by
  have hhex : hexDigit d = none := by
    obtain rfl | rfl := hd <;> decide
  have hdigits : ∀ {hex : List Char} {n : ℕ}, hex4 hex = some n → d ∉ hex := by
    intro hex n hn hmem
    unfold hex4 at hn
    split at hn
    · simp only [bind_eq_bind, bind_eq_some_iff] at hn
      obtain ⟨_, ha, _, hb, _, hc, _, hd', -⟩ := hn
      simp only [mem_cons, not_mem_nil, or_false] at hmem
      obtain rfl | rfl | rfl | rfl := hmem
      · exact nomatch hhex.symm.trans ha
      · exact nomatch hhex.symm.trans hb
      · exact nomatch hhex.symm.trans hc
      · exact nomatch hhex.symm.trans hd'
    · exact nomatch hn
  cases p with
  | plain c => rw [List.mem_singleton.mp h]
  | short e =>
    obtain rfl | rfl := hd <;> cases e <;> exact absurd h (by decide)
  | unicode c hex =>
    obtain h | h | h := by simpa [Piece.text] using h
    · obtain rfl | rfl := hd <;> exact absurd h (by decide)
    · obtain rfl | rfl := hd <;> exact absurd h (by decide)
    · exact absurd h (hdigits hp)
  | surrogates c high low =>
    obtain ⟨hi, lo, hhigh, hlow, -⟩ := hp
    obtain h | h | h | h | h | h := by simpa [Piece.text] using h
    · obtain rfl | rfl := hd <;> exact absurd h (by decide)
    · obtain rfl | rfl := hd <;> exact absurd h (by decide)
    · exact absurd h (hdigits hhigh)
    · obtain rfl | rfl := hd <;> exact absurd h (by decide)
    · obtain rfl | rfl := hd <;> exact absurd h (by decide)
    · exact absurd h (hdigits hlow)

theorem separator_not_mem (hd : d = ',' ∨ d = ':')
    (hlit : ∀ p ∈ lit, p.Wf) (h : Piece.plain d ∉ lit) : d ∉ literalText lit := by
  intro hmem
  obtain ⟨p, hp, hdp⟩ := List.mem_flatMap.mp hmem
  exact h (separator_of_mem hd (hlit p hp) hdp ▸ hp)

theorem plain_not_mem (h : literalValue lit = cs) (hd : d ∉ cs) : Piece.plain d ∉ lit := fun hmem =>
  hd (h ▸ List.mem_map.mpr ⟨_, hmem, rfl⟩)

theorem quoted_not_mem (hd : d = ',' ∨ d = ':')
    (hlit : ∀ p ∈ lit, p.Wf) (h : Piece.plain d ∉ lit) : d ∉ quoted (literalText lit) := by
  have hquote : d ≠ '"' := by
    obtain rfl | rfl := hd <;> decide
  intro hmem
  obtain hmem | hmem := List.mem_cons.mp hmem
  · exact hquote hmem
  · obtain hmem | hmem := List.mem_append.mp hmem
    · exact separator_not_mem hd hlit h hmem
    · exact hquote (List.mem_singleton.mp hmem)

theorem blank_not_mem (hd : isWs d = false) (h : Blank cs) : d ∉ cs := by
  intro hmem
  rw [h d hmem] at hd
  exact nomatch hd

theorem isWhitespace_of_isWs (h : isWs c = true) : Text.isWhitespace c = true := by
  rw [isWs, decide_eq_true_iff] at h
  obtain rfl | rfl | rfl | rfl := h <;> decide

theorem bareText_quoted {before after : List Char} (hbefore : Blank before) (hafter : Blank after)
    (hcs : '"' ∉ cs) : bareText (before ++ (quoted cs ++ after)) = cs := by
  have hws : ∀ {blank : List Char}, Blank blank → ∀ c ∈ blank, Text.isWhitespace c = true :=
    fun h c hc => isWhitespace_of_isWs (h c hc)
  have htrim : Text.trim (before ++ (quoted cs ++ after)) = quoted cs := by
    have hfront : (before ++ (quoted cs ++ after)).dropWhile Text.isWhitespace =
        quoted cs ++ after := by
      rw [dropWhile_append_of_pos (hws hbefore), quoted, cons_append,
        dropWhile_cons_of_neg (by decide)]
    have hback : (quoted cs ++ after).reverse.dropWhile Text.isWhitespace = (quoted cs).reverse := by
      have hrev : (quoted cs).reverse = '"' :: (cs.reverse ++ ['"']) := by simp [quoted]
      rw [reverse_append, dropWhile_append_of_pos fun c hc =>
        hws hafter c (List.mem_reverse.mp hc), hrev, dropWhile_cons_of_neg (by decide)]
    rw [Text.trim, Text.trimMatches, hfront, hback, reverse_reverse]
  have hno : ∀ l : List Char, '"' ∉ l → l.dropWhile (fun c => decide (c = '"')) = l := by
    intro l hl
    cases l with
    | nil => rfl
    | cons c l =>
      have hc : c ≠ '"' := fun h => hl (h ▸ mem_cons_self)
      exact dropWhile_cons_of_neg fun h => hc (decide_eq_true_iff.mp h)
  have hquotes : (quoted cs).dropWhile (fun c => decide (c = '"')) = cs ++ ['"'] ∨ cs = [] := by
    cases cs with
    | nil => exact .inr rfl
    | cons c cs =>
      have hc : c ≠ '"' := fun h => hcs (h ▸ mem_cons_self)
      have hquote : ¬ decide (c = '"') = true := fun h => hc (decide_eq_true_iff.mp h)
      refine .inl ?_
      rw [quoted, dropWhile_cons_of_pos (by decide), cons_append]
      exact dropWhile_cons_of_neg hquote
  rw [bareText, htrim]
  obtain hquotes | rfl := hquotes
  · rw [Text.trimMatches, hquotes, reverse_append, reverse_singleton,
      singleton_append, dropWhile_cons_of_pos (by decide),
      hno _ fun h => hcs (List.mem_reverse.mp h), reverse_reverse]
  · rfl

/-! ### The entries of a keys object -/

theorem quote_not_mem (hlit : ∀ p ∈ lit, p.Wf)
    (hvalue : literalValue lit = cs) (hcs : '"' ∉ cs) : '"' ∉ literalText lit := by
  intro hmem
  obtain ⟨p, hp, hquote⟩ := List.mem_flatMap.mp hmem
  have hpiece := quote_of_mem (hlit p hp).closed hquote
  exact hcs (hvalue ▸ List.mem_map.mpr ⟨p, hp, by rw [hpiece]; rfl⟩)

theorem all_isPlain_iff : lit.all Piece.isPlain = true ↔ Plain lit :=
  all_eq_true

theorem parseU64Text_literal {amount : ℕ} (hvalue : literalValue lit = Nat.toDigits 10 amount) :
    parseU64Text (String.ofList (literalText lit)) =
      if lit.all Piece.isPlain ∧ amount < 2 ^ 64 then some amount else none := by
  by_cases hplain : lit.all Piece.isPlain = true
  · rw [literalText_of_plain (all_isPlain_iff.mp hplain), hvalue, parseU64Text,
      String.toList_ofList, dropPlus_toDigits, Text.parseDecimal_toDigits]
    by_cases hfits : amount < 2 ^ 64
    · rw [if_pos ⟨hplain, hfits⟩]
      exact Option.filter_eq_some_iff.mpr ⟨rfl, decide_eq_true hfits⟩
    · rw [if_neg fun h => hfits h.2]
      exact Option.filter_eq_none_iff.mpr fun n hn => by
        obtain rfl := some.inj hn
        rwa [decide_eq_true_iff]
  · rw [if_neg fun h => hplain h.1]
    exact parseU64Text_eq_none (by decide) (by decide)
      (backslash_mem_of_not_plain fun h => hplain (all_isPlain_iff.mpr h))

namespace KeyEntry

variable (e : KeyEntry)

theorem hex_not_mem {c : Char} (hc : isHexChar c = false) : c ∉ e.key.toList := fun hmem => by
  rw [e.key_hex.2 c hmem] at hc
  exact nomatch hc

theorem digit_not_mem {c : Char} (hc : c.isDigit = false) : c ∉ Nat.toDigits 10 e.amount :=
  fun hmem => by
    rw [Nat.isDigit_of_mem_toDigits (by decide) (by decide) hmem] at hc
    exact nomatch hc

theorem comma_not_mem : ',' ∉ e.text := by
  have hws : isWs ',' = false := by decide
  have hamount := quoted_not_mem (.inl rfl) e.amount_wf
    (plain_not_mem e.amount_spelled (e.digit_not_mem (c := ',') (by decide)))
  have hkey := quoted_not_mem (.inl rfl) e.key_wf
    (plain_not_mem e.key_spelled (e.hex_not_mem (c := ',') (by decide)))
  obtain ⟨h1, h2, h3, h4⟩ := e.blanks
  simp only [text, mem_append, mem_cons, not_or]
  exact ⟨blank_not_mem hws h1, hamount, blank_not_mem hws h2, by decide, blank_not_mem hws h3,
    hkey, blank_not_mem hws h4⟩

theorem update_eq (suffix : List Char) : mintKeyUpdate (e.text ++ suffix) =
    if e.amountLit.all Piece.isPlain ∧ e.amount < 2 ^ 64 then
      some (e.amount, String.ofList (bareText (e.beforeKey ++
        (quoted (literalText e.keyLit) ++ (e.after ++ suffix)))))
    else none := by
  have hws : isWs ':' = false := by decide
  obtain ⟨hbefore, hafter, -, -⟩ := e.blanks
  have hcolon : ':' ∉ e.before ++ (quoted (literalText e.amountLit) ++ e.afterAmount) := by
    simp only [mem_append, not_or]
    exact ⟨blank_not_mem hws hbefore, quoted_not_mem (.inr rfl) e.amount_wf
      (plain_not_mem e.amount_spelled (e.digit_not_mem (by decide))), blank_not_mem hws hafter⟩
  have hsplit : e.text ++ suffix = (e.before ++ (quoted (literalText e.amountLit) ++ e.afterAmount)) ++
      ':' :: (e.beforeKey ++ (quoted (literalText e.keyLit) ++ (e.after ++ suffix))) := by
    simp [text]
  rw [mintKeyUpdate, Text.splitOnce_eq_some.mpr ⟨hsplit, hcolon⟩]
  dsimp only
  rw [bareText_quoted hbefore hafter
    (quote_not_mem e.amount_wf e.amount_spelled (e.digit_not_mem (by decide))),
    parseU64Text_literal e.amount_spelled]
  split <;> rfl

theorem kept_eq (isLast : Bool) : e.kept isLast =
    if e.amountLit.all Piece.isPlain ∧ e.amount < 2 ^ 64 then
      some (e.amount, if isLast = false ∧ e.keyLit.all Piece.isPlain then some e.key else none)
    else none := rfl

theorem update_inner : List.Forall₂ Agrees (mintKeyUpdate e.text).toList (e.kept false).toList := by
  rw [← append_nil e.text, e.update_eq, e.kept_eq, append_nil]
  by_cases hread : e.amountLit.all Piece.isPlain ∧ e.amount < 2 ^ 64
  · rw [if_pos hread, if_pos hread]
    refine .cons ⟨rfl, ?_⟩ .nil
    dsimp only
    rw [bareText_quoted e.blanks.2.2.1 e.blanks.2.2.2
      (quote_not_mem e.key_wf e.key_spelled (e.hex_not_mem (by decide)))]
    by_cases hplain : e.keyLit.all Piece.isPlain = true
    · rw [if_pos ⟨rfl, hplain⟩, literalText_of_plain (all_isPlain_iff.mp hplain), e.key_spelled]
      exact String.ofList_toList
    · rw [if_neg fun h => hplain h.2]
      refine ⟨'\\', ?_, by decide⟩
      rw [String.toList_ofList]
      exact backslash_mem_of_not_plain fun h => hplain (all_isPlain_iff.mpr h)
  · rw [if_neg hread, if_neg hread]
    exact .nil

theorem update_last {suffix : List Char} (hsuffix : suffix.head? = some '}') :
    List.Forall₂ Agrees (mintKeyUpdate (e.text ++ suffix)).toList (e.kept true).toList := by
  rw [e.update_eq, e.kept_eq]
  by_cases hread : e.amountLit.all Piece.isPlain ∧ e.amount < 2 ^ 64
  · rw [if_pos hread, if_pos hread, if_neg fun h => nomatch h.1]
    refine .cons ⟨rfl, '}', ?_, by decide⟩ .nil
    rw [String.toList_ofList]
    refine mem_bareText (by decide) (by decide) ?_
    simp only [mem_append]
    exact .inr (.inr (.inr (mem_of_mem_head? hsuffix)))
  · rw [if_neg hread, if_neg hread]
    exact .nil

end KeyEntry

theorem EntryRow.updates (h : EntryRow parts es) :
    List.Forall₂ Agrees (parts.filterMap mintKeyUpdate) (keptEntries es) := by
  induction h with
  | nil => exact .nil
  | last e hcomma hhead =>
    have hlast := e.update_last hhead
    rw [filterMap_cons, filterMap_nil]
    cases hupdate : mintKeyUpdate (e.text ++ _) with
    | none => rwa [hupdate] at hlast
    | some update => rwa [hupdate] at hlast
  | @cons e part parts es hcomma h ih =>
    obtain ⟨e', es', rfl⟩ : ∃ e' es', es = e' :: es' := by
      cases h with
      | last e' => exact ⟨e', [], rfl⟩
      | cons e' _ _ => exact ⟨e', _, rfl⟩
    have hcons : (e.text :: part :: parts).filterMap mintKeyUpdate =
        (mintKeyUpdate e.text).toList ++ (part :: parts).filterMap mintKeyUpdate := by
      rw [filterMap_cons]
      cases mintKeyUpdate e.text <;> rfl
    rw [hcons]
    exact rel_append e.update_inner ih

theorem EntryRow.comma_not_mem (h : EntryRow parts es) : ∀ part ∈ parts, ',' ∉ part := by
  induction h with
  | nil => exact fun part h => absurd h not_mem_nil
  | last e hcomma hhead =>
    intro part hpart hmem
    rw [List.mem_singleton.mp hpart] at hmem
    obtain hmem | hmem := List.mem_append.mp hmem
    · exact e.comma_not_mem hmem
    · exact hcomma hmem
  | cons e hcomma h ih =>
    intro part hpart
    obtain rfl | hpart := List.mem_cons.mp hpart
    · exact hcomma
    · exact ih part hpart

theorem Row.updates (h : Row parts es) :
    List.Forall₂ Agrees (parts.filterMap mintKeyUpdate) (keptEntries es) := by
  obtain ⟨first, rest, rfl, hskipped, -, hrest⟩ := h
  rw [filterMap_cons, hskipped.update]
  exact hrest.updates

theorem Row.comma_not_mem (h : Row parts es) : ∀ part ∈ parts, ',' ∉ part := by
  obtain ⟨first, rest, rfl, -, hcomma, hrest⟩ := h
  intro part hpart
  obtain rfl | hpart := List.mem_cons.mp hpart
  · exact hcomma
  · exact hrest.comma_not_mem part hpart

theorem Cut.updates {ess : List (List KeyEntry)} {text : List Char} (h : Cut ess text) :
    List.Forall₂ Agrees ((text.splitOn ',').filterMap mintKeyUpdate) (ess.flatMap keptEntries) := by
  obtain ⟨rows, hrows, hne, rfl⟩ := h
  have hparts : (∀ part ∈ rows.flatten, ',' ∉ part) ∧
      List.Forall₂ Agrees (rows.flatten.filterMap mintKeyUpdate) (ess.flatMap keptEntries) := by
    clear hne
    induction hrows with
    | nil => exact ⟨fun part h => absurd h not_mem_nil, .nil⟩
    | @cons row es rows ess hrow hrows ih =>
      refine ⟨fun part hpart => ?_, ?_⟩
      · obtain hpart | hpart := List.mem_append.mp hpart
        · exact hrow.comma_not_mem part hpart
        · exact ih.1 part hpart
      · rw [flatten_cons, filterMap_append, flatMap_cons]
        exact rel_append hrow.updates ih.2
  rw [splitOn_intercalate ',' hparts.1 (Cut.flatten_ne_nil hrows hne)]
  exact hparts.2

/-! ### The members, the keysets and the body -/

theorem exists_stopsAmount (hvalue : literalValue lit = c :: cs) (hc : stopsAmount c = true) :
    ∃ d ∈ literalText lit, stopsAmount d = true := by
  by_cases hplain : Plain lit
  · rw [literalText_of_plain hplain, hvalue]
    exact ⟨c, mem_cons_self, hc⟩
  · exact ⟨'\\', backslash_mem_of_not_plain hplain, by decide⟩

theorem skipped_name {before after : List Char} (hbefore : Blank before) (hafter : Blank after)
    (hlit : ∀ p ∈ lit, p.Wf)
    (hvalue : literalValue lit = c :: cs) (hc : stopsAmount c = true) (hcolon : ':' ∉ c :: cs)
    (rest : List Char) : Skipped (before ++ (quoted (literalText lit) ++ (after ++ ':' :: rest))) := by
  have hws : isWs ':' = false := by decide
  refine ⟨before ++ (quoted (literalText lit) ++ after), rest, by simp, ?_, ?_⟩
  · simp only [mem_append, not_or]
    exact ⟨blank_not_mem hws hbefore, quoted_not_mem (.inr rfl) hlit (plain_not_mem hvalue hcolon),
      blank_not_mem hws hafter⟩
  · obtain ⟨d, hd, hstops⟩ := exists_stopsAmount hvalue hc
    exact ⟨d, by simp [quoted, hd], hstops⟩

theorem entryRow_text (es : List KeyEntry) (hpost : ',' ∉ post) :
    EntryRow (Text.appendLast ('}' :: post) (es.map KeyEntry.text)) es := by
  have hsuffix : ',' ∉ '}' :: post := fun hmem =>
    hpost ((List.mem_cons.mp hmem).resolve_left (by decide))
  induction es with
  | nil => exact .nil
  | cons e es ih =>
    cases es with
    | nil => exact .last e hsuffix rfl
    | cons e' es =>
      obtain ⟨part, parts, heq⟩ : ∃ part parts,
          Text.appendLast ('}' :: post) ((e' :: es).map KeyEntry.text) = part :: parts := by
        cases es with
        | nil => exact ⟨_, _, rfl⟩
        | cons e'' es => exact ⟨_, _, rfl⟩
      rw [heq] at ih
      rw [map_cons, Text.appendLast_cons _ _ (by simp), heq]
      exact .cons e e.comma_not_mem ih

theorem cut_object {front : List Char} (hfront : Skipped front) (hcomma : ',' ∉ front)
    (es : List KeyEntry) (hpost : ',' ∉ post) :
    Cut [es.tail] (front ++ ([','].intercalate (es.map KeyEntry.text) ++ '}' :: post)) := by
  have hsuffix : ',' ∉ '}' :: post := fun hmem =>
    hpost ((List.mem_cons.mp hmem).resolve_left (by decide))
  have hone : ∀ {more : List Char}, ',' ∉ more → Cut [[]] (front ++ more) := by
    intro more hmore
    have hrow : Row [front ++ more] [] := ⟨_, [], rfl, hfront.append more, fun hmem =>
      (List.mem_append.mp hmem).elim hcomma hmore, .nil⟩
    have hcut := Cut.single hrow
    rwa [intercalate_singleton] at hcut
  cases es with
  | nil => exact hone hsuffix
  | cons e es =>
    cases es with
    | nil =>
      rw [map_cons, map_nil, intercalate_singleton]
      exact hone fun hmem => (List.mem_append.mp hmem).elim e.comma_not_mem hsuffix
    | cons e' es =>
      have hrow : Row ((front ++ e.text) ::
          Text.appendLast ('}' :: post) ((e' :: es).map KeyEntry.text)) (e' :: es) :=
        ⟨_, _, rfl, hfront.append e.text, fun hmem =>
          (List.mem_append.mp hmem).elim hcomma e.comma_not_mem, entryRow_text (e' :: es) hpost⟩
      have hcut := Cut.single hrow
      have hne : (e' :: es).map KeyEntry.text ≠ [] := cons_ne_nil _ _
      rw [← Text.appendLast_cons _ _ hne, Text.intercalate_appendLast _ _ (cons_ne_nil _ _)] at hcut
      rw [map_cons, map_cons, intercalate_cons_cons]
      rw [map_cons, intercalate_cons_cons] at hcut
      simpa [append_assoc] using hcut

namespace KeysetField

theorem name_stops (field : KeysetField) : ∃ c cs, field.name.toList = c :: cs ∧
    stopsAmount c = true ∧ ':' ∉ c :: cs ∧ ',' ∉ c :: cs := by
  cases field with
  | id => exact ⟨'i', ['d'], rfl, by decide⟩
  | unit => exact ⟨'u', ['n', 'i', 't'], rfl, by decide⟩
  | keys => exact ⟨'k', ['e', 'y', 's'], rfl, by decide⟩

end KeysetField

namespace KeysetMember

variable (m : KeysetMember)

theorem text_eq : m.text = m.before ++ (quoted (literalText m.nameLit) ++ (m.afterName ++
    (':' :: (m.beforeValue ++ (m.value.toText ++ m.after))))) := rfl

theorem front_skipped (rest : List Char) : Skipped (m.before ++ (quoted (literalText m.nameLit) ++
    (m.afterName ++ ':' :: rest))) := by
  obtain ⟨c, cs, hname, hstops, hcolon, -⟩ := m.field.name_stops
  exact skipped_name m.blanks.1 m.blanks.2.1 m.name_wf (m.name_spelled.trans hname) hstops hcolon rest

theorem front_comma {rest : List Char} (hrest : ',' ∉ rest) :
    ',' ∉ m.before ++ (quoted (literalText m.nameLit) ++ (m.afterName ++ ':' :: rest)) := by
  have hws : isWs ',' = false := by decide
  obtain ⟨c, cs, hname, -, -, hcomma⟩ := m.field.name_stops
  simp only [mem_append, mem_cons, not_or]
  exact ⟨blank_not_mem hws m.blanks.1, quoted_not_mem (.inl rfl) m.name_wf
    (plain_not_mem (m.name_spelled.trans hname) hcomma), blank_not_mem hws m.blanks.2.1, by decide,
    hrest⟩

theorem cut : Cut [m.entries.tail] m.text := by
  have hws : isWs ',' = false := by decide
  obtain ⟨-, -, hbefore, hafter⟩ := m.blanks
  cases hvalue : m.value with
  | text lit =>
    have hwf := m.value_wf
    rw [hvalue] at hwf
    have hentries : m.entries = [] := by rw [entries, hvalue]
    have hrow : Row [m.text] [] := by
      refine ⟨m.text, [], rfl, m.front_skipped _, m.front_comma ?_, .nil⟩
      rw [hvalue]
      simp only [mem_append, not_or]
      exact ⟨blank_not_mem hws hbefore, quoted_not_mem (.inl rfl) hwf.1 hwf.2,
        blank_not_mem hws hafter⟩
    have hcut := Cut.single hrow
    rw [intercalate_singleton] at hcut
    rwa [hentries]
  | keys blank es =>
    have hwf := m.value_wf
    rw [hvalue] at hwf
    have hentries : m.entries = es := by rw [entries, hvalue]
    have hcomma : ',' ∉ m.beforeValue ++ '{' :: blank := by
      simp only [mem_append, mem_cons, not_or]
      exact ⟨blank_not_mem hws hbefore, by decide, blank_not_mem hws hwf.1⟩
    have hcut := cut_object (m.front_skipped (m.beforeValue ++ '{' :: blank)) (m.front_comma hcomma)
      es (blank_not_mem hws hafter)
    rw [hentries, m.text_eq, hvalue]
    simpa [KeysetValue.toText] using hcut

end KeysetMember

namespace Keyset

variable (ks : Keyset)

theorem members_ne_nil : ks.members ≠ [] := fun h => by
  have hlength := ks.fields.length_eq
  rw [h] at hlength
  exact nomatch hlength

theorem cut : Cut (ks.members.map fun m => m.entries.tail) ks.text := by
  have hmembers : Cut (ks.members.flatMap fun m => [m.entries.tail])
      ([','].intercalate (ks.members.map KeysetMember.text)) :=
    Cut.list ks.members_ne_nil fun m _ => m.cut
  have hfront : Front (ks.before ++ ['{']) := by
    have hws : isWs ':' = false ∧ isWs ',' = false := by decide
    refine ⟨.inl ?_, ?_⟩ <;> rw [mem_append, mem_singleton, not_or]
    · exact ⟨blank_not_mem hws.1 ks.blanks.1, by decide⟩
    · exact ⟨blank_not_mem hws.2 ks.blanks.1, by decide⟩
  have hafter : ',' ∉ '}' :: ks.after := fun hmem =>
    blank_not_mem (by decide) ks.blanks.2 ((List.mem_cons.mp hmem).resolve_left (by decide))
  have hcut := (hmembers.prepend hfront).append hafter
  rw [← map_eq_flatMap] at hcut
  simpa [text] using hcut

end Keyset

namespace KeysBody

variable (body : KeysBody)

def front : List Char :=
  body.before ++ '{' :: (body.blank ++ (quoted (literalText body.nameLit) ++ (body.afterName ++
    ':' :: (body.beforeValue ++ '[' :: body.arrayBlank))))

def back : List Char := ']' :: (body.afterValue ++ '}' :: body.after)

theorem text_eq : body.text =
    body.front ++ ([','].intercalate (body.keysets.map Keyset.text) ++ body.back) := by
  simp [text, front, back]

theorem front_skipped : Skipped body.front := by
  have hws : isWs ':' = false := by decide
  obtain ⟨h1, h2, h3, -⟩ := body.blanks
  refine ⟨body.before ++ '{' :: (body.blank ++ (quoted (literalText body.nameLit) ++ body.afterName)),
    body.beforeValue ++ '[' :: body.arrayBlank, by simp [front], ?_, '{', by simp, by decide⟩
  simp only [mem_append, mem_cons, not_or]
  exact ⟨blank_not_mem hws h1, by decide, blank_not_mem hws h2, quoted_not_mem (.inr rfl) body.name_wf
    (plain_not_mem body.name_spelled (by decide)), blank_not_mem hws h3⟩

theorem front_comma : ',' ∉ body.front := by
  have hws : isWs ',' = false := by decide
  obtain ⟨h1, h2, h3, h4, h5, -⟩ := body.blanks
  simp only [front, mem_append, mem_cons, not_or]
  exact ⟨blank_not_mem hws h1, by decide, blank_not_mem hws h2, quoted_not_mem (.inl rfl) body.name_wf
    (plain_not_mem body.name_spelled (by decide)), blank_not_mem hws h3, by decide,
    blank_not_mem hws h4, by decide, blank_not_mem hws h5⟩

theorem back_comma : ',' ∉ body.back := by
  have hws : isWs ',' = false := by decide
  obtain ⟨-, -, -, -, -, h6, h7⟩ := body.blanks
  simp only [back, mem_append, mem_cons, not_or]
  exact ⟨by decide, blank_not_mem hws h6, by decide, blank_not_mem hws h7⟩

/-- **What of a body gets into the map**: of each keys object the entries after its first one,
and the last of them with a text that is no key. -/
theorem agrees_updates : List.Forall₂ Agrees ((body.text.splitOn ',').filterMap mintKeyUpdate)
    body.kept := by
  rw [body.text_eq]
  by_cases hnone : body.keysets = []
  · -- the body is one part
    have hkept : body.kept = [] := by rw [kept, hnone, flatMap_nil]
    have hcomma : ',' ∉ body.front ++ body.back := fun hmem =>
      (List.mem_append.mp hmem).elim body.front_comma body.back_comma
    rw [hkept, hnone, map_nil, intercalate_nil, nil_append,
      splitOn_eq_singleton hcomma, filterMap_cons,
      (body.front_skipped.append body.back).update]
    exact .nil
  · have hkeysets : Cut (body.keysets.flatMap fun ks => ks.members.map fun m => m.entries.tail)
        ([','].intercalate (body.keysets.map Keyset.text)) :=
      Cut.list hnone fun ks _ => ks.cut
    have hcut := (hkeysets.append body.back_comma).prepend ⟨.inr body.front_skipped, body.front_comma⟩
    have hkept : body.kept = (body.keysets.flatMap fun ks =>
        ks.members.map fun m => m.entries.tail).flatMap keptEntries := by
      simp only [kept, flatMap_assoc, flatMap_map]
    rw [hkept]
    exact hcut.updates

end KeysBody

/-! ### The key that is used -/

/-- The last thing that is put into the map for an amount. -/
def lastFor (amount : ℕ) (kept : List (ℕ × Option String)) : Option (Option String) :=
  (kept.reverse.find? fun k => k.1 = amount).map Prod.snd

/-- What a map answers, when the last thing put into it is known. -/
def KeyAnswer (answer : Option String) : Option (Option String) → Prop
  | none => answer = none
  | some (some key) => answer = some key
  | some none => ∃ text, answer = some text ∧ ∃ c ∈ text.toList, isHexChar c = false

theorem lookup_updates {updates : List (ℕ × String)} {kept : List (ℕ × Option String)}
    (h : List.Forall₂ Agrees updates kept) (amount : ℕ) :
    KeyAnswer ((updates.foldl (fun map update => map.insert update.1 update.2)
      (∅ : Map ℕ String)).lookup amount) (lastFor amount kept) := by
  have hreverse : List.Forall₂ Agrees updates.reverse kept.reverse := rel_reverse h
  rw [foldl_eq_foldr_reverse, lastFor]
  -- from the last update backwards
  generalize updates.reverse = updates at hreverse
  generalize kept.reverse = kept at hreverse
  clear h
  induction hreverse with
  | nil => rfl
  | @cons update k updates kept hagrees _ ih =>
    rw [foldr_cons, Map.lookup_insert_ite, List.find?_cons]
    obtain ⟨hamount, hkey⟩ := hagrees
    by_cases hk : k.1 = amount
    · rw [if_pos (hamount.trans hk).symm, decide_eq_true hk]
      obtain ⟨n, key⟩ := k
      cases key with
      | none => exact ⟨update.2, rfl, hkey⟩
      | some key => exact congrArg some hkey
    · rw [if_neg fun h => hk (h.trans hamount).symm, decide_eq_false hk]
      exact ih

theorem parseMintKeysJson_eq {content : List Char} (h : Text.trim content ≠ []) :
    parseMintKeysJson content = ((content.splitOn ',').filterMap mintKeyUpdate).foldl
      (fun map update => map.insert update.1 update.2) ∅ := by
  rw [parseMintKeysJson, if_neg h, foldl_filterMap]
  congr 1
  funext map part
  cases mintKeyUpdate part <;> rfl

namespace KeysBody

variable (body : KeysBody)

theorem answers_parsed (amount : ℕ) :
    KeyAnswer ((parseMintKeysJson body.text).lookup amount) (lastFor amount body.kept) := by
  have hbrace : '{' ∈ Text.trim body.text :=
    mem_trimMatches (by decide) (by simp [text])
  rw [parseMintKeysJson_eq (ne_nil_of_mem hbrace)]
  exact lookup_updates body.agrees_updates amount

theorem listed_hex {body : KeysBody} {proof : Proof} {key : String}
    (h : body.listed proof = some key) : ∀ c ∈ key.toList, isHexChar c = true := by
  obtain ⟨ks, -, hentry⟩ := Option.bind_eq_some_iff.mp h
  obtain ⟨e, -, rfl⟩ := Option.map_eq_some_iff.mp hentry
  exact e.key_hex.2

end KeysBody

/-- A payload whose parts come out as they went in, with a proof that is read. -/
def ProofSurvives (proof : Proof) (body : KeysBody) : Prop :=
  proof.Readable ∧ ¬ payloadSeparator <:+: proof.toJson ∧ ¬ payloadSeparator <:+: body.text

theorem payloadParts_eq {first second : List Char} (hfirst : ∀ c ∈ first.getLast?, c ∉ payloadSeparator) :
    payloadParts (first ++ (payloadSeparator ++ second)) =
      if ¬ payloadSeparator <:+: first ∧ ¬ payloadSeparator <:+: second then some (first, second)
      else none := by
  by_cases hinner : payloadSeparator <:+: first
  · -- the first separator is the one in the proof
    rw [if_neg fun h => h.1 hinner]
    cases hsplit : Text.splitAt payloadSeparator first with
    | none => exact absurd hinner (Text.splitAt_eq_none_iff.mp hsplit)
    | some parts =>
      have hmore : payloadSeparator <:+: parts.2 ++ (payloadSeparator ++ second) :=
        ⟨parts.2, second, by simp⟩
      rw [payloadParts, Text.splitAt_inside hsplit]
      refine if_pos ?_
      rw [isSome_iff_ne_none]
      exact fun h => Text.splitAt_eq_none_iff.mp h hmore
  · have hne : payloadSeparator ≠ [] := cons_ne_nil _ _
    rw [payloadParts, Text.splitAt_append hne hinner hfirst]
    dsimp only
    by_cases hsecond : payloadSeparator <:+: second
    · have hboth : ¬ (¬ payloadSeparator <:+: first ∧ ¬ payloadSeparator <:+: second) :=
        fun h => h.2 hsecond
      rw [if_neg hboth]
      refine if_pos ?_
      rw [isSome_iff_ne_none]
      exact fun h => Text.splitAt_eq_none_iff.mp h hsecond
    · have hboth : ¬ payloadSeparator <:+: first ∧ ¬ payloadSeparator <:+: second :=
        ⟨hinner, hsecond⟩
      rw [if_pos hboth, Text.splitAt_eq_none_iff.mpr hsecond]
      rfl

theorem toJson_getLast (p : Proof) : ∀ c ∈ p.toJson.getLast?, c ∉ payloadSeparator := by
  intro c hc
  have hlast : p.toJson.getLast? = some '}' := by
    rw [Proof.toJson, objectText, ← cons_append, List.getLast?_append]
    rfl
  rw [hlast] at hc
  obtain rfl := some.inj hc
  decide

theorem parseVerificationPayload_eq (proof : Proof) (body : KeysBody) :
    (ProofSurvives proof body ∧ parseVerificationPayload (verificationPayload proof body.text) =
      .ok ({ proof with witness := none }, parseMintKeysJson body.text)) ∨
    (¬ ProofSurvives proof body ∧
      ∃ e, parseVerificationPayload (verificationPayload proof body.text) = .error e) := by
  rw [parseVerificationPayload, verificationPayload, payloadParts_eq (toJson_getLast proof)]
  by_cases hparts : ¬ payloadSeparator <:+: proof.toJson ∧ ¬ payloadSeparator <:+: body.text
  · rw [if_pos hparts]
    dsimp only
    by_cases hread : proof.Readable
    · rw [Proof.fromJson_toJson hread]
      exact .inl ⟨⟨hread, hparts⟩, rfl⟩
    · obtain ⟨e, he⟩ := Proof.fromJson_toJson_error hread
      rw [he]
      exact .inr ⟨fun h => hread h.1, _, rfl⟩
  · rw [if_neg hparts]
    exact .inr ⟨fun h => hparts h.2, _, rfl⟩

theorem keyUsed_eq (proof : Proof) (body : KeysBody) :
    (ProofSurvives proof body ∧
      keyUsed proof body.text = (parseMintKeysJson body.text).lookup proof.amount.toNat) ∨
    (¬ ProofSurvives proof body ∧ keyUsed proof body.text = none) := by
  rw [keyUsed]
  obtain ⟨hsurvives, hread⟩ | ⟨hnot, e, hread⟩ := parseVerificationPayload_eq proof body
  · rw [hread]
    exact .inl ⟨hsurvives, rfl⟩
  · rw [hread]
    exact .inr ⟨hnot, rfl⟩

/-- **A proof with a DLEQ is checked with the key that is used**, and fails where none is; a
payload that cannot be read is an error. -/
theorem verifyProofAndReturnYPoint_eq (crypto : MintCrypto) {proof : Proof} {dleq : DleqProof}
    (hdleq : proof.dleq = some dleq) (body : KeysBody) :
    (ProofSurvives proof body ∧ verifyProofAndReturnYPoint crypto proof body.text =
      .ok (if (keyUsed proof body.text).any (crypto.checkDleq { proof with witness := none } dleq)
        then crypto.computeYPoint proof.secret else "")) ∨
    (¬ ProofSurvives proof body ∧
      ∃ e, verifyProofAndReturnYPoint crypto proof body.text = .error e) := by
  rw [verifyProofAndReturnYPoint, keyUsed]
  obtain ⟨hsurvives, hread⟩ | ⟨hnot, e, hread⟩ := parseVerificationPayload_eq proof body
  · rw [hread]
    refine .inl ⟨hsurvives, ?_⟩
    simp only [verifyProofDleqWithKeys, hdleq]
    cases (parseMintKeysJson body.text).lookup proof.amount.toNat <;> rfl
  · rw [hread]
    exact .inr ⟨hnot, e, rfl⟩

/-- When the listed key is the one that is used: the payload survives and the entry is the
last one that is kept for its amount, with its key; nothing is kept for an amount that is not
listed. -/
def KeyFound (proof : Proof) (body : KeysBody) : Prop :=
  match body.listed proof with
  | some key => ProofSurvives proof body ∧ lastFor proof.amount.toNat body.kept = some (some key)
  | none => ProofSurvives proof body → lastFor proof.amount.toNat body.kept = none

/-- **The key a proof is verified with is the one its keyset lists, exactly when that key is
what the cutting at commas keeps last for the amount.** -/
theorem keyUsed_eq_listed_iff (proof : Proof) (body : KeysBody) :
    keyUsed proof body.text = body.listed proof ↔ KeyFound proof body := by
  have hanswers := body.answers_parsed proof.amount.toNat
  rw [KeyFound]
  cases hlisted : body.listed proof with
  | none =>
    obtain ⟨hsurvives, hused⟩ | ⟨hnot, hused⟩ := keyUsed_eq proof body
    · rw [hused]
      dsimp only
      refine ⟨fun hnone _ => ?_, fun h => ?_⟩
      · rw [hnone] at hanswers
        cases hlast : lastFor proof.amount.toNat body.kept with
        | none => rfl
        | some key =>
          rw [hlast] at hanswers
          cases key with
          | none => exact nomatch hanswers.choose_spec.1
          | some key => exact nomatch hanswers
      · rw [h hsurvives] at hanswers
        exact hanswers
    · rw [hused]
      exact ⟨fun _ h => absurd h hnot, fun _ => rfl⟩
  | some key =>
    obtain ⟨hsurvives, hused⟩ | ⟨hnot, hused⟩ := keyUsed_eq proof body
    · rw [hused]
      dsimp only
      refine ⟨fun hsome => ⟨hsurvives, ?_⟩, fun h => ?_⟩
      · rw [hsome] at hanswers
        cases hlast : lastFor proof.amount.toNat body.kept with
        | none =>
          rw [hlast] at hanswers
          exact nomatch hanswers
        | some kept =>
          rw [hlast] at hanswers
          cases kept with
          | some kept => exact congrArg some hanswers.symm
          | none =>
            -- what stands there is no key
            obtain ⟨text, heq, c, hc, hhex⟩ := hanswers
            rw [← some.inj heq] at hc
            rw [KeysBody.listed_hex hlisted c hc] at hhex
            exact nomatch hhex
      · rw [h.2] at hanswers
        exact hanswers
    · rw [hused]
      exact ⟨fun h => (nomatch h), fun h => absurd h.1 hnot⟩

/-! A body without whitespace, with two amounts. -/

def compactEntry (amount : ℕ) (key : String)
    (hamount : (Nat.toDigits 10 amount).all needsNoEscape = true)
    (hescape : key.toList.all needsNoEscape = true)
    (hkey : key.toList.length = 66 ∧ ∀ c ∈ key.toList, isHexChar c = true) : KeyEntry where
  amount := amount
  key := key
  before := []
  amountLit := plainLiteral (Nat.toDigits 10 amount)
  afterAmount := []
  beforeKey := []
  keyLit := plainLiteral key.toList
  after := []
  blanks := by simp [Blank]
  amount_wf := wf_plainLiteral hamount
  key_wf := wf_plainLiteral hescape
  amount_spelled := literalValue_plainLiteral _
  key_spelled := literalValue_plainLiteral _
  key_hex := hkey

def keysetMember (field : KeysetField) (value : KeysetValue) (hvalue : value.Wf)
    (hfits : value.fits field) : KeysetMember where
  field := field
  before := []
  nameLit := plainLiteral field.name.toList
  afterName := []
  beforeValue := []
  value := value
  after := []
  blanks := by simp [Blank]
  name_wf := wf_plainLiteral (by cases field <;> decide)
  name_spelled := literalValue_plainLiteral _
  value_wf := hvalue
  value_fits := hfits

def unitKey (digit : Char) : String := String.ofList ('0' :: '2' :: List.replicate 64 digit)

theorem toList_unitKey (digit : Char) :
    (unitKey digit).toList = '0' :: '2' :: List.replicate 64 digit := String.toList_ofList

theorem unitKey_hex {digit : Char} (h : isHexChar digit = true) :
    (unitKey digit).toList.length = 66 ∧ ∀ c ∈ (unitKey digit).toList, isHexChar c = true := by
  rw [toList_unitKey]
  refine ⟨by simp, fun c hc => ?_⟩
  obtain rfl | hc := List.mem_cons.mp hc
  · decide
  · obtain rfl | hc := List.mem_cons.mp hc
    · decide
    · rwa [eq_of_mem_replicate hc]

theorem unitKey_escape {digit : Char} (h : needsNoEscape digit = true) :
    (unitKey digit).toList.all needsNoEscape = true := by
  rw [toList_unitKey, all_cons, all_cons, all_replicate, h]
  decide

def twoEntries : List KeyEntry :=
  [compactEntry 1 (unitKey 'a') (by decide) (unitKey_escape (by decide)) (unitKey_hex (by decide)),
    compactEntry 2 (unitKey 'b') (by decide) (unitKey_escape (by decide)) (unitKey_hex (by decide))]

def twoKeysBody : KeysBody where
  before := []
  blank := []
  nameLit := plainLiteral "keysets".toList
  afterName := []
  beforeValue := []
  arrayBlank := []
  keysets := [{
    before := []
    members := [keysetMember .id (.text (plainLiteral "009a1f293253e41e".toList))
        ⟨wf_plainLiteral (by decide), by simp [plainLiteral]⟩ (fun h => nomatch h),
      keysetMember .unit (.text (plainLiteral "sat".toList))
        ⟨wf_plainLiteral (by decide), by simp [plainLiteral]⟩ (fun h => nomatch h),
      keysetMember .keys (.keys [] twoEntries) ⟨by simp [Blank], by decide⟩ rfl]
    after := []
    blanks := by simp [Blank]
    fields := .refl _ }]
  afterValue := []
  after := []
  blanks := by simp [Blank]
  name_wf := wf_plainLiteral (by decide)
  name_spelled := literalValue_plainLiteral _
  ids := nodup_singleton _

def oneUnit : Proof where
  amount := 1
  secret := "s"
  c := "c"
  id := some "009a1f293253e41e"
  version := none
  dleq := some ⟨"01", "02", some "03"⟩
  witness := none

/-- **The key of the first amount of an object is lost.** -/
theorem firstKey_lost : twoKeysBody.listed oneUnit = some (unitKey 'a') ∧
    keyUsed oneUnit twoKeysBody.text = none := by
  refine ⟨?_, ?_⟩
  · rfl
  · have hanswers := twoKeysBody.answers_parsed oneUnit.amount.toNat
    have hlast : lastFor oneUnit.amount.toNat twoKeysBody.kept = none := rfl
    rw [hlast] at hanswers
    obtain ⟨-, hused⟩ | ⟨-, hused⟩ := keyUsed_eq oneUnit twoKeysBody
    · exact hused.trans hanswers
    · exact hused

end Nipworker
