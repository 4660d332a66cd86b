/-
Nutzaps (`parser/kind9321.rs`).

A nutzap carries Cashu proofs in its tags.  The parser reports their total, and
whether and to which key they are locked.  A lock is a secret that is a JSON array of
the string `P2PK` and an object, whose `data` is the key.
-/
import Nipworker.Lib.JsonGrammar
import Nipworker.Transport.EventFrame
import Nipworker.Types.ProofJson

namespace Nipworker

open List Option
namespace Nutzap

open JsonText BaseJsonParser

/-! ### The search for the key -/

def dropChar (c : Char) : List Char → Option (List Char)
  | [] => none
  | d :: rest => if d = c then some rest else none

/-- The text without its first byte; what begins with part of a character is of no use
to the search. -/
def dropByte : List Char → Option (List Char)
  | [] => none
  | c :: rest => if c.toNat < 128 then some rest else none

def isSeparator (c : Char) : Bool := isAsciiWhitespace c || c == ','

/-- The key is found by searching the text of the secret. -/
def parseP2pkPubkey (secret : List Char) : Option (List Char) := do
  let rest ← dropChar '[' secret
  let rest ← dropChar '"' (skipWs rest)
  let (name, rest) ← skipString rest
  if name = "P2PK".toList then
    let object ← dropChar '{' (rest.dropWhile isSeparator)
    -- the key is taken to be one byte behind the first `"data"`
    let rest ← Text.afterFirst (quoted "data".toList) ('{' :: object)
    let rest ← dropByte rest
    let rest ← dropChar '"' (skipWs rest)
    let (value, _) ← skipString rest
    some value
  else none

/-! ### The parser -/

/-- What the tags of a nutzap say. -/
structure Tags where
  proofs : List String
  mint : Option String
  recipient : Option String
  event : Option String
  deriving DecidableEq

def Tags.add (st : Tags) (tag : List String) : Tags :=
  match tag with
  | name :: value :: _ =>
    if name = "proof" then { st with proofs := st.proofs ++ [value] }
    else if name = "u" then { st with mint := st.mint.or (some value) }
    else if name = "p" then { st with recipient := st.recipient.or (some value) }
    else if name = "e" then { st with event := st.event.or (some value) }
    else st
  | _ => st

/-- What its proofs add up to. -/
structure Gathered where
  total : Int32
  proofs : List Proof
  isP2pkLocked : Bool
  p2pkPubkey : Option String
  deriving DecidableEq

def Mentions (secret : String) : Prop := "P2PK".toList <:+: secret.toList

instance (secret : String) : Decidable (Mentions secret) :=
  inferInstanceAs (Decidable ("P2PK".toList <:+: secret.toList))

/-- One proof in the loop over the proofs, in a build without overflow checks. -/
def Gathered.add (st : Gathered) (proof : Proof) : Gathered where
  total := st.total + proof.amount.toUInt32.toInt32
  proofs := st.proofs ++ [proof]
  isP2pkLocked := st.isP2pkLocked || decide (Mentions proof.secret)
  p2pkPubkey :=
    if Mentions proof.secret then
      st.p2pkPubkey.or ((parseP2pkPubkey proof.secret.toList).map String.ofList)
    else st.p2pkPubkey

/-- One `proof` tag; one that cannot be read is left out. -/
def Gathered.addText (st : Gathered) (json : String) : ParserResult Gathered :=
  match Proof.fromJson json.toList with
  | .ok proof => .ok (st.add proof)
  | .error (.error _) => .ok st
  | .error .panic => .error .panic
  | .error .hang => .error .hang

/-- A nutzap. -/
structure Kind9321Parsed where
  id : String
  amount : Int32
  recipient : String
  sender : String
  eventId : Option String
  mintUrl : String
  redeemed : Bool
  proofs : List Proof
  comment : Option String
  isP2pkLocked : Bool
  p2pkPubkey : Option String
  deriving DecidableEq

/-- `parse_kind_9321`, without the requests that follow from an event. -/
def parseKind9321 (event : SignedEvent) : ParserResult Kind9321Parsed :=
  if event.kind ≠ 9321 then failWith (.other "event is not kind 9321")
  else
    let tags := event.tags.foldl Tags.add ⟨[], none, none, none⟩
    match tags.mint, tags.recipient with
    | some mint, some recipient =>
      if tags.proofs = [] then failWith (.other "missing required tags")
      else do
        let read ← tags.proofs.foldlM Gathered.addText ⟨0, [], false, none⟩
        .ok
          { id := event.id.toHex
            amount := read.total
            recipient
            sender := event.pubkey.toHex
            eventId := tags.event
            mintUrl := mint
            redeemed := false
            proofs := read.proofs
            comment := if event.content = "" then none else some event.content
            isP2pkLocked := read.isP2pkLocked
            p2pkPubkey := read.p2pkPubkey }
    | _, _ => failWith (.other "missing required tags")

/-! ### What the secrets say -/

/-- The text of a secret is a JSON array that begins with the string `P2PK` and an
object with the given members. -/
def IsLock (secret : String) (members : Members) : Prop :=
  ∃ lead trail blank items lit blank' more,
    Blank lead ∧ Blank trail ∧ (Doc.arr blank items).Json ∧
      secret.toList = lead ++ ((Doc.arr blank items).text ++ trail) ∧
      items.values = .str lit :: .obj blank' members :: more ∧
      literalValue lit = "P2PK".toList

/-- The `data` of an object, if it is a string; of several the last one. -/
def dataField (members : Members) : Option (List Char) :=
  (members.valuesOf "data".toList).getLast?.bind fun value =>
    match value with
    | .str lit => some (literalValue lit)
    | .atom _ => none
    | .arr _ _ => none
    | .obj _ _ => none

/-- The first secret that is a lock. -/
def FirstLock (proofs : List Proof) (members : Members) : Prop :=
  ∃ before p after, proofs = before ++ p :: after ∧ IsLock p.secret members ∧
    ∀ q ∈ before, ∀ ms, ¬ IsLock q.secret ms

def SomeLock (proofs : List Proof) : Prop := ∃ p ∈ proofs, ∃ members, IsLock p.secret members

def amountSum (proofs : List Proof) : ℕ := (proofs.map fun p => p.amount.toNat).sum

/-- The total is exact, and the lock and its key are those of the secrets. -/
structure NutzapRead (parsed : Kind9321Parsed) : Prop where
  amount : parsed.amount.toInt = (amountSum parsed.proofs : ℤ)
  locked : parsed.isP2pkLocked = true ↔ SomeLock parsed.proofs
  pubkey : ∀ members, FirstLock parsed.proofs members →
    parsed.p2pkPubkey.map String.toList = dataField members
  unlocked : ¬ SomeLock parsed.proofs → parsed.p2pkPubkey = none

/-! ### What the search finds -/

/-- A text in which every quote stands behind a backslash. -/
inductive RawText : List Char → Prop
  | nil : RawText []
  | char {c : Char} {cs : List Char} : c ≠ '"' → c ≠ '\\' → RawText cs → RawText (c :: cs)
  | escape {c : Char} {cs : List Char} : RawText cs → RawText ('\\' :: c :: cs)

/-- Behind `["P2PK", {` the text stands between quotes one byte and blanks after the
first `"data"`. -/
def QuotedAfterData (secret : String) (value : List Char) : Prop :=
  ∃ blank separator object c blank' following,
    secret.toList = '[' :: (blank ++ '"' :: ("P2PK".toList ++ '"' :: (separator ++ '{' :: object))) ∧
      (∀ d ∈ blank, isAsciiWhitespace d = true) ∧ (∀ d ∈ separator, isSeparator d = true) ∧
      Text.afterFirst (quoted "data".toList) object =
        some (c :: (blank' ++ '"' :: (value ++ '"' :: following))) ∧
      c.toNat < 128 ∧ (∀ d ∈ blank', isAsciiWhitespace d = true) ∧ RawText value

/-- The first secret with a string behind its data. -/
def FirstQuoted (proofs : List Proof) (value : List Char) : Prop :=
  ∃ before p after, proofs = before ++ p :: after ∧ QuotedAfterData p.secret value ∧
    ∀ q ∈ before, ∀ v, ¬ QuotedAfterData q.secret v

/-- The proofs that are reported as they are: the total is below 2³¹, the letters are in
some secret exactly when some secret is a lock, and the first text between quotes behind a
`"data"` is the `data` of the first lock. -/
structure PlainlyLocked (proofs : List Proof) : Prop where
  total : amountSum proofs < 2 ^ 31
  mentioned : (∃ p ∈ proofs, Mentions p.secret) ↔ SomeLock proofs
  found : ∀ members, FirstLock proofs members →
    ∀ value, FirstQuoted proofs value ↔ dataField members = some value
  unlocked : ¬ SomeLock proofs → ∀ value, ¬ FirstQuoted proofs value

section Search

variable {c : Char} {cs rest : List Char}

theorem dropChar_eq_some_iff : dropChar c cs = some rest ↔ cs = c :: rest := by
  cases cs with
  | nil => simp [dropChar]
  | cons d cs =>
    rw [dropChar]
    by_cases hd : d = c
    · rw [if_pos hd, hd, some.injEq, List.cons.injEq]
      exact ⟨fun h => ⟨rfl, h⟩, fun h => h.2⟩
    · rw [if_neg hd, List.cons.injEq]
      exact iff_of_false (some_ne_none rest).symm fun h => hd h.1

theorem dropByte_eq_some_iff : dropByte cs = some rest ↔ ∃ c, cs = c :: rest ∧ c.toNat < 128 := by
  cases cs with
  | nil => simp [dropByte]
  | cons d cs =>
    rw [dropByte]
    by_cases hd : d.toNat < 128
    · rw [if_pos hd, some.injEq]
      constructor
      · rintro rfl
        exact ⟨d, rfl, hd⟩
      · rintro ⟨e, he, -⟩
        exact (List.cons.inj he).2
    · rw [if_neg hd]
      refine iff_of_false (some_ne_none rest).symm fun ⟨e, he, hlt⟩ => hd ?_
      rw [(List.cons.inj he).1]
      exact hlt

theorem dropWhile_eq_cons_iff {p : Char → Bool} (hc : p c = false) :
    cs.dropWhile p = c :: rest ↔ ∃ blank, cs = blank ++ c :: rest ∧ ∀ d ∈ blank, p d = true := by
  constructor
  · intro h
    refine ⟨cs.takeWhile p, ?_, fun d hd => mem_takeWhile_imp hd⟩
    rw [← h, takeWhile_append_dropWhile]
  · rintro ⟨blank, rfl, hblank⟩
    rw [dropWhile_append_of_pos hblank, dropWhile_cons_of_neg (by rw [hc]; decide)]

theorem skipString_eq_some_iff {value : List Char} :
    skipString cs = some (value, rest) ↔ RawText value ∧ cs = value ++ '"' :: rest := by
  constructor
  · intro h
    refine ⟨?_, skipString_eq_some h⟩
    induction cs using skipString.induct generalizing value rest with
    | case1 => exact absurd h.symm (some_ne_none _)
    | case2 =>
      rw [skipString, if_pos rfl, some.injEq, Prod.mk.injEq] at h
      rw [← h.1]
      exact .nil
    | case3 c hc =>
      rw [skipString, if_neg hc] at h
      exact absurd h.symm (some_ne_none _)
    | case4 d rest =>
      rw [skipString_quote, some.injEq, Prod.mk.injEq] at h
      rw [← h.1]
      exact .nil
    | case5 d more hquote ih =>
      rw [skipString_escape] at h
      obtain ⟨p, hp, heq⟩ := Option.map_eq_some_iff.mp h
      rw [Prod.mk.injEq] at heq
      rw [← heq.1]
      exact .escape (ih hp)
    | case6 c d more hquote hback ih =>
      rw [skipString_plain hquote hback] at h
      obtain ⟨p, hp, heq⟩ := Option.map_eq_some_iff.mp h
      rw [Prod.mk.injEq] at heq
      rw [← heq.1]
      exact .char hquote hback (ih hp)
  · rintro ⟨hraw, rfl⟩
    induction hraw with
    | nil => exact skipString_quote rest
    | char hquote hback _ ih =>
      rw [cons_append, skipString_plain hquote hback, ih]
      rfl
    | escape _ ih =>
      rw [cons_append, cons_append, skipString_escape, ih]
      rfl

/-- **What the search finds.** -/
theorem parseP2pkPubkey_eq_some_iff {secret : String} {value : List Char} :
    parseP2pkPubkey secret.toList = some value ↔ QuotedAfterData secret value := by
  have hname : RawText "P2PK".toList :=
    .char (by decide) (by decide) (.char (by decide) (by decide)
      (.char (by decide) (by decide) (.char (by decide) (by decide) .nil)))
  have hbrace (cs : List Char) : Text.afterFirst (quoted "data".toList) ('{' :: cs) =
      Text.afterFirst (quoted "data".toList) cs := afterFirst_skip (by decide) cs
  have hws (cs rest : List Char) : cs.dropWhile isAsciiWhitespace = '"' :: rest ↔
      ∃ blank, cs = blank ++ '"' :: rest ∧ ∀ d ∈ blank, isAsciiWhitespace d = true :=
    dropWhile_eq_cons_iff (by decide)
  have hsep (cs rest : List Char) : cs.dropWhile isSeparator = '{' :: rest ↔
      ∃ blank, cs = blank ++ '{' :: rest ∧ ∀ d ∈ blank, isSeparator d = true :=
    dropWhile_eq_cons_iff (by decide)
  simp only [parseP2pkPubkey, bind_eq_bind, bind_eq_some_iff, dropChar_eq_some_iff,
    Prod.exists, skipString_eq_some_iff, skipWs]
  constructor
  · rintro ⟨inner, hopen, afterBlank, hblank, name, afterName, ⟨-, hname'⟩, h⟩
    by_cases heq : name = "P2PK".toList
    · rw [if_pos heq] at h
      simp only [bind_eq_some_iff, dropChar_eq_some_iff, dropByte_eq_some_iff, Prod.exists,
        skipString_eq_some_iff, hbrace] at h
      obtain ⟨object, hobject, found, hfound, afterByte, ⟨c, rfl, hc⟩, afterBlank', hblank', v,
        following, ⟨hraw, rfl⟩, hv⟩ := h
      rw [some.injEq] at hv
      obtain ⟨blank, rfl, hblanks⟩ := (hws _ _).mp hblank
      obtain ⟨separator, rfl, hseparator⟩ := (hsep _ _).mp hobject
      obtain ⟨blank', rfl, hblanks'⟩ := (hws _ _).mp hblank'
      refine ⟨blank, separator, object, c, blank', following, ?_, hblanks, hseparator, ?_, hc,
        hblanks', hv ▸ hraw⟩
      · rw [hopen, hname', heq]
      · rw [hfound, hv]
    · rw [if_neg heq] at h
      exact absurd h.symm (some_ne_none value)
  · rintro ⟨blank, separator, object, c, blank', following, hsecret, hblank, hseparator, hfound, hc,
      hblank', hraw⟩
    refine ⟨_, hsecret, _, (hws _ _).mpr ⟨blank, rfl, hblank⟩, _, _, ⟨hname, rfl⟩, ?_⟩
    rw [if_pos rfl]
    simp only [bind_eq_some_iff, dropChar_eq_some_iff, dropByte_eq_some_iff, Prod.exists,
      skipString_eq_some_iff, hbrace]
    exact ⟨object, (hsep _ _).mpr ⟨separator, rfl, hseparator⟩, _, hfound, _, ⟨c, rfl, hc⟩, _,
      (hws _ _).mpr ⟨blank', rfl, hblank'⟩, value, following, ⟨hraw, rfl⟩, rfl⟩

theorem QuotedAfterData.mentions {secret : String} {value : List Char}
    (h : QuotedAfterData secret value) : Mentions secret := by
  obtain ⟨blank, separator, object, c, blank', following, hsecret, -⟩ := h
  refine ⟨'[' :: (blank ++ ['"']), '"' :: (separator ++ '{' :: object), ?_⟩
  rw [hsecret]
  simp

end Search

/-! ### The loop over the proofs -/

/-- What has been gathered is what the proofs so far say. -/
structure Tells (st : Gathered) : Prop where
  total : st.total = Int32.ofNat (amountSum st.proofs)
  locked : st.isP2pkLocked = true ↔ ∃ p ∈ st.proofs, Mentions p.secret
  pubkey : st.p2pkPubkey =
    (st.proofs.findSome? fun p => parseP2pkPubkey p.secret.toList).map String.ofList

theorem toInt32_toUInt32 (amount : UInt64) :
    amount.toUInt32.toInt32 = Int32.ofNat amount.toNat := by
  show (UInt32.ofNat amount.toNat).toInt32 = _
  exact UInt32.toInt32_ofNat'

theorem amountSum_concat (proofs : List Proof) (proof : Proof) :
    amountSum (proofs ++ [proof]) = amountSum proofs + proof.amount.toNat := by
  rw [amountSum, map_append, sum_append, amountSum]
  simp

theorem Tells.add {st : Gathered} (h : Tells st) (proof : Proof) : Tells (st.add proof) := by
  refine ⟨?_, ?_, ?_⟩
  · show st.total + _ = Int32.ofNat (amountSum (st.proofs ++ [proof]))
    rw [h.total, toInt32_toUInt32, amountSum_concat, Int32.ofNat_add]
  · show (st.isP2pkLocked || decide (Mentions proof.secret)) = true ↔
      ∃ p ∈ st.proofs ++ [proof], Mentions p.secret
    rw [Bool.or_eq_true, h.locked, decide_eq_true_eq]
    simp only [mem_append, mem_singleton, or_and_right, exists_or, exists_eq_left]
  · show (if Mentions proof.secret then _ else st.p2pkPubkey) =
      ((st.proofs ++ [proof]).findSome? _).map String.ofList
    rw [List.findSome?_append, List.findSome?_singleton, h.pubkey]
    by_cases hmentions : Mentions proof.secret
    · rw [if_pos hmentions, map_or]
    · -- nothing is found in a secret without the letters
      rw [if_neg hmentions]
      have hnone : parseP2pkPubkey proof.secret.toList = none := by
        rw [eq_none_iff_forall_ne_some]
        intro value hvalue
        exact hmentions (parseP2pkPubkey_eq_some_iff.mp hvalue).mentions
      rw [hnone, or_none]

theorem tells_gathered {texts : List String} {st st' : Gathered} (h : Tells st)
    (hread : texts.foldlM Gathered.addText st = .ok st') : Tells st' := by
  induction texts generalizing st with
  | nil =>
    obtain rfl : st = st' := Except.ok.inj hread
    exact h
  | cons text texts ih =>
    rw [foldlM_cons] at hread
    obtain ⟨st₁, hst₁, hread⟩ := Result.bind_eq_ok.mp hread
    refine ih ?_ hread
    rw [Gathered.addText] at hst₁
    split at hst₁
    · rw [← Except.ok.inj hst₁]
      exact h.add _
    · rw [← Except.ok.inj hst₁]
      exact h
    · simp only [reduceCtorEq] at hst₁
    · simp only [reduceCtorEq] at hst₁

theorem failWith_ne_ok {α : Type} (e : ParserError) (a : α) : failWith e ≠ .ok a := by
  rw [failWith]
  simp only [ne_eq, reduceCtorEq, not_false_eq_true]

theorem tells_parsed {event : SignedEvent} {parsed : Kind9321Parsed}
    (h : parseKind9321 event = .ok parsed) :
    Tells ⟨parsed.amount, parsed.proofs, parsed.isP2pkLocked, parsed.p2pkPubkey⟩ := by
  rw [parseKind9321] at h
  by_cases hkind : event.kind ≠ 9321
  · rw [if_pos hkind] at h
    exact absurd h (failWith_ne_ok _ _)
  · rw [if_neg hkind] at h
    dsimp only at h
    split at h
    · split at h
      · exact absurd h (failWith_ne_ok _ _)
      · obtain ⟨read, hread, hparsed⟩ := Result.bind_eq_ok.mp h
        have hstart : Tells ⟨0, [], false, none⟩ := ⟨rfl, by simp, rfl⟩
        have htells := tells_gathered hstart hread
        rw [← Except.ok.inj hparsed]
        exact htells
    · exact absurd h (failWith_ne_ok _ _)

theorem toInt_ofNat_eq_iff (n : ℕ) : (Int32.ofNat n).toInt = (n : ℤ) ↔ n < 2 ^ 31 := by
  constructor
  · intro h
    have hlt := Int32.toInt_lt (Int32.ofNat n)
    rw [h] at hlt
    omega
  · intro h
    exact Int32.toInt_ofNat_of_lt h

theorem Tells.pubkey_eq_some_iff {st : Gathered} (h : Tells st) (value : List Char) :
    st.p2pkPubkey = some (String.ofList value) ↔ FirstQuoted st.proofs value := by
  rw [h.pubkey, map_eq_some_iff]
  constructor
  · rintro ⟨v, hv, heq⟩
    obtain rfl := String.ofList_injective heq
    obtain ⟨before, p, after, hproofs, hp, hbefore⟩ := List.findSome?_eq_some_iff.mp hv
    refine ⟨before, p, after, hproofs, parseP2pkPubkey_eq_some_iff.mp hp, fun q hq w hw => ?_⟩
    have := hbefore q hq
    rw [parseP2pkPubkey_eq_some_iff.mpr hw] at this
    exact some_ne_none _ this
  · rintro ⟨before, p, after, hproofs, hp, hbefore⟩
    refine ⟨value, List.findSome?_eq_some_iff.mpr ⟨before, p, after, hproofs,
      parseP2pkPubkey_eq_some_iff.mpr hp, fun q hq => ?_⟩, rfl⟩
    rw [eq_none_iff_forall_ne_some]
    intro w hw
    exact hbefore q hq w (parseP2pkPubkey_eq_some_iff.mp hw)

/-- **A nutzap is reported as it is exactly for proofs that are plainly locked**, and
whose total fits. -/
theorem nutzap_read_iff (event : SignedEvent) (parsed : Kind9321Parsed)
    (h : parseKind9321 event = .ok parsed) :
    NutzapRead parsed ↔ PlainlyLocked parsed.proofs := by
  have htells := tells_parsed h
  have htotal : parsed.amount = Int32.ofNat (amountSum parsed.proofs) := htells.total
  have hkey (value : List Char) : parsed.p2pkPubkey = some (String.ofList value) ↔
      FirstQuoted parsed.proofs value := htells.pubkey_eq_some_iff value
  have hkeyMap (value : List Char) : parsed.p2pkPubkey.map String.toList = some value ↔
      FirstQuoted parsed.proofs value := by
    rw [← hkey, map_eq_some_iff]
    constructor
    · rintro ⟨s, hs, rfl⟩
      rw [hs, String.ofList_toList]
    · intro hs
      exact ⟨_, hs, String.toList_ofList⟩
  constructor
  · intro hread
    refine ⟨?_, htells.locked.symm.trans hread.locked, fun members hfirst value => ?_,
      fun hnone value hvalue => ?_⟩
    · rw [← toInt_ofNat_eq_iff, ← htotal]
      exact hread.amount
    · rw [← hkeyMap, hread.pubkey members hfirst]
    · rw [← hkey, hread.unlocked hnone] at hvalue
      exact some_ne_none _ hvalue.symm
  · intro hplain
    refine ⟨?_, htells.locked.trans hplain.mentioned, fun members hfirst => ?_, fun hnone => ?_⟩
    · rw [htotal, toInt_ofNat_eq_iff]
      exact hplain.total
    · apply Option.ext
      intro value
      rw [hkeyMap, hplain.found members hfirst]
    · rw [eq_none_iff_forall_ne_some]
      intro s hs
      rw [← String.ofList_toList (s := s), hkey] at hs
      exact hplain.unlocked hnone _ hs

theorem length_sender : (List.replicate 32 (1 : UInt8)).length = 32 := length_alike 1

/-- A nutzap with two proofs. -/
def nutzapOf (p q : Proof) : SignedEvent where
  id := ⟨List.replicate 32 0, length_zeros⟩
  pubkey := ⟨List.replicate 32 1, length_sender⟩
  createdAt := 0
  kind := 9321
  tags := [["proof", String.ofList p.toJson], ["proof", String.ofList q.toJson],
    ["u", "https://mint"], ["p", "recipient"]]
  content := ""
  sig := ""

theorem parseKind9321_nutzapOf {p q : Proof} (hp : p.Readable) (hq : q.Readable) :
    ∃ parsed, parseKind9321 (nutzapOf p q) = .ok parsed ∧
      parsed.proofs = [{ p with witness := none }, { q with witness := none }] := by
  let read := (Gathered.add ⟨0, [], false, none⟩ { p with witness := none }).add
    { q with witness := none }
  have hread : [String.ofList p.toJson, String.ofList q.toJson].foldlM Gathered.addText
      ⟨0, [], false, none⟩ = .ok read := by
    simp only [foldlM_cons, Gathered.addText, String.toList_ofList, Proof.fromJson_toJson hp,
      Proof.fromJson_toJson hq]
    rfl
  refine ⟨⟨(nutzapOf p q).id.toHex, read.total, "recipient", (nutzapOf p q).pubkey.toHex, none,
    "https://mint", false, read.proofs, none, read.isP2pkLocked, read.p2pkPubkey⟩, ?_, rfl⟩
  have hkind : ¬ (nutzapOf p q).kind ≠ 9321 := by
    rw [not_not]
    rfl
  have htags : (nutzapOf p q).tags.foldl Tags.add ⟨[], none, none, none⟩ =
      ⟨[String.ofList p.toJson, String.ofList q.toJson], some "https://mint", some "recipient",
        none⟩ := rfl
  rw [parseKind9321, if_neg hkind, htags]
  dsimp only
  rw [if_neg (cons_ne_nil _ _), hread]
  rfl

/-! ### The only reading of a short text -/

theorem blank_of_cons {blank xs ys : List Char} (h : Blank blank) {c : Char} (hc : isWs c = false)
    (heq : blank ++ xs = c :: ys) : blank = [] ∧ xs = c :: ys := by
  cases blank with
  | nil => exact ⟨rfl, heq⟩
  | cons d rest =>
    have hd := h d mem_cons_self
    rw [(List.cons.inj heq).1, hc] at hd
    cases hd

theorem literal_of_quote {lit : List Piece} (h : ∀ p ∈ lit, p.Wf) {value rest rest' : List Char}
    (hvalue : RawText value)
    (heq : literalText lit ++ '"' :: rest = value ++ '"' :: rest') :
    literalText lit = value ∧ rest = rest' := by
  have hread := skipString_literal (fun p hp => (h p hp).closed) rest
  rw [heq, skipString_eq_some_iff.mpr ⟨hvalue, rfl⟩, some.injEq, Prod.mk.injEq] at hread
  exact ⟨hread.1.symm, hread.2.symm⟩

theorem str_of_quote {d : Doc} (h : d.Json) {rest tail : List Char}
    (heq : d.text ++ rest = '"' :: tail) : ∃ lit, d = .str lit ∧ (∀ p ∈ lit, p.Wf) ∧
      literalText lit ++ '"' :: rest = tail := by
  cases d with
  | atom text =>
    obtain ⟨hne, htokens⟩ := IsAtom.tokens h
    cases text with
    | nil => exact absurd rfl hne
    | cons c text =>
      exact absurd (List.cons.inj heq).1 (token_ne (htokens c mem_cons_self) (by decide))
  | str lit =>
    refine ⟨lit, rfl, h, ?_⟩
    simpa [Doc.text] using heq
  | arr blank items => exact absurd (List.cons.inj heq).1 (by decide)
  | obj blank members => exact absurd (List.cons.inj heq).1 (by decide)

/-- An object whose text goes on with a name and a string. -/
theorem members_of_quote {members : Members} (h : members.Json)
    {name value rest tail : List Char} (hname : RawText name) (hvalue : RawText value)
    (heq : members.text ++ '}' :: tail =
      '"' :: (name ++ '"' :: ':' :: '"' :: (value ++ '"' :: rest))) :
    ∃ key lit after more, members = .cons [] key [] [] (.str lit) after more ∧
      literalText key = name ∧ literalText lit = value ∧ Blank after ∧ more.Json ∧
      after ++ (more.comma ++ (more.text ++ '}' :: tail)) = rest := by
  cases members with
  | nil => exact absurd (List.cons.inj heq).1 (by decide)
  | cons before key afterKey beforeValue d after more =>
    obtain ⟨hbefore, hkey, hafterKey, hbeforeValue, hd, hafter, hmore⟩ := h
    rw [Members.text] at heq
    simp only [append_assoc, cons_append] at heq
    obtain ⟨rfl, hquote⟩ := blank_of_cons hbefore (by decide) heq
    obtain ⟨hkeyText, hcolon⟩ := literal_of_quote hkey hname (List.cons.inj hquote).2
    obtain ⟨rfl, hblank⟩ := blank_of_cons hafterKey (by decide) hcolon
    obtain ⟨rfl, hstring⟩ := blank_of_cons hbeforeValue (by decide) (List.cons.inj hblank).2
    obtain ⟨lit, rfl, hlit, hclose⟩ := str_of_quote hd hstring
    obtain ⟨hlitText, hrest⟩ := literal_of_quote hlit hvalue hclose
    exact ⟨key, lit, after, more, rfl, hkeyText, hlitText, hafter, hmore, hrest⟩

theorem text_of_comma {after tail rest : List Char} (h : Blank after) {more : Members}
    (heq : after ++ (more.comma ++ (more.text ++ '}' :: tail)) = ',' :: rest) :
    more.text ++ '}' :: tail = rest := by
  obtain ⟨-, hcomma⟩ := blank_of_cons h (by decide) heq
  cases more with
  | nil => exact absurd (List.cons.inj hcomma).1 (by decide)
  | cons => exact (List.cons.inj hcomma).2

theorem nil_of_brace {after tail rest : List Char} (h : Blank after) {more : Members}
    (heq : after ++ (more.comma ++ (more.text ++ '}' :: tail)) = '}' :: rest) : more = .nil := by
  obtain ⟨-, hbrace⟩ := blank_of_cons h (by decide) heq
  cases more with
  | nil => rfl
  | cons => exact absurd (List.cons.inj hbrace).1 (by decide)

theorem literalValue_of_text {lit : List Piece} {text : List Char} (h : literalText lit = text)
    (hback : '\\' ∉ text) : literalValue lit = text := by
  rw [← h, ← literalText_of_plain]
  by_contra hplain
  exact hback (h ▸ backslash_mem_of_not_plain hplain)

/-! ### A locked proof beside an unlocked one -/

def lockedSecret : String := "[\"P2PK\",\x7b\"nonce\":\"n1\",\"data\":\"02ab\"\x7d]"

def lockMembers : Members :=
  compactMember "nonce" (compactString "n1") (compactMember "data" (compactString "02ab") .nil)

theorem isLock_lockedSecret : IsLock lockedSecret lockMembers := by
  refine ⟨[], [], [], .cons [] (compactString "P2PK") [] (.cons [] (.obj [] lockMembers) [] .nil),
    plainLiteral "P2PK".toList, [], [], blank_nil, blank_nil, ⟨blank_nil, ?_⟩, by decide, rfl,
    literalValue_plainLiteral _⟩
  have hmember : ∀ {key value : String} {rest : Members}, key.toList.all needsNoEscape = true →
      value.toList.all needsNoEscape = true → rest.Json →
      (compactMember key (compactString value) rest).Json := fun hkey hvalue hrest =>
    ⟨blank_nil, wf_plainLiteral hkey, blank_nil, blank_nil, wf_plainLiteral hvalue, blank_nil, hrest⟩
  exact ⟨blank_nil, wf_plainLiteral (by decide), blank_nil, blank_nil,
    ⟨blank_nil, hmember (by decide) (by decide) (hmember (by decide) (by decide) trivial)⟩,
    blank_nil, trivial⟩

theorem lockedSecret_toList : lockedSecret.toList =
    '[' :: '"' :: ("P2PK".toList ++ '"' :: ',' :: '{' :: '"' :: ("nonce".toList ++ '"' :: ':' :: '"' ::
      ("n1".toList ++ '"' :: ',' :: '"' :: ("data".toList ++ '"' :: ':' :: '"' ::
        ("02ab".toList ++ '"' :: ['}', ']']))))) := by
  decide

theorem rawText_of_skipString {cs : List Char}
    (h : skipString (cs ++ ['"']) = some (cs, [])) : RawText cs :=
  (skipString_eq_some_iff.mp h).1

/-- Whatever is read in the secret, its key is this one. -/
theorem dataField_of_isLock {members : Members} (h : IsLock lockedSecret members) :
    dataField members = some "02ab".toList := by
  obtain ⟨lead, trail, blank, items, lit, blank', more, hlead, -, hjson, hsecret, hvalues, -⟩ := h
  rw [lockedSecret_toList, Doc.text] at hsecret
  simp only [append_assoc, cons_append] at hsecret
  obtain ⟨rfl, hopen⟩ := blank_of_cons hlead (by decide) hsecret.symm
  cases items with
  | nil => cases hvalues
  | cons before value after rest =>
    simp only [Items.values, List.cons.injEq] at hvalues
    obtain ⟨rfl, hvalues⟩ := hvalues
    cases rest with
    | nil => cases hvalues
    | cons before' value after' rest =>
      simp only [Items.values, List.cons.injEq] at hvalues
      obtain ⟨rfl, -⟩ := hvalues
      obtain ⟨hblank, hbefore, hlit, hafter, hbefore', ⟨hblank', hmembers⟩, -⟩ := hjson
      rw [Items.text, Items.text, Doc.text, Doc.text] at hopen
      simp only [append_assoc, cons_append, nil_append, Items.comma] at hopen
      obtain ⟨rfl, h₁⟩ := blank_of_cons hblank (by decide) (List.cons.inj hopen).2
      obtain ⟨rfl, h₂⟩ := blank_of_cons hbefore (by decide) h₁
      obtain ⟨-, h₃⟩ := literal_of_quote hlit (rawText_of_skipString (by decide))
        (List.cons.inj h₂).2
      obtain ⟨rfl, h₄⟩ := blank_of_cons hafter (by decide) h₃
      obtain ⟨rfl, h₅⟩ := blank_of_cons hbefore' (by decide) (List.cons.inj h₄).2
      obtain ⟨rfl, h₆⟩ := blank_of_cons hblank' (by decide) (List.cons.inj h₅).2
      -- the two members
      obtain ⟨nonce, lit₁, after₁, members, rfl, hnonce, -, hafter₁, hmembers, htext⟩ :=
        members_of_quote hmembers (rawText_of_skipString (by decide))
          (rawText_of_skipString (by decide)) h₆
      obtain ⟨data, lit₂, after₂, members, rfl, hdata, hvalue, hafter₂, -, hend⟩ :=
        members_of_quote hmembers (rawText_of_skipString (by decide))
          (rawText_of_skipString (by decide)) (text_of_comma hafter₁ htext)
      obtain rfl := nil_of_brace hafter₂ hend
      rw [dataField, Members.valuesOf, Members.valuesOf, Members.valuesOf,
        literalValue_of_text hnonce (by decide), literalValue_of_text hdata (by decide),
        if_neg (by decide), if_pos rfl]
      exact congrArg some (literalValue_of_text hvalue (by decide))

theorem quoted_lockedSecret (value : List Char) :
    QuotedAfterData lockedSecret value ↔ "02ab".toList = value := by
  have hfound : parseP2pkPubkey lockedSecret.toList = some "02ab".toList := by
    rw [lockedSecret_toList]
    decide
  rw [← parseP2pkPubkey_eq_some_iff, hfound, some.injEq]

/-- A proof without a lock, and then the locked one. -/
theorem plainlyLocked_pair {p q : Proof} (hamount : p.amount.toNat + q.amount.toNat < 2 ^ 31)
    (hletters : ¬ Mentions p.secret) (hbracket : '[' ∉ p.secret.toList)
    (hq : q.secret = lockedSecret) : PlainlyLocked [p, q] := by
  have hlock (members : Members) : ¬ IsLock p.secret members := by
    rintro ⟨lead, trail, blank, items, lit, blank', more, -, -, -, hsecret, -⟩
    exact hbracket (by rw [hsecret, Doc.text]; simp)
  have hsome : SomeLock [p, q] :=
    ⟨q, mem_cons_of_mem _ mem_cons_self, lockMembers, hq ▸ isLock_lockedSecret⟩
  have hmem {before after : List Proof} {r : Proof} (h : [p, q] = before ++ r :: after) :
      r = p ∨ r = q := by
    have hr : r ∈ [p, q] := h ▸ mem_append_right _ mem_cons_self
    simpa using hr
  refine ⟨by simpa [amountSum] using hamount, iff_of_true ?_ hsome, fun members hfirst value => ?_,
    fun hnone => absurd hsome hnone⟩
  · exact ⟨q, mem_cons_of_mem _ mem_cons_self,
      hq ▸ ((quoted_lockedSecret _).mpr rfl).mentions⟩
  · obtain ⟨before, r, after, hproofs, hr, -⟩ := hfirst
    have hfield : dataField members = some "02ab".toList := by
      obtain rfl | rfl := hmem hproofs
      · exact absurd hr (hlock members)
      · exact dataField_of_isLock (hq ▸ hr)
    rw [hfield, some.injEq, ← quoted_lockedSecret]
    constructor
    · rintro ⟨before, r, after, hproofs, hr, -⟩
      obtain rfl | rfl := hmem hproofs
      · exact absurd hr.mentions hletters
      · exact hq ▸ hr
    · intro hvalue
      refine ⟨[p], q, [], rfl, hq ▸ hvalue, fun r hr v hv => hletters ?_⟩
      rw [← List.mem_singleton.mp hr]
      exact hv.mentions

theorem nutzap_read_sample : ∃ parsed,
    parseKind9321 (nutzapOf ⟨21, "s", "c", none, none, none, none⟩
      ⟨1, lockedSecret, "c", none, none, none, none⟩) = .ok parsed ∧ NutzapRead parsed := by
  obtain ⟨parsed, hparsed, hproofs⟩ :=
    parseKind9321_nutzapOf (p := ⟨21, "s", "c", none, none, none, none⟩)
      (q := ⟨1, lockedSecret, "c", none, none, none, none⟩)
      ⟨by decide, by decide, by simp, by simp⟩ ⟨by decide, by decide, by simp, by simp⟩
  refine ⟨parsed, hparsed, (nutzap_read_iff _ parsed hparsed).mpr ?_⟩
  rw [hproofs]
  exact plainlyLocked_pair (by decide) (by decide) (by decide) rfl

/-- A proof of 2³¹ is reported as a negative amount. -/
theorem large_proof_negative : ∃ event parsed, parseKind9321 event = .ok parsed ∧
    ¬ NutzapRead parsed := by
  obtain ⟨parsed, hparsed, hproofs⟩ :=
    parseKind9321_nutzapOf (p := ⟨2147483648, "s", "c", none, none, none, none⟩)
      (q := ⟨1, "s", "c", none, none, none, none⟩)
      ⟨by decide, by decide, by simp, by simp⟩ ⟨by decide, by decide, by simp, by simp⟩
  refine ⟨_, parsed, hparsed, fun hread => ?_⟩
  have htotal := (tells_parsed hparsed).total
  have hamount := hread.amount
  dsimp only at htotal
  rw [htotal, hproofs, toInt_ofNat_eq_iff] at hamount
  exact absurd hamount (by decide)

end Nutzap
end Nipworker
