/-
Address strings (`lib/NostrUtils.ts`).

A pointer to a replaceable event is written `kind:pubkey:d`, and with a prefix and some
relays in a query string for the interface.
-/
import Nipworker.Lib.JsUri

namespace Nipworker.AddressStrings

open Js JsJson List

/-! ### The code -/

/-- A pointer to an addressable event. -/
structure APointer where
  kind : ℤ
  pubkey : JsString
  d : JsString
  deriving DecidableEq

/-- What is thrown at a part that cannot be written. -/
inductive AddressError
  | kind (kind : ℤ)
  | pubkeyHex (pubkeyHex : JsString)
  | dTag (d : JsString)
  | format (a : JsString)
  | pointerKind (kind : JsString)
  | pointerPubkey (pubkey : JsString)
  | pointerD (d : JsString)
  | naddrPrefix (naddrLike : JsString)
  | uri
  deriving DecidableEq

def decimal (n : ℕ) : JsString := units (Nat.toDigits 10 n)

def AddressError.message : AddressError → JsString
  | .kind k => units "Invalid kind: ".toList ++ (if k < 0 then [45] else []) ++ decimal k.natAbs
  | .pubkeyHex p => units "Invalid pubkey hex (expected 64 lowercase hex chars): ".toList ++ p
  | .dTag d => units "Invalid d tag: ".toList ++ d
  | .format a => units "Invalid a-pointer format: ".toList ++ a
  | .pointerKind text => units "Invalid kind in a-pointer: ".toList ++ text
  | .pointerPubkey p => units "Invalid pubkey in a-pointer: ".toList ++ p
  | .pointerD d => units "Invalid d in a-pointer: ".toList ++ d
  | .naddrPrefix s => units "Invalid naddr-like prefix: ".toList ++ s
  | .uri => units "URI malformed".toList

/-- A digit of `[0-9a-f]`. -/
def isLowerHex (u : UInt16) : Bool := 48 ≤ u ∧ u ≤ 57 ∨ 97 ≤ u ∧ u ≤ 102

def isHex64 (s : JsString) : Bool := s.length = 64 ∧ s.all isLowerHex

/-- `Number` on a string, if it is an integer.  A numeral of at most fifteen digits is
exact; `other` reads the remaining forms (longer numerals, signs, points, exponents, other
bases, whitespace). -/
def toInteger (other : JsString → Option ℤ) (s : JsString) : Option ℤ :=
  if s ≠ [] ∧ s.length ≤ 15 ∧ s.all isDigitUnit then
    some ((Nat.ofDigitChars 10 (s.map charOf) 0 : ℕ) : ℤ)
  else other s

/-- `makeAPointer`, for a kind that is an integer. -/
def makeAPointer (kind : ℤ) (pubkeyHex d : JsString) : Except AddressError JsString :=
  if kind < 0 ∨ 0xffff < kind then .error (.kind kind)
  else if !isHex64 pubkeyHex then .error (.pubkeyHex pubkeyHex)
  else if d = [] then .error (.dTag d)
  else .ok (decimal kind.toNat ++ 58 :: (pubkeyHex ++ 58 :: d))

/-- The pointer `kind:pubkey:identifier`, read. -/
def parseAPointer (other : JsString → Option ℤ) (a : JsString) : Except AddressError APointer :=
  match a.splitOn 58 with
  | [kind, pubkey, d] =>
    match toInteger other kind with
    | none => .error (.pointerKind kind)
    | some k =>
      if !isHex64 pubkey then .error (.pointerPubkey pubkey)
      else if d = [] then .error (.pointerD d)
      else .ok { kind := k, pubkey, d }
  | _ => .error (.format a)

def naddrLike : JsString := units ['n', 'a', 'd', 'd', 'r', '-', 'l', 'i', 'k', 'e', ':']

def relaysName : JsString := units ['r', 'e', 'l', 'a', 'y', 's']

/-- The longer form, with relays. -/
def makeNaddrLike (kind : ℤ) (pubkeyHex d : JsString) (relays : Option (List JsString)) :
    Except AddressError JsString := do
  let a ← makeAPointer kind pubkeyHex d
  match relays with
  | some (relay :: more) =>
    match (relay :: more).mapM encodeURIComponent with
    | none => .error .uri
    | some encoded => .ok (naddrLike ++ (a ++ 63 :: (relaysName ++ 61 :: [44].intercalate encoded)))
  | _ => .ok (naddrLike ++ a)

def parseRelays (qs : JsString) : Except AddressError (Option (List JsString)) :=
  match searchParam (urlSearchParams qs) relaysName with
  | none | some [] => .ok none
  | some (u :: param) =>
    match ((u :: param).splitOn 44).mapM decodeURIComponent with
    | none => .error .uri
    | some relays => .ok (some relays)

/-- The relays of what stands behind the question mark, if there is something. -/
def relaysOfQuery : Option JsString → Except AddressError (Option (List JsString))
  | none | some [] => .ok none
  | some (u :: qs) => parseRelays (u :: qs)

def parseNaddrLike (other : JsString → Option ℤ) (s : JsString) :
    Except AddressError (APointer × Option (List JsString)) :=
  if !naddrLike.isPrefixOf s then .error (.naddrPrefix s)
  else
    let parts := ((s.drop naddrLike.length).splitOn 63).take 2
    do
      let a ← parseAPointer other (parts.headD [])
      let relays ← relaysOfQuery parts[1]?
      .ok (a, relays)

/-! ### Pointers -/

section

variable {other : JsString → Option ℤ} {kind : ℕ} {pubkey d : JsString}

theorem mem_decimal {n : ℕ} {u : UInt16} (h : u ∈ decimal n) : isDigitUnit u = true := by
  obtain ⟨c, hc, rfl⟩ := List.mem_map.mp h
  exact isDigitUnit_unit (Nat.isDigit_of_mem_toDigits (by decide) (by decide) hc)

theorem not_mem_decimal {n : ℕ} {u : UInt16} (h : isDigitUnit u = false) : u ∉ decimal n := by
  intro hmem
  rw [mem_decimal hmem] at h
  contradiction

theorem not_mem_hex {u : UInt16} (hpubkey : isHex64 pubkey = true) (h : isLowerHex u = false) :
    u ∉ pubkey := by
  rw [isHex64, decide_eq_true_eq] at hpubkey
  intro hmem
  rw [List.all_eq_true.mp hpubkey.2 u hmem] at h
  contradiction

theorem toInteger_decimal (hkind : kind ≤ 65535) : toInteger other (decimal kind) = some (kind : ℤ) := by
  have hlen : (decimal kind).length ≤ 15 := by
    rw [decimal, length_units]
    exact (Nat.length_toDigits_le_iff (by decide) (by decide)).mpr (by omega)
  have hne : decimal kind ≠ [] := by
    rw [← length_pos_iff, decimal, length_units]
    exact Nat.length_toDigits_pos
  have hall : (decimal kind).all isDigitUnit = true :=
    List.all_eq_true.mpr fun u hu => mem_decimal hu
  rw [toInteger, if_pos ⟨hne, hlen, hall⟩, decimal, map_charOf_digits fun c hc =>
    Nat.isDigit_of_mem_toDigits (by decide) (by decide) hc, Nat.ofDigitChars_ten_toDigits]

theorem makeAPointer_ok (hkind : kind ≤ 65535) (hpubkey : isHex64 pubkey = true) (hd : d ≠ []) :
    makeAPointer kind pubkey d = .ok (decimal kind ++ 58 :: (pubkey ++ 58 :: d)) := by
  rw [makeAPointer, if_neg (by omega), hpubkey, Bool.not_true, if_neg Bool.false_ne_true,
    if_neg hd, Int.toNat_natCast]

theorem splitOn_pointer (hpubkey : isHex64 pubkey = true) (d : JsString) :
    (decimal kind ++ 58 :: (pubkey ++ 58 :: d)).splitOn 58 =
      decimal kind :: pubkey :: d.splitOn 58 := by
  rw [splitOn_append_cons_self_of_not_mem (not_mem_decimal (by decide)),
    splitOn_append_cons_self_of_not_mem (not_mem_hex hpubkey (by decide))]

/-- **A pointer is read back** when its identifier has no colon. -/
theorem parseAPointer_ok (hkind : kind ≤ 65535) (hpubkey : isHex64 pubkey = true) (hd : d ≠ [])
    (hcolon : 58 ∉ d) :
    parseAPointer other (decimal kind ++ 58 :: (pubkey ++ 58 :: d)) =
      .ok { kind := kind, pubkey, d } := by
  rw [parseAPointer, splitOn_pointer hpubkey, splitOn_eq_singleton hcolon]
  dsimp only
  rw [toInteger_decimal hkind]
  dsimp only
  rw [hpubkey, Bool.not_true, if_neg Bool.false_ne_true, if_neg hd]

theorem parseAPointer_parts {a : JsString} {p : APointer} (h : parseAPointer other a = .ok p) :
    ∃ text, a.splitOn 58 = [text, p.pubkey, p.d] := by
  rw [parseAPointer] at h
  split at h
  · next text pubkey d hsplit =>
    split at h
    · contradiction
    · split at h
      · contradiction
      · split at h
        · contradiction
        · rw [← Except.ok.inj h]
          exact ⟨text, hsplit⟩
  · contradiction

theorem d_of_parseAPointer {a : JsString} {p : APointer} (h : parseAPointer other a = .ok p) :
    58 ∉ p.d ∧ ∀ u ∈ p.d, u ∈ a := by
  obtain ⟨text, hsplit⟩ := parseAPointer_parts h
  have hmem : p.d ∈ a.splitOn 58 := by
    rw [hsplit]
    simp
  refine ⟨not_mem_of_mem_splitOn _ hmem, fun u hu => ?_⟩
  have hjoin : [58].intercalate (a.splitOn 58) = a := intercalate_splitOn 58
  rw [← hjoin]
  exact Text.mem_intercalate_of_mem [58] hmem hu

/-- The pointer that is written is read as what it was written of. -/
def PointerReadsBack (other : JsString → Option ℤ) (kind : ℕ) (pubkey d : JsString) : Prop :=
  ∃ a, makeAPointer kind pubkey d = .ok a ∧
    parseAPointer other a = .ok { kind := kind, pubkey, d }

/-- The pointers that are read back. -/
theorem pointer_reads_back_iff (hkind : kind ≤ 65535) (hpubkey : isHex64 pubkey = true)
    (hd : d ≠ []) : PointerReadsBack other kind pubkey d ↔ 58 ∉ d := by
  constructor
  · rintro ⟨a, -, hparse⟩
    exact (d_of_parseAPointer hparse).1
  · intro hcolon
    exact ⟨_, makeAPointer_ok hkind hpubkey hd, parseAPointer_ok hkind hpubkey hd hcolon⟩

end

/-! ### Relays in a query string -/

section

theorem mapM_eq_some_iff {α β : Type} {f : α → Option β} {xs : List α} {ys : List β} :
    xs.mapM f = some ys ↔ xs.map f = ys.map some := by
  induction xs generalizing ys with
  | nil =>
    rw [mapM_nil, map_nil]
    cases ys with
    | nil => exact Iff.intro (fun _ => rfl) fun _ => rfl
    | cons y ys => exact Iff.intro (fun h => by injection h with h; contradiction) fun h => by contradiction
  | cons x xs ih =>
    rw [mapM_cons, map_cons]
    constructor
    · intro h
      simp only [Option.pure_def, Option.bind_eq_bind, Option.bind_eq_some_iff,
        Option.some.injEq] at h
      obtain ⟨y, hy, zs, hzs, rfl⟩ := h
      rw [hy, ih.mp hzs, map_cons]
    · intro h
      cases ys with
      | nil => contradiction
      | cons y ys =>
        rw [map_cons, List.cons.injEq] at h
        rw [h.1, ih.mpr h.2]
        rfl

def encoded (relay : JsString) : Bytes := (scalars relay).flatMap encodeChar

variable {relays : List JsString}

theorem mapM_encode_iff {encodedRelays : List JsString} :
    relays.mapM encodeURIComponent = some encodedRelays ↔
      (∀ relay ∈ relays, isWellFormed relay = true) ∧
        encodedRelays = relays.map fun relay => ofBytes (encoded relay) := by
  rw [mapM_eq_some_iff]
  induction relays generalizing encodedRelays with
  | nil =>
    cases encodedRelays with
    | nil => exact iff_of_true rfl ⟨fun _ h => absurd h not_mem_nil, rfl⟩
    | cons e es => exact iff_of_false (by simp) fun h => absurd h.2 (by simp)
  | cons relay relays ih =>
    cases encodedRelays with
    | nil => exact iff_of_false (by simp) fun h => absurd h.2 (by simp)
    | cons e es =>
      rw [map_cons, map_cons, List.cons.injEq, ih, forall_mem_cons, map_cons,
        List.cons.injEq, encodeURIComponent]
      by_cases hwf : isWellFormed relay = true
      · rw [if_pos hwf, Option.some.injEq, encoded]
        exact ⟨fun h => ⟨⟨hwf, h.2.1⟩, h.1.symm, h.2.2⟩, fun h => ⟨h.2.1.symm, h.1.2, h.2.2⟩⟩
      · rw [if_neg hwf]
        exact iff_of_false (fun h => absurd h.1 (by simp)) fun h => hwf h.1.1

theorem ofBytes_append (a b : Bytes) : ofBytes (a ++ b) = ofBytes a ++ ofBytes b :=
  map_append

theorem map_intercalate {α β : Type} (f : α → β) (sep : α) (xss : List (List α)) :
    ([sep].intercalate xss).map f = [f sep].intercalate (xss.map (List.map f)) := by
  induction xss with
  | nil => rfl
  | cons xs xss ih =>
    cases xss with
    | nil => simp
    | cons ys xss =>
      rw [intercalate_cons_cons, map_append, map_append, ih]
      exact (intercalate_cons_cons).symm

theorem ofChars_intercalate (css : List (List Char)) :
    ofChars ([','].intercalate css) = [44].intercalate (css.map ofChars) := by
  induction css with
  | nil => rfl
  | cons cs css ih =>
    cases css with
    | nil => simp
    | cons ds css =>
      have happend : ∀ a b : List Char, ofChars (a ++ b) = ofChars a ++ ofChars b := fun a b =>
        flatMap_append
      rw [intercalate_cons_cons, happend, happend, ih]
      exact (intercalate_cons_cons).symm

def relaysQuery (relays : List JsString) : JsString :=
  relaysName ++ 61 :: [44].intercalate (relays.map fun relay => ofBytes (encoded relay))

theorem searchParam_relaysQuery (hwf : ∀ relay ∈ relays, isWellFormed relay = true) :
    searchParam (urlSearchParams (relaysQuery relays)) relaysName =
      some ([44].intercalate relays) := by
  have h := searchParam_encoded (show ['r', 'e', 'l', 'a', 'y', 's'] ≠ [] by decide)
    (relays.map scalars)
  have hquery : ofBytes ((['r', 'e', 'l', 'a', 'y', 's'] : List Char).flatMap encodeChar ++
      61 :: [44].intercalate ((relays.map scalars).map fun cs => cs.flatMap encodeChar)) =
        relaysQuery relays := by
    have hjoin := map_intercalate UInt8.toUInt16 44
      ((relays.map scalars).map fun cs => cs.flatMap encodeChar)
    rw [map_map, map_map] at hjoin
    rw [ofBytes_append, relaysQuery, map_map]
    exact congrArg (fun t => relaysName ++ 61 :: t) hjoin
  have hback : (relays.map scalars).map ofChars = relays := by
    rw [map_map]
    calc relays.map (ofChars ∘ scalars) = relays.map id :=
          map_congr_left fun relay hrelay => ofChars_scalars (hwf relay hrelay)
      _ = relays := map_id relays
  rw [hquery, ofChars_intercalate, hback] at h
  exact h

theorem not_mem_relaysQuery (relays : List JsString) : 63 ∉ relaysQuery relays := by
  intro hmem
  rcases List.mem_append.mp hmem with hname | hrest
  · exact absurd hname (by decide)
  rcases List.mem_cons.mp hrest with heq | hrest
  · exact absurd heq (by decide)
  rcases Text.mem_intercalate hrest with ⟨p, hp, hmem⟩ | hcomma
  · obtain ⟨relay, -, rfl⟩ := List.mem_map.mp hp
    obtain ⟨b, hb, heq⟩ := List.mem_map.mp hmem
    refine (mem_encodeChars b hb).2.2.2.2.2 (UInt8.toNat_inj.mp ?_)
    rw [← UInt8.toNat_toUInt16 b, heq]
    rfl
  · exact absurd hcomma (by decide)

/-- The relays that survive: those that are well formed and have neither a comma nor a
percent sign, unless there is just an empty one. -/
def RelaysSurvive (relays : List JsString) : Prop :=
  relays ≠ [[]] ∧ ∀ relay ∈ relays, isWellFormed relay = true ∧ 44 ∉ relay ∧ 37 ∉ relay

theorem intercalate_eq_nil_iff (hne : relays ≠ []) :
    [44].intercalate relays = [] ↔ relays = [[]] := by
  cases relays with
  | nil => contradiction
  | cons relay relays =>
    cases relays with
    | nil => rw [intercalate_singleton, List.cons.injEq, and_iff_left rfl]
    | cons next relays => simp

theorem mapM_decode_iff (hne : relays ≠ []) :
    (([44].intercalate relays).splitOn 44).mapM decodeURIComponent = some relays ↔
      ∀ relay ∈ relays, 44 ∉ relay ∧ 37 ∉ relay := by
  constructor
  · intro h
    rw [mapM_eq_some_iff] at h
    -- as many pieces as relays: none of them has a comma
    have hlen := congrArg List.length h
    rw [length_map, length_map, length_splitOn] at hlen
    have hcount := count_intercalate 44 hne
    have hsum : (relays.map (List.count 44)).sum = 0 := by omega
    have hcomma : ∀ relay ∈ relays, 44 ∉ relay := by
      intro relay hrelay
      have hle : relay.count 44 ≤ (relays.map (List.count 44)).sum :=
        le_sum_of_mem (mem_map_of_mem hrelay)
      exact List.count_eq_zero.mp (by omega)
    rw [splitOn_intercalate 44 hcomma hne] at h
    intro relay hrelay
    refine ⟨hcomma relay hrelay, decodeURIComponent_eq_self_iff.mp ?_⟩
    exact List.map_inj_left.mp h relay hrelay
  · intro h
    rw [splitOn_intercalate 44 (fun relay hrelay => (h relay hrelay).1) hne,
      mapM_eq_some_iff]
    exact map_congr_left fun relay hrelay =>
      decodeURIComponent_eq_self_iff.mpr (h relay hrelay).2

theorem parseRelays_iff (hne : relays ≠ []) (hwf : ∀ relay ∈ relays, isWellFormed relay = true) :
    (∃ read, parseRelays (relaysQuery relays) = .ok read ∧ read.getD [] = relays) ↔
      RelaysSurvive relays := by
  rw [parseRelays, searchParam_relaysQuery hwf]
  have hempty := intercalate_eq_nil_iff hne
  have hdecode := mapM_decode_iff hne
  have hsurvive : RelaysSurvive relays ↔ relays ≠ [[]] ∧ ∀ relay ∈ relays, 44 ∉ relay ∧ 37 ∉ relay :=
    and_congr_right fun _ => forall₂_congr fun relay hrelay => and_iff_right (hwf relay hrelay)
  rw [hsurvive, ← hdecode]
  cases hjoin : [44].intercalate relays with
  | nil =>
    refine iff_of_false ?_ fun h => h.1 (hempty.mp hjoin)
    rintro ⟨read, hread, hrelays⟩
    rw [← Except.ok.inj hread] at hrelays
    exact hne hrelays.symm
  | cons u param =>
    have hne' : relays ≠ [[]] := by
      intro heq
      rw [hempty.mpr heq] at hjoin
      contradiction
    rw [and_iff_right hne']
    dsimp only
    cases hmap : ((u :: param).splitOn 44).mapM decodeURIComponent with
    | none => exact iff_of_false (by rintro ⟨read, hread, -⟩; contradiction) (by simp)
    | some read =>
      rw [Option.some.injEq]
      constructor
      · rintro ⟨read', hread, hrelays⟩
        rw [← Except.ok.inj hread] at hrelays
        exact hrelays
      · rintro rfl
        exact ⟨_, rfl, rfl⟩

end

/-! ### The longer form -/

section

variable {other : JsString → Option ℤ} {kind : ℕ} {pubkey d : JsString}

/-- The pointer and the relays are read back; without relays there are none to be read. -/
def NaddrReadsBack (other : JsString → Option ℤ) (kind : ℕ) (pubkey d : JsString)
    (relays : List JsString) : Prop :=
  ∃ s read, makeNaddrLike kind pubkey d (some relays) = .ok s ∧
    parseNaddrLike other s = .ok ({ kind := kind, pubkey, d }, read) ∧ read.getD [] = relays

theorem makeNaddrLike_nil (hkind : kind ≤ 65535) (hpubkey : isHex64 pubkey = true) (hd : d ≠ []) :
    makeNaddrLike kind pubkey d (some []) =
      .ok (naddrLike ++ (decimal kind ++ 58 :: (pubkey ++ 58 :: d))) := by
  rw [makeNaddrLike, makeAPointer_ok hkind hpubkey hd]
  rfl

theorem makeNaddrLike_cons_iff (hkind : kind ≤ 65535) (hpubkey : isHex64 pubkey = true)
    (hd : d ≠ []) {relay : JsString} {more : List JsString} {s : JsString} :
    makeNaddrLike kind pubkey d (some (relay :: more)) = .ok s ↔
      (∀ r ∈ relay :: more, isWellFormed r = true) ∧
        s = naddrLike ++ (decimal kind ++ 58 :: (pubkey ++ 58 :: d) ++
          63 :: relaysQuery (relay :: more)) := by
  rw [makeNaddrLike, makeAPointer_ok hkind hpubkey hd]
  show (match (relay :: more).mapM encodeURIComponent with
    | none => Except.error AddressError.uri
    | some es => Except.ok (naddrLike ++ (decimal kind ++ 58 :: (pubkey ++ 58 :: d) ++
        63 :: (relaysName ++ 61 :: [44].intercalate es)))) = Except.ok s ↔ _
  cases hmap : (relay :: more).mapM encodeURIComponent with
  | none =>
    refine iff_of_false (fun h => by contradiction) fun h => ?_
    rw [mapM_encode_iff.mpr ⟨h.1, rfl⟩] at hmap
    contradiction
  | some es =>
    obtain ⟨hwf, rfl⟩ := mapM_encode_iff.mp hmap
    rw [Except.ok.injEq, and_iff_right hwf, relaysQuery]
    exact eq_comm

theorem parseNaddrLike_ok_iff {rest : JsString} {p : APointer} {read : Option (List JsString)} :
    parseNaddrLike other (naddrLike ++ rest) = .ok (p, read) ↔
      parseAPointer other ((rest.splitOn 63).headD []) = .ok p ∧
        relaysOfQuery (rest.splitOn 63)[1]? = .ok read := by
  have hprefix : naddrLike.isPrefixOf (naddrLike ++ rest) = true :=
    List.isPrefixOf_iff_prefix.mpr ⟨rest, rfl⟩
  have htake : ((rest.splitOn 63).take 2).headD [] = (rest.splitOn 63).headD [] ∧
      ((rest.splitOn 63).take 2)[1]? = (rest.splitOn 63)[1]? := by
    obtain ⟨q, qs, hparts⟩ := exists_cons_of_ne_nil (splitOn_ne_nil 63 rest)
    rw [hparts]
    cases qs <;> exact ⟨rfl, rfl⟩
  rw [parseNaddrLike, hprefix, Bool.not_true, if_neg Bool.false_ne_true, drop_left' rfl]
  dsimp only
  rw [htake.1, htake.2]
  cases parseAPointer other ((rest.splitOn 63).headD []) with
  | error e => exact iff_of_false (fun h => by contradiction) fun h => absurd h.1 (by simp)
  | ok a =>
    cases relaysOfQuery (rest.splitOn 63)[1]? with
    | error e => exact iff_of_false (fun h => by contradiction) fun h => absurd h.2 (by simp)
    | ok relays =>
      show Except.ok (a, relays) = _ ↔ _
      rw [Except.ok.injEq, Except.ok.injEq, Except.ok.injEq, Prod.mk.injEq]

theorem splitOn_naddr (hpubkey : isHex64 pubkey = true) (hmark : 63 ∉ d) (qs : JsString)
    (hqs : 63 ∉ qs) :
    (decimal kind ++ 58 :: (pubkey ++ 58 :: d) ++ 63 :: qs).splitOn 63 =
        [decimal kind ++ 58 :: (pubkey ++ 58 :: d), qs] ∧
      (decimal kind ++ 58 :: (pubkey ++ 58 :: d)).splitOn 63 =
        [decimal kind ++ 58 :: (pubkey ++ 58 :: d)] := by
  have hnone : 63 ∉ decimal kind ++ 58 :: (pubkey ++ 58 :: d) := by
    simp only [mem_append, mem_cons, not_or]
    exact ⟨not_mem_decimal (by decide), by decide, not_mem_hex hpubkey (by decide), by decide,
      hmark⟩
  exact ⟨by rw [splitOn_append_cons_self_of_not_mem hnone, splitOn_eq_singleton hqs],
    splitOn_eq_singleton hnone⟩

theorem headD_mem_splitOn (rest : JsString) : (rest.splitOn 63).headD [] ∈ rest.splitOn 63 := by
  obtain ⟨q, qs, hparts⟩ := exists_cons_of_ne_nil (splitOn_ne_nil 63 rest)
  rw [hparts]
  exact mem_cons_self

theorem d_of_readsBack {relays : List JsString} (h : NaddrReadsBack other kind pubkey d relays)
    (hkind : kind ≤ 65535) (hpubkey : isHex64 pubkey = true) (hd : d ≠ []) :
    58 ∉ d ∧ 63 ∉ d := by
  obtain ⟨s, read, hmake, hparse, -⟩ := h
  have hrest : ∃ rest, s = naddrLike ++ rest := by
    cases relays with
    | nil =>
      rw [makeNaddrLike_nil hkind hpubkey hd] at hmake
      exact ⟨_, (Except.ok.inj hmake).symm⟩
    | cons relay more => exact ⟨_, ((makeNaddrLike_cons_iff hkind hpubkey hd).mp hmake).2⟩
  obtain ⟨rest, rfl⟩ := hrest
  have hpointer := (parseNaddrLike_ok_iff.mp hparse).1
  obtain ⟨hcolon, hmem⟩ := d_of_parseAPointer hpointer
  refine ⟨hcolon, fun hmark => ?_⟩
  exact not_mem_of_mem_splitOn _ (headD_mem_splitOn rest) (hmem 63 hmark)

/-- **The longer form is read back** exactly when the identifier has neither a colon nor a
question mark and the relays survive. -/
theorem naddr_reads_back_iff (hkind : kind ≤ 65535) (hpubkey : isHex64 pubkey = true)
    (hd : d ≠ []) (relays : List JsString) :
    NaddrReadsBack other kind pubkey d relays ↔ 58 ∉ d ∧ 63 ∉ d ∧ RelaysSurvive relays := by
  have hpointer : 58 ∉ d → parseAPointer other (decimal kind ++ 58 :: (pubkey ++ 58 :: d)) =
      .ok { kind := kind, pubkey, d } := parseAPointer_ok hkind hpubkey hd
  cases relays with
  | nil =>
    have hsurvive : RelaysSurvive [] := ⟨by simp, fun r hr => absurd hr not_mem_nil⟩
    constructor
    · intro h
      have hdelims := d_of_readsBack h hkind hpubkey hd
      exact ⟨hdelims.1, hdelims.2, hsurvive⟩
    · rintro ⟨hcolon, hmark, -⟩
      refine ⟨_, none, makeNaddrLike_nil hkind hpubkey hd, parseNaddrLike_ok_iff.mpr ?_, rfl⟩
      rw [(splitOn_naddr hpubkey hmark [] not_mem_nil).2]
      exact ⟨hpointer hcolon, rfl⟩
  | cons relay more =>
    have hquery : ∀ {read : Option (List JsString)}, 63 ∉ d →
        (parseNaddrLike other (naddrLike ++ (decimal kind ++ 58 :: (pubkey ++ 58 :: d) ++
            63 :: relaysQuery (relay :: more))) = .ok ({ kind := kind, pubkey, d }, read) ↔
          parseAPointer other (decimal kind ++ 58 :: (pubkey ++ 58 :: d)) =
              .ok { kind := kind, pubkey, d } ∧
            parseRelays (relaysQuery (relay :: more)) = .ok read) := by
      intro read hmark
      rw [parseNaddrLike_ok_iff,
        (splitOn_naddr hpubkey hmark _ (not_mem_relaysQuery (relay :: more))).1]
      exact Iff.rfl
    constructor
    · intro h
      obtain ⟨hcolon, hmark⟩ := d_of_readsBack h hkind hpubkey hd
      obtain ⟨s, read, hmake, hparse, hrelays⟩ := h
      obtain ⟨hwf, rfl⟩ := (makeNaddrLike_cons_iff hkind hpubkey hd).mp hmake
      exact ⟨hcolon, hmark, (parseRelays_iff (cons_ne_nil _ _) hwf).mp
        ⟨read, ((hquery hmark).mp hparse).2, hrelays⟩⟩
    · rintro ⟨hcolon, hmark, hsurvive⟩
      have hwf : ∀ r ∈ relay :: more, isWellFormed r = true := fun r hr => (hsurvive.2 r hr).1
      obtain ⟨read, hread, hrelays⟩ := (parseRelays_iff (cons_ne_nil _ _) hwf).mpr hsurvive
      exact ⟨_, read, (makeNaddrLike_cons_iff hkind hpubkey hd).mpr ⟨hwf, rfl⟩,
        (hquery hmark).mpr ⟨hpointer hcolon, hread⟩, hrelays⟩

/-- **Address strings are read back** exactly when the identifier has neither a colon nor a
question mark, and every relay is well formed and has neither a comma nor a percent sign
(and there is not just an empty one); the pointer alone when there is no colon. -/
theorem address_strings_read_back (other : JsString → Option ℤ) (kind : ℕ) (pubkey d : JsString)
    (relays : List JsString) (hkind : kind ≤ 65535) (hpubkey : isHex64 pubkey = true)
    (hd : d ≠ []) :
    (PointerReadsBack other kind pubkey d ∧ NaddrReadsBack other kind pubkey d relays ↔
      58 ∉ d ∧ 63 ∉ d ∧ RelaysSurvive relays) ∧
    (PointerReadsBack other kind pubkey d ↔ 58 ∉ d) := by
  have hpointer : PointerReadsBack other kind pubkey d ↔ 58 ∉ d :=
    pointer_reads_back_iff hkind hpubkey hd
  have hnaddr : NaddrReadsBack other kind pubkey d relays ↔
      58 ∉ d ∧ 63 ∉ d ∧ RelaysSurvive relays := naddr_reads_back_iff hkind hpubkey hd relays
  rw [hpointer, hnaddr]
  exact ⟨and_iff_right_of_imp fun h => h.1, Iff.rfl⟩

end

/-! ### Samples -/

def samplePubkey : JsString := List.replicate 64 97

/-- The relay `wss://r.io`. -/
def sampleRelay : JsString := units ['w', 's', 's', ':', '/', '/', 'r', '.', 'i', 'o']

theorem address_strings_read_back_sample :
    PointerReadsBack (fun _ => none) 30023 samplePubkey [120] ∧
      NaddrReadsBack (fun _ => none) 30023 samplePubkey [120] [sampleRelay] := by
  refine (address_strings_read_back (fun _ => none) 30023 samplePubkey [120] [sampleRelay]
    (by decide) (by decide) (by decide)).1.mpr ⟨by decide, by decide, by decide, ?_⟩
  intro r hr
  rw [List.mem_singleton.mp hr]
  decide

/-- An identifier with a colon is not read back, nor is a relay with an escape. -/
theorem colon_and_percent_lost :
    ¬ PointerReadsBack (fun _ => none) 30023 samplePubkey (units ['a', ':', 'b']) ∧
      ¬ NaddrReadsBack (fun _ => none) 30023 samplePubkey [120]
        [sampleRelay ++ units ['/', '%', '2', '0']] := by
  constructor
  · intro h
    exact (pointer_reads_back_iff (by decide) (by decide) (by decide)).mp h (by decide)
  · intro h
    have hsurvive := ((naddr_reads_back_iff (by decide) (by decide) (by decide) _).mp h).2.2
    exact (hsurvive.2 _ mem_cons_self).2.2 (by decide)

end Nipworker.AddressStrings
