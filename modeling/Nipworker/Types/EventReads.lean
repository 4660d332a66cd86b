/-
What the field readers make of JSON text (`types/nostr.rs`, `utils/mod.rs`).

Each reader of `Event::from_json` gets the text after a quoted key.  When that is
the rest of a member, in any layout, what it returns is known piece by piece, and
so is when it is the value that is written there.
-/
import Nipworker.Lib.JsonSearch
import Nipworker.Types.Nostr

namespace Nipworker

open JsonText List

def zeroId : Bytes32 := ⟨List.replicate 32 0, length_zeros⟩

def idLiteral (id : Bytes32) : List Piece := plainLiteral (id.bytes.flatMap Hex.digits)

theorem digits_needNoEscape : ∀ n < 16, needsNoEscape (Nat.digitChar n) = true := by
  decide

theorem wf_idLiteral (id : Bytes32) : ∀ p ∈ idLiteral id, p.Wf := by
  refine wf_plainLiteral (List.all_eq_true.mpr fun c hc => ?_)
  obtain ⟨byte, -, hdigit⟩ := List.mem_flatMap.mp hc
  have hlt : byte.toNat < 256 := byte.toNat_lt
  rw [Hex.digits, mem_pair] at hdigit
  rcases hdigit with rfl | rfl
  · exact digits_needNoEscape _ (by omega)
  · exact digits_needNoEscape _ (by omega)

theorem decodeChars_idLiteral (id : Bytes32) :
    Hex.decodeChars (literalValue (idLiteral id)) = some id.bytes := by
  rw [idLiteral, literalValue_plainLiteral]
  have := Hex.decode_encode id.bytes
  rwa [Hex.decode, Hex.encode, String.toList_ofList] at this

namespace SignedEvent

theorem afterKey_of_first {key : String} {json tail : List Char} (missing : String)
    (h : Text.afterFirst key.toList json = some tail) : afterKey key json missing = .ok tail := by
  rw [afterKey, h]

/-! ### `id`, `pubkey`, `sig` -/

variable {gap following : List Char} {lit : List Piece}

theorem quotedAfter_literal (hgap : '"' ∉ gap)
    (hlit : ∀ p ∈ lit, p.Closed) (following : List Char) (invalid missing : String) :
    ∃ raw, quotedAfter (gap ++ '"' :: (literalText lit ++ '"' :: following)) invalid missing =
        .ok (String.ofList raw) ∧
      (raw = literalText lit ∨ ∃ a b, raw = a ++ ['\\'] ∧ '"' ∉ raw ∧
        literalText lit = a ++ '\\' :: '"' :: b) := by
  have hopen : Text.splitOnce '"' (gap ++ '"' :: (literalText lit ++ '"' :: following)) =
      some (gap, literalText lit ++ '"' :: following) := Text.splitOnce_eq_some.mpr ⟨rfl, hgap⟩
  obtain hno | ⟨a, b, hab, ha⟩ := literalText_quote hlit
  · have hclose : Text.splitOnce '"' (literalText lit ++ '"' :: following) =
        some (literalText lit, following) := Text.splitOnce_eq_some.mpr ⟨rfl, hno⟩
    simp only [quotedAfter, hopen, hclose]
    exact ⟨_, rfl, .inl rfl⟩
  · have hnot : '"' ∉ a ++ ['\\'] := by
      intro h
      obtain h | h := List.mem_append.mp h
      · exact ha h
      · exact absurd h (by decide)
    have hclose : Text.splitOnce '"' (literalText lit ++ '"' :: following) =
        some (a ++ ['\\'], b ++ '"' :: following) :=
      Text.splitOnce_eq_some.mpr ⟨by rw [hab]; simp, hnot⟩
    simp only [quotedAfter, hopen, hclose]
    exact ⟨_, rfl, .inr ⟨a, b, rfl, hnot, hab⟩⟩

theorem escaped_quote (hlit : ∀ p ∈ lit, p.Closed)
    (h : '"' ∈ literalText lit) : '"' ∈ literalValue lit ∧ ¬ Plain lit := by
  obtain ⟨p, hp, hmem⟩ := List.mem_flatMap.mp h
  obtain rfl := quote_of_mem (hlit p hp) hmem
  exact ⟨List.mem_map.mpr ⟨_, hp, rfl⟩, fun hplain => absurd (hplain _ hp) Bool.false_ne_true⟩

/-- **Quoted text** is read as the string it denotes only without an escape. -/
theorem quotedAfter_iff (hgap : '"' ∉ gap)
    (hlit : ∀ p ∈ lit, p.Closed) (following : List Char) (invalid missing : String) :
    quotedAfter (gap ++ '"' :: (literalText lit ++ '"' :: following)) invalid missing =
      .ok (String.ofList (literalValue lit)) ↔ Plain lit := by
  obtain ⟨raw, hread, hraw⟩ := quotedAfter_literal hgap hlit following invalid missing
  rw [hread, Except.ok.injEq, String.ofList_inj]
  obtain rfl | ⟨a, b, ha, hnot, hab⟩ := hraw
  · exact literalText_eq_value_iff lit
  · -- cut at an escaped quote, which the value still has
    have hmem : '"' ∈ literalText lit := by rw [hab]; simp
    obtain ⟨hvalue, hescaped⟩ := escaped_quote hlit hmem
    exact iff_of_false (fun h => hnot (h ▸ hvalue)) hescaped

/-- `id` and `pubkey` are read only without an escape. -/
theorem hexAfter_iff (hgap : '"' ∉ gap)
    (hlit : ∀ p ∈ lit, p.Closed) (following : List Char) (invalid missing message : String)
    {id : Bytes32} (hid : Hex.decodeChars (literalValue lit) = some id.bytes) :
    (quotedAfter (gap ++ '"' :: (literalText lit ++ '"' :: following)) invalid missing >>=
      Bytes32.fromHex message) = .ok id ↔ Plain lit := by
  obtain ⟨raw, hread, hraw⟩ := quotedAfter_literal hgap hlit following invalid missing
  have hbind : (quotedAfter (gap ++ '"' :: (literalText lit ++ '"' :: following)) invalid missing >>=
      Bytes32.fromHex message) = Bytes32.fromHex message (String.ofList raw) := by
    rw [hread]
    rfl
  rw [hbind, fromHex_eq_ok_iff, Hex.decode, String.toList_ofList]
  constructor
  · intro h
    by_contra hescaped
    -- the text has a backslash, and so has what is cut out of it
    have hback : '\\' ∈ raw := by
      obtain rfl | ⟨a, b, rfl, -, -⟩ := hraw
      · exact backslash_mem_of_not_plain hescaped
      · simp
    have hno : Hex.digitValue '\\' = none := by decide
    obtain ⟨n, hn⟩ := Hex.digitValue_of_mem h _ hback
    rw [hno] at hn
    contradiction
  · intro hplain
    obtain rfl | ⟨a, b, rfl, -, hab⟩ := hraw
    · rw [literalText_of_plain hplain]
      exact hid
    · exact absurd hplain (escaped_quote hlit (by rw [hab]; simp)).2

/-! ### `created_at`, `kind` -/

theorem isKeySeparator_of_isWs {c : Char} (h : isWs c = true) :
    isKeySeparator c = true ↔ c = ' ' ∨ c = '\t' := by
  simp only [isWs, decide_eq_true_eq] at h
  obtain rfl | rfl | rfl | rfl := h
  all_goals decide

theorem isDigit_of_isWs {c : Char} (h : isWs c = true) : c.isDigit = false := by
  simp only [isWs, decide_eq_true_eq] at h
  obtain rfl | rfl | rfl | rfl := h
  all_goals decide

theorem no_digits_after_break
    (hgap : ∀ c ∈ gap, isWs c = true ∨ c = ':') (hbreak : ∃ c ∈ gap, isKeySeparator c = false)
    (cs : List Char) : ((gap ++ cs).dropWhile isKeySeparator).takeWhile Char.isDigit = [] := by
  induction gap with
  | nil =>
    obtain ⟨c, hc, -⟩ := hbreak
    exact absurd hc not_mem_nil
  | cons c gap ih =>
    by_cases hsep : isKeySeparator c = true
    · rw [cons_append, dropWhile_cons_of_pos hsep]
      refine ih (fun d hd => hgap d (mem_cons_of_mem _ hd)) ?_
      obtain ⟨d, hd, hno⟩ := hbreak
      obtain rfl | hd := List.mem_cons.mp hd
      · rw [hsep] at hno
        exact absurd hno.symm Bool.false_ne_true
      · exact ⟨d, hd, hno⟩
    · -- the line break itself stops the search
      have hws : isWs c = true := (hgap c mem_cons_self).resolve_right fun h =>
        hsep (by rw [h]; decide)
      rw [cons_append, dropWhile_cons_of_neg hsep,
        takeWhile_cons_of_neg (by rw [isDigit_of_isWs hws]; decide)]

theorem isKeySeparator_of_isDigit {c : Char} (h : c.isDigit = true) :
    isKeySeparator c = false := by
  by_contra hsep
  simp only [isKeySeparator, Bool.not_eq_false, decide_eq_true_eq] at hsep
  obtain rfl | rfl | rfl := hsep
  all_goals exact absurd h (by decide)

theorem takeWhile_number {n : NumberLit} (hn : n.Wf) (hsign : n.minus = false)
    (hfollowing : EndsWord following) : (n.text ++ following).takeWhile Char.isDigit = n.int := by
  have hhead : ∀ c ∈ (n.fracText ++ (n.expText ++ following)).head?, c.isDigit = false := by
    intro c hc
    unfold NumberLit.fracText NumberLit.expText at hc
    split_ifs at hc with hfrac
    · match hexp : n.exp with
      | none =>
        rw [hexp] at hc
        have hword := hfollowing c hc
        simp only [isWordChar, Char.isAlphanum, decide_eq_false_iff_not, Bool.or_eq_true,
          not_or] at hword
        simpa using hword.1.2
      | some (letter, sign, digits) =>
        rw [hexp] at hc
        obtain rfl : letter = c := by simpa using hc
        obtain ⟨hletter, -⟩ := hn.exp_letter _ (by rw [hexp]; rfl)
        obtain h | h := hletter
        all_goals
          simp only at h
          rw [h]
          decide
    · obtain rfl : '.' = c := by simpa using hc
      decide
  have htext : n.text ++ following = n.int ++ (n.fracText ++ (n.expText ++ following)) := by
    simp [NumberLit.text, hsign]
  rw [htext, takeWhile_append_of_pos hn.int_digits]
  match hmatch : n.fracText ++ (n.expText ++ following) with
  | [] => simp
  | c :: cs =>
    rw [hmatch] at hhead
    rw [takeWhile_cons_of_neg (by rw [hhead c rfl]; decide), append_nil]

/-- **A number** is read as the number it denotes only with nothing but spaces
and tabs before it, without a sign, and when its digits before the point are its
value. -/
theorem numberAfter_iff {afterKey beforeValue : List Char} (hafter : Blank afterKey)
    (hbefore : Blank beforeValue) {n : NumberLit} (hn : n.Wf) (hfollowing : EndsWord following)
    {v bound : ℕ} (hv : v < bound) (invalid : String) :
    numberAfter (afterKey ++ ':' :: (beforeValue ++ (n.text ++ following))) bound invalid = .ok v ↔
      (∀ c ∈ afterKey ++ beforeValue, c = ' ' ∨ c = '\t') ∧ n.minus = false ∧ n.intValue = v := by
  have htail : afterKey ++ ':' :: (beforeValue ++ (n.text ++ following)) =
      (afterKey ++ ':' :: beforeValue) ++ (n.text ++ following) := by simp
  have hgap : ∀ c ∈ afterKey ++ ':' :: beforeValue, isWs c = true ∨ c = ':' := by
    intro c hc
    obtain hc | hc := List.mem_append.mp hc
    · exact .inl (hafter c hc)
    · obtain rfl | hc := List.mem_cons.mp hc
      · exact .inr rfl
      · exact .inl (hbefore c hc)
  rw [htail]
  by_cases hblank : ∀ c ∈ afterKey ++ beforeValue, c = ' ' ∨ c = '\t'
  · -- the search stands before the number
    have hsep : ∀ c ∈ afterKey ++ ':' :: beforeValue, isKeySeparator c = true := by
      intro c hc
      obtain hws | rfl := hgap c hc
      · refine (isKeySeparator_of_isWs hws).mpr (hblank c ?_)
        obtain hc | hc := List.mem_append.mp hc
        · exact mem_append_left _ hc
        · obtain rfl | hc := List.mem_cons.mp hc
          · exact absurd hws (by decide)
          · exact mem_append_right _ hc
      · decide
    rw [and_iff_right hblank, numberAfter, dropWhile_append_of_pos hsep]
    by_cases hsign : n.minus = true
    · have hstop : ((n.text ++ following).dropWhile isKeySeparator).takeWhile Char.isDigit = [] := by
        have htext : n.text ++ following =
            '-' :: (n.int ++ (n.fracText ++ (n.expText ++ following))) := by
          simp [NumberLit.text, hsign]
        rw [htext, dropWhile_cons_of_neg (by decide), takeWhile_cons_of_neg (by decide)]
      rw [hstop]
      refine iff_of_false (fun h => ?_) fun h => by simp [hsign] at h
      contradiction
    · have hsign0 : n.minus = false := by simpa using hsign
      have hfirst : (n.text ++ following).dropWhile isKeySeparator = n.text ++ following := by
        obtain ⟨c, cs, hint⟩ := exists_cons_of_ne_nil hn.int_ne
        have hc := hn.int_digits c (by rw [hint]; exact mem_cons_self)
        have htext : n.text ++ following =
            c :: (cs ++ (n.fracText ++ (n.expText ++ following))) := by
          simp [NumberLit.text, hsign0, hint]
        rw [htext, dropWhile_cons_of_neg (by rw [isKeySeparator_of_isDigit hc]; decide)]
      have hparse : Text.parseDecimal n.int = some n.intValue := by
        rw [Text.parseDecimal, if_pos ⟨hn.int_ne, List.all_eq_true.mpr hn.int_digits⟩]
        rfl
      rw [hfirst, takeWhile_number hn hsign0 hfollowing, hparse, and_iff_right hsign0]
      dsimp only
      by_cases hbound : n.intValue < bound
      · rw [if_pos hbound, Except.ok.injEq]
      · rw [if_neg hbound]
        refine iff_of_false (fun h => ?_) fun h => hbound (h ▸ hv)
        contradiction
  · have hbreak : ∃ c ∈ afterKey ++ ':' :: beforeValue, isKeySeparator c = false := by
      simp only [not_forall] at hblank
      obtain ⟨c, hc, hno⟩ := hblank
      have hws : isWs c = true := (List.mem_append.mp hc).elim (hafter c) (hbefore c)
      refine ⟨c, ?_, by simpa using fun h => hno ((isKeySeparator_of_isWs hws).mp h)⟩
      obtain hc | hc := List.mem_append.mp hc
      · exact mem_append_left _ hc
      · exact mem_append_right _ (mem_cons_of_mem _ hc)
    rw [numberAfter, no_digits_after_break hgap hbreak]
    refine iff_of_false (fun h => ?_) fun h => hblank h.1
    contradiction

/-! ### `content` -/

/-- What the reader of `content` makes of an escape: any letter but those of the
three control characters stands for itself. -/
def contentLetter (c : Char) : Char :=
  if c = 'n' then '\n' else if c = 'r' then '\r' else if c = 't' then '\t' else c

/-- What the reader of `content` makes of a piece. -/
def contentRead : Piece → List Char
  | .plain c => [c]
  | .short e => [contentLetter e.letter]
  | .unicode _ hex => 'u' :: hex
  | .surrogates _ high low => 'u' :: (high ++ 'u' :: low)

theorem unescapeContent_plain {c : Char} (h1 : c ≠ '"') (h2 : c ≠ '\\') {cs : List Char}
    (hcs : cs ≠ []) : unescapeContent (c :: cs) = c :: unescapeContent cs := by
  obtain ⟨d, cs, rfl⟩ := exists_cons_of_ne_nil hcs
  rw [unescapeContent, if_neg h2, if_neg h1]

theorem unescapeContent_plains {part : List Char} (hpart : ∀ c ∈ part, c ≠ '"' ∧ c ≠ '\\')
    {cs : List Char} (hcs : cs ≠ []) :
    unescapeContent (part ++ cs) = part ++ unescapeContent cs := by
  induction part with
  | nil => rfl
  | cons c part ih =>
    obtain ⟨h1, h2⟩ := hpart c mem_cons_self
    rw [cons_append, unescapeContent_plain h1 h2 (by simp [hcs]),
      ih fun d hd => hpart d (mem_cons_of_mem _ hd)]
    rfl

theorem unescapeContent_escape (c : Char) (cs : List Char) :
    unescapeContent ('\\' :: c :: cs) = contentLetter c :: unescapeContent cs := by
  rw [unescapeContent, if_pos rfl]
  rfl

theorem unescapeContent_piece {p : Piece} (hp : p.Closed) {cs : List Char} (hcs : cs ≠ []) :
    unescapeContent (p.text ++ cs) = contentRead p ++ unescapeContent cs := by
  cases p with
  | plain c => exact unescapeContent_plain hp.1 hp.2 hcs
  | short e => exact unescapeContent_escape _ cs
  | unicode c hex =>
    obtain ⟨n, hn⟩ := hp
    show unescapeContent ('\\' :: 'u' :: (hex ++ cs)) = _
    rw [unescapeContent_escape, unescapeContent_plains (mem_hex4_ne hn) hcs]
    rfl
  | surrogates c high low =>
    obtain ⟨⟨n, hn⟩, ⟨m, hm⟩⟩ := hp
    have htext : (Piece.surrogates c high low).text ++ cs =
        '\\' :: 'u' :: (high ++ '\\' :: 'u' :: (low ++ cs)) := by simp [Piece.text]
    rw [htext, unescapeContent_escape, unescapeContent_plains (mem_hex4_ne hn) (by simp),
      unescapeContent_escape, unescapeContent_plains (mem_hex4_ne hm) hcs]
    simp [contentRead, contentLetter]

theorem unescapeContent_literal (hlit : ∀ p ∈ lit, p.Closed) (rest : List Char) :
    unescapeContent (literalText lit ++ '"' :: rest) = lit.flatMap contentRead := by
  induction lit with
  | nil =>
    cases rest with
    | nil => rfl
    | cons d rest => rfl
  | cons p lit ih =>
    rw [literalText_cons, append_assoc,
      unescapeContent_piece (hlit p mem_cons_self) (by simp),
      ih fun q hq => hlit q (mem_cons_of_mem _ hq)]
    rfl

/-- The reader of `content` knows the piece. -/
def KnownInContent : Piece → Prop
  | .plain _ => True
  | .short e => e ≠ .backspace ∧ e ≠ .formFeed
  | .unicode _ _ | .surrogates _ _ _ => False

theorem contentRead_eq_iff {p : Piece} (hp : p.Closed) :
    contentRead p = [p.char] ↔ KnownInContent p := by
  cases p with
  | plain c => exact iff_of_true rfl trivial
  | short e => cases e <;> simp [contentRead, contentLetter, KnownInContent, Piece.char,
      ShortEscape.letter, ShortEscape.char]
  | unicode c hex =>
    obtain ⟨n, hn⟩ := hp
    refine iff_of_false (fun h => ?_) fun h => h
    have hlen := congrArg List.length h
    simp [contentRead, hex4_length hn] at hlen
  | surrogates c high low => exact iff_of_false (by simp [contentRead]) fun h => h

/-- **The content** is read as the string it denotes only without `\u`, `\b` and
`\f`. -/
theorem contentRead_iff (hlit : ∀ p ∈ lit, p.Closed) :
    lit.flatMap contentRead = literalValue lit ↔ ∀ p ∈ lit, KnownInContent p := by
  have hne : ∀ p ∈ lit, contentRead p ≠ [] := by
    intro p _
    cases p <;> simp [contentRead]
  rw [literalValue, flatMap_eq_map_iff hne]
  exact forall₂_congr fun p hp => contentRead_eq_iff (hlit p hp)

theorem readContent_eq {json : List Char} (hlit : ∀ p ∈ lit, p.Closed) (hgap : '"' ∉ gap)
    (hkey : Text.afterFirst "\"content\"".toList json =
      some (gap ++ '"' :: (literalText lit ++ '"' :: following))) :
    readContent json = .ok (String.ofList (lit.flatMap contentRead)) := by
  have hopen : Text.splitOnce '"' (gap ++ '"' :: (literalText lit ++ '"' :: following)) =
      some (gap, literalText lit ++ '"' :: following) := Text.splitOnce_eq_some.mpr ⟨rfl, hgap⟩
  rw [readContent, afterKey_of_first _ hkey]
  simp only [bind, Except.bind]
  rw [hopen]
  dsimp only
  rw [unescapeContent_literal hlit]

/-! ### All fields -/

/-- The event, from what is read behind its keys. -/
theorem readFields_iff {json tid tpk tca tk tsig : List Char} {tags : List (List String)}
    {content : String} (hid : Text.afterFirst "\"id\"".toList json = some tid)
    (hpk : Text.afterFirst "\"pubkey\"".toList json = some tpk)
    (hca : Text.afterFirst "\"created_at\"".toList json = some tca)
    (hk : Text.afterFirst "\"kind\"".toList json = some tk) (htags : readTags json = .ok tags)
    (hcontent : readContent json = .ok content)
    (hsig : Text.afterFirst "\"sig\"".toList json = some tsig) (event : SignedEvent) :
    readFields json = .ok event ↔
      (quotedAfter tid "Invalid id format" "Missing id value" >>=
          Bytes32.fromHex "Invalid event ID") = .ok event.id ∧
        (quotedAfter tpk "Invalid pubkey format" "Missing pubkey value" >>=
          Bytes32.fromHex "Invalid pubkey") = .ok event.pubkey ∧
        numberAfter tca (2 ^ 64) "Invalid created_at" = .ok event.createdAt ∧
        numberAfter tk (2 ^ 32) "Invalid kind" = .ok event.kind.toNat ∧
        tags = event.tags ∧ content = event.content ∧
        quotedAfter tsig "Invalid sig format" "Missing sig value" = .ok event.sig := by
  have hread : readFields json = (do
      let id ← quotedAfter tid "Invalid id format" "Missing id value" >>=
        Bytes32.fromHex "Invalid event ID"
      let pubkey ← quotedAfter tpk "Invalid pubkey format" "Missing pubkey value" >>=
        Bytes32.fromHex "Invalid pubkey"
      let createdAt ← numberAfter tca (2 ^ 64) "Invalid created_at"
      let kind ← numberAfter tk (2 ^ 32) "Invalid kind"
      let sig ← quotedAfter tsig "Invalid sig format" "Missing sig value"
      if 0xFFFF < kind then .error (.invalidFormat "Kind out of range")
      else
        .ok { id := id, pubkey := pubkey, createdAt := createdAt, kind := UInt16.ofNat kind
              tags := tags, content := content, sig := sig }) := by
    rw [readFields, afterKey_of_first _ hid, afterKey_of_first _ hpk, afterKey_of_first _ hca,
      afterKey_of_first _ hk, htags, hcontent, readSig, hsig]
    simp only [bind_assoc]
    rfl
  rw [hread]
  -- one field after the other is an error or a value
  match quotedAfter tid "Invalid id format" "Missing id value" >>=
      Bytes32.fromHex "Invalid event ID" with
  | .error e => exact iff_of_false nofun fun h => nomatch h.1
  | .ok id =>
  match quotedAfter tpk "Invalid pubkey format" "Missing pubkey value" >>=
      Bytes32.fromHex "Invalid pubkey" with
  | .error e => exact iff_of_false nofun fun h => nomatch h.2.1
  | .ok pubkey =>
  match numberAfter tca (2 ^ 64) "Invalid created_at" with
  | .error e => exact iff_of_false nofun fun h => nomatch h.2.2.1
  | .ok createdAt =>
  match numberAfter tk (2 ^ 32) "Invalid kind" with
  | .error e => exact iff_of_false nofun fun h => nomatch h.2.2.2.1
  | .ok kind =>
  match quotedAfter tsig "Invalid sig format" "Missing sig value" with
  | .error e => exact iff_of_false nofun fun h => nomatch h.2.2.2.2.2.2
  | .ok sig =>
    show (if 0xFFFF < kind then _ else _) = _ ↔ _
    simp only [Except.ok.injEq]
    have hkind16 := event.kind.toNat_lt
    by_cases hbig : 0xFFFF < kind
    · rw [if_pos hbig]
      exact iff_of_false nofun fun h => by omega
    · rw [if_neg hbig, Except.ok.injEq]
      constructor
      · rintro rfl
        refine ⟨rfl, rfl, rfl, ?_, rfl, rfl, rfl⟩
        show kind = (UInt16.ofNat kind).toNat
        rw [UInt16.toNat_ofNat']
        omega
      · rintro ⟨rfl, rfl, rfl, rfl, rfl, rfl, rfl⟩
        rw [UInt16.ofNat_toNat]

end SignedEvent

end Nipworker
