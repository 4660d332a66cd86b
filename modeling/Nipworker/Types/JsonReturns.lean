/-
Which texts the JSON parsers come back from (`types/nostr.rs`, `types/proof.rs`).

Every loop tests the position before it skips whitespace, and then looks at the
byte it stands on.  A text that ends in whitespace inside an array or an object is
read past its end, and so is one that ends where the value of an unknown key is
due.  A record inside another is parsed from its own raw text, and stops the
program where that text alone would.
-/
import Nipworker.Parser.JsonOutcomes
import Nipworker.Parser.JsonSlices

namespace Nipworker

open BaseJsonParser Utf8 List

/-! ### Records -/

/-- A parser of whole texts panics exactly on certain ones, and comes back. -/
structure StopsAt {α : Type} (parse : List Char → ParserResult α) (runsOut : List Char → Prop) :
    Prop where
  panics : ∀ json, parse json = .error .panic ↔ runsOut json
  hangs : ∀ json, parse json ≠ .error .hang

theorem StopsAt.returns_iff {α : Type} {parse : List Char → ParserResult α}
    {runsOut : List Char → Prop} (h : StopsAt parse runsOut) (json : List Char) :
    Returns (parse json) ↔ ¬ runsOut json := by
  rw [Returns, ← h.panics json]
  exact and_iff_left (h.hangs json)

section Records

variable {α β σ : Type}

theorem Outcome.ite {p : Prop} [Decidable p] {read read' : List Char → ParserResult (α × List Char)}
    {out out' : List Char → Prop} (h : Outcome read out) (h' : Outcome read' out') :
    Outcome (fun cs => if p then read cs else read' cs) fun cs => if p then out cs else out' cs := by
  by_cases hp : p
  · simpa only [if_pos hp] using h
  · simpa only [if_neg hp] using h'

theorem Outcome.done (a : α) : Outcome (fun rest => .ok (a, rest)) fun _ => False := by
  refine .of_error (fun cs stop h => ?_) fun cs b rest h => ?_
  · contradiction
  · rw [← (Prod.mk.inj (Except.ok.inj h)).2]

theorem Outcome.behind {size : ℕ} (expected : Char) {read : List Char → ParserResult (α × List Char)}
    (h : Outcome read fun _ => False) :
    Outcome (fun cs => expect size expected cs >>= read) fun _ => False := by
  refine ⟨fun cs => iff_of_false (fun hpanic => ?_) id, fun cs hhang => ?_, fun cs a rest hok => ?_⟩
  · rcases Result.bind_eq_error.mp hpanic with hexpect | ⟨rest, -, hread⟩
    · obtain ⟨e, he⟩ := expect_error hexpect
      contradiction
    · exact (h.panics rest).mp hread
  · rcases Result.bind_eq_error.mp hhang with hexpect | ⟨rest, -, hread⟩
    · obtain ⟨e, he⟩ := expect_error hexpect
      contradiction
    · exact h.hangs rest hread
  · obtain ⟨inner, hexpect, hread⟩ := Result.bind_eq_ok.mp hok
    have hlen := h.shorter inner a rest hread
    rw [expect_eq_ok.mp hexpect, length_cons]
    omega

/-- The raw text of a value is one the parser of the value runs out of. -/
def RawOut (runsOut : List Char → Prop) (cs : List Char) : Prop :=
  ∃ raw rest, parseRawJsonValue cs = .ok (raw, rest) ∧ runsOut raw

theorem Outcome.nested {parse : List Char → ParserResult α} {runsOut : List Char → Prop}
    (h : StopsAt parse runsOut) (f : α → β) :
    Outcome (fun cs => parseRawJsonValue cs >>= fun p => parse p.1 >>= fun a => .ok (f a, p.2))
      (RawOut runsOut) := by
  refine ⟨fun cs => ?_, fun cs hhang => ?_, fun cs b rest hok => ?_⟩
  · rw [Result.bind_eq_error]
    constructor
    · rintro (hraw | ⟨⟨raw, rest⟩, hraw, hparse⟩)
      · exact absurd hraw ((outcome_parseRawJsonValue.panics cs).not.mpr id)
      · rcases Result.bind_eq_error.mp hparse with hparse | ⟨a, -, hdone⟩
        · exact ⟨raw, rest, hraw, (h.panics raw).mp hparse⟩
        · contradiction
    · rintro ⟨raw, rest, hraw, hout⟩
      refine .inr ⟨(raw, rest), hraw, Result.bind_eq_error.mpr (.inl ?_)⟩
      exact (h.panics raw).mpr hout
  · rcases Result.bind_eq_error.mp hhang with hraw | ⟨p, -, hparse⟩
    · exact outcome_parseRawJsonValue.hangs cs hraw
    · rcases Result.bind_eq_error.mp hparse with hparse | ⟨a, -, hdone⟩
      · exact h.hangs p.1 hparse
      · contradiction
  · obtain ⟨⟨raw, rest'⟩, hraw, hok⟩ := Result.bind_eq_ok.mp hok
    obtain ⟨a, -, hdone⟩ := Result.bind_eq_ok.mp hok
    rw [← (Prod.mk.inj (Except.ok.inj hdone)).2]
    exact outcome_parseRawJsonValue.shorter cs raw rest' hraw

def RecordOut (field : ℕ → List Char → σ → List Char → ParserResult (σ × List Char))
    (out : ℕ → List Char → List Char → Prop) (st : σ) (json : List Char) : Prop :=
  let text := unescapeIfNeeded json
  ObjectOut (byteLength text) (field (byteLength text)) (out (byteLength text)) st (skipWs text)

theorem missing_error {p : Prop} [Decidable p] {message : String} {a : α}
    {stop : ReadStop ParserError}
    (h : (if p then .error (invalidFormat message) else .ok a : ParserResult α) = .error stop) :
    ∃ e, stop = .error e := by
  by_cases hp : p
  · rw [if_pos hp] at h
    exact ⟨_, (Except.error.inj h).symm⟩
  · rw [if_neg hp] at h
    contradiction

/-- **Records**: an object, and then the check for what is missing. -/
theorem StopsAt.record {field : ℕ → List Char → σ → List Char → ParserResult (σ × List Char)}
    {out : ℕ → List Char → List Char → Prop}
    (h : ∀ size key st, Outcome (field size key st) (out size key)) (st : σ)
    (missing : σ → Prop) [DecidablePred missing] (message : String) :
    StopsAt (fun json =>
        object (byteLength (unescapeIfNeeded json)) (field (byteLength (unescapeIfNeeded json))) st
          (skipWs (unescapeIfNeeded json)) >>= fun p =>
            if missing p.1 then .error (invalidFormat message) else .ok p.1)
      (RecordOut field out st) := by
  have hobject : ∀ size, Outcome (object size (field size) st)
      (ObjectOut size (field size) (out size) st) := fun size => .object (h size) st
  refine ⟨fun json => ?_, fun json hhang => ?_⟩
  · rw [Result.bind_eq_error, RecordOut, ← (hobject _).panics]
    refine or_iff_left ?_
    rintro ⟨p, -, hlast⟩
    obtain ⟨e, he⟩ := missing_error hlast
    contradiction
  · rcases Result.bind_eq_error.mp hhang with hread | ⟨p, -, hlast⟩
    · exact (hobject _).hangs _ hread
    · obtain ⟨e, he⟩ := missing_error hlast
      contradiction

end Records

/-! ### Proofs -/

/-- What is read past the end where a value of a `DleqProof` is due. -/
def DleqProof.FieldOut (key cs : List Char) : Prop :=
  if key = "e".toList then False
  else if key = "s".toList then False
  else if key = "r".toList then False
  else cs = []

variable (size : ℕ)

theorem DleqProof.outcome_field (key : List Char) (st : DleqProof) :
    Outcome (DleqProof.field size key st) (DleqProof.FieldOut key) :=
  .ite ((outcome_stringUnescaped size).map fun s => { st with e := s })
    (.ite ((outcome_stringUnescaped size).map fun s => { st with s := s })
      (.ite ((outcome_stringUnescaped size).map fun s => { st with r := some s })
        (outcome_skipValue size st)))

/-- The texts `DleqProof::from_json` reads past the end of. -/
def DleqProof.RunsOut (json : List Char) : Prop :=
  RecordOut DleqProof.field (fun _ => DleqProof.FieldOut) ⟨"", "", none⟩ json

theorem DleqProof.stopsAt : StopsAt DleqProof.fromJson DleqProof.RunsOut :=
  .record DleqProof.outcome_field ⟨"", "", none⟩ (fun d => d.e = "" ∨ d.s = "") _

/-- What is read past the end where a value of a witness is due: `signatures` are
looked at before they are read. -/
def ProofWitness.FieldOut (size : ℕ) (key cs : List Char) : Prop :=
  if key = "preimage".toList then False
  else if key = "signatures".toList then
    cs = [] ∨ ArrayOut (stringUnescaped size) (fun _ => False) cs
  else cs = []

theorem outcome_strings : Outcome (array size (stringUnescaped size))
    (ArrayOut (stringUnescaped size) fun _ => False) :=
  (outcome_stringUnescaped size).array (fun _ _ _ => stringUnescaped_lt) size

theorem ProofWitness.outcome_null :
    Outcome (fun cs => expect size 'n' cs >>= fun rest => expect size 'u' rest >>= fun rest =>
      expect size 'l' rest >>= fun rest => expect size 'l' rest >>= fun rest =>
        (.ok (none, rest) : ParserResult (Option (List String) × List Char))) fun _ => False :=
  .behind 'n' (.behind 'u' (.behind 'l' (.behind 'l' (.done none))))

theorem ProofWitness.outcome_signatures : Outcome (ProofWitness.signatures size)
    fun cs => cs = [] ∨ ArrayOut (stringUnescaped size) (fun _ => False) cs := by
  have hnull := ProofWitness.outcome_null size
  have hstrings := (outcome_strings size).map some
  refine ⟨fun cs => ?_, fun cs hhang => ?_, fun cs a rest hok => ?_⟩
  · cases cs with
    | nil => exact iff_of_true rfl (.inl rfl)
    | cons c rest =>
      rw [ProofWitness.signatures]
      by_cases hc : c = 'n'
      · rw [if_pos hc]
        refine iff_of_false ((hnull.panics (c :: rest)).not.mpr id) ?_
        rintro (hnil | ⟨rest', hopen, -⟩)
        · contradiction
        · rw [(List.cons.inj hopen).1] at hc
          contradiction
      · rw [if_neg hc, or_iff_right (cons_ne_nil c rest)]
        exact hstrings.panics (c :: rest)
  · rw [ProofWitness.signatures.eq_def] at hhang
    cases cs with
    | nil => cases Except.error.inj hhang
    | cons c rest =>
      dsimp only at hhang
      by_cases hc : c = 'n'
      · rw [if_pos hc] at hhang
        exact hnull.hangs (c :: rest) hhang
      · rw [if_neg hc] at hhang
        exact hstrings.hangs (c :: rest) hhang
  · cases cs with
    | nil => contradiction
    | cons c rest' =>
      rw [ProofWitness.signatures] at hok
      by_cases hc : c = 'n'
      · rw [if_pos hc] at hok
        exact hnull.shorter (c :: rest') a rest hok
      · rw [if_neg hc] at hok
        exact hstrings.shorter (c :: rest') a rest hok

theorem ProofWitness.outcome_field (key : List Char) (st : Option String × Option (List String)) :
    Outcome (ProofWitness.field size key st) (ProofWitness.FieldOut size key) :=
  .ite ((outcome_stringUnescaped size).map fun s => (some s, st.2))
    (.ite ((ProofWitness.outcome_signatures size).map fun s => (st.1, s))
      (outcome_skipValue size st))

/-- The texts `Witness::from_json` reads past the end of. -/
def ProofWitness.RunsOut (text : List Char) : Prop :=
  skipWs text = [] ∨
    ObjectOut (byteLength text) (ProofWitness.field (byteLength text))
      (ProofWitness.FieldOut (byteLength text)) (none, none) (skipWs text)

theorem ProofWitness.stopsAt : StopsAt ProofWitness.fromJson ProofWitness.RunsOut := by
  have hobject : ∀ size, Outcome (object size (ProofWitness.field size) (none, none))
      (ObjectOut size (ProofWitness.field size) (ProofWitness.FieldOut size) (none, none)) :=
    fun size => .object (ProofWitness.outcome_field size) (none, none)
  refine ⟨fun text => ?_, fun text hhang => ?_⟩
  · rw [ProofWitness.fromJson, ProofWitness.RunsOut]
    cases hskip : skipWs text with
    | nil => exact iff_of_true rfl (.inl rfl)
    | cons c rest =>
      dsimp only
      rw [or_iff_right (cons_ne_nil c rest)]
      by_cases hquote : c = '"'
      · rw [if_pos hquote]
        refine iff_of_false ?_ ?_
        · exact ((outcome_stringUnescaped _).panics _).not.mpr id ∘ Result.map_eq_error.mp
        · rintro ⟨rest', hopen, -⟩
          rw [(List.cons.inj hopen).1] at hquote
          contradiction
      rw [if_neg hquote]
      by_cases hbrace : c = '{'
      · rw [if_pos hbrace, Result.bind_eq_error, ← (hobject _).panics]
        refine or_iff_left ?_
        -- the last step picks the kind of witness, and stops nowhere
        rintro ⟨⟨⟨_ | preimage, signatures⟩, rest⟩, -, h⟩
        · contradiction
        · contradiction
      · rw [if_neg hbrace]
        refine iff_of_false ?_ ?_
        · intro h
          cases Except.error.inj h
        · rintro ⟨rest', hopen, -⟩
          exact hbrace (List.cons.inj hopen).1
  · rw [ProofWitness.fromJson] at hhang
    cases hskip : skipWs text with
    | nil =>
      rw [hskip] at hhang
      cases Except.error.inj hhang
    | cons c rest =>
      rw [hskip] at hhang
      dsimp only at hhang
      by_cases hquote : c = '"'
      · rw [if_pos hquote] at hhang
        exact (outcome_stringUnescaped _).hangs _ (Result.map_eq_error.mp hhang)
      rw [if_neg hquote] at hhang
      by_cases hbrace : c = '{'
      · rw [if_pos hbrace] at hhang
        rcases Result.bind_eq_error.mp hhang with h | ⟨⟨⟨_ | preimage, signatures⟩, rest⟩, -, h⟩
        · exact (hobject _).hangs _ h
        · contradiction
        · contradiction
      · rw [if_neg hbrace] at hhang
        cases Except.error.inj hhang

/-- What is read past the end where a value of a `Proof` is due. -/
def Proof.FieldOut (key cs : List Char) : Prop :=
  if key = "amount".toList then False
  else if key = "secret".toList then False
  else if key = "C".toList then False
  else if key = "id".toList then False
  else if key = "version".toList then False
  else if key = "dleq".toList then RawOut DleqProof.RunsOut cs
  else if key = "witness".toList then RawOut ProofWitness.RunsOut cs
  else cs = []

theorem Proof.outcome_field (key : List Char) (st : Proof) :
    Outcome (Proof.field size key st) (Proof.FieldOut key) :=
  .ite (outcome_parseU64.map fun n => { st with amount := UInt64.ofNat n })
    (.ite ((outcome_stringUnescaped size).map fun s => { st with secret := s })
      (.ite ((outcome_stringUnescaped size).map fun s => { st with c := s })
        (.ite ((outcome_stringUnescaped size).map fun s => { st with id := some s })
          (.ite (outcome_parseU64.map fun n => { st with version := some (Int32.ofNat n) })
            (.ite (.nested DleqProof.stopsAt fun d => { st with dleq := some d })
              (.ite (.nested ProofWitness.stopsAt fun w => { st with witness := some w })
                (outcome_skipValue size st)))))))

/-- The texts `Proof::from_json` reads past the end of. -/
def Proof.RunsOut (json : List Char) : Prop :=
  RecordOut Proof.field (fun _ => Proof.FieldOut) ⟨0, "", "", none, none, none, none⟩ json

theorem Proof.stopsAt : StopsAt Proof.fromJson Proof.RunsOut :=
  .record Proof.outcome_field ⟨0, "", "", none, none, none, none⟩
    (fun p => p.secret = "" ∨ p.c = "") _

/-! ### Tokens -/

namespace TokenContent

theorem proof_shorter {cs rest : List Char} {p : Proof} (h : proof cs = .ok (p, rest)) :
    rest.length < cs.length := by
  rw [proof] at h
  obtain ⟨⟨raw, rest'⟩, hraw, h⟩ := Result.bind_eq_ok.mp h
  obtain ⟨p', hparse, hdone⟩ := Result.bind_eq_ok.mp h
  obtain rfl : rest' = rest := (Prod.mk.inj (Except.ok.inj hdone)).2
  have hne : raw ≠ [] := by
    rintro rfl
    -- no opening brace
    have herror : Proof.fromJson [] =
        .error (invalidFormat "Unexpected byte at position 0") := by rfl
    rw [herror] at hparse
    contradiction
  have hpos := List.length_pos_iff.mpr hne
  rw [parseRawJsonValue_eq_ok hraw, length_append]
  omega

theorem outcome_proofs (size : ℕ) :
    Outcome (array size proof) (ArrayOut proof (RawOut Proof.RunsOut)) :=
  .array (.nested Proof.stopsAt id) (fun _ _ _ => proof_shorter) size

/-- The strings of `del`, as they are written. -/
def rawString (size : ℕ) (cs : List Char) : ParserResult (String × List Char) :=
  (string size cs).map fun p => (String.ofList p.1, p.2)

theorem outcome_rawStrings (size : ℕ) :
    Outcome (array size (rawString size)) (ArrayOut (rawString size) fun _ => False) := by
  have hshort : ∀ cs s rest, rawString size cs = .ok (s, rest) → rest.length + 2 ≤ cs.length := by
    intro cs s rest h
    obtain ⟨⟨raw, rest'⟩, hstring, heq⟩ := Result.map_eq_ok.mp h
    rw [← (Prod.mk.inj heq).2]
    exact (string_outcome size).2 cs raw rest' hstring
  have hread : Outcome (rawString size) fun _ => False := by
    refine .of_error (fun cs stop h => ?_) fun cs s rest h => ?_
    · exact (string_outcome size).1 cs stop (Result.map_eq_error.mp h)
    · have hless := hshort cs s rest h
      omega
  refine hread.array (fun cs s rest h => ?_) size
  have hless := hshort cs s rest h
  omega

/-- What is read past the end where a value of a token is due. -/
def FieldOut (size : ℕ) (key cs : List Char) : Prop :=
  if key = "mint".toList then False
  else if key = "proofs".toList then ArrayOut proof (RawOut Proof.RunsOut) cs
  else if key = "del".toList then ArrayOut (rawString size) (fun _ => False) cs
  else cs = []

theorem outcome_field (size : ℕ) (key : List Char) (st : TokenContent) :
    Outcome (field size key st) (FieldOut size key) :=
  .ite ((outcome_stringUnescaped size).map fun s => { st with mint := s })
    (.ite ((outcome_proofs size).map fun ps => { st with proofs := ps })
      (.ite ((outcome_rawStrings size).map fun ss => { st with del := some ss })
        (outcome_skipValue size st)))

/-- The texts `TokenContent::from_json` reads past the end of. -/
def RunsOut (json : List Char) : Prop := RecordOut field FieldOut ⟨"", [], none⟩ json

theorem returns_iff (json : String) : Returns (fromJson json) ↔ ¬ RunsOut json.toList :=
  (StopsAt.record outcome_field ⟨"", [], none⟩ (fun c => c.mint = "") _).returns_iff json.toList

end TokenContent

/-! ### Tags -/

namespace NostrTagsParser

theorem parseTag_shorter {size : ℕ} {cs rest : List Char} {tag : List String}
    (h : parseTag size cs = .ok (tag, rest)) : rest.length < cs.length :=
  array_shorter (outcome_stringUnescaped size) (fun _ _ _ => stringUnescaped_lt) h

/-- The texts `NostrTags::from_json` reads past the end of: the array of tags runs
out, or that of a tag. -/
def RunsOut (json : List Char) : Prop :=
  let text := unescapeIfNeeded json
  ArrayOut (parseTag (byteLength text))
    (ArrayOut (stringUnescaped (byteLength text)) fun _ => False) (skipWs text)

theorem stopsAt : StopsAt parse RunsOut := by
  have harray : ∀ size, Outcome (array size (parseTag size))
      (ArrayOut (parseTag size) (ArrayOut (stringUnescaped size) fun _ => False)) :=
    fun size => (outcome_strings size).array (fun _ _ _ => parseTag_shorter) size
  refine ⟨fun json => ?_, fun json hhang => ?_⟩
  · rw [parse, Result.bind_eq_error, RunsOut, ← (harray _).panics]
    refine or_iff_left ?_
    rintro ⟨p, -, hdone⟩
    contradiction
  · rw [parse] at hhang
    rcases Result.bind_eq_error.mp hhang with h | ⟨p, -, hdone⟩
    · exact (harray _).hangs _ h
    · contradiction

end NostrTagsParser

/-! ### The parsers -/

/-- **The JSON parsers** return, with a value or an error, unless the text runs out
where a part of it is due.  What they cut out of it are whole characters. -/
theorem parsers_return_iff (json : List Char) (content : String) :
    (Returns (NostrTagsParser.parse json) ↔ ¬ NostrTagsParser.RunsOut json) ∧
      (Returns (Proof.fromJson json) ↔ ¬ Proof.RunsOut json) ∧
      (Returns (DleqProof.fromJson json) ↔ ¬ DleqProof.RunsOut json) ∧
      (Returns (TokenContent.fromJson content) ↔ ¬ TokenContent.RunsOut content.toList) ∧
      stringBytes (bytes json) = (skipString json).map bytesOfParts ∧
      ∀ depth inString escaped, rawBytes depth inString escaped (bytes json) =
        (rawValue depth inString escaped json).map bytesOfParts :=
  ⟨NostrTagsParser.stopsAt.returns_iff json, Proof.stopsAt.returns_iff json,
    DleqProof.stopsAt.returns_iff json, TokenContent.returns_iff content, stringBytes_bytes json,
    rawBytes_bytes json⟩

/-- A bracket and a space: the loop looks at the byte behind the space. -/
theorem openBracket_panics : ¬ ∀ json, Returns (NostrTagsParser.parse json) := by
  intro h
  have hpanic : NostrTagsParser.parse "[ ".toList = .error .panic := by decide
  exact (h "[ ".toList).1 hpanic

end Nipworker
