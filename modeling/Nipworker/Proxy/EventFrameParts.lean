/-
How the proxy takes an `EVENT` frame of a relay apart (`proxy/relayProxyServer.ts`).

The frame is scanned by position, without building a value; what the scanners do not
understand goes through `JSON.parse`.
-/
import Nipworker.Lib.JsStringify
import Nipworker.Lib.JsonGrammar

namespace Nipworker.ProxyFrames

open Js JsJson List Option

/-! ### The scanners -/

def skipJsonWhitespace (s : JsString) (i : ℕ) : ℕ :=
  match hc : charCodeAt s i with
  | none => i
  | some c => if c ≠ 32 ∧ c ≠ 9 ∧ c ≠ 10 ∧ c ≠ 13 then i else skipJsonWhitespace s (i + 1)
termination_by s.length - i
decreasing_by
  have := charCodeAt_lt hc
  omega

/-- The loop of `sniffFrameKind`. -/
def sniffLoop (frame : JsString) (start i : ℕ) : Option JsString :=
  match hc : charCodeAt frame i with
  | none => none
  | some c =>
    if c = 92 then none
    else if c = 34 then some (slice frame start i)
    else sniffLoop frame start (i + 1)
termination_by frame.length - i
decreasing_by
  have := charCodeAt_lt hc
  omega

def sniffFrameKind (frame : JsString) : Option JsString :=
  let i := skipJsonWhitespace frame 0
  if charCodeAt frame i ≠ some 91 then none
  else
    let i := skipJsonWhitespace frame (i + 1)
    if charCodeAt frame i ≠ some 34 then none else sniffLoop frame (i + 1) (i + 1)

/-- The loop of `scanPlainJsonString`. -/
def scanPlainLoop (s : JsString) (start i : ℕ) : Option (JsString × ℕ) :=
  match hc : charCodeAt s i with
  | none => none
  | some c =>
    if c = 92 then none
    else if c = 34 then some (slice s (start + 1) i, i + 1)
    else scanPlainLoop s start (i + 1)
termination_by s.length - i
decreasing_by
  have := charCodeAt_lt hc
  omega

def scanPlainJsonString (s : JsString) (start : ℕ) : Option (JsString × ℕ) :=
  if charCodeAt s start ≠ some 34 then none else scanPlainLoop s start (start + 1)

/-- The loop of `scanJsonValueEnd` over a string inside an object or an array. -/
def skipNestedString (s : JsString) (i : ℕ) : ℕ :=
  match hc : charCodeAt s i with
  | none => i
  | some c =>
    if c = 92 then skipNestedString s (i + 2)
    else if c = 34 then i + 1
    else skipNestedString s (i + 1)
termination_by s.length - i
decreasing_by
  all_goals
    have := charCodeAt_lt hc
    omega

theorem le_skipNestedString (s : JsString) (i : ℕ) : i ≤ skipNestedString s i := by
  fun_induction skipNestedString s i with
  | case1 i hc => exact Nat.le_refl i
  | case2 i hc ih => omega
  | case3 i hc h => omega
  | case4 i c hc hback hquote ih => omega

/-- The loop of `scanJsonValueEnd` over an object or an array. -/
def scanNestedLoop (s : JsString) (depth : ℤ) (i : ℕ) : Option ℕ :=
  match hc : charCodeAt s i with
  | none => none
  | some c =>
    if c = 34 then scanNestedLoop s depth (skipNestedString s (i + 1))
    else if c = 123 ∨ c = 91 then scanNestedLoop s (depth + 1) (i + 1)
    else if c = 125 ∨ c = 93 then
      if depth - 1 = 0 then some (i + 1) else scanNestedLoop s (depth - 1) (i + 1)
    else scanNestedLoop s depth (i + 1)
termination_by s.length - i
decreasing_by
  all_goals
    have := charCodeAt_lt hc
    have := le_skipNestedString s (i + 1)
    omega

/-- The loop of `scanJsonValueEnd` over a string. -/
def scanStringLoop (s : JsString) (i : ℕ) : Option ℕ :=
  match hc : charCodeAt s i with
  | none => none
  | some c =>
    if c = 92 then scanStringLoop s (i + 2)
    else if c = 34 then some (i + 1)
    else scanStringLoop s (i + 1)
termination_by s.length - i
decreasing_by
  all_goals
    have := charCodeAt_lt hc
    omega

/-- The loop of `scanJsonValueEnd` over a scalar. -/
def scanScalarLoop (s : JsString) (i : ℕ) : Option ℕ :=
  match hc : charCodeAt s i with
  | none => none
  | some c =>
    if c = 44 ∨ c = 93 ∨ c = 32 ∨ c = 9 ∨ c = 10 ∨ c = 13 then some i
    else scanScalarLoop s (i + 1)
termination_by s.length - i
decreasing_by
  have := charCodeAt_lt hc
  omega

def scanJsonValueEnd (s : JsString) (start : ℕ) : Option ℕ :=
  if charCodeAt s start = some 123 ∨ charCodeAt s start = some 91 then scanNestedLoop s 0 start
  else if charCodeAt s start = some 34 then scanStringLoop s (start + 1)
  else scanScalarLoop s start

/-- The subscription id and the payload of an `EVENT` frame. -/
structure FrameParts where
  subId : JsString
  payload : JsString
  deriving DecidableEq

def eventToken : JsString := units ['"', 'E', 'V', 'E', 'N', 'T', '"']

/-- The scanners: subscription and event of a frame, as they stand in the text. -/
def extractEventFrameParts (frame : JsString) : Option FrameParts :=
  let i := skipJsonWhitespace frame 0
  if charCodeAt frame i ≠ some 91 then none
  else
    let i := skipJsonWhitespace frame (i + 1)
    if !startsWith frame eventToken i then none
    else
      let i := skipJsonWhitespace frame (i + eventToken.length)
      if charCodeAt frame i ≠ some 44 then none
      else
        let i := skipJsonWhitespace frame (i + 1)
        match scanPlainJsonString frame i with
        | none => none
        | some (value, after) =>
          let i := skipJsonWhitespace frame after
          if charCodeAt frame i ≠ some 44 then none
          else
            let i := skipJsonWhitespace frame (i + 1)
            (scanJsonValueEnd frame i).map fun payloadEnd =>
              { subId := value, payload := slice frame i payloadEnd }

/-! ### The full parse -/

section

variable {N : Type} (E : Numbers N)

def parseRelayFrame (rawFrame : JsString) : Option (List (JsValue N)) :=
  match parse E rawFrame with
  | some (.arr items) => some items
  | _ => none

/-- `typeof value === 'object'`, for a value that is not falsy. -/
def isObject : JsValue N → Bool
  | .arr _ => true
  | .obj _ => true
  | _ => false

/-- The text `EVENT`. -/
def eventKind : JsString := units ['E', 'V', 'E', 'N', 'T']

/-- The other way, through `JSON.parse`. -/
def parseEventFrameFallback (rawFrame : JsString) : Option FrameParts :=
  match parseRelayFrame E rawFrame with
  | some (.str kind :: .str subId :: value :: _) =>
    if kind = eventKind ∧ subId ≠ [] ∧ isObject value = true then
      some { subId := subId, payload := stringify E value }
    else none
  | _ => none

end

/-! ### Within bounds, on any text -/

theorem skipJsonWhitespace_bounds (s : JsString) (i : ℕ) :
    i ≤ skipJsonWhitespace s i ∧ (i ≤ s.length → skipJsonWhitespace s i ≤ s.length) := by
  fun_induction skipJsonWhitespace s i with
  | case1 i hc => exact ⟨Nat.le_refl i, id⟩
  | case2 i c hc hstop => exact ⟨Nat.le_refl i, id⟩
  | case3 i c hc hws ih =>
    have := charCodeAt_lt hc
    exact ⟨by omega, fun _ => ih.2 (by omega)⟩

variable {start : ℕ} {rest text : JsString} {c : UInt16} {lit : List StrUnit}

theorem sniffLoop_bounds {frame : JsString} {i : ℕ} {kind : JsString}
    (h : sniffLoop frame start i = some kind) :
    ∃ stop, i ≤ stop ∧ stop < frame.length ∧ kind = slice frame start stop := by
  fun_induction sniffLoop frame start i with
  | case1 i hc => contradiction
  | case2 i hc => contradiction
  | case3 i hc hback => exact ⟨i, Nat.le_refl i, charCodeAt_lt hc, (some.inj h).symm⟩
  | case4 i c hc hback hquote ih =>
    obtain ⟨stop, hle, hlt, heq⟩ := ih h
    exact ⟨stop, by omega, hlt, heq⟩

theorem scanPlainLoop_bounds {s : JsString} {i : ℕ} {value : JsString} {after : ℕ}
    (h : scanPlainLoop s start i = some (value, after)) :
    i < after ∧ after ≤ s.length ∧ value = slice s (start + 1) (after - 1) := by
  fun_induction scanPlainLoop s start i with
  | case1 i hc => contradiction
  | case2 i hc => contradiction
  | case3 i hc hback =>
    obtain ⟨rfl, rfl⟩ := Prod.mk.inj (some.inj h)
    have := charCodeAt_lt hc
    exact ⟨by omega, by omega, rfl⟩
  | case4 i c hc hback hquote ih =>
    obtain ⟨hlt, hle, heq⟩ := ih h
    exact ⟨by omega, hle, heq⟩

theorem scanNestedLoop_bounds {s : JsString} {depth : ℤ} {i stop : ℕ}
    (h : scanNestedLoop s depth i = some stop) : i < stop ∧ stop ≤ s.length := by
  fun_induction scanNestedLoop s depth i with
  | case1 depth i hc => contradiction
  | case2 depth i hc ih =>
    have := le_skipNestedString s (i + 1)
    have := ih h
    omega
  | case3 depth i c hc hquote hopen ih =>
    have := ih h
    omega
  | case4 depth i c hc hquote hopen hclose hzero =>
    rw [← some.inj h]
    have := charCodeAt_lt hc
    omega
  | case5 depth i c hc hquote hopen hclose hzero ih =>
    have := ih h
    omega
  | case6 depth i c hc hquote hopen hclose ih =>
    have := ih h
    omega

theorem scanStringLoop_bounds {s : JsString} {i stop : ℕ} (h : scanStringLoop s i = some stop) :
    i < stop ∧ stop ≤ s.length := by
  fun_induction scanStringLoop s i with
  | case1 i hc => contradiction
  | case2 i hc ih =>
    have := ih h
    omega
  | case3 i hc hback =>
    rw [← some.inj h]
    have := charCodeAt_lt hc
    omega
  | case4 i c hc hback hquote ih =>
    have := ih h
    omega

theorem scanScalarLoop_bounds {s : JsString} {i stop : ℕ} (h : scanScalarLoop s i = some stop) :
    i ≤ stop ∧ stop ≤ s.length := by
  fun_induction scanScalarLoop s i with
  | case1 i hc => contradiction
  | case2 i c hc hdelim =>
    rw [← some.inj h]
    have := charCodeAt_lt hc
    omega
  | case3 i c hc hdelim ih =>
    have := ih h
    omega

theorem scanJsonValueEnd_bounds {s : JsString} {stop : ℕ}
    (h : scanJsonValueEnd s start = some stop) : start ≤ stop ∧ stop ≤ s.length := by
  rw [scanJsonValueEnd] at h
  by_cases hopen : charCodeAt s start = some 123 ∨ charCodeAt s start = some 91
  · rw [if_pos hopen] at h
    have := scanNestedLoop_bounds h
    omega
  rw [if_neg hopen] at h
  by_cases hquote : charCodeAt s start = some 34
  · rw [if_pos hquote] at h
    have := scanStringLoop_bounds h
    omega
  · rw [if_neg hquote] at h
    exact scanScalarLoop_bounds h

theorem scanPlainJsonString_bounds {s : JsString} {after : ℕ} {value : JsString}
    (h : scanPlainJsonString s start = some (value, after)) :
    start + 1 < after ∧ after ≤ s.length ∧ value = slice s (start + 1) (after - 1) := by
  rw [scanPlainJsonString] at h
  by_cases hquote : charCodeAt s start ≠ some 34
  · rw [if_pos hquote] at h
    contradiction
  · rw [if_neg hquote] at h
    exact scanPlainLoop_bounds h

theorem extractEventFrameParts_bounds {frame : JsString} {parts : FrameParts}
    (h : extractEventFrameParts frame = some parts) :
    (∃ start stop, start ≤ stop ∧ stop ≤ frame.length ∧ parts.subId = slice frame start stop) ∧
      ∃ start stop, start ≤ stop ∧ stop ≤ frame.length ∧
        parts.payload = slice frame start stop := by
  rw [extractEventFrameParts] at h
  split at h
  · contradiction
  dsimp only at h
  split at h
  · contradiction
  split at h
  · contradiction
  split at h
  · contradiction
  · next value after hplain =>
    split at h
    · contradiction
    obtain ⟨stop, hstop, rfl⟩ := Option.map_eq_some_iff.mp h
    obtain ⟨hlt, hle, hvalue⟩ := scanPlainJsonString_bounds hplain
    exact ⟨⟨_, after - 1, by omega, by omega, hvalue⟩, _, stop, (scanJsonValueEnd_bounds hstop).1,
      (scanJsonValueEnd_bounds hstop).2, rfl⟩

/-! ### Positions and what is left -/

variable {s : JsString} {i : ℕ}

theorem isJsonWs_iff (c : UInt16) : (c ≠ 32 ∧ c ≠ 9 ∧ c ≠ 10 ∧ c ≠ 13) ↔ isJsonWs c = false := by
  rw [isJsonWs, decide_eq_false_iff_not]
  tauto

theorem skipJsonWhitespace_at (h : At s i rest) : At s (skipJsonWhitespace s i) (skipWs rest) := by
  induction rest generalizing i with
  | nil =>
    rw [skipJsonWhitespace]
    split
    · exact h
    · next c hc =>
      rw [h.charCodeAt_nil] at hc
      contradiction
  | cons u rest ih =>
    rw [skipJsonWhitespace]
    split
    · next hc =>
      rw [h.charCodeAt_cons] at hc
      contradiction
    · next c hc =>
      rw [h.charCodeAt_cons] at hc
      obtain rfl := some.inj hc
      by_cases hws : isJsonWs u = false
      · rw [if_pos ((isJsonWs_iff u).mpr hws), skipWs_cons hws]
        exact h
      · rw [if_neg fun hne => hws ((isJsonWs_iff u).mp hne)]
        rw [Bool.not_eq_false] at hws
        rw [skipWs, dropWhile_cons_of_pos hws]
        exact ih h.next

theorem hexUnit_ne {u v : UInt16} (h : hexUnit u = some v) : u ≠ 34 ∧ u ≠ 92 := by
  constructor
  · rintro rfl
    have hnone : hexUnit 34 = none := by decide
    rw [hnone] at h
    contradiction
  · rintro rfl
    have hnone : hexUnit 92 = none := by decide
    rw [hnone] at h
    contradiction

theorem hex4_ne {a b d : UInt16} (h : (hex4 a b c d).isSome = true) :
    ∀ u ∈ [a, b, c, d], u ≠ 34 ∧ u ≠ 92 := by
  obtain ⟨v, hv⟩ := Option.isSome_iff_exists.mp h
  simp only [hex4, bind_eq_bind, bind_eq_some_iff] at hv
  obtain ⟨_, ha, _, hb, _, hc, _, hd, -⟩ := hv
  intro u hu
  simp only [mem_cons, not_mem_nil, or_false] at hu
  rcases hu with rfl | rfl | rfl | rfl
  · exact hexUnit_ne ha
  · exact hexUnit_ne hb
  · exact hexUnit_ne hc
  · exact hexUnit_ne hd

/-- **How a string is passed over**: a loop that moves on by one on units that are neither
quote nor backslash, and by two on a backslash, gets to the end of a literal. -/
theorem through_literal {lit : List StrUnit} (hlit : ∀ p ∈ lit, p.Wf) {reaches : ℕ → Prop}
    {rest : JsString} (hone : ∀ i u t, At s i (u :: t) → u ≠ 34 → u ≠ 92 → reaches (i + 1) →
      reaches i)
    (htwo : ∀ i u t, At s i (92 :: u :: t) → reaches (i + 2) → reaches i)
    (hend : ∀ j, At s j rest → reaches j) (h : At s i (literalText lit ++ rest)) : reaches i := by
  induction lit generalizing i with
  | nil => exact hend i h
  | cons p lit ih =>
    have hp := hlit p mem_cons_self
    rw [literalText_cons, append_assoc] at h
    have hnext : ∀ j, At s j (literalText lit ++ rest) → reaches j := fun j hat =>
      ih (fun q hq => hlit q (mem_cons_of_mem _ hq)) hat
    cases p with
    | plain u => exact hone i u _ h hp.1 hp.2.1 (hnext _ h.next)
    | short e => exact htwo i _ _ h (hnext _ h.next.next)
    | unicode a b c d =>
      have hne := hex4_ne hp
      simp only [forall_mem_cons] at hne
      obtain ⟨ha, hb, hc, hd, -⟩ := hne
      have h2 := h.next.next
      exact htwo i _ _ h (hone _ a _ h2 ha.1 ha.2 (hone _ b _ h2.next hb.1 hb.2
        (hone _ c _ h2.next.next hc.1 hc.2 (hone _ d _ h2.next.next.next hd.1 hd.2
          (hnext _ h2.next.next.next.next)))))

theorem skipNestedString_some (h : charCodeAt s i = some c) :
    skipNestedString s i =
      if c = 92 then skipNestedString s (i + 2)
      else if c = 34 then i + 1
      else skipNestedString s (i + 1) := by
  rw [skipNestedString]
  split
  · next hc =>
    rw [h] at hc
    contradiction
  · next c' hc =>
    rw [h] at hc
    rw [some.inj hc]

theorem skipNestedString_at (hlit : ∀ p ∈ lit, p.Wf)
    (h : At s i (literalText lit ++ unit '"' :: rest)) : At s (skipNestedString s i) rest := by
  refine @through_literal s i lit hlit (fun j => At s (skipNestedString s j) rest) _ ?_ ?_ ?_ h
  · intro i u t hat hquote hback hreach
    rw [skipNestedString_some hat.charCodeAt_cons, if_neg hback, if_neg hquote]
    exact hreach
  · intro i u t hat hreach
    rw [skipNestedString_some hat.charCodeAt_cons, if_pos rfl]
    exact hreach
  · intro j hat
    rw [skipNestedString_some hat.charCodeAt_cons, if_neg (by decide), if_pos (by decide)]
    exact hat.next

theorem scanStringLoop_some (h : charCodeAt s i = some c) :
    scanStringLoop s i =
      if c = 92 then scanStringLoop s (i + 2)
      else if c = 34 then some (i + 1)
      else scanStringLoop s (i + 1) := by
  rw [scanStringLoop]
  split
  · next hc =>
    rw [h] at hc
    contradiction
  · next c' hc =>
    rw [h] at hc
    rw [some.inj hc]

theorem scanStringLoop_at (hlit : ∀ p ∈ lit, p.Wf)
    (h : At s i (literalText lit ++ unit '"' :: rest)) :
    ∃ j, scanStringLoop s i = some j ∧ At s j rest := by
  refine @through_literal s i lit hlit
    (fun k => ∃ j, scanStringLoop s k = some j ∧ At s j rest) _ ?_ ?_ ?_ h
  · intro i u t hat hquote hback hreach
    rw [scanStringLoop_some hat.charCodeAt_cons, if_neg hback, if_neg hquote]
    exact hreach
  · intro i u t hat hreach
    rw [scanStringLoop_some hat.charCodeAt_cons, if_pos rfl]
    exact hreach
  · intro j hat
    rw [scanStringLoop_some hat.charCodeAt_cons, if_neg (by decide), if_pos (by decide)]
    exact ⟨j + 1, rfl, hat.next⟩

/-! ### Scalars -/

/-- A code unit that is neither layout nor the start or end of another value. -/
def isScalarUnit (u : UInt16) : Bool :=
  !isJsonWs u && u ≠ 34 && u ≠ 44 && u ≠ 91 && u ≠ 93 && u ≠ 123 && u ≠ 125

theorem isScalarUnit_token {c : Char} (h : JsonText.isTokenChar c = true) :
    isScalarUnit (unit c) = true := by
  rw [JsonText.isTokenChar, Bool.or_eq_true] at h
  rcases h with h | h
  · have hdigits : ∀ n < 10, isScalarUnit (UInt16.ofNat (48 + n)) = true := by decide
    have hb := isDigit_bounds h
    have := hdigits (c.toNat - 48) (by omega)
    rwa [show 48 + (c.toNat - 48) = c.toNat by omega] at this
  · have hwords : JsonText.wordChars.all (fun c => isScalarUnit (unit c)) = true := by decide
    exact List.all_eq_true.mp hwords c (List.contains_iff_mem.mp h)

/-- The document is a scalar: its text has scalar units only. -/
def IsScalar (d : Doc) : Prop := ∀ u ∈ d.text, isScalarUnit u = true

theorem isScalar_units {cs : List Char} (h : ∀ c ∈ cs, JsonText.isTokenChar c = true) :
    ∀ u ∈ units cs, isScalarUnit u = true := by
  intro u hu
  obtain ⟨c, hc, rfl⟩ := List.mem_map.mp hu
  exact isScalarUnit_token (h c hc)

theorem isScalar_null : IsScalar .null := by
  show ∀ u ∈ nullWord, isScalarUnit u = true
  exact List.all_eq_true.mp (by decide)

theorem isScalar_bool (b : Bool) : IsScalar (.bool b) := by
  show ∀ u ∈ boolWord b, isScalarUnit u = true
  cases b <;> exact List.all_eq_true.mp (by decide)

theorem isScalar_num {n : JsonText.NumberLit} (hn : n.Wf) : IsScalar (.num n) :=
  isScalar_units hn.tokens.2

theorem scanScalarLoop_some (h : charCodeAt s i = some c) :
    scanScalarLoop s i =
      if c = 44 ∨ c = 93 ∨ c = 32 ∨ c = 9 ∨ c = 10 ∨ c = 13 then some i
      else scanScalarLoop s (i + 1) := by
  rw [scanScalarLoop]
  split
  · next hc =>
    rw [h] at hc
    contradiction
  · next c' hc =>
    rw [h] at hc
    rw [some.inj hc]

def isDelimiter (u : UInt16) : Bool := u = 44 ∨ u = 93 ∨ isJsonWs u

theorem isDelimiter_iff (c : UInt16) :
    (c = 44 ∨ c = 93 ∨ c = 32 ∨ c = 9 ∨ c = 10 ∨ c = 13) ↔ isDelimiter c = true := by
  rw [isDelimiter, decide_eq_true_eq, isJsonWs, decide_eq_true_eq]

theorem isDelimiter_scalar {u : UInt16} (h : isScalarUnit u = true) : isDelimiter u = false := by
  simp only [isScalarUnit, Bool.and_eq_true, Bool.not_eq_true', decide_eq_true_eq] at h
  rw [isDelimiter, decide_eq_false_iff_not, h.1.1.1.1.1.1]
  rintro (h44 | h93 | hws)
  · exact h.1.1.1.1.2 h44
  · exact h.1.1.2 h93
  · contradiction

theorem scanScalarLoop_at (htext : ∀ u ∈ text, isScalarUnit u = true)
    {u : UInt16} (hu : isDelimiter u = true) (h : At s i (text ++ u :: rest)) :
    ∃ j, scanScalarLoop s i = some j ∧ At s j (u :: rest) := by
  induction text generalizing i with
  | nil =>
    have hat : At s i (u :: rest) := h
    exact ⟨i, by rw [scanScalarLoop_some hat.charCodeAt_cons, if_pos ((isDelimiter_iff u).mpr hu)],
      hat⟩
  | cons v text ih =>
    have hv := isDelimiter_scalar (htext v mem_cons_self)
    rw [cons_append] at h
    rw [scanScalarLoop_some h.charCodeAt_cons, if_neg fun hd => ?_]
    · exact ih (fun w hw => htext w (mem_cons_of_mem _ hw)) h.next
    · rw [(isDelimiter_iff v).mp hd] at hv
      contradiction

/-! ### Nested values -/

theorem scanNestedLoop_some {depth : ℤ} (h : charCodeAt s i = some c) :
    scanNestedLoop s depth i =
      if c = 34 then scanNestedLoop s depth (skipNestedString s (i + 1))
      else if c = 123 ∨ c = 91 then scanNestedLoop s (depth + 1) (i + 1)
      else if c = 125 ∨ c = 93 then
        if depth - 1 = 0 then some (i + 1) else scanNestedLoop s (depth - 1) (i + 1)
      else scanNestedLoop s depth (i + 1) := by
  rw [scanNestedLoop]
  split
  · next hc =>
    rw [h] at hc
    contradiction
  · next c' hc =>
    rw [h] at hc
    rw [some.inj hc]

/-- Inside an object or an array the scan passes over the text and is as deep as before. -/
def Skips (s text : JsString) : Prop :=
  ∀ (i : ℕ) (rest : JsString) (depth : ℤ), 1 ≤ depth → At s i (text ++ rest) →
    ∃ j, At s j rest ∧ scanNestedLoop s depth i = scanNestedLoop s depth j

theorem Skips.nil : Skips s [] := fun i _ _ _ h => ⟨i, h, rfl⟩

theorem Skips.append {more : JsString} (h : Skips s text) (hmore : Skips s more) :
    Skips s (text ++ more) := by
  intro i rest depth hdepth hat
  rw [append_assoc] at hat
  obtain ⟨j, hj, heq⟩ := h i _ depth hdepth hat
  obtain ⟨k, hk, heq'⟩ := hmore j rest depth hdepth hj
  exact ⟨k, hk, heq.trans heq'⟩

def isInner (u : UInt16) : Bool := u ≠ 34 && u ≠ 91 && u ≠ 93 && u ≠ 123 && u ≠ 125

theorem Skips.inner (h : ∀ u ∈ text, isInner u = true) : Skips s text := by
  intro i rest depth hdepth hat
  induction text generalizing i with
  | nil => exact ⟨i, hat, rfl⟩
  | cons u text ih =>
    have hu := h u mem_cons_self
    simp only [isInner, Bool.and_eq_true, decide_eq_true_eq] at hu
    obtain ⟨⟨⟨⟨hquote, hopen⟩, hclose⟩, hbrace⟩, hbraceEnd⟩ := hu
    obtain ⟨j, hj, heq⟩ := ih (fun v hv => h v (mem_cons_of_mem _ hv)) (i + 1) hat.next
    refine ⟨j, hj, ?_⟩
    rw [scanNestedLoop_some hat.charCodeAt_cons, if_neg hquote,
      if_neg (not_or.mpr ⟨hbrace, hopen⟩), if_neg (not_or.mpr ⟨hbraceEnd, hclose⟩)]
    exact heq

theorem Skips.blank {blank : JsString} (h : Blank blank) : Skips s blank := by
  refine Skips.inner fun u hu => ?_
  have hws := h u hu
  rw [isJsonWs, decide_eq_true_eq] at hws
  rcases hws with rfl | rfl | rfl | rfl <;> decide

theorem Skips.scalar (h : ∀ u ∈ text, isScalarUnit u = true) : Skips s text := by
  refine Skips.inner fun u hu => ?_
  have hscalar := h u hu
  simp only [isScalarUnit, Bool.and_eq_true, decide_eq_true_eq] at hscalar
  simp only [isInner, Bool.and_eq_true, decide_eq_true_eq]
  tauto

theorem Skips.string (h : ∀ p ∈ lit, p.Wf) :
    Skips s (unit '"' :: (literalText lit ++ [unit '"'])) := by
  intro i rest depth hdepth hat
  rw [cons_append, append_assoc, singleton_append] at hat
  refine ⟨_, skipNestedString_at h hat.next, ?_⟩
  rw [scanNestedLoop_some hat.charCodeAt_cons, if_pos (by decide)]

theorem Skips.bracketed {opening closing : UInt16} (hopen : opening = 123 ∨ opening = 91)
    (hclose : closing = 125 ∨ closing = 93) (h : Skips s text) :
    Skips s (opening :: (text ++ [closing])) := by
  intro i rest depth hdepth hat
  rw [cons_append, append_assoc, singleton_append] at hat
  have hquote : opening ≠ 34 := by rcases hopen with rfl | rfl <;> decide
  have hquote' : closing ≠ 34 := by rcases hclose with rfl | rfl <;> decide
  have hclosing : ¬ (closing = 123 ∨ closing = 91) := by
    rcases hclose with rfl | rfl <;> decide
  obtain ⟨j, hj, heq⟩ := h (i + 1) _ (depth + 1) (by omega) hat.next
  refine ⟨j + 1, hj.next, ?_⟩
  rw [scanNestedLoop_some hat.charCodeAt_cons, if_neg hquote, if_pos hopen, heq,
    scanNestedLoop_some hj.charCodeAt_cons, if_neg hquote', if_neg hclosing, if_pos hclose,
    if_neg (show ¬ depth + 1 - 1 = 0 by omega), show depth + 1 - 1 = depth by omega]

theorem skips_comma : Skips s [unit ','] :=
  Skips.inner (List.all_eq_true.mp (by decide))

theorem skips_colon : Skips s [unit ':'] :=
  Skips.inner (List.all_eq_true.mp (by decide))

theorem skips_itemsComma (items : Items) : Skips s items.comma := by
  cases items with
  | nil => exact Skips.nil
  | cons => exact skips_comma

theorem skips_membersComma (members : Members) : Skips s members.comma := by
  cases members with
  | nil => exact Skips.nil
  | cons => exact skips_comma

mutual

/-- **A value inside another one is passed over**, whatever its nesting and its strings. -/
theorem skips_doc : ∀ {d : Doc}, d.Json → Skips s d.text
  | .null, _ => Skips.scalar isScalar_null
  | .bool b, _ => Skips.scalar (isScalar_bool b)
  | .num _, h => Skips.scalar (isScalar_num h)
  | .str _, h => Skips.string h
  | .arr blank items, h => by
    rw [Doc.text, ← append_assoc]
    exact Skips.bracketed (.inr (by decide)) (.inr (by decide))
      ((Skips.blank h.1).append (skips_items h.2))
  | .obj blank members, h => by
    rw [Doc.text, ← append_assoc]
    exact Skips.bracketed (.inl (by decide)) (.inl (by decide))
      ((Skips.blank h.1).append (skips_members h.2))

theorem skips_items : ∀ {items : Items}, items.Json → Skips s items.text
  | .nil, _ => Skips.nil
  | .cons _ _ _ rest, h =>
    (Skips.blank h.1).append ((skips_doc h.2.1).append ((Skips.blank h.2.2.1).append
      ((skips_itemsComma rest).append (skips_items h.2.2.2))))

theorem skips_members : ∀ {members : Members}, members.Json → Skips s members.text
  | .nil, _ => Skips.nil
  | .cons before key afterKey beforeValue value after rest, h => by
    obtain ⟨hbefore, hkey, hafterKey, hbeforeValue, hvalue, hafter, hrest⟩ := h
    have hmember := (Skips.blank hbefore).append ((Skips.string hkey).append
      ((Skips.blank hafterKey).append (skips_colon.append ((Skips.blank hbeforeValue).append
        ((skips_doc hvalue).append ((Skips.blank hafter).append
          ((skips_membersComma rest).append (skips_members hrest))))))))
    simp only [append_assoc, cons_append, nil_append] at hmember
    rw [Members.text]
    exact hmember

end

theorem scanNestedLoop_bracketed {opening closing : UInt16} (hopen : opening = 123 ∨ opening = 91)
    (hclose : closing = 125 ∨ closing = 93) (htext : Skips s text)
    (h : At s i (opening :: (text ++ closing :: rest))) :
    ∃ j, scanNestedLoop s 0 i = some j ∧ At s j rest := by
  have hquote : opening ≠ 34 := by rcases hopen with rfl | rfl <;> decide
  have hquote' : closing ≠ 34 := by rcases hclose with rfl | rfl <;> decide
  have hclosing : ¬ (closing = 123 ∨ closing = 91) := by
    rcases hclose with rfl | rfl <;> decide
  obtain ⟨j, hj, heq⟩ := htext (i + 1) _ (0 + 1) (by omega) h.next
  refine ⟨j + 1, ?_, hj.next⟩
  rw [scanNestedLoop_some h.charCodeAt_cons, if_neg hquote, if_pos hopen, heq,
    scanNestedLoop_some hj.charCodeAt_cons, if_neg hquote', if_neg hclosing, if_pos hclose]
  exact if_pos rfl

/-- **The end of a value is found.** -/
theorem scanJsonValueEnd_at {d : Doc} (hd : d.Json) {u : UInt16} (hu : isDelimiter u = true)
    (h : At s i (d.text ++ u :: rest)) :
    ∃ j, scanJsonValueEnd s i = some j ∧ At s j (u :: rest) := by
  have hscalar : IsScalar d → ∃ j, scanJsonValueEnd s i = some j ∧ At s j (u :: rest) := by
    intro hunits
    obtain ⟨v, t, htext, -⟩ := hd.starts
    have hv := hunits v (by rw [htext]; exact mem_cons_self)
    have hhead : charCodeAt s i = some v := by
      rw [htext, cons_append] at h
      exact h.charCodeAt_cons
    simp only [isScalarUnit, Bool.and_eq_true, decide_eq_true_eq] at hv
    have hne : ∀ w : UInt16, v ≠ w → charCodeAt s i ≠ some w := by
      intro w hw heq
      rw [hhead] at heq
      exact hw (some.inj heq)
    rw [scanJsonValueEnd, if_neg (not_or.mpr ⟨hne _ hv.1.2, hne _ hv.1.1.1.2⟩),
      if_neg (hne _ hv.1.1.1.1.1.2)]
    exact scanScalarLoop_at hunits hu h
  cases d with
  | null => exact hscalar isScalar_null
  | bool b => exact hscalar (isScalar_bool b)
  | num n => exact hscalar (isScalar_num hd)
  | str lit =>
    rw [Doc.text, cons_append, append_assoc, singleton_append] at h
    have hhead := h.charCodeAt_cons
    rw [scanJsonValueEnd, hhead, if_neg (by decide), if_pos (by decide)]
    exact scanStringLoop_at hd h.next
  | arr blank items =>
    rw [Doc.text, cons_append, ← append_assoc, append_assoc _ [unit ']'],
      singleton_append] at h
    have hhead := h.charCodeAt_cons
    rw [scanJsonValueEnd, hhead, if_pos (by decide)]
    exact scanNestedLoop_bracketed (.inr (by decide)) (.inr (by decide))
      ((Skips.blank hd.1).append (skips_items hd.2)) h
  | obj blank members =>
    rw [Doc.text, cons_append, ← append_assoc, append_assoc _ [unit '}'],
      singleton_append] at h
    have hhead := h.charCodeAt_cons
    rw [scanJsonValueEnd, hhead, if_pos (by decide)]
    exact scanNestedLoop_bracketed (.inl (by decide)) (.inl (by decide))
      ((Skips.blank hd.1).append (skips_members hd.2)) h

end Nipworker.ProxyFrames
