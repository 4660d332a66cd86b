/-
From the relay's echo of a subscription id back to the subscription.

A relay repeats the subscription id of a REQ in its EVENT, EOSE and CLOSED
frames, spelled in any way JSON allows.  The id is taken out of the frame as
text and looked up among the replaced ids.
-/
import Nipworker.Transport.FrameScan
import Nipworker.Worker.RelayFrames

namespace Nipworker

open JsonText List

/-! ### Frames of subscriptions -/

/-- The frame reads as a REQ of the subscription. -/
def SerdeJson.IsReq (serde : SerdeJson) (frame subId : String) : Prop :=
  ∃ rest, serde.fromStr frame = some (.array (.string "REQ" :: .string subId :: rest))

/-- The subscription id in a frame, as a reader of JSON sees it. -/
def SerdeJson.subId (serde : SerdeJson) (frame : String) : Option String :=
  match serde.fromStr frame with
  | some (.array (_ :: .string subId :: _)) => some subId
  | _ => none

/-- The strings of an array that is written out are read back as they were. -/
def SerdeJson.KeepsSubId (serde : SerdeJson) : Prop :=
  ∀ kind subId rest,
    serde.subId (serde.toText (.array (.string kind :: .string subId :: rest))) = some subId

/-- The maps after some frames have been encoded in turn. -/
def encodeFrames (serde : SerdeJson) (maps : SubIdMaps) (frames : List String) : SubIdMaps :=
  frames.foldl (fun maps frame => (encodeRelayFrame serde maps frame).2) maps

variable {serde : SerdeJson}

theorem encodeRelayFrame_req (maps : SubIdMaps) {frame s : String} (hreq : serde.IsReq frame s) :
    (encodeRelayFrame serde maps frame).2.relayToFull
      = if isLongSubId s then maps.relayToFull.insert (relaySafeSubId s) s
        else maps.relayToFull := by
  obtain ⟨rest, hread⟩ := hreq
  unfold encodeRelayFrame
  rw [hread]
  dsimp only
  rw [if_neg (fun h => h.1 rfl)]
  by_cases hlong : isLongSubId s = true
  · rw [if_pos ((relaySafeSubId_ne_iff s).mpr hlong), if_pos hlong]
  · rw [if_neg (fun h => hlong ((relaySafeSubId_ne_iff s).mp h)), if_neg hlong]

theorem subId_encodeRelayFrame (hserde : serde.KeepsSubId)
    (maps : SubIdMaps) {frame s : String} (hreq : serde.IsReq frame s) :
    serde.subId (encodeRelayFrame serde maps frame).1 = some (relaySafeSubId s) := by
  obtain ⟨rest, hread⟩ := hreq
  unfold encodeRelayFrame
  rw [hread]
  dsimp only
  rw [if_neg (fun h => h.1 rfl)]
  by_cases hne : relaySafeSubId s ≠ s
  · rw [if_pos hne]
    exact hserde "REQ" (relaySafeSubId s) rest
  · rw [if_neg hne, SerdeJson.subId, hread]
    exact congrArg some (not_not.mp hne).symm

/-- The long ids among `ids` that are replaced by `relayId`. -/
def replacedBy (relayId : String) (ids : List String) : List String :=
  ids.filter fun id => isLongSubId id && relaySafeSubId id = relayId

/-- **The table of replaced ids** holds, for a relay id, the last long id that
was replaced by it. -/
theorem lookup_encodeFrames (reqs : List (String × String)) :
    ∀ (maps : SubIdMaps), (∀ r ∈ reqs, serde.IsReq r.1 r.2) → ∀ relayId,
    (encodeFrames serde maps (reqs.map Prod.fst)).relayToFull.lookup relayId
      = ((replacedBy relayId (reqs.map Prod.snd)).getLast?).or (maps.relayToFull.lookup relayId) := by
  induction reqs with
  | nil =>
    intro maps _ relayId
    rfl
  | cons r reqs ih =>
    intro maps hreqs relayId
    have hstep := encodeRelayFrame_req maps (hreqs r mem_cons_self)
    rw [map_cons, map_cons, encodeFrames, foldl_cons]
    refine (ih _ (fun x hx => hreqs x (mem_cons_of_mem _ hx)) relayId).trans ?_
    rw [hstep]
    by_cases hlong : isLongSubId r.2 = true
    · rw [if_pos hlong, Map.lookup_insert_ite]
      by_cases hid : relaySafeSubId r.2 = relayId
      · have hcons : replacedBy relayId (r.2 :: reqs.map Prod.snd)
            = r.2 :: replacedBy relayId (reqs.map Prod.snd) :=
          filter_cons_of_pos (by simp [hlong, hid])
        rw [if_pos hid.symm, hcons, List.getLast?_cons]
        rcases (replacedBy relayId (reqs.map Prod.snd)).getLast? with _ | x <;> rfl
      · have hcons : replacedBy relayId (r.2 :: reqs.map Prod.snd)
            = replacedBy relayId (reqs.map Prod.snd) :=
          filter_cons_of_neg (by simp [hid])
        rw [if_neg (Ne.symm hid), hcons]
    · have hcons : replacedBy relayId (r.2 :: reqs.map Prod.snd)
          = replacedBy relayId (reqs.map Prod.snd) :=
        filter_cons_of_neg (by simp [hlong])
      rw [if_neg hlong, hcons]

/-! ### The way back -/

def routedSubId (maps : SubIdMaps) (text : String) : Option String :=
  (incomingSubId text).map (decodeRelaySubId maps)

/-- The subscription `s` is found under its relay id: no long id that was
replaced by the same relay id stands in its place. -/
theorem decode_relaySafeSubId_iff {before after : List (String × String)}
    {req s : String} (hreqs : ∀ r ∈ before ++ (req, s) :: after, serde.IsReq r.1 r.2)
    (hdistinct : s ∉ after.map Prod.snd) :
    decodeRelaySubId
        (encodeFrames serde SubIdMaps.empty ((before ++ (req, s) :: after).map Prod.fst))
        (relaySafeSubId s) = s ↔
      (∀ r ∈ after, isLongSubId r.2 = true → relaySafeSubId r.2 ≠ relaySafeSubId s) ∧
      (isLongSubId s = false →
        ∀ r ∈ before, isLongSubId r.2 = true → relaySafeSubId r.2 ≠ relaySafeSubId s) := by
  rw [decodeRelaySubId, lookup_encodeFrames _ _ hreqs]
  have hsplit : replacedBy (relaySafeSubId s) ((before ++ (req, s) :: after).map Prod.snd)
      = replacedBy (relaySafeSubId s) (before.map Prod.snd) ++
        (replacedBy (relaySafeSubId s) [s] ++
          replacedBy (relaySafeSubId s) (after.map Prod.snd)) := by
    simp only [replacedBy, map_append, map_cons, ← filter_append,
      singleton_append]
  have hempty : ∀ l : List (String × String), replacedBy (relaySafeSubId s) (l.map Prod.snd) = [] ↔
      ∀ r ∈ l, isLongSubId r.2 = true → relaySafeSubId r.2 ≠ relaySafeSubId s := by
    intro l
    simp only [replacedBy, filter_eq_nil_iff, forall_mem_map, Bool.and_eq_true,
      decide_eq_true_eq, not_and]
  have hnone : SubIdMaps.empty.relayToFull.lookup (relaySafeSubId s) = none := rfl
  rw [hsplit, hnone, Option.or_none, ← hempty after, ← hempty before]
  -- a later id that was replaced alike takes the place
  rcases hafter : replacedBy (relaySafeSubId s) (after.map Prod.snd) with _ | ⟨x, rest⟩
  · simp only [append_nil, true_and]
    by_cases hlong : isLongSubId s = true
    · have hone : replacedBy (relaySafeSubId s) [s] = [s] :=
        filter_cons_of_pos (by simp [hlong])
      rw [hone, List.getLast?_append, List.getLast?_singleton]
      simp [hlong]
    · have hshort : isLongSubId s = false := Bool.eq_false_iff.mpr hlong
      have hone : replacedBy (relaySafeSubId s) [s] = [] :=
        filter_cons_of_neg (by simp [hlong])
      have hself : relaySafeSubId s = s := by rw [relaySafeSubId, if_neg hlong]
      rw [hone, append_nil, hshort]
      simp only [forall_const]
      rcases hb : (replacedBy (relaySafeSubId s) (before.map Prod.snd)).getLast? with _ | y
      · rw [Option.getD_none]
        exact iff_of_true hself (List.getLast?_eq_none_iff.mp hb)
      · rw [Option.getD_some]
        have hy := mem_of_getLast? hb
        refine iff_of_false (fun h => ?_) (fun h => by rw [h] at hy; cases hy)
        -- what stands there is long, and `s` is not
        rw [replacedBy, mem_filter, h, hshort] at hy
        exact Bool.false_ne_true (Bool.and_eq_true_iff.mp hy.2).1
  · refine iff_of_false (fun h => ?_) (fun h => by cases h.1)
    have hne : replacedBy (relaySafeSubId s) (after.map Prod.snd) ≠ [] := by
      rw [hafter]
      exact cons_ne_nil _ _
    rw [← hafter, ← append_assoc, List.getLast?_append_of_ne_nil _ hne,
      List.getLast?_eq_some_getLast hne, Option.getD_some] at h
    have hmem := getLast_mem hne
    rw [h] at hmem
    exact hdistinct (List.mem_filter.mp hmem).1

/-- An id spelled with an escape leads nowhere: the text is no relay id that
was given out, and it is not the subscription's own id. -/
theorem decode_escaped_ne {reqs : List (String × String)} {s : String}
    (hreqs : ∀ r ∈ reqs, serde.IsReq r.1 r.2) {lit : List Piece} (hwf : ∀ p ∈ lit, p.Wf)
    (hvalue : String.ofList (literalValue lit) = relaySafeSubId s) (hplain : ¬ Plain lit) :
    decodeRelaySubId (encodeFrames serde SubIdMaps.empty (reqs.map Prod.fst))
      (String.ofList (literalText lit)) ≠ s := by
  have hback := backslash_mem_of_not_plain hplain
  have htable : replacedBy (String.ofList (literalText lit)) (reqs.map Prod.snd) = [] := by
    refine List.filter_eq_nil_iff.mpr fun id _ h => ?_
    rw [Bool.and_eq_true, decide_eq_true_eq] at h
    refine (relaySafeSubId_chars h.1 (c := '\\') ?_).2.1 rfl
    rwa [h.2, String.toList_ofList]
  have hnone : SubIdMaps.empty.relayToFull.lookup (String.ofList (literalText lit)) = none := rfl
  rw [decodeRelaySubId, lookup_encodeFrames _ _ hreqs, htable, hnone]
  show String.ofList (literalText lit) ≠ s
  rintro rfl
  have hval : literalValue lit = (relaySafeSubId (String.ofList (literalText lit))).toList := by
    rw [← hvalue, String.toList_ofList]
  by_cases hlong : isLongSubId (String.ofList (literalText lit)) = true
  · -- a replaced id is too short to be spelled with 64 characters
    have hascii : ∀ c ∈ literalValue lit, c.toNat < 128 := by
      intro c hc
      rw [hval] at hc
      exact (relaySafeSubId_chars hlong hc).2.2.2
    have hlen := length_literalText_le hwf fun c hc => Nat.lt_trans (hascii c hc) (by decide)
    have hseven := length_relaySafeSubId hlong
    have hbytes := Utf8.length_encode_of_ascii (s := String.ofList (literalText lit)) (by
      rw [String.toList_ofList]
      exact mem_literalText_ascii hwf hascii)
    rw [String.toList_ofList] at hbytes
    rw [isLongSubId, decide_eq_true_eq] at hlong
    rw [← hval] at hseven
    omega
  · rw [relaySafeSubId, if_neg hlong, String.toList_ofList] at hval
    exact hplain ((literalText_eq_value_iff _).mp hval.symm)

/-- **Routing.**  After any number of distinct subscriptions, a frame that
echoes the id sent for `s` is delivered to `s` exactly when its kind and the id
are spelled without escapes, no long id that was replaced by the same relay id
came after `s`, and, for a short `s`, none came before it either. -/
theorem routed_iff (serde : SerdeJson) (hserde : serde.KeepsSubId)
    (before after : List (String × String)) (req s : String)
    (hreqs : ∀ r ∈ before ++ (req, s) :: after, serde.IsReq r.1 r.2)
    (hdistinct : ((before ++ (req, s) :: after).map Prod.snd).Nodup)
    (echo : LiteralFrame) (hecho : echo.Wf)
    (hkind : isSubscriptionKind (String.ofList (literalValue echo.kind)))
    (hid : serde.subId (encodeRelayFrame serde
        (encodeFrames serde SubIdMaps.empty (before.map Prod.fst)) req).1
      = some (String.ofList (literalValue echo.id))) :
    routedSubId
        (encodeFrames serde SubIdMaps.empty ((before ++ (req, s) :: after).map Prod.fst))
        echo.text = some s ↔
      Plain echo.kind ∧ Plain echo.id ∧
      (∀ r ∈ after, isLongSubId r.2 = true → relaySafeSubId r.2 ≠ relaySafeSubId s) ∧
      (isLongSubId s = false →
        ∀ r ∈ before, isLongSubId r.2 = true → relaySafeSubId r.2 ≠ relaySafeSubId s) := by
  obtain ⟨hplain, hescaped⟩ := incomingSubId_echo hecho hkind
  have hvalue : String.ofList (literalValue echo.id) = relaySafeSubId s := by
    have hown := subId_encodeRelayFrame hserde
      (encodeFrames serde SubIdMaps.empty (before.map Prod.fst))
      (hreqs (req, s) (mem_append_right _ mem_cons_self))
    rw [hid] at hown
    exact Option.some.inj hown
  have hafter : s ∉ after.map Prod.snd := by
    rw [map_append, map_cons] at hdistinct
    exact (List.nodup_cons.mp hdistinct.of_append_right).1
  rw [routedSubId]
  by_cases hk : Plain echo.kind
  · rw [hplain hk, Option.map_some, Option.some.injEq, and_iff_right hk]
    by_cases hi : Plain echo.id
    · rw [literalText_of_plain hi, hvalue, and_iff_right hi]
      exact decode_relaySafeSubId_iff hreqs hafter
    · exact iff_of_false (decode_escaped_ne hreqs hecho.id hvalue hi) fun h => hi h.1
  · rw [hescaped hk]
    exact iff_of_false nofun fun h => hk h.1

/-! ### Two ids with one hash -/

/-- A REQ frame with an empty filter, for an id that needs no escape. -/
def reqText (subId : String) : String :=
  String.ofList ("[\"REQ\",\"".toList ++ (subId.toList ++ "\",\x7b\x7d]".toList))

/-- A reader and writer for such frames.  Anything else is written behind a line
feed. -/
def reqSerde : SerdeJson :=
  { fromStr := fun text =>
      let cs := text.toList
      let subId := (cs.drop 8).takeWhile (· ≠ '"')
      if cs.head? = some '\n' then some (.array [.null, .string (String.ofList cs.tail)])
      else if text = reqText (String.ofList subId) then
        some (.array [.string "REQ", .string (String.ofList subId), .object []])
      else none
    toText := fun v =>
      match v with
      | .array (.string kind :: .string subId :: _) =>
        if kind = "REQ" ∧ '"' ∉ subId.toList then reqText subId
        else String.ofList ('\n' :: subId.toList)
      | _ => "" }

theorem reqSerde_fromStr {subId : String} (h : '"' ∉ subId.toList) :
    reqSerde.fromStr (reqText subId)
      = some (.array [.string "REQ", .string subId, .object []]) := by
  have htake : (subId.toList ++ "\",\x7b\x7d]".toList).takeWhile (· ≠ '"') = subId.toList := by
    rw [takeWhile_append_of_pos]
    · simp
    · intro c hc
      rw [decide_eq_true_eq]
      rintro rfl
      exact h hc
  have hlist : (reqText subId).toList
      = '[' :: '"' :: 'R' :: 'E' :: 'Q' :: '"' :: ',' :: '"' ::
        (subId.toList ++ "\",\x7b\x7d]".toList) :=
    String.toList_ofList
  have hdrop : ((reqText subId).toList.drop 8).takeWhile (· ≠ '"') = subId.toList := by
    rw [hlist]
    exact htake
  have hhead : (reqText subId).toList.head? ≠ some '\n' := by
    rw [hlist]
    simp
  unfold reqSerde
  dsimp only
  rw [hdrop, if_neg hhead, String.ofList_toList, if_pos rfl]

theorem reqSerde_keepsSubId : reqSerde.KeepsSubId := by
  intro kind subId rest
  have hwrite : reqSerde.toText (.array (.string kind :: .string subId :: rest))
      = if kind = "REQ" ∧ '"' ∉ subId.toList then reqText subId
        else String.ofList ('\n' :: subId.toList) := rfl
  rw [hwrite, SerdeJson.subId]
  by_cases h : kind = "REQ" ∧ '"' ∉ subId.toList
  · rw [if_pos h, reqSerde_fromStr h.2]
  · have hread : reqSerde.fromStr (String.ofList ('\n' :: subId.toList))
        = some (.array [.null, .string subId]) := by
      simp only [reqSerde, String.toList_ofList, List.head?_cons, if_true, tail_cons,
        String.ofList_toList]
    rw [if_neg h, hread]

theorem reqSerde_isReq {subId : String} (h : '"' ∉ subId.toList) :
    reqSerde.IsReq (reqText subId) subId :=
  ⟨_, reqSerde_fromStr h⟩

/-- A frame about a subscription, written without escapes. -/
def plainEcho (kind subId : String) : LiteralFrame :=
  { beforeArray := [], beforeKind := [], kind := kind.toList.map .plain, afterKind := [],
    beforeId := [], id := subId.toList.map .plain, tail := ",\x7b\x7d]".toList }

theorem literalValue_plain (cs : List Char) : literalValue (cs.map .plain) = cs := by
  rw [literalValue, map_map]
  exact map_id _

theorem plain_map (cs : List Char) : Plain (cs.map .plain) := by
  intro p hp
  obtain ⟨c, -, rfl⟩ := List.mem_map.mp hp
  rfl

theorem plainEcho_wf (kind subId : String)
    (hkind : ∀ c ∈ kind.toList, c ≠ '"' ∧ c ≠ '\\' ∧ 0x20 ≤ c.toNat)
    (hid : ∀ c ∈ subId.toList, c ≠ '"' ∧ c ≠ '\\' ∧ 0x20 ≤ c.toNat) :
    (plainEcho kind subId).Wf := by
  refine ⟨nofun, nofun, ?_, nofun, nofun, ?_⟩
  · intro p hp
    obtain ⟨c, hc, rfl⟩ := List.mem_map.mp hp
    exact hkind c hc
  · intro p hp
    obtain ⟨c, hc, rfl⟩ := List.mem_map.mp hp
    exact hid c hc

theorem routed_of_same_hash {a b : String} (ha : isLongSubId a = true)
    (hb : isLongSubId b = true) (hqa : '"' ∉ a.toList) (hqb : '"' ∉ b.toList)
    (hhash : subIdHash b = subIdHash a) :
    (plainEcho "EVENT" (relaySafeSubId a)).Wf ∧
      reqSerde.subId (encodeRelayFrame reqSerde SubIdMaps.empty (reqText a)).1
        = some (relaySafeSubId a) ∧
      routedSubId (encodeFrames reqSerde SubIdMaps.empty [reqText a, reqText b])
        (plainEcho "EVENT" (relaySafeSubId a)).text = some b := by
  have hsame : relaySafeSubId b = relaySafeSubId a := by
    rw [relaySafeSubId, relaySafeSubId, if_pos ha, if_pos hb, hhash]
  have hreqs : ∀ r ∈ [(reqText a, a), (reqText b, b)], reqSerde.IsReq r.1 r.2 := by
    intro r hr
    simp only [mem_cons, not_mem_nil, or_false] at hr
    rcases hr with rfl | rfl
    · exact reqSerde_isReq hqa
    · exact reqSerde_isReq hqb
  have hwf : (plainEcho "EVENT" (relaySafeSubId a)).Wf := by
    refine plainEcho_wf _ _ (by simp) fun c hc => ?_
    obtain ⟨h1, h2, h3, -⟩ := relaySafeSubId_chars ha hc
    exact ⟨h1, h2, h3⟩
  refine ⟨hwf, subId_encodeRelayFrame reqSerde_keepsSubId _ (reqSerde_isReq hqa), ?_⟩
  have hkind : isSubscriptionKind (String.ofList
      (literalValue (plainEcho "EVENT" (relaySafeSubId a)).kind)) := by
    refine .inl ?_
    rw [plainEcho, literalValue_plain, String.ofList_toList]
  have hid := (incomingSubId_echo hwf hkind).1 (plain_map _)
  have htext : String.ofList (literalText (plainEcho "EVENT" (relaySafeSubId a)).id)
      = relaySafeSubId a := by
    rw [plainEcho, literalText_of_plain (plain_map _), literalValue_plain, String.ofList_toList]
  have hlook := lookup_encodeFrames [(reqText a, a), (reqText b, b)] SubIdMaps.empty hreqs
    (relaySafeSubId a)
  have hreplaced : replacedBy (relaySafeSubId a) [a, b] = [a, b] := by
    simp [replacedBy, ha, hb, hsame]
  rw [routedSubId, hid, htext, Option.map_some, decodeRelaySubId]
  simp only [map_cons, map_nil] at hlook
  rw [hlook, hreplaced]
  rfl

def collidingId (first : String) : String :=
  String.ofList (first.toList ++ (List.replicate 31 ['A', 'a']).flatten)

/-- Two ids with the same hash. -/
theorem collidingIds_misrouted :
    reqSerde.KeepsSubId ∧ collidingId "BB" ≠ collidingId "Aa" ∧
      reqSerde.IsReq (reqText (collidingId "Aa")) (collidingId "Aa") ∧
      reqSerde.IsReq (reqText (collidingId "BB")) (collidingId "BB") ∧
      (plainEcho "EVENT" (relaySafeSubId (collidingId "Aa"))).Wf ∧
      reqSerde.subId (encodeRelayFrame reqSerde SubIdMaps.empty (reqText (collidingId "Aa"))).1
        = some (relaySafeSubId (collidingId "Aa")) ∧
      routedSubId (encodeFrames reqSerde SubIdMaps.empty
          [reqText (collidingId "Aa"), reqText (collidingId "BB")])
        (plainEcho "EVENT" (relaySafeSubId (collidingId "Aa"))).text
          = some (collidingId "BB") := by
  refine ⟨reqSerde_keepsSubId, by decide +kernel, reqSerde_isReq (by decide +kernel),
    reqSerde_isReq (by decide +kernel), ?_⟩
  exact routed_of_same_hash (by decide +kernel) (by decide +kernel) (by decide +kernel)
    (by decide +kernel) (by decide +kernel)

/-- A subscription with a long id, and one with a short id after it. -/
theorem routed_iff_long :
    routedSubId (encodeFrames reqSerde SubIdMaps.empty
        [reqText (collidingId "Aa"), reqText "sub1"])
      (plainEcho "EOSE" (relaySafeSubId (collidingId "Aa"))).text = some (collidingId "Aa") := by
  have hquote : '"' ∉ (collidingId "Aa").toList := by decide +kernel
  have hlong : isLongSubId (collidingId "Aa") = true := by decide +kernel
  have hshort : isLongSubId "sub1" = false := by decide +kernel
  have hne : collidingId "Aa" ≠ "sub1" := by decide +kernel
  generalize collidingId "Aa" = long at hquote hlong hne ⊢
  have hvalue : ∀ s : String, String.ofList (literalValue (s.toList.map .plain)) = s := by
    intro s
    rw [literalValue_plain, String.ofList_toList]
  have hreqs : ∀ r ∈ [(reqText long, long), (reqText "sub1", "sub1")],
      reqSerde.IsReq r.1 r.2 := by
    intro r hr
    simp only [mem_cons, not_mem_nil, or_false] at hr
    rcases hr with rfl | rfl
    · exact reqSerde_isReq hquote
    · exact reqSerde_isReq (by decide)
  have hid : reqSerde.subId (encodeRelayFrame reqSerde
      (encodeFrames reqSerde SubIdMaps.empty []) (reqText long)).1
      = some (String.ofList (literalValue (plainEcho "EOSE" (relaySafeSubId long)).id)) := by
    rw [subId_encodeRelayFrame reqSerde_keepsSubId _ (reqSerde_isReq hquote)]
    exact congrArg some (hvalue (relaySafeSubId long)).symm
  have hwf : (plainEcho "EOSE" (relaySafeSubId long)).Wf := by
    refine plainEcho_wf _ _ (by simp) fun c hc => ?_
    obtain ⟨h1, h2, h3, -⟩ := relaySafeSubId_chars hlong hc
    exact ⟨h1, h2, h3⟩
  refine (routed_iff reqSerde reqSerde_keepsSubId [] [(reqText "sub1", "sub1")]
    (reqText long) long hreqs (by simpa using hne) _ hwf (.inr (.inl (hvalue "EOSE"))) hid).mpr
    ⟨plain_map _, plain_map _, fun r hr hr' => ?_, fun h => ?_⟩
  · rw [List.mem_singleton.mp hr, hshort] at hr'
    exact nomatch hr'
  · rw [hlong] at h
    exact nomatch h

end Nipworker
