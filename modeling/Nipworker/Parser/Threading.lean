/-
Threads of notes (`parser/kind1.rs`: `get_immediate_parent`, `get_thread_root`,
`resolve_author_sync`).

A note names the thread it is in by `e` tags.  Marked tags say themselves what they
are (`root`, `reply`, `mention`); of unmarked ones the first is the root and the
last the parent.  The author of the event named may stand in the tag: after the
relay, or after the marker when there is one.
-/
import Mathlib.Data.List.Induction
import Mathlib.Data.Nat.Find
import Mathlib.Tactic.Common

namespace Nipworker

open List Option
namespace Threading

/-! ### The two choices -/

/-- What an `e` tag points to. -/
structure EventPointer where
  id : String
  relays : List String
  author : Option String
  kind : Option UInt64
  deriving DecidableEq

/-- `is_hex64`; what is no ASCII is none of these digits, so characters are counted
for bytes. -/
def isHex64 (s : String) : Bool :=
  s.toList.length = 64 &&
    s.toList.all fun c => ('0' ≤ c && c ≤ '9') || ('a' ≤ c && c ≤ 'f')

def looksLikeMarker (s : String) : Bool := s == "reply" || s == "root" || s == "mention"

def isTag (name : String) (tag : List String) : Bool :=
  2 ≤ tag.length && tag[0]? == some name

/-- An `e` tag with a marker. -/
def marked (marker : String) (tag : List String) : Bool :=
  isTag "e" tag && tag[3]? == some marker

/-- `resolve_author_sync`, from its second step: the `p` tag at the rank of the chosen
`e` tag among the `e` tags; for the first one also the first `p` tag. -/
def authorByRank (tags : List (List String)) (chosen : ℕ) : Option String :=
  let eRank := (tags.take chosen).countP (isTag "e")
  let pTags := tags.filter (isTag "p")
  (pTags[eRank]?.bind (·[1]?)).or
    (if eRank = 0 then pTags[0]?.bind (·[1]?) else none)

def resolveAuthorSync (tags : List (List String)) (chosen : ℕ) : Option String :=
  match tags[chosen]? with
  | none => none
  | some eTag =>
    match eTag[3]? with
    | none => authorByRank tags chosen
    | some candidate =>
      if isHex64 candidate && !looksLikeMarker candidate then some candidate
      else authorByRank tags chosen

/-- The relays of a pointer: that of the tag, if it has one. -/
def relaysOf (tag : List String) : List String := (tag[2]?.filter (· ≠ "")).toList

def pointerAt (tags : List (List String)) (chosen : ℕ) : Option EventPointer :=
  match tags[chosen]? with
  | none => none
  | some eTag => eTag[1]?.map fun id =>
    { id, relays := relaysOf eTag, author := resolveAuthorSync tags chosen, kind := none }

/-- The loop of `get_immediate_parent`: the last `reply` and the last `e` tag. -/
def parentScan (tags : List (List String)) : Option ℕ × Option ℕ :=
  tags.zipIdx.foldl
    (fun acc entry =>
      if isTag "e" entry.1 then
        (if entry.1[3]? = some "reply" then some entry.2 else acc.1, some entry.2)
      else acc)
    (none, none)

/-- `chosen_idx` of `get_immediate_parent`. -/
def parentIdx (tags : List (List String)) : Option ℕ :=
  (parentScan tags).1.or (parentScan tags).2

/-- The choice of the parent. -/
def getImmediateParent (tags : List (List String)) : Option EventPointer :=
  (parentIdx tags).bind (pointerAt tags)

/-- The loop of `get_thread_root` from an index on, with the first `e` tag so far; it
ends at the first `root`. -/
def rootScan : ℕ → Option ℕ → List (List String) → Option ℕ × Option ℕ
  | _, first, [] => (none, first)
  | i, first, tag :: rest =>
    if isTag "e" tag then
      if tag[3]? = some "root" then (some i, first.or (some i))
      else rootScan (i + 1) (first.or (some i)) rest
    else rootScan (i + 1) first rest

/-- `chosen_idx` of `get_thread_root`. -/
def threadRootIdx (tags : List (List String)) : Option ℕ :=
  (rootScan 0 none tags).1.or (rootScan 0 none tags).2

/-- The choice of the root, over the index of the tag chosen. -/
def getThreadRoot (tags : List (List String)) : Option EventPointer :=
  (threadRootIdx tags).bind (pointerAt tags)

/-! ### First and last entries -/

section FirstLast

variable {α : Type} {P : α → Bool} {xs : List α} {i : ℕ}

/-- The item at the index has the property. -/
def HasAt (P : α → Bool) (xs : List α) (i : ℕ) : Prop := ∃ x, xs[i]? = some x ∧ P x = true

/-- The first index with the property. -/
def IsFirst (P : α → Bool) (xs : List α) (i : ℕ) : Prop :=
  HasAt P xs i ∧ ∀ j < i, ¬ HasAt P xs j

/-- The last index with the property. -/
def IsLast (P : α → Bool) (xs : List α) (i : ℕ) : Prop :=
  HasAt P xs i ∧ ∀ j, i < j → ¬ HasAt P xs j

theorem HasAt.lt (h : HasAt P xs i) : i < xs.length := by
  obtain ⟨x, hx, -⟩ := h
  exact (List.getElem?_eq_some_iff.mp hx).1

variable {x : α}

theorem hasAt_cons_zero : HasAt P (x :: xs) 0 ↔ P x = true := by
  constructor
  · rintro ⟨y, hy, hP⟩
    rw [List.getElem?_cons_zero, some.injEq] at hy
    rw [hy]
    exact hP
  · intro hP
    exact ⟨x, rfl, hP⟩

theorem hasAt_cons_succ : HasAt P (x :: xs) (i + 1) ↔ HasAt P xs i := by
  rw [HasAt, HasAt, List.getElem?_cons_succ]

theorem isFirst_cons :
    IsFirst P (x :: xs) i ↔
      (P x = true ∧ i = 0) ∨ (P x = false ∧ ∃ j, i = j + 1 ∧ IsFirst P xs j) := by
  constructor
  · rintro ⟨hat, hbefore⟩
    cases i with
    | zero => exact .inl ⟨hasAt_cons_zero.mp hat, rfl⟩
    | succ j =>
      refine .inr ⟨?_, j, rfl, hasAt_cons_succ.mp hat, fun k hk hPk => ?_⟩
      · have := hbefore 0 (Nat.succ_pos j)
        rwa [hasAt_cons_zero, Bool.not_eq_true] at this
      · exact hbefore (k + 1) (Nat.succ_lt_succ hk) (hasAt_cons_succ.mpr hPk)
  · rintro (⟨hP, rfl⟩ | ⟨hP, j, rfl, hat, hbefore⟩)
    · exact ⟨hasAt_cons_zero.mpr hP, fun j hj => absurd hj (Nat.not_lt_zero j)⟩
    · refine ⟨hasAt_cons_succ.mpr hat, fun k hk hPk => ?_⟩
      cases k with
      | zero =>
        rw [hasAt_cons_zero, hP] at hPk
        exact Bool.false_ne_true hPk
      | succ k => exact hbefore k (Nat.lt_of_succ_lt_succ hk) (hasAt_cons_succ.mp hPk)

theorem hasAt_concat : HasAt P (xs ++ [x]) i ↔ HasAt P xs i ∨ (i = xs.length ∧ P x = true) := by
  constructor
  · rintro ⟨y, hy, hP⟩
    by_cases hi : i < xs.length
    · rw [List.getElem?_append_left hi] at hy
      exact .inl ⟨y, hy, hP⟩
    · rw [List.getElem?_append_right (Nat.le_of_not_lt hi)] at hy
      have hzero : i - xs.length = 0 := by
        have := (List.getElem?_eq_some_iff.mp hy).1
        rw [length_singleton] at this
        omega
      rw [hzero, List.getElem?_cons_zero, some.injEq] at hy
      exact .inr ⟨by omega, hy ▸ hP⟩
  · rintro (h | ⟨rfl, hP⟩)
    · obtain ⟨y, hy, hP⟩ := h
      refine ⟨y, ?_, hP⟩
      rw [List.getElem?_append_left (List.getElem?_eq_some_iff.mp hy).1]
      exact hy
    · exact ⟨x, List.getElem?_concat_length, hP⟩

theorem isLast_concat :
    IsLast P (xs ++ [x]) i ↔ (P x = true ∧ i = xs.length) ∨ (P x = false ∧ IsLast P xs i) := by
  constructor
  · rintro ⟨hat, hafter⟩
    rcases hasAt_concat.mp hat with hold | ⟨hi, hP⟩
    · refine .inr ⟨?_, hold, fun j hj hPj => hafter j hj (hasAt_concat.mpr (.inl hPj))⟩
      have := hafter xs.length hold.lt
      rw [hasAt_concat] at this
      exact Bool.eq_false_iff.mpr fun hP => this (.inr ⟨rfl, hP⟩)
    · exact .inl ⟨hP, hi⟩
  · rintro (⟨hP, rfl⟩ | ⟨hP, hat, hafter⟩)
    · refine ⟨hasAt_concat.mpr (.inr ⟨rfl, hP⟩), fun j hj hPj => ?_⟩
      have := hPj.lt
      rw [length_append, length_singleton] at this
      omega
    · refine ⟨hasAt_concat.mpr (.inl hat), fun j hj hPj => ?_⟩
      rcases hasAt_concat.mp hPj with hold | ⟨-, hPx⟩
      · exact hafter j hj hold
      · rw [hP] at hPx
        exact Bool.false_ne_true hPx

theorem exists_isFirst (h : ∃ i, HasAt P xs i) : ∃ i, IsFirst P xs i := by
  classical
  exact ⟨Nat.find h, Nat.find_spec h, fun j hj => Nat.find_min h hj⟩

theorem exists_isLast (h : ∃ i, HasAt P xs i) : ∃ i, IsLast P xs i := by
  induction xs using List.reverseRecOn with
  | nil =>
    obtain ⟨i, hi⟩ := h
    exact absurd hi.lt (Nat.not_lt_zero i)
  | append_singleton xs x ih =>
    by_cases hP : P x = true
    · exact ⟨xs.length, isLast_concat.mpr (.inl ⟨hP, rfl⟩)⟩
    · rw [Bool.not_eq_true] at hP
      obtain ⟨i, hi⟩ := h
      rcases hasAt_concat.mp hi with hold | ⟨-, hPx⟩
      · obtain ⟨j, hj⟩ := ih ⟨i, hold⟩
        exact ⟨j, isLast_concat.mpr (.inr ⟨hP, hj⟩)⟩
      · rw [hP] at hPx
        exact absurd hPx Bool.false_ne_true

theorem getElem?_filter_iff {n : ℕ} :
    (xs.filter P)[n]? = some x ↔
      ∃ j, xs[j]? = some x ∧ P x = true ∧ (xs.take j).countP P = n := by
  induction xs generalizing n with
  | nil => simp
  | cons y ys ih =>
    by_cases hP : P y = true
    · rw [filter_cons_of_pos hP]
      cases n with
      | zero =>
        rw [List.getElem?_cons_zero]
        constructor
        · intro h
          rw [some.injEq] at h
          exact ⟨0, by rw [List.getElem?_cons_zero, h], h ▸ hP, rfl⟩
        · rintro ⟨j, hj, -, hcount⟩
          cases j with
          | zero => exact hj
          | succ j =>
            rw [take_succ_cons, countP_cons_of_pos hP] at hcount
            omega
      | succ n =>
        rw [List.getElem?_cons_succ, ih]
        constructor
        · rintro ⟨j, hj, hPx, hcount⟩
          refine ⟨j + 1, hj, hPx, ?_⟩
          rw [take_succ_cons, countP_cons_of_pos hP, hcount]
        · rintro ⟨j, hj, hPx, hcount⟩
          cases j with
          | zero =>
            rw [take_zero, countP_nil] at hcount
            omega
          | succ j =>
            rw [take_succ_cons, countP_cons_of_pos hP] at hcount
            exact ⟨j, hj, hPx, by omega⟩
    · rw [filter_cons_of_neg hP, ih]
      constructor
      · rintro ⟨j, hj, hPx, hcount⟩
        refine ⟨j + 1, hj, hPx, ?_⟩
        rw [take_succ_cons, countP_cons_of_neg hP, hcount]
      · rintro ⟨j, hj, hPx, hcount⟩
        cases j with
        | zero =>
          rw [List.getElem?_cons_zero, some.injEq] at hj
          rw [hj] at hP
          exact absurd hPx hP
        | succ j =>
          rw [take_succ_cons, countP_cons_of_neg hP] at hcount
          exact ⟨j, hj, hPx, hcount⟩

end FirstLast

/-! ### Which tag is chosen -/

section Chosen

variable (tags : List (List String)) (i : ℕ)

theorem marked_eq (marker : String) (tag : List String) (h : isTag "e" tag = true) :
    marked marker tag = decide (tag[3]? = some marker) := by
  rw [marked, h, Bool.true_and]
  exact beq_eq_decide _ _

theorem rootScan_spec (n : ℕ) (first : Option ℕ) :
    (rootScan n first tags).1 = some i ↔ ∃ j, i = n + j ∧ IsFirst (marked "root") tags j := by
  induction tags generalizing n first with
  | nil =>
    constructor
    · intro h
      rw [rootScan] at h
      exact absurd h.symm (some_ne_none i)
    · rintro ⟨j, -, hj, -⟩
      exact absurd hj.lt (Nat.not_lt_zero j)
  | cons tag rest ih =>
    have hnext (first : Option ℕ) (hP : marked "root" tag = false) :
        (rootScan (n + 1) first rest).1 = some i ↔
          ∃ j, i = n + j ∧ IsFirst (marked "root") (tag :: rest) j := by
      rw [ih]
      constructor
      · rintro ⟨j, rfl, hj⟩
        exact ⟨j + 1, by omega, isFirst_cons.mpr (.inr ⟨hP, j, rfl, hj⟩)⟩
      · rintro ⟨j, rfl, hj⟩
        rcases isFirst_cons.mp hj with ⟨hP', -⟩ | ⟨-, k, rfl, hk⟩
        · rw [hP] at hP'
          exact absurd hP' Bool.false_ne_true
        · exact ⟨k, by omega, hk⟩
    rw [rootScan]
    by_cases hE : isTag "e" tag = true
    · rw [if_pos hE]
      by_cases hroot : tag[3]? = some "root"
      · rw [if_pos hroot]
        have hP : marked "root" tag = true := by rw [marked_eq _ _ hE, decide_eq_true hroot]
        constructor
        · intro h
          rw [some.injEq] at h
          exact ⟨0, by omega, isFirst_cons.mpr (.inl ⟨hP, rfl⟩)⟩
        · rintro ⟨j, rfl, hj⟩
          rcases isFirst_cons.mp hj with ⟨-, rfl⟩ | ⟨hP', -⟩
          · rfl
          · rw [hP] at hP'
            exact absurd hP'.symm Bool.false_ne_true
      · rw [if_neg hroot]
        exact hnext _ (by rw [marked_eq _ _ hE, decide_eq_false hroot])
    · rw [if_neg hE]
      exact hnext _ (by rw [marked, Bool.eq_false_iff.mpr hE, Bool.false_and])

theorem rootScan_first (n : ℕ) (first : Option ℕ) (hnone : ¬ ∃ j, HasAt (marked "root") tags j) :
    (rootScan n first tags).2 = some i ↔
      first = some i ∨ (first = none ∧ ∃ j, i = n + j ∧ IsFirst (isTag "e") tags j) := by
  induction tags generalizing n first with
  | nil =>
    rw [rootScan]
    constructor
    · intro h
      exact .inl h
    · rintro (h | ⟨-, j, -, hj, -⟩)
      · exact h
      · exact absurd hj.lt (Nat.not_lt_zero j)
  | cons tag rest ih =>
    have hrest : ¬ ∃ j, HasAt (marked "root") rest j := fun ⟨j, hj⟩ =>
      hnone ⟨j + 1, hasAt_cons_succ.mpr hj⟩
    have hP : marked "root" tag ≠ true := fun hP => hnone ⟨0, hasAt_cons_zero.mpr hP⟩
    rw [rootScan]
    by_cases hE : isTag "e" tag = true
    · rw [if_pos hE]
      have hroot : tag[3]? ≠ some "root" := fun hroot =>
        hP (by rw [marked_eq _ _ hE, decide_eq_true hroot])
      rw [if_neg hroot, ih _ _ hrest]
      -- from here on there is a first tag: the one before, or this one
      cases first with
      | some k => simp
      | none =>
        simp only [none_or, some.injEq, reduceCtorEq, false_and, or_false,
          false_or, true_and]
        constructor
        · intro h
          exact ⟨0, h.symm, isFirst_cons.mpr (.inl ⟨hE, rfl⟩)⟩
        · rintro ⟨j, rfl, hj⟩
          rcases isFirst_cons.mp hj with ⟨-, rfl⟩ | ⟨hE', -⟩
          · rfl
          · rw [hE] at hE'
            exact absurd hE'.symm Bool.false_ne_true
    · rw [if_neg hE, ih _ _ hrest]
      rw [Bool.not_eq_true] at hE
      constructor
      · rintro (h | ⟨h, j, rfl, hj⟩)
        · exact .inl h
        · exact .inr ⟨h, j + 1, by omega, isFirst_cons.mpr (.inr ⟨hE, j, rfl, hj⟩)⟩
      · rintro (h | ⟨h, j, rfl, hj⟩)
        · exact .inl h
        · rcases isFirst_cons.mp hj with ⟨hE', -⟩ | ⟨-, k, rfl, hk⟩
          · rw [hE] at hE'
            exact absurd hE' Bool.false_ne_true
          · exact .inr ⟨h, k, by omega, hk⟩

theorem threadRootIdx_eq_some_iff :
    threadRootIdx tags = some i ↔
      IsFirst (marked "root") tags i ∨
        ((¬ ∃ j, HasAt (marked "root") tags j) ∧ IsFirst (isTag "e") tags i) := by
  have hscan (k : ℕ) : (rootScan 0 none tags).1 = some k ↔ IsFirst (marked "root") tags k := by
    rw [rootScan_spec]
    constructor
    · rintro ⟨j, rfl, hj⟩
      rwa [Nat.zero_add]
    · intro hk
      exact ⟨k, (Nat.zero_add k).symm, hk⟩
  rw [threadRootIdx]
  by_cases hroot : ∃ j, HasAt (marked "root") tags j
  · obtain ⟨k, hk⟩ := exists_isFirst hroot
    rw [(hscan k).mpr hk, some_or, ← (hscan k).mpr hk, hscan]
    constructor
    · intro h
      exact .inl h
    · rintro (h | ⟨h, -⟩)
      · exact h
      · exact absurd hroot h
  · have hnone : (rootScan 0 none tags).1 = none := by
      rw [eq_none_iff_forall_ne_some]
      intro k hk
      exact hroot ⟨k, ((hscan k).mp hk).1⟩
    rw [hnone, none_or, rootScan_first tags i 0 none hroot]
    constructor
    · rintro (h | ⟨-, j, rfl, hj⟩)
      · exact absurd h.symm (some_ne_none i)
      · rw [Nat.zero_add]
        exact .inr ⟨hroot, hj⟩
    · rintro (h | ⟨-, h⟩)
      · exact absurd ⟨i, h.1⟩ hroot
      · exact .inr ⟨rfl, i, (Nat.zero_add i).symm, h⟩

theorem parentScan_spec :
    ((parentScan tags).1 = some i ↔ IsLast (marked "reply") tags i) ∧
      ((parentScan tags).2 = some i ↔ IsLast (isTag "e") tags i) := by
  induction tags using List.reverseRecOn with
  | nil =>
    refine ⟨⟨fun h => absurd h.symm (some_ne_none i), fun h => ?_⟩,
      ⟨fun h => absurd h.symm (some_ne_none i), fun h => ?_⟩⟩
    · exact absurd h.1.lt (Nat.not_lt_zero i)
    · exact absurd h.1.lt (Nat.not_lt_zero i)
  | append_singleton tags tag ih =>
    have hstep : parentScan (tags ++ [tag]) =
        if isTag "e" tag then
          (if tag[3]? = some "reply" then some tags.length else (parentScan tags).1,
            some tags.length)
        else parentScan tags := by
      rw [parentScan, zipIdx_append, foldl_append, Nat.zero_add]
      rfl
    rw [hstep, isLast_concat, isLast_concat]
    by_cases hE : isTag "e" tag = true
    · rw [if_pos hE]
      refine ⟨?_, by simp [hE, eq_comm]⟩
      by_cases hreply : tag[3]? = some "reply"
      · have hP : marked "reply" tag = true := by rw [marked_eq _ _ hE, decide_eq_true hreply]
        simp [hreply, hP, eq_comm]
      · have hP : marked "reply" tag = false := by
          rw [marked_eq _ _ hE, decide_eq_false hreply]
        simp only [if_neg hreply, hP, Bool.false_eq_true, false_and, true_and, false_or]
        exact ih.1
    · rw [if_neg hE]
      rw [Bool.not_eq_true] at hE
      have hP : marked "reply" tag = false := by rw [marked, hE, Bool.false_and]
      simp only [hE, hP, Bool.false_eq_true, false_and, true_and, false_or]
      exact ih

theorem parentIdx_eq_some_iff :
    parentIdx tags = some i ↔
      IsLast (marked "reply") tags i ∨
        ((¬ ∃ j, HasAt (marked "reply") tags j) ∧ IsLast (isTag "e") tags i) := by
  rw [parentIdx]
  by_cases hreply : ∃ j, HasAt (marked "reply") tags j
  · obtain ⟨k, hk⟩ := exists_isLast hreply
    have hscan := (parentScan_spec tags k).1.mpr hk
    rw [hscan, some_or, ← hscan, (parentScan_spec tags i).1]
    constructor
    · intro h
      exact .inl h
    · rintro (h | ⟨h, -⟩)
      · exact h
      · exact absurd hreply h
  · have hnone : (parentScan tags).1 = none := by
      rw [eq_none_iff_forall_ne_some]
      intro k hk
      exact hreply ⟨k, ((parentScan_spec tags k).1.mp hk).1⟩
    rw [hnone, none_or, (parentScan_spec tags i).2]
    constructor
    · intro h
      exact .inr ⟨hreply, h⟩
    · rintro (h | ⟨-, h⟩)
      · exact absurd ⟨i, h.1⟩ hreply
      · exact h

end Chosen

/-! ### What the two choices are to be -/

/-- The author named in an `e` tag: after the marker, or in its place. -/
def ownPubkey (tag : List String) : Option String :=
  match tag[3]? with
  | none => none
  | some third =>
    if looksLikeMarker third then tag[4]?.filter isHex64 else some third |>.filter isHex64

/-- The pointer is what the tag says. -/
def PointsTo (tags : List (List String)) (i : ℕ) (pointer : EventPointer) : Prop :=
  ∃ tag, tags[i]? = some tag ∧ tag[1]? = some pointer.id ∧ pointer.relays = relaysOf tag ∧
    ∀ pubkey, ownPubkey tag = some pubkey → pointer.author = some pubkey

/-- A choice gives a pointer to the tag chosen, and none when no tag is chosen. -/
def Points (tags : List (List String)) (chosen : Option ℕ) (result : Option EventPointer) :
    Prop :=
  (chosen = none → result = none) ∧
    ∀ i, chosen = some i → ∃ pointer, result = some pointer ∧ PointsTo tags i pointer

/-- Some `e` tag carries a marker. -/
def SomeMarked (tags : List (List String)) : Prop :=
  ∃ marker i, looksLikeMarker marker = true ∧ HasAt (marked marker) tags i

/-- The root and the parent are the tags marked so, never a mention; without markers
they are the first and the last `e` tag; and the pointers say what the tags say. -/
structure Threaded (tags : List (List String)) : Prop where
  root_marked : (∃ i, HasAt (marked "root") tags i) →
    ∃ i, threadRootIdx tags = some i ∧ HasAt (marked "root") tags i
  parent_reply : (∃ i, HasAt (marked "reply") tags i) →
    ∃ i, parentIdx tags = some i ∧ HasAt (marked "reply") tags i
  parent_root : (¬ ∃ i, HasAt (marked "reply") tags i) → (∃ i, HasAt (marked "root") tags i) →
    ∃ i, parentIdx tags = some i ∧ HasAt (marked "root") tags i
  no_mention : ∀ i, HasAt (marked "mention") tags i →
    threadRootIdx tags ≠ some i ∧ parentIdx tags ≠ some i
  positional : ¬ SomeMarked tags → ∀ i,
    (IsFirst (isTag "e") tags i → threadRootIdx tags = some i) ∧
      (IsLast (isTag "e") tags i → parentIdx tags = some i)
  root_points : Points tags (threadRootIdx tags) (getThreadRoot tags)
  parent_points : Points tags (parentIdx tags) (getImmediateParent tags)

/-! ### The tags on which they are so -/

/-- The `p` tag at the rank of an `e` tag names the author that the tag names after its
marker. -/
def AuthorAtRank (tags : List (List String)) (i : ℕ) : Prop :=
  ∀ tag marker pubkey, tags[i]? = some tag → tag[3]? = some marker →
    looksLikeMarker marker = true → tag[4]? = some pubkey → isHex64 pubkey = true →
      ∃ j p, tags[j]? = some p ∧ isTag "p" p = true ∧ p[1]? = some pubkey ∧
        (tags.take j).countP (isTag "p") = (tags.take i).countP (isTag "e")

structure MarkersRead (tags : List (List String)) : Prop where
  first : (¬ ∃ i, HasAt (marked "root") tags i) → ∀ i, IsFirst (isTag "e") tags i →
    ¬ HasAt (marked "mention") tags i
  last : (¬ ∃ i, HasAt (marked "reply") tags i) → ∀ i, IsLast (isTag "e") tags i →
    ¬ HasAt (marked "mention") tags i ∧
      ((∃ j, HasAt (marked "root") tags j) → HasAt (marked "root") tags i)
  root_author : ∀ i, IsFirst (marked "root") tags i ∨
      ((¬ ∃ j, HasAt (marked "root") tags j) ∧ IsFirst (isTag "e") tags i) →
    AuthorAtRank tags i
  parent_author : ∀ i, IsLast (marked "reply") tags i ∨
      ((¬ ∃ j, HasAt (marked "reply") tags j) ∧ IsLast (isTag "e") tags i) →
    AuthorAtRank tags i

section Read

variable {tags : List (List String)} {i : ℕ}

theorem authorByRank_eq_some_iff {pubkey : String} :
    authorByRank tags i = some pubkey ↔
      ∃ j p, tags[j]? = some p ∧ isTag "p" p = true ∧ p[1]? = some pubkey ∧
        (tags.take j).countP (isTag "p") = (tags.take i).countP (isTag "e") := by
  have hrank (n : ℕ) : (tags.filter (isTag "p"))[n]?.bind (·[1]?) = some pubkey ↔
      ∃ j p, tags[j]? = some p ∧ isTag "p" p = true ∧ p[1]? = some pubkey ∧
        (tags.take j).countP (isTag "p") = n := by
    rw [bind_eq_some_iff]
    constructor
    · rintro ⟨p, hp, hvalue⟩
      obtain ⟨j, hj, hP, hcount⟩ := getElem?_filter_iff.mp hp
      exact ⟨j, p, hj, hP, hvalue, hcount⟩
    · rintro ⟨j, p, hj, hP, hvalue, hcount⟩
      exact ⟨p, getElem?_filter_iff.mpr ⟨j, hj, hP, hcount⟩, hvalue⟩
  rw [← hrank, authorByRank]
  -- the first `p` tag for the first `e` tag is the `p` tag at its rank
  by_cases hzero : (tags.take i).countP (isTag "e") = 0
  · rw [hzero, if_pos rfl, Option.or_self]
  · rw [if_neg hzero, or_none]

theorem author_iff {tag : List String} (htag : tags[i]? = some tag) :
    (∀ pubkey, ownPubkey tag = some pubkey → resolveAuthorSync tags i = some pubkey) ↔
      AuthorAtRank tags i := by
  rw [resolveAuthorSync, htag, ownPubkey]
  cases hthird : tag[3]? with
  | none =>
    refine ⟨fun _ t marker pubkey ht hmarker => ?_, fun _ pubkey h => ?_⟩
    · rw [htag, some.injEq] at ht
      rw [← ht, hthird] at hmarker
      exact absurd hmarker.symm (some_ne_none marker)
    · exact absurd h.symm (some_ne_none pubkey)
  | some third =>
    by_cases hmarker : looksLikeMarker third = true
    · simp only [hthird, hmarker, if_true, Bool.not_true, Bool.and_false, Bool.false_eq_true, if_false,
        filter_eq_some_iff]
      constructor
      · intro h t marker pubkey ht hthird' _ hpubkey hhex
        rw [htag, some.injEq] at ht
        rw [← ht] at hpubkey
        exact authorByRank_eq_some_iff.mp (h pubkey ⟨hpubkey, hhex⟩)
      · rintro h pubkey ⟨hpubkey, hhex⟩
        exact authorByRank_eq_some_iff.mpr
          (h tag third pubkey htag hthird hmarker hpubkey hhex)
    · rw [Bool.not_eq_true] at hmarker
      simp only [hthird, hmarker, Bool.not_false, Bool.and_true, Bool.false_eq_true, if_false,
        filter_eq_some_iff, some.injEq]
      constructor
      · intro _ t marker pubkey ht hthird' hmarker'
        rw [htag, some.injEq] at ht
        rw [← ht, hthird, some.injEq] at hthird'
        rw [← hthird', hmarker] at hmarker'
        exact absurd hmarker' Bool.false_ne_true
      · rintro - pubkey ⟨rfl, hhex⟩
        rw [if_pos hhex]

theorem points_iff (chosen : Option ℕ) (hchosen : ∀ i, chosen = some i → HasAt (isTag "e") tags i) :
    Points tags chosen (chosen.bind (pointerAt tags)) ↔
      ∀ i, chosen = some i → AuthorAtRank tags i := by
  constructor
  · rintro ⟨-, hpoints⟩ i hi
    obtain ⟨pointer, hpointer, tag, htag, hid, -, hauthor⟩ := hpoints i hi
    rw [hi, bind_some, pointerAt, htag] at hpointer
    obtain ⟨id, hid', rfl⟩ := Option.map_eq_some_iff.mp hpointer
    exact (author_iff htag).mp hauthor
  · intro hauthor
    refine ⟨fun hnone => by rw [hnone, bind_none], fun i hi => ?_⟩
    obtain ⟨tag, htag, hE⟩ := hchosen i hi
    rw [isTag, Bool.and_eq_true, decide_eq_true_eq] at hE
    obtain ⟨id, hid⟩ : ∃ id, tag[1]? = some id :=
      ⟨_, List.getElem?_eq_getElem (Nat.lt_of_lt_of_le Nat.one_lt_two hE.1)⟩
    refine ⟨⟨id, relaysOf tag, resolveAuthorSync tags i, none⟩, ?_, tag, htag, hid, rfl,
      (author_iff htag).mpr (hauthor i hi)⟩
    rw [hi, bind_some, pointerAt, htag]
    show tag[1]?.map _ = _
    rw [hid]
    rfl

theorem HasAt.isE {marker : String} (h : HasAt (marked marker) tags i) :
    HasAt (isTag "e") tags i := by
  obtain ⟨tag, htag, hmarked⟩ := h
  exact ⟨tag, htag, (Bool.and_eq_true _ _ ▸ hmarked).1⟩

theorem HasAt.marker_eq {m m' : String} (h : HasAt (marked m) tags i)
    (h' : HasAt (marked m') tags i) : m = m' := by
  obtain ⟨tag, htag, hm⟩ := h
  obtain ⟨tag', htag', hm'⟩ := h'
  rw [htag, some.injEq] at htag'
  rw [marked, Bool.and_eq_true, beq_iff_eq] at hm hm'
  rw [← htag', hm.2, some.injEq] at hm'
  exact hm'.2

theorem threadRootIdx_isE (h : threadRootIdx tags = some i) : HasAt (isTag "e") tags i := by
  rcases (threadRootIdx_eq_some_iff tags i).mp h with h | h
  · exact h.1.isE
  · exact h.2.1

theorem parentIdx_isE (h : parentIdx tags = some i) : HasAt (isTag "e") tags i := by
  rcases (parentIdx_eq_some_iff tags i).mp h with h | h
  · exact h.1.isE
  · exact h.2.1

end Read

/-- **Threads are read by their markers exactly on the tags where the tag that stands
in for a missing marker does not contradict the others** and where the author named
after a marker is also the `p` tag at the rank of the tag. -/
theorem threaded_iff (tags : List (List String)) : Threaded tags ↔ MarkersRead tags := by
  have hrootPoints : Points tags (threadRootIdx tags) (getThreadRoot tags) ↔
      ∀ i, threadRootIdx tags = some i → AuthorAtRank tags i :=
    points_iff _ fun _ => threadRootIdx_isE
  have hparentPoints : Points tags (parentIdx tags) (getImmediateParent tags) ↔
      ∀ i, parentIdx tags = some i → AuthorAtRank tags i :=
    points_iff _ fun _ => parentIdx_isE
  constructor
  · intro h
    refine ⟨fun hroot i hi hmention => ?_, fun hreply i hi => ⟨fun hmention => ?_, fun hroot => ?_⟩,
      fun i hi => ?_, fun i hi => ?_⟩
    · exact (h.no_mention i hmention).1 ((threadRootIdx_eq_some_iff tags i).mpr (.inr ⟨hroot, hi⟩))
    · exact (h.no_mention i hmention).2 ((parentIdx_eq_some_iff tags i).mpr (.inr ⟨hreply, hi⟩))
    · -- the last `e` tag is the parent, so it is the one marked as the root
      obtain ⟨j, hj, hmarked⟩ := h.parent_root hreply hroot
      rw [(parentIdx_eq_some_iff tags i).mpr (.inr ⟨hreply, hi⟩), some.injEq] at hj
      rw [hj]
      exact hmarked
    · exact hrootPoints.mp h.root_points i ((threadRootIdx_eq_some_iff tags i).mpr hi)
    · exact hparentPoints.mp h.parent_points i ((parentIdx_eq_some_iff tags i).mpr hi)
  · intro h
    refine ⟨fun hroot => ?_, fun hreply => ?_, fun hreply hroot => ?_,
      fun i hmention => ⟨fun hi => ?_, fun hi => ?_⟩, fun hnone i => ⟨fun hi => ?_, fun hi => ?_⟩,
      hrootPoints.mpr fun i hi => ?_, hparentPoints.mpr fun i hi => ?_⟩
    · obtain ⟨i, hi⟩ := exists_isFirst hroot
      exact ⟨i, (threadRootIdx_eq_some_iff tags i).mpr (.inl hi), hi.1⟩
    · obtain ⟨i, hi⟩ := exists_isLast hreply
      exact ⟨i, (parentIdx_eq_some_iff tags i).mpr (.inl hi), hi.1⟩
    · obtain ⟨j, hj⟩ := hroot
      obtain ⟨i, hi⟩ := exists_isLast ⟨j, hj.isE⟩
      exact ⟨i, (parentIdx_eq_some_iff tags i).mpr (.inr ⟨hreply, hi⟩),
        (h.last hreply i hi).2 ⟨j, hj⟩⟩
    · rcases (threadRootIdx_eq_some_iff tags i).mp hi with hi | ⟨hroot, hi⟩
      · exact absurd (hi.1.marker_eq hmention) (by decide)
      · exact h.first hroot i hi hmention
    · rcases (parentIdx_eq_some_iff tags i).mp hi with hi | ⟨hreply, hi⟩
      · exact absurd (hi.1.marker_eq hmention) (by decide)
      · exact (h.last hreply i hi).1 hmention
    · refine (threadRootIdx_eq_some_iff tags i).mpr (.inr ⟨?_, hi⟩)
      rintro ⟨j, hj⟩
      exact hnone ⟨_, j, by decide, hj⟩
    · refine (parentIdx_eq_some_iff tags i).mpr (.inr ⟨?_, hi⟩)
      rintro ⟨j, hj⟩
      exact hnone ⟨_, j, by decide, hj⟩
    · exact h.root_author i ((threadRootIdx_eq_some_iff tags i).mp hi)
    · exact h.parent_author i ((parentIdx_eq_some_iff tags i).mp hi)

/-- A reply to the root of a thread that also mentions a note is shown as a reply to
the note it mentions. -/
theorem mention_taken_for_parent :
    ¬ Threaded [["e", "a", "", "root"], ["e", "b", "", "mention"]] := by
  intro h
  have hmention : HasAt (marked "mention") [["e", "a", "", "root"], ["e", "b", "", "mention"]] 1 :=
    ⟨["e", "b", "", "mention"], rfl, by decide⟩
  exact (h.no_mention 1 hmention).2 (by decide)

end Threading
end Nipworker
