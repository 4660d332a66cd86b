/-
The windows of a pager, over any run of `next` and `complete` (`lib/TimeWindowPager.ts`).

Every page is recorded when it is opened and when it is completed.  The pages cover time
from the anchor backwards: each window ends one second below what is covered, and a
completed page moves that floor to the oldest second that was received, or to the start of
its window.
-/
import Nipworker.Client.TimeWindowPager
import Nipworker.Lib.History
import Nipworker.Lib.Run

namespace Nipworker

open List Option

variable {ε : Type}

/-- The calls of the pager. -/
inductive PagerCall
  | next
  | complete (oldestReceivedAt : Option ℤ)
  deriving DecidableEq

/-- What became of it: a page is opened or completed, or `next` returns null. -/
inductive PagerEvent
  | opened (window : TimeWindow)
  | completed (window : TimeWindow) (oldest : Option ℤ)
  | ended
  deriving DecidableEq

/-- A pager, and the record of its pages. -/
structure PagerRun (ε : Type) where
  pager : TimeWindowPager ε
  history : List PagerEvent

/-- The lowest second that is covered: what is live at first, then the oldest second of the
last completed page, or the start of its window. -/
def coveredFrom (anchor : ℤ) (history : List PagerEvent) : ℤ :=
  history.foldl (fun floor event =>
    match event with
    | .completed window oldest => oldest.getD window.sinceTime
    | _ => floor) anchor

def emptyRun (history : List PagerEvent) : ℕ :=
  history.foldl (fun n event =>
    match event with
    | .completed _ none => n + 1
    | .completed _ (some _) => 0
    | _ => n) 0

@[simp] theorem coveredFrom_opened (anchor : ℤ) (history : List PagerEvent) (w : TimeWindow) :
    coveredFrom anchor (history ++ [.opened w]) = coveredFrom anchor history :=
  foldl_append

@[simp] theorem coveredFrom_ended (anchor : ℤ) (history : List PagerEvent) :
    coveredFrom anchor (history ++ [.ended]) = coveredFrom anchor history :=
  foldl_append

@[simp] theorem coveredFrom_completed (anchor : ℤ) (history : List PagerEvent) (w : TimeWindow)
    (oldest : Option ℤ) :
    coveredFrom anchor (history ++ [.completed w oldest]) = oldest.getD w.sinceTime :=
  foldl_append

@[simp] theorem emptyRun_opened (history : List PagerEvent) (w : TimeWindow) :
    emptyRun (history ++ [.opened w]) = emptyRun history := foldl_append

@[simp] theorem emptyRun_ended (history : List PagerEvent) :
    emptyRun (history ++ [.ended]) = emptyRun history := foldl_append

@[simp] theorem emptyRun_completed_none (history : List PagerEvent) (w : TimeWindow) :
    emptyRun (history ++ [.completed w none]) = emptyRun history + 1 := foldl_append

@[simp] theorem emptyRun_completed_some (history : List PagerEvent) (w : TimeWindow) (o : ℤ) :
    emptyRun (history ++ [.completed w (some o)]) = 0 := foldl_append

/-- A time the request asks for. -/
def PageRequest.Covers (request : PageRequest ε) (t : ℤ) : Prop :=
  request.sinceTime.getD 0 ≤ t ∧ t ≤ request.untilTime.getD maxSafeInteger

/-- No request asks for a second below `floor`. -/
def NothingBelow (requests : List (PageRequest ε)) (floor : ℤ) : Prop :=
  ∀ request ∈ requests, ∀ t, 0 ≤ t → t < floor → ¬ request.Covers t

/-- Some request asks for a time in the window. -/
def Asked (requests : List (PageRequest ε)) (window : TimeWindow) : Prop :=
  ∃ request ∈ requests, ∃ t, window.sinceTime ≤ t ∧ t ≤ window.untilTime ∧ request.Covers t

theorem within_ne_nil_iff {request : PageRequest ε} {since upto : ℤ} :
    request.within since upto ≠ [] ↔ ∃ t, since ≤ t ∧ t ≤ upto ∧ request.Covers t := by
  unfold PageRequest.within
  dsimp only
  by_cases hmeet : max (request.sinceTime.getD 0) since ≤
      min (request.untilTime.getD maxSafeInteger) upto
  · rw [if_pos hmeet]
    refine iff_of_true (cons_ne_nil _ _)
      ⟨max (request.sinceTime.getD 0) since, le_max_right _ _, ?_, le_max_left _ _, ?_⟩
    · exact hmeet.trans (min_le_right _ _)
    · exact hmeet.trans (min_le_left _ _)
  · rw [if_neg hmeet]
    refine iff_of_false (fun hne => hne rfl) ?_
    rintro ⟨t, h1, h2, h3, h4⟩
    exact hmeet ((max_le h3 h1).trans (le_min h4 h2))

theorem applyTimeWindow_proper (requests : List (PageRequest ε)) {window : TimeWindow}
    (hw : window.Proper) :
    ∃ narrowed, applyTimeWindow requests window = .ok narrowed ∧
      (narrowed.length = 0 ↔ ¬ Asked requests window) := by
  obtain ⟨h0, h1, h2⟩ := hw
  have hsince := unixSecond_ok "window.since" h0 (h1.trans h2)
  have huntil := unixSecond_ok "window.until" (h0.trans h1) h2
  refine ⟨requests.flatMap fun request => request.within window.sinceTime window.untilTime, ?_, ?_⟩
  · unfold applyTimeWindow
    rw [hsince, huntil]
    exact if_neg (not_lt.mpr h1)
  · rw [length_eq_zero_iff, flatMap_eq_nil_iff, Asked]
    constructor
    · rintro hall ⟨request, hreq, ht⟩
      exact within_ne_nil_iff.mpr ht (hall request hreq)
    · intro hnot request hreq
      by_contra hne
      exact hnot ⟨request, hreq, within_ne_nil_iff.mp hne⟩

namespace PagerRun

variable (config : PagerConfig ε)

def start : PagerRun ε := ⟨TimeWindowPager.resetState config config.anchor, []⟩

/-- One call.  A call that throws is not recorded; `next` returns an open page again. -/
def step (run : PagerRun ε) : PagerCall → PagerRun ε
  | .next =>
    match run.pager.next config with
    | .error _ => run
    | .ok (pager, none) => ⟨pager, run.history ++ [.ended]⟩
    | .ok (pager, some page) =>
      ⟨pager, if run.pager.activePage.isSome then run.history
        else run.history ++ [.opened page.window]⟩
  | .complete oldest =>
    match run.pager.activePage, run.pager.complete config oldest with
    | some page, (pager, .ok _) => ⟨pager, run.history ++ [.completed page.window oldest]⟩
    | _, (pager, _) => ⟨pager, run.history⟩

/-- The oldest second of a completed page lies in its window. -/
def InWindow (run : PagerRun ε) : PagerCall → Prop
  | .next => True
  | .complete oldest => ∀ page ∈ run.pager.activePage, ∀ o ∈ oldest,
    page.window.sinceTime ≤ o ∧ o ≤ page.window.untilTime

/-- What is claimed of a window when it is opened: it lies in the history before the anchor,
ends below every earlier one, and ends one second below what is covered. -/
def PageGood (before : List PagerEvent) : PagerEvent → Prop
  | .opened w => 0 ≤ w.sinceTime ∧ w.sinceTime ≤ w.untilTime ∧ w.untilTime ≤ config.anchor - 1 ∧
      (∀ earlier, .opened earlier ∈ before → w.untilTime < earlier.untilTime) ∧
      w.untilTime = coveredFrom config.anchor before - 1
  | _ => True

/-- Why the pager may be at its end. -/
def Reason (history : List PagerEvent) : Prop :=
  coveredFrom config.anchor history = 0 ∨ config.maxEmptyPages ≤ emptyRun history ∨
    NothingBelow config.requests (coveredFrom config.anchor history)

/-- `next` returns null for a reason. -/
def NullJustified (run : PagerRun ε) (call : PagerCall) : Prop :=
  call = .next → (∀ pager, run.pager.next config = .ok (pager, none) → Reason config run.history)

/-- The window that is next in turn is asked for, or nothing below its end is. -/
def WindowAsked (run : PagerRun ε) (call : PagerCall) : Prop :=
  call = .next → run.pager.exhausted = false → run.pager.activePage = none →
    Asked config.requests run.pager.nextWindow ∨
      NothingBelow config.requests (run.pager.nextUntil + 1)

def pageCount (run : PagerRun ε) : ℕ :=
  run.history.countP fun event =>
    match event with
    | .opened _ => true
    | _ => false

/-! ### The invariant -/

/-- Between two pages the next window ends one second below what is covered, and every page
that was opened is covered. -/
structure Idle (run : PagerRun ε) : Prop where
  idle : run.pager.activePage = none
  window : run.pager.exhausted = false → 0 ≤ run.pager.nextSince ∧
    run.pager.nextSince ≤ run.pager.nextUntil ∧
    run.pager.nextUntil = coveredFrom config.anchor run.history - 1
  above : ∀ w, .opened w ∈ run.history → coveredFrom config.anchor run.history ≤ w.untilTime
  count : (run.pageCount : ℤ) ≤ config.anchor - coveredFrom config.anchor run.history

/-- The page that is open is the next part of the history, and every other page that was
opened is covered. -/
structure Active (run : PagerRun ε) (page : TimeWindowPage ε) : Prop where
  active : run.pager.activePage = some page
  going : run.pager.exhausted = false
  window : 0 ≤ page.window.sinceTime ∧ page.window.sinceTime ≤ page.window.untilTime ∧
    page.window.untilTime = coveredFrom config.anchor run.history - 1
  above : ∀ w, .opened w ∈ run.history →
    w = page.window ∨ coveredFrom config.anchor run.history ≤ w.untilTime
  count : (run.pageCount : ℤ) ≤ config.anchor - coveredFrom config.anchor run.history + 1

/-- What holds of a pager and its record after every call. -/
structure Inv (run : PagerRun ε) : Prop where
  good : History.Always (PageGood config) run.history
  floor : 0 ≤ coveredFrom config.anchor run.history ∧
    coveredFrom config.anchor run.history ≤ config.anchor
  empty : run.pager.consecutiveEmptyPages = emptyRun run.history
  fresh : run.pager.exhausted = false → run.pager.consecutiveEmptyPages < config.maxEmptyPages
  page : Idle config run ∨ ∃ page, Active config run page

variable {config}

theorem inv_start : Inv config (start config) := by
  have hanchor := config.anchor_second.1
  have hready : (TimeWindowPager.resetState config config.anchor).Ready config :=
    TimeWindowPager.ready_resetState
  refine ⟨History.always_nil, ⟨hanchor, le_rfl⟩, rfl, fun _ => config.maxEmptyPages_pos,
    .inl ⟨rfl, fun he => ⟨hready.nonneg he, hready.ordered he, rfl⟩, ?_, ?_⟩⟩
  · intro w hw
    contradiction
  · show ((0 : ℕ) : ℤ) ≤ config.anchor - config.anchor
    omega

variable {run : PagerRun ε} {page : TimeWindowPage ε} {oldest : Option ℤ}
    {pager : TimeWindowPager ε} {call : PagerCall}

theorem Idle.proper (h : Idle config run) (hinv : Inv config run)
    (he : run.pager.exhausted = false) : run.pager.nextWindow.Proper := by
  obtain ⟨h0, h1, h2⟩ := h.window he
  have hanchor := config.anchor_second.2
  have hfloor := hinv.floor.2
  refine ⟨h0, h1, ?_⟩
  show run.pager.nextUntil ≤ maxSafeInteger
  omega

theorem next_idle (h : Idle config run) (hinv : Inv config run) (he : run.pager.exhausted = false) :
    (¬ Asked config.requests run.pager.nextWindow ∧
      run.pager.next config = .ok ({ run.pager with exhausted := true }, none)) ∨
    (Asked config.requests run.pager.nextWindow ∧ ∃ page : TimeWindowPage ε,
      page.window = run.pager.nextWindow ∧
      run.pager.next config = .ok ({ run.pager with
        activePage := some page
        nextIndex := run.pager.nextIndex + 1 }, some page)) := by
  obtain ⟨narrowed, hnarrowed, hasked⟩ :=
    applyTimeWindow_proper config.requests (h.proper hinv he)
  have hnext : run.pager.next config = if narrowed.length = 0 then
      .ok ({ run.pager with exhausted := true }, none)
    else .ok ({ run.pager with
      activePage := some (TimeWindowPager.pageOf config run.pager.nextWindow narrowed)
      nextIndex := run.pager.nextIndex + 1 },
      some (TimeWindowPager.pageOf config run.pager.nextWindow narrowed)) := by
    unfold TimeWindowPager.next
    rw [if_neg (by rw [he]; exact Bool.false_ne_true)]
    split
    · next page hpage =>
      rw [h.idle] at hpage
      contradiction
    · dsimp only
      rw [hnarrowed]
      rfl
  rw [hnext]
  by_cases hnone : narrowed.length = 0
  · exact .inl ⟨hasked.mp hnone, if_pos hnone⟩
  · exact .inr ⟨not_not.mp (mt hasked.mpr hnone), _, rfl, if_neg hnone⟩

theorem next_active (h : Active config run page) :
    run.pager.next config = .ok (run.pager, some page) := by
  unfold TimeWindowPager.next
  rw [h.going, h.active]
  rfl

theorem Inv.next_ok (hinv : Inv config run) : ∃ result, run.pager.next config = .ok result := by
  rcases hinv.page with hidle | ⟨page, hactive⟩
  · cases he : run.pager.exhausted with
    | true => exact ⟨_, TimeWindowPager.next_exhausted he⟩
    | false =>
      rcases next_idle hidle hinv he with ⟨-, hnext⟩ | ⟨-, page, -, hnext⟩
      · exact ⟨_, hnext⟩
      · exact ⟨_, hnext⟩
  · exact ⟨_, next_active hactive⟩

theorem Inv.ended (hinv : Inv config run) (hidle : Idle config run) :
    Inv config ⟨{ run.pager with exhausted := true }, run.history ++ [.ended]⟩ := by
  refine ⟨History.always_concat.mpr ⟨hinv.good, trivial⟩, ?_, ?_, fun he => ?_, .inl ⟨hidle.idle,
    fun he => ?_, fun w hw => ?_, ?_⟩⟩
  · simpa using hinv.floor
  · simpa using hinv.empty
  · contradiction
  · contradiction
  · rw [coveredFrom_ended]
    exact hidle.above w (by simpa using hw)
  · simpa [pageCount] using hidle.count

theorem Inv.opened (hinv : Inv config run) (hidle : Idle config run)
    (he : run.pager.exhausted = false) (hpage : page.window = run.pager.nextWindow) :
    Inv config ⟨{ run.pager with
      activePage := some page
      nextIndex := run.pager.nextIndex + 1 }, run.history ++ [.opened page.window]⟩ := by
  obtain ⟨h0, h1, h2⟩ := hidle.window he
  have hfloor := hinv.floor
  have hwindow : page.window.sinceTime = run.pager.nextSince ∧
      page.window.untilTime = run.pager.nextUntil := by
    rw [hpage]
    exact ⟨rfl, rfl⟩
  have hcount := hidle.count
  refine ⟨History.always_concat.mpr ⟨hinv.good, ?_⟩, ?_, ?_, hinv.fresh, .inr ⟨page, rfl, he, ?_,
    fun w hw => ?_, ?_⟩⟩
  · refine ⟨by omega, by omega, by omega, fun earlier hearlier => ?_, by omega⟩
    have := hidle.above earlier hearlier
    omega
  · simpa using hfloor
  · simpa using hinv.empty
  · rw [coveredFrom_opened]
    omega
  · rw [coveredFrom_opened]
    rcases List.mem_append.mp hw with hold | hnew
    · exact .inr (hidle.above w hold)
    · exact .inl (PagerEvent.opened.inj (List.mem_singleton.mp hnew))
  · rw [coveredFrom_opened]
    simp only [pageCount, countP_append, countP_singleton] at hcount ⊢
    push_cast
    exact Int.add_le_add_right hcount 1

theorem Inv.closed (hinv : Inv config run) (hactive : Active config run page)
    (hwindow : ∀ o ∈ oldest, page.window.sinceTime ≤ o ∧ o ≤ page.window.untilTime)
    (hnone : pager.activePage = none)
    (hempty : pager.consecutiveEmptyPages = emptyRun (run.history ++ [.completed page.window oldest]))
    (hfresh : pager.exhausted = false → pager.consecutiveEmptyPages < config.maxEmptyPages)
    (hnext : pager.exhausted = false → 0 ≤ pager.nextSince ∧ pager.nextSince ≤ pager.nextUntil ∧
      pager.nextUntil = oldest.getD page.window.sinceTime - 1) :
    Inv config ⟨pager, run.history ++ [.completed page.window oldest]⟩ := by
  obtain ⟨h0, h1, h2⟩ := hactive.window
  have hfloor := hinv.floor
  have hcount := hactive.count
  -- the floor moves into the window of the page
  have hmove : page.window.sinceTime ≤ oldest.getD page.window.sinceTime ∧
      oldest.getD page.window.sinceTime ≤ page.window.untilTime := by
    cases oldest with
    | none => exact ⟨le_rfl, h1⟩
    | some o => exact hwindow o rfl
  refine ⟨History.always_concat.mpr ⟨hinv.good, trivial⟩, ?_, hempty, hfresh, .inl ⟨hnone, ?_,
    fun w hw => ?_, ?_⟩⟩
  · rw [coveredFrom_completed]
    omega
  · rw [coveredFrom_completed]
    exact hnext
  · rw [coveredFrom_completed]
    rcases hactive.above w (by simpa using hw) with rfl | habove
    · exact hmove.2
    · omega
  · rw [coveredFrom_completed]
    simp only [pageCount, countP_append, countP_singleton] at hcount ⊢
    push_cast
    simp only [Int.add_zero]
    omega

theorem moveBefore_spec (pager : TimeWindowPager ε) (since : ℤ) {duration : ℤ} (hduration : 0 < duration)
    (he : (pager.moveBefore since duration).exhausted = false) :
    0 ≤ (pager.moveBefore since duration).nextSince ∧
      (pager.moveBefore since duration).nextSince ≤ (pager.moveBefore since duration).nextUntil ∧
      (pager.moveBefore since duration).nextUntil = since - 1 := by
  unfold TimeWindowPager.moveBefore at he ⊢
  by_cases hzero : since - 1 < 0
  · rw [if_pos hzero] at he
    contradiction
  · rw [if_neg hzero]
    refine ⟨le_max_left _ _, ?_, rfl⟩
    show max 0 (since - 1 - duration + 1) ≤ since - 1
    omega

theorem moveBefore_frame (pager : TimeWindowPager ε) (since duration : ℤ) :
    (pager.moveBefore since duration).activePage = pager.activePage ∧
      (pager.moveBefore since duration).consecutiveEmptyPages = pager.consecutiveEmptyPages := by
  unfold TimeWindowPager.moveBefore
  by_cases hzero : since - 1 < 0
  · rw [if_pos hzero]
    exact ⟨rfl, rfl⟩
  · rw [if_neg hzero]
    exact ⟨rfl, rfl⟩

theorem Inv.advance (hinv : Inv config run) (hactive : Active config run page) {oldest : ℤ}
    (hin : page.window.sinceTime ≤ oldest ∧ oldest ≤ page.window.untilTime) :
    Inv config ⟨TimeWindowPager.advance config { run.pager with activePage := none } page.window
      oldest, run.history ++ [.completed page.window (some oldest)]⟩ := by
  obtain ⟨h0, -, -⟩ := hactive.window
  have hwindow : ∀ o ∈ some oldest, page.window.sinceTime ≤ o ∧ o ≤ page.window.untilTime := by
    intro o ho
    rw [← Option.mem_some.mp ho]
    exact hin
  unfold TimeWindowPager.advance
  by_cases hlt : page.window.sinceTime < oldest
  · simp only [if_pos hlt]
    refine hinv.closed hactive hwindow rfl (by simp) (fun _ => config.maxEmptyPages_pos)
      fun _ => ⟨h0, ?_, rfl⟩
    show page.window.sinceTime ≤ oldest - 1
    omega
  · -- the page is used up to its start
    simp only [if_neg hlt]
    obtain ⟨hnone, hempty⟩ := moveBefore_frame
      ({ run.pager with activePage := none, consecutiveEmptyPages := 0 } : TimeWindowPager ε)
      page.window.sinceTime config.windowSeconds
    refine hinv.closed hactive hwindow hnone (by rw [hempty]; simp)
      (fun _ => by rw [hempty]; exact config.maxEmptyPages_pos) fun he => ?_
    obtain ⟨hs, hu, hend⟩ := moveBefore_spec _ _ config.windowSeconds_pos he
    refine ⟨hs, hu, hend.trans ?_⟩
    show page.window.sinceTime - 1 = oldest - 1
    omega

theorem Inv.advanceEmpty (hinv : Inv config run) (hactive : Active config run page) :
    Inv config ⟨TimeWindowPager.advanceEmpty config { run.pager with activePage := none }
      page.window, run.history ++ [.completed page.window none]⟩ := by
  have hwindow : ∀ o ∈ (none : Option ℤ),
      page.window.sinceTime ≤ o ∧ o ≤ page.window.untilTime := by simp
  have hempty := hinv.empty
  unfold TimeWindowPager.advanceEmpty
  dsimp only
  by_cases hmax : config.maxEmptyPages ≤ run.pager.consecutiveEmptyPages + 1
  · rw [if_pos hmax]
    exact hinv.closed hactive hwindow rfl (by simp [hempty]) (fun he => by contradiction)
      (fun he => by contradiction)
  · rw [if_neg hmax]
    have hframe := moveBefore_frame
      ({ run.pager with
        activePage := none
        consecutiveEmptyPages := run.pager.consecutiveEmptyPages + 1 } : TimeWindowPager ε)
      page.window.sinceTime config.windowSeconds
    have hspec := moveBefore_spec
      ({ run.pager with
        activePage := none
        consecutiveEmptyPages := run.pager.consecutiveEmptyPages + 1 } : TimeWindowPager ε)
      page.window.sinceTime config.windowSeconds_pos
    generalize TimeWindowPager.moveBefore ({ run.pager with
      activePage := none
      consecutiveEmptyPages := run.pager.consecutiveEmptyPages + 1 } : TimeWindowPager ε)
        page.window.sinceTime config.windowSeconds = pager at hframe hspec ⊢
    obtain ⟨hnone, hcount⟩ := hframe
    have hnone' : pager.activePage = none := hnone
    have hcount' : pager.consecutiveEmptyPages = run.pager.consecutiveEmptyPages + 1 := hcount
    cases he : pager.exhausted with
    | true =>
      rw [if_pos rfl]
      refine hinv.closed hactive hwindow hnone' (by simp [hcount', hempty]) (fun h => ?_) fun h => ?_
      all_goals
        rw [he] at h
        contradiction
    | false =>
      rw [if_neg Bool.false_ne_true]
      obtain ⟨hs, hu, hend⟩ := hspec he
      have hgrown : 0 < pager.grownWindowDuration config :=
        TimeWindowPager.grownWindowDuration_pos (by omega)
      refine hinv.closed hactive hwindow hnone' (by simp [hcount', hempty]) (fun _ => ?_)
        fun _ => ⟨le_max_left _ _, ?_, hend⟩
      · show pager.consecutiveEmptyPages < config.maxEmptyPages
        omega
      · show max 0 (pager.nextUntil - pager.grownWindowDuration config + 1) ≤ pager.nextUntil
        omega

theorem Inv.completed (hinv : Inv config run) (hactive : Active config run page)
    (hwindow : ∀ o ∈ oldest, page.window.sinceTime ≤ o ∧ o ≤ page.window.untilTime) :
    ∃ pager completion, run.pager.complete config oldest = (pager, .ok completion) ∧
      Inv config ⟨pager, run.history ++ [.completed page.window oldest]⟩ := by
  obtain ⟨h0, -, h2⟩ := hactive.window
  have hfloor := hinv.floor
  have hanchor := config.anchor_second.2
  unfold TimeWindowPager.complete
  rw [hactive.active]
  cases oldest with
  | none => exact ⟨_, _, rfl, hinv.advanceEmpty hactive⟩
  | some o =>
    have hin := hwindow o rfl
    have hsecond := unixSecond_ok "oldestReceivedAt" (show 0 ≤ o by omega) (by omega)
    have hinside : ¬ (o < page.window.sinceTime ∨ page.window.untilTime < o) := by omega
    simp only [hsecond, if_neg hinside]
    exact ⟨_, _, rfl, hinv.advance hactive hin⟩

/-! ### One call -/

theorem step_null (h : run.pager.next config = .ok (pager, none)) :
    step config run .next = ⟨pager, run.history ++ [.ended]⟩ := by
  simp only [step, h]

theorem exhausted_eta (he : pager.exhausted = true) : { pager with exhausted := true } = pager := by
  rw [← he]

theorem step_complete_idle (h : Idle config run) (oldest : Option ℤ) :
    step config run (.complete oldest) = run := by
  simp only [step, TimeWindowPager.complete, h.idle]

theorem inv_step (hinv : Inv config run)
    (hin : InWindow run call) : Inv config (step config run call) := by
  cases call with
  | next =>
    rcases hinv.page with hidle | ⟨page, hactive⟩
    · cases he : run.pager.exhausted with
      | true =>
        have hended := hinv.ended hidle
        rw [exhausted_eta he] at hended
        rw [step_null (TimeWindowPager.next_exhausted he)]
        exact hended
      | false =>
        rcases next_idle hidle hinv he with ⟨-, hnext⟩ | ⟨-, page, hwindow, hnext⟩
        · rw [step_null hnext]
          exact hinv.ended hidle
        · simp only [step, hnext, hidle.idle, isSome_none, Bool.false_eq_true, if_false]
          exact hinv.opened hidle he hwindow
    · simp only [step, next_active hactive, hactive.active, isSome_some, if_true]
      exact hinv
  | complete oldest =>
    rcases hinv.page with hidle | ⟨page, hactive⟩
    · rw [step_complete_idle hidle]
      exact hinv
    · obtain ⟨pager, completion, hcomplete, hnext⟩ :=
        hinv.completed hactive (hin page hactive.active)
      simp only [step, hactive.active, hcomplete]
      exact hnext

def Justified (config : PagerConfig ε) (run : PagerRun ε) : Prop :=
  run.pager.exhausted = true → Reason config run.history

theorem justified_start : Justified config (start config) := by
  intro he
  have hanchor := config.anchor_second.1
  refine .inl ?_
  have hneg : config.anchor - 1 < 0 := of_decide_eq_true he
  show config.anchor = 0
  omega

theorem moveBefore_exhausted {since duration : ℤ}
    (he : pager.exhausted = false) (h : (pager.moveBefore since duration).exhausted = true) :
    since - 1 < 0 := by
  unfold TimeWindowPager.moveBefore at h
  by_contra hpos
  rw [if_neg hpos] at h
  dsimp only at h
  rw [he] at h
  contradiction

theorem Inv.completed_reason (hinv : Inv config run) (hactive : Active config run page)
    (hwindow : ∀ o ∈ oldest, page.window.sinceTime ≤ o ∧ o ≤ page.window.untilTime)
    (he : (run.pager.complete config oldest).1.exhausted = true) :
    Reason config (run.history ++ [.completed page.window oldest]) := by
  obtain ⟨h0, -, h2⟩ := hactive.window
  have hgoing := hactive.going
  have hfloor := hinv.floor
  have hanchor := config.anchor_second.2
  unfold TimeWindowPager.complete at he
  rw [hactive.active] at he
  cases oldest with
  | none =>
    simp only [TimeWindowPager.advanceEmpty] at he
    by_cases hmax : config.maxEmptyPages ≤ run.pager.consecutiveEmptyPages + 1
    · refine .inr (.inl ?_)
      rw [emptyRun_completed_none, ← hinv.empty]
      exact hmax
    · rw [if_neg hmax] at he
      refine .inl ?_
      rw [coveredFrom_completed, getD_none]
      by_contra hne
      cases hmove : (TimeWindowPager.moveBefore ({ run.pager with
          activePage := none
          consecutiveEmptyPages := run.pager.consecutiveEmptyPages + 1 } : TimeWindowPager ε)
          page.window.sinceTime config.windowSeconds).exhausted with
      | true =>
        have := moveBefore_exhausted (by exact hgoing) hmove
        omega
      | false =>
        rw [if_neg (by rw [hmove]; exact Bool.false_ne_true)] at he
        exact absurd (hmove.symm.trans he) Bool.false_ne_true
  | some o =>
    obtain ⟨hlow, hhigh⟩ := hwindow o rfl
    have hsecond := unixSecond_ok "oldestReceivedAt" (show 0 ≤ o by omega) (by omega)
    have hinside : ¬ (o < page.window.sinceTime ∨ page.window.untilTime < o) := by omega
    simp only [hsecond, if_neg hinside, TimeWindowPager.advance] at he
    refine .inl ?_
    rw [coveredFrom_completed, getD_some]
    by_cases hlt : page.window.sinceTime < o
    · rw [if_pos hlt] at he
      exact absurd (hgoing.symm.trans he) Bool.false_ne_true
    · rw [if_neg hlt] at he
      have := moveBefore_exhausted (by exact hgoing) he
      omega

theorem reason_ended {history : List PagerEvent} (h : Reason config history) :
    Reason config (history ++ [.ended]) := by
  rw [Reason, coveredFrom_ended, emptyRun_ended]
  exact h

theorem Idle.nothingBelow (h : Idle config run) (he : run.pager.exhausted = false)
    (hnothing : NothingBelow config.requests (run.pager.nextUntil + 1)) :
    Reason config run.history := by
  have hend := (h.window he).2.2
  rw [show run.pager.nextUntil + 1 = coveredFrom config.anchor run.history by omega] at hnothing
  exact .inr (.inr hnothing)

theorem justified_step (hinv : Inv config run)
    (hjust : Justified config run) (hin : InWindow run call) (hasked : WindowAsked config run call) :
    Justified config (step config run call) := by
  cases call with
  | next =>
    rcases hinv.page with hidle | ⟨page, hactive⟩
    · cases he : run.pager.exhausted with
      | true =>
        rw [step_null (TimeWindowPager.next_exhausted he)]
        exact fun _ => reason_ended (hjust he)
      | false =>
        rcases next_idle hidle hinv he with ⟨hnot, hnext⟩ | ⟨-, page, -, hnext⟩
        · rw [step_null hnext]
          have hnothing := (hasked rfl he hidle.idle).resolve_left hnot
          exact fun _ => reason_ended (hidle.nothingBelow he hnothing)
        · simp only [step, hnext]
          intro hexhausted
          exact absurd (he.symm.trans hexhausted) Bool.false_ne_true
    · simp only [step, next_active hactive, hactive.active, isSome_some, if_true]
      exact hjust
  | complete oldest =>
    rcases hinv.page with hidle | ⟨page, hactive⟩
    · rw [step_complete_idle hidle]
      exact hjust
    · obtain ⟨pager, completion, hcomplete, -⟩ :=
        hinv.completed hactive (hin page hactive.active)
      have hreason := hinv.completed_reason hactive (hin page hactive.active)
      rw [hcomplete] at hreason
      simp only [step, hactive.active, hcomplete]
      exact hreason

/-! ### Null -/

theorem nullJustified_of_asked (hinv : Inv config run)
    (hjust : Justified config run) (hasked : WindowAsked config run call) :
    NullJustified config run call := by
  intro hcall pager hnull
  rcases hinv.page with hidle | ⟨page, hactive⟩
  · cases he : run.pager.exhausted with
    | true => exact hjust he
    | false =>
      rcases next_idle hidle hinv he with ⟨hnot, -⟩ | ⟨-, page, -, hnext⟩
      · exact hidle.nothingBelow he ((hasked hcall he hidle.idle).resolve_left hnot)
      · rw [hnext] at hnull
        exact absurd (congrArg Prod.snd (Except.ok.inj hnull)) (some_ne_none page)
  · rw [next_active hactive] at hnull
    exact absurd (congrArg Prod.snd (Except.ok.inj hnull)) (some_ne_none page)

theorem asked_of_nullJustified (hinv : Inv config run)
    (hnull : NullJustified config run call) : WindowAsked config run call := by
  intro hcall he hnone
  rcases hinv.page with hidle | ⟨page, hactive⟩
  · rcases next_idle hidle hinv he with ⟨-, hnext⟩ | ⟨hasked, -⟩
    · obtain ⟨h0, h1, hend⟩ := hidle.window he
      rcases hnull hcall _ hnext with hzero | hempty | hnothing
      · omega
      · have hfresh := hinv.fresh he
        rw [hinv.empty] at hfresh
        omega
      · rw [show run.pager.nextUntil + 1 = coveredFrom config.anchor run.history by omega]
        exact .inr hnothing
    · exact .inl hasked
  · rw [hactive.active] at hnone
    contradiction

theorem Inv.pageCount_le (hinv : Inv config run) : (run.pageCount : ℤ) ≤ config.anchor := by
  have hfloor := hinv.floor
  rcases hinv.page with hidle | ⟨page, hactive⟩
  · have := hidle.count
    omega
  · have := hactive.count
    have := hactive.window
    omega

end PagerRun

open PagerRun in
/-- **Windows and exhaustion.**  Over any run in which pages are completed at a second of their
window or without an event, the windows are good, no more pages are opened than there are
seconds before the anchor, and `next` never throws.  It returns null only for a reason, exactly
in the runs in which every next window is asked for while anything below is. -/
theorem pager_windows (config : PagerConfig ε) (calls : List PagerCall)
    (hcalls : Run.Along (step config) InWindow (start config) calls) :
    (History.Always (PageGood config) (Run.exec (step config) (start config) calls).history ∧
      ((Run.exec (step config) (start config) calls).pageCount : ℤ) ≤ config.anchor ∧
      Run.Along (step config) (fun run _ => ∃ result, run.pager.next config = .ok result)
        (start config) calls) ∧
    (Run.Along (step config) (NullJustified config) (start config) calls ↔
      Run.Along (step config) (WindowAsked config) (start config) calls) := by
  have hkeep : ∀ run call, Inv config run → InWindow run call → Inv config (step config run call) :=
    fun _ _ hinv hin => inv_step hinv hin
  have hend := Run.Along.exec hkeep inv_start hcalls
  refine ⟨⟨hend.good, hend.pageCount_le, ?_⟩, fun hnull => ?_, fun hasked => ?_⟩
  · exact Run.Along.imp hkeep (fun _ _ hinv _ => hinv.next_ok) inv_start hcalls
  · refine Run.Along.imp (fun run call hinv hp => hkeep run call hinv hp.1) ?_ inv_start
      (hcalls.and hnull)
    exact fun run call hinv hp => asked_of_nullJustified hinv hp.2
  · -- with every window asked for, the pager is exhausted for a reason all along
    have hboth : ∀ run call, (Inv config run ∧ Justified config run) →
        (InWindow run call ∧ WindowAsked config run call) →
          Inv config (step config run call) ∧ Justified config (step config run call) :=
      fun run call hinv hp =>
        ⟨hkeep run call hinv.1 hp.1, justified_step hinv.1 hinv.2 hp.1 hp.2⟩
    exact Run.Along.imp hboth
      (fun run call hinv hp => nullJustified_of_asked hinv.1 hinv.2 hp.2)
      ⟨inv_start, justified_start⟩ (hcalls.and hasked)

/-- Some pages of a feed: one with an event, and an empty one. -/
def feedCalls : List PagerCall := [.next, .complete (some 950), .next, .complete none, .next]

theorem pager_windows_feed :
    History.Always (PagerRun.PageGood (feedConfig []))
        (Run.exec (PagerRun.step (feedConfig [])) (PagerRun.start (feedConfig [])) feedCalls).history ∧
      ((Run.exec (PagerRun.step (feedConfig [])) (PagerRun.start (feedConfig []))
        feedCalls).pageCount : ℤ) ≤ 1000 := by
  have hcalls : Run.Along (PagerRun.step (feedConfig [])) PagerRun.InWindow
      (PagerRun.start (feedConfig [])) feedCalls := by
    refine ⟨trivial, ?_, trivial, ?_, trivial, trivial⟩
    · -- the page is the window from 900 to 999
      intro page hpage o ho
      obtain rfl : page = TimeWindowPager.pageOf (feedConfig []) ⟨0, 900, 999⟩ _ :=
        (some.inj hpage).symm
      obtain rfl : 950 = o := some.inj ho
      exact ⟨by decide, by decide⟩
    · intro page _ o ho
      contradiction
  have hwindows := (pager_windows (feedConfig []) feedCalls hcalls).1
  exact ⟨hwindows.1, hwindows.2.1⟩

/-- A request for second 1500 and before, read in windows of 300 seconds before second 2000. -/
def oldRequest : PagerConfig ℤ where
  subId := "archive"
  requests := [{
    matching := fun _ => true
    sinceTime := none
    untilTime := some 1500
    limit := none
    relays := [] }]
  anchor := 2000
  windowSeconds := 300
  maxEmptyPages := 2
  emptyWindowGrowthFactor := 3
  subId_given := by decide
  anchor_second := by decide
  windowSeconds_pos := by decide
  maxEmptyPages_pos := by decide
  growth_pos := by decide

/-- The first window holds no second the request asks for, so that `next` returns null, with
all of them before it. -/
theorem old_request_never_read :
    ∃ pager, (PagerRun.start oldRequest).pager.next oldRequest = .ok (pager, none) ∧
      ¬ PagerRun.Reason oldRequest (PagerRun.start oldRequest).history := by
  refine ⟨_, rfl, ?_⟩
  rintro (hzero | hempty | hnothing)
  · exact absurd hzero (by decide)
  · exact absurd hempty (by decide)
  · have hcovers : PageRequest.Covers (oldRequest.requests.head (by decide)) 1500 := by
      constructor <;> decide
    exact hnothing _ (head_mem (by decide)) 1500 (by decide) (by decide) hcovers

end Nipworker
