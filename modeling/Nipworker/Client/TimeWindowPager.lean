/-
Backward pagination (`lib/TimeWindowPager.ts`, `lib/PaginatedSubscription.ts`).

A long-running subscription is read backwards, one time window after another.
Each page asks every relay of every request for its newest events of the window
and the next page goes on below the oldest event that was accepted.
-/
import Mathlib.Data.List.Sort
import Mathlib.Logic.Function.Iterate
import Mathlib.Algebra.Order.Ring.Int

namespace Nipworker

open List

/-! ### Windows and requests -/

def maxSafeInteger : ℤ := 9007199254740991

/-- A page of the feed, from one time to another. -/
structure TimeWindow where
  index : ℕ
  sinceTime : ℤ
  untilTime : ℤ
  deriving DecidableEq, Repr

/-- A request object: its bounds, its limit, its relays, and what its other
fields (ids, authors, kinds, tags, search) let through. -/
structure PageRequest (ε : Type) where
  matching : ε → Bool
  sinceTime : Option ℤ
  untilTime : Option ℤ
  limit : Option ℕ
  relays : List String

def unixSecond (value : ℤ) (name : String) : Except String ℤ :=
  if value < 0 ∨ maxSafeInteger < value then
    .error (name ++ " must be a non-negative Unix timestamp")
  else .ok value

theorem unixSecond_ok {value : ℤ} (name : String) (h0 : 0 ≤ value)
    (h1 : value ≤ maxSafeInteger) : unixSecond value name = .ok value := by
  unfold unixSecond
  rw [if_neg (by omega)]

variable {ε : Type}

/-- A request narrowed to a window; its own bounds stay hard bounds. -/
def PageRequest.within (request : PageRequest ε) (windowSince windowUntil : ℤ) :
    List (PageRequest ε) :=
  let since := max (request.sinceTime.getD 0) windowSince
  let upto := min (request.untilTime.getD maxSafeInteger) windowUntil
  if since ≤ upto then [{ request with sinceTime := some since, untilTime := some upto }] else []

/-- Apply an inclusive time window to a list of requests. -/
def applyTimeWindow (requests : List (PageRequest ε)) (window : TimeWindow) :
    Except String (List (PageRequest ε)) := do
  let windowSince ← unixSecond window.sinceTime "window.since"
  let windowUntil ← unixSecond window.untilTime "window.until"
  if windowUntil < windowSince then
    .error "window.since must not be greater than window.until"
  else
    .ok (requests.flatMap fun request => request.within windowSince windowUntil)

def Unbounded (requests : List (PageRequest ε)) : Prop :=
  ∀ request ∈ requests, request.sinceTime = none ∧ request.untilTime = none

/-- A window that `applyTimeWindow` takes. -/
def TimeWindow.Proper (window : TimeWindow) : Prop :=
  0 ≤ window.sinceTime ∧ window.sinceTime ≤ window.untilTime ∧ window.untilTime ≤ maxSafeInteger

def PageRequest.bounded (request : PageRequest ε) (window : TimeWindow) : PageRequest ε :=
  { request with sinceTime := some window.sinceTime, untilTime := some window.untilTime }

theorem applyTimeWindow_unbounded {requests : List (PageRequest ε)} {window : TimeWindow}
    (hopen : Unbounded requests) (hw : window.Proper) :
    applyTimeWindow requests window = .ok (requests.map (·.bounded window)) := by
  obtain ⟨h0, h1, h2⟩ := hw
  have hsince := unixSecond_ok "window.since" h0 (h1.trans h2)
  have huntil := unixSecond_ok "window.until" (h0.trans h1) h2
  unfold applyTimeWindow
  rw [hsince, huntil]
  show (if window.untilTime < window.sinceTime then _ else _) = _
  rw [if_neg (by omega), map_eq_flatMap]
  congr 1
  refine flatMap_congr fun request hreq => ?_
  -- the open bounds are 0 and the largest safe integer, outside the window
  obtain ⟨hs, hu⟩ := hopen request hreq
  have hmax : max 0 window.sinceTime = window.sinceTime := max_eq_right h0
  have hmin : min maxSafeInteger window.untilTime = window.untilTime := min_eq_right h2
  simp only [PageRequest.within, hs, hu, Option.getD_none, hmax, hmin, if_pos h1,
    PageRequest.bounded]

/-! ### The pager -/

/-- What a pager is created with; the checks of `createTimeWindowPager` are
fields. -/
structure PagerConfig (ε : Type) where
  subId : String
  requests : List (PageRequest ε)
  anchor : ℤ
  windowSeconds : ℤ
  maxEmptyPages : ℕ
  emptyWindowGrowthFactor : ℤ
  subId_given : subId ≠ ""
  anchor_second : 0 ≤ anchor ∧ anchor ≤ maxSafeInteger
  windowSeconds_pos : 0 < windowSeconds
  maxEmptyPages_pos : 0 < maxEmptyPages
  growth_pos : 0 < emptyWindowGrowthFactor

/-- A page: the requests of one window under the id of its subscription. -/
structure TimeWindowPage (ε : Type) where
  subId : String
  requests : List (PageRequest ε)
  window : TimeWindow
  pagination : String

/-- The cursor, the page in progress and the events of it. -/
structure TimeWindowPager (ε : Type) where
  anchor : ℤ
  nextIndex : ℕ
  nextSince : ℤ
  nextUntil : ℤ
  activePage : Option (TimeWindowPage ε)
  consecutiveEmptyPages : ℕ
  exhausted : Bool

/-- What `complete` answers. -/
structure TimeWindowPageCompletion where
  hasMore : Bool
  shouldRetry : Bool
  consecutiveEmptyPages : ℕ
  deriving DecidableEq, Repr

namespace TimeWindowPager

variable (config : PagerConfig ε)

/-- The state at an anchor: the first window ends just before it. -/
def resetState (anchor : ℤ) : TimeWindowPager ε where
  anchor := anchor
  nextIndex := 0
  nextUntil := anchor - 1
  nextSince := max 0 (anchor - 1 - config.windowSeconds + 1)
  activePage := none
  consecutiveEmptyPages := 0
  exhausted := anchor - 1 < 0

/-- Move the window before a second; before second 0 there is none. -/
def moveBefore (p : TimeWindowPager ε) (since duration : ℤ) : TimeWindowPager ε :=
  if since - 1 < 0 then { p with nextUntil := since - 1, exhausted := true }
  else { p with nextUntil := since - 1, nextSince := max 0 (since - 1 - duration + 1) }

def grownWindowDuration (p : TimeWindowPager ε) : ℤ :=
  (fun duration => min (p.nextUntil + 1) (duration * config.emptyWindowGrowthFactor))^[
    p.consecutiveEmptyPages] config.windowSeconds

def nextWindow (p : TimeWindowPager ε) : TimeWindow :=
  ⟨p.nextIndex, p.nextSince, p.nextUntil⟩

def pageOf (window : TimeWindow) (requests : List (PageRequest ε)) : TimeWindowPage ε where
  subId := config.subId ++ ":page:" ++ toString window.index ++ ":" ++
    toString window.sinceTime ++ ":" ++ toString window.untilTime
  requests := requests
  window := window
  pagination := config.subId

def next (p : TimeWindowPager ε) : Except String (TimeWindowPager ε × Option (TimeWindowPage ε)) :=
  if p.exhausted then .ok (p, none)
  else match p.activePage with
    | some page => .ok (p, some page)
    | none => do
      let window := p.nextWindow
      let requests ← applyTimeWindow config.requests window
      if requests.length = 0 then .ok ({ p with exhausted := true }, none)
      else
        let page := pageOf config window requests
        .ok ({ p with activePage := some page, nextIndex := p.nextIndex + 1 }, some page)

/-- The state after a page in which events were accepted, the oldest in second
`oldest`. -/
def advance (p : TimeWindowPager ε) (completed : TimeWindow) (oldest : ℤ) : TimeWindowPager ε :=
  let p := { p with consecutiveEmptyPages := 0 }
  if completed.sinceTime < oldest then
    { p with nextSince := completed.sinceTime, nextUntil := oldest - 1 }
  else p.moveBefore completed.sinceTime config.windowSeconds

def advanceEmpty (p : TimeWindowPager ε) (completed : TimeWindow) : TimeWindowPager ε :=
  let p := { p with consecutiveEmptyPages := p.consecutiveEmptyPages + 1 }
  if config.maxEmptyPages ≤ p.consecutiveEmptyPages then { p with exhausted := true }
  else
    let p := p.moveBefore completed.sinceTime config.windowSeconds
    if p.exhausted then p
    else { p with nextSince := max 0 (p.nextUntil - p.grownWindowDuration config + 1) }

/-- The answer of `complete` in the state it leaves. -/
def completion (p : TimeWindowPager ε) (oldestReceivedAt : Option ℤ) : TimeWindowPageCompletion where
  hasMore := !p.exhausted
  shouldRetry := oldestReceivedAt.isNone && !p.exhausted
  consecutiveEmptyPages := p.consecutiveEmptyPages

/-- Complete the active page.  The page is given up before the second is
checked, so it is gone after an error too. -/
def complete (p : TimeWindowPager ε) (oldestReceivedAt : Option ℤ) :
    TimeWindowPager ε × Except String TimeWindowPageCompletion :=
  match p.activePage with
  | none => (p, .error "no active page to complete")
  | some page =>
    let p := { p with activePage := none }
    match oldestReceivedAt with
    | some receivedAt =>
      match unixSecond receivedAt "oldestReceivedAt" with
      | .error message => (p, .error message)
      | .ok oldest =>
        if oldest < page.window.sinceTime ∨ page.window.untilTime < oldest then
          (p, .error "oldestReceivedAt must be inside the completed page window")
        else
          let p := p.advance config page.window oldest
          (p, .ok (p.completion oldestReceivedAt))
    | none =>
      let p := p.advanceEmpty config page.window
      (p, .ok (p.completion oldestReceivedAt))

/-- The second above which the pager asks for nothing more. -/
def reached (p : TimeWindowPager ε) : ℤ := if p.exhausted then p.nextSince else p.nextUntil + 1

/-- The state between two pages: no page is active, and the next window is a
window of history before the anchor. -/
structure Ready (p : TimeWindowPager ε) : Prop where
  idle : p.activePage = none
  nonneg : p.exhausted = false → 0 ≤ p.nextSince
  ordered : p.exhausted = false → p.nextSince ≤ p.nextUntil
  bounded : p.exhausted = false → p.nextUntil < config.anchor

variable {config}

variable {p : TimeWindowPager ε}

theorem Ready.proper (h : p.Ready config) (he : p.exhausted = false) : p.nextWindow.Proper :=
  ⟨h.nonneg he, h.ordered he, (h.bounded he).le.trans config.anchor_second.2⟩

theorem ready_resetState : (resetState config config.anchor).Ready config where
  idle := rfl
  nonneg := fun _ => le_max_left _ _
  ordered := by
    intro he
    have hpos := config.windowSeconds_pos
    simp only [resetState, decide_eq_false_iff_not] at he ⊢
    omega
  bounded := fun _ => by
    show config.anchor - 1 < config.anchor
    omega

theorem grownWindowDuration_pos (h : 0 ≤ p.nextUntil) : 0 < p.grownWindowDuration config := by
  unfold grownWindowDuration
  -- every round keeps the length positive: some history and the factor are
  refine Function.Iterate.rec (fun d => 0 < d) config.windowSeconds_pos (fun d hd => ?_) _
  have hmul : 0 < d * config.emptyWindowGrowthFactor := mul_pos hd config.growth_pos
  exact lt_min (by omega) hmul

/-- The page that `next` opens between two pages. -/
def openPage (config : PagerConfig ε) (p : TimeWindowPager ε) : TimeWindowPage ε :=
  pageOf config p.nextWindow (config.requests.map (·.bounded p.nextWindow))

theorem next_ready (h : p.Ready config) (he : p.exhausted = false)
    (hopen : Unbounded config.requests) (hne : config.requests ≠ []) :
    p.next config = .ok ({ p with
      activePage := some (p.openPage config)
      nextIndex := p.nextIndex + 1 }, some (p.openPage config)) := by
  unfold next
  rw [he, h.idle]
  show (applyTimeWindow config.requests p.nextWindow >>= _) = _
  rw [applyTimeWindow_unbounded hopen (h.proper he)]
  show (if (config.requests.map _).length = 0 then _ else _) = _
  rw [if_neg (by simpa using hne)]
  rfl

theorem next_exhausted (he : p.exhausted = true) : p.next config = .ok (p, none) := by
  unfold next
  rw [if_pos he]

theorem reached_moveBefore {since duration : ℤ}
    (he : p.exhausted = false) (hs : p.nextSince = since) :
    (p.moveBefore since duration).reached = since := by
  unfold moveBefore reached
  by_cases h : since - 1 < 0
  · rw [if_pos h]
    exact hs
  · rw [if_neg h]
    simp only [he]
    show since - 1 + 1 = since
    omega

theorem ready_moveBefore {since duration : ℤ} (hidle : p.activePage = none)
    (hd : 0 < duration) (hs : since ≤ config.anchor) :
    (p.moveBefore since duration).Ready config := by
  unfold moveBefore
  by_cases h : since - 1 < 0
  · rw [if_pos h]
    exact ⟨hidle, nofun, nofun, nofun⟩
  · rw [if_neg h]
    refine ⟨hidle, fun _ => le_max_left _ _, fun _ => ?_, fun _ => ?_⟩
    · show max 0 (since - 1 - duration + 1) ≤ since - 1
      omega
    · show since - 1 < config.anchor
      omega

theorem advance_spec {completed : TimeWindow} {oldest : ℤ}
    (hidle : p.activePage = none) (he : p.exhausted = false)
    (hs : p.nextSince = completed.sinceTime) (h0 : 0 ≤ completed.sinceTime)
    (hlow : completed.sinceTime ≤ oldest) (hhigh : oldest ≤ config.anchor) :
    (p.advance config completed oldest).Ready config ∧
      (p.advance config completed oldest).reached = oldest := by
  unfold advance
  by_cases hlt : completed.sinceTime < oldest
  · -- the rest of the same window
    simp only [if_pos hlt]
    refine ⟨⟨hidle, fun _ => h0, fun _ => ?_, fun _ => ?_⟩, ?_⟩
    · show completed.sinceTime ≤ oldest - 1
      omega
    · show oldest - 1 < config.anchor
      omega
    · simp only [reached, he]
      show oldest - 1 + 1 = oldest
      omega
  · -- the window is used up
    have heq : completed.sinceTime = oldest := by omega
    simp only [if_neg hlt]
    refine ⟨ready_moveBefore hidle config.windowSeconds_pos (by omega), ?_⟩
    refine Eq.trans (reached_moveBefore ?_ ?_) heq
    · exact he
    · exact hs

theorem advanceEmpty_spec {completed : TimeWindow}
    (hidle : p.activePage = none) (he : p.exhausted = false)
    (hs : p.nextSince = completed.sinceTime) (h1 : completed.sinceTime ≤ config.anchor) :
    (p.advanceEmpty config completed).Ready config ∧
      (p.advanceEmpty config completed).reached = completed.sinceTime := by
  unfold advanceEmpty
  set p' : TimeWindowPager ε := { p with consecutiveEmptyPages := p.consecutiveEmptyPages + 1 }
    with hp'
  by_cases hmax : config.maxEmptyPages ≤ p'.consecutiveEmptyPages
  · simp only [if_pos hmax]
    exact ⟨⟨hidle, nofun, nofun, nofun⟩, hs⟩
  · simp only [if_neg hmax]
    have hr : (p'.moveBefore completed.sinceTime config.windowSeconds).Ready config :=
      ready_moveBefore hidle config.windowSeconds_pos h1
    have hreached : (p'.moveBefore completed.sinceTime config.windowSeconds).reached =
        completed.sinceTime := reached_moveBefore he hs
    set q := p'.moveBefore completed.sinceTime config.windowSeconds
    by_cases hq : q.exhausted = true
    · rw [if_pos hq]
      exact ⟨hr, hreached⟩
    · rw [if_neg hq]
      have hq' : q.exhausted = false := by simpa using hq
      have h0 : 0 ≤ q.nextUntil := (hr.nonneg hq').trans (hr.ordered hq')
      have hpos : 0 < q.grownWindowDuration config := grownWindowDuration_pos h0
      -- only the start of the next window grows, its end stays
      refine ⟨⟨hr.idle, fun _ => le_max_left _ _, fun _ => ?_, hr.bounded⟩, ?_⟩
      · show max 0 (q.nextUntil - q.grownWindowDuration config + 1) ≤ q.nextUntil
        omega
      · rw [← hreached]
        simp only [reached, hq', Bool.false_eq_true, if_false]

end TimeWindowPager

/-! ### Relays -/

section Relays

variable (createdAt : ε → ℤ)

def PageRequest.admits (request : PageRequest ε) (e : ε) : Bool :=
  request.matching e && request.sinceTime.all (· ≤ createdAt e) &&
    request.untilTime.all (createdAt e ≤ ·)

/-- The answers are the newest `limit` of the candidates. -/
def Newest (limit : Option ℕ) (candidates answers : List ε) : Prop :=
  answers.length = (limit.getD candidates.length).min candidates.length ∧
    ∃ rest, (answers ++ rest).Perm candidates ∧
      ∀ e ∈ answers, ∀ e' ∈ rest, createdAt e' ≤ createdAt e

/-- Relays with their stores; each answers a request with its newest events. -/
structure Relays where
  store : String → List ε
  ask : String → PageRequest ε → List ε
  newest : ∀ relay request, Newest createdAt request.limit
    ((store relay).filter (request.admits createdAt)) (ask relay request)

variable {createdAt}

theorem Newest.subset {limit : Option ℕ} {candidates answers : List ε}
    (h : Newest createdAt limit candidates answers) : answers ⊆ candidates := by
  obtain ⟨-, rest, hperm, -⟩ := h
  intro e he
  exact hperm.subset (mem_append_left rest he)

def Relays.sorting (store : String → List ε) : Relays createdAt where
  store := store
  ask := fun relay request =>
    let candidates := (store relay).filter (request.admits createdAt)
    (candidates.insertionSort (createdAt · ≥ createdAt ·)).take
      (request.limit.getD candidates.length)
  newest := by
    intro relay request
    set candidates := (store relay).filter (request.admits createdAt)
    set sorted := candidates.insertionSort (createdAt · ≥ createdAt ·) with hsorted
    have hperm : sorted.Perm candidates := perm_insertionSort _ _
    have hpair : sorted.Pairwise (createdAt · ≥ createdAt ·) := by
      have : Std.Total (fun a b : ε => createdAt a ≥ createdAt b) :=
        ⟨fun a b => le_total (createdAt b) (createdAt a)⟩
      have : IsTrans ε (fun a b : ε => createdAt a ≥ createdAt b) :=
        ⟨fun a b c hab hbc => le_trans hbc hab⟩
      exact pairwise_insertionSort _ _
    set k := request.limit.getD candidates.length
    have hsplit : sorted.take k ++ sorted.drop k = sorted := take_append_drop k sorted
    refine ⟨?_, sorted.drop k, hsplit.symm ▸ hperm, ?_⟩
    · rw [length_take, hperm.length_eq]
    · rw [← hsplit, pairwise_append] at hpair
      exact hpair.2.2

end Relays

/-! ### The controller -/

section Controller

variable {createdAt : ε → ℤ} (config : PagerConfig ε) (relays : Relays createdAt)
  (accepts : ε → Bool)

/-- An event of the active page: the oldest accepted second of the window is
kept. -/
def handlePageMessage (createdAt : ε → ℤ) (accepts : ε → Bool) (window : TimeWindow)
    (oldest : Option ℤ) (e : ε) : Option ℤ :=
  if accepts e ∧ 0 ≤ createdAt e ∧ createdAt e ≤ maxSafeInteger ∧
      window.sinceTime ≤ createdAt e ∧ createdAt e ≤ window.untilTime then
    some (min (oldest.getD (createdAt e)) (createdAt e))
  else oldest

def TimeWindowPage.answers (relays : Relays createdAt) (page : TimeWindowPage ε) : List ε :=
  page.requests.flatMap fun request => request.relays.flatMap fun relay => relays.ask relay request

def TimeWindowPage.oldestAccepted (relays : Relays createdAt) (accepts : ε → Bool)
    (page : TimeWindowPage ε) : Option ℤ :=
  (page.answers relays).foldl (handlePageMessage createdAt accepts page.window) none

/-- The pager and the events that its pages have delivered. -/
structure Paging (ε : Type) where
  pager : TimeWindowPager ε
  delivered : List ε

namespace Paging

def start : Paging ε := ⟨TimeWindowPager.resetState config config.anchor, []⟩

/-- One page: `next`, the answers, `complete`. -/
def turnPage (st : Paging ε) : Paging ε :=
  match st.pager.next config with
  | .error _ => st
  | .ok (pager, none) => { st with pager := pager }
  | .ok (pager, some page) =>
    ⟨(pager.complete config (page.oldestAccepted relays accepts)).1,
      st.delivered ++ page.answers relays⟩

def after (n : ℕ) : Paging ε := (turnPage config relays accepts)^[n] (start config)

/-- Every event of the requests between the cursor and the anchor was
delivered. -/
def Delivers (st : Paging ε) : Prop :=
  ∀ request ∈ config.requests, ∀ relay ∈ request.relays, ∀ e ∈ relays.store relay,
    request.matching e = true → st.pager.reached ≤ createdAt e → createdAt e < config.anchor →
      e ∈ st.delivered

/-- The oldest second that the next page accepts, or the start of its window. -/
def pageFloor (p : TimeWindowPager ε) : ℤ :=
  ((p.openPage config).oldestAccepted relays accepts).getD p.nextSince

/-- The answers to the next page are not cut at or above the oldest second it
accepts, nor anywhere in the window when it accepts nothing: an event of the
window that neither they nor an earlier page hold is older than that. -/
def Uncut (st : Paging ε) : Prop :=
  st.pager.exhausted = false →
    ∀ request ∈ config.requests, ∀ relay ∈ request.relays, ∀ e ∈ relays.store relay,
      request.matching e = true → createdAt e ≤ st.pager.nextUntil →
        pageFloor config relays accepts st.pager ≤ createdAt e →
          e ∈ (st.pager.openPage config).answers relays ∨ e ∈ st.delivered

variable {config relays accepts}

/-! ### One page -/

theorem foldl_handlePageMessage {window : TimeWindow} (es : List ε) :
    ∀ {oldest : Option ℤ},
      (∀ o ∈ oldest, 0 ≤ o ∧ o ≤ maxSafeInteger ∧ window.sinceTime ≤ o ∧ o ≤ window.untilTime) →
      ∀ o ∈ es.foldl (handlePageMessage createdAt accepts window) oldest,
        0 ≤ o ∧ o ≤ maxSafeInteger ∧ window.sinceTime ≤ o ∧ o ≤ window.untilTime := by
  induction es with
  | nil => exact id
  | cons e es ih =>
    intro oldest hold
    refine ih fun o ho => ?_
    unfold handlePageMessage at ho
    split_ifs at ho with hc
    · -- the smaller of two seconds of the window
      obtain rfl : min (oldest.getD (createdAt e)) (createdAt e) = o := by simpa using ho
      match oldest, hold with
      | none, _ => simpa using hc.2
      | some o', hold =>
        have ho' := hold o' rfl
        simp only [Option.getD_some]
        omega
    · exact hold o ho

theorem oldestAccepted_mem {page : TimeWindowPage ε} {o : ℤ}
    (h : o ∈ page.oldestAccepted relays accepts) :
    0 ≤ o ∧ o ≤ maxSafeInteger ∧ page.window.sinceTime ≤ o ∧ o ≤ page.window.untilTime :=
  foldl_handlePageMessage _ (by simp) o h

variable {p : TimeWindowPager ε}

theorem mem_answers {e : ε} (h : e ∈ (p.openPage config).answers relays) :
    p.nextSince ≤ createdAt e ∧ createdAt e ≤ p.nextUntil := by
  simp only [TimeWindowPage.answers, TimeWindowPager.openPage, TimeWindowPager.pageOf,
    mem_flatMap, mem_map] at h
  obtain ⟨_, ⟨request, -, rfl⟩, relay, -, he⟩ := h
  have hadmits := (List.mem_filter.mp ((relays.newest relay _).subset he)).2
  simp only [PageRequest.admits, PageRequest.bounded, TimeWindowPager.nextWindow, Option.all_some,
    Bool.and_eq_true, decide_eq_true_eq] at hadmits
  exact ⟨hadmits.1.2, hadmits.2⟩

theorem pageFloor_le (h : p.Ready config) (he : p.exhausted = false) :
    pageFloor config relays accepts p ≤ p.nextUntil := by
  unfold pageFloor
  match ho : (p.openPage config).oldestAccepted relays accepts with
  | none => exact h.ordered he
  | some o => exact (oldestAccepted_mem ho).2.2.2

theorem complete_spec (h : p.Ready config) (he : p.exhausted = false) (n : ℕ) :
    let q : TimeWindowPager ε := { p with activePage := some (p.openPage config), nextIndex := n }
    let r := q.complete config ((p.openPage config).oldestAccepted relays accepts)
    r.1.Ready config ∧ r.1.reached = pageFloor config relays accepts p ∧
      ∃ completion, r.2 = .ok completion := by
  have h0 := h.nonneg he
  have h1 := h.ordered he
  have h2 := h.bounded he
  intro q r
  unfold pageFloor
  simp only [r, q, TimeWindowPager.complete]
  set idle : TimeWindowPager ε := { p with activePage := none, nextIndex := n }
  match ho : (p.openPage config).oldestAccepted relays accepts with
  | none =>
    have hspec : (idle.advanceEmpty config p.nextWindow).Ready config ∧
        (idle.advanceEmpty config p.nextWindow).reached = p.nextSince :=
      TimeWindowPager.advanceEmpty_spec rfl he rfl (h1.trans h2.le)
    exact ⟨hspec.1, hspec.2, _, rfl⟩
  | some o =>
    obtain ⟨ho0, ho1, ho2, ho3⟩ := oldestAccepted_mem ho
    have hspec : (idle.advance config p.nextWindow o).Ready config ∧
        (idle.advance config p.nextWindow o).reached = o :=
      TimeWindowPager.advance_spec rfl he rfl h0 ho2 (ho3.trans h2.le)
    -- the second passes both checks of `complete`
    have hin : ¬ (o < (p.openPage config).window.sinceTime ∨
        (p.openPage config).window.untilTime < o) := by omega
    simp only [unixSecond_ok "oldestReceivedAt" ho0 ho1, if_neg hin]
    exact ⟨hspec.1, hspec.2, _, rfl⟩

variable (relays accepts)

theorem turnPage_exhausted {st : Paging ε} (he : st.pager.exhausted = true) :
    st.turnPage config relays accepts = st := by
  unfold turnPage
  rw [TimeWindowPager.next_exhausted he]

/-- **One page**: the cursor moves to the floor of the page and the answers are
delivered. -/
theorem turnPage_spec {st : Paging ε} (h : st.pager.Ready config)
    (he : st.pager.exhausted = false) (hopen : Unbounded config.requests)
    (hne : config.requests ≠ []) :
    (st.turnPage config relays accepts).pager.Ready config ∧
      (st.turnPage config relays accepts).pager.reached =
        pageFloor config relays accepts st.pager ∧
      (st.turnPage config relays accepts).delivered =
        st.delivered ++ (st.pager.openPage config).answers relays := by
  unfold turnPage
  rw [TimeWindowPager.next_ready h he hopen hne]
  obtain ⟨hready, hreached, -⟩ := complete_spec h he (st.pager.nextIndex + 1)
  exact ⟨hready, hreached, rfl⟩

theorem delivers_turnPage {st : Paging ε} (h : st.pager.Ready config)
    (hopen : Unbounded config.requests) (hne : config.requests ≠ []) :
    (st.turnPage config relays accepts).Delivers config relays ↔
      st.Delivers config relays ∧ st.Uncut config relays accepts := by
  by_cases hex : st.pager.exhausted = true
  · rw [turnPage_exhausted relays accepts hex]
    exact (and_iff_left fun he => by simp [hex] at he).symm
  have he : st.pager.exhausted = false := by simpa using hex
  obtain ⟨-, hreached, hdelivered⟩ :=
    turnPage_spec relays accepts h he hopen hne
  have hfloor : pageFloor config relays accepts st.pager ≤ st.pager.nextUntil := pageFloor_le h he
  have hbound := h.bounded he
  have hcursor : st.pager.reached = st.pager.nextUntil + 1 := by
    simp only [TimeWindowPager.reached, he, Bool.false_eq_true, if_false]
  unfold Delivers Uncut
  rw [hreached, hdelivered, hcursor]
  constructor
  · intro hall
    refine ⟨fun request hreq relay hrel e hstore hm hlow hhigh => ?_,
      fun _ request hreq relay hrel e hstore hm hupto hlow => ?_⟩
    · -- above the window: this page did not answer it
      have hmem := hall request hreq relay hrel e hstore hm (by omega) hhigh
      refine (List.mem_append.mp hmem).resolve_right fun hans => ?_
      have hwindow := (mem_answers hans).2
      omega
    · have hmem := hall request hreq relay hrel e hstore hm hlow (by omega)
      exact (List.mem_append.mp hmem).symm
  · rintro ⟨hbefore, huncut⟩ request hreq relay hrel e hstore hm hlow hhigh
    by_cases hupto : createdAt e ≤ st.pager.nextUntil
    · exact List.mem_append.mpr (huncut he request hreq relay hrel e hstore hm hupto hlow).symm
    · exact mem_append_left _
        (hbefore request hreq relay hrel e hstore hm (by omega) hhigh)

/-! ### Whole runs -/

theorem ready_after (hopen : Unbounded config.requests) (hne : config.requests ≠ []) (n : ℕ) :
    (after config relays accepts n).pager.Ready config := by
  induction n with
  | zero => exact TimeWindowPager.ready_resetState
  | succ n ih =>
    unfold after at ih ⊢
    rw [Function.iterate_succ_apply']
    by_cases hex : ((turnPage config relays accepts)^[n] (start config)).pager.exhausted = true
    · rw [turnPage_exhausted relays accepts hex]
      exact ih
    · exact (turnPage_spec relays accepts ih (by simpa using hex) hopen hne).1

theorem delivers_start : (start config).Delivers config relays := by
  intro request _ relay _ e _ _ hlow hhigh
  -- the cursor starts at the anchor
  have hanchor : config.anchor ≤ (start config).pager.reached := by
    simp only [start, TimeWindowPager.resetState, TimeWindowPager.reached, decide_eq_true_eq]
    split_ifs with h <;> omega
  omega

/-- **Pagination**: after any number of pages, every event of the requests
between the cursor and the anchor was delivered, if and only if no page had
answers that were cut at or above its oldest accepted second. -/
theorem delivers_iff_uncut (config : PagerConfig ε) (relays : Relays createdAt)
    (accepts : ε → Bool) (hopen : Unbounded config.requests) (n : ℕ) :
    (after config relays accepts n).Delivers config relays ↔
      ∀ k < n, (after config relays accepts k).Uncut config relays accepts := by
  by_cases hne : config.requests = []
  · -- nothing is asked for
    have hnone : ∀ request, request ∉ config.requests := by simp [hne]
    exact ⟨fun _ _ _ _ request hreq => absurd hreq (hnone request),
      fun _ request hreq => absurd hreq (hnone request)⟩
  induction n with
  | zero => exact iff_of_true (delivers_start relays) (by simp)
  | succ n ih =>
    have hready := ready_after relays accepts hopen hne n
    have hstep := delivers_turnPage relays accepts hready hopen hne
    rw [Nat.forall_lt_succ_right, ← ih, ← hstep]
    unfold after
    rw [Function.iterate_succ_apply']

/-- Whether a condition on the events of the requests holds. -/
def decidableEvents (requests : List (PageRequest ε)) (store : String → List ε)
    (P : PageRequest ε → ε → Prop) [∀ request e, Decidable (P request e)] :
    Decidable (∀ request ∈ requests, ∀ relay ∈ request.relays, ∀ e ∈ store relay,
      P request e) :=
  inferInstance

instance [DecidableEq ε] (config : PagerConfig ε) (relays : Relays createdAt) (st : Paging ε) :
    Decidable (st.Delivers config relays) :=
  decidableEvents config.requests relays.store fun request e =>
    request.matching e = true → st.pager.reached ≤ createdAt e → createdAt e < config.anchor →
      e ∈ st.delivered

instance [DecidableEq ε] (config : PagerConfig ε) (relays : Relays createdAt) (accepts : ε → Bool)
    (st : Paging ε) : Decidable (st.Uncut config relays accepts) :=
  haveI := decidableEvents config.requests relays.store fun request e =>
    request.matching e = true → createdAt e ≤ st.pager.nextUntil →
      pageFloor config relays accepts st.pager ≤ createdAt e →
        e ∈ (st.pager.openPage config).answers relays ∨ e ∈ st.delivered
  inferInstanceAs (Decidable (st.pager.exhausted = false → _))

end Paging

/-- A feed of any events (an event is its second), two per answer, in windows of
100 seconds before second 1000. -/
def feedConfig (relays : List String) : PagerConfig ℤ where
  subId := "feed"
  requests := [{
    matching := fun _ => true
    sinceTime := none
    untilTime := none
    limit := some 2
    relays := relays }]
  anchor := 1000
  windowSeconds := 100
  maxEmptyPages := 1
  emptyWindowGrowthFactor := 2
  subId_given := by decide
  anchor_second := by decide
  windowSeconds_pos := by decide
  maxEmptyPages_pos := by decide
  growth_pos := by decide

def feedRelays : Relays (fun e : ℤ => e) :=
  Relays.sorting fun relay =>
    if relay = "wss://dense" then [950, 990, 980, 970] else if relay = "wss://sparse" then [910]
    else []

theorem unbounded_feed (relays : List String) : Unbounded (feedConfig relays).requests := by
  intro request hreq
  rw [List.mem_singleton.mp hreq]
  exact ⟨rfl, rfl⟩

/-- The dense relay alone is read without a gap: 990 and 980, then 970 and 950. -/
theorem delivers_dense_alone :
    let config := feedConfig ["wss://dense"]
    (∀ k < 2, (Paging.after config feedRelays (fun _ => true) k).Uncut config feedRelays
        fun _ => true) ∧
      (Paging.after config feedRelays (fun _ => true) 2).Delivers config feedRelays ∧
      (Paging.after config feedRelays (fun _ => true) 2).pager.reached = 950 := by
  have huncut : ∀ k < 2, (Paging.after (feedConfig ["wss://dense"]) feedRelays (fun _ => true)
      k).Uncut (feedConfig ["wss://dense"]) feedRelays fun _ => true := by decide
  exact ⟨huncut, (Paging.delivers_iff_uncut _ _ _ (unbounded_feed _) 2).mpr huncut, by
    decide⟩

/-- **A dense relay is skipped**: the sparse relay's event of second 910 moves
the cursor there, past the events 970 and 950 that the dense relay's answer left
out. -/
theorem dense_relay_is_skipped :
    ∃ config : PagerConfig ℤ, Unbounded config.requests ∧
      (Paging.after config feedRelays (fun _ => true) 1).pager.reached = 910 ∧
      (Paging.after config feedRelays (fun _ => true) 1).delivered = [990, 980, 910] ∧
      ¬ (Paging.after config feedRelays (fun _ => true) 1).Delivers config feedRelays := by
  refine ⟨feedConfig ["wss://dense", "wss://sparse"], unbounded_feed _, ?_, ?_, ?_⟩
  all_goals decide

end Controller

end Nipworker
