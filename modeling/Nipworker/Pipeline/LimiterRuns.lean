/-
What the limiters let through, over whole runs (`pipeline/pipes/npub_limiter.rs`,
`pipeline/pipes/chat_limiter.rs`).

Both keep a number and a time under each key.  What they stand for is an allowance: the
first events of a key pass, up to the limit, and later ones when they are newer than one
of the first.
-/
import Nipworker.Lib.Allowance
import Nipworker.Lib.MapTotal
import Nipworker.Lib.Run
import Nipworker.Pipeline.FiltersAlike

namespace Nipworker

open Allowance List Option

/-! ### Npubs -/

namespace NpubLimiterPipe

def new (kind : UInt16) (limitPerNpub : ℕ) (keyBy : NpubLimiterKey) : NpubLimiterPipe :=
  ⟨kind, limitPerNpub, keyBy, ∅⟩

def after (pipe : NpubLimiterPipe) (events : List PipelineEvent) : NpubLimiterPipe :=
  Run.exec (fun pipe event => (pipe.process event).1) pipe events

/-- The key and the time of an event that the pipe looks at. -/
def counted (pipe : NpubLimiterPipe) (event : PipelineEvent) : Option (String × ℕ) :=
  event.nostrEvent.bind fun ev =>
    if ev.kind = pipe.kind ∧ pipe.limiterKey ev ≠ "" then some (pipe.limiterKey ev, ev.createdAt)
    else none

/-- The times of the events with a key, in the order in which they came. -/
def timesOf (pipe : NpubLimiterPipe) (key : String) (events : List PipelineEvent) : List ℕ :=
  events.filterMap fun event =>
    (pipe.counted event).bind fun p => if p.1 = key then some p.2 else none

/-- The tracker has counted events of these times. -/
structure Counts (limit : ℕ) (tracker : NpubTracker) (times : List ℕ) : Prop where
  count : min tracker.forwardedCount limit = min times.length limit
  least : ∃ least, tracker.lastForwardedTimestamp = some least ∧
    Threshold (max 1 limit) times least

variable {pipe : NpubLimiterPipe}

theorem Counts.track {tracker : NpubTracker} {times : List ℕ}
    (h : Counts pipe.limitPerNpub tracker times) (t : ℕ) :
    Counts pipe.limitPerNpub (pipe.track tracker t).1 (times ++ [t]) ∧
      ((pipe.track tracker t).2 = true ↔ Admits (max 1 pipe.limitPerNpub) times t) := by
  obtain ⟨least, hleast, hthreshold⟩ := h.least
  have hcount := h.count
  have hne : 0 < times.length := length_pos_of_mem (mem_of_mem_take hthreshold.1)
  have hnext := hthreshold.concat t
  have hlength : (times ++ [t]).length = times.length + 1 := length_append
  rw [hthreshold.admits_iff, NpubLimiterPipe.track, hleast]
  dsimp only
  by_cases hnew : least < t
  · -- A newer event passes, and leaves the time as it is.
    rw [min_eq_left hnew.le, ite_self] at hnext
    rw [if_pos hnew]
    refine ⟨⟨?_, least, rfl, hnext⟩, by simp [hnew]⟩
    rw [hlength]
    dsimp only
    split <;> omega
  · rw [if_neg hnew]
    by_cases hroom : tracker.forwardedCount < pipe.limitPerNpub
    · have hfirst : times.length < max 1 pipe.limitPerNpub := by omega
      rw [if_pos hfirst, min_eq_right (not_lt.mp hnew)] at hnext
      rw [if_pos hroom]
      refine ⟨⟨?_, t, rfl, hnext⟩, by simp [hfirst]⟩
      rw [hlength]
      dsimp only
      omega
    · have hlater : ¬ times.length < max 1 pipe.limitPerNpub := by omega
      rw [if_neg hlater] at hnext
      rw [if_neg hroom]
      refine ⟨⟨?_, least, hleast, hnext⟩, by simp [hlater, hnew]⟩
      rw [hlength]
      dsimp only
      omega

theorem process_eq (pipe : NpubLimiterPipe) (event : PipelineEvent) :
    pipe.process event =
      match pipe.counted event with
      | none => (pipe, .drop)
      | some (key, t) =>
        let tracked := pipe.track ((pipe.npubTrackers.lookup key).getD ⟨none, 0⟩) t
        ({ pipe with npubTrackers := pipe.npubTrackers.insert key tracked.1 },
          if tracked.2 then .event event else .drop) := by
  rw [process, counted]
  cases event.nostrEvent with
  | none => rfl
  | some ev =>
    rw [bind_some]
    dsimp only
    by_cases hkind : ev.kind = pipe.kind
    · by_cases hkey : pipe.limiterKey ev = ""
      · rw [if_neg (not_not.mpr hkind), if_pos hkey, if_neg fun h => h.2 hkey]
      · rw [if_neg (not_not.mpr hkind), if_neg hkey, if_pos (And.intro hkind hkey)]
    · rw [if_pos hkind, if_neg fun h => hkind h.1]

/-- The pipe after some events: the trackers say what came under each key. -/
structure Follows (start : NpubLimiterPipe) (events : List PipelineEvent)
    (pipe : NpubLimiterPipe) : Prop where
  same : pipe = { start with npubTrackers := pipe.npubTrackers }
  trackers : ∀ key, (pipe.npubTrackers.lookup key = none ∧ start.timesOf key events = []) ∨
    ∃ tracker, pipe.npubTrackers.lookup key = some tracker ∧
      Counts pipe.limitPerNpub tracker (start.timesOf key events)

variable {start : NpubLimiterPipe} {events : List PipelineEvent}

theorem Follows.counted (h : Follows start events pipe) (event : PipelineEvent) :
    pipe.counted event = start.counted event := by
  rw [h.same]
  rfl

theorem Follows.track (h : Follows start events pipe) (key : String) (t : ℕ) :
    Counts pipe.limitPerNpub
        (pipe.track ((pipe.npubTrackers.lookup key).getD ⟨none, 0⟩) t).1
        (start.timesOf key events ++ [t]) ∧
      ((pipe.track ((pipe.npubTrackers.lookup key).getD ⟨none, 0⟩) t).2 = true ↔
        Admits (max 1 pipe.limitPerNpub) (start.timesOf key events) t) := by
  obtain ⟨hnone, htimes⟩ | ⟨tracker, hsome, hcounts⟩ := h.trackers key
  · -- The first event of its key.
    rw [hnone, htimes]
    refine ⟨⟨rfl, t, rfl, threshold_single (by omega) t⟩, iff_of_true rfl (Or.inl ?_)⟩
    rw [length_nil]
    omega
  · rw [hsome]
    exact hcounts.track t

theorem Follows.process (h : Follows start events pipe) (event : PipelineEvent) :
    Follows start (events ++ [event]) (pipe.process event).1 := by
  have htimes : ∀ key, start.timesOf key (events ++ [event]) = start.timesOf key events ++
      ((start.counted event).bind fun p => if p.1 = key then some p.2 else none).toList := by
    intro key
    rw [timesOf, filterMap_append, timesOf, filterMap_cons, filterMap_nil]
    cases (start.counted event).bind fun p => if p.1 = key then some p.2 else none <;> rfl
  rw [process_eq, h.counted]
  cases hev : start.counted event with
  | none =>
    refine ⟨h.same, fun key => ?_⟩
    rw [htimes, hev, bind_none, toList_none, append_nil]
    exact h.trackers key
  | some p =>
    refine ⟨?_, fun key => ?_⟩
    · dsimp only
      rw [h.same]
    · dsimp only
      rw [htimes, hev, bind_some, Map.lookup_insert_ite]
      by_cases hkey : key = p.1
      · subst hkey
        rw [if_pos rfl, if_pos rfl]
        exact Or.inr ⟨_, rfl, (h.track p.1 p.2).1⟩
      · rw [if_neg hkey, if_neg (Ne.symm hkey), toList_none, append_nil]
        exact h.trackers key

theorem follows_after (hstart : start.npubTrackers = ∅) (events : List PipelineEvent) :
    Follows start events (start.after events) := by
  induction events using List.reverseRecOn with
  | nil =>
    refine ⟨rfl, fun key => Or.inl ⟨?_, rfl⟩⟩
    show start.npubTrackers.lookup key = none
    rw [hstart, AList.lookup_empty]
  | append_singleton events event ih =>
    rw [after, Run.exec_append]
    exact ih.process event

/-- **What the npub limiter lets through.**  After any events, it forwards the events it
counts that the allowance of their key admits, and drops every other. -/
theorem forwards_iff (kind : UInt16) (limitPerNpub : ℕ) (keyBy : NpubLimiterKey)
    (events : List PipelineEvent) (event : PipelineEvent) :
    (((new kind limitPerNpub keyBy).after events).process event).2 = .event event ↔
      ∃ key t, (new kind limitPerNpub keyBy).counted event = some (key, t) ∧
        Admits (max 1 limitPerNpub) ((new kind limitPerNpub keyBy).timesOf key events) t := by
  have h : Follows (new kind limitPerNpub keyBy) events _ := follows_after rfl events
  have hlimit : ((new kind limitPerNpub keyBy).after events).limitPerNpub = limitPerNpub := by
    rw [h.same]
    rfl
  rw [process_eq, h.counted]
  cases hev : (new kind limitPerNpub keyBy).counted event with
  | none => simp
  | some p =>
    have hverdict := (h.track p.1 p.2).2
    rw [hlimit] at hverdict
    simp only [some.injEq, ite_eq_left_iff, Bool.not_eq_true]
    constructor
    · intro hpass
      refine ⟨p.1, p.2, rfl, hverdict.mp ?_⟩
      by_contra hno
      cases hpass (Bool.eq_false_of_not_eq_true hno)
    · rintro ⟨key, t, rfl, hadmits⟩ hno
      rw [hverdict.mpr hadmits] at hno
      cases hno

end NpubLimiterPipe

/-! ### Chats -/

theorem minByKey_eq_none {α : Type} {key : α → ℕ} {items : List α}
    (h : minByKey key items = none) : items = [] := by
  cases items with
  | nil => rfl
  | cons a rest =>
    rw [minByKey] at h
    split at h
    · cases h
    · split at h <;> cases h

theorem minByKey_eq_some {α : Type} {key : α → ℕ} {items : List α} {a : α}
    (h : minByKey key items = some a) : a ∈ items ∧ ∀ b ∈ items, key a ≤ key b := by
  induction items generalizing a with
  | nil => cases h
  | cons c rest ih =>
    rw [minByKey] at h
    cases hrest : minByKey key rest with
    | none =>
      rw [hrest] at h
      rw [minByKey_eq_none hrest, ← some.inj h]
      simp
    | some d =>
      obtain ⟨hd, hleast⟩ := ih hrest
      rw [hrest] at h
      dsimp only at h
      split at h
      · next hlt =>
        rw [← some.inj h]
        exact ⟨mem_cons_of_mem _ hd, List.forall_mem_cons.mpr ⟨hlt.le, hleast⟩⟩
      · next hle =>
        rw [← some.inj h]
        exact ⟨mem_cons_self, List.forall_mem_cons.mpr
          ⟨le_rfl, fun b hb => (not_lt.mp hle).trans (hleast b hb)⟩⟩

namespace ChatLimiterPipe

def new (ownPubkey : String) (limitPerChat maxChats : ℕ) (kinds : List UInt16) :
    ChatLimiterPipe :=
  { ownPubkey := ownPubkey, limitPerChat := max limitPerChat 1, maxChats := max maxChats 1
    kinds := kinds.toFinset, chatTrackers := ∅
    limit_pos := le_max_right _ _, max_pos := le_max_right _ _ }

/-- What both entrances give to `judge`: a kind, a chat and a time. -/
abbrev Entry := UInt16 × Option String × ℕ

variable (iter : IterOrder String) (pipe : ChatLimiterPipe)

/-- The chat and the time of an entry that the limit is about. -/
def limited (entry : Entry) : Option (String × ℕ) :=
  if pipe.shouldLimitKind entry.1 then entry.2.1.map fun chat => (chat, entry.2.2) else none

/-- One entry, and with it the times of every chat since the pipe last began to follow it. -/
def watch (st : ChatLimiterPipe × (String → List ℕ)) (act : IterOrder String × Entry) :
    ChatLimiterPipe × (String → List ℕ) :=
  let judged := st.1.judge act.1 act.2.1 act.2.2.1 act.2.2.2
  (judged.1, fun chat =>
    if chat ∈ judged.1.chatTrackers then
      match st.1.limited act.2 with
      | some (other, t) => if other = chat then st.2 chat ++ [t] else st.2 chat
      | none => st.2 chat
    else [])

/-- The trackers say what came in every chat since it is followed. -/
structure Tracked (since : String → List ℕ) : Prop where
  few : pipe.chatTrackers.keys.length ≤ pipe.maxChats
  trackers : ∀ chat, (pipe.chatTrackers.lookup chat = none ∧ since chat = []) ∨
    ∃ tracker, pipe.chatTrackers.lookup chat = some tracker ∧
      tracker.acceptedCount = min (since chat).length pipe.limitPerChat ∧
      Threshold pipe.limitPerChat (since chat) tracker.oldestForwardedTimestamp

/-- What the pipe does with the entry that comes next: the chat of a limited one is followed
from then on, the entry passes as the allowance of its chat says, and a chat is given up for
a new one, when there is no room, and if no other one is older. -/
structure Limits (since : String → List ℕ) : Prop where
  few : pipe.chatTrackers.keys.length ≤ pipe.maxChats
  followed : ∀ chat, chat ∈ pipe.chatTrackers ↔ since chat ≠ []
  takesUp : ∀ iter entry chat t, pipe.limited entry = some (chat, t) →
    chat ∈ (pipe.judge iter entry.1 entry.2.1 entry.2.2).1.chatTrackers
  passes : ∀ iter entry chat t, pipe.limited entry = some (chat, t) →
    ((pipe.judge iter entry.1 entry.2.1 entry.2.2).2 = true ↔
      Admits pipe.limitPerChat (since chat) t)
  givesUp : ∀ iter entry chat, since chat ≠ [] →
    chat ∉ (pipe.judge iter entry.1 entry.2.1 entry.2.2).1.chatTrackers →
    pipe.chatTrackers.keys.length = pipe.maxChats ∧
      (∃ other t, pipe.limited entry = some (other, t) ∧ since other = []) ∧
      ∀ other, ∀ e ∈ (since other).take pipe.limitPerChat,
        ∃ e' ∈ (since chat).take pipe.limitPerChat, e' ≤ e

variable {iter pipe} {since : String → List ℕ} {chat : String} {t : ℕ}

theorem judge_cases (iter : IterOrder String) (pipe : ChatLimiterPipe) (entry : Entry) :
    (∀ p, pipe.limited entry = some p →
      pipe.judge iter entry.1 entry.2.1 entry.2.2 = pipe.allow iter p.1 p.2) ∧
      (pipe.limited entry = none → (pipe.judge iter entry.1 entry.2.1 entry.2.2).1 = pipe) := by
  obtain ⟨kind, chat, t⟩ := entry
  rw [limited, judge.eq_def]
  dsimp only
  cases pipe.shouldLimitKind kind with
  | false => simp
  | true => cases chat <;> simp

def nextTracker (pipe : ChatLimiterPipe) (tracker : ChatTracker) (t : ℕ) : ChatTracker :=
  if tracker.acceptedCount < pipe.limitPerChat then
    ⟨tracker.acceptedCount + 1, min tracker.oldestForwardedTimestamp t⟩
  else tracker

/-- An event of a chat, with these trackers of the others. -/
def track (pipe : ChatLimiterPipe) (trackers : Map String ChatTracker) (chat : String) (t : ℕ) :
    ChatLimiterPipe :=
  { pipe with
    chatTrackers := trackers.insert chat
      (pipe.nextTracker ((trackers.lookup chat).getD ⟨0, t⟩) t) }

def oldestOf (pipe : ChatLimiterPipe) (chat : String) : ℕ :=
  ((pipe.chatTrackers.lookup chat).map ChatTracker.oldestForwardedTimestamp).getD 0

/-- The trackers that are left when an event of a chat comes. -/
def makeRoom (iter : IterOrder String) (pipe : ChatLimiterPipe) (chat : String) :
    Map String ChatTracker :=
  if (pipe.chatTrackers.lookup chat).isNone ∧ pipe.maxChats ≤ pipe.chatTrackers.keys.length then
    match minByKey pipe.oldestOf (iter.order pipe.chatTrackers.keys) with
    | some oldest => pipe.chatTrackers.erase oldest
    | none => pipe.chatTrackers
  else pipe.chatTrackers

theorem allow_fst (iter : IterOrder String) (pipe : ChatLimiterPipe) (chat : String) (t : ℕ) :
    (pipe.allow iter chat t).1 = pipe.track (makeRoom iter pipe chat) chat t := by
  rw [track, nextTracker]
  change (if ((AList.lookup chat (makeRoom iter pipe chat)).getD ⟨0, t⟩).acceptedCount <
    pipe.limitPerChat then _ else _ : ChatLimiterPipe × Bool).1 = _
  split <;> rfl

theorem makeRoom_cases (iter : IterOrder String) (pipe : ChatLimiterPipe) (chat : String) :
    (makeRoom iter pipe chat = pipe.chatTrackers ∧
      (chat ∈ pipe.chatTrackers ∨ pipe.chatTrackers.keys.length < pipe.maxChats)) ∨
    ∃ oldest ∈ pipe.chatTrackers, makeRoom iter pipe chat = pipe.chatTrackers.erase oldest ∧
      chat ∉ pipe.chatTrackers ∧ pipe.maxChats ≤ pipe.chatTrackers.keys.length ∧
      ∀ other ∈ pipe.chatTrackers, pipe.oldestOf oldest ≤ pipe.oldestOf other := by
  rw [makeRoom]
  split
  · next hfull =>
    have hnew := AList.lookup_eq_none.mp (Option.isNone_iff_eq_none.mp hfull.1)
    cases holdest : minByKey pipe.oldestOf (iter.order pipe.chatTrackers.keys) with
    | some oldest =>
      obtain ⟨hmem, hleast⟩ := minByKey_eq_some holdest
      refine Or.inr ⟨oldest, (iter.perm _).mem_iff.mp hmem, rfl, hnew, hfull.2, ?_⟩
      exact fun other hother => hleast other ((iter.perm _).mem_iff.mpr hother)
    | none =>
      -- It may follow one chat at least, so there is one to choose.
      have hkeys := pipe.max_pos.trans (hfull.2.trans_eq (iter.perm _).length_eq.symm)
      rw [minByKey_eq_none holdest] at hkeys
      cases hkeys
  · next hroom =>
    refine Or.inl ⟨rfl, ?_⟩
    by_cases hmem : chat ∈ pipe.chatTrackers
    · exact Or.inl hmem
    · refine Or.inr (not_le.mp fun hle => hroom ⟨?_, hle⟩)
      rw [AList.lookup_eq_none.mpr hmem]
      rfl

theorem Tracked.mem_iff (h : pipe.Tracked since) (chat : String) :
    chat ∈ pipe.chatTrackers ↔ since chat ≠ [] := by
  obtain ⟨hnone, htimes⟩ | ⟨tracker, hsome, -, hleast⟩ := h.trackers chat
  · exact iff_of_false (AList.lookup_eq_none.mp hnone) (not_not.mpr htimes)
  · refine iff_of_true (AList.lookup_isSome.mp (by rw [hsome]; rfl)) ?_
    exact ne_nil_of_mem (mem_of_mem_take hleast.1)

theorem Tracked.next (h : pipe.Tracked since) (chat : String) (t : ℕ) :
    let tracker := pipe.nextTracker ((pipe.chatTrackers.lookup chat).getD ⟨0, t⟩) t
    tracker.acceptedCount = min (since chat ++ [t]).length pipe.limitPerChat ∧
      Threshold pipe.limitPerChat (since chat ++ [t]) tracker.oldestForwardedTimestamp := by
  have hlimit : 0 < pipe.limitPerChat := pipe.limit_pos
  have hlength : (since chat ++ [t]).length = (since chat).length + 1 := length_append
  obtain ⟨hnone, htimes⟩ | ⟨tracker, hsome, hcount, hleast⟩ := h.trackers chat
  · rw [hnone, htimes, nextTracker]
    dsimp only [getD_none]
    rw [if_pos hlimit, min_self]
    exact ⟨(min_eq_left hlimit).symm, threshold_single hlimit t⟩
  · have hnext := hleast.concat t
    rw [hsome, hlength, nextTracker]
    dsimp only [getD_some]
    by_cases hroom : (since chat).length < pipe.limitPerChat
    · rw [if_pos hroom] at hnext
      rw [if_pos (by omega)]
      exact ⟨by dsimp only; omega, hnext⟩
    · rw [if_neg hroom] at hnext
      rw [if_neg (by omega)]
      exact ⟨by omega, hnext⟩

theorem Tracked.allow (h : pipe.Tracked since) (iter : IterOrder String) (chat : String) (t : ℕ) :
    (pipe.allow iter chat t).1.Tracked fun other =>
      if other ∈ (pipe.allow iter chat t).1.chatTrackers then
        if chat = other then since other ++ [t] else since other
      else [] := by
  have hlookup : (makeRoom iter pipe chat).lookup chat = pipe.chatTrackers.lookup chat := by
    obtain ⟨heq, -⟩ | ⟨oldest, hold, heq, hnew, -⟩ := makeRoom_cases iter pipe chat
    · rw [heq]
    · rw [heq, Map.lookup_erase_ite, if_neg (ne_of_mem_of_not_mem hold hnew).symm]
  have hnext := h.next chat t
  rw [allow_fst, track, hlookup]
  refine ⟨?_, fun other => ?_⟩
  · have hfew := h.few
    dsimp only
    obtain ⟨heq, hmem | hlt⟩ | ⟨oldest, hold, heq, hnew, -⟩ := makeRoom_cases iter pipe chat
    · obtain ⟨tracker, hsome⟩ := Option.isSome_iff_exists.mp (AList.lookup_isSome.mpr hmem)
      rw [heq, Map.length_keys_insert_old hsome]
      exact hfew
    · rw [heq, AList.keys_insert, length_cons]
      exact (Nat.succ_le_succ length_erase_le).trans hlt
    · have hlength := length_erase_of_mem (AList.mem_keys.mp hold)
      have hpos := length_pos_of_mem (AList.mem_keys.mp hold)
      rw [Map.length_keys_insert_new (hlookup.trans (AList.lookup_eq_none.mpr hnew)), heq,
        AList.keys_erase]
      omega
  · by_cases hother : other = chat
    · subst hother
      right
      refine ⟨_, AList.lookup_insert _, ?_⟩
      dsimp only
      rw [if_pos (AList.mem_insert _ |>.mpr (Or.inl rfl)), if_pos rfl]
      exact hnext
    · -- Another chat: it is followed as before, or given up.
      dsimp only
      simp only [AList.mem_insert, if_neg (Ne.symm hother), or_iff_right hother,
        AList.lookup_insert_ne hother]
      have hkept : (makeRoom iter pipe chat).lookup other = none ∨
          (makeRoom iter pipe chat).lookup other = pipe.chatTrackers.lookup other := by
        obtain ⟨heq, -⟩ | ⟨oldest, -, heq, -⟩ := makeRoom_cases iter pipe chat
        · exact Or.inr (by rw [heq])
        · rw [heq, Map.lookup_erase_ite]
          exact (ite_eq_or_eq _ _ _)
      obtain hgone | hkept := hkept
      · rw [if_neg (AList.lookup_eq_none.mp hgone)]
        exact Or.inl ⟨hgone, rfl⟩
      · rw [hkept]
        obtain ⟨hnone, htimes⟩ | ⟨tracker, hsome, hrest⟩ := h.trackers other
        · rw [htimes, ite_self]
          exact Or.inl ⟨hnone, rfl⟩
        · rw [if_pos (AList.lookup_isSome.mp (by rw [hkept, hsome]; rfl))]
          exact Or.inr ⟨tracker, hsome, hrest⟩

theorem Tracked.limits (h : pipe.Tracked since) : pipe.Limits since := by
  refine ⟨h.few, h.mem_iff, fun iter entry chat t hentry => ?_, fun iter entry chat t hentry => ?_,
    fun iter entry chat hchat hgone => ?_⟩
  · rw [(judge_cases iter pipe entry).1 _ hentry, allow_fst]
    exact (AList.mem_insert _).mpr (Or.inl rfl)
  · rw [(judge_cases iter pipe entry).1 _ hentry, allow_snd]
    obtain ⟨hnone, htimes⟩ | ⟨tracker, hsome, hcount, hleast⟩ := h.trackers chat
    · refine iff_of_true (fun tracker hsome => ?_) (Or.inl ?_)
      · rw [hnone] at hsome
        cases hsome
      · rw [htimes]
        exact pipe.limit_pos
    · rw [hleast.admits_iff, hsome]
      simp only [some.injEq, forall_eq']
      rw [hcount, min_lt_iff, or_iff_left (lt_irrefl _)]
  · have hold := (h.mem_iff chat).mpr hchat
    cases hentry : pipe.limited entry with
    | none =>
      rw [(judge_cases iter pipe entry).2 hentry] at hgone
      exact absurd hold hgone
    | some p =>
      rw [(judge_cases iter pipe entry).1 p hentry, allow_fst] at hgone
      have hleft : chat ∉ makeRoom iter pipe p.1 := fun hmem =>
        hgone (AList.mem_insert _ |>.mpr (Or.inr hmem))
      obtain ⟨heq, -⟩ | ⟨oldest, hmem, heq, hnew, hfull, hleast⟩ := makeRoom_cases iter pipe p.1
      · rw [heq] at hleft
        exact absurd hold hleft
      · -- It is the chat that was chosen.
        obtain rfl : chat = oldest := by
          by_contra hne
          rw [heq, ← AList.lookup_isSome, Map.lookup_erase_ite, if_neg hne, AList.lookup_isSome] at hleft
          exact hleft hold
        refine ⟨le_antisymm h.few hfull, ⟨p.1, p.2, rfl, ?_⟩, fun other e he => ?_⟩
        · exact not_not.mp fun hne => hnew ((h.mem_iff p.1).mpr hne)
        · have hother := (h.mem_iff other).mpr (ne_nil_of_mem (mem_of_mem_take he))
          have hle := hleast other hother
          obtain ⟨hnone, -⟩ | ⟨tracker, hsome, -, hthreshold⟩ := h.trackers chat
          · exact absurd hold (AList.lookup_eq_none.mp hnone)
          obtain ⟨hnone, -⟩ | ⟨tracker', hsome', -, hthreshold'⟩ := h.trackers other
          · exact absurd hother (AList.lookup_eq_none.mp hnone)
          rw [oldestOf, oldestOf, hsome, hsome'] at hle
          exact ⟨_, hthreshold.1, hle.trans (hthreshold'.2 he)⟩

theorem Tracked.watch (h : pipe.Tracked since) (act : IterOrder String × Entry) :
    (watch (pipe, since) act).1.Tracked (watch (pipe, since) act).2 := by
  obtain ⟨iter, entry⟩ := act
  rw [ChatLimiterPipe.watch]
  dsimp only
  cases hentry : pipe.limited entry with
  | none =>
    rw [(judge_cases iter pipe entry).2 hentry]
    have hsame : (fun chat => if chat ∈ pipe.chatTrackers then since chat else []) = since := by
      funext chat
      split
      · rfl
      · next hmem => exact (not_not.mp fun hne => hmem ((h.mem_iff chat).mpr hne)).symm
    rw [hsame]
    exact h
  | some p =>
    rw [(judge_cases iter pipe entry).1 p hentry]
    exact h.allow iter p.1 p.2

/-- **What the chat limiter lets through**, after any entries and with any orders of the
walks over its table. -/
theorem limits_chats (ownPubkey : String) (limitPerChat maxChats : ℕ)
    (kinds : List UInt16) (acts : List (IterOrder String × Entry)) :
    (Run.exec watch (new ownPubkey limitPerChat maxChats kinds, fun _ => []) acts).1.Limits
      (Run.exec watch (new ownPubkey limitPerChat maxChats kinds, fun _ => []) acts).2 := by
  have h : (Run.exec watch (new ownPubkey limitPerChat maxChats kinds, fun _ => []) acts).1.Tracked
      (Run.exec watch (new ownPubkey limitPerChat maxChats kinds, fun _ => []) acts).2 := by
    induction acts using List.reverseRecOn with
    | nil => exact ⟨Nat.zero_le _, fun chat => Or.inl ⟨rfl, rfl⟩⟩
    | append_singleton acts act ih =>
      rw [Run.exec_append]
      exact ih.watch act
  exact h.limits

end ChatLimiterPipe

end Nipworker
