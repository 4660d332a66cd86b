/-
Subscription handles of the browser's manager (`NostrManager.ts`, `BaseBackend.ts`,
`hooks.ts`).

The manager counts the handles of a subscription under its id.  A full buffer and a restart
of the workers drop the registration, and the next handle makes a new one under the same id,
while old handles may still be out.
-/
import Nipworker.Lib.Map
import Nipworker.Lib.Run

namespace Nipworker

open List Option

/-- An entry of `subscriptions`: its count, and which registration it is. -/
structure Registration where
  refCount : ℤ
  number : ℕ
deriving DecidableEq

/-- A handle that was not released yet: what `useSubscription` returned. -/
structure SubscriptionHandle where
  handle : ℕ
  subId : String
  registration : ℕ
deriving DecidableEq

/-- The manager with the handles that are out, and how many handles and registrations there
have been. -/
structure SubscriptionHandles where
  subscriptions : Map String Registration
  live : List SubscriptionHandle
  opened : ℕ
  registered : ℕ

namespace SubscriptionHandles

def perpetualSubscriptions : List String := ["notifications", "starterpack"]

def init : SubscriptionHandles := { subscriptions := ∅, live := [], opened := 0, registered := 0 }

/-- `NostrManager.subscribe`: the entries, and the registration the buffer belongs to. -/
def subscribe (s : SubscriptionHandles) (subId : String) : SubscriptionHandles × ℕ :=
  match s.subscriptions.lookup subId with
  | some existing =>
    ({ s with subscriptions :=
        s.subscriptions.insert subId { existing with refCount := existing.refCount + 1 } },
      existing.number)
  | none =>
    ({ s with
        subscriptions := s.subscriptions.insert subId { refCount := 1, number := s.registered }
        registered := s.registered + 1 },
      s.registered)

/-- `useSubscription`; without an id it subscribes to nothing. -/
def useSubscription (s : SubscriptionHandles) (subId : String) : SubscriptionHandles :=
  if subId = "" then s
  else
    { s.subscribe subId |>.1 with
      live := s.live ++ [⟨s.opened, subId, (s.subscribe subId).2⟩]
      opened := s.opened + 1 }

/-- `BaseBackend.unsubscribe`. -/
def unsubscribe (s : SubscriptionHandles) (subId : String) : SubscriptionHandles :=
  match s.subscriptions.lookup subId with
  | some subscription =>
    { s with subscriptions :=
        s.subscriptions.insert subId { subscription with refCount := subscription.refCount - 1 } }
  | none => s

/-- The `unsubscribe` that `useSubscription` returned: only its first call does anything. -/
def release (s : SubscriptionHandles) (handle : ℕ) : SubscriptionHandles :=
  match s.live.find? fun h => h.handle = handle with
  | some h => { s.unsubscribe h.subId with live := s.live.erase h }
  | none => s

/-- The ids that `cleanup` collects. -/
def subscriptionsToDelete (s : SubscriptionHandles) : List String :=
  s.subscriptions.keys.filter fun subId =>
    (s.subscriptions.lookup subId).any (fun subscription => subscription.refCount ≤ 0) &&
      subId ∉ perpetualSubscriptions

def cleanup (s : SubscriptionHandles) : SubscriptionHandles :=
  { s with
    subscriptions := s.subscriptionsToDelete.foldl
      (fun subscriptions subId => subscriptions.erase subId) s.subscriptions }

/-- What the callers, the buffers and the manager do. -/
inductive Act
  | useSubscription (subId : String)
  | release (handle : ℕ)
  /-- A full buffer: `closeSubscription`. -/
  | bufferFull (subId : String)
  /-- `restartWorkerGraph`. -/
  | restart
  | cleanup

/-- Opening and releasing handles, full buffers, restarts and cleanups. -/
def step (s : SubscriptionHandles) : Act → SubscriptionHandles
  | .useSubscription subId => s.useSubscription subId
  | .release handle => s.release handle
  | .bufferFull subId => { s with subscriptions := s.subscriptions.erase subId }
  | .restart => { s with subscriptions := ∅ }
  | .cleanup => s.cleanup

/-! ### What is claimed -/

/-- A live handle belongs to the registration. -/
def InUse (s : SubscriptionHandles) (subId : String) (registration : ℕ) : Prop :=
  ∃ h ∈ s.live, h.subId = subId ∧ h.registration = registration

/-- A cleanup removes a subscription that may be removed exactly when no handle of that
registration is out, and the release of a handle leaves a later registration of its id as
it is. -/
def CountsRight (s : SubscriptionHandles) : Act → Prop
  | .cleanup => ∀ subId subscription, s.subscriptions.lookup subId = some subscription →
      subId ∉ perpetualSubscriptions →
        (s.cleanup.subscriptions.lookup subId = none ↔ ¬ s.InUse subId subscription.number)
  | .release handle => ∀ h ∈ s.live, h.handle = handle →
      ∀ subscription, s.subscriptions.lookup h.subId = some subscription →
        h.registration < subscription.number →
          (s.release handle).subscriptions.lookup h.subId = some subscription
  | _ => True

/-- A handle is released while its own registration is there, or none under its id. -/
def OnOwnRegistration (s : SubscriptionHandles) : Act → Prop
  | .release handle => ∀ h ∈ s.live, h.handle = handle →
      ∀ subscription, s.subscriptions.lookup h.subId = some subscription →
        ¬ h.registration < subscription.number
  | _ => True

/-! ### Handles and registrations -/

/-- Handles and registrations have the numbers in which they were made. -/
structure Numbered (s : SubscriptionHandles) : Prop where
  /-- Handles have numbers of their own. -/
  handles : (s.live.map SubscriptionHandle.handle).Nodup
  opened : ∀ h ∈ s.live, h.handle < s.opened
  /-- A registration is not a future one, and a handle not one of a later registration. -/
  numbers : ∀ subId subscription, s.subscriptions.lookup subId = some subscription →
    subscription.number < s.registered
  registrations : ∀ h ∈ s.live, h.registration < s.registered
  present : ∀ h ∈ s.live, ∀ subscription, s.subscriptions.lookup h.subId = some subscription →
    h.registration ≤ subscription.number

def handlesOf (s : SubscriptionHandles) (subId : String) (registration : ℕ) : ℕ :=
  s.live.countP fun h => h.subId = subId ∧ h.registration = registration

/-- The count of every registration is the number of its handles. -/
def Counted (s : SubscriptionHandles) : Prop :=
  ∀ subId subscription, s.subscriptions.lookup subId = some subscription →
    subscription.refCount = s.handlesOf subId subscription.number

variable {s : SubscriptionHandles} {subId : String}

theorem inUse_iff {registration : ℕ} :
    s.InUse subId registration ↔ 0 < s.handlesOf subId registration := by
  rw [handlesOf, countP_pos_iff, InUse]
  simp only [decide_eq_true_eq]

theorem find_live (hs : s.Numbered) {h : SubscriptionHandle}
    (hmem : h ∈ s.live) : s.live.find? (fun other => other.handle = h.handle) = some h := by
  cases hfind : s.live.find? fun other => other.handle = h.handle with
  | none => exact absurd (decide_eq_true rfl) (List.find?_eq_none.mp hfind h hmem)
  | some other =>
    have hsame : other.handle = h.handle := by simpa using List.find?_some hfind
    exact congrArg some
      (inj_on_of_nodup_map hs.handles (mem_of_find?_eq_some hfind) hmem hsame)

theorem lookup_eraseAll (l : List String) (m : Map String Registration) (subId : String) :
    (l.foldl (fun m k => AList.erase k m) m).lookup subId =
      if subId ∈ l then none else m.lookup subId := by
  induction l generalizing m with
  | nil => rw [if_neg not_mem_nil, foldl_nil]
  | cons k rest ih =>
    rw [foldl_cons, ih, Map.lookup_erase_ite]
    by_cases hk : subId = k
    · rw [if_pos hk, ite_self, if_pos (hk ▸ mem_cons_self)]
    · rw [if_neg hk]
      refine if_congr ?_ rfl rfl
      rw [mem_cons, or_iff_right hk]

theorem mem_subscriptionsToDelete :
    subId ∈ s.subscriptionsToDelete ↔
      (∃ subscription, s.subscriptions.lookup subId = some subscription ∧
        subscription.refCount ≤ 0) ∧ subId ∉ perpetualSubscriptions := by
  rw [subscriptionsToDelete, mem_filter, Bool.and_eq_true, Option.any_eq_true]
  simp only [decide_eq_true_eq]
  refine ⟨fun h => h.2, fun h => ⟨?_, h⟩⟩
  obtain ⟨⟨subscription, hlook, -⟩, -⟩ := h
  exact AList.mem_keys.mpr (AList.lookup_isSome.mp (hlook ▸ rfl))

theorem lookup_cleanup (s : SubscriptionHandles) (subId : String) :
    s.cleanup.subscriptions.lookup subId =
      if subId ∈ s.subscriptionsToDelete then none else s.subscriptions.lookup subId :=
  lookup_eraseAll s.subscriptionsToDelete s.subscriptions subId

/-! ### What the steps keep -/

theorem numbered_init : init.Numbered where
  handles := nodup_nil
  opened := fun h hmem => absurd hmem not_mem_nil
  numbers := fun subId subscription h => by
    rw [init, AList.lookup_empty] at h
    contradiction
  registrations := fun h hmem => absurd hmem not_mem_nil
  present := fun h hmem => absurd hmem not_mem_nil

theorem counted_init : init.Counted := by
  intro subId subscription h
  rw [init, AList.lookup_empty] at h
  contradiction

theorem Numbered.drop (hs : s.Numbered) {subscriptions : Map String Registration}
    (hsub : ∀ subId subscription, subscriptions.lookup subId = some subscription →
      s.subscriptions.lookup subId = some subscription) :
    Numbered { s with subscriptions } where
  handles := hs.handles
  opened := hs.opened
  numbers := fun subId subscription h => hs.numbers subId subscription (hsub _ _ h)
  registrations := hs.registrations
  present := fun h hmem subscription hlook => hs.present h hmem subscription (hsub _ _ hlook)

theorem Counted.drop (hs : s.Counted) {subscriptions : Map String Registration}
    (hsub : ∀ subId subscription, subscriptions.lookup subId = some subscription →
      s.subscriptions.lookup subId = some subscription) : Counted { s with subscriptions } :=
  fun subId subscription h => hs subId subscription (hsub _ _ h)

theorem lookup_of_cleanup {subscription : Registration}
    (h : s.cleanup.subscriptions.lookup subId = some subscription) :
    s.subscriptions.lookup subId = some subscription := by
  rw [lookup_cleanup] at h
  split at h
  · contradiction
  · exact h

theorem subscribe_spec (s : SubscriptionHandles) (subId : String) :
    (∃ existing, s.subscriptions.lookup subId = some existing ∧
      (s.subscribe subId).2 = existing.number ∧
      (s.subscribe subId).1 = { s with
        subscriptions := s.subscriptions.insert subId
          { existing with refCount := existing.refCount + 1 } }) ∨
    (s.subscriptions.lookup subId = none ∧ (s.subscribe subId).2 = s.registered ∧
      (s.subscribe subId).1 = { s with
        subscriptions := s.subscriptions.insert subId { refCount := 1, number := s.registered }
        registered := s.registered + 1 }) := by
  cases h : s.subscriptions.lookup subId with
  | some existing => exact .inl ⟨existing, rfl, by simp only [subscribe, h], by simp only [subscribe, h]⟩
  | none => exact .inr ⟨rfl, by simp only [subscribe, h], by simp only [subscribe, h]⟩

theorem Numbered.newHandle (hs : s.Numbered) {registration : Registration} {registered : ℕ}
    (hle : s.registered ≤ registered) (hnumber : registration.number < registered)
    (hearlier : ∀ h ∈ s.live, h.subId = subId → h.registration ≤ registration.number) :
    Numbered {
      subscriptions := s.subscriptions.insert subId registration
      live := s.live ++ [⟨s.opened, subId, registration.number⟩]
      opened := s.opened + 1
      registered } where
  handles := by
    have hfresh : s.opened ∉ s.live.map SubscriptionHandle.handle := by
      intro hmem
      obtain ⟨h, hin, heq⟩ := List.mem_map.mp hmem
      exact absurd (hs.opened h hin) (by omega)
    rw [map_append, map_singleton]
    exact List.nodup_append_comm.mp (List.nodup_cons.mpr ⟨hfresh, hs.handles⟩)
  opened := by
    intro h hmem
    rcases List.mem_append.mp hmem with hold | hnew
    · exact Nat.lt_succ_of_lt (hs.opened h hold)
    · rw [List.mem_singleton.mp hnew]
      exact Nat.lt_succ_self s.opened
  numbers := by
    intro id subscription h
    obtain ⟨-, rfl⟩ | ⟨-, h⟩ := Map.lookup_insert_eq_some.mp h
    · exact hnumber
    · exact (hs.numbers id subscription h).trans_le hle
  registrations := by
    intro h hmem
    rcases List.mem_append.mp hmem with hold | hnew
    · exact (hs.registrations h hold).trans_le hle
    · rw [List.mem_singleton.mp hnew]
      exact hnumber
  present := by
    intro h hmem subscription hsub
    obtain ⟨hid, rfl⟩ | ⟨hid, hsub⟩ := Map.lookup_insert_eq_some.mp hsub
    · rcases List.mem_append.mp hmem with hold | hnew
      · exact hearlier h hold hid
      · rw [List.mem_singleton.mp hnew]
    · rcases List.mem_append.mp hmem with hold | hnew
      · exact hs.present h hold subscription hsub
      · exact absurd (congrArg SubscriptionHandle.subId (List.mem_singleton.mp hnew)) hid

theorem Numbered.useSubscription (hs : s.Numbered) (subId : String) :
    (s.useSubscription subId).Numbered := by
  rw [SubscriptionHandles.useSubscription]
  split
  · exact hs
  rcases subscribe_spec s subId with ⟨existing, hlook, hnumber, hafter⟩ | ⟨-, hnumber, hafter⟩
  · -- one more handle on the registration there is
    rw [hnumber, hafter]
    exact hs.newHandle le_rfl (hs.numbers subId existing hlook)
      fun h hmem hid => hs.present h hmem existing (hid ▸ hlook)
  · -- a new registration
    rw [hnumber, hafter]
    exact hs.newHandle (Nat.le_succ _) (Nat.lt_succ_self _)
      fun h hmem _ => (hs.registrations h hmem).le

theorem Counted.useSubscription (hn : s.Numbered) (hs : s.Counted)
    (subId : String) : (s.useSubscription subId).Counted := by
  rw [SubscriptionHandles.useSubscription]
  split
  · exact hs
  -- the handles of a registration, with the new handle at the end
  have hmore : ∀ id number registration, (s.live ++ [SubscriptionHandle.mk s.opened subId registration]).countP
      (fun h => h.subId = id ∧ h.registration = number) =
        s.handlesOf id number + if subId = id ∧ registration = number then 1 else 0 := by
    intro id number registration
    rw [countP_append, countP_singleton, handlesOf]
    simp only [decide_eq_true_eq]
  intro id subscription h
  show subscription.refCount =
    ((s.live ++ [SubscriptionHandle.mk s.opened subId (s.subscribe subId).2]).countP fun h => _ : ℕ)
  rw [hmore]
  rcases subscribe_spec s subId with ⟨existing, hlook, hnumber, hafter⟩ | ⟨hlook, hnumber, hafter⟩
  · rw [hafter] at h
    rw [hnumber]
    obtain ⟨rfl, rfl⟩ | ⟨hid, h⟩ := Map.lookup_insert_eq_some.mp h
    · rw [if_pos ⟨rfl, rfl⟩]
      have := hs id existing hlook
      push_cast
      omega
    · rw [if_neg fun hboth => hid hboth.1.symm]
      exact hs id subscription h
  · rw [hafter] at h
    rw [hnumber]
    obtain ⟨rfl, rfl⟩ | ⟨hid, h⟩ := Map.lookup_insert_eq_some.mp h
    · -- no handle belongs to a registration that is new
      have hnone : s.handlesOf id s.registered = 0 := by
        rw [handlesOf, countP_eq_zero]
        intro handle hmem hboth
        have hlt := hn.registrations handle hmem
        rw [decide_eq_true_eq] at hboth
        omega
      rw [if_pos ⟨rfl, rfl⟩, hnone]
      rfl
    · rw [if_neg fun hboth => hid hboth.1.symm]
      exact hs id subscription h

theorem release_spec (hs : s.Numbered) {h : SubscriptionHandle} (hmem : h ∈ s.live) (id : String) :
    (s.release h.handle).live = s.live.erase h ∧
      (s.release h.handle).opened = s.opened ∧
      (s.release h.handle).registered = s.registered ∧
      (s.release h.handle).subscriptions.lookup id =
        if id = h.subId then
          (s.subscriptions.lookup id).map fun r => { r with refCount := r.refCount - 1 }
        else s.subscriptions.lookup id := by
  rw [release, find_live hs hmem]
  dsimp only
  rw [unsubscribe]
  cases hlook : s.subscriptions.lookup h.subId with
  | some subscription =>
    refine ⟨rfl, rfl, rfl, ?_⟩
    dsimp only
    rw [Map.lookup_insert_ite]
    split
    next hid => rw [hid, hlook, map_some]
    · rfl
  | none =>
    refine ⟨rfl, rfl, rfl, ?_⟩
    dsimp only
    split
    next hid => rw [hid, hlook, map_none]
    · rfl

theorem release_gone {handle : ℕ}
    (hgone : ∀ h ∈ s.live, h.handle ≠ handle) : s.release handle = s := by
  have hfind : (s.live.find? fun h => h.handle = handle) = none :=
    List.find?_eq_none.mpr fun h hmem => by simpa using hgone h hmem
  rw [release, hfind]

theorem Numbered.release (hs : s.Numbered) (handle : ℕ) : (s.release handle).Numbered := by
  by_cases hout : ∃ h ∈ s.live, h.handle = handle
  · obtain ⟨h, hmem, rfl⟩ := hout
    have hspec := release_spec hs hmem
    have hold : ∀ id subscription, (s.release h.handle).subscriptions.lookup id = some subscription →
        ∃ old, s.subscriptions.lookup id = some old ∧ old.number = subscription.number := by
      intro id subscription hlook
      rw [(hspec id).2.2.2] at hlook
      split at hlook
      · obtain ⟨old, hold, rfl⟩ := Option.map_eq_some_iff.mp hlook
        exact ⟨old, hold, rfl⟩
      · exact ⟨subscription, hlook, rfl⟩
    have hsub : ∀ x ∈ (s.release h.handle).live, x ∈ s.live := by
      intro x hx
      rw [(hspec "").1] at hx
      exact mem_of_mem_erase hx
    refine ⟨?_, ?_, ?_, ?_, ?_⟩
    · rw [(hspec "").1]
      exact hs.handles.sublist (List.erase_sublist.map _)
    · intro x hx
      rw [(hspec "").2.1]
      exact hs.opened x (hsub x hx)
    · intro id subscription hlook
      obtain ⟨old, hold, hnumber⟩ := hold id subscription hlook
      rw [(hspec "").2.2.1, ← hnumber]
      exact hs.numbers id old hold
    · intro x hx
      rw [(hspec "").2.2.1]
      exact hs.registrations x (hsub x hx)
    · intro x hx subscription hlook
      obtain ⟨old, hold, hnumber⟩ := hold x.subId subscription hlook
      rw [← hnumber]
      exact hs.present x (hsub x hx) old hold
  · rw [release_gone fun h hmem heq => hout ⟨h, hmem, heq⟩]
    exact hs

theorem Counted.release (hn : s.Numbered) (hs : s.Counted) (handle : ℕ)
    (hown : s.OnOwnRegistration (.release handle)) : (s.release handle).Counted := by
  by_cases hout : ∃ h ∈ s.live, h.handle = handle
  · obtain ⟨h, hmem, rfl⟩ := hout
    intro id subscription hlook
    have hspec := release_spec hn hmem id
    rw [hspec.2.2.2] at hlook
    show subscription.refCount = ((s.release h.handle).live.countP fun x => _ : ℕ)
    rw [hspec.1, countP_erase]
    split at hlook
    next hid =>
      obtain ⟨old, hold, rfl⟩ := Option.map_eq_some_iff.mp hlook
      -- the handle is one of this registration
      have hle := hn.present h hmem old (hid ▸ hold)
      have hnot := hown h hmem rfl old (hid ▸ hold)
      have hsame : h.registration = old.number := by omega
      have hcount := hs id old hold
      have hpos : 0 < s.handlesOf id old.number :=
        inUse_iff.mp ⟨h, hmem, hid.symm, hsame⟩
      rw [if_pos ⟨hmem, by simpa using ⟨hid.symm, hsame⟩⟩]
      rw [handlesOf] at hcount hpos
      show old.refCount - 1 = _
      dsimp only at *
      omega
    next hid =>
      have hcount := hs id subscription hlook
      rw [if_neg fun hboth => hid (by simpa using hboth.2 : h.subId = id ∧ _).1.symm]
      exact hcount
  · rw [release_gone fun h hmem heq => hout ⟨h, hmem, heq⟩]
    exact hs

theorem Numbered.step (hs : s.Numbered) (act : Act) : (s.step act).Numbered := by
  cases act with
  | useSubscription subId => exact hs.useSubscription subId
  | release handle => exact hs.release handle
  | bufferFull subId => exact hs.drop fun _ _ h => (Map.lookup_erase_eq_some.mp h).2
  | restart =>
    refine hs.drop fun subId subscription h => ?_
    rw [AList.lookup_empty] at h
    contradiction
  | cleanup => exact hs.drop fun _ _ h => lookup_of_cleanup h

theorem Counted.step (hn : s.Numbered) (hs : s.Counted) (act : Act)
    (hown : s.OnOwnRegistration act) : (s.step act).Counted := by
  cases act with
  | useSubscription subId => exact Counted.useSubscription hn hs subId
  | release handle => exact Counted.release hn hs handle hown
  | bufferFull subId => exact hs.drop fun _ _ h => (Map.lookup_erase_eq_some.mp h).2
  | restart =>
    refine hs.drop fun subId subscription h => ?_
    rw [AList.lookup_empty] at h
    contradiction
  | cleanup => exact hs.drop fun _ _ h => lookup_of_cleanup h

/-! ### Exactly when the counts are right -/

theorem Counted.cleanup_right (hs : s.Counted) : s.CountsRight .cleanup := by
  intro subId subscription hlook hperpetual
  have hcount := hs subId subscription hlook
  rw [lookup_cleanup, inUse_iff]
  constructor
  · intro hnone
    split at hnone
    next hdelete =>
      obtain ⟨⟨other, hother, hle⟩, -⟩ := mem_subscriptionsToDelete.mp hdelete
      obtain rfl : other = subscription := some.inj (hother.symm.trans hlook)
      omega
    · rw [hlook] at hnone
      contradiction
  · intro hnone
    exact if_pos (mem_subscriptionsToDelete.mpr ⟨⟨subscription, hlook, by omega⟩, hperpetual⟩)

theorem onOwn_of_right (hs : s.Numbered) {act : Act}
    (hright : s.CountsRight act) : s.OnOwnRegistration act := by
  cases act with
  | release handle =>
    rintro h hmem rfl subscription hlook hlt
    have hsame := hright h hmem rfl subscription hlook hlt
    rw [(release_spec hs hmem h.subId).2.2.2, if_pos rfl, hlook, map_some] at hsame
    have hcount := congrArg Registration.refCount (some.inj hsame)
    dsimp only at hcount
    omega
  | useSubscription subId => trivial
  | bufferFull subId => trivial
  | restart => trivial
  | cleanup => trivial

theorem right_of_onOwn (hs : s.Counted) {act : Act}
    (hown : s.OnOwnRegistration act) : s.CountsRight act := by
  cases act with
  | release handle =>
    intro h hmem hhandle subscription hlook hlt
    exact absurd hlt (hown h hmem hhandle subscription hlook)
  | cleanup => exact hs.cleanup_right
  | useSubscription subId => trivial
  | bufferFull subId => trivial
  | restart => trivial

/-- **Counting handles.**  A run counts right, at every cleanup and every release, exactly
when no handle is released while a later registration of its id is there. -/
theorem handles_counted_iff (acts : List Act) :
    Run.Along step CountsRight init acts ↔ Run.Along step OnOwnRegistration init acts := by
  constructor
  · intro h
    have hkeep : ∀ s act, Numbered s → CountsRight s act → Numbered (step s act) :=
      fun s act hs _ => hs.step act
    exact Run.Along.imp hkeep (fun s act hs hright => onOwn_of_right hs hright) numbered_init h
  · intro h
    have hkeep : ∀ s act, (Numbered s ∧ Counted s) → OnOwnRegistration s act →
        (Numbered (step s act) ∧ Counted (step s act)) :=
      fun s act hs hown => ⟨hs.1.step act, Counted.step hs.1 hs.2 act hown⟩
    exact Run.Along.imp hkeep (fun s act hs hown => right_of_onOwn hs.2 hown)
      ⟨numbered_init, counted_init⟩ h

/-- A handle, a full buffer, a new handle under the same id, and the release of the old one:
the cleanup removes the subscription of the new handle. -/
theorem old_handle_uncounts :
    ¬ Run.Along step CountsRight init [.useSubscription "feed", .bufferFull "feed",
      .useSubscription "feed", .release 0, .cleanup] := by
  intro h
  have hcleanup := h.2.2.2.2.1 "feed" ⟨0, 1⟩ (by decide) (by decide)
  refine hcleanup.mp (by decide) ⟨⟨1, "feed", 1⟩, by decide, rfl, rfl⟩

end SubscriptionHandles
end Nipworker
