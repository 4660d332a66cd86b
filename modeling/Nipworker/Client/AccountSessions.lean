/-
Account sessions (`NostrManager.ts`, `lib/BaseBackend.ts`).

The main thread asks the crypto worker for a signer and learns the public key of
the account from the replies.  A reply does not say which request it answers:
it is taken for the one of the session that is pending, or, when none is, for
the key of the active account.
-/
import Nipworker.Lib.Map
import Nipworker.Lib.Run

namespace Nipworker

open List Option

/-! ### Requests and replies -/

/-- The payload of a signer request: nothing, a text, or the two values of a
remote signer. -/
inductive Payload
  | undefined
  | text (value : String)
  | nip46 (url clientSecret : String)
  deriving DecidableEq, Repr

def Payload.key : Payload → String
  | .undefined => "undefined"
  | .text value => value
  | .nip46 _ _ => "[object Object]"

def Payload.falsy (payload : Payload) : Bool := payload = .undefined ∨ payload = .text ""

/-- A session: the type of its signer and the payload it was asked for with. -/
structure SavedSession where
  type : String
  payload : Payload
  deriving DecidableEq, Repr

/-- The request sends a `SetSigner` to the crypto worker. -/
def SavedSession.asksSigner (s : SavedSession) : Bool :=
  if s.type = "privkey" ∨ s.type = "nip07" then true
  else if s.type = "nip46" then
    match s.payload with
    | .nip46 url _ =>
      "bunker://".toList.isPrefixOf url.toList ∨ "nostrconnect://".toList.isPrefixOf url.toList
    | _ => false
  else false

/-- A reply of the crypto worker, with the place of its request among all
requests; the manager does not see the place. -/
structure SignerReply where
  origin : ℕ
  setSigner : Bool
  pubkey : Option String
  bunkerUrl : Option String
  error : Option String
  deriving DecidableEq, Repr

def isPubkeyResult (value : String) : Bool :=
  value.toList.length = 64 ∧
    value.toList.all fun c => c.isDigit ∨ ('a' ≤ c ∧ c ≤ 'f') ∨ ('A' ≤ c ∧ c ≤ 'F')

def SignerReply.pubkeyResult (r : SignerReply) : Option String :=
  if isPubkeyResult (r.pubkey.getD "") then some (r.pubkey.getD "") else none

/-- The bunker URL that goes with the key: a `Pubkey` message has none. -/
def SignerReply.reportedUrl (r : SignerReply) : Option String :=
  if r.setSigner then r.bunkerUrl else none

/-! ### The manager -/

/-- What the manager does: it writes a session, posts to the crypto worker and
dispatches events. -/
inductive SessionEffect
  | saved (pubkey : String) (session : SavedSession)
  | postedSetSigner (session : SavedSession)
  | postedClearSigner
  | auth (pubkey : Option Payload) (hasSigner : Bool) (secretKey : Option Payload)
    (error : Option String)
  | logout
  deriving DecidableEq, Repr

/-- `NostrManager`, as far as it is about sessions: its fields, the two items it
keeps in the storage, and what it has done, newest first.  The last three fields
record the run: the requests so far, newest first, the last one if there is no
logout after it, and the replies, newest first. -/
structure NostrManager where
  activePubkey : Option Payload
  pendingSession : Option SavedSession
  accounts : Map String SavedSession
  storedPubkey : Option String
  log : List SessionEffect
  calls : List SavedSession
  current : Option ℕ
  replies : List SignerReply

namespace NostrManager

def start (accounts : Map String SavedSession) (storedPubkey : Option String) : NostrManager :=
  { activePubkey := none, pendingSession := none, accounts := accounts
    storedPubkey := storedPubkey, log := [], calls := [], current := none, replies := [] }

def saveSession (st : NostrManager) (pubkey : String) (session : SavedSession) : NostrManager :=
  { st with
    accounts := AList.insert pubkey session st.accounts
    storedPubkey := some pubkey
    log := .saved pubkey session :: st.log }

def setSigner (st : NostrManager) (session : SavedSession) : NostrManager :=
  let st := { st with
    pendingSession := some session
    calls := session :: st.calls
    current := some st.calls.length }
  if session.type = "pubkey" then
    let st := { st with
      activePubkey := some session.payload
      log := .postedClearSigner :: st.log }
    let st := st.saveSession session.payload.key session
    { st with
      pendingSession := none
      log := .auth (some session.payload) false none none :: st.log }
  else if session.asksSigner then { st with log := .postedSetSigner session :: st.log }
  else st

/-- `logout`, with `onLogout`. -/
def logout (st : NostrManager) : NostrManager :=
  { st with
    pendingSession := none
    activePubkey := none
    storedPubkey := none
    current := none
    log := .logout :: .postedClearSigner :: st.log }

def switchAccount (st : NostrManager) (pubkey : String) : NostrManager :=
  match st.accounts.lookup pubkey with
  | some session => st.setSigner session
  | none => st

def restoreSession (st : NostrManager) : NostrManager :=
  match st.storedPubkey with
  | some pubkey =>
    if pubkey = "" then { st with log := .auth none false none none :: st.log }
    else st.switchAccount pubkey
  | none => { st with log := .auth none false none none :: st.log }

/-- `removeAccount`, with the order of the keys of the accounts. -/
def removeAccount (st : NostrManager) (keys : IterOrder String) : NostrManager :=
  match st.activePubkey with
  | none => st
  | some pubkey =>
    if pubkey.falsy then st
    else
      let st := { st with accounts := AList.erase pubkey.key st.accounts }
      match keys.order st.accounts.keys with
      | [] => st.logout
      | key :: _ => if key = "" then st.logout else st.switchAccount key

def canAcceptSignerResponse (st : NostrManager) : Bool :=
  st.pendingSession.isSome ∨ st.activePubkey.isSome

def sessionPayloadForSigner (session : SavedSession) (bunkerUrl : Option String) : Payload :=
  match session.payload, bunkerUrl with
  | .nip46 url clientSecret, some bunkerUrl =>
    if session.type = "nip46" ∧ "bunker://".toList.isPrefixOf bunkerUrl.toList then
      .nip46 bunkerUrl clientSecret
    else .nip46 url clientSecret
  | payload, _ => payload

def handleSignerPubkey (st : NostrManager) (pubkey : String) (secretKey : Option Payload)
    (bunkerUrl : Option String) : NostrManager :=
  if st.canAcceptSignerResponse = false then st
  else
    let st := { st with activePubkey := some (.text pubkey) }
    let st := match st.pendingSession with
      | some session =>
        { st.saveSession pubkey ⟨session.type, sessionPayloadForSigner session bunkerUrl⟩ with
          pendingSession := none }
      | none => st
    { st with
      log := .auth st.activePubkey true (secretKey.filter fun key => ¬ key.falsy) none :: st.log }

/-- `handleCryptoResponse`, for the two replies to signer requests. -/
def handleCryptoResponse (st : NostrManager) (r : SignerReply) : NostrManager :=
  if st.canAcceptSignerResponse = false then st
  else
    let secretKey := st.pendingSession.bind fun session =>
      if session.type = "privkey" then some session.payload else none
    match r.pubkeyResult with
    | some pubkey => st.handleSignerPubkey pubkey secretKey r.reportedUrl
    | none =>
      if r.setSigner then
        match r.error with
        | some error =>
          if error = "" then st else { st with log := .auth none false none (some error) :: st.log }
        | none => st
      else { st with log := .auth st.activePubkey false none none :: st.log }

end NostrManager

/-- The calls of the manager, and the replies of its worker. -/
inductive SessionAction
  | setSigner (session : SavedSession)
  | switchAccount (pubkey : String)
  | restoreSession
  | logout
  | removeAccount (keys : IterOrder String)
  | reply (r : SignerReply)

/-- Signer requests, logouts, account switches and replies. -/
def NostrManager.step (st : NostrManager) : SessionAction → NostrManager
  | .setSigner session => st.setSigner session
  | .switchAccount pubkey => st.switchAccount pubkey
  | .restoreSession => st.restoreSession
  | .logout => st.logout
  | .removeAccount keys => st.removeAccount keys
  | .reply r => { st.handleCryptoResponse r with replies := r :: st.replies }

/-! ### What is asked of the sessions -/

/-- The session `saved` for a public key is that of a request whose signer has
the key: it is the request for that very key, or the key is in a reply to the
request, and the type and the payload are those of the request, with the bunker
URL of the reply in the place of its own for a remote signer. -/
def Rightful (st : NostrManager) (pubkey : String) (saved : SavedSession) : Prop :=
  ∃ n call, st.calls.reverse[n]? = some call ∧
    ((call.type = "pubkey" ∧ call.payload.key = pubkey ∧ saved = call) ∨
      ∃ r ∈ st.replies, r.origin = n ∧ r.pubkeyResult = some pubkey ∧ saved.type = call.type ∧
        (saved.payload = call.payload ∨
          ∃ url clientSecret reported, call.type = "nip46" ∧
            call.payload = .nip46 url clientSecret ∧ r.bunkerUrl = some reported ∧
            saved.payload = .nip46 reported clientSecret))

def lastPubkey (replies : List SignerReply) (n : ℕ) : Option String :=
  replies.findSome? fun r => if r.origin = n then r.pubkeyResult else none

/-- The active key is that of the last request, and there is none after a
logout. -/
def ActiveRight (st : NostrManager) : Prop :=
  match st.current with
  | none => st.activePubkey = none
  | some n =>
    (∀ call, st.calls.reverse[n]? = some call → call.type = "pubkey" →
      st.activePubkey = some call.payload) ∧
    ∀ pubkey, lastPubkey st.replies n = some pubkey → st.activePubkey = some (.text pubkey)

/-- The sessions and the accounts are as they were. -/
def SameSession (st st' : NostrManager) : Prop :=
  st'.activePubkey = st.activePubkey ∧ st'.pendingSession = st.pendingSession ∧
    st'.accounts = st.accounts ∧ st'.storedPubkey = st.storedPubkey

/-- A reply to a superseded or logged-out request does not change the session. -/
def StaleIgnored (st : NostrManager) (a : SessionAction) : Prop :=
  ∀ r, a = .reply r → st.current ≠ some r.origin → SameSession st (st.step a)

/-- A reply answers a request that was sent to the crypto worker. -/
def AnswersRequest (st : NostrManager) (a : SessionAction) : Prop :=
  ∀ r, a = .reply r → ∃ call, st.calls.reverse[r.origin]? = some call ∧ call.asksSigner = true

/-- A reply with a public key comes in time: it answers the last request, with
no logout since, or it finds no session, or its key active and nothing pending. -/
def InTime (st : NostrManager) (a : SessionAction) : Prop :=
  ∀ r pubkey, a = .reply r → r.pubkeyResult = some pubkey → st.current = some r.origin ∨
    (st.pendingSession = none ∧
      (st.activePubkey = none ∨ st.activePubkey = some (.text pubkey)))

/-! ### What a reply does -/

namespace NostrManager

variable {st st' : NostrManager} {r : SignerReply} {pubkey : String}

theorem canAccept_false : st.canAcceptSignerResponse = false ↔
    st.pendingSession = none ∧ st.activePubkey = none := by
  simp [canAcceptSignerResponse, isSome_iff_ne_none]

theorem handleCryptoResponse_closed (h : st.canAcceptSignerResponse = false) :
    st.handleCryptoResponse r = st := by
  rw [handleCryptoResponse, if_pos h]

theorem handleCryptoResponse_status (st : NostrManager) (hr : r.pubkeyResult = none) :
    st.handleCryptoResponse r = st ∨
      ∃ key error, st.handleCryptoResponse r = { st with log := .auth key false none error :: st.log } := by
  by_cases hopen : st.canAcceptSignerResponse = false
  · exact Or.inl (handleCryptoResponse_closed hopen)
  rw [handleCryptoResponse, if_neg hopen]
  simp only [hr]
  by_cases hset : r.setSigner = true
  · rw [if_pos hset]
    -- a `SetSignerResponse`: its error, if there is one, is surfaced
    cases r.error with
    | none => exact Or.inl rfl
    | some error =>
      by_cases he : error = ""
      · exact Or.inl (if_pos he)
      · exact Or.inr ⟨none, some error, if_neg he⟩
  · exact Or.inr ⟨st.activePubkey, none, by rw [if_neg hset]⟩

theorem handleCryptoResponse_settled (hr : r.pubkeyResult = some pubkey)
    (hopen : st.canAcceptSignerResponse = true) (hp : st.pendingSession = none) :
    ∃ key secret, st.handleCryptoResponse r =
      { st with activePubkey := some (.text pubkey), log := .auth key true secret none :: st.log } := by
  rw [handleCryptoResponse, if_neg (by simp [hopen])]
  simp only [hr, hp, handleSignerPubkey, hopen]
  exact ⟨_, _, rfl⟩

theorem handleCryptoResponse_pending {session : SavedSession} (hr : r.pubkeyResult = some pubkey)
    (hp : st.pendingSession = some session) :
    ∃ key secret, st.handleCryptoResponse r =
      { st with
        activePubkey := some (.text pubkey)
        pendingSession := none
        accounts := AList.insert pubkey
          ⟨session.type, sessionPayloadForSigner session r.reportedUrl⟩ st.accounts
        storedPubkey := some pubkey
        log := .auth key true secret none ::
          .saved pubkey ⟨session.type, sessionPayloadForSigner session r.reportedUrl⟩ :: st.log } := by
  have hopen : st.canAcceptSignerResponse = true := by simp [canAcceptSignerResponse, hp]
  rw [handleCryptoResponse, if_neg (by simp [hopen])]
  simp only [hr, hp, handleSignerPubkey, hopen]
  exact ⟨_, _, rfl⟩

end NostrManager

theorem SameSession.refl (st : NostrManager) : SameSession st st := ⟨rfl, rfl, rfl, rfl⟩

/-- **Stale replies.**  A reply to a superseded request changes nothing in
exactly the states in which nothing is pending and no key but its own is
active. -/
theorem staleIgnored_iff (st : NostrManager) (a : SessionAction) :
    StaleIgnored st a ↔ InTime st a := by
  constructor
  · intro h r pubkey ha hr
    by_cases hcur : st.current = some r.origin
    · exact Or.inl hcur
    refine Or.inr ?_
    subst ha
    obtain ⟨hactive, hpending, -, -⟩ := h r rfl hcur
    simp only [NostrManager.step] at hactive hpending
    cases hp : st.pendingSession with
    | some session =>
      -- the pending session would be taken away
      obtain ⟨_, _, hst⟩ := NostrManager.handleCryptoResponse_pending hr hp
      rw [hst, hp] at hpending
      exact absurd hpending (by simp)
    | none =>
      by_cases hopen : st.canAcceptSignerResponse = true
      · obtain ⟨_, _, hst⟩ := NostrManager.handleCryptoResponse_settled hr hopen hp
        rw [hst] at hactive
        exact ⟨rfl, Or.inr hactive.symm⟩
      · exact ⟨rfl, Or.inl (NostrManager.canAccept_false.mp (by simpa using hopen)).2⟩
  · intro h r ha hcur
    subst ha
    cases hr : r.pubkeyResult with
    | none =>
      rcases NostrManager.handleCryptoResponse_status st hr with hst | ⟨_, _, hst⟩
      · simp only [NostrManager.step, hst]
        exact SameSession.refl st
      · simp only [NostrManager.step, hst]
        exact SameSession.refl st
    | some pubkey =>
      obtain hin | ⟨hp, hactive⟩ := h r pubkey rfl hr
      · exact absurd hin hcur
      by_cases hopen : st.canAcceptSignerResponse = true
      · -- the key is written over itself
        obtain ⟨_, _, hst⟩ := NostrManager.handleCryptoResponse_settled hr hopen hp
        have hkey : st.activePubkey = some (.text pubkey) := by
          refine hactive.resolve_left fun hnone => ?_
          rw [NostrManager.canAccept_false.mpr ⟨hp, hnone⟩] at hopen
          exact absurd hopen (by simp)
        simp only [NostrManager.step, hst]
        exact ⟨hkey.symm, rfl, rfl, rfl⟩
      · simp only [NostrManager.step,
          NostrManager.handleCryptoResponse_closed (by simpa using hopen)]
        exact SameSession.refl st

/-! ### The other steps -/

namespace NostrManager

/-- What a step other than a reply comes to: it starts a session or ends one, or
it touches at most the accounts, and dispatches. -/
def Manages (st st' : NostrManager) : Prop :=
  ∃ accounts,
    (∃ session, st' = ({ st with accounts := accounts } : NostrManager).setSigner session) ∨
    st' = ({ st with accounts := accounts } : NostrManager).logout ∨
    st' = { st with accounts := accounts } ∨
    st' = { st with accounts := accounts, log := .auth none false none none :: st.log }

variable (st : NostrManager)

theorem switchAccount_manages (accounts : Map String SavedSession) (pubkey : String) :
    Manages st (({ st with accounts := accounts } : NostrManager).switchAccount pubkey) := by
  refine ⟨accounts, ?_⟩
  rw [switchAccount]
  split
  next session _ => exact Or.inl ⟨session, rfl⟩
  next => exact Or.inr (Or.inr (Or.inl rfl))

theorem restoreSession_manages : Manages st st.restoreSession := by
  rw [restoreSession]
  split
  next pubkey _ =>
    by_cases hp : pubkey = ""
    · rw [if_pos hp]
      exact ⟨st.accounts, Or.inr (Or.inr (Or.inr rfl))⟩
    · rw [if_neg hp]
      exact switchAccount_manages st st.accounts pubkey
  next => exact ⟨st.accounts, Or.inr (Or.inr (Or.inr rfl))⟩

theorem removeAccount_manages (keys : IterOrder String) : Manages st (st.removeAccount keys) := by
  rw [removeAccount]
  split
  next => exact ⟨st.accounts, Or.inr (Or.inr (Or.inl rfl))⟩
  next active _ =>
    by_cases hf : active.falsy = true
    · rw [if_pos hf]
      exact ⟨st.accounts, Or.inr (Or.inr (Or.inl rfl))⟩
    rw [if_neg hf]
    dsimp only
    -- the first of the accounts that remain, if there is one, is switched to
    split
    next => exact ⟨AList.erase active.key st.accounts, Or.inr (Or.inl rfl)⟩
    next key _ _ =>
      by_cases hk : key = ""
      · rw [if_pos hk]
        exact ⟨AList.erase active.key st.accounts, Or.inr (Or.inl rfl)⟩
      · rw [if_neg hk]
        exact switchAccount_manages st (AList.erase active.key st.accounts) key

theorem step_manages (a : SessionAction) (ha : ∀ r, a ≠ .reply r) : Manages st (st.step a) := by
  cases a with
  | setSigner session => exact ⟨st.accounts, Or.inl ⟨session, rfl⟩⟩
  | switchAccount pubkey => exact switchAccount_manages st st.accounts pubkey
  | restoreSession => exact restoreSession_manages st
  | logout => exact ⟨st.accounts, Or.inr (Or.inl rfl)⟩
  | removeAccount keys => exact removeAccount_manages st keys
  | reply r => exact absurd rfl (ha r)

end NostrManager

/-! ### The invariant of timely runs -/

/-- What every timely run keeps: the pending session is the last request, and a
request opens the manager for replies. -/
structure SessionInv (st : NostrManager) : Prop where
  pending : ∀ session, st.pendingSession = some session →
    ∃ n, st.current = some n ∧ st.calls.reverse[n]? = some session
  accepts : ∀ n, st.current = some n → st.canAcceptSignerResponse = true
  origins : ∀ r ∈ st.replies, r.origin < st.calls.length
  active : ActiveRight st
  saved : ∀ pubkey session, .saved pubkey session ∈ st.log → Rightful st pubkey session

theorem SessionInv.start (accounts : Map String SavedSession) (stored : Option String) :
    SessionInv (NostrManager.start accounts stored) := by
  refine ⟨?_, ?_, ?_, rfl, ?_⟩ <;> simp [NostrManager.start]

theorem getElem?_reverse_cons {α : Type*} {xs : List α} {n : ℕ} {x : α} (y : α)
    (h : xs.reverse[n]? = some x) : (y :: xs).reverse[n]? = some x := by
  obtain ⟨hn, -⟩ := List.getElem?_eq_some_iff.mp h
  rw [reverse_cons, List.getElem?_append_left hn]
  exact h

theorem getElem?_reverse_length {α : Type*} (xs : List α) (y : α) :
    (y :: xs).reverse[xs.length]? = some y := by
  rw [reverse_cons, List.getElem?_append_right (by simp)]
  simp

theorem Rightful.mono {st st' : NostrManager} {pubkey : String} {session : SavedSession}
    (h : Rightful st pubkey session)
    (hcalls : ∀ (n : ℕ) call, st.calls.reverse[n]? = some call → st'.calls.reverse[n]? = some call)
    (hreplies : ∀ r ∈ st.replies, r ∈ st'.replies) : Rightful st' pubkey session := by
  obtain ⟨n, call, hn, hown | ⟨r, hr, horigin⟩⟩ := h
  · exact ⟨n, call, hcalls n call hn, Or.inl hown⟩
  · exact ⟨n, call, hcalls n call hn, Or.inr ⟨r, hreplies r hr, horigin⟩⟩

theorem asksSigner_type {session : SavedSession} (h : session.asksSigner = true) :
    session.type ≠ "pubkey" := by
  intro ht
  simp [SavedSession.asksSigner, ht] at h

theorem SessionInv.lastPubkey_next {st : NostrManager} (h : SessionInv st) :
    lastPubkey st.replies st.calls.length = none := by
  refine List.findSome?_eq_none_iff.mpr fun r hr => if_neg ?_
  exact Nat.ne_of_lt (h.origins r hr)

namespace SessionInv

variable {st : NostrManager} {r : SignerReply} {pubkey : String}

theorem withAccounts (h : SessionInv st) (accounts : Map String SavedSession) :
    SessionInv { st with accounts := accounts } :=
  ⟨h.pending, h.accepts, h.origins, h.active, h.saved⟩

theorem dispatch (h : SessionInv st) (key : Option Payload) (hasSigner : Bool)
    (secret : Option Payload) (error : Option String) :
    SessionInv { st with log := .auth key hasSigner secret error :: st.log } := by
  refine ⟨h.pending, h.accepts, h.origins, h.active, fun pubkey session hmem => ?_⟩
  rw [mem_cons] at hmem
  exact h.saved pubkey session (hmem.resolve_left (by simp))

theorem logout (h : SessionInv st) : SessionInv st.logout := by
  refine ⟨by simp [NostrManager.logout], by simp [NostrManager.logout], h.origins, rfl,
    fun pubkey session hmem => ?_⟩
  simp only [NostrManager.logout, mem_cons, reduceCtorEq, false_or] at hmem
  exact h.saved pubkey session hmem

theorem setSigner (h : SessionInv st) (session : SavedSession) :
    SessionInv (st.setSigner session) := by
  have hlast := getElem?_reverse_length st.calls session
  have hcalls : ∀ (n : ℕ) call, st.calls.reverse[n]? = some call →
      (session :: st.calls).reverse[n]? = some call :=
    fun n call hn => getElem?_reverse_cons session hn
  have horigins : ∀ r ∈ st.replies, r.origin < (session :: st.calls).length := by
    intro r hr
    rw [length_cons]
    exact Nat.lt_succ_of_lt (h.origins r hr)
  -- no reply to the new request has come yet
  have hnext := h.lastPubkey_next
  by_cases ht : session.type = "pubkey"
  · -- a read-only account: saved at once, nothing is pending
    simp only [NostrManager.setSigner, if_pos ht, NostrManager.saveSession]
    refine ⟨by simp, by simp [NostrManager.canAcceptSignerResponse], horigins, ?_, ?_⟩
    · refine ⟨fun call hcall _ => ?_, fun pubkey hpub => ?_⟩
      · rw [hlast] at hcall
        rw [some.inj hcall]
      · rw [hnext] at hpub
        exact absurd hpub (by simp)
    · intro pubkey saved hmem
      simp only [mem_cons, reduceCtorEq, false_or] at hmem
      obtain heq | hmem := hmem
      · obtain ⟨rfl, rfl⟩ := SessionEffect.saved.inj heq
        exact ⟨st.calls.length, saved, hlast, Or.inl ⟨ht, rfl, rfl⟩⟩
      · exact (h.saved pubkey saved hmem).mono hcalls fun r hr => hr
  · -- the request is pending until a key comes
    have hactive : ∀ st' : NostrManager, st'.current = some st.calls.length →
        st'.calls = session :: st.calls → st'.replies = st.replies → ActiveRight st' := by
      intro st' hcur hc hr
      simp only [ActiveRight, hcur, hc, hr, hlast, hnext]
      refine ⟨fun call hcall htype => ?_, by simp⟩
      exact absurd (some.inj hcall ▸ htype) ht
    simp only [NostrManager.setSigner, if_neg ht]
    by_cases hasks : session.asksSigner = true
    · rw [if_pos hasks]
      refine ⟨?_, by simp [NostrManager.canAcceptSignerResponse], horigins, hactive _ rfl rfl rfl, ?_⟩
      · intro s hs
        exact ⟨st.calls.length, rfl, some.inj hs ▸ hlast⟩
      · intro pubkey saved hmem
        rw [mem_cons] at hmem
        exact (h.saved pubkey saved (hmem.resolve_left (by simp))).mono hcalls fun r hr => hr
    · rw [if_neg hasks]
      refine ⟨?_, by simp [NostrManager.canAcceptSignerResponse], horigins, hactive _ rfl rfl rfl, ?_⟩
      · intro s hs
        exact ⟨st.calls.length, rfl, some.inj hs ▸ hlast⟩
      · intro pubkey saved hmem
        exact (h.saved pubkey saved hmem).mono hcalls fun r hr => hr

theorem manages {st' : NostrManager} (h : SessionInv st) (hst : NostrManager.Manages st st') :
    SessionInv st' := by
  obtain ⟨accounts, ⟨session, rfl⟩ | rfl | rfl | rfl⟩ := hst
  · exact (h.withAccounts accounts).setSigner session
  · exact (h.withAccounts accounts).logout
  · exact h.withAccounts accounts
  · exact (h.withAccounts accounts).dispatch none false none none

theorem quiet (h : SessionInv st) (horigin : r.origin < st.calls.length)
    (hq : st.current = some r.origin → r.pubkeyResult = none) :
    SessionInv { st with replies := r :: st.replies } := by
  refine ⟨h.pending, h.accepts, ?_, ?_, ?_⟩
  · intro s hs
    rw [mem_cons] at hs
    obtain rfl | hs := hs
    · exact horigin
    · exact h.origins s hs
  · have hactive := h.active
    simp only [ActiveRight] at hactive ⊢
    cases hcur : st.current with
    | none =>
      rw [hcur] at hactive
      exact hactive
    | some n =>
      rw [hcur] at hactive hq
      -- the last key of the last request is the one it was
      have hlast : lastPubkey (r :: st.replies) n = lastPubkey st.replies n := by
        simp only [lastPubkey, List.findSome?_cons]
        by_cases hn : r.origin = n
        · rw [if_pos hn, hq (congrArg some hn.symm)]
        · rw [if_neg hn]
      exact ⟨hactive.1, fun pubkey hpub => hactive.2 pubkey (hlast ▸ hpub)⟩
  · intro pubkey session hmem
    exact (h.saved pubkey session hmem).mono (fun _ _ hn => hn) fun s hs => mem_cons_of_mem r hs

/-- The session that is saved for a key has the type and the payload of the
pending one, up to the bunker URL of the reply. -/
theorem payload_forSigner (session : SavedSession) (r : SignerReply) :
    NostrManager.sessionPayloadForSigner session r.reportedUrl = session.payload ∨
      ∃ url clientSecret reported, session.type = "nip46" ∧
        session.payload = .nip46 url clientSecret ∧ r.bunkerUrl = some reported ∧
        NostrManager.sessionPayloadForSigner session r.reportedUrl =
          .nip46 reported clientSecret := by
  unfold NostrManager.sessionPayloadForSigner
  split
  next url clientSecret reported hpayload hurl =>
    rw [SignerReply.reportedUrl] at hurl
    by_cases hset : r.setSigner = true
    · rw [if_pos hset] at hurl
      by_cases hb : session.type = "nip46" ∧ "bunker://".toList.isPrefixOf reported.toList
      · exact Or.inr ⟨url, clientSecret, reported, hb.1, hpayload, hurl, if_pos hb⟩
      · exact Or.inl ((if_neg hb).trans hpayload.symm)
    · rw [if_neg hset] at hurl
      exact absurd hurl (by simp)
  next => exact Or.inl rfl

theorem answered {call : SavedSession} (h : SessionInv st) (hcur : st.current = some r.origin)
    (hcall : st.calls.reverse[r.origin]? = some call) (hasks : call.asksSigner = true)
    (hr : r.pubkeyResult = some pubkey) :
    SessionInv { st.handleCryptoResponse r with replies := r :: st.replies } := by
  have horigins : ∀ s ∈ r :: st.replies, s.origin < st.calls.length := by
    intro s hs
    rw [mem_cons] at hs
    obtain rfl | hs := hs
    · have hlt := (List.getElem?_eq_some_iff.mp hcall).1
      rwa [length_reverse] at hlt
    · exact h.origins s hs
  have hactive : ∀ st' : NostrManager, st'.current = st.current → st'.calls = st.calls →
      st'.activePubkey = some (.text pubkey) → st'.replies = r :: st.replies → ActiveRight st' := by
    intro st' hcur' hcalls' hkey hreplies
    simp only [ActiveRight, hcur', hcur, hcalls', hcall, hkey, hreplies]
    refine ⟨fun c hc htype => ?_, fun p hp => ?_⟩
    · exact absurd (some.inj hc ▸ htype) (asksSigner_type hasks)
    · simp only [lastPubkey, List.findSome?_cons, if_pos, hr] at hp
      rw [some.inj hp]
  cases hp : st.pendingSession with
  | none =>
    obtain ⟨key, secret, hst⟩ :=
      NostrManager.handleCryptoResponse_settled hr (h.accepts r.origin hcur) hp
    rw [hst]
    refine ⟨?_, ?_, horigins, hactive _ rfl rfl rfl rfl, ?_⟩
    · intro session hs
      exact absurd (hp.symm.trans hs) (by simp)
    · intro n _
      simp [NostrManager.canAcceptSignerResponse]
    · intro p saved hmem
      rw [mem_cons] at hmem
      exact (h.saved p saved (hmem.resolve_left (by simp))).mono (fun _ _ hn => hn)
        fun s hs => mem_cons_of_mem r hs
  | some session =>
    -- the pending session is the request that is answered
    obtain ⟨n, hn, hsession⟩ := h.pending session hp
    obtain rfl := some.inj (hcur.symm.trans hn)
    obtain ⟨key, secret, hst⟩ := NostrManager.handleCryptoResponse_pending hr hp
    rw [hst]
    refine ⟨by simp, ?_, horigins, hactive _ rfl rfl rfl rfl, ?_⟩
    · intro n _
      simp [NostrManager.canAcceptSignerResponse]
    · intro p saved hmem
      simp only [mem_cons, reduceCtorEq, false_or] at hmem
      obtain heq | hmem := hmem
      · obtain ⟨rfl, rfl⟩ := SessionEffect.saved.inj heq
        exact ⟨r.origin, session, hsession, Or.inr ⟨r, mem_cons_self, rfl, hr, rfl,
          payload_forSigner session r⟩⟩
      · exact (h.saved p saved hmem).mono (fun _ _ hn => hn)
          fun s hs => mem_cons_of_mem r hs

theorem reply (h : SessionInv st) (hans : AnswersRequest st (.reply r)) (hin : InTime st (.reply r)) :
    SessionInv (st.step (.reply r)) := by
  obtain ⟨call, hcall, hasks⟩ := hans r rfl
  have horigin : r.origin < st.calls.length := by
    have hlt := (List.getElem?_eq_some_iff.mp hcall).1
    rwa [length_reverse] at hlt
  simp only [NostrManager.step]
  cases hr : r.pubkeyResult with
  | none =>
    have hquiet := h.quiet horigin fun _ => hr
    obtain hst | ⟨key, error, hst⟩ := NostrManager.handleCryptoResponse_status st hr
    · rw [hst]
      exact hquiet
    · rw [hst]
      exact hquiet.dispatch key false none error
  | some pubkey =>
    by_cases hcur : st.current = some r.origin
    · exact h.answered hcur hcall hasks hr
    have hquiet := h.quiet horigin fun hc => absurd hc hcur
    obtain ⟨hp, hactive⟩ := (hin r pubkey rfl hr).resolve_left hcur
    by_cases hopen : st.canAcceptSignerResponse = true
    · -- the key of a superseded request is the active one already
      have hkey : st.activePubkey = some (.text pubkey) := by
        refine hactive.resolve_left fun hnone => ?_
        rw [NostrManager.canAccept_false.mpr ⟨hp, hnone⟩] at hopen
        exact absurd hopen (by simp)
      obtain ⟨key, secret, hst⟩ := NostrManager.handleCryptoResponse_settled hr hopen hp
      rw [hst, ← hkey]
      exact hquiet.dispatch key true secret none
    · rw [NostrManager.handleCryptoResponse_closed (by simpa using hopen)]
      exact hquiet

theorem step (h : SessionInv st) (a : SessionAction) (hstep : AnswersRequest st a ∧ InTime st a) :
    SessionInv (st.step a) := by
  by_cases ha : ∃ r, a = .reply r
  · obtain ⟨r, rfl⟩ := ha
    exact h.reply hstep.1 hstep.2
  · exact h.manages (st.step_manages a fun r hr => ha ⟨r, hr⟩)

end SessionInv

/-! ### Runs -/

/-- **Sessions.**  In exactly the runs in which every key comes in time, replies
to superseded and logged-out requests change nothing; and in these every
session that was ever saved is rightful and the active key is that of the last
request. -/
theorem sessions_rightful_iff (accounts : Map String SavedSession) (stored : Option String)
    (acts : List SessionAction)
    (hanswers : Run.Along NostrManager.step AnswersRequest (NostrManager.start accounts stored) acts) :
    (Run.Along NostrManager.step StaleIgnored (NostrManager.start accounts stored) acts ∧
      (∀ pubkey saved,
        .saved pubkey saved ∈
          (Run.exec NostrManager.step (NostrManager.start accounts stored) acts).log →
        Rightful (Run.exec NostrManager.step (NostrManager.start accounts stored) acts)
          pubkey saved) ∧
      ActiveRight (Run.exec NostrManager.step (NostrManager.start accounts stored) acts)) ↔
    Run.Along NostrManager.step InTime (NostrManager.start accounts stored) acts := by
  constructor
  · rintro ⟨hstale, -, -⟩
    exact hstale.mono fun st a h => (staleIgnored_iff st a).mp h
  · intro hin
    have hkeep : ∀ st a, SessionInv st → AnswersRequest st a ∧ InTime st a →
        SessionInv (NostrManager.step st a) := fun _ a h hstep => h.step a hstep
    have hinv := Run.Along.exec hkeep (SessionInv.start accounts stored) (hanswers.and hin)
    exact ⟨hin.mono fun st a h => (staleIgnored_iff st a).mpr h, hinv.saved, hinv.active⟩

def plainKey (digit : Char) : String := String.ofList (List.replicate 64 digit)

def plainReply (origin : ℕ) (digit : Char) : SignerReply :=
  ⟨origin, true, some (plainKey digit), none, none⟩

/-- A login with a private key, and its reply. -/
theorem sessions_rightful_login :
    Run.Along NostrManager.step AnswersRequest (NostrManager.start ∅ none)
      [.setSigner ⟨"privkey", .text "secret"⟩, .reply (plainReply 0 'a')] ∧
    Run.Along NostrManager.step InTime (NostrManager.start ∅ none)
      [.setSigner ⟨"privkey", .text "secret"⟩, .reply (plainReply 0 'a')] ∧
    (Run.exec NostrManager.step (NostrManager.start ∅ none)
      [.setSigner ⟨"privkey", .text "secret"⟩, .reply (plainReply 0 'a')]).activePubkey =
        some (.text (plainKey 'a')) := by
  have hanswers : Run.Along NostrManager.step AnswersRequest (NostrManager.start ∅ none)
      [.setSigner ⟨"privkey", .text "secret"⟩, .reply (plainReply 0 'a')] := by
    refine ⟨fun r h => absurd h (by simp), fun r h => ?_, trivial⟩
    obtain rfl := SessionAction.reply.inj h
    exact ⟨_, rfl, by decide⟩
  have hin : Run.Along NostrManager.step InTime (NostrManager.start ∅ none)
      [.setSigner ⟨"privkey", .text "secret"⟩, .reply (plainReply 0 'a')] := by
    refine ⟨fun r pubkey h => absurd h (by simp), fun r pubkey h _ => ?_, trivial⟩
    obtain rfl := SessionAction.reply.inj h
    exact Or.inl rfl
  have hright := (sessions_rightful_iff ∅ none _ hanswers).mpr hin
  exact ⟨hanswers, hin, hright.2.2.2 (plainKey 'a') (by decide)⟩

/-- **Two logins that overlap.**  The reply to the first request finds the second
one pending: the private key of the second account is saved for the public key
of the first. -/
theorem overlapping_replies_mix_keys :
    Run.Along NostrManager.step AnswersRequest (NostrManager.start ∅ none)
      [.setSigner ⟨"privkey", .text "first"⟩, .setSigner ⟨"privkey", .text "second"⟩,
        .reply (plainReply 0 'a'), .reply (plainReply 1 'b')] ∧
    (Run.exec NostrManager.step (NostrManager.start ∅ none)
      [.setSigner ⟨"privkey", .text "first"⟩, .setSigner ⟨"privkey", .text "second"⟩,
        .reply (plainReply 0 'a'), .reply (plainReply 1 'b')]).accounts.lookup (plainKey 'a') =
      some ⟨"privkey", .text "second"⟩ ∧
    ¬ ∀ pubkey saved,
      .saved pubkey saved ∈ (Run.exec NostrManager.step (NostrManager.start ∅ none)
        [.setSigner ⟨"privkey", .text "first"⟩, .setSigner ⟨"privkey", .text "second"⟩,
          .reply (plainReply 0 'a'), .reply (plainReply 1 'b')]).log →
      Rightful (Run.exec NostrManager.step (NostrManager.start ∅ none)
        [.setSigner ⟨"privkey", .text "first"⟩, .setSigner ⟨"privkey", .text "second"⟩,
          .reply (plainReply 0 'a'), .reply (plainReply 1 'b')]) pubkey saved := by
  refine ⟨⟨fun r h => absurd h (by simp), fun r h => absurd h (by simp), fun r h => ?_,
    fun r h => ?_, trivial⟩, by decide, fun h => ?_⟩
  · obtain rfl := SessionAction.reply.inj h
    exact ⟨_, rfl, by decide⟩
  · obtain rfl := SessionAction.reply.inj h
    exact ⟨⟨"privkey", .text "second"⟩, by decide, by decide⟩
  · obtain ⟨n, call, hcall, ⟨htype, -, hsaved⟩ | ⟨r, hr, horigin, hkey, -, hpayload⟩⟩ :=
      h (plainKey 'a') ⟨"privkey", .text "second"⟩ (by decide)
    · rw [← hsaved] at htype
      exact absurd htype (by simp)
    · have hreplies : r ∈ [plainReply 1 'b', plainReply 0 'a'] := by
        convert hr using 1
        decide
      have hfirst : (⟨"privkey", .text "first"⟩ : SavedSession) = call := by
        -- the only reply with this key is that to the first request
        have hzero : r = plainReply 0 'a' := by
          rw [mem_pair] at hreplies
          refine hreplies.resolve_left fun hb => ?_
          rw [hb] at hkey
          exact absurd hkey (by decide)
        rw [← horigin, hzero] at hcall
        refine some.inj (Eq.trans ?_ hcall)
        decide
      rw [← hfirst] at hpayload
      simp at hpayload

end Nipworker
