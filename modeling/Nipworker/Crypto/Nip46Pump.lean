/-
The NIP-46 response pump (`crypto/signers/nip46/pump.rs`, `mod.rs`).

The client of a remote signer asks it through relays and waits for the answer
in `pending`.  The pump reads what the relays deliver on the session's
subscription and fills `pending`; the call that waits for an id takes the entry
out.  With an empty configured key (QR mode) the signer is the one that answers
with the expected secret.

The pump never compares the author of an event with the signer.  The
decryption routines rest on curve arithmetic and are parameters.
-/
import Nipworker.Lib.Json
import Nipworker.Lib.Run
import Nipworker.Types.Nostr

namespace Nipworker

open List Option

/-- `Nip46Config` and the client's key, as far as the pump reads them. -/
structure Nip46Config where
  remoteSignerPubkey : String
  useNip44 : Bool
  expectedSecret : Option String
  clientPubkeyHex : String

def Nip46Config.subId (cfg : Nip46Config) : String :=
  "n46:" ++ String.ofList (cfg.clientPubkeyHex.toList.take 60)

/-- A `WorkerMessage`: its subscription id, and its text when its content is
`Raw`. -/
structure RawMessage where
  subId : Option String
  raw : Option String

/-- The readers and ciphers the pump calls: FlatBuffers, `serde_json`, and NIP-44
and NIP-04 with the client's secret key. -/
structure PumpReaders where
  workerMessage : Bytes → Option RawMessage
  serde : SerdeJson
  Key : Type
  deriveKey : Bytes32 → Option Key
  nip44Decrypt : Key → String → Option String
  nip04Decrypt : Bytes32 → String → Option String

/-- What the pump writes to the cells it shares with the signer. -/
inductive PumpEffect
  | authChallenge (url rid : String)
  | discover (pubkey : String)
  | insertPending (rid : String) (outcome : Except String String)

/-- The cells that the pump shares with the calls. -/
structure PumpState where
  pending : Map String (Except String String)
  discoveredRemotePubkey : Option String
  authPending : Map String Unit
  closed : Bool

namespace PumpState

def new : PumpState :=
  { pending := ∅, discoveredRemotePubkey := none, authPending := ∅, closed := false }

def apply (s : PumpState) : PumpEffect → PumpState
  | .authChallenge _ rid => { s with authPending := s.authPending.insert rid () }
  | .discover pubkey => { s with discoveredRemotePubkey := some pubkey }
  | .insertPending rid outcome => { s with pending := s.pending.insert rid outcome }

end PumpState

/-! ### The code -/

namespace Pump

variable (cfg : Nip46Config) (readers : PumpReaders)

/-- The configured key when there is one, else the key of the event's author. -/
def decryptHelper (cipher senderPkHex : String) : Option String :=
  let pkToUse := if cfg.remoteSignerPubkey = "" then senderPkHex else cfg.remoteSignerPubkey
  match publicKeyFromHex pkToUse with
  | .error _ => none
  | .ok remotePk =>
    if cfg.useNip44 then
      match readers.deriveKey remotePk with
      | none => none
      | some key =>
        match readers.nip44Decrypt key cipher with
        | some plaintext => some plaintext
        | none => readers.nip04Decrypt remotePk cipher
    else readers.nip04Decrypt remotePk cipher

def authUrl (rpc : Json) : Option String :=
  if (rpc.get "result").bind Json.asStr = some "auth_url" then
    ((rpc.get "error").bind Json.asStr).filter fun url => url ≠ ""
  else none

def responseId (rpc : Json) : String := ((rpc.get "id").bind Json.asStr).getD ""

/-- The value of a response: its error text, or its result as text. -/
def responseOutcome (rpc : Json) : Except String String :=
  match (rpc.get "error").bind Json.asStr with
  | some e => .error e
  | none =>
    .ok (((rpc.get "result").map fun v => v.asStr.getD (readers.serde.toText v)).getD "")

/-- The response carries no error and its result is the expected secret. -/
def matchesSecret (rpc : Json) : Bool :=
  ((rpc.get "error").bind Json.asStr).isNone &&
    cfg.expectedSecret.isSome && (rpc.get "result").bind Json.asStr == cfg.expectedSecret

def processRpcResponse (plaintext eventPubkey : String) : List PumpEffect :=
  match readers.serde.fromStr plaintext with
  | none => []
  | some rpc =>
    match authUrl rpc with
    | some url => [.authChallenge url (responseId rpc)]
    | none =>
      (if matchesSecret cfg rpc then [.discover eventPubkey] else []) ++
        [.insertPending (responseId rpc) (responseOutcome readers rpc)]

/-- The event that reaches decryption: of kind 24133, with the client in a `p`
tag, and on the session's subscription where the frame names one. -/
def addressedEvent (second third : Option String) : Option SignedEvent :=
  match third with
  | none => none
  | some evtJson =>
    if second.any fun sub =>
        String.ofList (Text.trimMatches (· = '"') sub.toList) ≠ cfg.subId then none
    else
      match SignedEvent.fromJson evtJson with
      | .error _ => none
      | .ok event =>
        if event.kind ≠ 24133 then none
        else if event.tags.any fun tag =>
            tag[0]? = some "p" ∧ tag[1]? = some cfg.clientPubkeyHex then some event
        else none

/-- The part of `handle_nip46_frame` that finds the event: a `WorkerMessage`
first, then the text of a relay frame. -/
def frameEvent (bytes : Bytes) : Option SignedEvent :=
  match readers.workerMessage bytes with
  | some wm => if wm.subId.getD "" ≠ cfg.subId then none else addressedEvent cfg none wm.raw
  | none =>
    match String.fromUTF8? bytes.toByteArray with
    | none => none
    | some text =>
      match extractFirstThree text with
      | none => none
      | some (first, second, third) =>
        if first = some "\"EVENT\"" ∨ first = some "\"event\"" then
          addressedEvent cfg second third
        else none

/-- `handle_nip46_event`, after the event is found. -/
def eventEffects (event : SignedEvent) : List PumpEffect :=
  match decryptHelper cfg readers event.content event.pubkey.toHex with
  | none => []
  | some plaintext => processRpcResponse cfg readers plaintext event.pubkey.toHex

/-- `handle_nip46_frame`. -/
def frameEffects (bytes : Bytes) : List PumpEffect :=
  match frameEvent cfg readers bytes with
  | none => []
  | some event => eventEffects cfg readers event

/-- What happens in a session: a frame arrives, a waiting call looks for its
answer (`await_response`) or gives up, the session is closed. -/
inductive Step
  | frame (bytes : Bytes)
  | poll (id : String)
  | timeout (id : String)
  | close

/-- Frames, waiting calls and the end of the session. -/
def step (s : PumpState) : Step → PumpState
  | .frame bytes => (frameEffects cfg readers bytes).foldl PumpState.apply s
  | .poll id =>
    if s.closed then { s with authPending := s.authPending.erase id }
    else
      match s.pending.lookup id with
      | none => s
      | some _ =>
        { s with pending := s.pending.erase id, authPending := s.authPending.erase id }
  | .timeout id => { s with authPending := s.authPending.erase id }
  | .close =>
    if s.closed then s else { s with pending := ∅, authPending := ∅, closed := true }

def resolved (s : PumpState) (id : String) : Option (Except String String) :=
  if s.closed then none else s.pending.lookup id

/-! ### The property -/

/-- The signer of the session, once it is known: the configured one, or in QR
mode the one that was discovered. -/
def signer (s : PumpState) : Option Bytes32 :=
  if cfg.remoteSignerPubkey = "" then
    s.discoveredRemotePubkey.bind fun pk => (publicKeyFromHex pk).toOption
  else (publicKeyFromHex cfg.remoteSignerPubkey).toOption

/-- Whatever the frame inserts came in an event of the signer, if that is known. -/
def FromSigner (s : PumpState) (bytes : Bytes) : Prop :=
  ∀ key rid outcome, signer cfg s = some key →
    .insertPending rid outcome ∈ frameEffects cfg readers bytes →
      ∃ event, frameEvent cfg readers bytes = some event ∧ event.pubkey = key

/-- A step is bound to the signer: what it inserts comes from the signer, and a
discovered signer stays. -/
structure Bound (s : PumpState) (act : Step) : Prop where
  entered : ∀ bytes, act = .frame bytes → FromSigner cfg readers s bytes
  kept : ∀ pk, s.discoveredRemotePubkey = some pk →
    (step cfg readers s act).discoveredRemotePubkey = some pk

/-- A session is bound to the signer: every step is, and every call is resolved
by a value that a frame inserted which is bound to it. -/
structure SessionBound (acts : List Step) : Prop where
  steps : Run.Along (step cfg readers) (Bound cfg readers) PumpState.new acts
  resolves : ∀ before after id outcome, acts = before ++ after →
    resolved (Run.exec (step cfg readers) PumpState.new before) id = some outcome →
      ∃ earlier bytes later, before = earlier ++ .frame bytes :: later ∧
        .insertPending id outcome ∈ frameEffects cfg readers bytes ∧
        FromSigner cfg readers (Run.exec (step cfg readers) PumpState.new earlier) bytes

def isAnswer (plaintext : String) : Bool :=
  match readers.serde.fromStr plaintext with
  | none => false
  | some rpc => (authUrl rpc).isNone

/-- The condition: once the signer is known, no event of anybody else decrypts,
with the key the pump takes for it, to an answer. -/
def NoForeignAnswer (s : PumpState) (act : Step) : Prop :=
  ∀ bytes key event plaintext, act = .frame bytes → signer cfg s = some key →
    frameEvent cfg readers bytes = some event →
    decryptHelper cfg readers event.content event.pubkey.toHex = some plaintext →
    isAnswer readers plaintext = true → event.pubkey = key

variable {cfg readers}

/-! ### What a frame does -/

theorem frameEvent_of_read {bytes : Bytes} {text : String} {event : SignedEvent}
    (hmessage : readers.workerMessage bytes = some ⟨some cfg.subId, some text⟩)
    (hread : SignedEvent.fromJson text = .ok event) (hkind : event.kind = 24133)
    (htag : event.tags.any (fun tag =>
      tag[0]? = some "p" ∧ tag[1]? = some cfg.clientPubkeyHex) = true) :
    frameEvent cfg readers bytes = some event := by
  rw [frameEvent, hmessage]
  dsimp only
  rw [getD_some, if_neg (by simp), addressedEvent, any_none, if_neg (by simp),
    hread]
  dsimp only
  rw [if_neg (by simp [hkind]), if_pos htag]

variable {plaintext : String} {outcome : Except String String} {s : PumpState} {act : Step}

theorem mem_processRpcResponse {pk : String} {effect : PumpEffect}
    (h : effect ∈ processRpcResponse cfg readers plaintext pk) :
    (∃ url rid, effect = .authChallenge url rid) ∨
      isAnswer readers plaintext = true ∧
        (effect = .discover pk ∨ ∃ rid outcome, effect = .insertPending rid outcome) := by
  rw [processRpcResponse] at h
  rw [isAnswer]
  cases hrpc : readers.serde.fromStr plaintext with
  | none =>
    rw [hrpc] at h
    cases h
  | some rpc =>
    rw [hrpc] at h
    dsimp only at h ⊢
    cases hurl : authUrl rpc with
    | some url =>
      rw [hurl] at h
      exact Or.inl ⟨url, _, List.mem_singleton.mp h⟩
    | none =>
      rw [hurl] at h
      refine Or.inr ⟨rfl, ?_⟩
      rcases List.mem_append.mp h with hd | hi
      · split at hd
        · exact Or.inl (List.mem_singleton.mp hd)
        · cases hd
      · exact Or.inr ⟨_, _, List.mem_singleton.mp hi⟩

variable (cfg) in
theorem insertPending_mem (h : isAnswer readers plaintext = true) (pk : String) :
    ∃ rid outcome, .insertPending rid outcome ∈ processRpcResponse cfg readers plaintext pk := by
  rw [isAnswer] at h
  rw [processRpcResponse]
  cases hrpc : readers.serde.fromStr plaintext with
  | none =>
    rw [hrpc] at h
    cases h
  | some rpc =>
    rw [hrpc] at h
    have hurl : authUrl rpc = none := Option.isNone_iff_eq_none.mp h
    refine ⟨responseId rpc, responseOutcome readers rpc, ?_⟩
    dsimp only
    rw [hurl]
    exact mem_append_right _ (List.mem_singleton.mpr rfl)

theorem mem_frameEffects {bytes : Bytes} {effect : PumpEffect}
    (h : effect ∈ frameEffects cfg readers bytes) :
    (∃ url rid, effect = .authChallenge url rid) ∨
      ∃ event plaintext, frameEvent cfg readers bytes = some event ∧
        decryptHelper cfg readers event.content event.pubkey.toHex = some plaintext ∧
        isAnswer readers plaintext = true ∧
        (effect = .discover event.pubkey.toHex ∨
          ∃ rid outcome, effect = .insertPending rid outcome) := by
  rw [frameEffects] at h
  cases hevent : frameEvent cfg readers bytes with
  | none =>
    rw [hevent] at h
    cases h
  | some event =>
    rw [hevent] at h
    dsimp only at h
    rw [eventEffects] at h
    cases hplain : decryptHelper cfg readers event.content event.pubkey.toHex with
    | none =>
      rw [hplain] at h
      cases h
    | some plaintext =>
      rw [hplain] at h
      rcases mem_processRpcResponse h with hauth | ⟨hans, heffect⟩
      · exact Or.inl hauth
      · exact Or.inr ⟨event, plaintext, rfl, hplain, hans, heffect⟩

theorem discovered_foldl_apply (effects : List PumpEffect) (s : PumpState) :
    (effects.foldl PumpState.apply s).discoveredRemotePubkey = s.discoveredRemotePubkey ∨
      ∃ pk, .discover pk ∈ effects ∧
        (effects.foldl PumpState.apply s).discoveredRemotePubkey = some pk := by
  induction effects generalizing s with
  | nil => exact Or.inl rfl
  | cons effect effects ih =>
    rw [foldl_cons]
    rcases ih (s.apply effect) with hsame | ⟨pk, hmem, hpk⟩
    · rw [hsame]
      cases effect with
      | discover pk => exact Or.inr ⟨pk, mem_cons_self, rfl⟩
      | authChallenge url rid => exact Or.inl rfl
      | insertPending rid outcome => exact Or.inl rfl
    · exact Or.inr ⟨pk, mem_cons_of_mem _ hmem, hpk⟩

theorem pending_foldl_apply (effects : List PumpEffect) (s : PumpState) {id : String}
    (h : (effects.foldl PumpState.apply s).pending.lookup id = some outcome) :
    s.pending.lookup id = some outcome ∨ .insertPending id outcome ∈ effects := by
  induction effects generalizing s with
  | nil => exact Or.inl h
  | cons effect effects ih =>
    rw [foldl_cons] at h
    rcases ih (s.apply effect) h with hold | hmem
    · cases effect with
      | discover pk => exact Or.inl hold
      | authChallenge url rid => exact Or.inl hold
      | insertPending rid value =>
        obtain ⟨rfl, rfl⟩ | ⟨-, hold⟩ := Map.lookup_insert_eq_some.mp hold
        · exact Or.inr mem_cons_self
        · exact Or.inl hold
    · exact Or.inr (mem_cons_of_mem _ hmem)

/-! ### Where answers come from -/

theorem pending_step {id : String} (h : (step cfg readers s act).pending.lookup id = some outcome) :
    s.pending.lookup id = some outcome ∨
      ∃ bytes, act = .frame bytes ∧ .insertPending id outcome ∈ frameEffects cfg readers bytes := by
  cases act with
  | frame bytes =>
    rcases pending_foldl_apply _ s h with hold | hmem
    · exact Or.inl hold
    · exact Or.inr ⟨bytes, rfl, hmem⟩
  | poll other =>
    left
    rw [step] at h
    split at h
    · exact h
    · split at h
      · exact h
      · exact (Map.lookup_erase_eq_some.mp h).2
  | timeout other => exact Or.inl h
  | close =>
    left
    rw [step] at h
    split at h
    · exact h
    · rw [AList.lookup_empty] at h
      cases h

/-- **Provenance.**  An entry of `pending` was inserted by a frame of the run. -/
theorem resolved_was_inserted (acts : List Step) {id : String}
    (h : (Run.exec (step cfg readers) PumpState.new acts).pending.lookup id = some outcome) :
    ∃ earlier bytes later, acts = earlier ++ .frame bytes :: later ∧
      .insertPending id outcome ∈ frameEffects cfg readers bytes := by
  induction acts using List.reverseRecOn with
  | nil =>
    rw [Run.exec_nil, PumpState.new, AList.lookup_empty] at h
    cases h
  | append_singleton acts act ih =>
    rw [Run.exec_append, Run.exec_cons, Run.exec_nil] at h
    rcases pending_step h with hold | ⟨bytes, rfl, hmem⟩
    · obtain ⟨earlier, bytes, later, rfl, hmem⟩ := ih hold
      exact ⟨earlier, bytes, later ++ [act], by simp, hmem⟩
    · exact ⟨acts, bytes, [], rfl, hmem⟩

/-! ### The signer -/

theorem publicKeyFromHex_toHex (pk : Bytes32) : publicKeyFromHex pk.toHex = .ok pk := by
  rw [publicKeyFromHex, Bytes32.fromHex, Bytes32.toHex, Hex.decode_encode]
  dsimp only
  rw [dif_pos pk.size]

/-- The key that was discovered is the one of the signer. -/
def Consistent (cfg : Nip46Config) (s : PumpState) : Prop :=
  ∀ pk, s.discoveredRemotePubkey = some pk → ∃ key, signer cfg s = some key ∧ pk = key.toHex

variable (cfg readers) in
/-- What a step does to the discovered key: nothing, or it is set to the author of
an event that decrypts to an answer. -/
theorem discovered_step (s : PumpState) (act : Step) :
    (step cfg readers s act).discoveredRemotePubkey = s.discoveredRemotePubkey ∨
      ∃ bytes event plaintext, act = .frame bytes ∧
        frameEvent cfg readers bytes = some event ∧
        decryptHelper cfg readers event.content event.pubkey.toHex = some plaintext ∧
        isAnswer readers plaintext = true ∧
        (step cfg readers s act).discoveredRemotePubkey = some event.pubkey.toHex := by
  cases act with
  | frame bytes =>
    rcases discovered_foldl_apply (frameEffects cfg readers bytes) s with hsame | ⟨pk, hmem, hpk⟩
    · exact Or.inl hsame
    · rcases mem_frameEffects hmem with ⟨url, rid, hauth⟩ | ⟨event, plaintext, he, hd, ha, heff⟩
      · cases hauth
      · rcases heff with heq | ⟨rid, outcome, heq⟩
        · cases heq
          exact Or.inr ⟨bytes, event, plaintext, rfl, he, hd, ha, hpk⟩
        · cases heq
  | poll id =>
    left
    rw [step]
    split
    · rfl
    · split <;> rfl
  | timeout id => exact Or.inl rfl
  | close =>
    left
    rw [step]
    split <;> rfl

theorem signer_of_discovered {pk : Bytes32} (hmode : cfg.remoteSignerPubkey = "")
    (h : s.discoveredRemotePubkey = some pk.toHex) : signer cfg s = some pk := by
  rw [signer, if_pos hmode, h, bind_some, publicKeyFromHex_toHex]
  rfl

theorem consistent_step (hs : Consistent cfg s)
    (hcond : NoForeignAnswer cfg readers s act) : Consistent cfg (step cfg readers s act) := by
  intro pk hpk
  rcases discovered_step cfg readers s act with hsame |
    ⟨bytes, event, plaintext, hact, hevent, hdecrypt, hanswer, hset⟩
  · rw [hsame] at hpk
    obtain ⟨key, hkey, rfl⟩ := hs pk hpk
    refine ⟨key, ?_, rfl⟩
    rw [signer, hsame]
    exact hkey
  · rw [hset, some.injEq] at hpk
    by_cases hmode : cfg.remoteSignerPubkey = ""
    · exact ⟨event.pubkey, signer_of_discovered hmode hset, hpk.symm⟩
    · -- A configured key that decrypts something is a key, and the event is of its owner.
      obtain ⟨key, hkey⟩ : ∃ key, publicKeyFromHex cfg.remoteSignerPubkey = .ok key := by
        rw [decryptHelper, if_neg hmode] at hdecrypt
        cases hparse : publicKeyFromHex cfg.remoteSignerPubkey with
        | ok key => exact ⟨key, rfl⟩
        | error e =>
          rw [hparse] at hdecrypt
          cases hdecrypt
      have hsigner : ∀ t : PumpState, signer cfg t = some key := by
        intro t
        rw [signer, if_neg hmode, hkey]
        rfl
      have hauthor := hcond bytes key event plaintext hact (hsigner s) hevent hdecrypt hanswer
      exact ⟨key, hsigner _, by rw [← hpk, hauthor]⟩

theorem bound_of_noForeignAnswer (hs : Consistent cfg s)
    (hcond : NoForeignAnswer cfg readers s act) : Bound cfg readers s act := by
  constructor
  · rintro bytes rfl key rid outcome hkey hmem
    rcases mem_frameEffects hmem with ⟨url, rid', hauth⟩ | ⟨event, plaintext, he, hd, ha, -⟩
    · cases hauth
    · exact ⟨event, he, hcond bytes key event plaintext rfl hkey he hd ha⟩
  · intro pk hpk
    rcases discovered_step cfg readers s act with hsame |
      ⟨bytes, event, plaintext, hact, hevent, hdecrypt, hanswer, hset⟩
    · rw [hsame, hpk]
    · obtain ⟨key, hkey, rfl⟩ := hs pk hpk
      rw [hset, hcond bytes key event plaintext hact hkey hevent hdecrypt hanswer]

theorem noForeignAnswer_of_bound (h : Bound cfg readers s act) :
    NoForeignAnswer cfg readers s act := by
  intro bytes key event plaintext hact hkey hevent hdecrypt hanswer
  obtain ⟨rid, outcome, hmem⟩ := insertPending_mem cfg hanswer event.pubkey.toHex
  have heffects : frameEffects cfg readers bytes =
      processRpcResponse cfg readers plaintext event.pubkey.toHex := by
    rw [frameEffects, hevent]
    dsimp only
    rw [eventEffects, hdecrypt]
  obtain ⟨event', hevent', hauthor⟩ :=
    h.entered bytes hact key rid outcome hkey (heffects ▸ hmem)
  rw [hevent, some.injEq] at hevent'
  rw [hevent', hauthor]

/-! ### Whole sessions -/

theorem consistent_new (cfg : Nip46Config) : Consistent cfg PumpState.new := by
  intro pk hpk
  cases hpk

theorem sessionBound_of_steps {acts : List Step}
    (h : Run.Along (step cfg readers) (Bound cfg readers) PumpState.new acts) :
    SessionBound cfg readers acts := by
  refine ⟨h, ?_⟩
  rintro before after id outcome rfl hres
  rw [resolved] at hres
  split at hres
  · cases hres
  · obtain ⟨earlier, bytes, later, rfl, hmem⟩ := resolved_was_inserted before hres
    refine ⟨earlier, bytes, later, rfl, hmem, ?_⟩
    rw [append_assoc, Run.along_append] at h
    exact h.2.1.entered bytes rfl

/-- **The answers of a session are bound to its signer** exactly when, once the
signer is known, nobody else's event decrypts to an answer. -/
theorem bound_iff (cfg : Nip46Config) (readers : PumpReaders) (acts : List Step) :
    SessionBound cfg readers acts ↔
      Run.Along (step cfg readers) (NoForeignAnswer cfg readers) PumpState.new acts := by
  constructor
  · intro h
    exact h.steps.mono fun _ _ => noForeignAnswer_of_bound
  · intro h
    exact sessionBound_of_steps (Run.Along.imp (fun _ _ => consistent_step)
      (fun _ _ => bound_of_noForeignAnswer) (consistent_new cfg) h)

/-- Decryption succeeds only with the peer key a ciphertext was made with. -/
structure Ecdh (readers : PumpReaders) (madeWith : String → Option Bytes32) : Prop where
  nip44 : ∀ pk key cipher plaintext, readers.deriveKey pk = some key →
    readers.nip44Decrypt key cipher = some plaintext → madeWith cipher = some pk
  nip04 : ∀ pk cipher plaintext,
    readers.nip04Decrypt pk cipher = some plaintext → madeWith cipher = some pk

theorem Ecdh.decryptHelper {madeWith : String → Option Bytes32} (h : Ecdh readers madeWith)
    {cipher sender : String} (hd : decryptHelper cfg readers cipher sender = some plaintext) :
    ∃ pk, publicKeyFromHex (if cfg.remoteSignerPubkey = "" then sender
      else cfg.remoteSignerPubkey) = .ok pk ∧ madeWith cipher = some pk := by
  rw [Pump.decryptHelper] at hd
  split at hd
  · cases hd
  · next pk hpk =>
    refine ⟨pk, hpk, ?_⟩
    split at hd
    · split at hd
      · cases hd
      · next key hkey =>
        split at hd
        · next hplain => exact h.nip44 pk key cipher _ hkey hplain
        · exact h.nip04 pk cipher plaintext hd
    · exact h.nip04 pk cipher plaintext hd

theorem noForeignAnswer_of_own_key {madeWith : String → Option Bytes32}
    (h : Ecdh readers madeWith) (hmode : cfg.remoteSignerPubkey ≠ "")
    (hown : ∀ bytes event, act = .frame bytes → frameEvent cfg readers bytes = some event →
      ∀ pk, madeWith event.content = some pk → pk = event.pubkey) :
    NoForeignAnswer cfg readers s act := by
  intro bytes key event plaintext hact hkey hevent hdecrypt _
  obtain ⟨pk, hpk, hmade⟩ := h.decryptHelper hdecrypt
  rw [if_neg hmode] at hpk
  rw [signer, if_neg hmode, hpk] at hkey
  rw [← hown bytes event hact hevent pk hmade]
  exact some.inj hkey

/-! ### A third party answers -/

def digitKey (c : Char) : String := String.ofList (List.replicate 64 c)

def qrSession : Nip46Config :=
  { remoteSignerPubkey := "", useNip44 := false, expectedSecret := some "s3cret"
    clientPubkeyHex := digitKey 'c' }

def responseText (author : Char) (content : String) : List Char :=
  "\x7b\"id\":\"".toList ++ List.replicate 64 '0' ++
    "\",\"pubkey\":\"".toList ++ List.replicate 64 author ++
    "\",\"created_at\":1,".toList ++ "\"kind\":24133,".toList ++
    "\"tags\":[[\"p\",\"".toList ++ List.replicate 64 'c' ++
    "\"]],\"content\":\"".toList ++ content.toList ++ "\",\"sig\":\"\"\x7d".toList

def secretResponse : String := "\x7b\"id\":\"1\",\"result\":\"s3cret\"\x7d"

def pubkeyResponse : String := "\x7b\"id\":\"2\",\"result\":\"bb\"\x7d"

/-- The peer key each of the two ciphertexts was made with. -/
def qrMadeWith (cipher : String) : Option Bytes32 :=
  if cipher = "first" then (publicKeyFromHex (digitKey 'a')).toOption
  else if cipher = "second" then (publicKeyFromHex (digitKey 'b')).toOption
  else none

/-- Two messages: the signer `aa…aa` answers with the secret, and `bb…bb` answers
the request for the public key. -/
def qrReaders : PumpReaders where
  workerMessage bytes :=
    if bytes = [1] then some ⟨some qrSession.subId, some (String.ofList (responseText 'a' "first"))⟩
    else if bytes = [2] then some ⟨some qrSession.subId, some (String.ofList (responseText 'b' "second"))⟩
    else none
  serde :=
    { fromStr := fun text =>
        if text = secretResponse then
          some (.object [("id", .string "1"), ("result", .string "s3cret")])
        else if text = pubkeyResponse then
          some (.object [("id", .string "2"), ("result", .string "bb")])
        else none
      toText := fun _ => "" }
  Key := Unit
  deriveKey _ := none
  nip44Decrypt _ _ := none
  nip04Decrypt pk cipher :=
    if qrMadeWith cipher = some pk then
      if cipher = "first" then some secretResponse else some pubkeyResponse
    else none

theorem qrReaders_ecdh : Ecdh qrReaders qrMadeWith := by
  constructor
  · intro pk key cipher plaintext h
    cases h
  · intro pk cipher plaintext h
    by_contra hne
    simp only [qrReaders, if_neg hne] at h
    cases h

/-- The event written by `responseText`. -/
def responseEvent (author : UInt8) (content : String) : SignedEvent :=
  { id := ⟨List.replicate 32 0, length_replicate⟩
    pubkey := ⟨List.replicate 32 author, length_replicate⟩
    createdAt := 1, kind := 24133, tags := [["p", digitKey 'c']], content := content, sig := "" }

theorem frameEvent_first :
    frameEvent qrSession qrReaders [1] = some (responseEvent 0xaa "first") := by
  have hread : SignedEvent.fromJson (String.ofList (responseText 'a' "first")) =
      .ok (responseEvent 0xaa "first") := by
    rw [SignedEvent.fromJson_ofList]
    decide +kernel
  exact frameEvent_of_read rfl hread rfl (by decide +kernel)

theorem frameEvent_second :
    frameEvent qrSession qrReaders [2] = some (responseEvent 0xbb "second") := by
  have hread : SignedEvent.fromJson (String.ofList (responseText 'b' "second")) =
      .ok (responseEvent 0xbb "second") := by
    rw [SignedEvent.fromJson_ofList]
    decide +kernel
  exact frameEvent_of_read rfl hread rfl (by decide +kernel)

/-- Once `aa…aa` is discovered, the answer of `bb…bb` still enters `pending`. -/
theorem third_party_answers :
    Ecdh qrReaders qrMadeWith ∧ ¬ SessionBound qrSession qrReaders [.frame [1], .frame [2]] := by
  refine ⟨qrReaders_ecdh, ?_⟩
  intro h
  have hsigner : signer qrSession (step qrSession qrReaders PumpState.new (.frame [1])) =
      some (responseEvent 0xaa "first").pubkey := by
    refine signer_of_discovered rfl ?_
    rw [step, frameEffects, frameEvent_first]
    decide +kernel
  have hdecrypt : decryptHelper qrSession qrReaders (responseEvent 0xbb "second").content
      (responseEvent 0xbb "second").pubkey.toHex = some pubkeyResponse := by
    decide +kernel
  -- The second step is bound only if the author of the second event is the signer.
  have heq := noForeignAnswer_of_bound h.steps.2.1 [2] _ _ pubkeyResponse rfl hsigner
    frameEvent_second hdecrypt (by decide +kernel)
  exact absurd heq (by decide)

end Pump

end Nipworker
