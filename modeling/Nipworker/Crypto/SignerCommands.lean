/-
Signer commands (`service/engine.rs`, `worker/crypto_worker.rs`).

The engine sends signer commands to the crypto worker through an ordered
channel.  A logout is sent twice: as a marker in that channel, so that a signer
which is still queued does not come back, and at once through a control channel
of its own.  The worker listens to both, and the control of a logout may be
handled at any time after it was sent, also after a signer that was set later.
-/
import Nipworker.Lib.Hex
import Nipworker.Lib.Run

namespace Nipworker

open List

/-! ### Signers -/

/-- `SignerType`, in a `SetSigner` message. -/
inductive SignerType
  | privateKey (key : String)
  | nip46Bunker (bunkerUrl : String) (clientSecret : Option String)
  | nip46Qr (nostrconnectUrl : String) (clientSecret : Option String)
  | nip07
  | unknown
  deriving DecidableEq, Repr

/-- The configuration of a `Nip46Signer`, with the secret of the client if it
is one. -/
structure Nip46Session where
  remoteSignerPubkey : String
  relays : List String
  appName : Option String
  expectedSecret : Option String
  clientSecret : Option String
  deriving DecidableEq, Repr

/-- The signer that is active. -/
inductive Signer
  | pk (key : String)
  | nip46 (session : Nip46Session)
  | nip07
  deriving DecidableEq, Repr

/-- What the worker takes from other packages and from its build: the public
key of a secret key, the query pairs of `http://localhost/?` with a query, and
whether there is a NIP-07 extension. -/
structure SignerEnv where
  publicKey : Bytes → String
  queryPairs : String → Except String (List (String × String))
  nip07 : Bool

namespace SignerEnv

variable (env : SignerEnv)

/-- `PrivateKeySigner::new`, as the public key of the signer. -/
def newPrivateKey (key : String) : Except String String :=
  match Hex.decode key with
  | none => .error "Other error: Invalid private key: Invalid format: Invalid hex"
  | some bytes =>
    if bytes.length ≠ 32 then
      .error "Other error: Invalid private key: Invalid format: Invalid secret key"
    else .ok (env.publicKey bytes)

/-- `Keys::parse`: a secret that is none is left out. -/
def parseKeys (secret : String) : Option String :=
  if "nsec1".toList.isPrefixOf secret.toList then none
  else (Hex.decode secret).bind fun bytes => if bytes.length = 32 then some secret else none

/-- The key before the query and the query, for a URL with a scheme. -/
def splitUrl (scheme missing invalidKey : String) (url : String) :
    Except String (String × String) :=
  match (url.toList.drop scheme.length).splitOn '?' with
  | [key, query] =>
    if key.all (fun c => (Hex.digitValue c).isSome) = false ∨ key.length ≠ 64 then .error invalidKey
    else .ok (String.ofList key, String.ofList query)
  | _ => .error missing

def valuesOf (name : String) (pairs : List (String × String)) : List String :=
  pairs.filterMap fun pair => if pair.1 = name then some pair.2 else none

/-- `parse_bunker_url`, as the session it is for. -/
def parseBunkerUrl (url : String) (clientSecret : Option String) : Except String Nip46Session := do
  if "bunker://".toList.isPrefixOf url.toList = false then
    throw "Invalid bunker URL: must start with bunker://"
  let (remotePubkey, query) ← splitUrl "bunker://" "Invalid bunker URL: missing query parameters"
    "Invalid remote signer pubkey in bunker URL" url
  let pairs ← (env.queryPairs query).mapError ("Invalid URL parameters: " ++ ·)
  let relays := valuesOf "relay" pairs
  if relays = [] then throw "No relays specified in bunker URL"
  return { remoteSignerPubkey := remotePubkey, relays := relays, appName := none
           expectedSecret := (valuesOf "secret" pairs).head?
           clientSecret := clientSecret.bind parseKeys }

/-- `parse_nostrconnect_url`, as the session it is for. -/
def parseNostrconnectUrl (url : String) (clientSecret : Option String) :
    Except String Nip46Session := do
  if "nostrconnect://".toList.isPrefixOf url.toList = false then
    throw "Invalid nostrconnect URL: must start with nostrconnect://"
  let (_, query) ← splitUrl "nostrconnect://" "Invalid nostrconnect URL: missing query parameters"
    "Invalid client pubkey in nostrconnect URL" url
  let pairs ← (env.queryPairs query).mapError ("Invalid URL parameters: " ++ ·)
  let relays := valuesOf "relay" pairs
  if relays = [] then throw "No relays specified in nostrconnect URL"
  match (valuesOf "secret" pairs).head? with
  | none => throw "Secret is required in nostrconnect URL"
  | some secret =>
    return { remoteSignerPubkey := "", relays := relays, appName := (valuesOf "name" pairs).head?
             expectedSecret := some secret, clientSecret := clientSecret.bind parseKeys }

/-- The signer a `SetSigner` asks for, or why there is none. -/
def newSigner : Option SignerType → Except String Signer
  | none => .error "missing set_signer content"
  | some (.privateKey key) =>
    match env.newPrivateKey key with
    | .error e => .error ("invalid private key: " ++ e)
    | .ok _ => .ok (.pk key)
  | some (.nip46Bunker url clientSecret) =>
    match env.parseBunkerUrl url clientSecret with
    | .error e => .error ("parse bunker: " ++ e)
    | .ok session => .ok (.nip46 session)
  | some (.nip46Qr url clientSecret) =>
    match env.parseNostrconnectUrl url clientSecret with
    | .error e => .error ("parse nostrconnect: " ++ e)
    | .ok session => .ok (.nip46 session)
  | some .nip07 => if env.nip07 then .ok .nip07 else .error "unsupported signer type"
  | some .unknown => .error "unsupported signer type"

end SignerEnv

/-! ### The worker -/

/-- `ActiveSigner`.  A signer is an object of its own, named by the place of the
`SetSigner` that installed it among all commands. -/
inductive ActiveSigner
  | unset
  | set (serial : ℕ) (signer : Signer)
  deriving DecidableEq, Repr

/-- What the worker does beside its state: it tells a remote signer to log out,
closes a session, and answers a `SetSigner`. -/
inductive SignerEffect
  | logout (serial : ℕ)
  | closed (serial : ℕ)
  | response (result : Except String String)

/-- The active signer, the session that relay frames are forwarded to, and what was done, newest
first. -/
structure CryptoWorker where
  active : ActiveSigner
  nip46Tx : Option ℕ
  log : List SignerEffect

/-- The commands in the ordered channel: the markers of the logouts, and the
messages `handle_message` forwards. -/
inductive EngineCommand
  | clearSigner
  | removeSigner
  | signEvent
  | getPublicKey
  | setSigner (signerType : Option SignerType)
  deriving DecidableEq, Repr

/-- Control messages of the worker. -/
inductive CryptoControl
  | clear | remove
  deriving DecidableEq, Repr

namespace CryptoWorker

def new : CryptoWorker := { active := .unset, nip46Tx := none, log := [] }

def clearActiveSigner (w : CryptoWorker) : CryptoWorker :=
  let log := match w.active with
    | .set serial (.nip46 _) => .closed serial :: w.log
    | _ => w.log
  { active := .unset, nip46Tx := none, log := log }

/-- A remote signer is told before its session is closed. -/
def removeActiveSigner (w : CryptoWorker) : CryptoWorker :=
  let log := match w.active with
    | .set serial (.nip46 _) => .closed serial :: .logout serial :: w.log
    | _ => w.log
  { active := .unset, nip46Tx := none, log := log }

def install (w : CryptoWorker) (serial : ℕ) (signer : Signer) : CryptoWorker :=
  { w.clearActiveSigner with
    active := .set serial signer
    nip46Tx := match signer with
      | .nip46 _ => some serial
      | _ => none }

/-- What a `SetSigner` that succeeds is answered with at once.  A bunker is
answered when it is connected, an extension when it returns its key. -/
def answer (env : SignerEnv) : Option SignerType → Option (Except String String)
  | some (.privateKey key) => some (.ok ((env.newPrivateKey key).toOption.getD ""))
  | some (.nip46Qr _ _) => some (.ok "NIP-46 QR signer initialized, awaiting discovery")
  | _ => none

/-- The engine listener, on the `serial`-th command.  Signing and asking for the
public key leave the signer alone. -/
def handleCommand (env : SignerEnv) (serial : ℕ) (w : CryptoWorker) : EngineCommand → CryptoWorker
  | .clearSigner => w.clearActiveSigner
  | .removeSigner => w.removeActiveSigner
  | .signEvent => w
  | .getPublicKey => w
  | .setSigner signerType =>
    match env.newSigner signerType with
    | .error e => { w with log := .response (.error e) :: w.log }
    | .ok signer =>
      let w := w.install serial signer
      { w with log := ((answer env signerType).map SignerEffect.response).toList ++ w.log }

/-- The control listener, `CryptoHandle`. -/
def handleControl (w : CryptoWorker) : CryptoControl → CryptoWorker
  | .clear => w.clearActiveSigner
  | .remove => w.removeActiveSigner

end CryptoWorker

/-! ### The engine and its channels -/

/-- The engine.  `done` holds the commands the engine listener has handled,
newest first; a control carries the place of its logout among all commands. -/
structure SignerEngine where
  ordered : List EngineCommand
  control : List (ℕ × CryptoControl)
  done : List EngineCommand
  worker : CryptoWorker

/-- What can happen: a call of the engine, or one of the listeners takes the
next message. -/
inductive SignerAction
  | send (command : EngineCommand)
  | handleOrdered
  | handleControl
  deriving DecidableEq, Repr

def EngineCommand.control : EngineCommand → Option CryptoControl
  | .clearSigner => some .clear
  | .removeSigner => some .remove
  | _ => none

namespace SignerEngine

def new : SignerEngine := { ordered := [], control := [], done := [], worker := .new }

def sent (st : SignerEngine) : List EngineCommand := st.ordered.reverse ++ st.done

/-- `clear_signer`, `remove_signer` and `handle_message`: the command goes to
the ordered channel, and that of a logout to the control channel as well. -/
def send (st : SignerEngine) (command : EngineCommand) : SignerEngine :=
  { st with
    ordered := st.ordered ++ [command]
    control := st.control ++ (command.control.map (st.sent.length, ·)).toList }

/-- The engine, the two channels and the worker. -/
def step (env : SignerEnv) (st : SignerEngine) : SignerAction → SignerEngine
  | .send command => st.send command
  | .handleOrdered =>
    match st.ordered with
    | [] => st
    | command :: rest =>
      { st with
        ordered := rest
        done := command :: st.done
        worker := st.worker.handleCommand env st.done.length command }
  | .handleControl =>
    match st.control with
    | [] => st
    | (_, control) :: rest => { st with control := rest, worker := st.worker.handleControl control }

def Drained (st : SignerEngine) : Prop := st.ordered = [] ∧ st.control = []

end SignerEngine

/-! ### What the commands ask for -/

/-- The signer the commands ask for, newest first: the one of the last
`SetSigner` that succeeded, if there is no logout after it. -/
def lastSigner (env : SignerEnv) : List EngineCommand → ActiveSigner
  | [] => .unset
  | .clearSigner :: _ => .unset
  | .removeSigner :: _ => .unset
  | .setSigner signerType :: older =>
    match env.newSigner signerType with
    | .ok signer => .set older.length signer
    | .error _ => lastSigner env older
  | .signEvent :: older => lastSigner env older
  | .getPublicKey :: older => lastSigner env older

/-- The place of the logout that a step is about to handle. -/
def SignerEngine.logout (st : SignerEngine) : SignerAction → Option ℕ
  | .send _ => none
  | .handleOrdered =>
    match st.ordered with
    | [] => none
    | command :: _ => command.control.map fun _ => st.done.length
  | .handleControl => st.control.head?.map Prod.fst

/-- A logout does not remove a signer that was set after it. -/
def SparesLater (st : SignerEngine) (a : SignerAction) : Prop :=
  ∀ n, st.logout a = some n → ∀ serial signer, st.worker.active = .set serial signer → serial < n

/-- The control of a logout is handled in time: the commands that are handled by
then do not ask for a signer that was set after it. -/
def ControlInTime (env : SignerEnv) (st : SignerEngine) (a : SignerAction) : Prop :=
  a = .handleControl → ∀ n control rest, st.control = (n, control) :: rest →
    ∀ serial signer, lastSigner env st.done = .set serial signer → serial < n

section

variable {env : SignerEnv}

theorem lastSigner_cons_logout {command : EngineCommand} {control : CryptoControl}
    (h : command.control = some control) (older : List EngineCommand) :
    lastSigner env (command :: older) = .unset := by
  cases command <;> first | rfl | cases h

theorem lastSigner_lt {commands : List EngineCommand} {serial : ℕ} {signer : Signer}
    (h : lastSigner env commands = .set serial signer) : serial < commands.length := by
  induction commands with
  | nil => cases h
  | cons command older ih =>
    rw [length_cons]
    cases command with
    | clearSigner => cases h
    | removeSigner => cases h
    | signEvent => exact Nat.lt_succ_of_lt (ih h)
    | getPublicKey => exact Nat.lt_succ_of_lt (ih h)
    | setSigner signerType =>
      rw [lastSigner] at h
      split at h
      · cases h
        exact Nat.lt_succ_self _
      · exact Nat.lt_succ_of_lt (ih h)

theorem lastSigner_no_logout {commands : List EngineCommand} {serial : ℕ} {signer : Signer}
    (h : lastSigner env commands = .set serial signer) {n : ℕ} (hn : serial < n)
    {command : EngineCommand} (hget : commands.reverse[n]? = some command) :
    command.control = none := by
  induction commands with
  | nil => cases h
  | cons newest older ih =>
    rw [reverse_cons] at hget
    by_cases hlt : n < older.length
    · -- an older command: the newest one has not changed what is asked for
      rw [List.getElem?_append_left (by rw [length_reverse]; exact hlt)] at hget
      cases newest with
      | clearSigner => cases h
      | removeSigner => cases h
      | signEvent => exact ih h hget
      | getPublicKey => exact ih h hget
      | setSigner signerType =>
        rw [lastSigner] at h
        split at h
        · cases h
          omega
        · exact ih h hget
    · rw [List.getElem?_append_right (by rw [length_reverse]; omega)] at hget
      obtain rfl := List.mem_singleton.mp (mem_of_getElem? hget)
      rcases hcontrol : command.control with _ | control
      · rfl
      · rw [lastSigner_cons_logout hcontrol] at h
        cases h

end

/-! ### The worker follows the commands -/

/-- What the worker has done so far: its signer is the one the handled commands
ask for, or it has none because the control of a logout came before its marker;
and each control is that of a logout, in the order of the logouts. -/
structure Follows (env : SignerEnv) (st : SignerEngine) : Prop where
  active : st.worker.active = lastSigner env st.done ∨
    (st.worker.active = .unset ∧ ∃ n ≥ st.done.length, (∃ command control,
      (st.done.reverse ++ st.ordered)[n]? = some command ∧ command.control = some control) ∧
      ∀ entry ∈ st.control, n < entry.1)
  logouts : ∀ entry ∈ st.control, ∃ command,
    (st.done.reverse ++ st.ordered)[entry.1]? = some command ∧ command.control = some entry.2
  rising : (st.control.map Prod.fst).Pairwise (· < ·)

namespace Follows

variable {env : SignerEnv} {st : SignerEngine}

theorem new (env : SignerEnv) : Follows env SignerEngine.new :=
  ⟨.inl rfl, nofun, .nil⟩

/-- In a state the worker has come to, a logout spares the signers that were set
after it exactly when its control is handled in time. -/
theorem sparesLater_iff (h : Follows env st) (a : SignerAction) :
    SparesLater st a ↔ ControlInTime env st a := by
  constructor
  · rintro hspares rfl n control rest hcontrol serial signer hlast
    have hlt := lastSigner_lt hlast
    rcases h.active with hactive | ⟨-, n', hn', -, hbehind⟩
    · exact hspares n (by rw [SignerEngine.logout, hcontrol]; rfl) serial signer
        (hactive.trans hlast)
    · have hbefore := hbehind (n, control) (by rw [hcontrol]; exact mem_cons_self)
      dsimp only at hbefore
      omega
  · intro htime n hlogout serial signer hactive
    have hlast : lastSigner env st.done = .set serial signer := by
      rcases h.active with hsame | ⟨hunset, -⟩
      · exact hsame.symm.trans hactive
      · rw [hunset] at hactive
        cases hactive
    cases a with
    | send command => cases hlogout
    | handleOrdered =>
      -- the marker is behind all commands that were handled
      have hlt := lastSigner_lt hlast
      rw [SignerEngine.logout] at hlogout
      split at hlogout
      · cases hlogout
      · rw [Option.map_eq_some_iff] at hlogout
        obtain ⟨-, -, rfl⟩ := hlogout
        exact hlt
    | handleControl =>
      rw [SignerEngine.logout, Option.map_eq_some_iff] at hlogout
      obtain ⟨⟨n', control⟩, hhead, rfl⟩ := hlogout
      obtain ⟨rest, hcontrol⟩ := List.head?_eq_some_iff.mp hhead
      exact htime rfl n' control rest hcontrol serial signer hlast

theorem send (h : Follows env st) (command : EngineCommand) :
    Follows env (st.send command) := by
  have hlen : st.sent.length = (st.done.reverse ++ st.ordered).length := by
    rw [SignerEngine.sent, length_append, length_append, length_reverse,
      length_reverse, Nat.add_comm]
  have hgrow : ∀ {n : ℕ} {c : EngineCommand}, (st.done.reverse ++ st.ordered)[n]? = some c →
      (st.done.reverse ++ (st.ordered ++ [command]))[n]? = some c := by
    intro n c hget
    rw [← append_assoc, List.getElem?_append_left (List.getElem?_eq_some_iff.mp hget).1]
    exact hget
  have hnew : ∀ entry ∈ (command.control.map (st.sent.length, ·)).toList,
      entry.1 = st.sent.length ∧ command.control = some entry.2 := by
    intro entry hentry
    obtain ⟨control, hcontrol, rfl⟩ := Option.map_eq_some_iff.mp (Option.mem_toList.mp hentry)
    exact ⟨rfl, hcontrol⟩
  have hold : ∀ entry ∈ st.control, entry.1 < st.sent.length := by
    intro entry hentry
    obtain ⟨c, hget, -⟩ := h.logouts entry hentry
    rw [hlen]
    exact (List.getElem?_eq_some_iff.mp hget).1
  refine ⟨?_, ?_, ?_⟩
  · rcases h.active with hsame | ⟨hunset, n, hn, ⟨c, control, hget, hcontrol⟩, hbehind⟩
    · exact .inl hsame
    · refine .inr ⟨hunset, n, hn, ⟨c, control, hgrow hget, hcontrol⟩, fun entry hentry => ?_⟩
      rcases List.mem_append.mp hentry with hentry | hentry
      · exact hbehind entry hentry
      · rw [(hnew entry hentry).1, hlen]
        exact (List.getElem?_eq_some_iff.mp hget).1
  · intro entry hentry
    rcases List.mem_append.mp hentry with hentry | hentry
    · obtain ⟨c, hget, hcontrol⟩ := h.logouts entry hentry
      exact ⟨c, hgrow hget, hcontrol⟩
    · obtain ⟨hplace, hcontrol⟩ := hnew entry hentry
      refine ⟨command, ?_, hcontrol⟩
      show (st.done.reverse ++ (st.ordered ++ [command]))[entry.1]? = _
      rw [hplace, hlen, ← append_assoc, List.getElem?_concat_length]
  · show ((st.control ++ _).map Prod.fst).Pairwise _
    rw [map_append, pairwise_append]
    refine ⟨h.rising, ?_, ?_⟩
    · cases command.control <;> simp
    · intro n hn n' hn'
      obtain ⟨entry, hentry, rfl⟩ := List.mem_map.mp hn
      obtain ⟨entry', hentry', rfl⟩ := List.mem_map.mp hn'
      rw [(hnew entry' hentry').1]
      exact hold entry hentry

theorem handleOrdered (h : Follows env st) : Follows env (st.step env .handleOrdered) := by
  unfold SignerEngine.step
  rcases hordered : st.ordered with _ | ⟨command, rest⟩
  · exact h
  -- the sequence of all commands is what it was
  have hall : (command :: st.done).reverse ++ rest = st.done.reverse ++ st.ordered := by
    rw [hordered, reverse_cons, append_assoc, singleton_append]
  refine ⟨?_, ?_, h.rising⟩
  · show (st.worker.handleCommand env st.done.length command).active = _ ∨ _
    by_cases hdecides : (∃ control, command.control = some control) ∨
        ∃ signerType signer, command = .setSigner signerType ∧ env.newSigner signerType = .ok signer
    · -- a logout or a new signer: nothing depends on what was active
      left
      rcases hdecides with ⟨control, hcontrol⟩ | ⟨signerType, signer, rfl, hnew⟩
      · rw [lastSigner_cons_logout hcontrol]
        cases command <;> first | rfl | cases hcontrol
      · simp only [CryptoWorker.handleCommand, lastSigner, hnew]
        rfl
    · have hkeeps : (st.worker.handleCommand env st.done.length command).active = st.worker.active ∧
          lastSigner env (command :: st.done) = lastSigner env st.done := by
        cases command with
        | clearSigner => exact absurd (.inl ⟨_, rfl⟩) hdecides
        | removeSigner => exact absurd (.inl ⟨_, rfl⟩) hdecides
        | signEvent => exact ⟨rfl, rfl⟩
        | getPublicKey => exact ⟨rfl, rfl⟩
        | setSigner signerType =>
          rcases hnew : env.newSigner signerType with e | signer
          · simp only [CryptoWorker.handleCommand, lastSigner, hnew, and_self]
          · exact absurd (.inr ⟨signerType, signer, rfl, hnew⟩) hdecides
      rw [hkeeps.1, hkeeps.2]
      rcases h.active with hsame | ⟨hunset, n, hn, ⟨c, control, hget, hcontrol⟩, hbehind⟩
      · exact .inl hsame
      · -- the queued logout is not this command, so it is still queued
        refine .inr ⟨hunset, n, ?_, ⟨c, control, by rw [hall]; exact hget, hcontrol⟩, hbehind⟩
        have hne : n ≠ st.done.length := by
          rintro rfl
          have hhead : (st.done.reverse ++ st.ordered)[st.done.length]? = some command := by
            rw [List.getElem?_append_right (by rw [length_reverse]), length_reverse,
              Nat.sub_self, hordered]
            rfl
          obtain rfl := Option.some.inj (hget.symm.trans hhead)
          exact hdecides (.inl ⟨control, hcontrol⟩)
        show (command :: st.done).length ≤ n
        rw [length_cons]
        omega
  · intro entry hentry
    obtain ⟨c, hget, hcontrol⟩ := h.logouts entry hentry
    exact ⟨c, by rw [hall]; exact hget, hcontrol⟩

theorem unset_handleControl (w : CryptoWorker)
    (control : CryptoControl) : (w.handleControl control).active = .unset := by
  cases control <;> rfl

theorem handleControl (h : Follows env st) (htime : ControlInTime env st .handleControl) :
    Follows env (st.step env .handleControl) := by
  unfold SignerEngine.step
  rcases hcontrol : st.control with _ | ⟨⟨n, control⟩, rest⟩
  · exact h
  have hmem : ∀ entry ∈ rest, entry ∈ st.control := fun entry hentry => by
    rw [hcontrol]
    exact mem_cons_of_mem _ hentry
  have hrising := h.rising
  rw [hcontrol, map_cons, pairwise_cons] at hrising
  refine ⟨?_, fun entry hentry => h.logouts entry (hmem entry hentry), hrising.2⟩
  show (st.worker.handleControl control).active = _ ∨ _
  rw [unset_handleControl]
  rcases hlast : lastSigner env st.done with _ | ⟨serial, signer⟩
  · exact .inl rfl
  right
  refine ⟨rfl, ?_⟩
  rcases h.active with hsame | ⟨-, n', hn', hlogout, hbehind⟩
  · -- the signer goes before its time; the marker of the logout is still to come
    obtain ⟨command, hget, hlogout⟩ := h.logouts (n, control) (by rw [hcontrol]; exact mem_cons_self)
    refine ⟨n, ?_, ⟨command, control, hget, hlogout⟩, fun entry hentry =>
      hrising.1 entry.1 (mem_map_of_mem hentry)⟩
    by_contra hle
    have hlt : n < st.done.length := Nat.lt_of_not_le hle
    have hdone : st.done.reverse[n]? = some command := by
      rw [List.getElem?_append_left (by rw [length_reverse]; exact hlt)] at hget
      exact hget
    have hnone := lastSigner_no_logout hlast (htime rfl n control rest hcontrol serial signer hlast)
      hdone
    rw [hnone] at hlogout
    cases hlogout
  · exact ⟨n', hn', hlogout, fun entry hentry => hbehind entry (hmem entry hentry)⟩

/-- **One step** with controls in time keeps the worker on the commands. -/
theorem step (h : Follows env st) {a : SignerAction} (htime : ControlInTime env st a) :
    Follows env (st.step env a) := by
  cases a with
  | send command => exact h.send command
  | handleOrdered => exact h.handleOrdered
  | handleControl => exact h.handleControl htime

theorem drained (h : Follows env st) (hdrained : st.Drained) :
    st.worker.active = lastSigner env st.sent := by
  obtain ⟨hordered, -⟩ := hdrained
  have hsent : st.sent = st.done := by
    rw [SignerEngine.sent, hordered, reverse_nil, nil_append]
  rw [hsent]
  rcases h.active with hsame | ⟨-, n, hn, ⟨command, control, hget, -⟩, -⟩
  · exact hsame
  · have hlt := (List.getElem?_eq_some_iff.mp hget).1
    rw [hordered, append_nil, length_reverse] at hlt
    omega

end Follows

/-- **The last signer command wins**, and no logout removes a signer that was
set after it, in exactly those runs in which the control of each logout is
handled in time. -/
theorem last_signer_command_wins (env : SignerEnv) (acts : List SignerAction) :
    (Run.Along (SignerEngine.step env) SparesLater SignerEngine.new acts ∧
      ((Run.exec (SignerEngine.step env) SignerEngine.new acts).Drained →
        (Run.exec (SignerEngine.step env) SignerEngine.new acts).worker.active
          = lastSigner env (Run.exec (SignerEngine.step env) SignerEngine.new acts).sent)) ↔
      Run.Along (SignerEngine.step env) (ControlInTime env) SignerEngine.new acts := by
  constructor
  · rintro ⟨hspares, -⟩
    exact hspares.imp (fun st a hst h => hst.step ((hst.sparesLater_iff a).mp h))
      (fun st a hst h => (hst.sparesLater_iff a).mp h) (Follows.new env)
  · intro htime
    refine ⟨htime.imp (fun st a hst h => hst.step h) (fun st a hst h =>
      (hst.sparesLater_iff a).mpr h) (Follows.new env), fun hdrained => ?_⟩
    have hfollows : Follows env (Run.exec (SignerEngine.step env) SignerEngine.new acts) :=
      htime.exec (fun st a hst h => hst.step h) (Follows.new env)
    exact hfollows.drained hdrained

/-! ### A logout and the next login -/

/-- A build without an extension, with an arbitrary public key for each secret
key. -/
def nativeSignerEnv : SignerEnv :=
  { publicKey := Hex.encode, queryPairs := fun _ => .ok [], nip07 := false }

def someKey : String := String.ofList (List.replicate 64 '1')

/-- A logout and a login; the control of the logout is handled last. -/
def logoutThenLogin : List SignerAction :=
  [.send .clearSigner, .send (.setSigner (some (.privateKey someKey))), .handleOrdered,
    .handleOrdered, .handleControl]

/-- The signer that was set last is gone. -/
theorem late_control_removes_signer :
    let st := Run.exec (SignerEngine.step nativeSignerEnv) SignerEngine.new logoutThenLogin
    st.Drained ∧ st.worker.active = .unset ∧
      lastSigner nativeSignerEnv st.sent = .set 1 (.pk someKey) := by
  refine ⟨⟨rfl, rfl⟩, ?_, ?_⟩
  · decide
  · decide

end Nipworker
