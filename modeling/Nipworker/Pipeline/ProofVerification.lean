/-
The proof verification pipe (`pipeline/pipes/proof_verification.rs`, with the proofs
of `types/proof.rs`).

The pipe takes the Cashu proofs out of nutzaps (kind 9321) and of decrypted tokens
(kind 7375), checks the DLEQ signature of each against the keys of its mint, and sends
the ones that pass to the client, grouped by mint.

`verify_proof_and_return_y_point` (the curve arithmetic), the network and the clock, the
reader of a stored message and the order in which hash tables are walked are parameters.
-/
import Nipworker.Lib.Map
import Nipworker.Lib.Bytes
import Nipworker.Lib.Run

namespace Nipworker

open List

/-! ### Proofs -/

/-- The proof of equal logarithms. -/
structure DleqProof where
  e : String
  s : String
  r : Option String
  deriving DecidableEq

/-- `Witness`. -/
inductive ProofWitness
  | string (value : String)
  | p2pk (signatures : Option (List String))
  | htlc (preimage : String) (signatures : Option (List String))
  deriving DecidableEq

/-- A proof of the wallet. -/
structure Proof where
  amount : UInt64
  secret : String
  c : String
  id : Option String
  version : Option Int32
  dleq : Option DleqProof
  witness : Option ProofWitness
  deriving DecidableEq

/-- The table `fb::DLEQProof`; its three strings are required. -/
structure FbDleqProof where
  e : String
  s : String
  r : String
  deriving DecidableEq

/-- The table `fb::Proof`; `id`, `secret` and `c` are required. -/
structure FbProof where
  amount : UInt64
  id : String
  secret : String
  c : String
  dleq : Option FbDleqProof
  witness : Option ProofWitness
  version : UInt8
  deriving DecidableEq

/-- `Proof::from_flatbuffer`; the witness is not read. -/
def Proof.fromFlatbuffer (p : FbProof) : Proof where
  amount := p.amount
  secret := p.secret
  c := p.c
  id := some p.id
  version := if p.version ≠ 0 then some (Int32.ofNat p.version.toNat) else none
  dleq := p.dleq.map fun d => ⟨d.e, d.s, some d.r⟩
  witness := none

/-- The dleq table; a missing `r` panics in the builder. -/
def DleqProof.toOffset (d : DleqProof) : Option FbDleqProof :=
  d.r.map fun r => ⟨d.e, d.s, r⟩

/-- `Proof::to_offset`; the builder panics when a required field is missing, and the
version is written as 0. -/
def Proof.toOffset (p : Proof) : Option FbProof :=
  match p.id, p.dleq with
  | none, _ => none
  | some id, none => some ⟨p.amount, id, p.secret, p.c, none, p.witness, 0⟩
  | some id, some d =>
    d.toOffset.map fun dleq => ⟨p.amount, id, p.secret, p.c, some dleq, p.witness, 0⟩

/-- What makes two proofs of one mint the same money: the amount, the secret and the
signature.  The keyset id, the DLEQ and the witness only go along with it. -/
structure ProofToken where
  amount : UInt64
  secret : String
  c : String
  deriving DecidableEq

def Proof.token (p : Proof) : ProofToken := ⟨p.amount, p.secret, p.c⟩

def FbProof.token (p : FbProof) : ProofToken := ⟨p.amount, p.secret, p.c⟩

theorem Proof.token_toOffset {p : Proof} {w : FbProof} (h : p.toOffset = some w) :
    w.token = p.token := by
  unfold Proof.toOffset at h
  split at h
  · cases h
  · cases h
    rfl
  · obtain ⟨dleq, -, rfl⟩ := Option.map_eq_some_iff.mp h
    rfl

/-! ### The pipe -/

/-- `NostrError::Other`, the only error of the pipe. -/
inductive ProofPipeError
  | other (text : String)

/-- What the outside answers during one call: the mints, the clock when the backoff is
checked, and the clock when a fetch has failed. -/
structure MintWorld where
  fetch : String → Except String String
  nowMs : ℕ
  failedAtMs : ℕ

def mintKeyFailureBackoffMs : ℕ := 30000

/-- `ProofVerificationPipe`; the set of seen secrets is a list without repetitions. -/
structure ProofVerificationPipe where
  seenProofs : List String
  pendingVerifications : Map String String
  pendingProofs : Map String (Map String Proof)
  maxProofs : ℕ
  verificationRunning : Bool
  mintKeysCache : Map String String
  mintKeyFailures : Map String ℕ

/-- One group of a `ValidProofs` message. -/
structure MintProofs where
  mint : String
  proofs : List FbProof

/-- What an input gives: nothing, one `ValidProofs` message, or a panic of the
builder. -/
inductive ProofOutput
  | nothing
  | validProofs (groups : List MintProofs)
  | panicked

/-- The parsed data of an event, as far as the pipe looks at it; `P` is `Proof` in a
live event and the table in a stored one. -/
inductive ProofData (P : Type)
  | kind9321 (mintUrl : String) (proofs : List P)
  | kind7375 (mintUrl : String) (proofs : List P) (decrypted : Bool)
  | other

structure ProofEvent (P : Type) where
  kind : ℕ
  parsed : Option (ProofData P)

/-- The proofs of an event and their mint; both are empty for anything but a nutzap or
a decrypted token. -/
def ProofEvent.extract {P : Type} (event : ProofEvent P) : List P × String :=
  match event.parsed with
  | some (.kind9321 mintUrl proofs) => if event.kind = 9321 then (proofs, mintUrl) else ([], "")
  | some (.kind7375 mintUrl proofs decrypted) =>
    if event.kind = 7375 ∧ decrypted then (proofs, mintUrl) else ([], "")
  | _ => ([], "")

def ProofEvent.map {P Q : Type} (f : P → Q) (event : ProofEvent P) : ProofEvent Q where
  kind := event.kind
  parsed := event.parsed.map fun
    | .kind9321 mintUrl proofs => .kind9321 mintUrl (proofs.map f)
    | .kind7375 mintUrl proofs decrypted => .kind7375 mintUrl (proofs.map f) decrypted
    | .other => .other

namespace ProofVerificationPipe

variable (iter : IterOrder String) (verify : Proof → String → Except String String)

def new (maxProofs : ℕ) : ProofVerificationPipe where
  seenProofs := []
  pendingVerifications := ∅
  pendingProofs := ∅
  maxProofs := maxProofs
  verificationRunning := false
  mintKeysCache := ∅
  mintKeyFailures := ∅

def fetchMintKeysJson (world : MintWorld) (pipe : ProofVerificationPipe) (mintUrl : String) :
    ProofVerificationPipe × Except String String :=
  match pipe.mintKeysCache.lookup mintUrl with
  | some keys => (pipe, .ok keys)
  | none =>
    match (pipe.mintKeyFailures.lookup mintUrl).filter fun retryAfter => world.nowMs < retryAfter with
    | some retryAfter =>
      (pipe, .error s!"mint key fetch recently failed; retrying in {retryAfter - world.nowMs}ms")
    | none =>
      match world.fetch mintUrl with
      | .error e =>
        ({ pipe with mintKeyFailures :=
            pipe.mintKeyFailures.insert mintUrl (world.failedAtMs + mintKeyFailureBackoffMs) },
          .error e)
      | .ok keys =>
        ({ pipe with mintKeysCache := pipe.mintKeysCache.insert mintUrl keys
                     mintKeyFailures := pipe.mintKeyFailures.erase mintUrl }, .ok keys)

def forget (pipe : ProofVerificationPipe) (secret : String) : ProofVerificationPipe :=
  { pipe with
    seenProofs := pipe.seenProofs.erase secret
    pendingVerifications := pipe.pendingVerifications.erase secret
    pendingProofs := ⟨pipe.pendingProofs.entries.map fun e => ⟨e.1, e.2.erase secret⟩, by
      have h := pipe.pendingProofs.nodupKeys
      rwa [List.NodupKeys, List.keys, map_map]⟩ }

/-- The eviction of `add_proofs`: at capacity, the first secret of the walk goes. -/
def makeRoom (pipe : ProofVerificationPipe) : ProofVerificationPipe :=
  if pipe.maxProofs ≤ pipe.seenProofs.length then
    match (iter.order pipe.seenProofs).head? with
    | some oldest => pipe.forget oldest
    | none => pipe
  else pipe

/-- The first loop of `add_proofs`: the proofs whose secret has not been seen. -/
def collectNew : ProofVerificationPipe → List Proof → ProofVerificationPipe × List Proof
  | pipe, [] => (pipe, [])
  | pipe, proof :: rest =>
    if proof.secret ∈ pipe.seenProofs then collectNew pipe rest
    else
      let r := collectNew (pipe.makeRoom iter) rest
      (r.1, proof :: r.2)

def markSeen (pipe : ProofVerificationPipe) (secret : String) : ProofVerificationPipe :=
  { pipe with seenProofs := pipe.seenProofs.insert secret }

def keep (pipe : ProofVerificationPipe) (mintUrl : String) (proof : Proof) (yPoint : String) :
    ProofVerificationPipe :=
  { pipe with
    pendingVerifications := pipe.pendingVerifications.insert proof.secret yPoint
    pendingProofs := pipe.pendingProofs.insert mintUrl
      (AList.insert proof.secret proof ((pipe.pendingProofs.lookup mintUrl).getD ∅)) }

/-- One round of the last loop of `add_proofs`. -/
def record (mintUrl keys : String) (pipe : ProofVerificationPipe) (proof : Proof) :
    ProofVerificationPipe :=
  match verify proof keys with
  | .ok yPoint =>
    if yPoint = "" then pipe.markSeen proof.secret
    else (pipe.keep mintUrl proof yPoint).markSeen proof.secret
  | .error _ => pipe.markSeen proof.secret

/-- The proofs of an event join the maps, which are keyed by the secret of a proof. -/
def addProofs (world : MintWorld) (pipe : ProofVerificationPipe) (proofs : List Proof)
    (mintUrl : String) : ProofVerificationPipe × Except ProofPipeError Unit :=
  if proofs = [] then (pipe, .ok ())
  else
    match pipe.fetchMintKeysJson world mintUrl with
    | (pipe, .error e) => (pipe, .error (.other s!"Failed to fetch mint keys: {e}"))
    | (pipe, .ok keys) =>
      let collected := collectNew iter pipe proofs
      (collected.2.foldl (record verify mintUrl keys) collected.1, .ok ())

/-- The proof of one mint that is pending under a secret with a Y point. -/
def validAt (pipe : ProofVerificationPipe) (proofs : Map String Proof) (secret : String) :
    Option Proof :=
  match pipe.pendingVerifications.lookup secret with
  | some yPoint => if yPoint = "" then none else proofs.lookup secret
  | none => none

def validOf (pipe : ProofVerificationPipe) (proofs : Map String Proof) : List Proof :=
  (iter.order proofs.keys).filterMap (pipe.validAt proofs)

/-- The `valid_proofs` of `verify_pending_proofs`, by mint. -/
def validProofs (pipe : ProofVerificationPipe) : List (String × List Proof) :=
  (iter.order pipe.pendingProofs.keys).filterMap fun mintUrl =>
    match pipe.validOf iter ((pipe.pendingProofs.lookup mintUrl).getD ∅) with
    | [] => none
    | proofs => some (mintUrl, proofs)

/-- The message of `verify_pending_proofs`; `none` when the builder panics. -/
def toMessage (valid : List (String × List Proof)) : Option (List MintProofs) :=
  valid.mapM fun group => (group.2.mapM Proof.toOffset).map (MintProofs.mk group.1)

def clearPending (pipe : ProofVerificationPipe) : ProofVerificationPipe :=
  { pipe with pendingVerifications := ∅, pendingProofs := ∅, verificationRunning := false }

/-- `verify_pending_proofs`, with the test of its two callers before it.  The maps are
cleared before the message is built. -/
def verifyPendingProofs (pipe : ProofVerificationPipe) : ProofVerificationPipe × ProofOutput :=
  if pipe.pendingVerifications.entries ≠ [] ∧ ¬ pipe.verificationRunning then
    match toMessage (pipe.validProofs iter) with
    | some groups => (pipe.clearPending, .validProofs groups)
    | none => (pipe.clearPending, .panicked)
  else (pipe, .nothing)

/-- The call of `add_proofs` an event leads to; its error is only logged. -/
def addEvent (world : MintWorld) (pipe : ProofVerificationPipe) (event : ProofEvent Proof) :
    ProofVerificationPipe :=
  if event.extract.1 ≠ [] ∧ event.extract.2 ≠ "" then
    (pipe.addProofs iter verify world event.extract.1 event.extract.2).1
  else pipe

/-- `ProofVerificationPipe::process`; `event` is the parsed event, if there is one. -/
def process (world : MintWorld) (pipe : ProofVerificationPipe) (event : Option (ProofEvent Proof)) :
    ProofVerificationPipe × ProofOutput :=
  match event with
  | some event => (pipe.addEvent iter verify world event).verifyPendingProofs iter
  | none => pipe.verifyPendingProofs iter

/-- `ProofVerificationPipe::process_cached_batch`; `read` gives the parsed event of a
stored message, when it holds one. -/
def processCachedBatch (read : Bytes → Option (ProofEvent FbProof))
    (pipe : ProofVerificationPipe) (messages : List (MintWorld × Bytes)) :
    ProofVerificationPipe × ProofOutput :=
  (messages.foldl (fun pipe message =>
    match read message.2 with
    | some event => pipe.addEvent iter verify message.1 (event.map Proof.fromFlatbuffer)
    | none => pipe) pipe).verifyPendingProofs iter

end ProofVerificationPipe

/-! ### Runs -/

/-- What arrives at the pipe. -/
inductive ProofInput
  | live (world : MintWorld) (event : Option (ProofEvent Proof))
  | cached (messages : List (MintWorld × Bytes))

/-- A call of `add_proofs` or of `verify_pending_proofs`. -/
inductive ProofStep
  | add (world : MintWorld) (mintUrl : String) (proofs : List Proof)
  | verify

def ProofStep.fed : ProofStep → List (String × Proof)
  | .add _ mintUrl proofs => proofs.map (Prod.mk mintUrl)
  | .verify => []

/-- The call of `add_proofs` an event leads to. -/
def ProofEvent.steps (world : MintWorld) (event : ProofEvent Proof) : List ProofStep :=
  if event.extract.1 ≠ [] ∧ event.extract.2 ≠ "" then
    [.add world event.extract.2 event.extract.1]
  else []

def ProofInput.steps (read : Bytes → Option (ProofEvent FbProof)) : ProofInput → List ProofStep
  | .live world (some event) => event.steps world ++ [.verify]
  | .live _ none => [.verify]
  | .cached messages =>
    (messages.flatMap fun message =>
      match read message.2 with
      | some event => (event.map Proof.fromFlatbuffer).steps message.1
      | none => []) ++ [.verify]

/-- The pipe with its history: the proofs it was given, with their mints, and what it
put out. -/
structure ProofLedger where
  pipe : ProofVerificationPipe
  fed : List (String × Proof)
  outputs : List ProofOutput

namespace ProofLedger

variable (iter : IterOrder String) (verify : Proof → String → Except String String)
  (read : Bytes → Option (ProofEvent FbProof))

def call (ledger : ProofLedger) (step : ProofStep) : ProofLedger :=
  match step with
  | .add world mintUrl proofs =>
    { ledger with
      pipe := (ledger.pipe.addProofs iter verify world proofs mintUrl).1
      fed := ledger.fed ++ step.fed }
  | .verify =>
    let r := ledger.pipe.verifyPendingProofs iter
    { ledger with pipe := r.1, outputs := ledger.outputs ++ [r.2] }

def input (ledger : ProofLedger) (i : ProofInput) : ProofLedger :=
  let r :=
    match i with
    | .live world event => ledger.pipe.process iter verify world event
    | .cached messages => ledger.pipe.processCachedBatch iter verify read messages
  { pipe := r.1
    fed := ledger.fed ++ (i.steps read).flatMap ProofStep.fed
    outputs := ledger.outputs ++ [r.2] }

/-! ### An input is a list of calls -/

variable {iter verify read}

variable (ledger : ProofLedger)

theorem exec_event_steps (world : MintWorld) (event : ProofEvent Proof) :
    Run.exec (call iter verify) ledger (event.steps world) =
      { ledger with
        pipe := ledger.pipe.addEvent iter verify world event
        fed := ledger.fed ++ (event.steps world).flatMap ProofStep.fed } := by
  rw [ProofEvent.steps, ProofVerificationPipe.addEvent]
  by_cases h : event.extract.1 ≠ [] ∧ event.extract.2 ≠ ""
  · simp only [if_pos h, Run.exec_cons, Run.exec_nil, call, flatMap_singleton]
  · simp only [if_neg h, Run.exec_nil, flatMap_nil, append_nil]

theorem exec_batch_steps (messages : List (MintWorld × Bytes)) (ledger : ProofLedger) :
    Run.exec (call iter verify) ledger (messages.flatMap fun message =>
        match read message.2 with
        | some event => (event.map Proof.fromFlatbuffer).steps message.1
        | none => []) =
      { ledger with
        pipe := messages.foldl (fun pipe message =>
          match read message.2 with
          | some event => pipe.addEvent iter verify message.1 (event.map Proof.fromFlatbuffer)
          | none => pipe) ledger.pipe
        fed := ledger.fed ++ (messages.flatMap fun message =>
          match read message.2 with
          | some event => (event.map Proof.fromFlatbuffer).steps message.1
          | none => []).flatMap ProofStep.fed } := by
  induction messages generalizing ledger with
  | nil => simp
  | cons message rest ih =>
    rw [flatMap_cons, Run.exec_append]
    cases hread : read message.2 with
    | none => simp [ih, hread]
    | some event => simp [exec_event_steps, ih, hread, append_assoc]

theorem input_eq_calls (i : ProofInput) :
    ledger.input iter verify read i = Run.exec (call iter verify) ledger (i.steps read) := by
  match i with
  | .live world none => simp [input, ProofInput.steps, call, ProofVerificationPipe.process, ProofStep.fed]
  | .live world (some event) =>
    simp [input, ProofInput.steps, Run.exec_append, exec_event_steps, call,
      ProofVerificationPipe.process, ProofStep.fed]
  | .cached messages =>
    simp [input, ProofInput.steps, Run.exec_append, exec_batch_steps, call,
      ProofVerificationPipe.processCachedBatch, ProofStep.fed]

/-- A run over inputs is a run over calls of `add_proofs` and `verify_pending_proofs`. -/
theorem exec_input (inputs : List ProofInput) :
    Run.exec (input iter verify read) ledger inputs =
      Run.exec (call iter verify) ledger (inputs.flatMap (ProofInput.steps read)) := by
  induction inputs generalizing ledger with
  | nil => rfl
  | cons i rest ih =>
    rw [Run.exec_cons, ih, input_eq_calls, flatMap_cons, Run.exec_append]

end ProofLedger

end Nipworker
