/-
The client of the crypto worker (`crypto_client.rs`, `crypto_worker.rs`).

A call takes a number, keeps the sender of its answer under it, sends a request and waits.  A
listener takes the responses and answers the calls; it ends when its channel does.  All of it
runs on one thread, and a call gives way only where it waits.
-/
import Nipworker.Lib.Map
import Nipworker.Lib.Run

namespace Nipworker

/-! ### Messages -/

/-- What the worker can be asked for. -/
inductive SignerOp
  | getPubkey
  | signEvent
  | nip04Encrypt
  | nip04Decrypt
  | nip44Encrypt
  | nip44Decrypt
  | nip04DecryptBetween
  | nip44DecryptBetween
  | verifyProof
  | authEvent
  | unknown (code : UInt32)
  deriving DecidableEq, Repr

/-- A request on the channel. -/
structure SignerRequest where
  requestId : ℕ
  op : SignerOp
  payload : Option String
  pubkey : Option String
  senderPubkey : Option String
  recipientPubkey : Option String
  deriving DecidableEq, Repr

/-- An answer on the channel. -/
structure SignerResponse where
  requestId : ℕ
  result : Option String
  error : Option String
  deriving DecidableEq, Repr

def optionalText (s : String) : Option String := if s = "" then none else some s

/-- How a channel fails. -/
inductive ChannelError
  | sendFailed (reason : String)
  | recvFailed (reason : String)
  | channelClosed
  deriving DecidableEq, Repr

def ChannelError.display : ChannelError → String
  | .sendFailed reason => "send failed: " ++ reason
  | .recvFailed reason => "recv failed: " ++ reason
  | .channelClosed => "channel closed"

/-! ### The worker -/

namespace CryptoWorker

/-- The signer that is active while a request is served, with the verification of proofs. -/
structure ActiveSigner where
  getPublicKey : Except String String
  signEvent : String → Except String String
  nip04Encrypt : String → String → Except String String
  nip04Decrypt : String → String → Except String String
  nip44Encrypt : String → String → Except String String
  nip44Decrypt : String → String → Except String String
  nip04DecryptBetween : String → String → String → Except String String
  nip44DecryptBetween : String → String → String → Except String String
  verifyProofAndReturnYPoint : String → Except String String

def between (decrypt : String → String → String → Except String String) (req : SignerRequest)
    (payload : String) : Except String String :=
  let sender := req.senderPubkey.getD ""
  let recipient := req.recipientPubkey.getD ""
  if sender = "" ∨ recipient = "" then .error "missing sender or recipient pubkey"
  else decrypt sender recipient payload

def perform (signer : ActiveSigner) (req : SignerRequest) : Except String String :=
  let payload := req.payload.getD ""
  let pubkey := req.pubkey.getD ""
  match req.op with
  | .getPubkey => signer.getPublicKey
  | .signEvent => signer.signEvent payload
  | .authEvent => signer.signEvent payload
  | .nip04Encrypt => signer.nip04Encrypt pubkey payload
  | .nip04Decrypt => signer.nip04Decrypt pubkey payload
  | .nip44Encrypt => signer.nip44Encrypt pubkey payload
  | .nip44Decrypt => signer.nip44Decrypt pubkey payload
  | .nip04DecryptBetween => between signer.nip04DecryptBetween req payload
  | .nip44DecryptBetween => between signer.nip44DecryptBetween req payload
  | .verifyProof => signer.verifyProofAndReturnYPoint payload
  | .unknown code => .error ("unsupported SignerOp: <UNKNOWN " ++ toString code ++ ">")

def serializeSignerResponse (requestId : ℕ) : Except String String → SignerResponse
  | .ok s => { requestId := requestId, result := some s, error := none }
  | .error e => { requestId := requestId, result := none, error := some e }

/-- The reply to a message of the parser; one that cannot be decoded is answered under the number
0, with the text of the error. -/
def reply (signer : ActiveSigner) : Except String SignerRequest → SignerResponse
  | .ok req => serializeSignerResponse req.requestId (perform signer req)
  | .error e => serializeSignerResponse 0 (.error ("decode failed: " ++ e))

end CryptoWorker

/-! ### The client -/

namespace CryptoClient

open CryptoWorker (ActiveSigner)

/-- Where a call stands: it waits, its caller has gone away, a response resolved it, or it ended
with an error of the channel. -/
inductive Outcome
  | waiting
  | dropped
  | resolved (result : Except String String)
  | failed (error : String)

structure Call where
  requestId : ℕ
  outcome : Outcome

/-- The client, its channel and the listener at the other end.  The sender of an answer is named by
the place of its call among all calls.  `resolutions` lists the calls that a response resolved, with
the number in the response. -/
structure State where
  nextRequestId : ℕ
  pending : Map ℕ ℕ
  calls : List Call
  listening : Bool
  serving : Bool
  toCrypto : List (Except String SignerRequest)
  toClient : List (Except String SignerResponse)
  resolutions : List (ℕ × ℕ)

/-- `CryptoClient::new`. -/
def start : State :=
  { nextRequestId := 1, pending := ∅, calls := [], listening := true, serving := true
    toCrypto := [], toClient := [], resolutions := [] }

def State.setOutcome (st : State) (c : ℕ) (outcome : Outcome) : State :=
  { st with calls := st.calls.modify c fun call => { call with outcome := outcome } }

/-- The sender of the answer is dropped: a caller that waits gets an error. -/
def Call.abandoned (call : Call) : Call :=
  match call.outcome with
  | .waiting => { call with outcome := .failed "crypto worker response channel closed" }
  | _ => call

/-- The calls after the sender of one, if there is one, is dropped. -/
def abandon (calls : List Call) : Option ℕ → List Call
  | none => calls
  | some c => calls.modify c Call.abandoned

def request (requestId : ℕ) (op : SignerOp) (payload pubkey sender recipient : String) :
    SignerRequest :=
  { requestId := requestId, op := op, payload := optionalText payload
    pubkey := optionalText pubkey, senderPubkey := optionalText sender
    recipientPubkey := optionalText recipient }

/-- `call`, up to where it waits; `sent` is what the channel says to the request. -/
def call (st : State) (op : SignerOp) (payload pubkey sender recipient : String)
    (sent : Except ChannelError Unit) : State :=
  let requestId := st.nextRequestId
  let c := st.calls.length
  -- an entry under the same number is overwritten
  let calls := abandon st.calls (st.pending.lookup requestId)
  let pending := AList.insert requestId c st.pending
  let st := { st with nextRequestId := (requestId + 1) % 2 ^ 64 }
  match sent with
  | .ok () =>
    { st with
      pending := pending
      calls := calls ++ [⟨requestId, .waiting⟩]
      toCrypto := st.toCrypto ++ [.ok (request requestId op payload pubkey sender recipient)] }
  | .error e =>
    { st with
      pending := AList.erase requestId pending
      calls := calls ++ [⟨requestId, .failed ("failed to send to crypto worker: " ++ e.display)⟩] }

/-- The future of a call is dropped; its sender stays where it is. -/
def dropCall (st : State) (c : ℕ) : State :=
  match st.calls[c]? with
  | some ⟨_, .waiting⟩ => st.setOutcome c .dropped
  | _ => st

/-- `tx.send`: it fails when the caller has gone away. -/
def send (st : State) (c requestId : ℕ) (result : Except String String) : State :=
  match st.calls[c]? with
  | some ⟨_, .dropped⟩ => st
  | _ => { st.setOutcome c (.resolved result) with
      resolutions := st.resolutions ++ [(c, requestId)] }

def responseResult (resp : SignerResponse) : Except String String :=
  match resp.error with
  | some err => .error err
  | none => .ok (resp.result.getD "")

/-- The listener, for what `recv` gives it. -/
def listen (st : State) : Except String SignerResponse → State
  | .error _ => st
  | .ok resp =>
    match st.pending.lookup resp.requestId with
    | some c =>
      send { st with pending := AList.erase resp.requestId st.pending } c resp.requestId
        (responseResult resp)
    | none => st

/-- What happens: a call, a caller that goes away, the worker serving its next message, and the
listener taking its next one.  Either channel may carry further messages, decoded or not, and the
listener of either side may find its channel closed. -/
inductive Act
  | call (op : SignerOp) (payload pubkey sender recipient : String)
    (sent : Except ChannelError Unit)
  | dropCall (c : ℕ)
  | serve (signer : ActiveSigner)
  | serverClosed
  | strayRequest (bytes : Except String SignerRequest)
  | strayResponse (bytes : Except String SignerResponse)
  | receive
  | receiveClosed (e : ChannelError)

/-- Calls, callers that go away, the listener, the worker, and messages and closures of the
channel at any time. -/
def step (st : State) : Act → State
  | .call op payload pubkey sender recipient sent =>
    CryptoClient.call st op payload pubkey sender recipient sent
  | .dropCall c => CryptoClient.dropCall st c
  | .serve signer =>
    match st.serving, st.toCrypto with
    | true, bytes :: rest =>
      { st with
        toCrypto := rest
        toClient := st.toClient ++ [.ok (CryptoWorker.reply signer bytes)] }
    | _, _ => st
  | .serverClosed => { st with serving := false }
  | .strayRequest bytes => { st with toCrypto := st.toCrypto ++ [bytes] }
  | .strayResponse bytes => { st with toClient := st.toClient ++ [bytes] }
  | .receive =>
    match st.listening, st.toClient with
    | true, bytes :: rest => listen { st with toClient := rest } bytes
    | _, _ => st
  | .receiveClosed _ => { st with listening := false }

/-! ### What is promised -/

/-- The responses resolve the calls whose requests carried their numbers, each call once, and when
the listener has ended nothing is pending and no call waits. -/
structure Settled (st : State) : Prop where
  matched : ∀ c requestId, (c, requestId) ∈ st.resolutions →
    ∃ call, st.calls[c]? = some call ∧ call.requestId = requestId
  once : (st.resolutions.map Prod.fst).Nodup
  answered : st.listening = false →
    (∀ requestId, st.pending.lookup requestId = none) ∧
      ∀ call ∈ st.calls, call.outcome ≠ .waiting

/-- The condition on a step: the channel of the listener ends while nothing is pending, and
afterwards no request can be sent. -/
def Attended (st : State) : Act → Prop
  | .receiveClosed _ =>
    st.listening = true → ∀ requestId, st.pending.lookup requestId = none
  | .call _ _ _ _ _ sent => st.listening = false → ∃ e, sent = .error e
  | _ => True

end CryptoClient

end Nipworker
