/-
Conservation of Cashu proofs (`pipeline/pipes/proof_verification.rs`).

Every proof that passes its DLEQ check should reach the client once.  The pipe
deduplicates by secret alone, marks the secret of a proof that fails as seen, and
evicts a secret of the hash set (with whatever is pending under it) when the set is
full; each of these can lose a proof, and the last one can also send a proof twice.
-/
import Nipworker.Pipeline.ProofPending

namespace Nipworker

open ProofVerificationPipe List Option

namespace ProofLedger

def start (maxProofs : ℕ) : ProofLedger := ⟨.new maxProofs, [], []⟩

def sent (ledger : ProofLedger) : List (String × ProofToken) :=
  ledger.outputs.flatMap ProofOutput.tokens

variable (iter : IterOrder String) (verify : Proof → String → Except String String)
  (keys : String → String)

/-- The pipe was given a passing proof of this mint with this token. -/
def Known (ledger : ProofLedger) (mintUrl : String) (token : ProofToken) : Prop :=
  ∃ q, (mintUrl, q) ∈ ledger.fed ∧ passes verify (keys mintUrl) q ∧ q.token = token

def Available : ProofStep → Prop
  | .add world mintUrl _ => world.fetch mintUrl = .ok (keys mintUrl)
  | .verify => True

/-- A call in which the bookkeeping by secrets goes right.  At its turn a passing proof's
secret is in `seen_proofs` exactly when that very proof was given before, no eviction
takes a secret with a pending proof, two passing proofs of the call with one secret are
the same money, and a passing proof has the fields its table requires. -/
def Orderly (ledger : ProofLedger) : ProofStep → Prop
  | .add _ mintUrl proofs =>
    TurnsOk iter (passes verify (keys mintUrl)) (fun p => ledger.Known verify keys mintUrl p.token)
      ledger.pipe proofs ∧
    (∀ p ∈ proofs, ∀ q ∈ proofs, passes verify (keys mintUrl) p → passes verify (keys mintUrl) q →
      p.secret = q.secret → p.token = q.token) ∧
    ∀ p ∈ proofs, passes verify (keys mintUrl) p → p.toOffset.isSome
  | .verify => True

/-- Every passing proof has been sent once, or is pending and has not been sent. -/
structure Conserved (ledger : ProofLedger) : Prop where
  pendingOk : ledger.pipe.PendingOk
  keysOk : ledger.pipe.KeysOk keys
  source : ∀ m s q, ledger.pipe.pending m s = some q →
    q.secret = s ∧ (m, q) ∈ ledger.fed ∧ passes verify (keys m) q ∧ q.toOffset.isSome
  known : ∀ m t, (m, t) ∈ ledger.sent → ledger.Known verify keys m t
  once : ∀ m t, ledger.Known verify keys m t →
    ledger.sent.count (m, t) + ledger.pipe.pendingCount m t = 1

variable {iter verify keys}

theorem conserved_start (maxProofs : ℕ) : (start maxProofs).Conserved verify keys where
  pendingOk := ⟨fun _ _ h => (by cases h), fun _ _ _ h => (by cases h)⟩
  keysOk := ⟨fun _ _ h => (by cases h), rfl, rfl⟩
  source := fun _ _ _ h => (by cases h)
  known := fun _ _ h => (by cases h)
  once := fun _ _ h => by
    obtain ⟨q, hq, -⟩ := h
    cases hq

variable {ledger : ProofLedger}

theorem Known.fed_append {m : String} {t : ProofToken}
    (h : ledger.Known verify keys m t) {pipe : ProofVerificationPipe} {outputs : List ProofOutput}
    (more : List (String × Proof)) : Known verify keys ⟨pipe, ledger.fed ++ more, outputs⟩ m t := by
  obtain ⟨q, hq, hpass⟩ := h
  exact ⟨q, mem_append_left _ hq, hpass⟩

/-- An orderly call of `add_proofs` conserves: the passing proofs it brings that are not
known become pending, and nothing else changes. -/
theorem Conserved.add (h : ledger.Conserved verify keys) {world : MintWorld}
    {mintUrl : String} {proofs : List Proof} (havail : Available keys (.add world mintUrl proofs))
    (horderly : ledger.Orderly iter verify keys (.add world mintUrl proofs)) :
    (ledger.call iter verify (.add world mintUrl proofs)).Conserved verify keys := by
  obtain ⟨hturns, hsame, hfields⟩ := horderly
  obtain ⟨collected, fresh, hc, hpending, hpendOk, hkeysOk⟩ :=
    addProofs_spec h.pendingOk h.keysOk havail hturns
  -- where the call leaves what was pending, and where it puts a new proof
  have hcases : ∀ m s,
      (∃ q ∈ fresh, passes verify (keys mintUrl) q ∧ m = mintUrl ∧ q.secret = s ∧
        (ledger.pipe.addProofs iter verify world proofs mintUrl).1.pending m s = some q) ∨
      (¬ (m = mintUrl ∧ ∃ q ∈ fresh, passes verify (keys mintUrl) q ∧ q.secret = s) ∧
        (ledger.pipe.addProofs iter verify world proofs mintUrl).1.pending m s =
          ledger.pipe.pending m s) := by
    intro m s
    obtain ⟨q, hq, hpass, hm, hs, heq⟩ | ⟨hnone, heq⟩ :=
      pending_recordAll mintUrl (keys mintUrl) fresh collected m s
    · exact .inl ⟨q, hq, hpass, hm, hs, (hpending m s).trans heq⟩
    · exact .inr ⟨hnone, (hpending m s).trans (heq.trans (hc.pending m s))⟩
  have hfree : ∀ q ∈ fresh, ledger.pipe.pending mintUrl q.secret = none := by
    intro q hq
    cases hp : ledger.pipe.pending mintUrl q.secret with
    | none => rfl
    | some p =>
      obtain ⟨y, hy, -⟩ := h.pendingOk.point mintUrl _ p hp
      rw [hc.free q hq] at hy
      cases hy
  have hfed : ∀ q ∈ fresh, (mintUrl, q) ∈ ledger.fed ++ proofs.map (Prod.mk mintUrl) :=
    fun q hq => mem_append_right _ (mem_map_of_mem (hc.sub q hq))
  -- a proof known before the call is counted as before
  have hold : ∀ m t, ledger.Known verify keys m t → ledger.sent.count (m, t) +
      (ledger.pipe.addProofs iter verify world proofs mintUrl).1.pendingCount m t = 1 := by
    intro m t ht
    rw [← h.once m t ht, pendingCount, pendingCount]
    obtain ⟨q, hq, hpass, rfl, hs, heq⟩ | ⟨-, heq⟩ := hcases m t.secret
    · have hne : q.token ≠ t := fun hqt => hc.unknown q hq hpass (hqt ▸ ht)
      rw [heq, ← hs, hfree q hq, map_some, if_neg fun hsome => hne (some.inj hsome),
        if_neg (by simp)]
    · rw [heq]
  constructor
  case pendingOk => exact hpendOk
  case keysOk => exact hkeysOk
  case source =>
    intro m s q hq
    obtain ⟨q', hq', hpass, rfl, hs, heq⟩ | ⟨-, heq⟩ := hcases m s
    · have hqq : q = q' := some.inj (hq.symm.trans heq)
      subst hqq
      exact ⟨hs, hfed q hq', hpass, hfields q (hc.sub q hq') hpass⟩
    · obtain ⟨hs, hmem, hpass, hsome⟩ := h.source m s q (heq.symm.trans hq)
      exact ⟨hs, mem_append_left _ hmem, hpass, hsome⟩
  case known => exact fun m t ht => (h.known m t ht).fed_append _
  case once =>
    intro m t ht
    obtain ⟨p, hp, hpass, rfl⟩ := ht
    rcases List.mem_append.mp hp with hp | hp
    · exact hold m p.token ⟨p, hp, hpass, rfl⟩
    · obtain ⟨p', hp', heq⟩ := List.mem_map.mp hp
      cases heq
      rcases hc.covered p hp' hpass with hfresh | hknown
      · -- a new proof: nothing of it was sent, and the call leaves its token pending
        have hzero : ledger.sent.count (mintUrl, p.token) = 0 :=
          count_eq_zero_of_not_mem fun hmem =>
            hc.unknown p hfresh hpass (h.known mintUrl p.token hmem)
        show ledger.sent.count (mintUrl, p.token) + _ = 1
        rw [hzero, pendingCount]
        obtain ⟨q, hq, hqpass, -, hs, heq⟩ | ⟨hnone, -⟩ := hcases mintUrl p.token.secret
        · have htoken : q.token = p.token := hsame q (hc.sub q hq) p hp' hqpass hpass hs
          rw [show (ledger.call iter verify (.add world mintUrl proofs)).pipe.pending mintUrl
            p.token.secret = some q from heq, map_some, htoken, if_pos rfl]
        · exact absurd ⟨rfl, p, hfresh, hpass, rfl⟩ hnone
      · exact hold mintUrl p.token hknown

theorem Conserved.flush (h : ledger.Conserved verify keys) :
    (ledger.call iter verify .verify).Conserved verify keys ∧
      ∀ m s, (ledger.call iter verify .verify).pipe.pending m s = none := by
  obtain ⟨hcount, hnone⟩ := verifyPendingProofs_spec iter h.pendingOk h.keysOk.idle
    fun m s q hq => ⟨(h.source m s q hq).1, (h.source m s q hq).2.2.2⟩
  have hsent : (ledger.call iter verify .verify).sent =
      ledger.sent ++ (ledger.pipe.verifyPendingProofs iter).2.tokens := by
    show (ledger.outputs ++ [_]).flatMap _ = _
    rw [flatMap_append, flatMap_singleton, sent]
  refine ⟨⟨?_, ?_, ?_, ?_, ?_⟩, hnone⟩
  · exact h.pendingOk.verifyPendingProofs
  · exact h.keysOk.verifyPendingProofs
  · intro m s q hq
    rw [show (ledger.call iter verify .verify).pipe.pending m s = none from hnone m s] at hq
    cases hq
  · intro m t ht
    rw [hsent] at ht
    rcases List.mem_append.mp ht with ht | ht
    · exact h.known m t ht
    · -- what is sent now was pending
      have hpos := List.count_pos_iff.mpr ht
      rw [hcount, pendingCount] at hpos
      split at hpos
      · rename_i hmap
        obtain ⟨q, hq, hqt⟩ := Option.map_eq_some_iff.mp hmap
        obtain ⟨-, hfed, hpass, -⟩ := h.source m _ q hq
        exact ⟨q, hfed, hpass, hqt⟩
      · omega
  · intro m t ht
    have hzero : (ledger.call iter verify .verify).pipe.pendingCount m t = 0 := by
      rw [pendingCount, show (ledger.call iter verify .verify).pipe.pending m t.secret = none from
        hnone m t.secret, if_neg (by simp)]
    have hbefore := h.once m t ht
    rw [hsent, count_append, hcount, hzero]
    omega

theorem Conserved.call (h : ledger.Conserved verify keys) {step : ProofStep}
    (havail : Available keys step) (horderly : ledger.Orderly iter verify keys step) :
    (ledger.call iter verify step).Conserved verify keys := by
  cases step with
  | add world mintUrl proofs => exact h.add havail horderly
  | verify => exact h.flush.1

theorem steps_last (read : Bytes → Option (ProofEvent FbProof)) (i : ProofInput) :
    ∃ adds, i.steps read = adds ++ [.verify] := by
  match i with
  | .live world (some event) => exact ⟨_, rfl⟩
  | .live _ none => exact ⟨[], rfl⟩
  | .cached messages => exact ⟨_, rfl⟩

end ProofLedger

open ProofLedger in
/-- **Proof conservation.**  In every run over live events and cached batches whose
`add_proofs` calls are orderly, with the mints answering, each distinct passing proof the
pipe was given has been sent exactly once. -/
theorem proofs_conserved (iter : IterOrder String)
    (verify : Proof → String → Except String String)
    (read : Bytes → Option (ProofEvent FbProof)) (keys : String → String) (maxProofs : ℕ)
    (inputs : List ProofInput)
    (havail : ∀ step ∈ inputs.flatMap (ProofInput.steps read), Available keys step)
    (horderly : Run.Along (ProofLedger.call iter verify) (Orderly iter verify keys)
      (start maxProofs) (inputs.flatMap (ProofInput.steps read)))
    (mintUrl : String) (proof : Proof)
    (hfed : (mintUrl, proof) ∈
      (Run.exec (ProofLedger.input iter verify read) (start maxProofs) inputs).fed)
    (hpass : passes verify (keys mintUrl) proof) :
    (Run.exec (ProofLedger.input iter verify read) (start maxProofs) inputs).sent.count
      (mintUrl, proof.token) = 1 := by
  have hall : Run.Along (ProofLedger.call iter verify)
      (fun s a => Available keys a ∧ Orderly iter verify keys s a)
      (start maxProofs) (inputs.flatMap (ProofInput.steps read)) :=
    (Run.along_of_mem (fun a ha _ => havail a ha) _).and horderly
  rcases eq_nil_or_concat inputs with rfl | ⟨before, last, rfl⟩
  · cases hfed
  · obtain ⟨adds, hadds⟩ := steps_last read last
    rw [exec_input] at hfed ⊢
    rw [concat_eq_append, flatMap_append, flatMap_singleton, hadds,
      ← append_assoc] at hfed hall ⊢
    rw [Run.exec_append] at hfed ⊢
    have hconserved := ((Run.along_append _ _ _).mp hall).1.exec (fun s a hs ha => hs.call ha.1 ha.2)
      (conserved_start maxProofs)
    have honce := hconserved.flush.1.once mintUrl proof.token ⟨proof, hfed, hpass, rfl⟩
    rw [pendingCount, hconserved.flush.2, if_neg (by simp)] at honce
    exact honce

/-- A proof of 2 units whose DLEQ passes under the key `0279be66…f81798`. -/
def nutProof : Proof where
  amount := 2
  secret := "daf4dd00a2b68a0858a80450f52c8a7d2ccf87d375e43e216e0c571f089f63e9"
  c := "024369d2d22a80ecf78f3937da9d5f30c1b9f74f0c32684d583cca0fa6a61cdcfc"
  id := some "00882760bfa2eb41"
  version := none
  dleq := some
    { e := "b31e58ac6527f34975ffab13e70a48b6d2b0d35abc4b03f0151f09ee1a9763d4"
      s := "8fbae004c59e754d71df67e392b6ae4e29293113ddc2ec86592a0431d16306d8"
      r := some "a6d13fcd7a18442e6076f5e1e7c887ad5de40a019824bdfa9fe740d302e8d861" }
  witness := none

/-- The same proof without its DLEQ: anyone who has seen the secret can write it. -/
def bareCopy : Proof := { nutProof with dleq := none }

/-- `verify_proof_and_return_y_point` on these two proofs. -/
def nutVerify (proof : Proof) (_keys : String) : Except String String :=
  match proof.dleq with
  | some _ => .ok "024369d2d22a80ecf78f3937da9d5f30c1b9f74f0c32684d583cca0fa6a61cdcfc"
  | none => .ok ""

def nutKeys (_mintUrl : String) : String :=
  "\x7b\"keysets\":[\x7b\"id\":\"00882760bfa2eb41\",\"unit\":\"sat\",\"keys\":\x7b\"1\":\"\"," ++
  "\"2\":\"0279be667ef9dcbbac55a06295ce870b07029bfcdb2dce28d959f2815b16f81798\",\"4\":\"\"\x7d\x7d]\x7d"

def nutWorld : MintWorld := ⟨fun mintUrl => .ok (nutKeys mintUrl), 0, 0⟩

def nutzap (proof : Proof) : ProofInput :=
  .live nutWorld (some ⟨9321, some (.kind9321 "https://mint.example" [proof])⟩)

open ProofLedger in
/-- Two nutzaps with one proof: it is sent once. -/
theorem proofs_conserved_twice :
    (Run.exec (ProofLedger.input (.entries String) nutVerify fun _ => none) (start 100)
      [nutzap nutProof, nutzap nutProof]).sent.count ("https://mint.example", nutProof.token) = 1 := by
  have hone : ∀ p ∈ [nutProof], p = nutProof := fun p hp => List.mem_singleton.mp hp
  refine proofs_conserved (.entries String) nutVerify (fun _ => none) nutKeys 100
    [nutzap nutProof, nutzap nutProof] ?_ ?_ "https://mint.example" nutProof ?_ ?_
  · simp [nutzap, ProofInput.steps, ProofEvent.steps, ProofEvent.extract, Available, nutWorld]
  · refine ⟨⟨⟨fun _ => iff_of_false (by decide) ?_, ?_⟩, ?_, ?_⟩, trivial,
      ⟨⟨fun _ => iff_of_true (by decide) ?_, ?_⟩, ?_, ?_⟩, trivial, trivial⟩
    · rintro ⟨q, hq, -⟩
      cases hq
    · rw [if_neg (by decide)]
      exact ⟨fun h => absurd h (by decide), trivial⟩
    · intro p hp q hq _ _ _
      rw [hone p hp, hone q hq]
    · intro p hp _
      rw [hone p hp]
      decide
    · exact ⟨nutProof, by decide, by decide, rfl⟩
    · rw [if_pos (by decide)]
      trivial
    · intro p hp q hq _ _ _
      rw [hone p hp, hone q hq]
    · intro p hp _
      rw [hone p hp]
      decide
  · decide
  · decide

open ProofLedger in
/-- A copy of a proof without its DLEQ, in an earlier nutzap, hides the proof: its secret
is marked as seen, and the passing proof is never verified. -/
theorem invalid_copy_hides_proof :
    (∀ step ∈ [nutzap bareCopy, nutzap nutProof].flatMap (ProofInput.steps fun _ => none),
      Available nutKeys step) ∧
    passes nutVerify (nutKeys "https://mint.example") nutProof ∧
    ("https://mint.example", nutProof) ∈
      (Run.exec (ProofLedger.input (.entries String) nutVerify fun _ => none) (start 100)
        [nutzap bareCopy, nutzap nutProof]).fed ∧
    (Run.exec (ProofLedger.input (.entries String) nutVerify fun _ => none) (start 100)
      [nutzap bareCopy, nutzap nutProof]).sent.count ("https://mint.example", nutProof.token) ≠ 1 := by
  refine ⟨?_, ?_, ?_, ?_⟩
  · simp [nutzap, ProofInput.steps, ProofEvent.steps, ProofEvent.extract, Available, nutWorld]
  · decide
  · decide
  · decide

end Nipworker
