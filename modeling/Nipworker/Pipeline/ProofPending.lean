/-
What is pending in the proof verification pipe (`pipeline/pipes/proof_verification.rs`).

A proof that passes waits in two maps until it is sent.  This module says what one call
of `add_proofs` and one call of `verify_pending_proofs` do to what is pending.
-/
import Nipworker.Pipeline.ProofVerification

namespace Nipworker

open List

def ProofOutput.tokens : ProofOutput → List (String × ProofToken)
  | .validProofs groups => groups.flatMap fun g => g.proofs.map fun p => (g.mint, p.token)
  | _ => []

namespace ProofVerificationPipe

variable {iter : IterOrder String} {verify : Proof → String → Except String String}

def pending (pipe : ProofVerificationPipe) (mintUrl secret : String) : Option Proof :=
  (pipe.pendingProofs.lookup mintUrl).bind fun proofs => proofs.lookup secret

def passes (verify : Proof → String → Except String String) (keys : String) (proof : Proof) : Bool :=
  match verify proof keys with
  | .ok yPoint => yPoint ≠ ""
  | .error _ => false

def pendingCount (pipe : ProofVerificationPipe) (mintUrl : String) (token : ProofToken) : ℕ :=
  if (pipe.pending mintUrl token.secret).map Proof.token = some token then 1 else 0

/-! ### What the small updates do -/

@[simp] theorem pending_markSeen (pipe : ProofVerificationPipe) (secret m s : String) :
    (pipe.markSeen secret).pending m s = pipe.pending m s := rfl

@[simp] theorem pendingVerifications_markSeen (pipe : ProofVerificationPipe) (secret : String) :
    (pipe.markSeen secret).pendingVerifications = pipe.pendingVerifications := rfl

variable {pipe : ProofVerificationPipe} {keys : String → String} {known : Proof → Prop}
    {proofs : List Proof} (mintUrl : String)

@[simp] theorem mem_seenProofs_markSeen {secret s : String} :
    s ∈ (pipe.markSeen secret).seenProofs ↔ s = secret ∨ s ∈ pipe.seenProofs :=
  mem_insert_iff

@[simp] theorem seenProofs_keep (pipe : ProofVerificationPipe) (mintUrl : String) (proof : Proof)
    (y : String) : (pipe.keep mintUrl proof y).seenProofs = pipe.seenProofs := rfl

theorem pending_keep (pipe : ProofVerificationPipe) (mintUrl : String) (proof : Proof)
    (y m s : String) :
    (pipe.keep mintUrl proof y).pending m s =
      if m = mintUrl ∧ s = proof.secret then some proof else pipe.pending m s := by
  rw [pending, keep, Map.lookup_insert_ite]
  by_cases hm : m = mintUrl
  · subst hm
    rw [if_pos rfl, Option.bind_some, Map.lookup_insert_ite]
    by_cases hs : s = proof.secret
    · rw [if_pos hs, if_pos ⟨rfl, hs⟩]
    · rw [if_neg hs, if_neg fun h => hs h.2, pending]
      cases pipe.pendingProofs.lookup m <;> rfl
  · rw [if_neg hm, if_neg fun h => hm h.1, pending]

theorem pendingVerifications_keep (pipe : ProofVerificationPipe) (mintUrl : String) (proof : Proof)
    (y s : String) :
    (pipe.keep mintUrl proof y).pendingVerifications.lookup s =
      if s = proof.secret then some y else pipe.pendingVerifications.lookup s :=
  Map.lookup_insert_ite _ _ _ _

theorem pendingVerifications_forget (pipe : ProofVerificationPipe) (secret s : String) :
    (pipe.forget secret).pendingVerifications.lookup s =
      if s = secret then none else pipe.pendingVerifications.lookup s :=
  Map.lookup_erase_ite _ _ _

theorem pending_forget (pipe : ProofVerificationPipe) (secret m s : String) :
    (pipe.forget secret).pending m s = if s = secret then none else pipe.pending m s := by
  have hlookup : (pipe.forget secret).pendingProofs.lookup m =
      (pipe.pendingProofs.lookup m).map fun proofs => proofs.erase secret := by
    show List.dlookup m (pipe.pendingProofs.entries.map fun e =>
        (⟨e.1, e.2.erase secret⟩ : Sigma fun _ : String => Map String Proof)) =
      (List.dlookup m pipe.pendingProofs.entries).map _
    induction pipe.pendingProofs.entries with
    | nil => rfl
    | cons e entries ih =>
      obtain ⟨k, proofs⟩ := e
      by_cases hk : m = k
      · subst hk
        simp
      · rw [map_cons, dlookup_cons_ne _ _ hk, dlookup_cons_ne _ _ hk, ih]
  rw [pending, hlookup, pending]
  cases pipe.pendingProofs.lookup m with
  | none => simp
  | some proofs => exact Map.lookup_erase_ite _ _ _

/-! ### The collecting loop -/

/-- What is pending has a Y point, and its secret is seen. -/
structure PendingOk (pipe : ProofVerificationPipe) : Prop where
  seen : ∀ s y, pipe.pendingVerifications.lookup s = some y → s ∈ pipe.seenProofs
  point : ∀ m s q, pipe.pending m s = some q →
    ∃ y, pipe.pendingVerifications.lookup s = some y ∧ y ≠ ""

/-- The cached keys are the keys of the mints, no fetch has failed, and no verification
is under way. -/
structure KeysOk (keys : String → String) (pipe : ProofVerificationPipe) : Prop where
  cache : ∀ m k, pipe.mintKeysCache.lookup m = some k → k = keys m
  failures : pipe.mintKeyFailures = ∅
  idle : pipe.verificationRunning = false

/-- The secret that is evicted, if one is, has nothing pending. -/
def EvictsNothingPending (iter : IterOrder String) (pipe : ProofVerificationPipe) : Prop :=
  pipe.maxProofs ≤ pipe.seenProofs.length →
    ∀ oldest ∈ (iter.order pipe.seenProofs).head?, pipe.pendingVerifications.lookup oldest = none

/-- At its turn in the collecting loop, the secret of a passing proof has been seen
exactly when the proof is known, and the evictions take nothing pending. -/
def TurnsOk (iter : IterOrder String) (passes : Proof → Bool) (known : Proof → Prop) :
    ProofVerificationPipe → List Proof → Prop
  | _, [] => True
  | pipe, proof :: rest =>
    (passes proof → (proof.secret ∈ pipe.seenProofs ↔ known proof)) ∧
      if proof.secret ∈ pipe.seenProofs then TurnsOk iter passes known pipe rest
      else pipe.EvictsNothingPending iter ∧ TurnsOk iter passes known (pipe.makeRoom iter) rest

theorem PendingOk.makeRoom (h : pipe.PendingOk) : (pipe.makeRoom iter).PendingOk := by
  have hforget : ∀ secret, (pipe.forget secret).PendingOk := by
    intro secret
    constructor
    · intro s y hy
      rw [pendingVerifications_forget] at hy
      split at hy
      · cases hy
      · rename_i hne
        exact (mem_erase_of_ne hne).mpr (h.seen s y hy)
    · intro m s q hq
      rw [pending_forget] at hq
      split at hq
      · cases hq
      · rename_i hne
        obtain ⟨y, hy, hne'⟩ := h.point m s q hq
        exact ⟨y, by rw [pendingVerifications_forget, if_neg hne, hy], hne'⟩
  unfold ProofVerificationPipe.makeRoom
  split
  · split
    · exact hforget _
    · exact h
  · exact h

theorem KeysOk.makeRoom (h : pipe.KeysOk keys) : (pipe.makeRoom iter).KeysOk keys := by
  unfold ProofVerificationPipe.makeRoom
  split
  · split
    · exact ⟨h.cache, h.failures, h.idle⟩
    · exact h
  · exact h

theorem makeRoom_pending (h : pipe.PendingOk) (hevict : pipe.EvictsNothingPending iter) :
    (∀ m s, (pipe.makeRoom iter).pending m s = pipe.pending m s) ∧
      ∀ s, (pipe.makeRoom iter).pendingVerifications.lookup s = pipe.pendingVerifications.lookup s := by
  unfold makeRoom
  split
  · rename_i hfull
    split
    · rename_i oldest hold
      have hnone := hevict hfull oldest hold
      constructor
      · intro m s
        rw [pending_forget]
        split
        · rename_i heq
          subst heq
          -- a proof pending under the secret would have a Y point there
          cases hq : pipe.pending m s with
          | none => rfl
          | some q =>
            obtain ⟨y, hy, -⟩ := h.point m s q hq
            rw [hnone] at hy
            cases hy
        · rfl
      · intro s
        rw [pendingVerifications_forget]
        split
        · rename_i heq
          rw [heq, hnone]
        · rfl
    · exact ⟨fun _ _ => rfl, fun _ => rfl⟩
  · exact ⟨fun _ _ => rfl, fun _ => rfl⟩

/-- What the collecting loop gives when the turns are in order. -/
structure Collected (passes : Proof → Bool) (known : Proof → Prop) (proofs : List Proof)
    (pipe pipe' : ProofVerificationPipe) (fresh : List Proof) : Prop where
  pending : ∀ m s, pipe'.pending m s = pipe.pending m s
  points : ∀ s, pipe'.pendingVerifications.lookup s = pipe.pendingVerifications.lookup s
  sub : ∀ p ∈ fresh, p ∈ proofs
  unknown : ∀ p ∈ fresh, passes p → ¬ known p
  covered : ∀ p ∈ proofs, passes p → p ∈ fresh ∨ known p
  free : ∀ p ∈ fresh, pipe.pendingVerifications.lookup p.secret = none

theorem collectNew_spec {passes : Proof → Bool} (hpend : pipe.PendingOk)
    (hturns : TurnsOk iter passes known pipe proofs) :
    Collected passes known proofs pipe (collectNew iter pipe proofs).1
      (collectNew iter pipe proofs).2 := by
  induction proofs generalizing pipe with
  | nil => exact ⟨fun _ _ => rfl, fun _ => rfl, by simp [collectNew], by simp [collectNew],
      by simp, by simp [collectNew]⟩
  | cons proof rest ih =>
    obtain ⟨hproof, hrest⟩ := hturns
    by_cases hseen : proof.secret ∈ pipe.seenProofs
    · rw [if_pos hseen] at hrest
      rw [collectNew, if_pos hseen]
      have h := ih hpend hrest
      refine ⟨h.pending, h.points, fun p hp => mem_cons_of_mem _ (h.sub p hp), h.unknown,
        ?_, h.free⟩
      intro p hp hpass
      rcases List.mem_cons.mp hp with rfl | hp
      · exact .inr ((hproof hpass).mp hseen)
      · exact h.covered p hp hpass
    · rw [if_neg hseen] at hrest
      rw [collectNew, if_neg hseen]
      have h := ih (hpend.makeRoom) hrest.2
      have hsame := makeRoom_pending hpend hrest.1
      have hfree : pipe.pendingVerifications.lookup proof.secret = none := by
        cases hy : pipe.pendingVerifications.lookup proof.secret with
        | none => rfl
        | some y => exact absurd (hpend.seen _ y hy) hseen
      refine ⟨fun m s => (h.pending m s).trans (hsame.1 m s),
        fun s => (h.points s).trans (hsame.2 s), ?_, ?_, ?_, ?_⟩
      · intro p hp
        rcases List.mem_cons.mp hp with rfl | hp
        · exact mem_cons_self
        · exact mem_cons_of_mem _ (h.sub p hp)
      · intro p hp hpass
        rcases List.mem_cons.mp hp with rfl | hp
        · exact fun hknown => hseen ((hproof hpass).mpr hknown)
        · exact h.unknown p hp hpass
      · intro p hp hpass
        rcases List.mem_cons.mp hp with rfl | hp
        · exact .inl mem_cons_self
        · exact (h.covered p hp hpass).imp_left (mem_cons_of_mem _)
      · intro p hp
        rcases List.mem_cons.mp hp with rfl | hp
        · exact hfree
        · rw [← hsame.2]
          exact h.free p hp

theorem collectNew_ok (hpend : pipe.PendingOk) (hkeys : pipe.KeysOk keys) :
    (collectNew iter pipe proofs).1.PendingOk ∧ (collectNew iter pipe proofs).1.KeysOk keys := by
  induction proofs generalizing pipe with
  | nil => exact ⟨hpend, hkeys⟩
  | cons proof rest ih =>
    rw [collectNew]
    split
    · exact ih hpend hkeys
    · exact ih hpend.makeRoom hkeys.makeRoom

/-! ### The recording loop -/

variable (verify) in
theorem record_cases (keys : String) (pipe : ProofVerificationPipe) (proof : Proof) :
    (passes verify keys proof = true ∧ ∃ y, y ≠ "" ∧
      record verify mintUrl keys pipe proof = (pipe.keep mintUrl proof y).markSeen proof.secret) ∨
    (passes verify keys proof = false ∧
      record verify mintUrl keys pipe proof = pipe.markSeen proof.secret) := by
  unfold passes record
  cases verify proof keys with
  | error e => exact .inr ⟨rfl, rfl⟩
  | ok y =>
    by_cases hy : y = ""
    · exact .inr ⟨by simp [hy], if_pos hy⟩
    · exact .inl ⟨by simp [hy], y, hy, if_neg hy⟩

theorem PendingOk.record {mintUrl keys : String} (h : pipe.PendingOk) (proof : Proof) :
    (ProofVerificationPipe.record verify mintUrl keys pipe proof).PendingOk := by
  obtain ⟨-, y, hy, heq⟩ | ⟨-, heq⟩ := record_cases verify mintUrl keys pipe proof <;>
    rw [heq]
  · constructor
    · intro s y' hs
      rw [mem_seenProofs_markSeen, seenProofs_keep]
      rw [pendingVerifications_markSeen, pendingVerifications_keep] at hs
      by_cases hs' : s = proof.secret
      · exact .inl hs'
      · rw [if_neg hs'] at hs
        exact .inr (h.seen s y' hs)
    · intro m s q hq
      rw [pending_markSeen, pending_keep] at hq
      rw [pendingVerifications_markSeen, pendingVerifications_keep]
      by_cases hs' : s = proof.secret
      · exact ⟨y, if_pos hs', hy⟩
      · rw [if_neg fun hms => hs' hms.2] at hq
        rw [if_neg hs']
        exact h.point m s q hq
  · exact ⟨fun s y hs => mem_seenProofs_markSeen.mpr (.inr (h.seen s y hs)), h.point⟩

theorem KeysOk.record {mint : String → String} {mintUrl keys : String}
    (h : pipe.KeysOk mint) (proof : Proof) :
    (ProofVerificationPipe.record verify mintUrl keys pipe proof).KeysOk mint := by
  obtain ⟨-, y, -, heq⟩ | ⟨-, heq⟩ := record_cases verify mintUrl keys pipe proof <;>
    rw [heq] <;> exact ⟨h.cache, h.failures, h.idle⟩

theorem recordAll_ok {mint : String → String} {mintUrl keys : String} (fresh : List Proof)
    (hpend : pipe.PendingOk) (hkeys : pipe.KeysOk mint) :
    (fresh.foldl (record verify mintUrl keys) pipe).PendingOk ∧
      (fresh.foldl (record verify mintUrl keys) pipe).KeysOk mint := by
  induction fresh generalizing pipe with
  | nil => exact ⟨hpend, hkeys⟩
  | cons proof rest ih => exact ih (hpend.record proof) (hkeys.record proof)

theorem pending_record (keys : String) (pipe : ProofVerificationPipe) (proof : Proof)
    (m s : String) :
    (record verify mintUrl keys pipe proof).pending m s =
      if passes verify keys proof ∧ m = mintUrl ∧ s = proof.secret then some proof
      else pipe.pending m s := by
  obtain ⟨hpass, y, -, heq⟩ | ⟨hpass, heq⟩ :=
    record_cases verify mintUrl keys pipe proof <;> rw [heq, hpass]
  · rw [pending_markSeen, pending_keep]
    simp only [true_and]
  · rw [pending_markSeen, if_neg fun h => Bool.false_ne_true h.1]

/-- What the recording loop leaves pending: a passing proof for every secret a
passing proof has, and what was there before elsewhere. -/
theorem pending_recordAll (keys : String) (fresh : List Proof)
    (pipe : ProofVerificationPipe) (m s : String) :
    (∃ q ∈ fresh, passes verify keys q ∧ m = mintUrl ∧ q.secret = s ∧
      (fresh.foldl (record verify mintUrl keys) pipe).pending m s = some q) ∨
    (¬ (m = mintUrl ∧ ∃ q ∈ fresh, passes verify keys q ∧ q.secret = s) ∧
      (fresh.foldl (record verify mintUrl keys) pipe).pending m s = pipe.pending m s) := by
  induction fresh generalizing pipe with
  | nil => exact .inr ⟨by simp, rfl⟩
  | cons proof rest ih =>
    obtain ⟨q, hq, hpass, hm, hs, heq⟩ | ⟨hnone, heq⟩ :=
      ih (record verify mintUrl keys pipe proof)
    · exact .inl ⟨q, mem_cons_of_mem _ hq, hpass, hm, hs, heq⟩
    · -- no later round touches the place, so it holds what this round left there
      rw [pending_record] at heq
      by_cases hp : passes verify keys proof = true ∧ m = mintUrl ∧ s = proof.secret
      · rw [if_pos hp] at heq
        exact .inl ⟨proof, mem_cons_self, hp.1, hp.2.1, hp.2.2.symm, heq⟩
      · rw [if_neg hp] at heq
        refine .inr ⟨?_, heq⟩
        rintro ⟨hm, q, hq, hpass, hs⟩
        rcases List.mem_cons.mp hq with rfl | hq
        · exact hp ⟨hpass, hm, hs.symm⟩
        · exact hnone ⟨hm, q, hq, hpass, hs⟩

/-! ### `add_proofs` -/

def withKeys (pipe : ProofVerificationPipe) (cache : Map String String) (failures : Map String ℕ) :
    ProofVerificationPipe :=
  { pipe with mintKeysCache := cache, mintKeyFailures := failures }

theorem makeRoom_withKeys (pipe : ProofVerificationPipe) (cache : Map String String)
    (failures : Map String ℕ) :
    (pipe.withKeys cache failures).makeRoom iter = (pipe.makeRoom iter).withKeys cache failures := by
  show (if pipe.maxProofs ≤ pipe.seenProofs.length then _ else _) = withKeys (if _ then _ else _) _ _
  by_cases hfull : pipe.maxProofs ≤ pipe.seenProofs.length
  · rw [if_pos hfull, if_pos hfull]
    have hseen : (pipe.withKeys cache failures).seenProofs = pipe.seenProofs := rfl
    rw [hseen]
    cases (iter.order pipe.seenProofs).head? <;> rfl
  · rw [if_neg hfull, if_neg hfull]

theorem turnsOk_withKeys {passes : Proof → Bool} {cache : Map String String}
    {failures : Map String ℕ} (h : TurnsOk iter passes known pipe proofs) :
    TurnsOk iter passes known (pipe.withKeys cache failures) proofs := by
  induction proofs generalizing pipe with
  | nil => trivial
  | cons proof rest ih =>
    refine ⟨h.1, ?_⟩
    show if proof.secret ∈ pipe.seenProofs then _ else _
    by_cases hseen : proof.secret ∈ pipe.seenProofs
    · have hrest := h.2
      rw [if_pos hseen] at hrest ⊢
      exact ih hrest
    · have hrest := h.2
      rw [if_neg hseen] at hrest ⊢
      rw [makeRoom_withKeys]
      exact ⟨hrest.1, ih hrest.2⟩

theorem fetchMintKeysJson_available {world : MintWorld}
    {mintUrl : String} (hkeys : pipe.KeysOk keys)
    (havail : world.fetch mintUrl = .ok (keys mintUrl)) :
    ∃ cache failures, pipe.fetchMintKeysJson world mintUrl =
        (pipe.withKeys cache failures, .ok (keys mintUrl)) ∧
      (pipe.withKeys cache failures).KeysOk keys := by
  rw [fetchMintKeysJson]
  cases hcache : pipe.mintKeysCache.lookup mintUrl with
  | some k =>
    refine ⟨pipe.mintKeysCache, pipe.mintKeyFailures, ?_, hkeys⟩
    rw [hkeys.cache mintUrl k hcache]
    rfl
  | none =>
    rw [hkeys.failures, havail]
    refine ⟨pipe.mintKeysCache.insert mintUrl (keys mintUrl), _, rfl, ?_, ?_, hkeys.idle⟩
    · intro m k hk
      obtain ⟨rfl, rfl⟩ | ⟨-, hold⟩ := Map.lookup_insert_eq_some.mp hk
      · rfl
      · exact hkeys.cache m k hold
    · show AList.erase mintUrl (∅ : Map String ℕ) = ∅
      rfl

/-- Where what is pending is in order, `add_proofs` verifies exactly the passing proofs that
are not known. -/
theorem addProofs_spec {world : MintWorld} {mintUrl : String}
    (hpend : pipe.PendingOk) (hkeys : pipe.KeysOk keys)
    (havail : world.fetch mintUrl = .ok (keys mintUrl))
    (hturns : TurnsOk iter (passes verify (keys mintUrl)) known pipe proofs) :
    ∃ collected fresh, Collected (passes verify (keys mintUrl)) known proofs pipe collected fresh ∧
      (∀ m s, (pipe.addProofs iter verify world proofs mintUrl).1.pending m s =
        (fresh.foldl (record verify mintUrl (keys mintUrl)) collected).pending m s) ∧
      (pipe.addProofs iter verify world proofs mintUrl).1.PendingOk ∧
      (pipe.addProofs iter verify world proofs mintUrl).1.KeysOk keys := by
  rw [addProofs]
  by_cases hempty : proofs = []
  · subst hempty
    rw [if_pos rfl]
    exact ⟨pipe, [], ⟨fun _ _ => rfl, fun _ => rfl, by simp, by simp, by simp, by simp⟩,
      fun _ _ => rfl, hpend, hkeys⟩
  · obtain ⟨cache, failures, hfetch, hkeys'⟩ := fetchMintKeysJson_available hkeys havail
    have hpend' : (pipe.withKeys cache failures).PendingOk := ⟨hpend.seen, hpend.point⟩
    have hcollect := collectNew_spec hpend' (turnsOk_withKeys hturns)
    have hok : (collectNew iter (pipe.withKeys cache failures) proofs).1.PendingOk ∧
        (collectNew iter (pipe.withKeys cache failures) proofs).1.KeysOk keys :=
      collectNew_ok hpend' hkeys'
    rw [if_neg hempty, hfetch]
    refine ⟨_, _, ⟨hcollect.pending, hcollect.points, hcollect.sub, hcollect.unknown,
      hcollect.covered, hcollect.free⟩, fun _ _ => rfl, ?_⟩
    exact recordAll_ok _ hok.1 hok.2

/-! ### `verify_pending_proofs` -/

def validTokens (iter : IterOrder String) (pipe : ProofVerificationPipe) :
    List (String × ProofToken) :=
  (iter.order pipe.pendingProofs.keys).flatMap fun mintUrl =>
    (pipe.validOf iter ((pipe.pendingProofs.lookup mintUrl).getD ∅)).map fun p => (mintUrl, p.token)

theorem validAt_eq_pending (hpend : pipe.PendingOk) (m s : String) :
    pipe.validAt ((pipe.pendingProofs.lookup m).getD ∅) s = pipe.pending m s := by
  have hlookup : ((pipe.pendingProofs.lookup m).getD ∅).lookup s = pipe.pending m s := by
    rw [pending]
    cases pipe.pendingProofs.lookup m <;> rfl
  rw [validAt, hlookup]
  cases hq : pipe.pending m s with
  | none => split <;> simp
  | some q =>
    obtain ⟨y, hy, hne⟩ := hpend.point m s q hq
    rw [hy]
    exact if_neg hne

theorem mem_validOf (hpend : pipe.PendingOk) {m : String} {proof : Proof} :
    proof ∈ pipe.validOf iter ((pipe.pendingProofs.lookup m).getD ∅) ↔
      ∃ s, pipe.pending m s = some proof := by
  simp only [validOf, mem_filterMap, validAt_eq_pending hpend]
  constructor
  · rintro ⟨s, -, hs⟩
    exact ⟨s, hs⟩
  · rintro ⟨s, hs⟩
    refine ⟨s, ?_, hs⟩
    obtain ⟨proofs, hm, hproof⟩ := Option.bind_eq_some_iff.mp hs
    rw [(iter.perm _).mem_iff, hm]
    exact AList.mem_keys.mpr (AList.lookup_isSome.mp (Option.isSome_of_eq_some hproof))

theorem mem_validTokens (hpend : pipe.PendingOk) {m : String} {t : ProofToken} :
    (m, t) ∈ pipe.validTokens iter ↔ ∃ s q, pipe.pending m s = some q ∧ q.token = t := by
  rw [validTokens, mem_flatMap]
  constructor
  · rintro ⟨m', -, h⟩
    obtain ⟨q, hq, heq⟩ := List.mem_map.mp h
    cases heq
    obtain ⟨s, hs⟩ := (mem_validOf hpend).mp hq
    exact ⟨s, q, hs, rfl⟩
  · rintro ⟨s, q, hs, rfl⟩
    refine ⟨m, ?_, List.mem_map.mpr ⟨q, (mem_validOf hpend).mpr ⟨s, hs⟩, rfl⟩⟩
    obtain ⟨proofs, hm, -⟩ := Option.bind_eq_some_iff.mp hs
    rw [(iter.perm _).mem_iff]
    exact AList.mem_keys.mpr (AList.lookup_isSome.mp (Option.isSome_of_eq_some hm))

theorem nodup_validTokens (hpend : pipe.PendingOk)
    (hsecret : ∀ m s q, pipe.pending m s = some q → q.secret = s) :
    (pipe.validTokens iter).Nodup := by
  rw [validTokens, nodup_flatMap]
  constructor
  · -- the secret of a token is the key it is pending under
    intro m _
    rw [validOf, map_filterMap]
    refine List.Nodup.filterMap ?_
      ((iter.perm _).nodup_iff.mpr ((pipe.pendingProofs.lookup m).getD ∅).keys_nodup)
    intro s s' b hs hs'
    rw [validAt_eq_pending hpend] at hs hs'
    obtain ⟨q, hq, rfl⟩ := Option.map_eq_some_iff.mp hs
    obtain ⟨q', hq', heq⟩ := Option.map_eq_some_iff.mp hs'
    rw [← hsecret m s q hq, ← hsecret m s' q' hq']
    exact congrArg ProofToken.secret (Prod.mk.inj heq).2.symm
  · -- the tokens of two mints differ in the mint
    have hkeys := (iter.perm _).nodup_iff.mpr pipe.pendingProofs.keys_nodup
    refine List.Pairwise.imp ?_ hkeys
    intro m m' hne x hx hx'
    obtain ⟨q, -, rfl⟩ := List.mem_map.mp hx
    obtain ⟨q', -, heq⟩ := List.mem_map.mp hx'
    exact hne (Prod.mk.inj heq).1.symm

theorem mapM_toOffset (h : ∀ p ∈ proofs, p.toOffset.isSome) :
    ∃ written, proofs.mapM Proof.toOffset = some written ∧
      written.map FbProof.token = proofs.map Proof.token := by
  induction proofs with
  | nil => exact ⟨[], rfl, rfl⟩
  | cons p rest ih =>
    obtain ⟨w, hw⟩ := Option.isSome_iff_exists.mp (h p mem_cons_self)
    obtain ⟨ws, hws, htokens⟩ := ih fun q hq => h q (mem_cons_of_mem p hq)
    refine ⟨w :: ws, ?_, ?_⟩
    · rw [mapM_cons, hw, hws]
      rfl
    · rw [map_cons, map_cons, Proof.token_toOffset hw, htokens]

theorem toMessage_tokens {valid : List (String × List Proof)}
    (h : ∀ group ∈ valid, ∀ p ∈ group.2, p.toOffset.isSome) :
    ∃ groups, toMessage valid = some groups ∧
      (ProofOutput.validProofs groups).tokens =
        valid.flatMap fun group => group.2.map fun p => (group.1, p.token) := by
  induction valid with
  | nil => exact ⟨[], rfl, rfl⟩
  | cons group rest ih =>
    obtain ⟨written, hw, htokens⟩ := mapM_toOffset (h group mem_cons_self)
    obtain ⟨groups, hgroups, hrest⟩ := ih fun g hg => h g (mem_cons_of_mem group hg)
    refine ⟨⟨group.1, written⟩ :: groups, ?_, ?_⟩
    · have hgroups' : rest.mapM (fun g => (g.2.mapM Proof.toOffset).map (MintProofs.mk g.1)) =
          some groups := hgroups
      rw [toMessage, mapM_cons, hw, hgroups']
      rfl
    · rw [flatMap_cons, ← hrest]
      show (written.map fun p => (group.1, p.token)) ++ _ = _
      have hmap : ∀ (m : String) (l : List ProofToken), l.map (Prod.mk m) = l.map fun t => (m, t) :=
        fun _ _ => rfl
      congr 1
      calc written.map (fun p => (group.1, p.token))
          = (written.map FbProof.token).map (Prod.mk group.1) := by rw [map_map]; rfl
        _ = (group.2.map Proof.token).map (Prod.mk group.1) := by rw [htokens]
        _ = group.2.map fun p => (group.1, p.token) := by rw [map_map]; rfl

theorem validProofs_tokens (pipe : ProofVerificationPipe) :
    ((pipe.validProofs iter).flatMap fun group => group.2.map fun p => (group.1, p.token)) =
      pipe.validTokens iter := by
  rw [validProofs, validTokens]
  induction iter.order pipe.pendingProofs.keys with
  | nil => rfl
  | cons m rest ih =>
    rw [filterMap_cons, flatMap_cons, ← ih]
    cases pipe.validOf iter ((pipe.pendingProofs.lookup m).getD ∅) with
    | nil => rfl
    | cons p ps => rfl

theorem PendingOk.verifyPendingProofs (h : pipe.PendingOk) :
    (pipe.verifyPendingProofs iter).1.PendingOk := by
  have hclear : pipe.clearPending.PendingOk :=
    ⟨fun _ _ hy => (by cases hy), fun _ _ _ hq => (by cases hq)⟩
  unfold ProofVerificationPipe.verifyPendingProofs
  split
  · split
    · exact hclear
    · exact hclear
  · exact h

theorem KeysOk.verifyPendingProofs
    (h : pipe.KeysOk keys) : (pipe.verifyPendingProofs iter).1.KeysOk keys := by
  have hclear : pipe.clearPending.KeysOk keys := ⟨h.cache, h.failures, rfl⟩
  unfold ProofVerificationPipe.verifyPendingProofs
  split
  · split
    · exact hclear
    · exact hclear
  · exact h

variable (iter) in
/-- **What is sent.**  `verify_pending_proofs` sends every pending proof once, and
nothing is pending after it. -/
theorem verifyPendingProofs_spec (hpend : pipe.PendingOk) (hidle : pipe.verificationRunning = false)
    (hsource : ∀ m s q, pipe.pending m s = some q → q.secret = s ∧ q.toOffset.isSome) :
    (∀ m t, (pipe.verifyPendingProofs iter).2.tokens.count (m, t) = pipe.pendingCount m t) ∧
      ∀ m s, (pipe.verifyPendingProofs iter).1.pending m s = none := by
  rw [verifyPendingProofs]
  by_cases hnone : pipe.pendingVerifications.entries = []
  · -- without a Y point nothing is pending
    have hempty : ∀ m s, pipe.pending m s = none := by
      intro m s
      cases hq : pipe.pending m s with
      | none => rfl
      | some q =>
        obtain ⟨y, hy, -⟩ := hpend.point m s q hq
        rw [show pipe.pendingVerifications = ∅ from AList.ext hnone] at hy
        cases hy
    rw [if_neg fun h => h.1 hnone]
    refine ⟨fun m t => ?_, hempty⟩
    rw [pendingCount, hempty, if_neg (by simp)]
    rfl
  · rw [if_pos ⟨hnone, by simp [hidle]⟩]
    have hvalid : ∀ group ∈ pipe.validProofs iter, ∀ p ∈ group.2, p.toOffset.isSome := by
      intro group hgroup p hp
      obtain ⟨m, -, hm⟩ := List.mem_filterMap.mp hgroup
      split at hm
      · cases hm
      · cases hm
        obtain ⟨s, hs⟩ := (mem_validOf hpend).mp hp
        exact (hsource m s p hs).2
    obtain ⟨groups, hgroups, htokens⟩ := toMessage_tokens hvalid
    rw [hgroups]
    refine ⟨fun m t => ?_, fun _ _ => rfl⟩
    show (ProofOutput.validProofs groups).tokens.count (m, t) = _
    rw [htokens, validProofs_tokens]
    have hnodup : (pipe.validTokens iter).Nodup :=
      nodup_validTokens hpend fun m s q h => (hsource m s q h).1
    have hiff : (m, t) ∈ pipe.validTokens iter ↔
        (pipe.pending m t.secret).map Proof.token = some t := by
      rw [mem_validTokens hpend, Option.map_eq_some_iff]
      constructor
      · rintro ⟨s, q, hq, rfl⟩
        have hs : q.token.secret = s := (hsource m s q hq).1
        exact ⟨q, by rw [hs]; exact hq, rfl⟩
      · rintro ⟨q, hq, ht⟩
        exact ⟨_, q, hq, ht⟩
    rw [pendingCount]
    by_cases hmem : (m, t) ∈ pipe.validTokens iter
    · rw [if_pos (hiff.mp hmem), count_eq_one_of_mem hnodup hmem]
    · rw [if_neg fun h => hmem (hiff.mpr h), count_eq_zero_of_not_mem hmem]

end ProofVerificationPipe

end Nipworker
