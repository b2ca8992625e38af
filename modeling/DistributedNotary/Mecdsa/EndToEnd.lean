import DistributedNotary.Mecdsa.Exchange
import DistributedNotary.Mecdsa.Gate

/-! Phases 4 to 6 of an honest run. Every signer computes the same point `R`, the
openings of phase 5 cancel so that every signer reveals its share, and the sum of
the shares satisfies the signature equation for the public key. The library has no
multiple for the scalar zero, so a run gets there exactly when none occurs in it. -/
namespace DistributedNotary.Mecdsa

open Library Share Feldman Proofs

namespace Session

variable {C : Curve} (s : Session C)

/-- The point that the signers agree on. -/
def nonce : C.Point := s.sumK⁻¹ • C.G

section Phase4

variable {s} {i : ℕ}

theorem sum_perm_signers {M : Type*} [AddCommMonoid M] {l : List M} {f : ℕ → M} (h : l.Perm (s.S.map f)) :
    l.sum = ∑ j ∈ s.S.toFinset, f j := by
  rw [h.sum_eq, List.sum_toFinset f s.S_nodup]

theorem cast_phase3ReconstructDelta {d : RangeMap ℕ SPrivKey} (hd : RangeMap.Collects d s.S (IsDelta s))
    (hk : s.sumK ≠ 0) (hg : s.sumGamma ≠ 0) (rg : Range ℕ) :
    (phase3ReconstructDelta rg d C.N : ZMod C.N) = (s.sumK * s.sumGamma)⁻¹ := by
  have hsum : ((modSum C.N privKeyZero ((d.range rg).map (·.2)) : ℕ) : ZMod C.N) = s.sumK * s.sumGamma := by
    have hp := hd.range_map_perm rg (f := fun p => ((p.2 : ℕ) : ZMod C.N)) (g := fun j => s.k j * s.sumGamma)
      fun j v hv => hv
    rw [cast_modSum, cast_privKeyZero, zero_add, List.map_map]
    refine (sum_perm_signers hp).trans ?_
    rw [← Finset.sum_mul, sumK]
  have hne : ((modSum C.N privKeyZero ((d.range rg).map (·.2)) : ℕ) : ZMod C.N) ≠ 0 := by
    rw [hsum]
    exact mul_ne_zero hk hg
  rw [phase3ReconstructDelta, cast_invertN hne, hsum]

theorem sumPoints_eq (l : List C.Point) : sumPoints l = l.sum := by
  have hstep : ∀ acc : C.Point, l.foldl (fun sum P => if sum = 0 then P else pointAdd sum P) acc = acc + l.sum := by
    induction l with
    | nil => simp
    | cons P l ih =>
      intro acc
      have hacc : (if acc = 0 then P else pointAdd acc P) = acc + P := by
        split
        · rw [‹acc = 0›, zero_add]
        · rfl
      rw [List.foldl_cons, hacc, ih, List.sum_cons, add_assoc]
  rw [sumPoints, hstep, zero_add]

/-- An answer that proves the point `gamma` of its sender. -/
def ProvesGamma (s : Session C) (j : ℕ) (mb : MessageBPhase2 C) : Prop :=
  mb.messageBGamma.bProof.PK = s.gamma j • C.G

theorem checkCommitments_ok {p1 : RangeMap ℕ SignBroadcastPhase1} (h1 : RangeMap.Collects p1 s.S s.Commits)
    (l : List (ℕ × MessageBPhase2 C)) (hl : ∀ p ∈ l, p.1 ∈ s.S ∧ ProvesGamma s p.1 p.2) :
    checkCommitments p1 l = .ok true := by
  induction l with
  | nil => rfl
  | cons p l ih =>
    obtain ⟨i, mb⟩ := p
    obtain ⟨hi, hmb⟩ := hl (i, mb) (List.mem_cons_self ..)
    obtain ⟨b, hb, hcom⟩ := h1.values i hi
    have hderef : deref (p1.lookup i) = .ok b := by rw [hb, deref_some]
    refine (bind_ok hderef _).trans ((if_pos ?_).trans (ih fun p hp => hl p (List.mem_cons_of_mem _ hp)))
    rw [hmb]
    exact hcom

theorem phase4_eq {p1 : RangeMap ℕ SignBroadcastPhase1} {p2 : RangeMap ℕ (MessageBPhase2 C)} {delta : SPrivKey}
    (h1 : RangeMap.Collects p1 s.S s.Commits) (h2 : RangeMap.Collects p2 s.S (ProvesGamma s)) (rg rg' : Range ℕ)
    (hdelta : (delta : ZMod C.N) = (s.sumK * s.sumGamma)⁻¹) (hg : s.sumGamma ≠ 0) :
    Mecdsa.phase4 rg rg' delta p2 p1 = .ok (some s.nonce) := by
  have hlen : ¬ RangeMap.len p2 ≠ RangeMap.len p1 := not_not.mpr (h2.len.trans h1.len.symm)
  have hcom : checkCommitments p1 (p2.range rg) = .ok true := checkCommitments_ok h1 _ fun p hp =>
    h2.of_lookup (RangeMap.mem_range.mp hp)
  have hsum : sumPoints ((p2.range rg').map fun p => p.2.messageBGamma.bProof.PK) = s.sumGamma • C.G := by
    have hp := h2.range_map_perm rg' (f := fun p => p.2.messageBGamma.bProof.PK) (g := fun j => s.gamma j • C.G)
      fun j v hv => hv
    rw [sumPoints_eq, sum_perm_signers hp, ← Finset.sum_smul, sumGamma]
  have hR : scalarMult (s.sumGamma • C.G) delta = s.nonce := by
    rw [scalarMult_eq, hdelta, smul_smul, nonce, mul_inv, mul_assoc, inv_mul_cancel₀ hg, mul_one]
  refine (if_neg hlen).trans ((bind_ok hcom _).trans ((if_pos rfl).trans ?_))
  rw [hsum]
  exact congrArg (fun P => Except.ok (some P)) hR

/-- What the later phases use of the record of signer `i` after phase 4. -/
structure After4 (s : Session C) (i : ℕ) (sm : SignMessage C) : Prop where
  signers : sm.S = s.others i ++ [i]
  message : sm.message = s.message
  key : ∃ key, sm.signedKey = some key ∧ s.KeyOf i key
  sigma : (sm.sigma : ZMod C.N) = s.k i * (s.groupKey : ZMod C.N)
  R : sm.R = some s.nonce
  phase5A : sm.phase5A = ∅
  phase5C : sm.phase5C = ∅
  phase5D : sm.phase5D = ∅

theorem phase4_returns (hi : i ∈ s.S) (hk : s.sumK ≠ 0) (hg : s.sumGamma ≠ 0) :
    ReturnsIff (∀ j ∈ s.S, s.ExchangeFits j) (s.phase4 i) fun dh => ∃ sm, dh = s.handler i sm ∧ After4 s i sm := by
  refine ((phase3_returns hi).bind fun dh _ ⟨sm, hdh, hsm⟩ => ?_).congr (and_iff_left trivial)
  rw [hdh]
  obtain ⟨key, p1, ma, p2, aG, aW, d, sigma, hkey, h1, ha, h2, hd, hsigma⟩ := hsm
  obtain ⟨m, hm, hans⟩ := newMessageB_ok ha key.gammaI ((s.coins i).mtaGamma i) (s.mtaGamma_coprime i i)
  have h2' : RangeMap.Collects (p2.insert i { messageBGamma := m, messageBWi := none }) s.S (ProvesGamma s) := by
    refine RangeMap.Collects.perm ?_ (cons_others_perm hi)
    refine (h2.mono fun j mb hmb => hmb.gamma.pk).insert notMem_others ?_
    rw [hkey.gammaI] at hans
    exact hans.pk
  have hdelta := cast_phase3ReconstructDelta hd hk hg (s.loop .delta i)
  have hfits : 0 < phase3ReconstructDelta (s.loop .delta i) d C.N ∧
      phase3ReconstructDelta (s.loop .delta i) d C.N < C.N := by
    have hlt : phase3ReconstructDelta (s.loop .delta i) d C.N < C.N := Nat.mod_lt _ (NeZero.pos C.N)
    refine ⟨Nat.pos_of_ne_zero fun hzero => ?_, hlt⟩
    rw [hzero, Nat.cast_zero] at hdelta
    exact inv_ne_zero (mul_ne_zero hk hg) hdelta.symm
  have h4 := phase4_eq h1 h2' (s.loop .commitments i) (s.loop .points i) hdelta hg
  have hgroup := BitCurve.generatePhase4R_eq (s.loop .delta i) (s.loop .commitments i) (s.loop .points i)
    (s.handler i { s.base i key with
      phase1BroadCast := p1, messageA := some ma, phase2MessageB := p2, alphaGamma := aG, alphaWI := aW,
      delta := d, sigma := sigma }) ((s.coins i).mtaGamma i) rfl rfl
    (by rw [hkey.gammaI]; exact (s.coins i).gammaI.2) hm hfits
  rw [hgroup]
  exact .of_ok (a := s.handler i { s.base i key with
    phase1BroadCast := p1, messageA := some ma, alphaGamma := aG, alphaWI := aW, delta := d, sigma := sigma,
    phase2MessageB := p2.insert i { messageBGamma := m, messageBWi := none }, R := some s.nonce })
    ((bind_ok hm _).trans (bind_ok h4 _)) ⟨_, rfl, ⟨rfl, rfl, ⟨key, rfl, hkey⟩, hsigma, rfl, rfl, rfl, rfl⟩⟩

end Phase4

section Phase5A

/-- `R.X` and the message as residues. -/
def r : ZMod C.N := (C.X s.nonce : ℕ)

def m : ZMod C.N := (s.message : ℕ)

/-- The share of the signature that signer `i` computes. -/
def share (i : ℕ) : ZMod C.N := s.m * s.k i + s.r * (s.k i * (s.groupKey : ZMod C.N))

/-- The blinding keys as residues. -/
def ell (i : ℕ) : ZMod C.N := ((s.coins i).phase5A.lI : ℕ)

def rho (i : ℕ) : ZMod C.N := ((s.coins i).phase5A.rhoI : ℕ)

/-- The record that phase 5 keeps of it. -/
def localSignature (i : ℕ) : LocalSignature C where
  lI := (s.coins i).phase5A.lI
  rhoI := (s.coins i).phase5A.rhoI
  R := s.nonce
  sI := (s.share i).val
  M := s.message
  Y := s.publicKey i

/-- The message of phase 5A that signer `i` sends. -/
def blinded (i : ℕ) : Phase5A C :=
  (s.localSignature i).blinded (s.coins i).phase5A.blindFactor (s.coins i).phase5A.s1 (s.coins i).phase5A.s2

def Blinds (i : ℕ) (msg : Phase5A C) : Prop := msg = s.blinded i

/-- The scalars with which the others verify it fit. -/
def ProofFits (i : ℕ) : Prop :=
  BitCurve.HomoFits (s.blinded i).proof (phase5BStatement s.nonce (s.blinded i).decom)

instance (i : ℕ) : Decidable (s.ProofFits i) := inferInstanceAs (Decidable (BitCurve.HomoFits _ _))

variable {s} {i : ℕ}

theorem cast_sI (i : ℕ) : ((s.localSignature i).sI : ZMod C.N) = s.share i := ZMod.natCast_zmod_val _

theorem blinded_vi (i : ℕ) : (s.blinded i).decom.vi = s.share i • s.nonce + s.ell i • C.G := by
  have hvi : (s.blinded i).decom.vi =
      pointAdd (scalarBaseMult C (s.localSignature i).lI) (scalarMult s.nonce (s.localSignature i).sI) := rfl
  rw [hvi, pointAdd, scalarBaseMult_eq, scalarMult_eq, cast_sI, add_comm]
  rfl

theorem blinded_ai (i : ℕ) : (s.blinded i).decom.ai = s.rho i • C.G := scalarBaseMult_eq _

theorem blinded_bi (i : ℕ) : (s.blinded i).decom.bi = (s.ell i * s.rho i) • C.G := by
  rw [ell, rho, ← cast_modMul, ← scalarBaseMult_eq]
  rfl

theorem blinded_verify (i : ℕ) : (s.blinded i).proof.verify (phase5BStatement s.nonce (s.blinded i).decom) = true := by
  refine verify_createHomoELGamalProof ⟨?_, ?_⟩ _ _
  · simp only [phase5BStatement, pointAdd, scalarBaseMult_eq, scalarMult_eq]
    exact add_comm _ _
  · simp only [phase5BStatement, scalarBaseMult_eq, cast_modMul, smul_smul]

/-- The blinding keys are drawn from the scalars that fit. -/
theorem localSignature_fits : (s.localSignature i).Fits ↔ s.share i ≠ 0 := by
  have hlt : (s.localSignature i).sI < C.N := ZMod.val_lt _
  have hzero : s.share i = 0 ↔ (s.localSignature i).sI = 0 := by rw [← cast_sI, cast_eq_zero_iff hlt]
  rw [LocalSignature.Fits, ne_eq, hzero]
  constructor
  · intro h
    exact h.1.1.ne'
  · intro h
    exact ⟨⟨Nat.pos_of_ne_zero h, hlt⟩, (s.coins i).phase5A.lI.2, (s.coins i).phase5A.rhoI.2⟩

/-- The share that the handler computes from its keys. -/
theorem phase5LocalSignature_eq {sm : SignMessage C} (h4 : After4 s i sm) {key : SignedKey C} (hkey : s.KeyOf i key) :
    phase5LocalSignature key.ki sm.message s.nonce sm.sigma (s.publicKey i) (s.coins i).phase5A.lI
      (s.coins i).phase5A.rhoI = s.localSignature i := by
  have hcast : ((modAdd C.N (modMul C.N (bigInt2PrivateKey C.N sm.message) key.ki)
      (modMul C.N (bigInt2PrivateKey C.N (C.X s.nonce)) sm.sigma) : ℕ) : ZMod C.N) = s.share i := by
    simp only [cast_modAdd, cast_modMul, cast_bigInt2PrivateKey, h4.sigma, h4.message, hkey.ki]
    rfl
  have hsI := eq_of_cast (modAdd_lt _ _) (ZMod.val_lt (s.share i)) (hcast.trans (ZMod.natCast_zmod_val _).symm)
  rw [phase5LocalSignature, localSignature, ← hsI]
  simp only [h4.message]

/-- Every proof of phase 5B is verified by every signer. -/
theorem verifyPhase5A_returns (l : List (ℕ × Phase5A C)) (hl : ∀ p ∈ l, s.Blinds p.1 p.2) :
    ReturnsIff (∀ p ∈ l, s.ProofFits p.1) (verifyPhase5A (some s.nonce) l) (· = true) := by
  induction l with
  | nil =>
    have hnil : ReturnsIff True (verifyPhase5A (some s.nonce) []) (· = true) := .of_ok rfl rfl
    exact hnil.congr (iff_of_true trivial fun p hp => absurd hp List.not_mem_nil)
  | cons p l ih =>
    obtain ⟨j, msg⟩ := p
    obtain rfl : msg = s.blinded j := hl (j, msg) (List.mem_cons_self ..)
    have hrest := ih fun p hp => hl p (List.mem_cons_of_mem _ hp)
    have hsteps : ReturnsIff (s.ProofFits j ∧ ∀ p ∈ l, s.ProofFits p.1)
        (verifyPhase5A (some s.nonce) ((j, s.blinded j) :: l)) (· = true) := by
      have hcom : createCommitmentWithUserDefinedRandomNess (createHashFromGE
          [(s.blinded j).decom.vi, (s.blinded j).decom.ai, (s.blinded j).decom.bi] : SPrivKey)
          (s.blinded j).decom.blindFactor = (s.blinded j).com := rfl
      rw [verifyPhase5A, bind_ok (deref_some _)]
      simp only [if_pos hcom]
      refine (BitCurve.verifyHomoELGamalProof_returns (s.blinded j).proof
        (phase5BStatement s.nonce (s.blinded j).decom)).bind fun b _ hb => ?_
      rw [hb, blinded_verify, if_pos rfl]
      exact hrest
    refine hsteps.congr ?_
    rw [List.forall_mem_cons]

theorem checkPhase5A5BDone_returns (rg : Range ℕ) (sm : SignMessage C) (h5 : RangeMap.Collects sm.phase5A s.S s.Blinds)
    (hR : sm.R = some s.nonce) (hlen : RangeMap.len sm.phase5A = sm.S.length) :
    ReturnsIff (∀ j ∈ s.S, s.ProofFits j) ((s.handler i sm).checkPhase5A5BDone rg)
      (· = s.handler i sm [.phase5A5B]) := by
  have hv := verifyPhase5A_returns (s := s) (sm.phase5A.range rg) fun p hp => h5.of_mem_range hp
  rw [← hR] at hv
  have hsteps : ReturnsIff ((∀ p ∈ sm.phase5A.range rg, s.ProofFits p.1) ∧ True)
      ((s.handler i sm).checkPhase5A5BDone rg) (· = s.handler i sm [.phase5A5B]) := by
    rw [DSMHandler.checkPhase5A5BDone, if_pos (show (s.handler i sm).signMessage.phase5A.len =
      (s.handler i sm).signMessage.S.length from hlen)]
    refine hv.bind fun b _ hb => ?_
    rw [hb, if_pos rfl]
    exact .of_ok (notifyDone_handler sm .phase5A5B) rfl
  refine hsteps.congr ((and_iff_left trivial).trans ?_)
  rw [← List.forall_mem_map (f := Prod.fst) (P := s.ProofFits)]
  exact forall_congr' fun j => imp_congr_left (h5.range_fst_perm rg).mem_iff

/-- What the later phases use of the record of signer `i` after phase 5B. -/
structure After5A (s : Session C) (i : ℕ) (sm : SignMessage C) : Prop where
  signers : sm.S = s.others i ++ [i]
  R : sm.R = some s.nonce
  localSignature : sm.localSignature = some (s.localSignature i)
  phase5A : RangeMap.Collects sm.phase5A s.S s.Blinds
  phase5C : sm.phase5C = ∅
  phase5D : sm.phase5D = ∅

/-- The state of signer `i` when the messages `m` of phase 5A have come in. -/
def blinding (s : Session C) (i : ℕ) (sm : SignMessage C) (m : RangeMap ℕ (Phase5A C)) : DSMHandler C :=
  s.handler i { sm with phase5A := m, localSignature := some (s.localSignature i) }

theorem phase5A5BProof_returns (hi : i ∈ s.S) (hk : s.sumK ≠ 0) (hg : s.sumGamma ≠ 0) :
    ReturnsIff ((∀ j ∈ s.S, s.ExchangeFits j) ∧ s.share i ≠ 0) (s.phase5A5BProof i)
      fun r => ∃ sm, After4 s i sm ∧ r = (s.blinding i sm (AList.insert i (s.blinded i) ∅), s.blinded i) := by
  refine (phase4_returns hi hk hg).bind fun dh _ ⟨sm, hdh, h4⟩ => ?_
  rw [hdh]
  obtain ⟨key, hkey, hkeyOf⟩ := h4.key
  have hderef : deref (s.handler i sm).signMessage.signedKey = .ok key := by
    rw [show (s.handler i sm).signMessage.signedKey = sm.signedKey from rfl, hkey, deref_some]
  have hR : deref (s.handler i sm).signMessage.R = .ok s.nonce := by
    rw [show (s.handler i sm).signMessage.R = sm.R from rfl, h4.R, deref_some]
  have hlen : RangeMap.len (AList.insert i (s.blinded i) ∅) ≠ sm.S.length := by
    rw [h4.signers]
    exact len_insert_empty_ne hi (s.blinded i)
  have hcheck : (s.blinding i sm (AList.insert i (s.blinded i) ∅)).checkPhase5A5BDone (s.loop .proofs i) = .ok _ :=
    if_neg hlen
  have hmsg := phase5aBroadcast5bZkproof_returns (s.localSignature i) (s.coins i).phase5A.blindFactor
    (s.coins i).phase5A.s1 (s.coins i).phase5A.s2
  refine .then_ok hderef (.then_ok hR ?_)
  simp only [show (s.handler i sm).signMessage.message = sm.message from rfl,
    show (s.handler i sm).signMessage.sigma = sm.sigma from rfl,
    show (s.handler i sm).publicKey = s.publicKey i from rfl, phase5LocalSignature_eq h4 hkeyOf]
  refine (hmsg.bind fun msg _ hmsg => ?_).congr ((and_iff_left trivial).trans localSignature_fits)
  rw [show msg = s.blinded i from hmsg, show (s.handler i sm).signMessage.phase5A = ∅ from h4.phase5A]
  exact .of_ok (bind_ok hcheck _) ⟨sm, h4, rfl⟩

theorem phase5A5B_returns (hi : i ∈ s.S) (hk : s.sumK ≠ 0) (hg : s.sumGamma ≠ 0) :
    ReturnsIff ((∀ j ∈ s.S, s.ExchangeFits j) ∧ (∀ j ∈ s.S, s.share j ≠ 0) ∧ ∀ j ∈ s.S, s.ProofFits j)
      (s.phase5A5B i) fun dh => ∃ sm, dh = s.handler i sm ∧ After5A s i sm := by
  have hmsg : ∀ j ∈ s.S, ReturnsIff ((∀ j ∈ s.S, s.ExchangeFits j) ∧ s.share j ≠ 0)
      (do return (← s.phase5A5BProof j).2) (s.Blinds j) :=
    fun j hj => (phase5A5BProof_returns hj hk hg).map fun r _ hr => by
      obtain ⟨sm, _, hr⟩ := hr
      rw [hr]
      rfl
  have hsteps : ReturnsIff (((∀ j ∈ s.S, s.ExchangeFits j) ∧ s.share i ≠ 0) ∧
      ((∀ j ∈ s.others i, (∀ j ∈ s.S, s.ExchangeFits j) ∧ s.share j ≠ 0) ∧ ∀ j ∈ s.S, s.ProofFits j) ∧ True)
      (s.phase5A5B i) fun dh => ∃ sm, dh = s.handler i sm ∧ After5A s i sm := by
    refine (phase5A5BProof_returns hi hk hg).bind fun r _ ⟨sm, h4, hr⟩ => ?_
    rw [hr]
    have hS : (s.others i ++ [i]).length = sm.S.length := by rw [h4.signers]
    refine (deliver_receiveOnce (s := s) .phase5A5B hi (s.blinding i sm)
      (DSMHandler.receivePhase5A5BProof (s.loop .proofs i)) (DSMHandler.checkPhase5A5BDone (s.loop .proofs i))
      (fun dh => ∃ sm, dh = s.handler i sm [.phase5A5B] ∧ After5A s i sm) (q := ∀ j ∈ s.S, s.ProofFits j)
      (fun m v j hj _ => DSMHandler.receiveOnce_new hj) (fun m hm => if_neg fun h => hm (h.trans hS.symm)) hmsg
      ((RangeMap.Collects.empty _).insert List.not_mem_nil rfl)
      (fun p hp => (checkPhase5A5BDone_returns (s.loop .proofs i)
        { sm with phase5A := p, localSignature := some (s.localSignature i) } hp h4.R
        ((len_collects hi hp).trans hS)).mono fun dh _ hdh =>
          ⟨_, hdh, ⟨h4.signers, h4.R, rfl, hp, h4.phase5C, h4.phase5D⟩⟩)).bind fun dh _ ⟨sm', hdh, hsm⟩ => ?_
    rw [hdh]
    exact .of_ok (wait_signalled sm' .phase5A5B) ⟨sm', rfl, hsm⟩
  refine hsteps.congr ⟨?_, ?_⟩
  · rintro ⟨⟨hex, hown⟩, ⟨hothers, hproofs⟩, -⟩
    exact ⟨hex, (forall_signers hi).mp ⟨hown, fun j hj => (hothers j hj).2⟩, hproofs⟩
  · rintro ⟨hex, hshare, hproofs⟩
    exact ⟨⟨hex, hshare i hi⟩, ⟨fun j hj => ⟨hex, hshare j (mem_others.mp hj).2⟩, hproofs⟩, trivial⟩

end Phase5A

section Phase5C

/-- The sums of the blinding keys. -/
def sumEll : ZMod C.N := ∑ i ∈ s.S.toFinset, s.ell i

def sumRho : ZMod C.N := ∑ i ∈ s.S.toFinset, s.rho i

/-- A message of phase 5C that opens, with the points that signer `i` has to send. -/
structure Opens (i : ℕ) (msg : Phase5C C) : Prop where
  uI : msg.decom.uI = (s.rho i * s.sumEll) • C.G
  ti : msg.decom.ti = (s.ell i * (s.sumRho - s.rho i)) • C.G
  com : createCommitmentWithUserDefinedRandomNess
    (createHashFromGE [msg.decom.uI, msg.decom.ti] : SPrivKey) msg.decom.blindFactor = msg.com

variable {s} {i : ℕ}

/-- The shares of the signature add up to the signature for the nonce point. -/
theorem sum_share_smul_nonce (hk : s.sumK ≠ 0) :
    (∑ j ∈ s.S.toFinset, s.share j) • s.nonce = (s.m + s.r * (s.groupKey : ZMod C.N)) • C.G := by
  have hsum : ∑ j ∈ s.S.toFinset, s.share j = (s.m + s.r * (s.groupKey : ZMod C.N)) * s.sumK := by
    rw [sumK, Finset.mul_sum]
    exact Finset.sum_congr rfl fun j _ => by rw [share]; ring
  rw [hsum, nonce, smul_smul, mul_assoc, mul_inv_cancel₀ hk, mul_one]

/-- Once the message and the public key are taken off, the blinding keys alone are left. -/
theorem sum_vi_sub (hk : s.sumK ≠ 0) :
    ∑ j ∈ s.S.toFinset, (s.share j • s.nonce + s.ell j • C.G) - s.m • C.G -
      s.r • (s.groupKey : ZMod C.N) • C.G = s.sumEll • C.G := by
  rw [Finset.sum_add_distrib, ← Finset.sum_smul, ← Finset.sum_smul, sum_share_smul_nonce hk, sumEll]
  module

theorem localSignature_messageFits (i : ℕ) : (s.localSignature i).MessageFits ↔ s.m ≠ 0 ∧ s.r ≠ 0 := by
  have hmod : ∀ a : ℕ, a % C.N ≠ 0 ↔ (a : ZMod C.N) ≠ 0 := fun a => by
    rw [ne_eq, ne_eq, ZMod.natCast_eq_zero_iff, Nat.dvd_iff_mod_eq_zero]
  exact and_congr (hmod _) (hmod _)

/-- A list of the decommitments of the other signers, in any order. -/
theorem opens_of_perm (hi : i ∈ s.S) (hk : s.sumK ≠ 0) {ds : List (Phase5ADecom1 C)}
    (hvi : (ds.map (·.vi)).Perm ((s.others i).map fun j => s.share j • s.nonce + s.ell j • C.G))
    (hai : (ds.map (·.ai)).Perm ((s.others i).map fun j => s.rho j • C.G)) {blindFactor : ℕ} {msg : Phase5C C}
    (h : (s.localSignature i).Opens ds (s.blinded i).decom.vi blindFactor msg) : s.Opens i msg where
  uI := by
    have hsum := sum_vi_sub hk
    rw [← sum_others hi, ← hvi.sum_eq, ← blinded_vi] at hsum
    have huI := h.uI
    rw [show (s.localSignature i).Y = s.publicKey i from rfl, s.publicKey_eq (s.S_lt i hi),
      show ((s.localSignature i).M : ZMod C.N) = s.m from rfl,
      show (C.X (s.localSignature i).R : ZMod C.N) = s.r from rfl, hsum, smul_smul] at huI
    exact huI
  ti := by
    have hsum := sum_others hi fun j => s.rho j • C.G
    rw [← Finset.sum_smul, ← hai.sum_eq] at hsum
    rw [h.ti, mul_smul, sub_smul, sumRho, ← hsum, add_sub_cancel_left]
    rfl
  com := h.com

/-- Every scalar that the signers multiply with in a run has its multiples: those of the answers and proofs of
phase 2, the shares of the signature, the proofs of phase 5B, the digest and the abscissa of the nonce point. -/
structure ScalarsFit (s : Session C) : Prop where
  exchange : ∀ i ∈ s.S, s.ExchangeFits i
  share : ∀ i ∈ s.S, s.share i ≠ 0
  proof : ∀ i ∈ s.S, s.ProofFits i
  message : s.m ≠ 0
  r : s.r ≠ 0

/-- The state of signer `i` when the messages `p` of phase 5C have come in. -/
def opening (s : Session C) (i : ℕ) (sm : SignMessage C) (p : RangeMap ℕ (Phase5C C)) : DSMHandler C :=
  s.handler i { sm with phase5C := p }

theorem phase5CProof_returns (hi : i ∈ s.S) (hk : s.sumK ≠ 0) (hg : s.sumGamma ≠ 0) :
    ReturnsIff s.ScalarsFit (s.phase5CProof i) fun r =>
      ∃ sm msg, After5A s i sm ∧ s.Opens i msg ∧ r = (s.opening i sm (AList.insert i msg ∅), msg) := by
  have hsteps : ReturnsIff (((∀ j ∈ s.S, s.ExchangeFits j) ∧ (∀ j ∈ s.S, s.share j ≠ 0) ∧ ∀ j ∈ s.S, s.ProofFits j) ∧
      s.m ≠ 0 ∧ s.r ≠ 0) (s.phase5CProof i) fun r =>
      ∃ sm msg, After5A s i sm ∧ s.Opens i msg ∧ r = (s.opening i sm (AList.insert i msg ∅), msg) := by
    refine (phase5A5B_returns hi hk hg).bind fun dh hfits ⟨sm, hdh, h5⟩ => ?_
    rw [hdh]
    obtain ⟨own, hown, hblinds⟩ := h5.phase5A.values i hi
    have hfilter : s.S.filter (fun j => decide (j ≠ i)) = s.S.erase i := by
      rw [s.S_nodup.erase_eq_filter]
      exact List.filter_congr fun j _ => by simp [bne, BEq.beq]
    have hothers := (s.others_perm i).symm
    have hvi := h5.phase5A.range_filter_map_perm (s.loop .decommitments i) (fun j => decide (j ≠ i))
      (f := fun p => p.2.decom.vi) (g := fun j => s.share j • s.nonce + s.ell j • C.G)
      fun j v hv => by rw [show v = s.blinded j from hv, blinded_vi]
    have hai := h5.phase5A.range_filter_map_perm (s.loop .decommitments i) (fun j => decide (j ≠ i))
      (f := fun p => p.2.decom.ai) (g := fun j => s.rho j • C.G)
      fun j v hv => by rw [show v = s.blinded j from hv, blinded_ai]
    rw [hfilter] at hvi hai
    have hne : ((sm.phase5A.range (s.loop .decommitments i)).filter fun p => decide (p.1 ≠ i)).map (·.2.decom) ≠ [] :=
      fun h => others_ne_nil hi (by
        have hl := (hvi.trans (hothers.map _)).length_eq
        rw [List.length_map, List.length_map, List.map_eq_nil_iff.mp h, List.length_nil] at hl
        exact List.length_eq_zero_iff.mp hl.symm)
    have hlen : ¬ (s.handler i sm).signMessage.phase5A.len ≠ (s.handler i sm).signMessage.S.length := by
      rw [show (s.handler i sm).signMessage = sm from rfl, h5.signers]
      exact not_not.mpr (len_collects hi h5.phase5A)
    have hdls : deref (s.handler i sm).signMessage.localSignature = .ok (s.localSignature i) := by
      rw [show (s.handler i sm).signMessage.localSignature = sm.localSignature from rfl, h5.localSignature, deref_some]
    have hdown : deref ((s.handler i sm).signMessage.phase5A.lookup i) = .ok own := by
      rw [show (s.handler i sm).signMessage.phase5A = sm.phase5A from rfl, hown, deref_some]
    have hmsg := phase5c_returns (localSignature_fits.mpr (hfits.2.1 i hi)) hne own.decom.vi
      (s.coins i).phase5CBlindFactor
    rw [DSMHandler.generatePhase5CProof, if_neg hlen]
    refine .then_ok hdls (.then_ok hdown ((hmsg.bind fun msg _ hmsg => ?_).congr
      ((and_iff_left trivial).trans (localSignature_messageFits i))))
    have hopens : s.Opens i msg := by
      rw [show own = s.blinded i from hblinds] at hmsg
      exact opens_of_perm hi hk (by rw [List.map_map]; exact hvi.trans (hothers.map _))
        (by rw [List.map_map]; exact hai.trans (hothers.map _)) hmsg
    have hcheck : (s.opening i sm (AList.insert i msg ∅)).checkPhase5CDone = .ok _ :=
      if_neg (by
        rw [show (s.opening i sm (AList.insert i msg ∅)).signMessage.S = s.others i ++ [i] from h5.signers]
        exact len_insert_empty_ne hi msg)
    rw [show (s.handler i sm).signMessage.phase5C = ∅ from h5.phase5C]
    exact .of_ok (bind_ok hcheck _) ⟨sm, msg, h5, hopens, rfl⟩
  exact hsteps.congr ⟨fun ⟨⟨h1, h2, h3⟩, h4, h5⟩ => ⟨h1, h2, h3, h4, h5⟩,
    fun h => ⟨⟨h.exchange, h.share, h.proof⟩, h.message, h.r⟩⟩

/-- What the last phase uses of the record of signer `i` after phase 5C. -/
structure After5C (s : Session C) (i : ℕ) (sm : SignMessage C) : Prop extends
    toBlinded : After5A s i { sm with phase5C := ∅ } where
  opened : RangeMap.Collects sm.phase5C s.S s.Opens

/-- What one signer gets through, all signers get through. -/
theorem all_pass {p : Prop} (l : List ℕ) : p ∧ ((∀ j ∈ l, p) ∧ True) ∧ True ↔ p := by
  tauto

theorem phase5C_returns (hi : i ∈ s.S) (hk : s.sumK ≠ 0) (hg : s.sumGamma ≠ 0) :
    ReturnsIff s.ScalarsFit (s.phase5C i) fun dh => ∃ sm, dh = s.handler i sm ∧ After5C s i sm := by
  have hmsg : ∀ j ∈ s.S, ReturnsIff s.ScalarsFit (do return (← s.phase5CProof j).2) (s.Opens j) :=
    fun j hj => (phase5CProof_returns hj hk hg).map fun r _ hr => by
      obtain ⟨_, v, _, hv, hr⟩ := hr
      rw [hr]
      exact hv
  refine ((phase5CProof_returns hi hk hg).bind fun r _ ⟨sm, msg, h5, hmsg', hr⟩ => ?_).congr (all_pass (s.others i))
  rw [hr]
  have hS : (s.others i ++ [i]).length = sm.S.length := by rw [h5.signers]
  refine (deliver_receiveOnce (s := s) .phase5C hi (s.opening i sm) DSMHandler.receivePhase5cProof
    DSMHandler.checkPhase5CDone (fun dh => ∃ sm, dh = s.handler i sm [.phase5C] ∧ After5C s i sm)
    (fun m v j hj hv => (if_neg (not_not.mpr hv.com)).trans (DSMHandler.receiveOnce_new hj))
    (fun m hm => if_neg fun h => hm (h.trans hS.symm)) hmsg
    ((RangeMap.Collects.empty _).insert List.not_mem_nil hmsg')
    (fun p hp => .of_ok ((if_pos ((len_collects hi hp).trans hS)).trans (notifyDone_handler _ _))
      ⟨_, rfl, ⟨h5.signers, h5.R, h5.localSignature, h5.phase5A, rfl, h5.phase5D⟩, hp⟩)).bind
        fun dh _ ⟨sm', hdh, hsm⟩ => ?_
  rw [hdh]
  exact .of_ok (wait_signalled sm' .phase5C) ⟨sm', rfl, hsm⟩

end Phase5C

section Phase6

variable {s} {i : ℕ} (eth : Ethereum C)

/-- The openings cancel: what the `ti` and `bi` add, the `uI` take off. -/
theorem phase5d_ok {ls : LocalSignature C} {opened : List (Phase5DDecom2 C × Phase5ADecom1 C)}
    (hti : (opened.map fun o => o.1.ti + o.2.bi).Perm (s.S.map fun j => (s.ell j * s.sumRho) • C.G))
    (huI : (opened.map fun o => o.1.uI).Perm (s.S.map fun j => (s.rho j * s.sumEll) • C.G)) :
    phase5d (some ls) opened = .ok (some ls.sI) := by
  have hcancel : (opened.map fun o => o.1.ti + o.2.bi).sum = (opened.map fun o => o.1.uI).sum := by
    rw [sum_perm_signers hti, sum_perm_signers huI, ← Finset.sum_smul, ← Finset.sum_smul, ← Finset.sum_mul,
      ← Finset.sum_mul, ← sumEll, ← sumRho, mul_comm]
  rw [phase5d_eq, if_pos hcancel]

theorem pairOpenings_ok {p5A : RangeMap ℕ (Phase5A C)} (h5 : RangeMap.Collects p5A s.S s.Blinds)
    (l : List (ℕ × Phase5C C)) (hl : ∀ p ∈ l, p.1 ∈ s.S ∧ s.Opens p.1 p.2) :
    ∃ opened, pairOpenings p5A l = .ok opened ∧
      opened.map (fun o => o.1.ti + o.2.bi) = l.map (fun p => (s.ell p.1 * s.sumRho) • C.G) ∧
      opened.map (fun o => o.1.uI) = l.map (fun p => (s.rho p.1 * s.sumEll) • C.G) := by
  induction l with
  | nil => exact ⟨[], rfl, rfl, rfl⟩
  | cons p l ih =>
    obtain ⟨j, c⟩ := p
    obtain ⟨hj, hc⟩ := hl (j, c) (List.mem_cons_self ..)
    obtain ⟨a, ha, hblinds⟩ := h5.values j hj
    obtain ⟨opened, hopened, h1, h2⟩ := ih fun p hp => hl p (List.mem_cons_of_mem _ hp)
    have hderef : deref (p5A.lookup j) = .ok a := by rw [ha, deref_some]
    refine ⟨(c.decom, a.decom) :: opened, (bind_ok hderef _).trans (bind_ok hopened _), ?_, ?_⟩
    · rw [List.map_cons, List.map_cons, h1, hc.ti, show a = s.blinded j from hblinds, blinded_bi, ← add_smul]
      congr 2
      ring
    · rw [List.map_cons, List.map_cons, h2, hc.uI]

/-- A revealed share of the signature. -/
def IsShare (s : Session C) (i : ℕ) (si : SPrivKey) : Prop := (si : ZMod C.N) = s.share i

theorem phase6SI_returns (hi : i ∈ s.S) (hk : s.sumK ≠ 0) (hg : s.sumGamma ≠ 0) :
    ReturnsIff s.ScalarsFit (s.phase6SI eth i) fun r => ∃ sm, After5C s i sm ∧
      r = (s.handler i { sm with phase5D := AList.insert i (s.localSignature i).sI ∅ }, (s.localSignature i).sI) := by
  refine ((phase5C_returns hi hk hg).bind fun dh _ ⟨sm, hdh, h5⟩ => ?_).congr (and_iff_left trivial)
  rw [hdh]
  obtain ⟨opened, hopened, h1, h2⟩ := pairOpenings_ok h5.phase5A (sm.phase5C.range (s.loop .openings i))
    fun p hp => h5.opened.of_lookup (RangeMap.mem_range.mp hp)
  have hti := h5.opened.range_map_perm (s.loop .openings i) (f := fun p => (s.ell p.1 * s.sumRho) • C.G)
    (g := fun j => (s.ell j * s.sumRho) • C.G) fun j v _ => rfl
  have huI := h5.opened.range_map_perm (s.loop .openings i) (f := fun p => (s.rho p.1 * s.sumEll) • C.G)
    (g := fun j => (s.rho j * s.sumEll) • C.G) fun j v _ => rfl
  rw [← h1] at hti
  rw [← h2] at huI
  have h5d : phase5d (s.handler i sm).signMessage.localSignature opened = .ok (some (s.localSignature i).sI) := by
    rw [show (s.handler i sm).signMessage.localSignature = sm.localSignature from rfl, h5.localSignature]
    exact phase5d_ok hti huI
  have hcheck : (s.handler i { sm with phase5D := AList.insert i (s.localSignature i).sI ∅ }).checkPhase6Done eth
      (s.loop .shares i) = .ok _ := if_neg (by
    rw [show (s.handler i { sm with phase5D := AList.insert i (s.localSignature i).sI ∅ }).signMessage.S =
      s.others i ++ [i] from h5.signers]
    exact len_insert_empty_ne hi (s.localSignature i).sI)
  refine .then_ok hopened (.then_ok h5d ?_)
  simp only [show (s.handler i sm).signMessage.phase5D = ∅ from h5.phase5D]
  exact .of_ok (bind_ok hcheck _) ⟨sm, h5, rfl⟩

theorem phase6_ok (hi : i ∈ s.S) (hk : s.sumK ≠ 0) (hg : s.sumGamma ≠ 0) (hfits : s.ScalarsFit) :
    ∃ sm, sm.S = s.others i ++ [i] ∧ sm.R = some s.nonce ∧ sm.localSignature = some (s.localSignature i) ∧
      RangeMap.Collects sm.phase5D s.S (IsShare s) ∧
      s.phase6 eth i = (s.handler i sm).checkPhase6Done eth (s.loop .shares i) := by
  obtain ⟨_, hown, sm, h5, rfl⟩ := (phase6SI_returns eth hi hk hg).returns hfits
  have hall : ∀ j ∈ s.others i, ∃ v, (do return (← s.phase6SI eth j).2) = Except.ok (ε := String) v ∧ IsShare s j v :=
    fun j hj => by
      obtain ⟨_, h, _, _, rfl⟩ := (phase6SI_returns eth (mem_others.mp hj).2 hk hg).returns hfits
      exact ⟨_, bind_ok h _, cast_sI j⟩
  obtain ⟨p, hp, hdel⟩ := deliver_ok (s := s) .phase6 hi
    (fun m => s.handler i { sm with phase5D := m })
    (DSMHandler.recevieSI eth (s.loop .shares i)) (DSMHandler.checkPhase6Done eth (s.loop .shares i))
    (s.others i ++ [i]).length _ (fun m v j hj _ => DSMHandler.receiveOnce_new hj)
    (fun m hm => if_neg (fun h => hm.ne (h.trans (by rw [← h5.signers]; rfl)))) hall
    ((RangeMap.Collects.empty _).insert List.not_mem_nil (cast_sI i))
    (fun j hj h => notMem_others (List.mem_singleton.mp h ▸ hj)) (by rw [List.length_append, add_comm])
  exact ⟨{ sm with phase5D := p }, h5.signers, h5.R, h5.localSignature, hp.perm (others_append_perm hi),
    (bind_ok hown _).trans hdel⟩

/-- The sum that the final check of signer `i` verifies. -/
theorem cast_sumSI (hi : i ∈ s.S) {sm : SignMessage C} (h : RangeMap.Collects sm.phase5D s.S (IsShare s))
    (rg : Range ℕ) :
    ((s.handler i sm).sumSI rg (s.localSignature i) : ZMod C.N) = ∑ j ∈ s.S.toFinset, s.share j := by
  have hfilter : s.S.filter (fun j => decide (j ≠ i)) = s.S.erase i := by
    rw [s.S_nodup.erase_eq_filter]
    exact List.filter_congr fun j _ => by simp [bne, BEq.beq]
  have hp := h.range_filter_map_perm rg (fun j => decide (j ≠ i)) (f := fun p => ((p.2 : ℕ) : ZMod C.N))
    (g := s.share) fun j v hv => hv
  rw [hfilter] at hp
  have hsum := (hp.trans ((s.others_perm i).symm.map _)).sum_eq
  rw [DSMHandler.sumSI, cast_modSum, cast_sI, List.map_map, ← sum_others hi]
  exact congrArg (s.share i + ·) hsum

end Phase6

/-- What the protocol gives signer `i`: the point `R`, a phase 5 whose check passes so that the
own share is revealed, and a final check on shares whose sum signs the message. -/
structure Signs (eth : Ethereum C) (R : C.Point) (i : ℕ) : Prop where
  nonce : ∃ dh, s.phase4 i = .ok dh ∧ dh.signMessage.R = some R
  opening : ∃ dh ls, s.phase6SI eth i = .ok (dh, ls.sI) ∧ dh.signMessage.localSignature = some ls ∧ dh.quitChan = []
  signature : ∃ (dh : DSMHandler C) (ls : LocalSignature C),
    s.phase6 eth i = dh.checkPhase6Done eth (s.loop .shares i) ∧
    dh.signMessage.phase5D.len = s.S.length ∧ dh.signMessage.localSignature = some ls ∧
    dh.sumSI (s.loop .shares i) ls • R = s.message • C.G + C.X R • s.publicKey i

/-- Threshold signing from key generation to the sum of the shares: it succeeds at every signer exactly when
every scalar fits. -/
theorem signing_correct_iff (s : Session C) (eth : Ethereum C) (hk : s.sumK ≠ 0) (hg : s.sumGamma ≠ 0) :
    (∃ R, ∀ i ∈ s.S, s.Signs eth R i) ↔ s.ScalarsFit := by
  constructor
  · rintro ⟨R, hsigns⟩
    obtain ⟨i, hi⟩ := List.exists_mem_of_length_pos (Nat.lt_of_lt_of_le Nat.two_pos s.two_le)
    obtain ⟨dh, ls, hrun, _⟩ := (hsigns i hi).opening
    exact (phase6SI_returns eth hi hk hg).only _ hrun
  · intro hfits
    refine ⟨s.nonce, fun i hi => ⟨?_, ?_, ?_⟩⟩
    · obtain ⟨_, hrun, sm, rfl, h4⟩ := (phase4_returns hi hk hg).returns hfits.exchange
      exact ⟨_, hrun, h4.R⟩
    · obtain ⟨_, hrun, sm, h5, rfl⟩ := (phase6SI_returns eth hi hk hg).returns hfits
      exact ⟨_, _, hrun, h5.localSignature, rfl⟩
    · obtain ⟨sm, hS, _, hls, hp, hrun⟩ := phase6_ok eth hi hk hg hfits
      refine ⟨_, _, hrun, hp.len, hls, ?_⟩
      rw [← Curve.natCast_smul, cast_sumSI hi hp, sum_share_smul_nonce hk, s.publicKey_eq (s.S_lt i hi),
        ← Curve.natCast_smul, ← Curve.natCast_smul, m, r, add_smul, smul_smul]

end Session

section Example

def curve5Coins (kI gammaI : RandomPrivateKey curve5.N) : Coins curve5 :=
  let mta : MtACoins curve5 :=
    { betaTag := curve5Key 5, nonce := 1, proofNonce := curve5Key 1, betaTagProofNonce := curve5Key 6 }
  { kI := kI, gammaI := gammaI, blindFactor := 5, encryptNonce := 1
    mtaGamma := fun _ => mta, mtaWi := fun _ => mta
    phase5A := { lI := curve5Key 3, rhoI := curve5Key 2, blindFactor := 9, s1 := curve5Key 4, s2 := curve5Key 5 }
    phase5CBlindFactor := 8 }

/-- Three notaries with threshold one, of which the first two sign. -/
def session5 : Session curve5 where
  n := 3
  t := 1
  n_lt := by decide
  poly := fun j => [j+1, 2]
  poly_length := fun _ => rfl
  paillier := fun _ => { p := 11, q := 13, p_prime := by decide, q_prime := by decide, ne := by decide }
  modulus := fun _ => by decide
  pubKeysRange := fun _ => Range.id ℕ
  sharesRange := fun _ => Range.id ℕ
  S := [0, 1]
  S_nodup := by decide
  S_lt := by decide
  S_length := by decide
  two_le := by decide
  message := 78
  others := fun i => [0, 1].erase i
  others_perm := fun _ => List.Perm.refl _
  coins := fun i => if i = 0 then curve5Coins (curve5Key 2) (curve5Key 3) else curve5Coins (curve5Key 4) (curve5Key 5)
  encryptNonce_coprime := fun i => by split <;> exact Nat.coprime_one_left _
  mtaGamma_coprime := fun j i => by split <;> exact Nat.coprime_one_left _
  mtaWi_coprime := fun j i => by split <;> exact Nat.coprime_one_left _
  arrival := fun _ _ => Range.id ℕ
  loop := fun _ _ => Range.id ℕ

/-- Recovery searches the nonce point by its abscissa and the parity of its ordinate. -/
def ethereum5 : Ethereum curve5 where
  Address := ZMod 7
  pubkeyToAddress := fun P => P
  ecrecover := fun h r s v =>
    ((List.finRange 7).find? fun P : ZMod 7 => curve5.X P = r && curve5.Y P % 2 = v).map
      fun P : ZMod 7 => (r : ZMod 7)⁻¹ * ((s : ZMod 7) * P - (h : ZMod 7))

theorem session5_scalarsFit : session5.ScalarsFit where
  exchange := by decide +kernel
  share := by decide +kernel
  proof := by decide +kernel
  message := by decide +kernel
  r := by decide +kernel

theorem signing_correct_iff_session5 : (session5.sumK ≠ 0 ∧ session5.sumGamma ≠ 0 ∧ session5.ScalarsFit) ∧
    ∃ R, ∀ i ∈ session5.S, session5.Signs ethereum5 R i := by
  have hk : session5.sumK ≠ 0 := by decide +kernel
  have hg : session5.sumGamma ≠ 0 := by decide +kernel
  exact ⟨⟨hk, hg, session5_scalarsFit⟩,
    (Session.signing_correct_iff session5 ethereum5 hk hg).mpr session5_scalarsFit⟩

/-- The same signers and a digest that is the order of the curve. -/
def session5Order : Session curve5 := { session5 with message := 7 }

theorem session5Order_fails : session5Order.sumK ≠ 0 ∧ session5Order.sumGamma ≠ 0 ∧
    ¬ ∃ R, ∀ i ∈ session5Order.S, session5Order.Signs ethereum5 R i := by
  have hk : session5Order.sumK ≠ 0 := by decide +kernel
  have hg : session5Order.sumGamma ≠ 0 := by decide +kernel
  refine ⟨hk, hg, ?_⟩
  rintro ⟨R, hsigns⟩
  obtain ⟨dh, ls, hrun, _⟩ := (hsigns 0 (List.mem_cons_self ..)).opening
  exact ((Session.phase6SI_returns ethereum5 (List.mem_cons_self ..) hk hg).only _ hrun).message (by decide +kernel)

end Example

end DistributedNotary.Mecdsa
