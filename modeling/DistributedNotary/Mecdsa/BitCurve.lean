import DistributedNotary.Library.Checks
import DistributedNotary.Mecdsa.Dealing
import DistributedNotary.Mecdsa.Signing

/-! The steps of a signing session that multiply points, with the multiplication
of the library. It gives nil coordinates for a scalar that is zero or not below
the order, and their first use is a panic. Every step is computed as in the
group, and returns exactly when each of its scalars fits. -/
namespace DistributedNotary.Mecdsa

open Library Share Feldman Proofs

variable {C : Curve}

namespace BitCurve

/-- The multiple of a point whose coordinates are used. -/
def scalarMult (P : C.Point) (k : ℕ) : Except String C.Point := deref (bitCurveMult P k)

theorem scalarMult_returns (P : C.Point) (k : ℕ) :
    ReturnsIff (0 < k ∧ k < C.N) (scalarMult P k) (· = Share.scalarMult P k) := by
  unfold scalarMult bitCurveMult
  by_cases hk : k = 0 ∨ C.N ≤ k
  · rw [if_pos hk]
    constructor
    · intro hfits
      omega
    · intro Q hQ
      exact absurd hQ (by simp [deref])
  · have hfits : 0 < k ∧ k < C.N := by omega
    rw [if_neg hk]
    have hok : ReturnsIff True (deref (some (Share.scalarMult P k))) (· = Share.scalarMult P k) :=
      .of_ok (deref_some _) rfl
    exact hok.congr (iff_of_true trivial hfits)

/-- A scalar that was drawn at random fits. -/
theorem scalarMult_random (P : C.Point) (k : RandomPrivateKey C.N) :
    scalarMult P k = .ok (Share.scalarMult P k) := (scalarMult_returns P k).eq_ok k.2

theorem scalarMult_returns_of_lt (P : C.Point) {k : ℕ} (hk : k < C.N) :
    ReturnsIff (k ≠ 0) (scalarMult P k) (· = Share.scalarMult P k) :=
  (scalarMult_returns P k).congr (by omega)

section Proofs

def prove (sk skTRandCommitment : SPrivKey) : Except String (DLogProof C) := do
  let randCommitment ← scalarMult C.G skTRandCommitment
  let pk ← scalarMult C.G sk
  let challengeSK := modMul C.N (dlogChallenge randCommitment pk) sk
  return { PK := pk, pkTRandCommitment := randCommitment
           challengeResponse := modSub C.N skTRandCommitment challengeSK }

theorem prove_returns (sk : SPrivKey) (r : RandomPrivateKey C.N) :
    ReturnsIff (0 < sk ∧ sk < C.N) (prove sk r) (· = (Proofs.prove sk r : DLogProof C)) := by
  refine .then_ok (scalarMult_random C.G r) ((scalarMult_returns C.G sk).map fun P _ hP => ?_)
  rw [hP]
  rfl

/-- The scalars that the verification of a proof multiplies with fit. -/
def Fits (proof : DLogProof C) : Prop :=
  proof.challenge ≠ 0 ∧ 0 < proof.challengeResponse ∧ proof.challengeResponse < C.N

instance (proof : DLogProof C) : Decidable (Fits proof) := inferInstanceAs (Decidable (_ ∧ _))

theorem verify_returns (proof : DLogProof C) :
    ReturnsIff (Fits proof) (verifyDLog proof) (· = Proofs.verify proof) := by
  have hch : proof.challenge < C.N := bigInt2PrivateKey_lt _
  refine (scalarMult_returns_of_lt proof.PK hch).bind fun P _ hP => ?_
  refine (scalarMult_returns C.G proof.challengeResponse).map fun Q _ hQ => ?_
  rw [hP, hQ]
  rfl

def createHomoELGamalProof (w : HomoElGamalWitness) (delta : HomoElGamalStatement C) (s1 s2 : SPrivKey) :
    Except String (HomoELGamalProof C) := do
  let A1 ← scalarMult delta.H s1
  let A2 ← scalarMult delta.Y s2
  let A3 ← scalarMult delta.G s2
  let T := pointAdd A1 A2
  let e := elGamalChallenge T A3 delta
  let z1 := if w.x ≠ 0 then modAdd C.N s1 (modMul C.N e w.x) else s1
  let z2 := modAdd C.N s2 (modMul C.N e w.r)
  return { T := T, A3 := A3, Z1 := z1, Z2 := z2 }

theorem createHomoELGamalProof_ok (w : HomoElGamalWitness) (delta : HomoElGamalStatement C)
    (s1 s2 : RandomPrivateKey C.N) :
    createHomoELGamalProof w delta s1 s2 = .ok (Proofs.createHomoELGamalProof w delta s1 s2) :=
  (bind_ok (scalarMult_random delta.H s1) _).trans ((bind_ok (scalarMult_random delta.Y s2) _).trans
    (bind_ok (scalarMult_random delta.G s2) _))

/-- `Verify` of a proof about an encryption in the exponent. -/
def verifyHomoELGamalProof (proof : HomoELGamalProof C) (delta : HomoElGamalStatement C) : Except String Bool := do
  let e := elGamalChallenge proof.T proof.A3 delta
  let z1H ← scalarMult delta.H proof.Z1
  let z2Y ← scalarMult delta.Y proof.Z2
  let eD ← scalarMult delta.D e
  let z2g ← scalarMult delta.G proof.Z2
  let eE ← scalarMult delta.E e
  return C.eqGE (pointAdd z1H z2Y) (pointAdd eD proof.T) && C.eqGE z2g (pointAdd eE proof.A3)

/-- The scalars that the verification multiplies with fit. -/
def HomoFits (proof : HomoELGamalProof C) (delta : HomoElGamalStatement C) : Prop :=
  elGamalChallenge proof.T proof.A3 delta ≠ 0 ∧ (0 < proof.Z1 ∧ proof.Z1 < C.N) ∧ (0 < proof.Z2 ∧ proof.Z2 < C.N)

instance (proof : HomoELGamalProof C) (delta : HomoElGamalStatement C) : Decidable (HomoFits proof delta) :=
  inferInstanceAs (Decidable (_ ∧ _))

theorem verifyHomoELGamalProof_returns (proof : HomoELGamalProof C) (delta : HomoElGamalStatement C) :
    ReturnsIff (HomoFits proof delta) (verifyHomoELGamalProof proof delta) (· = proof.verify delta) := by
  have he : elGamalChallenge proof.T proof.A3 delta < C.N := bigInt2PrivateKey_lt _
  have hsteps : ReturnsIff _ (verifyHomoELGamalProof proof delta) (· = proof.verify delta) :=
    (scalarMult_returns delta.H proof.Z1).bind fun P _ hP =>
    (scalarMult_returns delta.Y proof.Z2).bind fun Q _ hQ =>
    (scalarMult_returns_of_lt delta.D he).bind fun R _ hR =>
    (scalarMult_returns delta.G proof.Z2).bind fun U _ hU =>
    (scalarMult_returns_of_lt delta.E he).map fun V _ hV => by
      rw [hP, hQ, hR, hU, hV]
      rfl
  refine hsteps.congr ?_
  unfold HomoFits
  tauto

end Proofs

section Phase2

def newMessageB (gammaI : SPrivKey) (paillierPubKey : Paillier.PublicKey) (ca : MessageA) (coins : MtACoins C) :
    Except String (MessageB C) := do
  let betaTagPrivateKey : SPrivKey := coins.betaTag
  let cBetaTag ← Paillier.encryptWithNonce paillierPubKey coins.nonce betaTagPrivateKey
  let bca := Paillier.mul paillierPubKey ca.c gammaI
  let cb := Paillier.addCipher paillierPubKey bca cBetaTag
  let beta := modSub C.N privKeyZero betaTagPrivateKey
  let bProof ← prove gammaI coins.proofNonce
  let betaTagProof ← prove betaTagPrivateKey coins.betaTagProofNonce
  return { c := cb, bProof := bProof, betaTagProof := betaTagProof, beta := beta }

/-- The owner of the scalar zero has no proof for it. -/
theorem newMessageB_returns {gammaI : SPrivKey} {pk : Paillier.PublicKey} {ca : MessageA} {coins : MtACoins C}
    {m : MessageB C} (h : Mecdsa.newMessageB gammaI pk ca coins = .ok m) :
    ReturnsIff (0 < gammaI ∧ gammaI < C.N) (newMessageB gammaI pk ca coins) (· = m) := by
  obtain ⟨c, hc, hm⟩ := bind_eq_ok.mp h
  obtain rfl := pure_eq_ok.mp hm
  have hsteps : ReturnsIff _ (newMessageB gammaI pk ca coins) (· = _) :=
    .then_ok hc ((prove_returns gammaI coins.proofNonce).bind fun P _ hP =>
      (prove_returns coins.betaTag coins.betaTagProofNonce).map fun Q _ hQ => by rw [hP, hQ])
  exact hsteps.congr (and_iff_left coins.betaTag.2)

def receivePhase2MessageA (dh : DSMHandler C) (msg : MessageA) (index : ℕ) (coinsGamma coinsWi : MtACoins C) :
    Except String (MessageBPhase2 C) := do
  let k ← deref dh.signMessage.signedKey
  let pk ← deref (dh.paillierPubKeys.lookup index)
  let mgGamma ← newMessageB k.gammaI pk msg coinsGamma
  let mbw ← newMessageB k.wi pk msg coinsWi
  return { messageBGamma := mgGamma, messageBWi := some mbw }

/-- The inner error is the one that is returned. -/
def verifyProofsGetAlpha (m : MessageB C) (dk : Paillier.PrivateKey) (a : SPrivKey) :
    Except String (Except String SPrivKey) := do
  match Paillier.decrypt dk m.c with
  | .error err => return .error err
  | .ok ashare =>
    let alphaKey := bigInt2PrivateKey C.N ashare
    let gAlpha := bitCurveMult C.G alphaKey
    let aPK ← scalarMult m.bProof.PK a
    let babTag := pointAdd aPK m.betaTagProof.PK
    -- the comparison is reached when both proofs are accepted
    if ← verifyDLog m.bProof then
      if ← verifyDLog m.betaTagProof then
        if C.eqGE babTag (← deref gAlpha) then return .ok alphaKey
    return .error "invalid key"

/-- A message whose proofs are accepted: what is left to fail are the scalars of the proofs and the share. -/
theorem verifyProofsGetAlpha_returns {m : MessageB C} {dk : Paillier.PrivateKey} {ashare : ℕ}
    (hdec : Paillier.decrypt dk m.c = .ok ashare) (hb : Proofs.verify m.bProof = true)
    (ht : Proofs.verify m.betaTagProof = true) (a : RandomPrivateKey C.N) :
    ReturnsIff (Fits m.bProof ∧ Fits m.betaTagProof ∧ bigInt2PrivateKey C.N ashare ≠ 0)
      (verifyProofsGetAlpha m dk a) (· = Mecdsa.verifyProofsGetAlpha m dk a) := by
  have halpha := scalarMult_returns_of_lt C.G (bigInt2PrivateKey_lt (N := C.N) ashare)
  unfold verifyProofsGetAlpha Mecdsa.verifyProofsGetAlpha
  rw [hdec, hb, ht]
  refine .then_ok (scalarMult_random m.bProof.PK a) ((verify_returns m.bProof).bind fun b _ hb' => ?_)
  rw [hb', hb, if_pos rfl]
  refine (verify_returns m.betaTagProof).bind fun b _ ht' => ?_
  rw [ht', ht, if_pos rfl]
  refine (halpha.bind fun P _ hP => ?_).congr (and_iff_left trivial)
  rw [hP]
  by_cases heq : C.eqGE (pointAdd (Share.scalarMult m.bProof.PK a) m.betaTagProof.PK)
      (Share.scalarMult C.G (bigInt2PrivateKey C.N ashare)) = true
  · rw [if_pos heq]
    exact .of_ok rfl (if_pos heq).symm
  · rw [if_neg heq]
    exact .of_ok rfl (if_neg heq).symm

/-- The loop of `checkPhase2Done` over the messages left. -/
def collectAlpha (dh : DSMHandler C) : List (ℕ × MessageBPhase2 C) → Except String (DSMHandler C)
  | [] => dh.notifyDone .phase2
  | (index, msg) :: rest => do
    let k ← deref dh.signMessage.signedKey
    match ← verifyProofsGetAlpha msg.messageBGamma dh.paillierPrivateKey k.ki with
    | .error err => return dh.notifyError err
    | .ok alphaijGamma =>
      let mbw ← deref msg.messageBWi
      match ← verifyProofsGetAlpha mbw dh.paillierPrivateKey k.ki with
      | .error err => return dh.notifyError err
      | .ok alphaijWi =>
        collectAlpha (dh.setAlpha (dh.signMessage.alphaGamma.insert index alphaijGamma)
          (dh.signMessage.alphaWI.insert index alphaijWi)) rest

/-- A message with two halves that the receiver accepts when their scalars fit. -/
structure Accepted (dk : Paillier.PrivateKey) (k : SPrivKey) (msg : MessageBPhase2 C) (gamma wi : Prop) : Prop where
  gamma : ∃ a, Mecdsa.verifyProofsGetAlpha msg.messageBGamma dk k = .ok a ∧
    ReturnsIff gamma (verifyProofsGetAlpha msg.messageBGamma dk k) (· = .ok a)
  wi : ∃ mbw a, msg.messageBWi = some mbw ∧ Mecdsa.verifyProofsGetAlpha mbw dk k = .ok a ∧
    ReturnsIff wi (verifyProofsGetAlpha mbw dk k) (· = .ok a)

theorem collectAlpha_returns (dh : DSMHandler C) (gamma wi : ℕ → Prop) {dh' : DSMHandler C} {key : SignedKey C}
    {rest : List (ℕ × MessageBPhase2 C)} (hkey : dh.signMessage.signedKey = some key)
    (hrest : ∀ p ∈ rest, Accepted dh.paillierPrivateKey key.ki p.2 (gamma p.1) (wi p.1))
    (h : dh.collectAlpha rest = .ok dh') :
    ReturnsIff (∀ p ∈ rest, gamma p.1 ∧ wi p.1) (collectAlpha dh rest) (· = dh') := by
  induction rest generalizing dh with
  | nil =>
    have hnil : ReturnsIff True (collectAlpha dh []) (· = dh') := .of_ok h rfl
    exact hnil.congr (iff_of_true trivial fun p hp => absurd hp List.not_mem_nil)
  | cons p rest ih =>
    obtain ⟨index, msg⟩ := p
    obtain ⟨⟨a, ha, hgamma⟩, mbw, b, hmbw, hb, hwi⟩ := hrest (index, msg) (List.mem_cons_self ..)
    have hderef : deref dh.signMessage.signedKey = .ok key := by rw [hkey, deref_some]
    have hsteps : ReturnsIff (gamma index ∧ wi index ∧ ∀ p ∈ rest, gamma p.1 ∧ wi p.1)
        (collectAlpha dh ((index, msg) :: rest)) (· = dh') := by
      rw [collectAlpha]
      refine .then_ok hderef (hgamma.bind fun r _ hr => ?_)
      rw [hr]
      refine .then_ok (by rw [hmbw, deref_some]) (hwi.bind fun r' _ hr' => ?_)
      rw [hr']
      refine ih (dh.setAlpha (dh.signMessage.alphaGamma.insert index a) (dh.signMessage.alphaWI.insert index b))
        hkey (fun p hp => hrest p (List.mem_cons_of_mem _ hp)) ?_
      rw [DSMHandler.collectAlpha, bind_ok hderef, ha, hmbw] at h
      simp only [deref_some] at h
      rw [bind_ok rfl, hb] at h
      exact h
    refine hsteps.congr ?_
    rw [List.forall_mem_cons]
    tauto

def checkPhase2Done (rg : Range ℕ) (dh : DSMHandler C) : Except String (DSMHandler C) :=
  if dh.signMessage.phase2MessageB.len = dh.signMessage.S.length - 1 then
    collectAlpha dh (dh.signMessage.phase2MessageB.range rg)
  else .ok dh

def receivePhase2MessageB (rg : Range ℕ) (dh : DSMHandler C) (msg : MessageBPhase2 C) (index : ℕ) :
    Except String (DSMHandler C) :=
  checkPhase2Done rg (dh.setPhase2MessageB (dh.signMessage.phase2MessageB.insert index msg))

end Phase2

section Phase4

/-- `phase4`; the point may lack its coordinates, which nothing uses here. -/
def phase4 (rg rg' : Range ℕ) (delta : SPrivKey) (gammaIProof : RangeMap ℕ (MessageBPhase2 C))
    (phase1Broadcast : RangeMap ℕ SignBroadcastPhase1) : Except String (Option (Option C.Point)) := do
  if gammaIProof.len ≠ phase1Broadcast.len then throw "length must equal"
  if ← checkCommitments phase1Broadcast (gammaIProof.range rg) then
    let sum := sumPoints ((gammaIProof.range rg').map fun p => p.2.messageBGamma.bProof.PK)
    return some (bitCurveMult sum delta)
  else return none

def generatePhase4R (rg rg' rg'' : Range ℕ) (dh : DSMHandler C) (coins : MtACoins C) :
    Except String (DSMHandler C) := do
  let k ← deref dh.signMessage.signedKey
  let delta := phase3ReconstructDelta rg dh.signMessage.delta C.N
  let ma ← deref dh.signMessage.messageA
  let mgGamma ← newMessageB k.gammaI dh.paillierPrivateKey.toPublicKey ma coins
  let dh := dh.setPhase2MessageB (dh.signMessage.phase2MessageB.insert dh.selfNotaryID
    { messageBGamma := mgGamma, messageBWi := none })
  match ← phase4 rg' rg'' delta dh.signMessage.phase2MessageB dh.signMessage.phase1BroadCast with
  | none => return dh
  | some R => return { dh with signMessage := { dh.signMessage with R := R } }

theorem phase4_eq (rg rg' : Range ℕ) {delta : SPrivKey} (hdelta : 0 < delta ∧ delta < C.N)
    (gammaIProof : RangeMap ℕ (MessageBPhase2 C)) (phase1Broadcast : RangeMap ℕ SignBroadcastPhase1) :
    phase4 rg rg' delta gammaIProof phase1Broadcast =
      (Mecdsa.phase4 rg rg' delta gammaIProof phase1Broadcast).map (·.map some) := by
  have hmult : ∀ P : C.Point, bitCurveMult P delta = some (Share.scalarMult P delta) := by
    intro P
    rw [bitCurveMult, if_neg (not_or.mpr ⟨hdelta.1.ne', not_le.mpr hdelta.2⟩)]
  unfold phase4 Mecdsa.phase4
  by_cases hlen : gammaIProof.len ≠ phase1Broadcast.len
  · rw [if_pos hlen, if_pos hlen]
    rfl
  · rw [if_neg hlen, if_neg hlen]
    simp only [hmult]
    cases checkCommitments phase1Broadcast (gammaIProof.range rg) with
    | error e => rfl
    | ok b => cases b <;> rfl

/-- The own `gamma` and the inverse that is multiplied with fit, so the phase is that of the group. -/
theorem generatePhase4R_eq (rg rg' rg'' : Range ℕ) (dh : DSMHandler C) {key : SignedKey C} {ma : MessageA}
    (coins : MtACoins C) {m : MessageB C} (hkey : dh.signMessage.signedKey = some key)
    (hma : dh.signMessage.messageA = some ma) (hgamma : 0 < key.gammaI ∧ key.gammaI < C.N)
    (hm : Mecdsa.newMessageB key.gammaI dh.paillierPrivateKey.toPublicKey ma coins = .ok m)
    (hdelta : 0 < phase3ReconstructDelta rg dh.signMessage.delta C.N ∧
      phase3ReconstructDelta rg dh.signMessage.delta C.N < C.N) :
    generatePhase4R rg rg' rg'' dh coins = dh.generatePhase4R rg rg' rg'' coins := by
  have hm' := (newMessageB_returns hm).eq_ok hgamma
  unfold generatePhase4R DSMHandler.generatePhase4R
  rw [hkey, hma]
  simp only [deref_some]
  rw [bind_ok rfl, bind_ok rfl, bind_ok hm', bind_ok rfl, bind_ok rfl, bind_ok hm, phase4_eq rg' rg'' hdelta]
  generalize dh.setPhase2MessageB _ = dh'
  cases Mecdsa.phase4 rg' rg'' (phase3ReconstructDelta rg dh.signMessage.delta C.N) dh'.signMessage.phase2MessageB
      dh'.signMessage.phase1BroadCast with
  | error e => rfl
  | ok R => cases R <;> rfl

end Phase4

end BitCurve

end DistributedNotary.Mecdsa
