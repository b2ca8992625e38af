import DistributedNotary.Mecdsa.BitCurve

/-! The last phases of a signing session: the local signature, the commitments
of phases 5A to 5D that let the signers test the sum of their shares before they
reveal them, and the final check of the signature. -/
namespace DistributedNotary.Mecdsa

open Library Share Feldman Proofs

variable {C : Curve}

section Phase5A

/-- `phase5LocalSignature` with the two blinding keys it draws. -/
def phase5LocalSignature (ki : SPrivKey) (message : ℕ) (R : C.Point) (sigmaI : SPrivKey) (pubkey : C.Point)
    (lI rhoI : SPrivKey) : LocalSignature C :=
  let m := bigInt2PrivateKey C.N message
  let r := bigInt2PrivateKey C.N (C.X R)
  let si := modAdd C.N (modMul C.N m ki) (modMul C.N r sigmaI)
  { lI := lI, rhoI := rhoI, R := R, sI := si, M := message, Y := pubkey }

/-- The statement that the proof of phase 5B is checked against. -/
def phase5BStatement (R : C.Point) (decom : Phase5ADecom1 C) : HomoElGamalStatement C :=
  { G := decom.ai, H := R, Y := C.G, D := decom.vi, E := decom.bi }

/-- The message of phase 5A in the group. -/
def LocalSignature.blinded (ls : LocalSignature C) (blindFactor s1 s2 : ℕ) : Phase5A C :=
  let ai := scalarBaseMult C ls.rhoI
  let bi := scalarBaseMult C (modMul C.N ls.lI ls.rhoI)
  let vi := pointAdd (scalarBaseMult C ls.lI) (scalarMult ls.R ls.sI)
  let decom : Phase5ADecom1 C := { vi := vi, ai := ai, bi := bi, blindFactor := blindFactor }
  let com := createCommitmentWithUserDefinedRandomNess (createHashFromGE [vi, ai, bi]) blindFactor
  { com := com, decom := decom
    proof := createHomoELGamalProof { r := ls.lI, x := ls.sI } (phase5BStatement ls.R decom) s1 s2 }

def phase5aBroadcast5bZkproof (ls : LocalSignature C) (blindFactor s1 s2 : ℕ) : Except String (Phase5A C) := do
  let ai ← BitCurve.scalarMult C.G ls.rhoI
  let bi ← BitCurve.scalarMult C.G (modMul C.N ls.lI ls.rhoI)
  let ti ← BitCurve.scalarMult ls.R ls.sI
  let vi ← BitCurve.scalarMult C.G ls.lI
  let vi := pointAdd vi ti
  let decom : Phase5ADecom1 C := { vi := vi, ai := ai, bi := bi, blindFactor := blindFactor }
  let com := createCommitmentWithUserDefinedRandomNess (createHashFromGE [vi, ai, bi]) blindFactor
  let proof ← BitCurve.createHomoELGamalProof { r := ls.lI, x := ls.sI } (phase5BStatement ls.R decom) s1 s2
  return { com := com, decom := decom, proof := proof }

/-- The share and what blinds it fit. -/
def LocalSignature.Fits (ls : LocalSignature C) : Prop :=
  (0 < ls.sI ∧ ls.sI < C.N) ∧ (0 < ls.lI ∧ ls.lI < C.N) ∧ 0 < ls.rhoI ∧ ls.rhoI < C.N

instance (ls : LocalSignature C) : Decidable ls.Fits := inferInstanceAs (Decidable (_ ∧ _))

theorem phase5aBroadcast5bZkproof_returns (ls : LocalSignature C) (blindFactor : ℕ) (s1 s2 : RandomPrivateKey C.N) :
    ReturnsIff ls.Fits (phase5aBroadcast5bZkproof ls blindFactor s1 s2) (· = ls.blinded blindFactor s1 s2) := by
  have hsteps : ReturnsIff _ (phase5aBroadcast5bZkproof ls blindFactor s1 s2) (· = ls.blinded blindFactor s1 s2) :=
    (BitCurve.scalarMult_returns C.G ls.rhoI).bind fun ai _ hai =>
    (BitCurve.scalarMult_returns_of_lt C.G (modMul_lt ls.lI ls.rhoI)).bind fun bi _ hbi =>
    (BitCurve.scalarMult_returns ls.R ls.sI).bind fun ti _ hti =>
    (BitCurve.scalarMult_returns C.G ls.lI).bind fun vi _ hvi => by
      rw [hai, hbi, hti, hvi]
      exact .of_ok (bind_ok (BitCurve.createHomoELGamalProof_ok _ _ s1 s2) _) rfl
  refine hsteps.congr ?_
  unfold LocalSignature.Fits
  constructor
  · tauto
  · rintro ⟨hs, hl, hrho⟩
    exact ⟨hrho, modMul_ne_zero hl hrho, hs, hl, trivial⟩

/-- The loop of `checkPhase5A5BDone` over the messages left. -/
def verifyPhase5A (R : Option C.Point) : List (ℕ × Phase5A C) → Except String Bool
  | [] => .ok true
  | (_, msg) :: rest => do
    let R' ← deref R
    let inputhash : SPrivKey := createHashFromGE [msg.decom.vi, msg.decom.ai, msg.decom.bi]
    let e := createCommitmentWithUserDefinedRandomNess inputhash msg.decom.blindFactor
    if e = msg.com then
      if ← BitCurve.verifyHomoELGamalProof msg.proof (phase5BStatement R' msg.decom) then verifyPhase5A R rest
      else return false
    else return false

def DSMHandler.checkPhase5A5BDone (rg : Range ℕ) (dh : DSMHandler C) : Except String (DSMHandler C) := do
  if dh.signMessage.phase5A.len = dh.signMessage.S.length then
    if ← verifyPhase5A dh.signMessage.R (dh.signMessage.phase5A.range rg) then dh.notifyDone .phase5A5B
    else return dh.notifyError "invalid com"
  else return dh

def DSMHandler.setPhase5A (dh : DSMHandler C) (m : RangeMap ℕ (Phase5A C)) : DSMHandler C :=
  { dh with signMessage := { dh.signMessage with phase5A := m } }

def DSMHandler.setLocalSignature (dh : DSMHandler C) (ls : LocalSignature C) : DSMHandler C :=
  { dh with signMessage := { dh.signMessage with localSignature := some ls } }

/-- What `generatePhase5a5bZkProof` draws. -/
structure Phase5ACoins (C : Curve) where
  lI : RandomPrivateKey C.N
  rhoI : RandomPrivateKey C.N
  blindFactor : ℕ
  s1 : RandomPrivateKey C.N
  s2 : RandomPrivateKey C.N

def DSMHandler.generatePhase5a5bZkProof (rg : Range ℕ) (dh : DSMHandler C) (coins : Phase5ACoins C) :
    Except String (DSMHandler C × Phase5A C) := do
  let k ← deref dh.signMessage.signedKey
  let R ← deref dh.signMessage.R
  let localSignature := phase5LocalSignature k.ki dh.signMessage.message R dh.signMessage.sigma dh.publicKey
    coins.lI coins.rhoI
  let msg ← phase5aBroadcast5bZkproof localSignature coins.blindFactor coins.s1 coins.s2
  let dh := dh.setPhase5A (dh.signMessage.phase5A.insert dh.selfNotaryID msg)
  let dh ← (dh.setLocalSignature localSignature).checkPhase5A5BDone rg
  return (dh, msg)

def DSMHandler.receivePhase5A5BProof (rg : Range ℕ) (dh : DSMHandler C) (msg : Phase5A C) (index : ℕ) :
    Except String (DSMHandler C) :=
  receiveOnce (·.signMessage.phase5A) setPhase5A (checkPhase5A5BDone rg)
    s!"ReceivePhase5A5BProof already exist for {index}" dh msg index

end Phase5A

section Phase5C

/-- `phase5c`; the commitments of the other signers must not be empty. -/
def phase5c (ls : LocalSignature C) (deCommitments : List (Phase5ADecom1 C)) (vi : C.Point) (blindFactor : ℕ) :
    Except String (Phase5C C) :=
  match deCommitments with
  | [] => .error "index out of range"
  | d :: ds => do
    let v := pointSum vi ((d :: ds).map (·.vi))
    let a := pointSum d.ai (ds.map (·.ai))
    let r := bigInt2PrivateKey C.N (C.X ls.R)
    let yr ← BitCurve.scalarMult ls.Y r
    let m := bigInt2PrivateKey C.N ls.M
    let gm ← BitCurve.scalarMult C.G m
    let v := pointSub (pointSub v gm) yr
    let uI ← BitCurve.scalarMult v ls.rhoI
    let ti ← BitCurve.scalarMult a ls.lI
    return {
      com := createCommitmentWithUserDefinedRandomNess (createHashFromGE [uI, ti]) blindFactor
      decom := { uI := uI, ti := ti, blindFactor := blindFactor } }

/-- The digest and the abscissa of the nonce point fit. -/
def LocalSignature.MessageFits (ls : LocalSignature C) : Prop := ls.M % C.N ≠ 0 ∧ C.X ls.R % C.N ≠ 0

instance (ls : LocalSignature C) : Decidable ls.MessageFits := inferInstanceAs (Decidable (_ ∧ _))

/-- The points of phase 5C in the group. -/
structure LocalSignature.Opens (ls : LocalSignature C) (deCommitments : List (Phase5ADecom1 C)) (vi : C.Point)
    (blindFactor : ℕ) (msg : Phase5C C) : Prop where
  uI : msg.decom.uI = (ls.rhoI : ZMod C.N) •
    (vi + (deCommitments.map (·.vi)).sum - (ls.M : ZMod C.N) • C.G - (C.X ls.R : ZMod C.N) • ls.Y)
  ti : msg.decom.ti = (ls.lI : ZMod C.N) • (deCommitments.map (·.ai)).sum
  blindFactor : msg.decom.blindFactor = blindFactor
  com : createCommitmentWithUserDefinedRandomNess
    (createHashFromGE [msg.decom.uI, msg.decom.ti] : SPrivKey) msg.decom.blindFactor = msg.com

theorem phase5c_returns {ls : LocalSignature C} (hls : ls.Fits) {deCommitments : List (Phase5ADecom1 C)}
    (hne : deCommitments ≠ []) (vi : C.Point) (blindFactor : ℕ) :
    ReturnsIff ls.MessageFits (phase5c ls deCommitments vi blindFactor)
      (ls.Opens deCommitments vi blindFactor) := by
  cases deCommitments with
  | nil => exact absurd rfl hne
  | cons d ds =>
    have hsteps : ReturnsIff _ (phase5c ls (d :: ds) vi blindFactor) (ls.Opens (d :: ds) vi blindFactor) :=
      (BitCurve.scalarMult_returns_of_lt ls.Y (bigInt2PrivateKey_lt (C.X ls.R))).bind fun yr _ hyr =>
      (BitCurve.scalarMult_returns_of_lt C.G (bigInt2PrivateKey_lt ls.M)).bind fun gm _ hgm =>
      (BitCurve.scalarMult_returns _ ls.rhoI).bind fun uI _ huI =>
      (BitCurve.scalarMult_returns _ ls.lI).map fun ti _ hti => by
        refine ⟨?_, ?_, rfl, rfl⟩
        · rw [huI, hyr, hgm, scalarMult_eq, scalarMult_eq, scalarMult_eq, pointSub_eq, pointSub_eq, pointSum_eq,
            cast_bigInt2PrivateKey, cast_bigInt2PrivateKey]
        · rw [hti, scalarMult_eq, pointSum_eq, List.map_cons, List.sum_cons]
    refine hsteps.congr ?_
    have hfits := hls
    unfold LocalSignature.Fits at hfits
    unfold LocalSignature.MessageFits bigInt2PrivateKey
    tauto

def DSMHandler.checkPhase5CDone (dh : DSMHandler C) : Except String (DSMHandler C) :=
  if dh.signMessage.phase5C.len = dh.signMessage.S.length then dh.notifyDone .phase5C else .ok dh

def DSMHandler.setPhase5C (dh : DSMHandler C) (m : RangeMap ℕ (Phase5C C)) : DSMHandler C :=
  { dh with signMessage := { dh.signMessage with phase5C := m } }

def DSMHandler.generatePhase5CProof (rg : Range ℕ) (dh : DSMHandler C) (blindFactor : ℕ) :
    Except String (DSMHandler C × Phase5C C) := do
  if dh.signMessage.phase5A.len ≠ dh.signMessage.S.length then
    throw "cannot genrate5c until all 5b proof received"
  -- the own decommitment is left out
  let decomVec := ((dh.signMessage.phase5A.range rg).filter fun p => p.1 ≠ dh.selfNotaryID).map (·.2.decom)
  let ls ← deref dh.signMessage.localSignature
  let own ← deref (dh.signMessage.phase5A.lookup dh.selfNotaryID)
  let msg ← phase5c ls decomVec own.decom.vi blindFactor
  let dh ← (dh.setPhase5C (dh.signMessage.phase5C.insert dh.selfNotaryID msg)).checkPhase5CDone
  return (dh, msg)

def DSMHandler.receivePhase5cProof (dh : DSMHandler C) (msg : Phase5C C) (index : ℕ) :
    Except String (DSMHandler C) :=
  let inputhash : SPrivKey := createHashFromGE [msg.decom.uI, msg.decom.ti]
  if createCommitmentWithUserDefinedRandomNess inputhash msg.decom.blindFactor ≠ msg.com then
    .ok (dh.notifyError "invalid com")
  else
    receiveOnce (·.signMessage.phase5C) setPhase5C checkPhase5CDone
      s!"ReceivePhase5cProof for {index} already exist" dh msg index

end Phase5C

section Phase6

/-- `phase5d` on the three slices, which have one length; the error `invalid key` is `none`. -/
def phase5d (ls : Option (LocalSignature C)) (opened : List (Phase5DDecom2 C × Phase5ADecom1 C)) :
    Except String (Option SPrivKey) := do
  let biasedSumTb := opened.foldl (fun acc o => pointAdd (pointAdd acc o.1.ti) o.2.bi) C.G
  let biasedSumTb := opened.foldl (fun acc o => pointSub acc o.1.uI) biasedSumTb
  if C.eqGE C.G biasedSumTb then
    let ls ← deref ls
    return some ls.sI
  else return none

/-- The loop of `generate5dProof`, which pairs each message of phase 5C with the sender's of 5A. -/
def pairOpenings (phase5A : RangeMap ℕ (Phase5A C)) :
    List (ℕ × Phase5C C) → Except String (List (Phase5DDecom2 C × Phase5ADecom1 C))
  | [] => .ok []
  | (i, m) :: rest => do
    let p ← deref (phase5A.lookup i)
    let ps ← pairOpenings phase5A rest
    return (m.decom, p.decom) :: ps

/-- What the signature check uses of the Ethereum library. -/
structure Ethereum (C : Curve) where
  Address : Type
  [decEq : DecidableEq Address]
  pubkeyToAddress : C.Point → Address
  /-- `Ecrecover` of a hash and a signature `r`, `s`, `v`. -/
  ecrecover : ℕ → ℕ → ℕ → ℕ → Option C.Point

instance (eth : Ethereum C) : DecidableEq eth.Address := eth.decEq

structure Signature where
  r : ℕ
  s : ℕ
  v : ℕ
  deriving DecidableEq

def halfN (C : Curve) : ℕ := C.N / 2

def restoreAndCheckRS (C : Curve) (sig : Signature) : Except String Unit := do
  if sig.v ≠ 0 ∧ sig.v ≠ 1 then throw "wrong v"
  if sig.s ≥ halfN C then throw "wrong s"

/-- The group equation that `verify` tests first. -/
def verifyEquation (s : SPrivKey) (R y : C.Point) (message : ℕ) : Except String Bool := do
  let r := bigInt2PrivateKey C.N (C.X R)
  let b := invertN C.N s
  let u1 := modMul C.N (bigInt2PrivateKey C.N message) b
  let u2 := modMul C.N r b
  let gu1 ← deref (bitCurveMult C.G u1)
  let yu2 ← deref (bitCurveMult y u2)
  return bigInt2PrivateKey C.N (C.X (pointAdd gu1 yu2)) = r

/-- A large `s` becomes its negative, and the parity of the ordinate flips with it. -/
def normalizedSignature (s : SPrivKey) (R : C.Point) : Signature where
  r := bigInt2PrivateKey C.N (C.X R)
  s := if s ≥ halfN C then C.N - s else s
  v := if s > halfN C then (C.Y R % 2) ^^^ 1 else C.Y R % 2

/-- `verify`: the equation, the normalisation of `s` and the recovery of the signer. -/
def verifySignature (eth : Ethereum C) (s : SPrivKey) (R y : C.Point) (message : ℕ) :
    Except String (Option Signature) := do
  if !(← verifyEquation s R y message) then return none
  let sig : Signature := normalizedSignature s R
  match eth.ecrecover (message % 2^256) sig.r sig.s sig.v with
  | none => return none
  | some pubkey2 =>
    if eth.pubkeyToAddress pubkey2 = eth.pubkeyToAddress y then
      restoreAndCheckRS C sig
      return some sig
    else return none

/-- The sum of the signature shares, the own one taken from the local signature. -/
def DSMHandler.sumSI (rg : Range ℕ) (dh : DSMHandler C) (ls : LocalSignature C) : SPrivKey :=
  modSum C.N ls.sI (((dh.signMessage.phase5D.range rg).filter fun p => p.1 ≠ dh.selfNotaryID).map (·.2))

def DSMHandler.checkPhase6Done (eth : Ethereum C) (rg : Range ℕ) (dh : DSMHandler C) :
    Except String (DSMHandler C) := do
  if dh.signMessage.phase5D.len = dh.signMessage.S.length then
    let ls ← deref dh.signMessage.localSignature
    let R ← deref dh.signMessage.R
    match ← verifySignature eth (dh.sumSI rg ls) R ls.Y ls.M with
    | none => return dh.notifyError "invilad signature"
    | some _ => dh.notifyDone .phase6
  else return dh

def DSMHandler.setPhase5D (dh : DSMHandler C) (m : RangeMap ℕ SPrivKey) : DSMHandler C :=
  { dh with signMessage := { dh.signMessage with phase5D := m } }

/-- On a failed check the zero key is returned, and broadcast by the caller. -/
def DSMHandler.generate5dProof (eth : Ethereum C) (rg rg' : Range ℕ) (dh : DSMHandler C) :
    Except String (DSMHandler C × SPrivKey) := do
  let opened ← pairOpenings dh.signMessage.phase5A (dh.signMessage.phase5C.range rg)
  match ← phase5d dh.signMessage.localSignature opened with
  | none => return (dh.notifyError "invalid key", privKeyZero)
  | some si =>
    let dh ← (dh.setPhase5D (dh.signMessage.phase5D.insert dh.selfNotaryID si)).checkPhase6Done eth rg'
    return (dh, si)

def DSMHandler.recevieSI (eth : Ethereum C) (rg : Range ℕ) (dh : DSMHandler C) (si : SPrivKey) (index : ℕ) :
    Except String (DSMHandler C) :=
  receiveOnce (·.signMessage.phase5D) setPhase5D (checkPhase6Done eth rg)
    s!"si for {index} already received" dh si index

end Phase6

end DistributedNotary.Mecdsa
