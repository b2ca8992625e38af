import DistributedNotary.Mecdsa.Messages

/-! The phases of a signing session as `dsm_handler.go` computes them. Random
values are arguments, a loop over a map takes the order in which it visits the
keys, and a handler returns the new state of the session with the message it
broadcasts. -/
namespace DistributedNotary.Mecdsa

open Library Share Feldman Proofs

variable {C : Curve}

section Phase1

/-- `createSignKeys` with the two temporary keys it draws. -/
def DSMHandler.createSignKeys (dh : DSMHandler C) (gammaI kI : SPrivKey) : Except String (DSMHandler C) := do
  let lambdaI ← dh.vss.mapShareToNewParams dh.selfNotaryID dh.signMessage.S
  let wi := modMul C.N lambdaI dh.xi
  return { dh with signMessage := { dh.signMessage with
    signedKey := some {
      wi := wi, gwi := bitCurveMult C.G wi, ki := kI
      gammaI := gammaI, gGammaI := bitCurveMult C.G gammaI } } }

def DSMHandler.registerOtherNotaryIDs (dh : DSMHandler C) (otherNotaryIDs : List ℕ) (gammaI kI : SPrivKey) :
    Except String (DSMHandler C) :=
  { dh with
    otherNotaryIDs := otherNotaryIDs
    signMessage := { dh.signMessage with S := otherNotaryIDs ++ [dh.selfNotaryID] } }.createSignKeys gammaI kI

def DSMHandler.checkPhase1Done (dh : DSMHandler C) : Except String (DSMHandler C) :=
  if dh.signMessage.phase1BroadCast.len = dh.signMessage.S.length then dh.notifyDone .phase1 else .ok dh

def DSMHandler.setPhase1BroadCast (dh : DSMHandler C) (m : RangeMap ℕ SignBroadcastPhase1) : DSMHandler C :=
  { dh with signMessage := { dh.signMessage with phase1BroadCast := m } }

def DSMHandler.generatePhase1Broadcast (dh : DSMHandler C) (blindFactor : ℕ) :
    Except String (DSMHandler C × SignBroadcastPhase1) := do
  let k ← deref dh.signMessage.signedKey
  let com := createCommitmentWithUserDefinedRandomNess (C.X (scalarBaseMult C k.gammaI)) blindFactor
  let msg : SignBroadcastPhase1 := { com := com, blindFactor := blindFactor }
  let dh ← (dh.setPhase1BroadCast
    (dh.signMessage.phase1BroadCast.insert dh.selfNotaryID msg)).checkPhase1Done
  return (dh, msg)

/-- The receive handlers that keep one message for each sender: a second message of one
sender is an error, any other is stored and the phase checked for completion. -/
def DSMHandler.receiveOnce {ν : Type} (get : DSMHandler C → RangeMap ℕ ν)
    (set : DSMHandler C → RangeMap ℕ ν → DSMHandler C) (check : DSMHandler C → Except String (DSMHandler C))
    (exist : String) (dh : DSMHandler C) (msg : ν) (index : ℕ) : Except String (DSMHandler C) :=
  if ((get dh).lookup index).isSome then .ok (dh.notifyError exist)
  else check (set dh ((get dh).insert index msg))

theorem DSMHandler.receiveOnce_new {ν : Type} {get : DSMHandler C → RangeMap ℕ ν}
    {set : DSMHandler C → RangeMap ℕ ν → DSMHandler C} {check : DSMHandler C → Except String (DSMHandler C)}
    {exist : String} {dh : DSMHandler C} {msg : ν} {index : ℕ} (h : (get dh).lookup index = none) :
    receiveOnce get set check exist dh msg index = check (set dh ((get dh).insert index msg)) := by
  rw [receiveOnce, h]
  rfl

def DSMHandler.receivePhase1Broadcast (dh : DSMHandler C) (msg : SignBroadcastPhase1) (index : ℕ) :
    Except String (DSMHandler C) :=
  receiveOnce (·.signMessage.phase1BroadCast) setPhase1BroadCast checkPhase1Done
    s!"pubkey roof for notary[ID={index}] already exist" dh msg index

end Phase1

section Phase2

/-- `Encrypt`, which panics on an error of `EncryptWithNonce`. -/
def newMessageA (ki : SPrivKey) (paillierPubKey : Paillier.PublicKey) (r : ℕ) : Except String MessageA := do
  let ca ← Paillier.encryptWithNonce paillierPubKey r ki
  return { c := ca }

def DSMHandler.generatePhase2MessageA (dh : DSMHandler C) (r : ℕ) :
    Except String (DSMHandler C × MessageA) := do
  let k ← deref dh.signMessage.signedKey
  let ma ← newMessageA k.ki dh.paillierPrivateKey.toPublicKey r
  return ({ dh with signMessage := { dh.signMessage with messageA := some ma } }, ma)

/-- What `newMessageB` draws: the mask, its encryption nonce and the nonces of two proofs. -/
structure MtACoins (C : Curve) where
  betaTag : RandomPrivateKey C.N
  nonce : ℕ
  proofNonce : RandomPrivateKey C.N
  betaTagProofNonce : RandomPrivateKey C.N

def newMessageB (gammaI : SPrivKey) (paillierPubKey : Paillier.PublicKey) (ca : MessageA)
    (coins : MtACoins C) : Except String (MessageB C) := do
  let betaTagPrivateKey : SPrivKey := coins.betaTag
  let cBetaTag ← Paillier.encryptWithNonce paillierPubKey coins.nonce betaTagPrivateKey
  let bca := Paillier.mul paillierPubKey ca.c gammaI
  let cb := Paillier.addCipher paillierPubKey bca cBetaTag
  let beta := modSub C.N privKeyZero betaTagPrivateKey
  return {
    c := cb
    bProof := prove gammaI coins.proofNonce
    betaTagProof := prove betaTagPrivateKey coins.betaTagProofNonce
    beta := beta }

def DSMHandler.receivePhase2MessageA (dh : DSMHandler C) (msg : MessageA) (index : ℕ)
    (coinsGamma coinsWi : MtACoins C) : Except String (MessageBPhase2 C) := do
  let k ← deref dh.signMessage.signedKey
  let pk ← deref (dh.paillierPubKeys.lookup index)
  let mgGamma ← newMessageB k.gammaI pk msg coinsGamma
  let mbw ← newMessageB k.wi pk msg coinsWi
  return { messageBGamma := mgGamma, messageBWi := some mbw }

def verifyProofsGetAlpha (m : MessageB C) (dk : Paillier.PrivateKey) (a : SPrivKey) : Except String SPrivKey := do
  let ashare ← Paillier.decrypt dk m.c
  let alphaKey := bigInt2PrivateKey C.N ashare
  let gAlpha := scalarBaseMult C alphaKey
  let babTag := pointAdd (scalarMult m.bProof.PK a) m.betaTagProof.PK
  if verify m.bProof && verify m.betaTagProof && C.eqGE babTag gAlpha then return alphaKey
  else throw "invalid key"

def DSMHandler.setAlpha (dh : DSMHandler C) (alphaGamma alphaWI : RangeMap ℕ SPrivKey) : DSMHandler C :=
  { dh with signMessage := { dh.signMessage with alphaGamma := alphaGamma, alphaWI := alphaWI } }

/-- The loop of `checkPhase2Done` over the messages left. -/
def DSMHandler.collectAlpha (dh : DSMHandler C) : List (ℕ × MessageBPhase2 C) → Except String (DSMHandler C)
  | [] => dh.notifyDone .phase2
  | (index, msg) :: rest => do
    let k ← deref dh.signMessage.signedKey
    match verifyProofsGetAlpha msg.messageBGamma dh.paillierPrivateKey k.ki with
    | .error err => return dh.notifyError err
    | .ok alphaijGamma =>
      let mbw ← deref msg.messageBWi
      match verifyProofsGetAlpha mbw dh.paillierPrivateKey k.ki with
      | .error err => return dh.notifyError err
      | .ok alphaijWi =>
        (dh.setAlpha (dh.signMessage.alphaGamma.insert index alphaijGamma)
          (dh.signMessage.alphaWI.insert index alphaijWi)).collectAlpha rest

def DSMHandler.checkPhase2Done (rg : Range ℕ) (dh : DSMHandler C) : Except String (DSMHandler C) :=
  if dh.signMessage.phase2MessageB.len = dh.signMessage.S.length - 1 then
    dh.collectAlpha (dh.signMessage.phase2MessageB.range rg)
  else .ok dh

def DSMHandler.setPhase2MessageB (dh : DSMHandler C) (m : RangeMap ℕ (MessageBPhase2 C)) : DSMHandler C :=
  { dh with signMessage := { dh.signMessage with phase2MessageB := m } }

def DSMHandler.receivePhase2MessageB (rg : Range ℕ) (dh : DSMHandler C) (msg : MessageBPhase2 C) (index : ℕ) :
    Except String (DSMHandler C) :=
  (dh.setPhase2MessageB (dh.signMessage.phase2MessageB.insert index msg)).checkPhase2Done rg

end Phase2

section Phase3

/-- The common loop of `phase2DeltaI` and `phase2SigmaI` over the signers: the own product,
then the `alpha` and the `beta` of every other signer. -/
def DSMHandler.addShares (dh : DSMHandler C) (alpha : RangeMap ℕ SPrivKey)
    (beta : MessageBPhase2 C → Except String SPrivKey) (product : SPrivKey) : Except String SPrivKey :=
  dh.signMessage.S.foldlM (fun acc i => do
    if i = dh.selfNotaryID then return acc
    else
      let a ← deref (alpha.lookup i)
      let mb ← deref (dh.signMessage.phase2MessageB.lookup i)
      let b ← beta mb
      return modAdd C.N (modAdd C.N acc a) b) product

def DSMHandler.phase2DeltaI (dh : DSMHandler C) : Except String SPrivKey := do
  if dh.signMessage.alphaGamma.len ≠ dh.signMessage.S.length - 1 then throw "arg error"
  let k ← deref dh.signMessage.signedKey
  dh.addShares dh.signMessage.alphaGamma (fun mb => .ok mb.messageBGamma.beta) (modMul C.N k.ki k.gammaI)

def DSMHandler.phase2SigmaI (dh : DSMHandler C) : Except String SPrivKey := do
  if dh.signMessage.alphaWI.len ≠ dh.signMessage.S.length - 1 then throw "length error"
  let k ← deref dh.signMessage.signedKey
  dh.addShares dh.signMessage.alphaWI
    (fun mb => do
      let mbw ← deref mb.messageBWi
      return mbw.beta) (modMul C.N k.ki k.wi)

def DSMHandler.checkPhase3Done (dh : DSMHandler C) : Except String (DSMHandler C) :=
  if dh.signMessage.delta.len = dh.signMessage.S.length then dh.notifyDone .phase3 else .ok dh

def DSMHandler.setDelta (dh : DSMHandler C) (m : RangeMap ℕ SPrivKey) : DSMHandler C :=
  { dh with signMessage := { dh.signMessage with delta := m } }

def DSMHandler.setSigma (dh : DSMHandler C) (sigma : SPrivKey) : DSMHandler C :=
  { dh with signMessage := { dh.signMessage with sigma := sigma } }

def DSMHandler.generatePhase3DeltaI (dh : DSMHandler C) : Except String (DSMHandler C × SPrivKey) := do
  let deltaI ← dh.phase2DeltaI
  let sigmaI ← dh.phase2SigmaI
  let dh := dh.setSigma sigmaI
  let dh ← (dh.setDelta (dh.signMessage.delta.insert dh.selfNotaryID deltaI)).checkPhase3Done
  return (dh, deltaI)

def DSMHandler.receivePhase3DeltaI (dh : DSMHandler C) (msg : SPrivKey) (index : ℕ) :
    Except String (DSMHandler C) :=
  receiveOnce (·.signMessage.delta) setDelta checkPhase3Done
    s!"ReceivePhase3DeltaI for {index} already exist" dh msg index

end Phase3

section Phase4

def phase3ReconstructDelta (rg : Range ℕ) (delta : RangeMap ℕ SPrivKey) (N : ℕ) : SPrivKey :=
  invertN N (modSum N privKeyZero ((delta.range rg).map (·.2)))

/-- The sum of the points, `(0,0)` standing for a sum not started. -/
def sumPoints (l : List C.Point) : C.Point :=
  l.foldl (fun sum P => if sum = 0 then P else pointAdd sum P) 0

/-- The first loop of `phase4`: every opened point is the one committed to in phase 1. -/
def checkCommitments (phase1Broadcast : RangeMap ℕ SignBroadcastPhase1) :
    List (ℕ × MessageBPhase2 C) → Except String Bool
  | [] => .ok true
  | (i, p) :: rest => do
    let b ← deref (phase1Broadcast.lookup i)
    if createCommitmentWithUserDefinedRandomNess (C.X p.messageBGamma.bProof.PK) b.blindFactor = b.com then
      checkCommitments phase1Broadcast rest
    else return false

/-- `phase4`; the error `invliad key` is the result `none`. -/
def phase4 (rg rg' : Range ℕ) (delta : SPrivKey) (gammaIProof : RangeMap ℕ (MessageBPhase2 C))
    (phase1Broadcast : RangeMap ℕ SignBroadcastPhase1) : Except String (Option C.Point) := do
  if gammaIProof.len ≠ phase1Broadcast.len then throw "length must equal"
  if ← checkCommitments phase1Broadcast (gammaIProof.range rg) then
    let sum := sumPoints ((gammaIProof.range rg').map fun p => p.2.messageBGamma.bProof.PK)
    return some (scalarMult sum delta)
  else return none

/-- The error of `phase4` is not notified: the session goes on without `R`. -/
def DSMHandler.generatePhase4R (rg rg' rg'' : Range ℕ) (dh : DSMHandler C) (coins : MtACoins C) :
    Except String (DSMHandler C) := do
  let k ← deref dh.signMessage.signedKey
  let delta := phase3ReconstructDelta rg dh.signMessage.delta C.N
  let ma ← deref dh.signMessage.messageA
  let mgGamma ← newMessageB k.gammaI dh.paillierPrivateKey.toPublicKey ma coins
  let dh := dh.setPhase2MessageB (dh.signMessage.phase2MessageB.insert dh.selfNotaryID
    { messageBGamma := mgGamma, messageBWi := none })
  match ← phase4 rg' rg'' delta dh.signMessage.phase2MessageB dh.signMessage.phase1BroadCast with
  | none => return dh
  | some R => return { dh with signMessage := { dh.signMessage with R := some R } }

end Phase4

end DistributedNotary.Mecdsa
