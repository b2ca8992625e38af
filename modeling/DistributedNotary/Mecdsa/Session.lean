import DistributedNotary.Mecdsa.Opening

/-! Honest committees and honest runs of a signing session. A `Committee` holds
what key generation left at the notaries; a `Session` adds the signer set, the
message and every random value. The run is given phase by phase: a signer
produces its message from its own state, the messages of the other signers reach
it in an arbitrary order, and it waits for the phase to complete. Phase 2 is given
twice, in the group and with the multiplication of the library. -/
namespace DistributedNotary.Mecdsa

open Library Share Feldman Proofs

/-- Notaries `0..n-1` that shared polynomials of degree `t`. Ids are far below the order of
the curve, and the Paillier moduli leave room for a product of two scalars and a mask. -/
structure Committee (C : Curve) where
  n : ℕ
  t : ℕ
  n_lt : n < C.N
  poly : ℕ → List SPrivKey
  poly_length : ∀ j, (poly j).length = t + 1
  paillier : ℕ → Paillier.KeyPair
  modulus : ∀ i, C.N ^ 2 + C.N < (paillier i).p * (paillier i).q
  /-- The order in which notary `i` visits the public keys in `checkPhase1Done`. -/
  pubKeysRange : ℕ → Range ℕ
  /-- The order in which notary `i` visits the shares in `checkPhase3Done`. -/
  sharesRange : ℕ → Range ℕ

namespace Committee

variable {C : Curve} (s : Committee C)

/-- `UI`, the constant coefficient of the polynomial. -/
def uI (j : ℕ) : SPrivKey := (s.poly j).headD 0

/-- The public key that `checkPhase1Done` leaves at notary `i`. -/
def publicKey (i : ℕ) : C.Point :=
  pointSum (scalarBaseMult C (s.uI i))
    (((s.pubKeysRange i).visit ((List.range s.n).erase i)).map fun j => scalarBaseMult C (s.uI j))

/-- The share that dealer `j` sends to notary `i`. -/
def secretShare (j i : ℕ) : SPrivKey := (share C s.t s.n (s.poly j)).2.getD i privKeyZero

/-- The key `XI` that `checkPhase3Done` leaves at notary `i`. -/
def xi (i : ℕ) : SPrivKey :=
  modSum C.N privKeyZero (((s.sharesRange i).visit (List.range s.n)).map fun j => s.secretShare j i)

/-- `NewDSMHandler` on the stored keys of notary `i`. -/
def newDSMHandler (i message : ℕ) : DSMHandler C :=
  { selfNotaryID := i
    xi := s.xi i
    paillierPubKeys := RangeMap.tabulate (List.range s.n) fun j => (s.paillier j).key.toPublicKey
    paillierPrivateKey := (s.paillier i).key
    publicKey := s.publicKey i
    vss := (share C s.t s.n (s.poly i)).1
    signMessage := { message := message } }

/-- The private key that nobody holds. -/
def groupKey : SPrivKey := modSum C.N privKeyZero ((List.range s.n).map s.uI)

end Committee

/-- The random values of one signer. -/
structure Coins (C : Curve) where
  kI : RandomPrivateKey C.N
  gammaI : RandomPrivateKey C.N
  blindFactor : ℕ
  encryptNonce : ℕ
  /-- For the answer to each signer, itself included. -/
  mtaGamma : ℕ → MtACoins C
  mtaWi : ℕ → MtACoins C
  phase5A : Phase5ACoins C
  phase5CBlindFactor : ℕ

/-- The loops over maps whose order is left to the runtime. -/
inductive Loop where
  | alpha
  | delta
  | commitments
  | points
  | proofs
  | decommitments
  | openings
  | shares

/-- A signer set, a message and the choices of one run. The nonces are units modulo the key
they are used with, as decryption needs. -/
structure Session (C : Curve) extends Committee C where
  S : List ℕ
  S_nodup : S.Nodup
  S_lt : ∀ i ∈ S, i < n
  S_length : t < S.length
  two_le : 2 ≤ S.length
  message : ℕ
  /-- The argument of `RegisterOtherNotaryIDs` at signer `i`. -/
  others : ℕ → List ℕ
  others_perm : ∀ i, (others i).Perm (S.erase i)
  coins : ℕ → Coins C
  encryptNonce_coprime : ∀ i, (coins i).encryptNonce.Coprime ((paillier i).p * (paillier i).q)
  mtaGamma_coprime : ∀ j i, ((coins j).mtaGamma i).nonce.Coprime ((paillier i).p * (paillier i).q)
  mtaWi_coprime : ∀ j i, ((coins j).mtaWi i).nonce.Coprime ((paillier i).p * (paillier i).q)
  /-- The order in which the messages of a phase reach signer `i`. -/
  arrival : Phase → ℕ → Range ℕ
  loop : Loop → ℕ → Range ℕ

namespace Session

variable {C : Curve} (s : Session C) (eth : Ethereum C)

/-- The messages `msg j` of the other signers reach signer `i`, whose handler is `recv`. -/
def deliver {ν : Type} (phase : Phase) (i : ℕ) (msg : ℕ → Except String ν)
    (recv : DSMHandler C → ν → ℕ → Except String (DSMHandler C)) (dh : DSMHandler C) :
    Except String (DSMHandler C) :=
  ((s.arrival phase i).visit (s.others i)).foldlM (fun dh j => do recv dh (← msg j) j) dh

def start (i : ℕ) : Except String (DSMHandler C) := do
  if s.S.length ≤ s.t then throw "candidates notary too less"
  (s.newDSMHandler i s.message).registerOtherNotaryIDs (s.others i) (s.coins i).gammaI (s.coins i).kI

def phase1Broadcast (i : ℕ) : Except String (DSMHandler C × SignBroadcastPhase1) := do
  let dh ← s.start i
  dh.generatePhase1Broadcast (s.coins i).blindFactor

def phase1 (i : ℕ) : Except String (DSMHandler C) := do
  let (dh, _) ← s.phase1Broadcast i
  let dh ← s.deliver .phase1 i (fun j => return (← s.phase1Broadcast j).2) DSMHandler.receivePhase1Broadcast dh
  dh.waitPhaseDone .phase1

def phase2MessageA (i : ℕ) : Except String (DSMHandler C × MessageA) := do
  let dh ← s.phase1 i
  dh.generatePhase2MessageA (s.coins i).encryptNonce

/-- The answer of signer `j` to the message of signer `i`. -/
def phase2MessageB (i j : ℕ) : Except String (MessageBPhase2 C) := do
  let (dh, _) ← s.phase2MessageA j
  let (_, msg) ← s.phase2MessageA i
  BitCurve.receivePhase2MessageA dh msg i ((s.coins j).mtaGamma i) ((s.coins j).mtaWi i)

def phase2 (i : ℕ) : Except String (DSMHandler C) := do
  let (dh, _) ← s.phase2MessageA i
  let dh ← s.deliver .phase2 i (s.phase2MessageB i) (BitCurve.receivePhase2MessageB (s.loop .alpha i)) dh
  dh.waitPhaseDone .phase2

/-- The answer in the group, where every scalar has its multiple. -/
def phase2MessageBInGroup (i j : ℕ) : Except String (MessageBPhase2 C) := do
  let (dh, _) ← s.phase2MessageA j
  let (_, msg) ← s.phase2MessageA i
  dh.receivePhase2MessageA msg i ((s.coins j).mtaGamma i) ((s.coins j).mtaWi i)

def phase2InGroup (i : ℕ) : Except String (DSMHandler C) := do
  let (dh, _) ← s.phase2MessageA i
  let dh ← s.deliver .phase2 i (s.phase2MessageBInGroup i) (DSMHandler.receivePhase2MessageB (s.loop .alpha i)) dh
  dh.waitPhaseDone .phase2

def phase3DeltaI (i : ℕ) : Except String (DSMHandler C × SPrivKey) := do
  let dh ← s.phase2 i
  dh.generatePhase3DeltaI

def phase3 (i : ℕ) : Except String (DSMHandler C) := do
  let (dh, _) ← s.phase3DeltaI i
  let dh ← s.deliver .phase3 i (fun j => return (← s.phase3DeltaI j).2) DSMHandler.receivePhase3DeltaI dh
  dh.waitPhaseDone .phase3

def phase4 (i : ℕ) : Except String (DSMHandler C) := do
  let dh ← s.phase3 i
  BitCurve.generatePhase4R (s.loop .delta i) (s.loop .commitments i) (s.loop .points i) dh ((s.coins i).mtaGamma i)

def phase5A5BProof (i : ℕ) : Except String (DSMHandler C × Phase5A C) := do
  let dh ← s.phase4 i
  dh.generatePhase5a5bZkProof (s.loop .proofs i) (s.coins i).phase5A

def phase5A5B (i : ℕ) : Except String (DSMHandler C) := do
  let (dh, _) ← s.phase5A5BProof i
  let dh ← s.deliver .phase5A5B i (fun j => return (← s.phase5A5BProof j).2)
    (DSMHandler.receivePhase5A5BProof (s.loop .proofs i)) dh
  dh.waitPhaseDone .phase5A5B

def phase5CProof (i : ℕ) : Except String (DSMHandler C × Phase5C C) := do
  let dh ← s.phase5A5B i
  dh.generatePhase5CProof (s.loop .decommitments i) (s.coins i).phase5CBlindFactor

def phase5C (i : ℕ) : Except String (DSMHandler C) := do
  let (dh, _) ← s.phase5CProof i
  let dh ← s.deliver .phase5C i (fun j => return (← s.phase5CProof j).2) DSMHandler.receivePhase5cProof dh
  dh.waitPhaseDone .phase5C

def phase6SI (i : ℕ) : Except String (DSMHandler C × SPrivKey) := do
  let dh ← s.phase5C i
  dh.generate5dProof eth (s.loop .openings i) (s.loop .shares i)

/-- The last message makes the handler check the signature. -/
def phase6 (i : ℕ) : Except String (DSMHandler C) := do
  let (dh, _) ← s.phase6SI eth i
  s.deliver .phase6 i (fun j => return (← s.phase6SI eth j).2) (DSMHandler.recevieSI eth (s.loop .shares i)) dh

end Session

end DistributedNotary.Mecdsa
