import DistributedNotary.Library.Transition
import DistributedNotary.Mecdsa.Opening

/-! The main loop of one signing session under any traffic. `waitPhaseDone` takes
a completion signal, an error or a request of any peer, whichever the runtime
picks, and `StartDSMAndWaitFinish` computes its next message between two waits.
The answers of phase 2 come through goroutines of their own. -/
namespace DistributedNotary.Mecdsa

open Library Share

variable {C : Curve}

/-- A request that reaches the session, with what an answer to it draws. -/
inductive DSMRequest (C : Curve) where
  | phase1Broadcast (msg : SignBroadcastPhase1)
  | phase2MessageA (msg : MessageA) (coinsGamma coinsWi : MtACoins C)
  | phase3DeltaI (msg : SPrivKey)
  | phase5A5BProof (msg : Phase5A C)
  | phase5CProof (msg : Phase5C C)
  | phase6ReceiveSI (msg : SPrivKey)

/-- The `switch` of `waitPhaseDone`. -/
def DSMHandler.onRequest (eth : Ethereum C) (rg : Range ℕ) (dh : DSMHandler C) (index : ℕ) :
    DSMRequest C → Except String (DSMHandler C)
  | .phase1Broadcast msg => dh.receivePhase1Broadcast msg index
  | .phase2MessageA msg coinsGamma coinsWi => do
    let _ ← dh.receivePhase2MessageA msg index coinsGamma coinsWi
    return dh
  | .phase3DeltaI msg => dh.receivePhase3DeltaI msg index
  | .phase5A5BProof msg => dh.receivePhase5A5BProof rg msg index
  | .phase5CProof msg => dh.receivePhase5cProof msg index
  | .phase6ReceiveSI msg => dh.recevieSI eth rg msg index

/-- The goroutine of phase 2 for one signer, on its answer. -/
def DSMHandler.onAnswer (rg : Range ℕ) (dh : DSMHandler C) (index : ℕ) (respMsg : MessageBPhase2 C) :
    Except String (DSMHandler C) :=
  if respMsg.messageBWi.isNone then .ok (dh.notifyError "parse MessageBPhase2 MessageBGamma nil ")
  else dh.receivePhase2MessageB rg respMsg index

/-- What the main loop draws, the orders of its loops over maps and the answer of the database. -/
structure LoopCoins (C : Curve) where
  encryptNonce : ℕ
  mta : MtACoins C
  phase5A : Phase5ACoins C
  blindFactor : ℕ
  rg : Range ℕ
  rg' : Range ℕ
  rg'' : Range ℕ
  newSignMessage : Except String Unit

/-- `result` is what `StartDSMAndWaitFinish` has returned, if it has. -/
structure MainLoop (C : Curve) where
  dh : DSMHandler C
  /-- The number of phases whose wait is over. -/
  passed : ℕ := 0
  /-- The signers whose answer the goroutines of phase 2 wait for. -/
  asked : List ℕ := []
  result : Option (Except String Signature) := none

/-- The number of waits before that of a phase. -/
def Phase.index : Phase → ℕ
  | .phase1 => 0
  | .phase2 => 1
  | .phase3 => 2
  | .phase5A5B => 3
  | .phase5C => 4
  | .phase6 => 5

namespace MainLoop

/-- `StartDSMAndWaitFinish` up to its first wait. -/
def start (thresholdCount : ℕ) (dh : DSMHandler C) (blindFactor : ℕ) : Except String (MainLoop C) :=
  if dh.signMessage.S.length ≤ thresholdCount then
    .ok { dh := dh, result := some (.error "candidates notary too less") }
  else do
    let (dh, _) ← dh.generatePhase1Broadcast blindFactor
    return { dh := dh }

/-- The end of `StartDSMAndWaitFinish`. -/
def finish (eth : Ethereum C) (dh : DSMHandler C) (coins : LoopCoins C) : Except String (Except String Signature) :=
  match coins.newSignMessage with
  | .error err => .ok (.error err)
  | .ok _ => do
    let ls ← deref dh.signMessage.localSignature
    let R ← deref dh.signMessage.R
    match ← verifySignature eth (dh.sumSI coins.rg ls) R ls.Y ls.M with
    | none => return .error "invilad signature"
    | some signature => return .ok signature

/-- What the main loop does after the wait for a phase, up to the next one. -/
def proceed (eth : Ethereum C) (m : MainLoop C) (coins : LoopCoins C) : Phase → Except String (MainLoop C)
  | .phase1 => do
    let (dh, _) ← m.dh.generatePhase2MessageA coins.encryptNonce
    return { m with dh := dh, asked := dh.otherNotaryIDs }
  | .phase2 => do
    let (dh, _) ← m.dh.generatePhase3DeltaI
    return { m with dh := dh }
  | .phase3 => do
    let dh ← m.dh.generatePhase4R coins.rg coins.rg' coins.rg'' coins.mta
    let (dh, _) ← dh.generatePhase5a5bZkProof coins.rg coins.phase5A
    return { m with dh := dh }
  | .phase5A5B => do
    let (dh, _) ← m.dh.generatePhase5CProof coins.rg coins.blindFactor
    return { m with dh := dh }
  | .phase5C => do
    let (dh, _) ← m.dh.generate5dProof eth coins.rg coins.rg'
    return { m with dh := dh }
  | .phase6 => do
    let r ← finish eth m.dh coins
    return { m with result := some r }

/-- The wait for a phase takes its signal. -/
def waitPhaseDone (m : MainLoop C) (p : Phase) : MainLoop C :=
  { m with dh := { m.dh with doneChan := m.dh.doneChan.erase p }, passed := m.passed + 1 }

/-- What happens next at the session. -/
inductive Input (C : Curve) where
  | signal (coins : LoopCoins C)
  | quit
  | request (index : ℕ) (req : DSMRequest C) (rg : Range ℕ)
  | answer (index : ℕ) (msg : MessageBPhase2 C) (rg : Range ℕ)
  | noAnswer (index : ℕ) (err : String)

/-- One step of the session. Where a computation panics there is none. -/
inductive Step (eth : Ethereum C) : MainLoop C → Input C → MainLoop C → Prop
  | signal {m m' : MainLoop C} {p : Phase} (coins : LoopCoins C) (hrun : m.result = none) (hp : m.passed = p.index)
      (hc : p ∈ m.dh.doneChan) (hok : proceed eth (m.waitPhaseDone p) coins p = .ok m') :
      Step eth m (.signal coins) m'
  | quit {m : MainLoop C} {err : String} {errs : List String} (hrun : m.result = none)
      (hq : m.dh.quitChan = err :: errs) :
      Step eth m .quit { m with dh := { m.dh with quitChan := errs }, result := some (.error err) }
  | request {m : MainLoop C} {dh : DSMHandler C} (index : ℕ) (req : DSMRequest C) (rg : Range ℕ)
      (hrun : m.result = none) (hok : m.dh.onRequest eth rg index req = .ok dh) :
      Step eth m (.request index req rg) { m with dh := dh }
  | answer {m : MainLoop C} {dh : DSMHandler C} (index : ℕ) (msg : MessageBPhase2 C) (rg : Range ℕ)
      (ha : index ∈ m.asked) (hok : m.dh.onAnswer rg index msg = .ok dh) :
      Step eth m (.answer index msg rg) { m with dh := dh, asked := m.asked.erase index }
  | noAnswer {m : MainLoop C} (index : ℕ) (err : String) (ha : index ∈ m.asked) :
      Step eth m (.noAnswer index err) { m with dh := m.dh.notifyError err, asked := m.asked.erase index }

end MainLoop

end DistributedNotary.Mecdsa
