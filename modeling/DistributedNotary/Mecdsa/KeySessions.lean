import DistributedNotary.Mecdsa.HonestNegotiation

/-! The sessions in which the notaries negotiate a key. One notary starts, the
others join when a request of the first phase reaches them. The requests come in
any order, wait in the channel of the handler for the goroutine that negotiates,
and carry the messages of all four phases. -/
namespace DistributedNotary.Mecdsa

open Library Share Proofs

/-- What the notaries draw, the nonces of their last proofs included. -/
structure KeyCommittee (C : Curve) extends Dealers C where
  lastNonce : ℕ → RandomPrivateKey C.N

/-- The message of a request, whose last phase the negotiation of the first three knows nothing of. -/
inductive KeyGenBody (C : Curve) where
  | early (msg : KeyGenMessage C)
  | phase4 (proof : DLogProof C)

/-- The phase of a message; there is none for the last one. -/
def KeyGenBody.phase {C : Curve} : KeyGenBody C → Option KeyGenPhase
  | .early msg => some msg.phase
  | .phase4 _ => none

/-- A `KeyGenerationPhaseNMessageRequest` of the session. -/
structure KeyGenRequest (C : Curve) where
  senderNotaryID : ℕ
  body : KeyGenBody C

/-- The goroutine that runs `StartPKNAndWaitFinish`, the `stage` being the number of phases it has waited for. -/
inductive KeyThread (C : Curve) where
  | idle
  | spawned (req : KeyGenRequest C)
  | waiting (stage : ℕ)
  | returned (err : Option String)
  | panicked (err : String)

/-- A handler with its channels; `err` is what `waitPhaseDone` has read from `quitChan`. -/
structure PKNSession (C : Curve) extends PKNHandler C where
  lastPubkeyProof4 : RangeMap ℕ (DLogProof C) := ∅
  phase4DoneChan : ℕ := 0
  receiveChan : List (KeyGenRequest C) := []
  err : Option String := none
  thread : KeyThread C := .idle

namespace KeyCommittee

variable {C : Curve} (s : KeyCommittee C)

def newPKNHandler (i : ℕ) : PKNSession C := { selfNotaryID := i, ui := s.ui i }

/-- `WSBroadcast` to the other notaries. -/
def wsBroadcast (i : ℕ) (body : KeyGenBody C) (j : ℕ) : Option (KeyGenBody C) :=
  if j ∈ s.others i then some body else none

end KeyCommittee

namespace PKNSession

variable {C : Curve}

/-! ### The last phase -/

/-- The sum of the keys is compared with the public key, and nothing is done where they differ. -/
def checkPhase4Done (n : ℕ) (ph : PKNSession C) : Except String (PKNSession C) := do
  if ph.lastPubkeyProof4.len = n then
    let _ ← (List.range n).mapM fun i => deref (ph.lastPubkeyProof4.lookup i)
    let _ ← deref ph.publicKey
    return { ph with phase4DoneChan := min 2 (ph.phase4DoneChan + 1) }
  else return ph

def generatePhase4PubKeyProof (n : ℕ) (nonce : SPrivKey) (ph : PKNSession C) :
    Except String (PKNSession C × DLogProof C) := do
  match ph.xi with
  | none => throw "must wait for phase 3 finish"
  | some xi =>
    let _ ← deref (bitCurveMult C.G xi)
    let msg : DLogProof C := prove xi nonce
    let ph ← checkPhase4Done n { ph with lastPubkeyProof4 := ph.lastPubkeyProof4.insert ph.selfNotaryID msg }
    return (ph, msg)

def receivePhase4VerifyTotalPubKey (n : ℕ) (ph : PKNSession C) (msg : DLogProof C) (index : ℕ) :
    Except String (PKNSession C) := do
  if (← verifyDLog msg) = false then
    return { ph with toPKNHandler := ph.notifyError s!"last pubkey verify error for notary[ID={index}]" }
  if (ph.lastPubkeyProof4.lookup index).isSome then
    return { ph with toPKNHandler := ph.notifyError s!"last pubkey for notary[ID={index}] already exist" }
  checkPhase4Done n { ph with lastPubkeyProof4 := ph.lastPubkeyProof4.insert index msg }

/-! ### The goroutine -/

section Goroutine

variable (s : KeyCommittee C) (rg : Range ℕ)

/-- What `waitPhaseDone` does with a request; a panic ends the goroutine, and the process with it. -/
def receive (ph : PKNSession C) (req : KeyGenRequest C) : PKNSession C :=
  match req.body with
  | .early msg =>
    match ph.toPKNHandler.receive s.n rg req.senderNotaryID msg with
    | .ok h => { ph with toPKNHandler := h }
    | .error err => { ph with thread := .panicked err }
  | .phase4 m =>
    match ph.receivePhase4VerifyTotalPubKey s.n m req.senderNotaryID with
    | .ok ph => ph
    | .error err => { ph with thread := .panicked err }

/-- The channel that `waitPhaseDone` waits for holds a signal. -/
def Signals (ph : PKNSession C) : ℕ → Prop
  | 0 => .phase1 ∈ ph.doneChan
  | 1 => .phase2 ∈ ph.doneChan
  | 2 => .phase3 ∈ ph.doneChan
  | _ => 0 < ph.phase4DoneChan

def take (ph : PKNSession C) : ℕ → PKNSession C
  | 0 => { ph with doneChan := ph.doneChan.erase .phase1 }
  | 1 => { ph with doneChan := ph.doneChan.erase .phase2 }
  | 2 => { ph with doneChan := ph.doneChan.erase .phase3 }
  | _ => { ph with phase4DoneChan := ph.phase4DoneChan - 1 }

/-- What `StartPKNAndWaitFinish` does when it has waited for a phase, with what it sends to each notary. The key is
not saved here. -/
def proceed (i : ℕ) (ph : PKNSession C) (stage : ℕ) : PKNSession C × (ℕ → Option (KeyGenBody C)) :=
  match ph.err with
  | some err => ({ ph with thread := .returned (some err) }, fun _ => none)
  | none =>
    match stage with
    | 0 =>
      let (h, msg) := ph.generatePhase2PaillierKeyProof s.n (s.blindFactor i)
      ({ ph with toPKNHandler := h, thread := .waiting 1 }, s.wsBroadcast i (.early (.phase2 msg)))
    | 1 =>
      match ph.generatePhase3SecretShare s.t s.n rg (s.tail i) with
      | .ok (h, msgs) =>
        ({ ph with toPKNHandler := h, thread := .waiting 2 }, fun j => (msgs.lookup j).map fun m => .early (.phase3 m))
      | .error err => ({ ph with thread := .panicked err }, fun _ => none)
    | 2 =>
      match ph.generatePhase4PubKeyProof s.n (s.lastNonce i) with
      | .ok (ph, msg) => ({ ph with thread := .waiting 3 }, s.wsBroadcast i (.phase4 msg))
      | .error err => ({ ph with thread := .panicked err }, fun _ => none)
    | _ => ({ ph with thread := .returned none }, fun _ => none)

end Goroutine

end PKNSession

/-- A notary and the session. The requests for it are `incoming`, or with a goroutine of `onPKNRequest` that has found
no handler and creates one; `pknHandler` is what `pknHandlerMap` holds for the session. The last two fields are the
history: requests that found no handler to go to, or a full channel. -/
structure KeyNode (C : Curve) where
  incoming : List (KeyGenRequest C) := []
  creating : List (KeyGenRequest C) := []
  pknHandler : Option (PKNSession C) := none
  refused : List (KeyGenRequest C) := []
  dropped : List (KeyGenRequest C) := []

namespace KeyNode

variable {C : Curve}

/-- `OnRequest` of the handler, whose channel has room for ten requests from each notary. -/
def onRequest (n : ℕ) (v : KeyNode C) (ph : PKNSession C) (req : KeyGenRequest C) : KeyNode C :=
  if ph.receiveChan.length < 10 * n then
    { v with pknHandler := some { ph with receiveChan := ph.receiveChan ++ [req] } }
  else { v with pknHandler := some ph, dropped := req :: v.dropped }

/-- `onPKNRequest` up to the creation of a handler. -/
def onPKNRequest (n : ℕ) (v : KeyNode C) (req : KeyGenRequest C) : KeyNode C :=
  match v.pknHandler with
  | some ph => v.onRequest n ph req
  | none =>
    if req.body.phase = some .phase1 then { v with creating := req :: v.creating }
    else { v with refused := req :: v.refused }

/-- The rest of `onPKNRequest`: another goroutine may have stored its handler meanwhile. -/
def loadOrStore (s : KeyCommittee C) (i : ℕ) (v : KeyNode C) (req : KeyGenRequest C) : KeyNode C :=
  match v.pknHandler with
  | some ph => v.onRequest s.n ph req
  | none => { v with pknHandler := some { s.newPKNHandler i with thread := .spawned req } }

/-- What notary `i` does next, with what it sends to each of the others. -/
inductive Step (s : KeyCommittee C) (i : ℕ) : KeyNode C → KeyNode C → (ℕ → Option (KeyGenBody C)) → Prop
  | request {v : KeyNode C} {before after : List (KeyGenRequest C)} (req : KeyGenRequest C)
    (hin : v.incoming = before ++ req :: after) :
    Step s i v ({ v with incoming := before ++ after }.onPKNRequest s.n req) fun _ => none
  | create {v : KeyNode C} {before after : List (KeyGenRequest C)} (req : KeyGenRequest C)
    (hin : v.creating = before ++ req :: after) :
    Step s i v ({ v with creating := before ++ after }.loadOrStore s i req) fun _ => none
  | start {v : KeyNode C} {ph : PKNSession C} {req : KeyGenRequest C} (hph : v.pknHandler = some ph)
    (hthread : ph.thread = .spawned req) :
    Step s i v (v.onRequest s.n { ph with thread := .waiting 0 } req)
      (s.wsBroadcast i (.early (.phase1 (s.message1 i))))
  | receive {v : KeyNode C} {ph : PKNSession C} {stage : ℕ} {req : KeyGenRequest C} {rest : List (KeyGenRequest C)}
    (rg : Range ℕ) (hph : v.pknHandler = some ph) (hthread : ph.thread = .waiting stage)
    (hreq : ph.receiveChan = req :: rest) :
    Step s i v { v with pknHandler := some ({ ph with receiveChan := rest }.receive s rg req) } fun _ => none
  | readError {v : KeyNode C} {ph : PKNSession C} {stage : ℕ} {err : String} {rest : List String}
    (hph : v.pknHandler = some ph) (hthread : ph.thread = .waiting stage) (hquit : ph.quitChan = err :: rest) :
    Step s i v { v with pknHandler := some { ph with quitChan := rest, err := some err } } fun _ => none
  | proceed {v : KeyNode C} {ph : PKNSession C} {stage : ℕ} (rg : Range ℕ) (hph : v.pknHandler = some ph)
    (hthread : ph.thread = .waiting stage) (hsignal : ph.Signals stage) :
    Step s i v { v with pknHandler := some ((ph.take stage).proceed s rg i stage).1 }
      ((ph.take stage).proceed s rg i stage).2

end KeyNode

namespace KeyCommittee

variable {C : Curve} (s : KeyCommittee C)

/-- Notary `i` has come to `v`, and what it has sent is on its way. -/
def post (w : ℕ → KeyNode C) (i : ℕ) (v : KeyNode C) (out : ℕ → Option (KeyGenBody C)) : ℕ → KeyNode C := fun j =>
  if j = i then v else { w j with incoming := (w j).incoming ++ (out j).toList.map (KeyGenRequest.mk i) }

/-- `startNewPrivateKeyNegotiation` of notary `i` has sent its messages of the first phase. -/
def started (i : ℕ) : ℕ → KeyNode C :=
  post (fun _ => {}) i { pknHandler := some { s.newPKNHandler i with thread := .waiting 0 } }
    (s.wsBroadcast i (.early (.phase1 (s.message1 i))))

inductive Step (w : ℕ → KeyNode C) : (ℕ → KeyNode C) → Prop
  | node {i : ℕ} {v : KeyNode C} {out : ℕ → Option (KeyGenBody C)} (hi : i < s.n) (h : KeyNode.Step s i (w i) v out) :
    Step w (post w i v out)

/-- The states of all runs of a session that notary `i` has started. -/
abbrev Sessions (i : ℕ) : (ℕ → KeyNode C) → Prop := Reachable (fun w => w = s.started i) s.Step

end KeyCommittee

end DistributedNotary.Mecdsa
