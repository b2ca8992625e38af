import DistributedNotary.Library.RangeMap
import DistributedNotary.Mecdsa.Feldman
import DistributedNotary.Mecdsa.Paillier
import DistributedNotary.Mecdsa.Proofs

/-! The records of a signing session: the messages of the six phases, the
`SignMessage` that collects them and the handler that owns it. A nil pointer is
`none`, and dereferencing it is a panic of the source, an `Except.error`. Fields
that no phase reads (keys of the database, times, names) are left out. -/
namespace DistributedNotary.Mecdsa

open Library Share Feldman Proofs

structure SignedKey (C : Curve) where
  wi : SPrivKey
  gwi : Option C.Point
  ki : SPrivKey
  gammaI : SPrivKey
  gGammaI : Option C.Point

structure SignBroadcastPhase1 where
  com : ℕ
  blindFactor : ℕ

structure MessageA where
  c : ℕ

structure MessageB (C : Curve) where
  c : ℕ
  bProof : DLogProof C
  betaTagProof : DLogProof C
  beta : SPrivKey

structure MessageBPhase2 (C : Curve) where
  messageBGamma : MessageB C
  messageBWi : Option (MessageB C)

structure LocalSignature (C : Curve) where
  lI : SPrivKey
  rhoI : SPrivKey
  R : C.Point
  sI : SPrivKey
  M : ℕ
  Y : C.Point

structure Phase5ADecom1 (C : Curve) where
  vi : C.Point
  ai : C.Point
  bi : C.Point
  blindFactor : ℕ

structure Phase5A (C : Curve) where
  com : ℕ
  decom : Phase5ADecom1 C
  proof : HomoELGamalProof C

structure Phase5DDecom2 (C : Curve) where
  uI : C.Point
  ti : C.Point
  blindFactor : ℕ

structure Phase5C (C : Curve) where
  com : ℕ
  decom : Phase5DDecom2 C

/-- The message to sign is the number its bytes denote. -/
structure SignMessage (C : Curve) where
  message : ℕ
  S : List ℕ := []
  signedKey : Option (SignedKey C) := none
  phase1BroadCast : RangeMap ℕ SignBroadcastPhase1 := ∅
  messageA : Option MessageA := none
  phase2MessageB : RangeMap ℕ (MessageBPhase2 C) := ∅
  sigma : SPrivKey := privKeyZero
  R : Option C.Point := none
  localSignature : Option (LocalSignature C) := none
  phase5A : RangeMap ℕ (Phase5A C) := ∅
  phase5C : RangeMap ℕ (Phase5C C) := ∅
  phase5D : RangeMap ℕ SPrivKey := ∅
  alphaGamma : RangeMap ℕ SPrivKey := ∅
  alphaWI : RangeMap ℕ SPrivKey := ∅
  delta : RangeMap ℕ SPrivKey := ∅

/-- The channels on which the completion of a phase is signalled. -/
inductive Phase where
  | phase1
  | phase2
  | phase3
  | phase5A5B
  | phase5C
  | phase6
  deriving DecidableEq

structure DSMHandler (C : Curve) where
  selfNotaryID : ℕ
  otherNotaryIDs : List ℕ := []
  xi : SPrivKey
  paillierPubKeys : RangeMap ℕ Paillier.PublicKey
  paillierPrivateKey : Paillier.PrivateKey
  publicKey : C.Point
  vss : VerifiableSS C
  signMessage : SignMessage C
  doneChan : List Phase := []
  quitChan : List String := []

/-- A pointer that is used. -/
def deref {α : Type} : Option α → Except String α
  | some a => .ok a
  | none => .error "invalid memory address or nil pointer dereference"

@[simp] theorem deref_some {α : Type} (a : α) : deref (some a) = .ok a := rfl

theorem deref_eq_ok {α : Type} {o : Option α} {a : α} : deref o = .ok a ↔ o = some a := by
  cases o with
  | none => exact iff_of_false (nomatch ·) (nomatch ·)
  | some b => rw [deref_some, Except.ok.injEq, Option.some.injEq]

/-- A computation that goes on from a result. -/
theorem bind_ok {α β : Type} {x : Except String α} {a : α} (h : x = .ok a) (f : α → Except String β) :
    (x >>= f) = f a := by rw [h]; rfl

namespace DSMHandler

variable {C : Curve}

/-- `notify(nil, err)`: the error is offered twice to a channel of capacity two. -/
def notifyError (dh : DSMHandler C) (err : String) : DSMHandler C :=
  { dh with quitChan := (dh.quitChan ++ [err, err]).take 2 }

/-- `notify(c, nil)`: a channel of capacity two that is full makes the source panic. -/
def notifyDone (dh : DSMHandler C) (c : Phase) : Except String (DSMHandler C) :=
  if 2 ≤ dh.doneChan.count c then .error "write to channel blocked"
  else .ok { dh with doneChan := c :: dh.doneChan }

/-- The return of `waitPhaseDone` when no message is left: an error if one was notified. -/
def waitPhaseDone (dh : DSMHandler C) (c : Phase) : Except String (DSMHandler C) :=
  match dh.quitChan with
  | err :: _ => .error err
  | [] => if c ∈ dh.doneChan then .ok { dh with doneChan := dh.doneChan.erase c } else .error "blocked"

end DSMHandler

end DistributedNotary.Mecdsa
