import DistributedNotary.Library.Sha256
import DistributedNotary.Mecdsa.Share

/-! Hash commitments and the two sigma protocols of `curv/proofs`, with the
random scalars of the prover as arguments. Both verifiers accept what the
provers produce. -/
namespace DistributedNotary.Mecdsa.Proofs

open Library Share

variable {C : Curve}

/-- `utils.Sha256` of the concatenated byte strings, read by `SetBytes`. -/
def sha256 (parts : List (List ℕ)) : ℕ := Sha256.digest parts.flatten

def createCommitmentWithUserDefinedRandomNess (message blindingFactor : ℕ) : ℕ :=
  sha256 [Sha256.bytes message, Sha256.bytes blindingFactor]

def createHashFromGE (ge : List C.Point) : SPrivKey :=
  bigInt2PrivateKey C.N (sha256 (ge.flatMap fun g => [[4], Sha256.bytes (C.X g), Sha256.bytes (C.Y g)]))

structure DLogProof (C : Curve) where
  PK : C.Point
  pkTRandCommitment : C.Point
  challengeResponse : SPrivKey

def dlogChallenge (randCommitment pk : C.Point) : SPrivKey :=
  bigInt2PrivateKey C.N
    (sha256 [Sha256.bytes (C.X randCommitment), Sha256.bytes (C.X C.G), Sha256.bytes (C.X pk)])

/-- `Prove` with the random scalar it draws. -/
def prove (sk skTRandCommitment : SPrivKey) : DLogProof C :=
  let randCommitment := scalarBaseMult C skTRandCommitment
  let pk := scalarBaseMult C sk
  let challengeSK := modMul C.N (dlogChallenge randCommitment pk) sk
  { PK := pk, pkTRandCommitment := randCommitment
    challengeResponse := modSub C.N skTRandCommitment challengeSK }

def verify (proof : DLogProof C) : Bool :=
  let pkChallenge := scalarMult proof.PK (dlogChallenge proof.pkTRandCommitment proof.PK)
  let pkVerifier := pointAdd (scalarBaseMult C proof.challengeResponse) pkChallenge
  C.eqGE pkVerifier proof.pkTRandCommitment

theorem verify_prove (sk r : SPrivKey) : verify (prove sk r : DLogProof C) = true := by
  rw [verify, Curve.eqGE_iff]
  simp only [prove, pointAdd, scalarBaseMult_eq, scalarMult_eq, cast_modSub, cast_modMul]
  module

structure HomoELGamalProof (C : Curve) where
  T : C.Point
  A3 : C.Point
  Z1 : SPrivKey
  Z2 : SPrivKey

structure HomoElGamalWitness where
  r : SPrivKey
  x : SPrivKey

structure HomoElGamalStatement (C : Curve) where
  G : C.Point
  H : C.Point
  Y : C.Point
  D : C.Point
  E : C.Point

def elGamalChallenge (T A3 : C.Point) (delta : HomoElGamalStatement C) : SPrivKey :=
  createHashFromGE [T, A3, delta.G, delta.H, delta.Y, delta.D, delta.E]

/-- `CreateHomoELGamalProof` with the two random scalars it draws. -/
def createHomoELGamalProof (w : HomoElGamalWitness) (delta : HomoElGamalStatement C)
    (s1 s2 : SPrivKey) : HomoELGamalProof C :=
  let A1 := scalarMult delta.H s1
  let A2 := scalarMult delta.Y s2
  let A3 := scalarMult delta.G s2
  let T := pointAdd A1 A2
  let e := elGamalChallenge T A3 delta
  let z1 := if w.x ≠ 0 then modAdd C.N s1 (modMul C.N e w.x) else s1
  let z2 := modAdd C.N s2 (modMul C.N e w.r)
  { T := T, A3 := A3, Z1 := z1, Z2 := z2 }

def HomoELGamalProof.verify (proof : HomoELGamalProof C) (delta : HomoElGamalStatement C) : Bool :=
  let e := elGamalChallenge proof.T proof.A3 delta
  let z12 := pointAdd (scalarMult delta.H proof.Z1) (scalarMult delta.Y proof.Z2)
  let ted := pointAdd (scalarMult delta.D e) proof.T
  let z2g := scalarMult delta.G proof.Z2
  let a3ee := pointAdd (scalarMult delta.E e) proof.A3
  C.eqGE z12 ted && C.eqGE z2g a3ee

/-- The relation the proof is about: `D = xH+rY` and `E = rG`. -/
structure HomoElGamalWitness.Opens (w : HomoElGamalWitness) (delta : HomoElGamalStatement C) : Prop where
  D : delta.D = (w.x : ZMod C.N) • delta.H + (w.r : ZMod C.N) • delta.Y
  E : delta.E = (w.r : ZMod C.N) • delta.G

theorem verify_createHomoELGamalProof {w : HomoElGamalWitness} {delta : HomoElGamalStatement C}
    (hw : w.Opens delta) (s1 s2 : SPrivKey) :
    (createHomoELGamalProof w delta s1 s2).verify delta = true := by
  have hz1 : ∀ e : SPrivKey, ((if w.x ≠ 0 then modAdd C.N s1 (modMul C.N e w.x) else s1 : ℕ) : ZMod C.N) =
      s1 + e * w.x := by
    intro e
    by_cases hx : w.x = 0
    · rw [if_neg (not_not.mpr hx), hx, Nat.cast_zero, mul_zero, add_zero]
    · rw [if_pos hx, cast_modAdd, cast_modMul]
  rw [HomoELGamalProof.verify, Bool.and_eq_true, Curve.eqGE_iff, Curve.eqGE_iff]
  simp only [createHomoELGamalProof, pointAdd, scalarMult_eq, hz1, cast_modAdd, cast_modMul]
  set e := elGamalChallenge _ _ delta
  rw [hw.D, hw.E]
  exact ⟨by module, by module⟩

end DistributedNotary.Mecdsa.Proofs
