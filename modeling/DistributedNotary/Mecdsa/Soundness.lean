import DistributedNotary.Library.Sigma
import DistributedNotary.Mecdsa.EndToEnd

/-! Both proofs are sigma protocols for a linear map on scalars: multiples of
the base point for the discrete logarithm, and `(x,r) ↦ (xH+rY, rG)` for the
ciphertext. Each verifier compares what it has computed for the challenge it
has hashed; two transcripts that pass the same comparison for one first message
and different challenges give a witness away. -/
namespace DistributedNotary.Mecdsa.Proofs

open Library Share

variable {C : Curve}

/-- The comparison at the end of `Verify`, for any challenge. -/
def DLogProof.accepts (proof : DLogProof C) (challengeSK : SPrivKey) : Bool :=
  C.eqGE (pointAdd (scalarBaseMult C proof.challengeResponse) (scalarMult proof.PK challengeSK))
    proof.pkTRandCommitment

/-- The comparisons at the end of `Verify`, for any challenge. -/
def HomoELGamalProof.accepts (proof : HomoELGamalProof C) (delta : HomoElGamalStatement C) (e : SPrivKey) : Bool :=
  C.eqGE (pointAdd (scalarMult delta.H proof.Z1) (scalarMult delta.Y proof.Z2))
      (pointAdd (scalarMult delta.D e) proof.T) &&
    C.eqGE (scalarMult delta.G proof.Z2) (pointAdd (scalarMult delta.E e) proof.A3)

theorem verify_eq_accepts (proof : DLogProof C) :
    verify proof = proof.accepts (dlogChallenge proof.pkTRandCommitment proof.PK) := rfl

theorem HomoELGamalProof.verify_eq_accepts (proof : HomoELGamalProof C) (delta : HomoElGamalStatement C) :
    proof.verify delta = proof.accepts delta (elGamalChallenge proof.T proof.A3 delta) := rfl

section Extraction

/-- `(a-b)/(e-e')` modulo the order of the curve. -/
def quotient (N : ℕ) (a b e e' : SPrivKey) : SPrivKey := modMul N (invertN N (modSub N e e')) (modSub N a b)

theorem cast_quotient {N : ℕ} [Fact N.Prime] {a b e e' : SPrivKey} (hne : (e : ZMod N) ≠ e') :
    (quotient N a b e e' : ZMod N) = ((e : ZMod N) - e')⁻¹ * (a - b) := by
  have hsub : (modSub N e e' : ZMod N) ≠ 0 := by
    rw [cast_modSub]
    exact sub_ne_zero.mpr hne
  rw [quotient, cast_modMul, cast_invertN hsub, cast_modSub, cast_modSub]

/-- The discrete logarithm of `PK`; the response subtracts the challenge, so that the two change places. -/
def DLogProof.extract (proof proof' : DLogProof C) (e e' : SPrivKey) : SPrivKey :=
  quotient C.N proof.challengeResponse proof'.challengeResponse e' e

def HomoELGamalProof.extract (proof proof' : HomoELGamalProof C) (e e' : SPrivKey) : HomoElGamalWitness where
  r := quotient C.N proof.Z2 proof'.Z2 e e'
  x := quotient C.N proof.Z1 proof'.Z1 e e'

/-- The map whose preimages are asked for in a proof of a discrete logarithm. -/
def dlogMap (C : Curve) : ZMod C.N →ₗ[ZMod C.N] C.Point := LinearMap.toSpanSingleton (ZMod C.N) C.Point C.G

/-- `(x,r) ↦ (xH+rY, rG)`. -/
def elGamalMap (delta : HomoElGamalStatement C) : ZMod C.N × ZMod C.N →ₗ[ZMod C.N] C.Point × C.Point :=
  (((LinearMap.toSpanSingleton (ZMod C.N) C.Point delta.H).comp (LinearMap.fst _ _ _)) +
    ((LinearMap.toSpanSingleton (ZMod C.N) C.Point delta.Y).comp (LinearMap.snd _ _ _))).prod
  ((LinearMap.toSpanSingleton (ZMod C.N) C.Point delta.G).comp (LinearMap.snd _ _ _))

theorem dlogMap_apply (sk : ZMod C.N) : dlogMap C sk = sk • C.G := rfl

theorem elGamalMap_apply (delta : HomoElGamalStatement C) (x r : ZMod C.N) :
    elGamalMap delta (x, r) = (x • delta.H + r • delta.Y, r • delta.G) := rfl

theorem DLogProof.accepts_iff (proof : DLogProof C) (e : SPrivKey) : proof.accepts e = true ↔
    Sigma.Accepts (dlogMap C) proof.PK proof.pkTRandCommitment (-(e : ZMod C.N))
    (proof.challengeResponse : ZMod C.N) := by
  rw [DLogProof.accepts, Curve.eqGE_iff, pointAdd, scalarBaseMult_eq, scalarMult_eq, Sigma.Accepts, dlogMap_apply,
    neg_smul, ← sub_eq_add_neg, eq_sub_iff_add_eq]

theorem HomoELGamalProof.accepts_iff (proof : HomoELGamalProof C) (delta : HomoElGamalStatement C) (e : SPrivKey) :
    proof.accepts delta e = true ↔ Sigma.Accepts (elGamalMap delta) (delta.D, delta.E) (proof.T, proof.A3)
      (e : ZMod C.N) ((proof.Z1 : ZMod C.N), (proof.Z2 : ZMod C.N)) := by
  rw [HomoELGamalProof.accepts, Bool.and_eq_true, Curve.eqGE_iff, Curve.eqGE_iff, Sigma.Accepts, elGamalMap_apply]
  simp only [pointAdd, scalarMult_eq, Prod.smul_mk, Prod.mk_add_mk, Prod.mk.injEq, add_comm]

theorem HomoElGamalWitness.opens_iff (w : HomoElGamalWitness) (delta : HomoElGamalStatement C) :
    w.Opens delta ↔ elGamalMap delta ((w.x : ZMod C.N), (w.r : ZMod C.N)) = (delta.D, delta.E) := by
  rw [elGamalMap_apply, Prod.mk.injEq]
  exact ⟨fun h => ⟨h.D.symm, h.E.symm⟩, fun h => ⟨h.1.symm, h.2.symm⟩⟩

theorem DLogProof.extract_spec {proof proof' : DLogProof C} {e e' : SPrivKey} (hPK : proof'.PK = proof.PK)
    (hfirst : proof'.pkTRandCommitment = proof.pkTRandCommitment) (hne : (e : ZMod C.N) ≠ e')
    (h : proof.accepts e = true) (h' : proof'.accepts e' = true) :
    scalarBaseMult C (proof.extract proof' e e') = proof.PK := by
  have ha := (proof.accepts_iff e).mp h
  have ha' := (proof'.accepts_iff e').mp h'
  rw [hPK, hfirst] at ha'
  have hspec := ha.extract _ ha' (neg_injective.ne hne)
  rw [Sigma.extract, dlogMap_apply, smul_eq_mul, neg_sub_neg] at hspec
  rw [scalarBaseMult_eq, DLogProof.extract, cast_quotient hne.symm]
  exact hspec

theorem HomoELGamalProof.extract_spec {proof proof' : HomoELGamalProof C} {delta : HomoElGamalStatement C}
    {e e' : SPrivKey} (hT : proof'.T = proof.T) (hA3 : proof'.A3 = proof.A3) (hne : (e : ZMod C.N) ≠ e')
    (h : proof.accepts delta e = true) (h' : proof'.accepts delta e' = true) :
    (proof.extract proof' e e').Opens delta := by
  have ha := (proof.accepts_iff delta e).mp h
  have ha' := (proof'.accepts_iff delta e').mp h'
  rw [hT, hA3] at ha'
  have hspec := ha.extract _ ha' hne
  rw [HomoElGamalWitness.opens_iff, HomoELGamalProof.extract, cast_quotient hne, cast_quotient hne]
  exact hspec

end Extraction

/-- Both proofs are complete for every witness and every random scalar, and specially sound. -/
theorem complete_and_sound (C : Curve) :
    (∀ sk r : SPrivKey, (prove sk r : DLogProof C).PK = scalarBaseMult C sk ∧
      verify (prove sk r : DLogProof C) = true) ∧
    (∀ (w : HomoElGamalWitness) (delta : HomoElGamalStatement C) (s1 s2 : SPrivKey), w.Opens delta →
      (createHomoELGamalProof w delta s1 s2).verify delta = true) ∧
    (∀ (proof proof' : DLogProof C) (e e' : SPrivKey), proof'.PK = proof.PK →
      proof'.pkTRandCommitment = proof.pkTRandCommitment → ¬ e ≡ e' [MOD C.N] →
      proof.accepts e = true → proof'.accepts e' = true →
      scalarBaseMult C (proof.extract proof' e e') = proof.PK) ∧
    (∀ (proof proof' : HomoELGamalProof C) (delta : HomoElGamalStatement C) (e e' : SPrivKey), proof'.T = proof.T →
      proof'.A3 = proof.A3 → ¬ e ≡ e' [MOD C.N] →
      proof.accepts delta e = true → proof'.accepts delta e' = true →
      (proof.extract proof' e e').Opens delta) := by
  have hcast : ∀ {e e' : SPrivKey}, ¬ e ≡ e' [MOD C.N] → (e : ZMod C.N) ≠ e' := fun h heq =>
    h ((ZMod.natCast_eq_natCast_iff _ _ _).mp heq)
  refine ⟨fun sk r => ⟨rfl, verify_prove sk r⟩, fun w delta s1 s2 hw => verify_createHomoELGamalProof hw s1 s2, ?_, ?_⟩
  · intro proof proof' e e' hPK hfirst hne h h'
    exact DLogProof.extract_spec hPK hfirst (hcast hne) h h'
  · intro proof proof' delta e e' hT hA3 hne h h'
    exact HomoELGamalProof.extract_spec hT hA3 (hcast hne) h h'

/-- The point `3G` with the commitment `2G`. -/
def threeG (challengeResponse : SPrivKey) : DLogProof curve5 :=
  { PK := (3 : ZMod 7), pkTRandCommitment := (2 : ZMod 7), challengeResponse := challengeResponse }

/-- `D = H+2Y` and `E = 2G` for the points `H = 2G` and `Y = 3G`. -/
def statement12 : HomoElGamalStatement curve5 :=
  { G := (1 : ZMod 7), H := (2 : ZMod 7), Y := (3 : ZMod 7), D := (1 : ZMod 7), E := (2 : ZMod 7) }

def transcript11 (Z1 Z2 : SPrivKey) : HomoELGamalProof curve5 :=
  { T := (2 + 3 : ZMod 7), A3 := (1 : ZMod 7), Z1 := Z1, Z2 := Z2 }

/-- Responses to the challenges 1 and 4, and to 1 and 3. -/
theorem extract_curve5 :
    scalarBaseMult curve5 ((threeG 6).extract (threeG 4) 1 4) = (threeG 6).PK ∧
      ((transcript11 2 3).extract (transcript11 4 0) 1 3).Opens statement12 := by
  have h := complete_and_sound curve5
  exact ⟨h.2.2.1 (threeG 6) (threeG 4) 1 4 rfl rfl (by decide) (by decide) (by decide),
    h.2.2.2 (transcript11 2 3) (transcript11 4 0) statement12 1 3 rfl rfl (by decide) (by decide) (by decide)⟩

end DistributedNotary.Mecdsa.Proofs
