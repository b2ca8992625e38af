import Mathlib.Algebra.Module.LinearMap.Defs
import Mathlib.Algebra.Field.Defs
import Mathlib.Tactic.Module

/-! Sigma protocols for the preimage of a linear map. The first message is the
image `T` of a random vector, the response to a challenge `e` is the random
vector plus `e` times the witness, and it is accepted when its image is
`T + e•S` for the statement `S`. -/
namespace DistributedNotary.Library.Sigma

variable {F V M : Type*} [Field F] [AddCommGroup V] [Module F V] [AddCommGroup M] [Module F M] (φ : V →ₗ[F] M)

/-- The transcript `(T,e,z)` is accepted for the statement `S`. -/
def Accepts (S T : M) (e : F) (z : V) : Prop := φ z = T + e • S

/-- What two responses to one first message tell about the witness. -/
def extract (e e' : F) (z z' : V) : V := (e - e')⁻¹ • (z - z')

theorem Accepts.extract {S T : M} {e e' : F} {z z' : V} (h : Accepts φ S T e z) (h' : Accepts φ S T e' z')
    (hne : e ≠ e') : φ (extract e e' z z') = S := by
  have hdiff : φ (z - z') = (e - e') • S := by
    rw [map_sub, h, h']
    module
  rw [Sigma.extract, map_smul, hdiff, smul_smul, inv_mul_cancel₀ (sub_ne_zero.mpr hne), one_smul]

end DistributedNotary.Library.Sigma
