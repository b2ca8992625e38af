import DistributedNotary.Mecdsa.Session

/-! What key generation establishes: all notaries store one public key, whose
private key is the constant term of the sum of the shared polynomials, and the
shares of any large enough signer set, weighted by their Lagrange coefficients,
add up to that private key. -/
namespace DistributedNotary.Mecdsa

open Library Share Feldman Proofs

namespace Committee

variable {C : Curve} (s : Committee C)

theorem cast_groupKey : (s.groupKey : ZMod C.N) = ∑ j ∈ Finset.range s.n, (s.uI j : ZMod C.N) := by
  rw [groupKey, cast_modSum, cast_privKeyZero, zero_add, List.map_map, ← List.sum_toFinset _ List.nodup_range,
    List.toFinset_range]
  rfl

theorem publicKey_eq {i : ℕ} (hi : i < s.n) : s.publicKey i = (s.groupKey : ZMod C.N) • C.G := by
  have hp := ((s.pubKeysRange i).perm ((List.range s.n).erase i)).map fun j => scalarBaseMult C (s.uI j)
  have hr := (List.perm_cons_erase (List.mem_range.mpr hi)).map fun j => scalarBaseMult C (s.uI j)
  have hs : (∑ j ∈ Finset.range s.n, (s.uI j : ZMod C.N)) • C.G =
      ((List.range s.n).map fun j => scalarBaseMult C (s.uI j)).sum := by
    rw [Finset.sum_smul, ← List.sum_toFinset _ List.nodup_range, List.toFinset_range]
    exact Finset.sum_congr rfl fun j _ => (scalarBaseMult_eq _).symm
  rw [publicKey, pointSum_eq, hp.sum_eq, cast_groupKey, hs, hr.sum_eq, List.map_cons, List.sum_cons]

/-- The polynomial that the dealers share together. -/
noncomputable def sumPolynomial : Polynomial (ZMod C.N) :=
  ∑ j ∈ Finset.range s.n, polynomial C.N (s.poly j)

theorem eval_zero_sumPolynomial : s.sumPolynomial.eval 0 = (s.groupKey : ZMod C.N) := by
  rw [sumPolynomial, Polynomial.eval_finsetSum, cast_groupKey]
  refine Finset.sum_congr rfl fun j _ => ?_
  have hlen := s.poly_length j
  rw [uI]
  cases hp : s.poly j with
  | nil => rw [hp] at hlen; simp at hlen
  | cons c cs => exact eval_zero_polynomial c cs

theorem degree_sumPolynomial_lt : s.sumPolynomial.degree < ((s.t + 1 : ℕ) : WithBot ℕ) := by
  refine lt_of_le_of_lt (Polynomial.degree_sum_le _ _) ((Finset.sup_lt_iff (WithBot.bot_lt_coe _)).mpr ?_)
  intro j _
  have hd := degree_polynomial_lt (N := C.N) (s.poly j)
  rwa [s.poly_length j] at hd

theorem cast_secretShare {i : ℕ} (hi : i < s.n) (j : ℕ) :
    (s.secretShare j i : ZMod C.N) = (polynomial C.N (s.poly j)).eval ((i+1 : ℕ) : ZMod C.N) := by
  have hne : s.poly j ≠ [] := fun h => by simpa [h] using s.poly_length j
  exact cast_share s.t hne hi

theorem cast_xi {i : ℕ} (hi : i < s.n) : (s.xi i : ZMod C.N) = s.sumPolynomial.eval ((i+1 : ℕ) : ZMod C.N) := by
  have hp := (((s.sharesRange i).perm (List.range s.n)).map fun j => s.secretShare j i).map
    fun c : ℕ => (c : ZMod C.N)
  rw [xi, cast_modSum, cast_privKeyZero, zero_add, hp.sum_eq, List.map_map,
    ← List.sum_toFinset _ List.nodup_range, List.toFinset_range, sumPolynomial, Polynomial.eval_finsetSum]
  exact Finset.sum_congr rfl fun j _ => s.cast_secretShare hi j

end Committee

namespace Session

variable {C : Curve} (s : Session C)

/-- The Lagrange coefficient of signer `i` as a residue. -/
noncomputable def lambda (i : ℕ) : ZMod C.N :=
  Interpolation.weight s.S.toFinset (fun i : ℕ => ((i+1 : ℕ) : ZMod C.N)) i

/-- The additive share `w_i` of the private key. -/
noncomputable def w (i : ℕ) : ZMod C.N := s.lambda i * s.xi i

theorem sum_w : ∑ i ∈ s.S.toFinset, s.w i = (s.groupKey : ZMod C.N) := by
  have hlt : ∀ i ∈ s.S.toFinset, i < s.n := fun i hi => s.S_lt i (List.mem_toFinset.mp hi)
  have hcard : s.S.toFinset.card = s.S.length := List.toFinset_card_of_nodup s.S_nodup
  have hdeg : s.sumPolynomial.degree < s.S.toFinset.card :=
    lt_of_lt_of_le s.degree_sumPolynomial_lt (by rw [hcard]; exact_mod_cast s.S_length)
  rw [← s.eval_zero_sumPolynomial,
    ← Interpolation.sum_weight_mul_eval _ _ (points_injOn s.n_lt s.S.toFinset hlt) _ hdeg]
  exact Finset.sum_congr rfl fun i hi => by rw [w, lambda, s.cast_xi (hlt i hi)]

end Session

end DistributedNotary.Mecdsa
