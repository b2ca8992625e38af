import DistributedNotary.Library.Interpolation
import DistributedNotary.Mecdsa.Share

/-! Feldman secret sharing as in `curv/feldman`. A dealer shares a polynomial
given by its coefficients, constant term first; notary `i` holds its value at
`i+1`. `mapShareToNewParams` is the Lagrange coefficient of a notary inside a
signer set, and a panic of the source is an `Except.error`. -/
namespace DistributedNotary.Mecdsa.Feldman

open Library Share

structure VerifiableSS (C : Curve) where
  threshold : ℕ
  shareCount : ℕ
  commitments : List C.Point

/-- Horner evaluation at every index, from the last coefficient down. -/
def evaluatePolynomial (N : ℕ) (coefficients : List SPrivKey) (index : List ℕ) : List SPrivKey :=
  index.map fun i =>
    let point := bigInt2PrivateKey N i
    coefficients.dropLast.foldr (fun c sum => modAdd N (modMul N sum point) c) (coefficients.getLastD 0)

/-- `Share` with the polynomial that `SamplePolynomial` drew. -/
def share (C : Curve) (t n : ℕ) (poly : List SPrivKey) : VerifiableSS C × List SPrivKey :=
  ({ threshold := t, shareCount := n, commitments := poly.map (scalarBaseMult C) },
    evaluatePolynomial C.N poly ((List.range n).map (· + 1)))

namespace VerifiableSS

variable {C : Curve} (v : VerifiableSS C)

def reconstructLimit : ℕ := v.threshold + 1

/-- `points[i]`, the evaluation point `i+1` of notary `i`. -/
def point (i : ℕ) : Except String SPrivKey :=
  if i < v.shareCount then .ok (bigInt2PrivateKey C.N (i+1)) else .error "index out of range"

/-- The product of `term j` over the members `j ≠ index` of `s`, multiplied up in order. -/
def productExcept (index : ℕ) (term : SPrivKey → SPrivKey) (s : List ℕ) : Except String SPrivKey :=
  s.foldlM (fun acc j => do
    if j ≠ index then
      let p ← v.point j
      return modMul C.N acc (term p)
    else return acc) (bigInt2PrivateKey C.N 1)

def mapShareToNewParams (index : ℕ) (s : List ℕ) : Except String SPrivKey := do
  if s.length < v.reconstructLimit then throw "reconstructLimit"
  let xi ← v.point index
  let num ← v.productExcept index id s
  let denum ← v.productExcept index (fun xj => modSub C.N xj xi) s
  return modMul C.N num (invertN C.N denum)

end VerifiableSS

section Evaluation

variable {N : ℕ}

/-- The polynomial of a dealer over the residues. -/
noncomputable def polynomial (N : ℕ) [Fact N.Prime] (poly : List SPrivKey) : Polynomial (ZMod N) :=
  Interpolation.ofCoefficients (poly.map fun c : ℕ => (c : ZMod N))

variable [Fact N.Prime]

theorem cast_horner (poly : List SPrivKey) (hne : poly ≠ []) (x : SPrivKey) :
    ((poly.dropLast.foldr (fun c sum => modAdd N (modMul N sum x) c) (poly.getLastD 0) : ℕ) : ZMod N) =
      (polynomial N poly).eval (x : ZMod N) := by
  induction poly with
  | nil => exact absurd rfl hne
  | cons c cs ih =>
    cases cs with
    | nil => simp [polynomial, Interpolation.ofCoefficients]
    | cons d cs =>
      have h := ih (by simp)
      simp only [List.dropLast_cons_cons, List.foldr_cons, List.getLastD_cons] at h ⊢
      rw [cast_modAdd, cast_modMul, h, polynomial, polynomial, List.map_cons (a := c),
        Interpolation.eval_ofCoefficients_cons]
      ring

/-- The share of notary `i`. -/
theorem share_getElem? (C : Curve) (t n : ℕ) (poly : List SPrivKey) {i : ℕ} (hi : i < n) :
    (share C t n poly).2[i]? =
      some (poly.dropLast.foldr (fun c sum => modAdd C.N (modMul C.N sum (bigInt2PrivateKey C.N (i+1))) c)
        (poly.getLastD 0)) := by
  simp [share, evaluatePolynomial, hi]

theorem degree_polynomial_lt (poly : List SPrivKey) : (polynomial N poly).degree < poly.length := by
  have h := Interpolation.degree_ofCoefficients_lt (poly.map fun c : ℕ => (c : ZMod N))
  rwa [List.length_map] at h

theorem eval_zero_polynomial (c : SPrivKey) (cs : List SPrivKey) : (polynomial N (c :: cs)).eval 0 = (c : ZMod N) := by
  rw [polynomial, List.map_cons, Interpolation.eval_ofCoefficients_cons, zero_mul, add_zero]

end Evaluation

section Shares

variable {C : Curve} (t : ℕ) {n i : ℕ}

theorem cast_share {poly : List SPrivKey} (hne : poly ≠ []) (hi : i < n) :
    (((share C t n poly).2.getD i 0 : ℕ) : ZMod C.N) = (polynomial C.N poly).eval ((i+1 : ℕ) : ZMod C.N) := by
  rw [List.getD_eq_getElem?_getD, share_getElem? C t n poly hi, Option.getD_some, cast_horner _ hne,
    cast_bigInt2PrivateKey]

/-- A share is reduced when the coefficients are. -/
theorem share_lt {poly : List SPrivKey} (hpoly : ∀ c ∈ poly, c < C.N) (hi : i < n) :
    (share C t n poly).2.getD i 0 < C.N := by
  rw [List.getD_eq_getElem?_getD, share_getElem? C t n poly hi, Option.getD_some]
  cases poly with
  | nil => exact C.prime.pos
  | cons c cs =>
    cases cs with
    | nil => exact hpoly c (List.mem_singleton_self c)
    | cons d cs =>
      rw [List.dropLast_cons_cons, List.foldr_cons]
      exact modAdd_lt _ _

end Shares

section Lagrange

variable {C : Curve} {v : VerifiableSS C}

theorem productExcept_ok (index : ℕ) (term : SPrivKey → SPrivKey) (s : List ℕ)
    (hs : ∀ j ∈ s, j < v.shareCount) (f : ZMod C.N → ZMod C.N)
    (hf : ∀ p : SPrivKey, ((term p : ℕ) : ZMod C.N) = f p) :
    ∃ d, v.productExcept index term s = .ok d ∧
      (d : ZMod C.N) = ((s.filter (· ≠ index)).map fun j : ℕ => f ((j+1 : ℕ) : ZMod C.N)).prod := by
  suffices h : ∀ acc : SPrivKey, ∃ d, s.foldlM (fun acc j => do
      if j ≠ index then
        let p ← v.point j
        return modMul C.N acc (term p)
      else return acc) acc = Except.ok (ε := String) d ∧
      (d : ZMod C.N) = acc * ((s.filter (· ≠ index)).map fun j : ℕ => f ((j+1 : ℕ) : ZMod C.N)).prod by
    obtain ⟨d, h1, h2⟩ := h (bigInt2PrivateKey C.N 1)
    exact ⟨d, h1, by rw [h2, cast_bigInt2PrivateKey, Nat.cast_one, one_mul]⟩
  induction s with
  | nil => exact fun acc => ⟨acc, rfl, by simp⟩
  | cons j s ih =>
    intro acc
    have hs' : ∀ j ∈ s, j < v.shareCount := fun k hk => hs k (List.mem_cons_of_mem _ hk)
    by_cases hj : j = index
    · obtain ⟨d, h1, h2⟩ := ih hs' acc
      refine ⟨d, ?_, ?_⟩
      · rw [List.foldlM_cons, if_neg (not_not.mpr hj)]
        exact h1
      · rw [h2, List.filter_cons_of_neg (by simpa using hj)]
    · obtain ⟨d, h1, h2⟩ := ih hs' (modMul C.N acc (term (bigInt2PrivateKey C.N (j+1))))
      refine ⟨d, ?_, ?_⟩
      · rw [List.foldlM_cons, if_pos hj, VerifiableSS.point, if_pos (hs j (List.mem_cons_self ..))]
        exact h1
      · rw [h2, List.filter_cons_of_pos (by simpa using hj), List.map_cons, List.prod_cons, cast_modMul,
          hf, cast_bigInt2PrivateKey, mul_assoc]

/-- Distinct ids below the order stand for distinct evaluation points. -/
theorem points_injOn {n : ℕ} (hn : n < C.N) (S : Finset ℕ) (hS : ∀ i ∈ S, i < n) :
    Set.InjOn (fun i : ℕ => ((i+1 : ℕ) : ZMod C.N)) S := by
  intro i hi j hj h
  have hi' := hS i hi
  have hj' := hS j hj
  have h2 : i+1 = j+1 := eq_of_cast (by omega) (by omega) h
  omega

theorem filter_prod_eq {s : List ℕ} (hs : s.Nodup) (index : ℕ) (f : ℕ → ZMod C.N) :
    ((s.filter (· ≠ index)).map f).prod = ∏ j ∈ s.toFinset.erase index, f j := by
  rw [← List.prod_toFinset f (hs.filter _)]
  refine Finset.prod_congr ?_ fun _ _ => rfl
  ext j
  simp [and_comm]

/-- No two distinct points have the same abscissa, so the denominator of a coefficient is not zero. -/
theorem prod_sub_ne_zero {n : ℕ} (hn : n < C.N) (S : Finset ℕ) (hS : ∀ i ∈ S, i < n) {index : ℕ} (hi : index ∈ S) :
    ∏ j ∈ S.erase index, (((j+1 : ℕ) : ZMod C.N) - ((index+1 : ℕ) : ZMod C.N)) ≠ 0 := by
  rw [Finset.prod_ne_zero_iff]
  intro j hj hzero
  obtain ⟨hji, hjs⟩ := Finset.mem_erase.mp hj
  exact hji (points_injOn hn S hS hjs hi (sub_eq_zero.mp hzero))

/-- The coefficient of `index` in the signer set `s`. -/
theorem mapShareToNewParams_ok {s : List ℕ} (hnd : s.Nodup) (hs : ∀ j ∈ s, j < v.shareCount)
    (hcount : v.shareCount < C.N) (ht : v.threshold < s.length) {index : ℕ} (hi : index ∈ s) :
    ∃ d, v.mapShareToNewParams index s = .ok d ∧
      (d : ZMod C.N) = Interpolation.weight s.toFinset (fun i : ℕ => ((i+1 : ℕ) : ZMod C.N)) index := by
  obtain ⟨num, hnum, hnum'⟩ := productExcept_ok (v := v) index id s hs id fun _ => rfl
  obtain ⟨den, hden, hden'⟩ := productExcept_ok (v := v) index
    (fun xj => modSub C.N xj (bigInt2PrivateKey C.N (index+1))) s hs
    (fun z => z - ((index+1 : ℕ) : ZMod C.N)) fun p => by rw [cast_modSub, cast_bigInt2PrivateKey]
  have hne : (den : ZMod C.N) ≠ 0 := by
    rw [hden', filter_prod_eq hnd index fun j : ℕ => ((j+1 : ℕ) : ZMod C.N) - ((index+1 : ℕ) : ZMod C.N)]
    exact prod_sub_ne_zero hcount s.toFinset (fun i hi => hs i (List.mem_toFinset.mp hi)) (List.mem_toFinset.mpr hi)
  refine ⟨modMul C.N num (invertN C.N den), ?_, ?_⟩
  · have hlim : ¬ s.length < v.reconstructLimit := by
      rw [VerifiableSS.reconstructLimit]
      omega
    simp only [VerifiableSS.mapShareToNewParams, if_neg hlim, VerifiableSS.point, if_pos (hs index hi), hnum]
    simp only [bind, Except.bind, hden]
    rfl
  · rw [cast_modMul, cast_invertN hne, hnum', hden', Interpolation.weight]
    rw [filter_prod_eq hnd index fun j : ℕ => ((j+1 : ℕ) : ZMod C.N) - ((index+1 : ℕ) : ZMod C.N)]
    congr 1
    exact filter_prod_eq hnd index fun j : ℕ => ((j+1 : ℕ) : ZMod C.N)

end Lagrange

end DistributedNotary.Mecdsa.Feldman
