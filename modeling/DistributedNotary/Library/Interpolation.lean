import Mathlib.LinearAlgebra.Lagrange

/-! Interpolation at zero: a polynomial of degree below the number of nodes is
recovered at the origin as a combination of its values, with coefficients that
depend on the nodes only. -/
namespace DistributedNotary.Library.Interpolation

open Polynomial

variable {F ι : Type*} [Field F] [DecidableEq ι]

/-- The weight of node `i` among the nodes `s`. -/
noncomputable def weight (s : Finset ι) (v : ι → F) (i : ι) : F :=
  (∏ j ∈ s.erase i, v j) * (∏ j ∈ s.erase i, (v j - v i))⁻¹

theorem eval_basis_zero (s : Finset ι) (v : ι → F) (i : ι) :
    (Lagrange.basis s v i).eval 0 = weight s v i := by
  rw [Lagrange.basis, eval_prod, weight, ← Finset.prod_inv_distrib, ← Finset.prod_mul_distrib]
  refine Finset.prod_congr rfl fun j _ => ?_
  simp only [Lagrange.basisDivisor, eval_mul, eval_C, eval_sub, eval_X, zero_sub]
  rw [← neg_sub (v j) (v i), inv_neg]
  ring

theorem sum_weight_mul_eval (s : Finset ι) (v : ι → F) (hv : Set.InjOn v s) (p : F[X])
    (hp : p.degree < s.card) : ∑ i ∈ s, weight s v i * p.eval (v i) = p.eval 0 := by
  conv_rhs => rw [Lagrange.eq_interpolate hv hp, Lagrange.interpolate_apply, eval_finsetSum]
  refine Finset.sum_congr rfl fun i _ => ?_
  rw [eval_mul, eval_C, eval_basis_zero, mul_comm]

section Origin

variable {r : Finset ι} {v : ι → F} {x : F} {y : ι → F}

omit [DecidableEq ι] in
/-- The nodes, and the origin. -/
theorem injOn_insertNone (hv : Set.InjOn v r) (h0 : ∀ i ∈ r, v i ≠ 0) :
    Set.InjOn (fun o : Option ι => o.elim 0 v) (Finset.insertNone r : Finset (Option ι)) := by
  rintro (_ | i) hi (_ | j) hj hij
  · rfl
  · exact absurd hij.symm (h0 j (by simpa using hj))
  · exact absurd hij (h0 i (by simpa using hi))
  · exact congrArg some (hv (by simpa using hi) (by simpa using hj) hij)

/-- Some polynomial has the value `x` at the origin and goes through the nodes. -/
theorem exists_eval_zero_eq (hv : Set.InjOn v r) (h0 : ∀ i ∈ r, v i ≠ 0) (x : F) (y : ι → F) :
    ∃ p : F[X], p.degree < ((r.card + 1 : ℕ) : WithBot ℕ) ∧ p.eval 0 = x ∧ ∀ i ∈ r, p.eval (v i) = y i := by
  have hinj := injOn_insertNone hv h0
  refine ⟨Lagrange.interpolate (Finset.insertNone r) (fun o : Option ι => o.elim 0 v) (fun o => o.elim x y), ?_, ?_,
    fun i hi => ?_⟩
  · rw [← Finset.card_insertNone r]
    exact Lagrange.degree_interpolate_lt _ hinj
  · exact Lagrange.eval_interpolate_at_node (fun o : Option ι => o.elim x y) hinj (i := none) (by simp)
  · exact Lagrange.eval_interpolate_at_node (fun o : Option ι => o.elim x y) hinj (i := some i) (by simpa using hi)

omit [DecidableEq ι] in
theorem eq_of_eval_zero_eq (hv : Set.InjOn v r) (h0 : ∀ i ∈ r, v i ≠ 0) {p q : F[X]}
    (hp : p.degree < ((r.card + 1 : ℕ) : WithBot ℕ)) (hq : q.degree < ((r.card + 1 : ℕ) : WithBot ℕ))
    (hzero : p.eval 0 = q.eval 0) (hr : ∀ i ∈ r, p.eval (v i) = q.eval (v i)) : p = q := by
  have hcard : (Finset.insertNone r).card = r.card + 1 := Finset.card_insertNone r
  refine Polynomial.eq_of_degrees_lt_of_eval_index_eq (Finset.insertNone r) (injOn_insertNone hv h0)
    (by rwa [hcard]) (by rwa [hcard]) ?_
  rintro (_ | i) hi
  · exact hzero
  · exact hr i (by simpa using hi)

/-- A set of nodes whose weighted sum is `x` lies on a polynomial with the value `x` at the origin. -/
theorem exists_of_sum_weight_eq (hv : Set.InjOn v r) (h : ∑ i ∈ r, weight r v i * y i = x) :
    ∃ q : F[X], q.degree < (r.card : WithBot ℕ) ∧ q.eval 0 = x ∧ ∀ i ∈ r, q.eval (v i) = y i := by
  have hdeg := Lagrange.degree_interpolate_lt y hv
  have hy : ∀ i ∈ r, (Lagrange.interpolate r v y).eval (v i) = y i := fun i hi =>
    Lagrange.eval_interpolate_at_node y hv hi
  refine ⟨_, hdeg, ?_, hy⟩
  rw [← sum_weight_mul_eval r v hv _ hdeg, ← h]
  exact Finset.sum_congr rfl fun i hi => by rw [hy i hi]

/-- All sets of more than `t` nodes give the same value at the origin exactly when the values are those of one
polynomial of degree at most `t`. -/
theorem sum_weight_mul_eq_iff (s : Finset ι) (v : ι → F) (hv : Set.InjOn v s) (h0 : ∀ i ∈ s, v i ≠ 0) (y : ι → F)
    (t : ℕ) (x : F) :
    (∀ r ⊆ s, t < r.card → ∑ i ∈ r, weight r v i * y i = x) ↔
      ∃ p : F[X], p.degree < (t+1 : ℕ) ∧ p.eval 0 = x ∧ ∀ i ∈ s, p.eval (v i) = y i := by
  constructor
  · intro h
    -- The polynomial with value `x` at the origin that goes through `t` of the nodes, or through all of them.
    obtain ⟨r, hr, hcard⟩ := Finset.exists_subset_card_eq (s := s) (n := min t s.card) (min_le_right _ _)
    have hv0 : ∀ i ∈ r, v i ≠ 0 := fun i hi => h0 i (hr hi)
    obtain ⟨p, hdeg, hx, hy⟩ := exists_eval_zero_eq (hv.mono hr) hv0 x y
    refine ⟨p, lt_of_lt_of_le hdeg (by exact_mod_cast Nat.succ_le_succ (hcard ▸ min_le_left _ _)), hx, fun k hk => ?_⟩
    by_cases hkr : k ∈ r
    · exact hy k hkr
    -- Another node completes the `t` nodes to a set that gives `x` as well.
    have hrt : r.card = t := by
      rw [hcard, min_eq_left]
      by_contra hlt
      refine hkr (Finset.eq_of_subset_of_card_le hr ?_ ▸ hk)
      rw [hcard, min_eq_right (by omega)]
    have hsub : insert k r ⊆ s := Finset.insert_subset hk hr
    have hcardk : (insert k r).card = r.card + 1 := Finset.card_insert_of_notMem hkr
    obtain ⟨q, hqdeg, hqx, hqy⟩ := exists_of_sum_weight_eq (hv.mono hsub) (h _ hsub (by omega))
    rw [hcardk] at hqdeg
    have hpq : p = q := eq_of_eval_zero_eq (hv.mono hr) hv0 hdeg hqdeg (hx.trans hqx.symm) fun i hi =>
      (hy i hi).trans (hqy i (Finset.mem_insert_of_mem hi)).symm
    rw [hpq, hqy k (Finset.mem_insert_self k r)]
  · rintro ⟨p, hdeg, hx, hy⟩ r hr hcard
    rw [← hx, ← sum_weight_mul_eval r v (hv.mono hr) p (lt_of_lt_of_le hdeg (by exact_mod_cast hcard))]
    exact Finset.sum_congr rfl fun i hi => by rw [hy i (hr hi)]

end Origin

/-- The polynomial with the listed coefficients, constant term first. -/
noncomputable def ofCoefficients : List F → F[X]
  | [] => 0
  | c :: cs => C c + X * ofCoefficients cs

theorem eval_ofCoefficients_cons (c : F) (cs : List F) (x : F) :
    (ofCoefficients (c :: cs)).eval x = c + x * (ofCoefficients cs).eval x := by simp [ofCoefficients]

theorem degree_ofCoefficients_lt (cs : List F) : (ofCoefficients cs).degree < cs.length := by
  induction cs with
  | nil => simp [ofCoefficients]
  | cons c cs ih =>
    refine lt_of_le_of_lt (degree_add_le _ _) (max_lt ?_ ?_)
    · refine lt_of_le_of_lt degree_C_le ?_
      exact_mod_cast Nat.zero_lt_succ cs.length
    · rw [mul_comm, degree_mul_X, List.length_cons, Nat.cast_add, Nat.cast_one]
      exact WithBot.add_lt_add_right (by simp) ih

section Module

variable {M : Type*} [AddCommGroup M] [Module F M]

/-- The combination of the listed elements with the powers of `x`, constant term first. -/
def combination (x : F) (cs : List M) : M := cs.foldr (fun c sum => c + x • sum) 0

theorem combination_cons (x : F) (c : M) (cs : List M) : combination x (c :: cs) = c + x • combination x cs := rfl

/-- Multiples of one element are combined as the polynomial of their factors. -/
theorem combination_map_smul (x : F) (cs : List F) (g : M) :
    combination x (cs.map fun c => c • g) = (ofCoefficients cs).eval x • g := by
  induction cs with
  | nil => simp [combination, ofCoefficients]
  | cons c cs ih => rw [List.map_cons, combination_cons, ih, eval_ofCoefficients_cons, add_smul, smul_smul]

end Module

end DistributedNotary.Library.Interpolation
