import DistributedNotary.Mecdsa.HonestNegotiation
import Mathlib.Algebra.Polynomial.Degree.SmallDegree

/-! The negotiation of a key with malicious dealers. Each notary compares what it
is sent with the commitments that come along with it, but not with what the others
were sent, so that the shares of all malicious dealers together can be those of no
polynomial of the right degree. Exactly then the honest notaries hold no common
secret. -/
namespace DistributedNotary.Mecdsa

open Library Share Feldman Proofs

variable {C : Curve}

namespace Negotiation

variable (s : Dealers C) (bad : Finset ℕ) (w : Negotiation C)

/-- The honest notaries hold shares `xi` of the secret `x`. -/
structure Shares (x : SPrivKey) (xi : ℕ → SPrivKey) : Prop where
  publicKey : ∀ i < s.n, i ∉ bad → (w.handler i).publicKey = some (scalarBaseMult C x)
  share : ∀ i < s.n, i ∉ bad → (w.handler i).xi = some (xi i)
  signers : ∀ v : VerifiableSS C, v.threshold = s.t → ∀ S : List ℕ, S.Nodup → (∀ i ∈ S, i < s.n ∧ i ∉ bad) →
    s.t < S.length → ∃ d, v.reconstruct S (S.map xi) = .ok d ∧ (d : ZMod C.N) = x

/-- There is one secret that belongs to the public key and to the shares of the honest notaries. -/
def Verifiable : Prop := ∃ x xi, Shares s bad w x xi

/-- The malicious notaries of the negotiation. -/
def dishonest : Finset ℕ := (Finset.range s.n).filter (· ∈ bad)

/-- What the malicious notaries send is, taken together, the sharing of one polynomial of degree at most `t`. -/
def Consistent (d : Dealing C) : Prop :=
  ∃ p : Polynomial (ZMod C.N), p.degree < ((s.t + 1 : ℕ) : WithBot ℕ) ∧ ∀ i < s.n, i ∉ bad →
    ∑ j ∈ dishonest s bad, (d.proof1 j i).PK = p.eval 0 • C.G ∧
      ∑ j ∈ dishonest s bad, ((d.message3 j i).secretShare : ZMod C.N) = p.eval ((i+1 : ℕ) : ZMod C.N)

variable {s bad w} {d : Dealing C} {i j : ℕ}

theorem honest_union (s : Dealers C) (bad : Finset ℕ) {M : Type} [AddCommMonoid M] (f : ℕ → M) :
    ∑ j ∈ Finset.range s.n, f j = ∑ j ∈ honest s bad, f j + ∑ j ∈ dishonest s bad, f j := by
  rw [add_comm]
  exact (Finset.sum_filter_add_sum_filter_not _ _ _).symm

/-- The key that was accepted from another notary. -/
theorem Sound.keyFrom_eq (h : Sound s bad d.offers w) (hi : i < s.n) (hgood : i ∉ bad) (hstage : 1 ≤ w.stage i)
    (hj : j < s.n) (hji : j ≠ i) : (w.handler i).keyFrom j = ((s.sends bad d).proof1 j i).PK := by
  rw [PKNHandler.keyFrom, h.lookup1 hi hgood hj hji (h.arrived1 hi hgood hstage hj hji)]
  rfl

/-- The share that was accepted from a notary. -/
theorem Sound.shareFrom_eq (h : Sound s bad d.offers w) (hi : i < s.n) (hgood : i ∉ bad) (hstage : 3 ≤ w.stage i)
    (hj : j < s.n) :
    ((w.handler i).shareFrom j : ZMod C.N) = (((s.sends bad d).message3 j i).secretShare : ZMod C.N) := by
  obtain ⟨m, hm, hexp, _⟩ := (h.held i hi hgood).accepted3 hstage hj
  rw [PKNHandler.shareFrom, hm, KeyGenMessage.phase3.inj (expected_iff.mp hexp)]
  exact cast_residue C.N _

/-- The public key is made of the keys of the honest notaries and of those that the others showed. -/
theorem Sound.publicKey_split (h : Sound s bad d.offers w) (hi : i < s.n) (hgood : i ∉ bad) (hstage : w.stage i = 3) :
    (w.handler i).publicKey = some ((s.sumPolynomial (honest s bad)).eval 0 • C.G +
      ∑ j ∈ dishonest s bad, (d.proof1 j i).PK) := by
  have hle : 1 ≤ w.stage i := by omega
  have hself : (s.ui i : ZMod C.N) • C.G = ((s.sends bad d).proof1 i i).PK := by
    rw [Dealers.sends_proof1, if_neg hgood]
    exact (scalarBaseMult_eq _).symm
  have hothers : ∑ j ∈ (Finset.range s.n).erase i, (w.handler i).keyFrom j =
      ∑ j ∈ (Finset.range s.n).erase i, ((s.sends bad d).proof1 j i).PK := Finset.sum_congr rfl fun j hj =>
    h.keyFrom_eq hi hgood hle (Finset.mem_range.mp (Finset.mem_of_mem_erase hj)) (Finset.ne_of_mem_erase hj)
  rw [(h.held i hi hgood).publicKey_eq hi hle, hothers, hself,
    Finset.add_sum_erase _ (fun j => ((s.sends bad d).proof1 j i).PK) (Finset.mem_range.mpr hi),
    honest_union s bad, s.eval_zero_sumPolynomial, Finset.sum_smul]
  congr 2
  · refine Finset.sum_congr rfl fun j hj => ?_
    rw [Dealers.sends_proof1, if_neg (mem_honest.mp hj).2]
    exact scalarBaseMult_eq _
  · refine Finset.sum_congr rfl fun j hj => ?_
    rw [Dealers.sends_proof1, if_pos (Finset.mem_filter.mp hj).2]

/-- The private share is made in the same way. -/
theorem Sound.xi_split (h : Sound s bad d.offers w) (hi : i < s.n) (hgood : i ∉ bad) (hstage : w.stage i = 3) :
    ∃ xi, (w.handler i).xi = some xi ∧ (xi : ZMod C.N) =
      (s.sumPolynomial (honest s bad)).eval ((i+1 : ℕ) : ZMod C.N) +
        ∑ j ∈ dishonest s bad, ((d.message3 j i).secretShare : ZMod C.N) := by
  obtain ⟨xi, hxi, hsum⟩ := (h.held i hi hgood).xi_eq hstage.ge
  refine ⟨xi, hxi, ?_⟩
  rw [hsum, honest_union s bad, s.eval_sumPolynomial _ hi]
  congr 1
  · refine Finset.sum_congr rfl fun j hj => ?_
    obtain ⟨hj, hgoodj⟩ := mem_honest.mp hj
    exact h.shareFrom_honest hi hgood hstage.ge hj hgoodj
  · refine Finset.sum_congr rfl fun j hj => ?_
    obtain ⟨hj, hbad⟩ := Finset.mem_filter.mp hj
    rw [h.shareFrom_eq hi hgood hstage.ge (Finset.mem_range.mp hj), Dealers.sends_message3, if_pos hbad]

/-- Reconstruction by all large enough sets of honest notaries, as the interpolation at the origin. -/
theorem reconstructs_iff (xi : ℕ → SPrivKey) (x : SPrivKey) :
    (∀ v : VerifiableSS C, v.threshold = s.t → ∀ S : List ℕ, S.Nodup → (∀ i ∈ S, i < s.n ∧ i ∉ bad) → s.t < S.length →
      ∃ d, v.reconstruct S (S.map xi) = .ok d ∧ (d : ZMod C.N) = x) ↔
      ∀ r ⊆ honest s bad, s.t < r.card →
        ∑ i ∈ r, Interpolation.weight r (fun i : ℕ => ((i+1 : ℕ) : ZMod C.N)) i * (xi i : ZMod C.N) = x := by
  constructor
  · intro h r hr hcard
    have hmem : ∀ i ∈ r.toList, i < s.n ∧ i ∉ bad := fun i hi => mem_honest.mp (hr (Finset.mem_toList.mp hi))
    have hlen : s.t < r.toList.length := by rwa [Finset.length_toList]
    obtain ⟨d, hd, hx⟩ := h ⟨s.t, s.n, []⟩ rfl r.toList r.nodup_toList hmem hlen
    obtain ⟨d', hd', hsum⟩ := reconstruct_ok (v := (⟨s.t, s.n, []⟩ : VerifiableSS C)) r.nodup_toList
      (fun i hi => (hmem i hi).1) s.n_lt hlen xi
    obtain rfl : d = d' := Except.ok.inj (hd.symm.trans hd')
    rw [← hx, hsum, Finset.toList_toFinset]
  · intro h v hv S hnd hS hlen
    obtain ⟨d, hd, hsum⟩ := reconstruct_ok (v := v) hnd (fun i hi => (hS i hi).1) s.n_lt (hv ▸ hlen) xi
    refine ⟨d, hd, hsum.trans (h S.toFinset (fun i hi => ?_) ?_)⟩
    · exact mem_honest.mpr (hS i (List.mem_toFinset.mp hi))
    · rwa [List.toFinset_card_of_nodup hnd]

/-- An interpolation point of a notary is not the origin. -/
theorem point_ne_zero (hi : i < s.n) : ((i+1 : ℕ) : ZMod C.N) ≠ 0 := by
  intro hzero
  have hdvd := (ZMod.natCast_eq_zero_iff (i+1) C.N).mp hzero
  exact Nat.not_dvd_of_pos_of_lt (Nat.succ_pos i) (lt_of_le_of_lt hi s.n_lt) hdvd

theorem signers_iff (xi : ℕ → SPrivKey) (x : SPrivKey) :
    (∀ v : VerifiableSS C, v.threshold = s.t → ∀ S : List ℕ, S.Nodup → (∀ i ∈ S, i < s.n ∧ i ∉ bad) → s.t < S.length →
      ∃ d, v.reconstruct S (S.map xi) = .ok d ∧ (d : ZMod C.N) = x) ↔
      ∃ p : Polynomial (ZMod C.N), p.degree < ((s.t + 1 : ℕ) : WithBot ℕ) ∧ p.eval 0 = x ∧
        ∀ i < s.n, i ∉ bad → p.eval ((i+1 : ℕ) : ZMod C.N) = xi i := by
  have hlt : ∀ i ∈ honest s bad, i < s.n := fun i hi => (mem_honest.mp hi).1
  rw [reconstructs_iff, Interpolation.sum_weight_mul_eq_iff (honest s bad) _ (points_injOn s.n_lt _ hlt)
    (fun i hi => point_ne_zero (hlt i hi))]
  simp only [mem_honest, and_imp]

/-- A common secret leaves a polynomial for what the malicious notaries sent. -/
theorem Verifiable.consistent (h : Sound s bad d.offers w) (hfin : Finished s bad w) (hv : Verifiable s bad w) :
    Consistent s bad d := by
  obtain ⟨x, xi, hx⟩ := hv
  obtain ⟨p, hdeg, hp0, hp⟩ := (signers_iff xi x).mp hx.signers
  refine ⟨p - s.sumPolynomial (honest s bad), ?_, fun i hi hgood => ⟨?_, ?_⟩⟩
  · exact lt_of_le_of_lt (Polynomial.degree_sub_le _ _) (max_lt hdeg (s.degree_sumPolynomial_lt _))
  · have hkey := (hx.publicKey i hi hgood).symm.trans (h.publicKey_split hi hgood (hfin i hi hgood))
    rw [scalarBaseMult_eq, Option.some.injEq] at hkey
    rw [Polynomial.eval_sub, hp0, sub_smul, hkey, add_sub_cancel_left]
  · obtain ⟨xi', hxi, hsum⟩ := h.xi_split hi hgood (hfin i hi hgood)
    rw [hx.share i hi hgood, Option.some.injEq] at hxi
    rw [Polynomial.eval_sub, hp i hi hgood, hxi, hsum, add_sub_cancel_left]

/-- With such a polynomial the secret is the value at the origin of the sum of all polynomials. -/
theorem Consistent.verifiable (h : Sound s bad d.offers w) (hfin : Finished s bad w) (hc : Consistent s bad d) :
    Verifiable s bad w := by
  obtain ⟨p, hdeg, hp⟩ := hc
  set q := s.sumPolynomial (honest s bad) + p with hq
  have hqdeg : q.degree < ((s.t + 1 : ℕ) : WithBot ℕ) :=
    lt_of_le_of_lt (Polynomial.degree_add_le _ _) (max_lt (s.degree_sumPolynomial_lt _) hdeg)
  have hcast : (((q.eval 0).val : ℕ) : ZMod C.N) = q.eval 0 := ZMod.natCast_zmod_val _
  refine ⟨(q.eval 0).val, fun i => (w.handler i).xi.getD 0, fun i hi hgood => ?_, fun i hi hgood => ?_, ?_⟩
  · rw [h.publicKey_split hi hgood (hfin i hi hgood), (hp i hi hgood).1, ← add_smul, ← Polynomial.eval_add,
      scalarBaseMult_eq, hcast]
  · obtain ⟨xi, hxi, _⟩ := h.xi_split hi hgood (hfin i hi hgood)
    rw [hxi, Option.getD_some]
  · refine (signers_iff _ _).mpr ⟨q, hqdeg, hcast.symm, fun i hi hgood => ?_⟩
    obtain ⟨xi, hxi, hsum⟩ := h.xi_split hi hgood (hfin i hi hgood)
    rw [hxi, Option.getD_some, hsum, (hp i hi hgood).2, hq, Polynomial.eval_add]

/-- Every negotiation in which every check has accepted leaves a common secret. -/
def AlwaysVerifiable (s : Dealers C) (bad : Finset ℕ) (d : Dealing C) : Prop :=
  ∀ w, Reached s bad d.offers w → Finished s bad w → Verifiable s bad w

/-- After a negotiation in which every check has accepted, the honest notaries share one secret exactly when the
malicious ones, taken together, have shared a polynomial of degree at most `t`. -/
theorem verifiable_iff (h : Reached s bad d.offers w) (hfin : Finished s bad w) :
    Verifiable s bad w ↔ Consistent s bad d :=
  ⟨Verifiable.consistent h.sound hfin, Consistent.verifiable h.sound hfin⟩

end Negotiation

/-! ### What the checks achieve -/

section Commitments

variable {s : Dealers C} {bad : Finset ℕ} {d : Dealing C} {i j : ℕ}

/-- A share that passes is the value of the polynomial that was committed to, up to its sign. -/
theorem Dealing.Passes.share_eq (h : d.Passes j i) (hi : i+1 < C.N) {coefs : List (ZMod C.N)}
    (hcs : (d.message3 j i).vss.commitments = coefs.map fun c => c • C.G) :
    ((d.message3 j i).secretShare.natAbs : ZMod C.N) =
      (Interpolation.ofCoefficients coefs).eval ((i+1 : ℕ) : ZMod C.N) := by
  have hne : (d.message3 j i).vss.commitments ≠ [] := fun hnil => by
    have hkey := h.key
    rw [hnil] at hkey
    cases hkey
  have hvalid := h.valid
  rw [validateShare_eq hne (Nat.succ_pos i) hi, hcs, Interpolation.combination_map_smul] at hvalid
  split_ifs at hvalid with hzero
  exact Curve.smul_G_injective (of_decide_eq_true (Except.ok.inj hvalid))

theorem Dealing.Passes.key_eq (h : d.Passes j i) {coefs : List (ZMod C.N)}
    (hcs : (d.message3 j i).vss.commitments = coefs.map fun c => c • C.G) :
    (d.proof1 j i).PK = (Interpolation.ofCoefficients coefs).eval 0 • C.G := by
  have hkey := h.key
  rw [hcs] at hkey
  cases coefs with
  | nil => cases hkey
  | cons c cs =>
    rw [Interpolation.eval_ofCoefficients_cons, zero_mul, add_zero]
    exact (Option.some.inj hkey).symm

/-- Dealers that show all notaries the same commitments, no more than the threshold allows, share a polynomial. -/
theorem Negotiation.Consistent.of_commitments (hG : ∀ P : C.Point, ∃ k : ZMod C.N, k • C.G = P)
    (hpass : s.AllPass bad d) (commitments : ℕ → List C.Point) (hlen : ∀ j, (commitments j).length ≤ s.t + 1)
    (hsame : ∀ j ∈ dishonest s bad, ∀ i < s.n, i ∉ bad →
      (d.message3 j i).vss.commitments = commitments j ∧ 0 ≤ (d.message3 j i).secretShare) :
    Negotiation.Consistent s bad d := by
  choose dlog hdlog using hG
  have hcs : ∀ j, commitments j = ((commitments j).map dlog).map fun c => c • C.G := fun j => by
    rw [List.map_map]
    exact (List.map_id _).symm.trans (List.map_congr_left fun P _ => (hdlog P).symm)
  have hpassj : ∀ i < s.n, i ∉ bad → ∀ j ∈ dishonest s bad, d.Passes j i := by
    intro i hi hgood j hj
    obtain ⟨hjn, hbad⟩ := Finset.mem_filter.mp hj
    exact (Dealers.sends_passes_of_mem hbad).mp
      (hpass i hi hgood j (Finset.mem_range.mp hjn) fun hji => hgood (hji ▸ hbad)).1
  refine ⟨∑ j ∈ dishonest s bad, Interpolation.ofCoefficients ((commitments j).map dlog), ?_,
    fun i hi hgood => ⟨?_, ?_⟩⟩
  · refine lt_of_le_of_lt (Polynomial.degree_sum_le _ _) ((Finset.sup_lt_iff (WithBot.bot_lt_coe _)).mpr fun j _ => ?_)
    refine lt_of_lt_of_le (Interpolation.degree_ofCoefficients_lt _) ?_
    rw [List.length_map]
    exact_mod_cast hlen j
  · rw [Polynomial.eval_finsetSum, Finset.sum_smul]
    refine Finset.sum_congr rfl fun j hj => ?_
    exact (hpassj i hi hgood j hj).key_eq ((hsame j hj i hi hgood).1.trans (hcs j))
  · rw [Polynomial.eval_finsetSum]
    refine Finset.sum_congr rfl fun j hj => ?_
    obtain ⟨hcommit, hpos⟩ := hsame j hj i hi hgood
    have hshare := (hpassj i hi hgood j hj).share_eq (lt_of_le_of_lt hi s.n_lt) (hcommit.trans (hcs j))
    rw [← hshare, ← Int.cast_natCast, Int.natAbs_of_nonneg hpos]

end Commitments

section Example

/-- The third notary shows the first the commitments of `3+x`, and the second those of `3+3x`. -/
def splitDealing5 : Dealing curve5 where
  proof1 j _ := (dealers5 (curve5Key 1 one_fits)).message1 j
  message2 j _ := (dealers5 (curve5Key 1 one_fits)).message2 j
  message3 j i := (dealers5 (if i = 0 then curve5Key 1 one_fits else curve5Key 3 three_fits)).message3 j i

theorem splitDealing5_allPass : (dealers5 (curve5Key 1)).AllPass {2} splitDealing5 := by
  intro i hi hgood j hj hji
  have hi2 : i < 2 := by
    have hne : i ≠ 2 := fun h => hgood (Finset.mem_singleton.mpr h)
    have hn : i < 3 := hi
    omega
  by_cases hbad : j ∈ ({2} : Finset ℕ)
  · obtain rfl : j = 2 := Finset.mem_singleton.mp hbad
    have hproof : ∀ i < 2, ((dealers5 (if i = 0 then curve5Key 1 else curve5Key 3)).message1 2).challenge ≠ 0 ∧
        ((dealers5 (if i = 0 then curve5Key 1 else curve5Key 3)).message1 2).challengeResponse ≠ 0 := by decide +kernel
    have hshare : ∀ i < 2, (dealers5 (if i = 0 then curve5Key 1 else curve5Key 3)).dealt 2 i ≠ 0 := by decide +kernel
    have hpass := Dealers.passes (s := dealers5 (if i = 0 then curve5Key 1 else curve5Key 3)) hi (hproof i hi2)
      (hshare i hi2)
    exact ⟨(Dealers.sends_passes_of_mem hbad).mpr (hpass.congr rfl rfl rfl), fun h => absurd h (by decide)⟩
  · have hproof : ∀ j < 3, ((dealers5 (curve5Key 1)).message1 j).challenge ≠ 0 ∧
        ((dealers5 (curve5Key 1)).message1 j).challengeResponse ≠ 0 := by decide +kernel
    have hshare : ∀ i < 3, ∀ j < 3, j ≠ 2 → (dealers5 (curve5Key 1)).dealt j i ≠ 0 := by decide +kernel
    exact ⟨Dealers.sends_passes_of_notMem hbad (Dealers.passes hi (hproof j hj)
      (hshare i hi j hj fun h => hbad (Finset.mem_singleton.mpr h))), fun _ => Dealers.sends_opens_of_notMem hbad i⟩

/-- No polynomial of degree one has the values 3, 4 and 2 at 0, 1 and 2. -/
theorem splitDealing5_not_consistent : ¬ Negotiation.Consistent (dealers5 (curve5Key 1)) {2} splitDealing5 := by
  rintro ⟨p, hdeg, hp⟩
  have hset : Negotiation.dishonest (dealers5 (curve5Key 1)) {2} = {2} := by decide
  obtain ⟨hkey, hshare0⟩ := hp 0 (by decide) (by decide)
  obtain ⟨_, hshare1⟩ := hp 1 (by decide) (by decide)
  rw [hset, Finset.sum_singleton] at hkey hshare0 hshare1
  have h0 : ((3 : ℕ) : ZMod curve5.N) = p.eval 0 := Curve.smul_G_injective ((scalarBaseMult_eq 3).symm.trans hkey)
  have h1 : ((splitDealing5.message3 2 0).secretShare : ZMod curve5.N) = (4 : ℕ) := by decide +kernel
  have h2 : ((splitDealing5.message3 2 1).secretShare : ZMod curve5.N) = (2 : ℕ) := by decide +kernel
  rw [h1] at hshare0
  rw [h2] at hshare1
  obtain ⟨a, b, hab⟩ := Polynomial.exists_eq_X_add_C_of_natDegree_le_one (p := p)
    (Polynomial.natDegree_le_of_degree_le (Order.le_of_lt_succ hdeg))
  rw [hab] at h0 hshare0 hshare1
  simp only [Polynomial.eval_add, Polynomial.eval_mul, Polynomial.eval_C, Polynomial.eval_X] at h0 hshare0 hshare1
  have hno : ∀ a b : ZMod 7, (3 : ℕ) = a * 0 + b → (4 : ℕ) = a * (0+1 : ℕ) + b →
      (2 : ℕ) ≠ a * (1+1 : ℕ) + b := by decide
  exact hno a b h0 hshare0 hshare1

theorem not_alwaysVerifiable_splitDealing5 :
    ¬ Negotiation.AlwaysVerifiable (dealers5 (curve5Key 1)) {2} splitDealing5 := by
  intro h
  obtain ⟨w, _, hreach, hfin⟩ := Negotiation.Reached.completes (.init rfl) splitDealing5_allPass (by decide)
  exact splitDealing5_not_consistent ((h w hreach hfin).consistent (Negotiation.Reached.sound hreach) hfin)

theorem verifiable_iff_splitDealing5 : ∃ w,
    Negotiation.Reached (dealers5 (curve5Key 1)) {2} splitDealing5.offers w ∧
      Negotiation.Finished (dealers5 (curve5Key 1)) {2} w ∧
        (Negotiation.Verifiable (dealers5 (curve5Key 1)) {2} w ↔
          Negotiation.Consistent (dealers5 (curve5Key 1)) {2} splitDealing5) := by
  obtain ⟨w, _, hreach, hfin⟩ := Negotiation.Reached.completes (.init rfl) splitDealing5_allPass (by decide)
  exact ⟨w, hreach, hfin, Negotiation.verifiable_iff hreach hfin⟩

end Example

end DistributedNotary.Mecdsa
