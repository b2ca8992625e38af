import DistributedNotary.Mecdsa.Negotiation

/-! What a notary makes of the messages it has accepted: its public key is the sum
of the keys it got in the first phase, and its private share the sum of the shares
it got in the third. What it got from an honest notary is known. -/
namespace DistributedNotary.Mecdsa

open Library Share Feldman Proofs

namespace PKNHandler

variable {C : Curve} (ph : PKNHandler C) (j : ℕ)

/-- The key that `j` has sent in the first phase. -/
def keyFrom : C.Point := ((ph.pubKeysProof1.lookup j).map DLogProof.PK).getD 0

/-- What is added for the share that `j` has sent. -/
def shareFrom : SPrivKey :=
  ((ph.secretShareMessage3.lookup j).map fun m => residue C.N m.secretShare).getD 0

end PKNHandler

theorem cast_residue (N : ℕ) [NeZero N] (d : ℤ) : ((residue N d : ℕ) : ZMod N) = (d : ZMod N) := by
  have hpos : (0 : ℤ) ≤ d % N := Int.emod_nonneg d (by exact_mod_cast NeZero.ne N)
  rw [residue, ← Int.cast_natCast (R := ZMod N), Int.toNat_of_nonneg hpos, ZMod.intCast_mod]

section Sums

variable {C : Curve} {s : Dealers C} {expected : ℕ → KeyGenMessage C → Prop} {i : ℕ} {ph : PKNHandler C} {stage : ℕ}
  {sent : KeyGenPhase → ℕ → Option (KeyGenMessage C)} {arrived : KeyGenPhase → ℕ → Bool}

theorem Dealers.sum_others {M : Type*} [AddCommMonoid M] (s : Dealers C) (i : ℕ) (f : ℕ → M) :
    ((s.others i).map f).sum = ∑ j ∈ (Finset.range s.n).erase i, f j := by
  rw [Dealers.others, ← List.sum_toFinset f (List.nodup_range.filter _)]
  refine Finset.sum_congr ?_ fun _ _ => rfl
  ext j
  simp [and_comm]

namespace Held

theorem publicKey_eq (h : Held s expected i ph stage sent arrived) (hi : i < s.n) (hstage : 1 ≤ stage) :
    ph.publicKey =
      some ((s.ui i : ZMod C.N) • C.G + ∑ j ∈ (Finset.range s.n).erase i, ph.keyFrom j) := by
  obtain ⟨hlen, rg, hkey⟩ := h.done1 (.inr hstage)
  have hlen' := Dealers.length_others (s := s) hi
  have hc : RangeMap.Collects ph.pubKeysProof1 (s.others i) (fun j m => ph.pubKeysProof1.lookup j = some m) :=
    (h.map1.mono (fun _ _ hm _ => hm) fun _ _ => Iff.rfl).collects (by omega)
  have hperm := hc.range_map_perm rg (f := fun p => p.2.PK) (g := ph.keyFrom) fun j m hm => by
    rw [PKNHandler.keyFrom, hm]
    rfl
  rw [hkey, pointSum_eq, hperm.sum_eq, s.sum_others, h.ui, scalarBaseMult_eq]

theorem xi_eq (h : Held s expected i ph stage sent arrived) (hstage : 3 ≤ stage) :
    ∃ xi, ph.xi = some xi ∧ (xi : ZMod C.N) = ∑ j ∈ Finset.range s.n, (ph.shareFrom j : ZMod C.N) := by
  obtain ⟨hlen, rg, hxi⟩ := h.done3 (.inr hstage)
  have hc : RangeMap.Collects ph.secretShareMessage3 (List.range s.n)
      (fun j m => ph.secretShareMessage3.lookup j = some m) :=
    (h.map3.mono (fun _ _ hm _ => hm) fun _ _ => Iff.rfl).collects (by rw [hlen, List.length_range])
  have hperm := hc.range_map_perm rg (f := fun p => ((residue C.N p.2.secretShare : ℕ) : ZMod C.N))
    (g := fun j => (ph.shareFrom j : ZMod C.N)) fun j m hm => by
      rw [PKNHandler.shareFrom, hm]
      rfl
  refine ⟨_, hxi, ?_⟩
  rw [cast_modSum, cast_privKeyZero, zero_add, List.map_map]
  refine hperm.sum_eq.trans ?_
  rw [← List.sum_toFinset _ List.nodup_range, List.toFinset_range]

theorem accepted1 (h : Held s expected i ph stage sent arrived) (hi : i < s.n) (hstage : 1 ≤ stage) {j : ℕ}
    (hj : j < s.n) (hji : j ≠ i) : ∃ m, ph.pubKeysProof1.lookup j = some m ∧ expected j (.phase1 m) := by
  have hlen' := Dealers.length_others (s := s) hi
  have hlen := (h.done1 (.inr hstage)).1
  exact (h.map1.collects (by omega)).values j (Dealers.mem_others.mpr ⟨hj,hji⟩)

theorem accepted2 (h : Held s expected i ph stage sent arrived) (hdone : .phase2 ∈ ph.doneChan ∨ 2 ≤ stage) {j : ℕ}
    (hj : j < s.n) : ∃ m, ph.paillierKeysProof2.lookup j = some m ∧ expected j (.phase2 m) :=
  (h.map2.collects (by rw [h.done2 hdone, List.length_range])).values j (List.mem_range.mpr hj)

theorem accepted3 (h : Held s expected i ph stage sent arrived) (hstage : 3 ≤ stage) {j : ℕ} (hj : j < s.n) :
    ∃ m, ph.secretShareMessage3.lookup j = some m ∧ expected j (.phase3 m) ∧ (j ≠ i → Checked i ph.pubKeysProof1 j m) :=
  (h.map3.collects (by rw [(h.done3 (.inr hstage)).1, List.length_range])).values j (List.mem_range.mpr hj)

/-- When the second phase is complete, its messages have arrived. -/
theorem arrived2 (h : Held s expected i ph stage sent arrived) (hdone : .phase2 ∈ ph.doneChan ∨ 2 ≤ stage) {j : ℕ}
    (hj : j < s.n) (hji : j ≠ i) : arrived .phase2 j = true := by
  obtain ⟨m, hm, _⟩ := h.accepted2 hdone hj
  have hq := (h.map2.keys j (List.mem_range.mpr hj)).mp (by rw [hm]; rfl)
  rwa [if_neg hji] at hq

end Held

end Sums

section Honest

variable {C : Curve} {s : Dealers C} {bad : Finset ℕ} {offers : ℕ → ℕ → KeyGenMessage C → Prop} {w : Negotiation C}
  {i j : ℕ}

namespace Dealers

variable (s)

/-- The polynomial that the notaries in `A` share together. -/
noncomputable def sumPolynomial (A : Finset ℕ) : Polynomial (ZMod C.N) := ∑ j ∈ A, polynomial C.N (s.poly j)

theorem poly_length (j : ℕ) : (s.poly j).length = s.t + 1 := by
  rw [poly, List.length_cons, tail, List.length_map, s.coefs_length]

theorem poly_lt (j : ℕ) : ∀ c ∈ s.poly j, c < C.N := by
  intro c hc
  rcases List.mem_cons.mp hc with rfl | hc
  · exact (s.ui j).2.2
  · obtain ⟨k, _, rfl⟩ := List.mem_map.mp hc
    exact k.2.2

theorem cast_dealt (hi : i < s.n) (j : ℕ) :
    (s.dealt j i : ZMod C.N) = (polynomial C.N (s.poly j)).eval ((i+1 : ℕ) : ZMod C.N) :=
  cast_share s.t (List.cons_ne_nil _ _) hi

theorem degree_sumPolynomial_lt (A : Finset ℕ) : (s.sumPolynomial A).degree < ((s.t + 1 : ℕ) : WithBot ℕ) := by
  refine lt_of_le_of_lt (Polynomial.degree_sum_le _ _) ((Finset.sup_lt_iff (WithBot.bot_lt_coe _)).mpr fun j _ => ?_)
  have hd := degree_polynomial_lt (N := C.N) (s.poly j)
  rwa [s.poly_length j] at hd

theorem eval_zero_sumPolynomial (A : Finset ℕ) :
    (s.sumPolynomial A).eval 0 = ∑ j ∈ A, ((s.ui j : ℕ) : ZMod C.N) := by
  rw [sumPolynomial, Polynomial.eval_finsetSum]
  exact Finset.sum_congr rfl fun j _ => eval_zero_polynomial _ _

theorem eval_sumPolynomial (A : Finset ℕ) (hi : i < s.n) :
    (s.sumPolynomial A).eval ((i+1 : ℕ) : ZMod C.N) = ∑ j ∈ A, (s.dealt j i : ZMod C.N) := by
  rw [sumPolynomial, Polynomial.eval_finsetSum]
  exact Finset.sum_congr rfl fun j _ => (s.cast_dealt hi j).symm

end Dealers

namespace Negotiation

/-- The key of an honest notary. -/
theorem Sound.keyFrom_honest (h : Sound s bad offers w) (hi : i < s.n) (hgood : i ∉ bad) (hstage : 1 ≤ w.stage i)
    (hj : j < s.n) (hji : j ≠ i) (hgoodj : j ∉ bad) : (w.handler i).keyFrom j = (s.ui j : ZMod C.N) • C.G := by
  obtain ⟨m, hm, hexp⟩ := (h.held i hi hgood).accepted1 hi hstage hj hji
  have heq : m = s.message1 j := KeyGenMessage.phase1.inj (hexp.2 hgoodj)
  rw [PKNHandler.keyFrom, hm, heq]
  exact scalarBaseMult_eq _

/-- The share from an honest notary. -/
theorem Sound.shareFrom_honest (h : Sound s bad offers w) (hi : i < s.n) (hgood : i ∉ bad) (hstage : 3 ≤ w.stage i)
    (hj : j < s.n) (hgoodj : j ∉ bad) : ((w.handler i).shareFrom j : ZMod C.N) = s.dealt j i := by
  obtain ⟨m, hm, hexp, _⟩ := (h.held i hi hgood).accepted3 hstage hj
  have heq : m = s.message3 j i := KeyGenMessage.phase3.inj (hexp.2 hgoodj)
  rw [PKNHandler.shareFrom, hm, heq]
  change ((residue C.N (s.dealt j i : ℤ) : ℕ) : ZMod C.N) = _
  rw [cast_residue, Int.cast_natCast]

end Negotiation

end Honest

end DistributedNotary.Mecdsa
