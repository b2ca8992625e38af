import DistributedNotary.Mecdsa.EndToEnd
import DistributedNotary.Mecdsa.Progress

/-! The negotiation of a key among notaries none of which is malicious. Where no
scalar of it is zero, each run ends with the same public key at all notaries and
with private shares from which every large enough set of them gets the secret. -/
namespace DistributedNotary.Mecdsa

open Library Share Feldman Proofs

variable {C : Curve}

namespace Dealers

variable (s : Dealers C)

/-- The messages that the notaries send. -/
def dealing : Dealing C where
  proof1 j _ := s.message1 j
  message2 j _ := s.message2 j
  message3 j i := s.message3 j i

/-- The states of all runs in which nobody is malicious. -/
abbrev Run : Negotiation C → Prop := Negotiation.Reached s ∅ s.dealing.offers

abbrev RunStep : Negotiation C → Negotiation C → Prop := Negotiation.Step s ∅ s.dealing.offers

/-- A message that was sent makes its receiver panic or report an error. -/
def Refuses (w : Negotiation C) : Prop :=
  ∃ i < s.n, ∃ j < s.n, j ≠ i ∧ ∃ k msg, w.sent j k i = some msg ∧ w.arrived i k j = false ∧
    ∃ rg, ¬ ∃ ph, (w.handler i).receive s.n rg j msg = .ok ph ∧ ph.quitChan = []

/-- A notary that has waited for the second phase panics or reports an error. -/
def Stops (w : Negotiation C) : Prop :=
  ∃ i < s.n, w.stage i = 1 ∧ .phase2 ∈ (w.handler i).doneChan ∧
    ∃ rg, ¬ ∃ ph msgs, (w.taken i .phase2).generatePhase3SecretShare s.t s.n rg (s.tail i) = .ok (ph, msgs) ∧
      ph.quitChan = []

/-- What the notaries hold at the end: the public key `X` and the private shares `xi`. -/
structure Outcome (w : Negotiation C) (X : C.Point) (xi : ℕ → SPrivKey) : Prop where
  publicKey : ∀ i < s.n, (w.handler i).publicKey = some X
  share : ∀ i < s.n, (w.handler i).xi = some (xi i)
  sum : ∀ i < s.n, (xi i : ZMod C.N) =
    ∑ j ∈ Finset.range s.n, (polynomial C.N (s.poly j)).eval ((i+1 : ℕ) : ZMod C.N)
  /-- The signers `S` get the discrete logarithm of the public key, by their coefficients as by `Reconstruct`. -/
  signers : ∀ v : VerifiableSS C, v.threshold = s.t → v.shareCount = s.n → ∀ S : List ℕ, S.Nodup → (∀ i ∈ S, i < s.n) →
    s.t < S.length → ∃ coefficient : ℕ → SPrivKey, ∃ x, (∀ i ∈ S, v.mapShareToNewParams i S = .ok (coefficient i)) ∧
      modSum C.N privKeyZero (S.map fun i => modMul C.N (coefficient i) (xi i)) = x ∧
      v.reconstruct S (S.map xi) = .ok x ∧ scalarBaseMult C x = X

/-- The key generation fits every set of signers. -/
structure KeyGenerationFits : Prop where
  valid : ∀ j < s.n, ∀ i < s.n, j ≠ i → (s.vss j).validateShare (s.dealt j i) (i+1) = .ok true
  accepted : ∀ w, s.Run w → ¬ s.Refuses w ∧ ¬ s.Stops w
  finite : ∀ run : ℕ → Negotiation C, s.Run (run 0) → ∃ k, ¬ s.RunStep (run k) (run (k+1))
  finished : ∀ w, s.Run w → (∀ w', ¬ s.RunStep w w') → Negotiation.Finished s ∅ w
  outcome : ∀ w, s.Run w → Negotiation.Finished s ∅ w → ∃ X xi, s.Outcome w X xi

/-- There are several notaries, and no scalar that the curve is to multiply with is zero. -/
structure NoZero : Prop where
  several : 1 < s.n
  proof : ∀ j < s.n, (s.message1 j).challenge ≠ 0 ∧ (s.message1 j).challengeResponse ≠ 0
  share : ∀ j < s.n, ∀ i < s.n, j ≠ i → s.dealt j i ≠ 0

end Dealers

section Messages

variable {s : Dealers C} {i j : ℕ}

theorem Dealers.dealt_lt (hi : i < s.n) (j : ℕ) : s.dealt j i < C.N := share_lt s.t (s.poly_lt j) hi

/-- The commitments of a notary at `i+1` are its share times the base point. -/
theorem Dealers.combination_vss (hi : i < s.n) (j : ℕ) :
    Interpolation.combination ((i+1 : ℕ) : ZMod C.N) (s.vss j).commitments = (s.dealt j i : ZMod C.N) • C.G := by
  have hmap : (s.vss j).commitments = ((s.poly j).map fun c : ℕ => (c : ZMod C.N)).map fun c => c • C.G := by
    rw [List.map_map]
    exact List.map_congr_left fun c _ => scalarBaseMult_eq c
  rw [hmap, Interpolation.combination_map_smul, s.cast_dealt hi, polynomial]

/-- The share of a notary is valid unless it is zero. -/
theorem Dealers.validateShare_dealt (hi : i < s.n) (j : ℕ) :
    (s.vss j).validateShare (s.dealt j i) (i+1) =
      if s.dealt j i = 0 then .error "invalid memory address or nil pointer dereference" else .ok true := by
  have hN : i+1 < C.N := lt_of_le_of_lt hi s.n_lt
  have hne : (s.vss j).commitments ≠ [] := List.cons_ne_nil _ _
  have hlt := s.dealt_lt hi j
  rw [validateShare_eq hne (Nat.succ_pos i) hN, s.combination_vss hi, Int.natAbs_natCast]
  simp only [not_le.mpr hlt, or_false, decide_true]

/-- What an honest notary sends passes unless a scalar of it is zero. -/
theorem Dealers.passes (hi : i < s.n) (hproof : (s.message1 j).challenge ≠ 0 ∧ (s.message1 j).challengeResponse ≠ 0)
    (hshare : s.dealt j i ≠ 0) : s.dealing.Passes j i where
  proof := (verifyDLog_prove _ _).trans (if_neg (not_or.mpr hproof))
  correctKey := rfl
  key := rfl
  valid := (s.validateShare_dealt hi j).trans (if_neg hshare)

theorem Dealers.sends_passes_of_notMem {bad : Finset ℕ} {d : Dealing C} (hj : j ∉ bad) (h : s.dealing.Passes j i) :
    (s.sends bad d).Passes j i := h.congr (if_neg hj) (if_neg hj) (if_neg hj)

theorem Dealers.sends_opens_of_notMem {bad : Finset ℕ} {d : Dealing C} (hj : j ∉ bad) (i : ℕ) :
    (s.sends bad d).Opens j i :=
  Dealing.Opens.congr (d := s.dealing) rfl (if_neg hj) (if_neg hj)

theorem Dealers.NoZero.allPass (h : s.NoZero) : s.AllPass ∅ s.dealing := fun i hi _ j hj hji =>
  ⟨Dealers.sends_passes_of_notMem (Finset.notMem_empty j) (s.passes hi (h.proof j hj) (h.share j hj i hi hji)),
    fun _ => Dealers.sends_opens_of_notMem (Finset.notMem_empty j) i⟩

end Messages

namespace Negotiation

variable {s : Dealers C} {w : Negotiation C} {i j : ℕ}

/-- When a message is on its way, the keys that it needs have arrived. -/
theorem Sound.keys_of_sent (h : Sound s ∅ s.dealing.offers w) (hi : i < s.n) (hj : j < s.n) (hji : j ≠ i)
    (hstage : 2 ≤ w.stage j) : w.arrived i .phase1 j = true := by
  have harr := (h.held j hj (Finset.notMem_empty j)).arrived2 (.inr hstage) hi hji.symm
  exact h.arrived1 hi (Finset.notMem_empty i)
    (h.order j i (Finset.notMem_empty j) hi (Finset.notMem_empty i) .phase2 harr) hj hji

theorem Sound.not_refuses (h : Sound s ∅ s.dealing.offers w) (hpass : s.AllPass ∅ s.dealing) : ¬ s.Refuses w := by
  rintro ⟨i, hi, j, hj, hji, k, msg, hsent, hnew, rg, hno⟩
  have hmsg := (h.held j hj (Finset.notMem_empty j)).sent k i (Dealers.mem_others.mpr ⟨hi,hji.symm⟩)
  rw [hsent] at hmsg
  split_ifs at hmsg with hle
  obtain rfl := Option.some.inj hmsg
  obtain ⟨ph, hrecv, hquiet⟩ := h.accepts hi (Finset.notMem_empty i) hj hji
    (hpass i hi (Finset.notMem_empty i) j hj hji).1
    hnew (fun hk => h.keys_of_sent hi hj hji (by rwa [hk] at hle)) rg
  rw [Dealers.sends_message_of_notMem (Finset.notMem_empty j)] at hrecv
  exact hno ⟨ph, hrecv, hquiet⟩

theorem Sound.not_stops (h : Sound s ∅ s.dealing.offers w) : ¬ s.Stops w := by
  rintro ⟨i, hi, hstage, hdone, rg, hno⟩
  have hheld := h.held i hi (Finset.notMem_empty i)
  exact hno (h.deals hi (Finset.notMem_empty i) hstage.ge
    (fun j _ _ => Dealers.sends_opens_of_notMem (Finset.notMem_empty j) i)
    (fun j hj hji => hheld.arrived2 (.inl hdone) hj hji) rg)

end Negotiation

/-! ### The outcome -/

section Outcome

variable {s : Dealers C} {w : Negotiation C}

/-- A reconstructed secret is reduced. -/
theorem Feldman.reconstruct_lt {v : VerifiableSS C} {S : List ℕ} {shares : List SPrivKey} {x : SPrivKey}
    (h : v.reconstruct S shares = .ok x) : x < C.N := by
  unfold VerifiableSS.reconstruct lagrangeInterpolationAtZero at h
  simp only [bind, Except.bind] at h
  split_ifs at h with hlen hlim
  cases hl : (List.range shares.length).map
      (lagrangeTerm C.N (S.map fun i => bigInt2PrivateKey C.N (i+1)) shares) with
  | nil =>
    rw [hl] at h
    cases h
  | cons coef coefs =>
    rw [hl] at h
    have hmem : coef ∈ (List.range shares.length).map
        (lagrangeTerm C.N (S.map fun i => bigInt2PrivateKey C.N (i+1)) shares) := hl ▸ List.mem_cons_self ..
    obtain ⟨a, _, rfl⟩ := List.mem_map.mp hmem
    exact Except.ok.inj h ▸ modSum_lt (modMul_lt _ _) coefs

/-- The public key of a notary that has waited for the first phase. -/
theorem Negotiation.Sound.publicKey_final (h : Sound s ∅ s.dealing.offers w) {i : ℕ} (hi : i < s.n)
    (hstage : 1 ≤ w.stage i) :
    (w.handler i).publicKey = some ((∑ j ∈ Finset.range s.n, ((s.ui j : ℕ) : ZMod C.N)) • C.G) := by
  have hbad : ∀ i, i ∉ (∅ : Finset ℕ) := Finset.notMem_empty
  rw [(h.held i hi (hbad i)).publicKey_eq hi hstage, ← Finset.add_sum_erase _ _ (Finset.mem_range.mpr hi), add_smul,
    Finset.sum_smul]
  congr 2
  refine Finset.sum_congr rfl fun j hj => ?_
  obtain ⟨hji, hj⟩ := Finset.mem_erase.mp hj
  exact h.keyFrom_honest hi (hbad i) hstage (Finset.mem_range.mp hj) hji (hbad j)

theorem Negotiation.Sound.outcome (h : Sound s ∅ s.dealing.offers w) (hfin : Finished s ∅ w) :
    s.Outcome w ((∑ j ∈ Finset.range s.n, ((s.ui j : ℕ) : ZMod C.N)) • C.G) fun i => (w.handler i).xi.getD 0 := by
  have hbad : ∀ i, i ∉ (∅ : Finset ℕ) := Finset.notMem_empty
  have hxi : ∀ i < s.n, ∃ xi, (w.handler i).xi = some xi ∧
      (xi : ZMod C.N) = (s.sumPolynomial (Finset.range s.n)).eval ((i+1 : ℕ) : ZMod C.N) := by
    intro i hi
    obtain ⟨xi, hxi, hsum⟩ := (h.held i hi (hbad i)).xi_eq (hfin i hi (hbad i)).ge
    refine ⟨xi, hxi, ?_⟩
    rw [hsum, s.eval_sumPolynomial _ hi]
    exact Finset.sum_congr rfl fun j hj =>
      h.shareFrom_honest hi (hbad i) (hfin i hi (hbad i)).ge (Finset.mem_range.mp hj) (hbad j)
  refine ⟨fun i hi => ?_, fun i hi => ?_, fun i hi => ?_, fun v ht hcount S hnd hS hlen => ?_⟩
  · have hstage : 1 ≤ w.stage i := by
      rw [hfin i hi (hbad i)]
      decide
    exact h.publicKey_final hi hstage
  · obtain ⟨xi, hxi, _⟩ := hxi i hi
    simp [hxi]
  · obtain ⟨xi, hxi, hsum⟩ := hxi i hi
    simp only [hxi, Option.getD_some]
    rw [hsum, Dealers.sumPolynomial, Polynomial.eval_finsetSum]
  · have hcoef : ∀ i ∈ S, ∃ d, v.mapShareToNewParams i S = .ok d ∧
        (d : ZMod C.N) = Interpolation.weight S.toFinset (fun i : ℕ => ((i+1 : ℕ) : ZMod C.N)) i := fun i hi =>
      mapShareToNewParams_ok hnd (fun j hj => hcount ▸ hS j hj) (hcount ▸ s.n_lt) (ht ▸ hlen) hi
    choose! coefficient hcoefficient hweight using hcoef
    obtain ⟨x, hx, hxsum⟩ := reconstruct_ok (v := v) hnd hS s.n_lt (ht ▸ hlen) fun i => (w.handler i).xi.getD 0
    have hcast : (x : ZMod C.N) = ∑ j ∈ Finset.range s.n, ((s.ui j : ℕ) : ZMod C.N) := by
      have hS' : ∀ i ∈ S.toFinset, i < s.n := fun i hi => hS i (List.mem_toFinset.mp hi)
      have hcard : S.toFinset.card = S.length := List.toFinset_card_of_nodup hnd
      have hdeg : (s.sumPolynomial (Finset.range s.n)).degree < (S.toFinset.card : WithBot ℕ) :=
        lt_of_lt_of_le (s.degree_sumPolynomial_lt _) (by exact_mod_cast hcard ▸ hlen)
      rw [hxsum, ← s.eval_zero_sumPolynomial, ← Interpolation.sum_weight_mul_eval S.toFinset _
        (points_injOn s.n_lt S.toFinset hS') _ hdeg]
      refine Finset.sum_congr rfl fun i hi => ?_
      obtain ⟨xi, hxi, hsum⟩ := hxi i (hS' i hi)
      rw [hxi, Option.getD_some, hsum]
    refine ⟨coefficient, x, hcoefficient, ?_, hx, ?_⟩
    · refine eq_of_cast (modSum_lt C.prime.pos _) (reconstruct_lt hx) ?_
      rw [cast_modSum, cast_privKeyZero, zero_add, hxsum, List.sum_toFinset _ hnd, List.map_map]
      refine congrArg List.sum (List.map_congr_left fun i hi => ?_)
      rw [Function.comp_apply, cast_modMul, hweight i hi]
    · rw [scalarBaseMult_eq, hcast]

end Outcome

/-! ### Which keys come out -/

namespace Dealers

variable {s : Dealers C}

/-- A notary alone waits for the first phase forever. -/
theorem not_runStep_start (hn : ¬ 1 < s.n) (w' : Negotiation C) : ¬ s.RunStep (Negotiation.start s) w' := by
  intro hstep
  cases hstep with
  | deliver rg hj hi hji => omega
  | finish1 hi hgood hstage hdone => cases hdone
  | finish2 rg hi hgood hstage => cases hstage
  | finish3 hi hgood hstage => cases hstage

theorem KeyGenerationFits.several (h : s.KeyGenerationFits) : 1 < s.n := by
  by_contra hn
  have hpos : 0 < s.n := lt_of_le_of_lt (Nat.zero_le _) s.t_lt
  have hfin := h.finished _ (.init rfl) (not_runStep_start hn)
  exact absurd (hfin 0 hpos (Finset.notMem_empty 0)) (show (0 : ℕ) ≠ 3 by decide)

/-- Every proof is verified by another notary. -/
theorem KeyGenerationFits.proof (h : s.KeyGenerationFits) {j : ℕ} (hj : j < s.n) :
    (s.message1 j).challenge ≠ 0 ∧ (s.message1 j).challengeResponse ≠ 0 := by
  obtain ⟨i, hi, hji⟩ : ∃ i < s.n, j ≠ i := by
    have hn := h.several
    by_cases h0 : j = 0
    · exact ⟨1, hn, by omega⟩
    · exact ⟨0, by omega, h0⟩
  rw [← not_or]
  intro hzero
  refine (h.accepted _ (.init rfl)).1 ⟨i, hi, j, hj, hji, .phase1, .phase1 (s.message1 j), rfl, rfl, Range.id ℕ, ?_⟩
  rintro ⟨ph, hrecv, _⟩
  have hverify : verifyDLog (s.message1 j) = .error "invalid memory address or nil pointer dereference" :=
    (verifyDLog_prove _ _).trans (if_pos hzero)
  simp [PKNHandler.receive, PKNHandler.receivePhase1PubKeyProof, hverify, bind, Except.bind] at hrecv

theorem KeyGenerationFits.noZero (h : s.KeyGenerationFits) : s.NoZero where
  several := h.several
  proof _ hj := h.proof hj
  share j hj i hi hji hzero := by
    have hvalid := h.valid j hj i hi hji
    rw [validateShare_dealt hi, if_pos hzero] at hvalid
    cases hvalid

/-- The negotiation of a key gives every large enough set of signers what it needs exactly when none of its scalars
is zero, and there are several notaries. -/
theorem keyGenerationFits_iff (s : Dealers C) : s.KeyGenerationFits ↔ s.NoZero := by
  refine ⟨KeyGenerationFits.noZero, fun h => ?_⟩
  have hpass := h.allPass
  refine ⟨fun j hj i hi hji => ?_, fun w hw => ?_, fun run hrun => ?_, fun w hw hstuck => ?_, fun w hw hfin => ?_⟩
  · rw [validateShare_dealt hi, if_neg (h.share j hj i hi hji)]
  · have hsound := Negotiation.Reached.sound hw
    exact ⟨hsound.not_refuses hpass, hsound.not_stops⟩
  · exact Negotiation.stops run hrun
  · by_contra hopen
    obtain ⟨w', hstep⟩ := (Negotiation.Reached.sound hw).progress hpass h.several hopen
      (Negotiation.Reached.stage_le hw)
    exact hstuck w' hstep
  · exact ⟨_, _, (Negotiation.Reached.sound hw).outcome hfin⟩

end Dealers

section Example

theorem three_lt : 3 < curve5.N := by decide

/-- Three notaries with threshold one, whose polynomials have the same slope. -/
def dealers5 (slope : RandomPrivateKey curve5.N) : Dealers curve5 where
  n := 3
  t := 1
  t_lt := by decide
  n_lt := three_lt
  ui := fun j => curve5Key (j % 3 + 1) ⟨by omega, by omega⟩
  coefs := fun _ => [slope]
  coefs_length := fun _ => rfl
  proofNonce := fun _ => curve5Key 5 five_fits
  blindFactor := fun j => j

/-- The polynomial `1 + 3x` is zero at the second notary. -/
theorem not_keyGenerationFits_dealers5 : ¬ (dealers5 (curve5Key 3)).KeyGenerationFits := fun h =>
  absurd (h.valid 0 (by decide) 1 (by decide) (by decide)) (by decide +kernel)

example : (dealers5 (curve5Key 1)).NoZero := ⟨by decide, by decide +kernel, by decide +kernel⟩

end Example

end DistributedNotary.Mecdsa
