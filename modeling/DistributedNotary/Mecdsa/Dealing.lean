import DistributedNotary.Mecdsa.Messages

/-! What becomes of a share after it was dealt: the receiver compares it with the
commitments of the dealer, and enough shares give back the secret. The curve of
the source has no result for a scalar that is zero or not below the order, so a
share that happens to be zero makes its receiver panic, and so does a proof in
which such a scalar occurs. -/
namespace DistributedNotary.Mecdsa

open Library Share

namespace Proofs

variable {C : Curve}

/-- The challenge that both sides compute for a proof. -/
def DLogProof.challenge (proof : DLogProof C) : SPrivKey := dlogChallenge proof.pkTRandCommitment proof.PK

/-- `verify` where a scalar may be zero. -/
def verifyDLog (proof : DLogProof C) : Except String Bool := do
  let pkChallenge ← deref (bitCurveMult proof.PK proof.challenge)
  let pkVerifier ← deref (bitCurveMult C.G proof.challengeResponse)
  return C.eqGE (pointAdd pkVerifier pkChallenge) proof.pkTRandCommitment

/-- An honest proof is accepted, unless one of its scalars is zero. -/
theorem verifyDLog_prove (sk r : SPrivKey) :
    verifyDLog (prove sk r : DLogProof C) =
      if (prove sk r : DLogProof C).challenge = 0 ∨ (prove sk r : DLogProof C).challengeResponse = 0 then
        .error "invalid memory address or nil pointer dereference"
      else .ok true := by
  have hch : (prove sk r : DLogProof C).challenge < C.N := bigInt2PrivateKey_lt _
  have hresp : (prove sk r : DLogProof C).challengeResponse < C.N := modSub_lt _ _
  have hverify := verify_prove (C := C) sk r
  generalize (prove sk r : DLogProof C) = proof at *
  unfold verifyDLog bitCurveMult
  simp only [not_le.mpr hch, not_le.mpr hresp, or_false]
  by_cases h1 : proof.challenge = 0
  · rw [if_pos h1, if_pos (Or.inl h1)]
    rfl
  · by_cases h2 : proof.challengeResponse = 0
    · rw [if_neg h1, if_pos h2, if_pos (Or.inr h2)]
      rfl
    · rw [if_neg h1, if_neg h2, if_neg (not_or.mpr ⟨h1,h2⟩)]
      exact congrArg Except.ok hverify

end Proofs

namespace Feldman

/-- The weight of the value at place `i`, times that value. -/
def lagrangeTerm (N : ℕ) (points values : List SPrivKey) (i : ℕ) : SPrivKey :=
  let xi := points.getD i 0
  let num := (points.eraseIdx i).foldl (modMul N) (bigInt2PrivateKey N 1)
  let denum := (points.eraseIdx i).foldl (fun acc xj => modMul N acc (modSub N xj xi)) (bigInt2PrivateKey N 1)
  modMul N (modMul N num (invertN N denum)) (values.getD i 0)

/-- Interpolation at the origin; there are as many points as values. -/
def lagrangeInterpolationAtZero (N : ℕ) (points values : List SPrivKey) : Except String SPrivKey :=
  match (List.range values.length).map (lagrangeTerm N points values) with
  | [] => .error "index out of range"
  | coef :: coefs => .ok (modSum N coef coefs)

namespace VerifiableSS

variable {C : Curve} (v : VerifiableSS C)

/-- The commitments evaluated at `index`, from the last one down. -/
def commitmentAt (index : ℕ) : Except String C.Point :=
  match v.commitments.getLast? with
  | none => .error "index out of range"
  | some last =>
    v.commitments.dropLast.foldrM (fun c head => do
      let p ← deref (bitCurveMult head (index % C.N))
      return pointAdd p c) last

/-- The bytes of a share are those of its absolute value. -/
def validateShare (secretShare : ℤ) (index : ℕ) : Except String Bool := do
  let ssPoint := bitCurveMult C.G secretShare.natAbs
  let head ← v.commitmentAt index
  return C.eqGE (← deref ssPoint) head

def reconstruct (indices : List ℕ) (shares : List SPrivKey) : Except String SPrivKey := do
  if shares.length ≠ indices.length then throw "arg error"
  if shares.length < v.reconstructLimit then throw "arg error"
  lagrangeInterpolationAtZero C.N (indices.map fun i => bigInt2PrivateKey C.N (i+1)) shares

end VerifiableSS

section Validation

variable {C : Curve} {v : VerifiableSS C}

theorem commitmentAt_ok (hne : v.commitments ≠ []) {index : ℕ} (h0 : 0 < index) (hN : index < C.N) :
    v.commitmentAt index = .ok (Interpolation.combination (index : ZMod C.N) v.commitments) := by
  have hmod : index % C.N = index := Nat.mod_eq_of_lt hN
  have hmult : ∀ P : C.Point, bitCurveMult P index = some ((index : ZMod C.N) • P) := by
    intro P
    rw [bitCurveMult, if_neg (by omega), scalarMult_eq]
  unfold VerifiableSS.commitmentAt
  simp only [hmod, hmult]
  generalize v.commitments = cs at hne
  induction cs with
  | nil => exact absurd rfl hne
  | cons c cs ih =>
    cases cs with
    | nil =>
      rw [Interpolation.combination_cons, Interpolation.combination, List.foldr_nil, smul_zero, add_zero]
      rfl
    | cons d cs =>
      have h := ih (List.cons_ne_nil _ _)
      obtain ⟨last, hlast⟩ : ∃ last, (d :: cs).getLast? = some last :=
        ⟨_, List.getLast?_eq_some_getLast (List.cons_ne_nil _ _)⟩
      rw [hlast] at h
      simp only [] at h
      rw [List.getLast?_cons_cons, hlast, Interpolation.combination_cons, List.dropLast_cons_cons]
      simp only []
      rw [List.foldrM_cons, h]
      exact congrArg Except.ok (add_comm _ _)

/-- A share is accepted when it fits the commitments; one that is zero or too large is not got through. -/
theorem validateShare_eq (hne : v.commitments ≠ []) {index : ℕ} (h0 : 0 < index) (hN : index < C.N) (d : ℤ) :
    v.validateShare d index =
      if d.natAbs = 0 ∨ C.N ≤ d.natAbs then .error "invalid memory address or nil pointer dereference"
      else .ok (decide ((d.natAbs : ZMod C.N) • C.G = Interpolation.combination (index : ZMod C.N) v.commitments)) := by
  unfold VerifiableSS.validateShare bitCurveMult
  rw [commitmentAt_ok hne h0 hN]
  split_ifs with hd
  · rfl
  · change Except.ok _ = Except.ok _
    rw [scalarMult_eq, Except.ok.injEq, Bool.eq_iff_iff, Curve.eqGE_iff, decide_eq_true_eq]

end Validation

section Reconstruction

variable {C : Curve} {v : VerifiableSS C}

/-- The loops of a term multiply up what they make of the points. -/
theorem cast_foldl_modMul (l : List ℕ) (term : SPrivKey → SPrivKey) (f : ZMod C.N → ZMod C.N)
    (hf : ∀ p : SPrivKey, ((term p : ℕ) : ZMod C.N) = f p) :
    (((l.map fun i => bigInt2PrivateKey C.N (i+1)).foldl (fun acc p => modMul C.N acc (term p))
      (bigInt2PrivateKey C.N 1) : ℕ) : ZMod C.N) = (l.map fun j : ℕ => f ((j+1 : ℕ) : ZMod C.N)).prod := by
  suffices h : ∀ acc : ℕ, (((l.map fun i => bigInt2PrivateKey C.N (i+1)).foldl
      (fun acc p => modMul C.N acc (term p)) acc : ℕ) : ZMod C.N) =
        acc * (l.map fun j : ℕ => f ((j+1 : ℕ) : ZMod C.N)).prod by
    rw [h, cast_bigInt2PrivateKey, Nat.cast_one, one_mul]
  induction l with
  | nil => simp
  | cons j l ih =>
    intro acc
    rw [List.map_cons, List.foldl_cons, ih, cast_modMul, hf, cast_bigInt2PrivateKey, List.map_cons, List.prod_cons,
      mul_assoc]

variable {s : List ℕ} {n : ℕ}

/-- The term of a member of a set of distinct notaries is its weighted value. -/
theorem cast_lagrangeTerm (hnd : s.Nodup) (hs : ∀ i ∈ s, i < n) (hn : n < C.N) (y : ℕ → SPrivKey) {a : ℕ}
    (ha : a < s.length) :
    (lagrangeTerm C.N (s.map fun i => bigInt2PrivateKey C.N (i+1)) (s.map y) a : ZMod C.N) =
      Interpolation.weight s.toFinset (fun i : ℕ => ((i+1 : ℕ) : ZMod C.N)) s[a] * y s[a] := by
  have hmem := List.getElem_mem ha
  have herase : (s.map fun i => bigInt2PrivateKey C.N (i+1)).eraseIdx a =
      (s.filter (· ≠ s[a])).map fun i => bigInt2PrivateKey C.N (i+1) := by
    rw [List.eraseIdx_map, ← hnd.erase_getElem a ha, hnd.erase_eq_filter]
    congr 1
    exact List.filter_congr fun j _ => by simp [bne, BEq.beq]
  have hxi : (s.map fun i => bigInt2PrivateKey C.N (i+1)).getD a 0 = bigInt2PrivateKey C.N (s[a]+1) := by
    simp [ha]
  have hvalue : (s.map y).getD a 0 = y s[a] := by simp [ha]
  have hnum := cast_foldl_modMul (C := C) (s.filter (· ≠ s[a])) id id fun _ => rfl
  have hden := cast_foldl_modMul (C := C) (s.filter (· ≠ s[a]))
    (fun xj => modSub C.N xj (bigInt2PrivateKey C.N (s[a]+1)))
    (fun z => z - ((s[a]+1 : ℕ) : ZMod C.N)) fun p => by rw [cast_modSub, cast_bigInt2PrivateKey]
  simp only [id] at hnum
  rw [filter_prod_eq hnd s[a] fun j : ℕ => ((j+1 : ℕ) : ZMod C.N)] at hnum
  rw [filter_prod_eq hnd s[a] fun j : ℕ => ((j+1 : ℕ) : ZMod C.N) - ((s[a]+1 : ℕ) : ZMod C.N)] at hden
  have hne := prod_sub_ne_zero hn s.toFinset (fun i hi => hs i (List.mem_toFinset.mp hi)) (List.mem_toFinset.mpr hmem)
  unfold lagrangeTerm
  simp only [herase, hxi, hvalue]
  rw [cast_modMul, cast_modMul, cast_invertN (hden ▸ hne), hden]
  rw [show ((s.filter (· ≠ s[a])).map fun i => bigInt2PrivateKey C.N (i+1)).foldl (modMul C.N)
    (bigInt2PrivateKey C.N 1) = _ from rfl, hnum]
  rfl

/-- Enough shares of distinct notaries are interpolated at the origin. -/
theorem reconstruct_ok (hnd : s.Nodup) (hs : ∀ i ∈ s, i < n) (hn : n < C.N) (ht : v.threshold < s.length)
    (y : ℕ → SPrivKey) :
    ∃ d, v.reconstruct s (s.map y) = .ok d ∧
      (d : ZMod C.N) = ∑ i ∈ s.toFinset,
        Interpolation.weight s.toFinset (fun i : ℕ => ((i+1 : ℕ) : ZMod C.N)) i * y i := by
  have hlim : ¬ (s.map y).length < v.reconstructLimit := by
    rw [List.length_map, VerifiableSS.reconstructLimit]
    omega
  have hterms : ((List.range s.length).map fun a =>
      (lagrangeTerm C.N (s.map fun i => bigInt2PrivateKey C.N (i+1)) (s.map y) a : ZMod C.N)) =
        s.map fun i => Interpolation.weight s.toFinset (fun i : ℕ => ((i+1 : ℕ) : ZMod C.N)) i * y i := by
    refine List.ext_getElem (by simp) fun a ha ha' => ?_
    rw [List.getElem_map, List.getElem_map, List.getElem_range]
    exact cast_lagrangeTerm hnd hs hn y (by simpa using ha')
  unfold VerifiableSS.reconstruct lagrangeInterpolationAtZero
  simp only [List.length_map, ne_eq, not_true_eq_false, if_false] at hlim ⊢
  rw [if_neg hlim]
  cases hl : (List.range s.length).map (lagrangeTerm C.N (s.map fun i => bigInt2PrivateKey C.N (i+1)) (s.map y)) with
  | nil =>
    rw [List.map_eq_nil_iff, List.range_eq_nil] at hl
    omega
  | cons coef coefs =>
    refine ⟨_, rfl, ?_⟩
    rw [cast_modSum, ← List.sum_cons, ← List.map_cons (f := fun s : ℕ => (s : ZMod C.N)), ← hl, List.map_map,
      List.sum_toFinset _ hnd]
    exact congrArg List.sum hterms

end Reconstruction

end Feldman

end DistributedNotary.Mecdsa
