import DistributedNotary.Mecdsa.Opening

/-! The gate in front of the last phase. Each signer has shown a point for its share
`s_i` of the signature, blinded with `l_i`, and the points `u_i` and `t_i` in which
the blinding of all signers cancels. The gate opens exactly when the shares, honest
or not, add up to a signature, provided that nobody has to multiply with zero on the
way to it: the library has no result for that, and the signer panics. -/
namespace DistributedNotary.Mecdsa

open Library Share Feldman Proofs

variable {C : Curve}

section Sums

variable (opened : List (Phase5DDecom2 C × Phase5ADecom1 C)) (acc : C.Point)

theorem foldl_pointAdd_eq : opened.foldl (fun acc o => pointAdd (pointAdd acc o.1.ti) o.2.bi) acc =
    acc + (opened.map fun o => o.1.ti + o.2.bi).sum := by
  induction opened generalizing acc with
  | nil => simp
  | cons o opened ih =>
    rw [List.foldl_cons, ih, pointAdd, pointAdd, List.map_cons, List.sum_cons, add_assoc, add_assoc, add_assoc]

theorem foldl_pointSub_eq : opened.foldl (fun acc o => pointSub acc o.1.uI) acc =
    acc - (opened.map fun o => o.1.uI).sum := by
  induction opened generalizing acc with
  | nil => simp
  | cons o opened ih => rw [List.foldl_cons, ih, pointSub_eq, List.map_cons, List.sum_cons, sub_sub]

/-- The gate opens when what the `ti` and `bi` add is what the `uI` take off. -/
theorem phase5d_eq (ls : LocalSignature C) : phase5d (some ls) opened =
    .ok (if (opened.map fun o => o.1.ti + o.2.bi).sum = (opened.map fun o => o.1.uI).sum
      then some ls.sI else none) := by
  have htest : C.eqGE C.G (opened.foldl (fun acc o => pointSub acc o.1.uI)
      (opened.foldl (fun acc o => pointAdd (pointAdd acc o.1.ti) o.2.bi) C.G)) =
        decide ((opened.map fun o => o.1.ti + o.2.bi).sum = (opened.map fun o => o.1.uI).sum) := by
    rw [foldl_pointSub_eq, foldl_pointAdd_eq, Bool.eq_iff_iff, Curve.eqGE_iff, decide_eq_true_eq, eq_comm,
      add_sub_assoc, add_eq_left, sub_eq_zero]
  simp only [phase5d, htest]
  by_cases heq : (opened.map fun o => o.1.ti + o.2.bi).sum = (opened.map fun o => o.1.uI).sum
  · rw [if_pos heq, decide_eq_true heq]
    rfl
  · rw [if_neg heq, decide_eq_false heq]
    rfl

end Sums

/-- What the signers `S` claim as shares `s` of a signature for the nonce point `R`, with what they blind it
with and the order in which each of them visits the others. -/
structure Claimed (C : Curve) where
  S : List ℕ
  S_nodup : S.Nodup
  two_le : 2 ≤ S.length
  R : C.Point
  M : ℕ
  Y : C.Point
  s : ℕ → SPrivKey
  l : ℕ → SPrivKey
  rho : ℕ → SPrivKey
  sum_rho : ∑ i ∈ S.toFinset, (rho i : ZMod C.N) ≠ 0
  coins : ℕ → Phase5ACoins C
  blindFactor : ℕ → ℕ
  loop : ℕ → Range ℕ

namespace Claimed

theorem zero_one_nodup : [0, 1].Nodup := by decide

/-- Two signers who claim one and nothing. -/
instance : Inhabited (Claimed C) where
  default := {
    S := [0, 1]
    S_nodup := zero_one_nodup
    two_le := le_refl 2
    R := C.G
    M := 1
    Y := 0
    s := fun i => 1 - i
    l := fun _ => 1
    rho := fun i => 1 - i
    sum_rho := by simp
    coins := fun _ =>
      { lI := ⟨1, Nat.one_pos, C.prime.one_lt⟩, rhoI := ⟨1, Nat.one_pos, C.prime.one_lt⟩, blindFactor := 0
        s1 := ⟨1, Nat.one_pos, C.prime.one_lt⟩, s2 := ⟨1, Nat.one_pos, C.prime.one_lt⟩ }
    blindFactor := fun _ => 0
    loop := fun _ => Range.id ℕ }

variable (g : Claimed C)

def localSignature (i : ℕ) : LocalSignature C where
  lI := g.l i
  rhoI := g.rho i
  R := g.R
  sI := g.s i
  M := g.M
  Y := g.Y

/-- The decommitment of phase 5A. -/
def decom1 (i : ℕ) : Except String (Phase5ADecom1 C) := do
  let msg ← phase5aBroadcast5bZkproof (g.localSignature i) (g.coins i).blindFactor (g.coins i).s1 (g.coins i).s2
  return msg.decom

/-- Phase 5C of signer `i` on the decommitments of the others. -/
def decom2 (i : ℕ) : Except String (Phase5DDecom2 C) := do
  let own ← g.decom1 i
  let others ← ((g.loop i).visit (g.S.erase i)).mapM g.decom1
  let msg ← phase5c (g.localSignature i) others own.vi (g.blindFactor i)
  return msg.decom

/-- The openings of both phases, in the order in which the loop of the last phase visits them. -/
def openings (rg : Range ℕ) : Except String (List (Phase5DDecom2 C × Phase5ADecom1 C)) :=
  (rg.visit g.S).mapM fun i => do
    let decom2 ← g.decom2 i
    let decom1 ← g.decom1 i
    return (decom2, decom1)

/-- Every scalar that the phases multiply with lies between zero and the order. -/
structure Fits : Prop where
  signers : ∀ i ∈ g.S, (g.localSignature i).Fits
  message : g.M % C.N ≠ 0
  nonce : C.X g.R % C.N ≠ 0

/-- The shares add up to a signature. -/
def Signs : Prop :=
  (∑ i ∈ g.S.toFinset, (g.s i : ZMod C.N)) • g.R = (g.M : ZMod C.N) • C.G + (C.X g.R : ZMod C.N) • g.Y

instance : Decidable g.Signs := inferInstanceAs (Decidable (_ = _))

/-- The decommitment in the group. -/
def shown (i : ℕ) : Phase5ADecom1 C :=
  ((g.localSignature i).blinded (g.coins i).blindFactor (g.coins i).s1 (g.coins i).s2).decom

/-- The sum of all `vi`, less the message and the public key. -/
def v : C.Point := ∑ i ∈ g.S.toFinset, (g.shown i).vi - (g.M : ZMod C.N) • C.G - (C.X g.R : ZMod C.N) • g.Y

/-- The openings that phases 5A to 5C prescribe. -/
def opening (i : ℕ) : Phase5DDecom2 C × Phase5ADecom1 C :=
  ({ uI := (g.rho i : ZMod C.N) • g.v
     ti := (g.l i : ZMod C.N) • ∑ j ∈ g.S.toFinset.erase i, (g.shown j).ai
     blindFactor := g.blindFactor i }, g.shown i)

theorem shown_vi (i : ℕ) : (g.shown i).vi = (g.l i : ZMod C.N) • C.G + (g.s i : ZMod C.N) • g.R := by
  rw [← scalarBaseMult_eq, ← scalarMult_eq]
  rfl

theorem shown_ai (i : ℕ) : (g.shown i).ai = (g.rho i : ZMod C.N) • C.G := scalarBaseMult_eq _

theorem shown_bi (i : ℕ) : (g.shown i).bi = (g.l i * g.rho i : ZMod C.N) • C.G := by
  rw [← cast_modMul, ← scalarBaseMult_eq]
  rfl

/-- A sum over the others, in the order in which a signer visits them. -/
theorem sum_others (i : ℕ) (f : Phase5ADecom1 C → C.Point) :
    ((((g.loop i).visit (g.S.erase i)).map g.shown).map f).sum = ∑ j ∈ g.S.toFinset.erase i, f (g.shown j) := by
  have hset : (g.S.erase i).toFinset = g.S.toFinset.erase i :=
    Finset.ext fun j => by simp [g.S_nodup.mem_erase_iff]
  rw [List.map_map, (((g.loop i).perm _).map _).sum_eq, ← List.sum_toFinset _ (g.S_nodup.erase i), hset]
  rfl

theorem decom1_returns (i : ℕ) : ReturnsIff (g.localSignature i).Fits (g.decom1 i) (· = g.shown i) :=
  (phase5aBroadcast5bZkproof_returns (g.localSignature i) (g.coins i).blindFactor (g.coins i).s1 (g.coins i).s2).map
    fun msg _ hmsg => by rw [hmsg, shown]

/-- The own commitment is in `v` but not among the `ai`. -/
theorem decom_eq {i : ℕ} (hi : i ∈ g.S) {msg : Phase5C C}
    (h : (g.localSignature i).Opens (((g.loop i).visit (g.S.erase i)).map g.shown) (g.shown i).vi (g.blindFactor i)
      msg) : msg.decom = (g.opening i).1 := by
  have huI := h.uI
  have hti := h.ti
  rw [g.sum_others i (·.vi), Finset.add_sum_erase _ (fun j => (g.shown j).vi) (List.mem_toFinset.mpr hi)] at huI
  rw [g.sum_others i (·.ai)] at hti
  have hblind := h.blindFactor
  obtain ⟨com, uI, ti, blindFactor⟩ := msg
  obtain rfl : uI = _ := huI
  obtain rfl : ti = _ := hti
  obtain rfl : blindFactor = _ := hblind
  rfl

theorem decom2_returns {i : ℕ} (hi : i ∈ g.S) : ReturnsIff g.Fits (g.decom2 i) (· = (g.opening i).1) := by
  have hmem : ∀ j, j ∈ (g.loop i).visit (g.S.erase i) ↔ j ≠ i ∧ j ∈ g.S := fun j => by
    rw [((g.loop i).perm _).mem_iff, g.S_nodup.mem_erase_iff]
  have hne : ((g.loop i).visit (g.S.erase i)).map g.shown ≠ [] := by
    have htwo := g.two_le
    intro hnil
    have hlen := congrArg List.length hnil
    rw [List.length_map, ((g.loop i).perm _).length_eq, List.length_erase_of_mem hi, List.length_nil] at hlen
    omega
  have hsteps : ReturnsIff _ (g.decom2 i) (· = (g.opening i).1) :=
    (g.decom1_returns i).bind fun own hown hshown =>
    (ReturnsIff.mapM fun j _ => g.decom1_returns j).bind fun others _ hothers => by
      rw [hshown, hothers]
      exact (phase5c_returns hown hne (g.shown i).vi (g.blindFactor i)).map fun msg _ hmsg => g.decom_eq hi hmsg
  refine hsteps.congr ⟨?_, ?_⟩
  · rintro ⟨hown, hothers, hmessage, hnonce⟩
    refine ⟨fun j hj => ?_, hmessage, hnonce⟩
    by_cases hji : j = i
    · rwa [hji]
    · exact hothers j ((hmem j).mpr ⟨hji, hj⟩)
  · intro h
    exact ⟨h.signers i hi, fun j hj => h.signers j ((hmem j).mp hj).2, h.message, h.nonce⟩

theorem openings_returns (rg : Range ℕ) :
    ReturnsIff g.Fits (g.openings rg) (· = (rg.visit g.S).map g.opening) := by
  have hsteps : ReturnsIff (∀ i ∈ rg.visit g.S, g.Fits ∧ (g.localSignature i).Fits) (g.openings rg)
      (· = (rg.visit g.S).map g.opening) := by
    refine ReturnsIff.mapM fun i hi => ?_
    refine (g.decom2_returns ((rg.perm g.S).mem_iff.mp hi)).bind fun a _ ha =>
      (g.decom1_returns i).map fun b _ hb => ?_
    rw [ha, hb]
    rfl
  refine hsteps.congr ⟨fun h => ?_, fun h i hi => ⟨h, h.signers i ((rg.perm g.S).mem_iff.mp hi)⟩⟩
  obtain ⟨i, hi⟩ := List.exists_mem_of_length_pos (Nat.lt_of_lt_of_le Nat.two_pos g.two_le)
  exact (h i ((rg.perm g.S).mem_iff.mpr hi)).1

theorem sum_openings {f : Phase5DDecom2 C × Phase5ADecom1 C → C.Point} (rg : Range ℕ) :
    (((rg.visit g.S).map g.opening).map f).sum = ∑ i ∈ g.S.toFinset, f (g.opening i) := by
  rw [List.map_map, ((rg.perm g.S).map _).sum_eq, List.sum_toFinset _ g.S_nodup]
  rfl

theorem sum_ti_add_bi : ∑ i ∈ g.S.toFinset, ((g.opening i).1.ti + (g.opening i).2.bi) =
    (∑ i ∈ g.S.toFinset, (g.rho i : ZMod C.N)) • (∑ i ∈ g.S.toFinset, (g.l i : ZMod C.N)) • C.G := by
  have hterm : ∀ i ∈ g.S.toFinset, (g.opening i).1.ti + (g.opening i).2.bi =
      (g.l i : ZMod C.N) • ∑ j ∈ g.S.toFinset, (g.shown j).ai := by
    intro i hi
    rw [← Finset.sum_erase_add _ _ hi, smul_add, shown_ai, smul_smul, ← shown_bi]
    rfl
  have hai : ∑ j ∈ g.S.toFinset, (g.shown j).ai = (∑ j ∈ g.S.toFinset, (g.rho j : ZMod C.N)) • C.G := by
    rw [Finset.sum_smul]
    exact Finset.sum_congr rfl fun j _ => g.shown_ai j
  rw [Finset.sum_congr rfl hterm, ← Finset.sum_smul, hai, smul_comm]

theorem sum_uI : ∑ i ∈ g.S.toFinset, (g.opening i).1.uI = (∑ i ∈ g.S.toFinset, (g.rho i : ZMod C.N)) • g.v := by
  rw [Finset.sum_smul]
  rfl

/-- What is left of the `vi` is the blinding alone when the shares sign. -/
theorem v_eq_iff : (∑ i ∈ g.S.toFinset, (g.l i : ZMod C.N)) • C.G = g.v ↔ g.Signs := by
  have hvi : ∑ i ∈ g.S.toFinset, (g.shown i).vi = (∑ i ∈ g.S.toFinset, (g.l i : ZMod C.N)) • C.G +
      (∑ i ∈ g.S.toFinset, (g.s i : ZMod C.N)) • g.R := by
    rw [Finset.sum_smul, Finset.sum_smul, ← Finset.sum_add_distrib]
    exact Finset.sum_congr rfl fun i _ => g.shown_vi i
  rw [v, hvi, Signs, sub_sub, eq_sub_iff_add_eq, add_right_inj, eq_comm]

/-- A multiple by a scalar that is not zero cancels. -/
theorem smul_cancel {k : ZMod C.N} (hk : k ≠ 0) {P Q : C.Point} : k • P = k • Q ↔ P = Q := by
  refine ⟨fun h => ?_, fun h => h ▸ rfl⟩
  have hinv := congrArg (k⁻¹ • ·) h
  simpa only [smul_smul, inv_mul_cancel₀ hk, one_smul] using hinv

/-- The gate opens for shares that add up to a signature, whoever they come from, and stays shut for others,
exactly when every scalar fits. -/
theorem phase5d_iff (rg : Range ℕ) (ls : LocalSignature C) :
    (do phase5d (some ls) (← g.openings rg)) = .ok (if g.Signs then some ls.sI else none) ↔ g.Fits := by
  have hsum : (((rg.visit g.S).map g.opening).map fun o => o.1.ti + o.2.bi).sum =
      (((rg.visit g.S).map g.opening).map fun o => o.1.uI).sum ↔ g.Signs := by
    rw [sum_openings, sum_openings, sum_ti_add_bi, sum_uI, smul_cancel g.sum_rho, v_eq_iff]
  have hgate := (phase5d_eq ((rg.visit g.S).map g.opening) ls).trans (congrArg Except.ok (if_congr hsum rfl rfl))
  have hopenings := g.openings_returns rg
  constructor
  · intro h
    obtain ⟨opened, hopened, _⟩ := bind_eq_ok.mp h
    exact hopenings.only opened hopened
  · intro h
    rw [hopenings.eq_ok h]
    exact hgate

end Claimed

section Example

/-- Two signers and a digest that is the order of the curve. -/
def claimed5 : Claimed curve5 where
  S := [0, 1]
  S_nodup := Claimed.zero_one_nodup
  two_le := le_refl 2
  R := curve5.G
  M := 7
  Y := curve5.G
  s := fun _ => 5
  l := fun _ => 1
  rho := fun _ => 2
  sum_rho := by decide
  coins := fun _ =>
    { lI := curve5Key 1 one_fits, rhoI := curve5Key 2 two_fits, blindFactor := 9
      s1 := curve5Key 1 one_fits, s2 := curve5Key 5 five_fits }
  blindFactor := fun _ => 8
  loop := fun _ => Range.id ℕ

/-- The shares sign, and the gate is not reached. -/
theorem claimed5_panics : claimed5.Signs ∧
    (do phase5d (some (claimed5.localSignature 0)) (← claimed5.openings (Range.id ℕ))) ≠
      .ok (if claimed5.Signs then some (claimed5.localSignature 0).sI else none) := by
  have hsigns : claimed5.Signs := by decide
  refine ⟨hsigns, fun h => ?_⟩
  obtain ⟨opened, hopened, _⟩ := bind_eq_ok.mp h
  exact ((claimed5.openings_returns (Range.id ℕ)).only opened hopened).message rfl

end Example

end DistributedNotary.Mecdsa
