import Mathlib.Algebra.Module.ZMod
import Mathlib.FieldTheory.Finite.Basic
import Mathlib.Tactic.Abel
import Mathlib.Tactic.LinearCombination

/-! The scalars and points of `curv/share`. A private key is a natural number
reduced modulo the order of the curve; the operations are those of the Go
source, with their branches. The curve is given by the group it carries: a
point is an element of that group, and its affine coordinates are functions on
it, the pair `(0,0)` of the source being the neutral element. -/
namespace DistributedNotary.Mecdsa

/-- The curve `share.S`: a group of prime exponent with affine coordinates. -/
structure Curve where
  Point : Type
  [group : AddCommGroup Point]
  [decEq : DecidableEq Point]
  N : ℕ
  prime : N.Prime
  order : ∀ P : Point, N • P = 0
  G : Point
  G_ne_zero : G ≠ 0
  X : Point → ℕ
  Y : Point → ℕ
  coordinates : ∀ P Q, X P = X Q → Y P = Y Q → P = Q

namespace Curve

variable (C : Curve)

instance : AddCommGroup C.Point := C.group
instance : DecidableEq C.Point := C.decEq
instance : Fact C.N.Prime := ⟨C.prime⟩
instance : NeZero C.N := ⟨C.prime.ne_zero⟩

/-- Scalars act on points through their residue. -/
instance : Module (ZMod C.N) C.Point := AddCommGroup.zmodModule C.order

/-- Two points with the coordinates `X.Cmp` and `Y.Cmp` compare equal. -/
def eqGE (P Q : C.Point) : Bool := C.X P == C.X Q && C.Y P == C.Y Q

variable {C}

theorem eqGE_iff {P Q : C.Point} : C.eqGE P Q = true ↔ P = Q := by
  simp only [eqGE, Bool.and_eq_true, beq_iff_eq]
  exact ⟨fun h => C.coordinates P Q h.1 h.2, fun h => h ▸ ⟨rfl, rfl⟩⟩

theorem natCast_smul (k : ℕ) (P : C.Point) : (k : ZMod C.N) • P = k • P := Nat.cast_smul_eq_nsmul _ k P

theorem smul_G_eq_zero {z : ZMod C.N} (h : z • C.G = 0) : z = 0 := by
  by_contra hz
  refine C.G_ne_zero ?_
  have h2 : z⁻¹ • z • C.G = 0 := by rw [h, smul_zero]
  rwa [smul_smul, inv_mul_cancel₀ hz, one_smul] at h2

theorem smul_G_injective {a b : ZMod C.N} (h : a • C.G = b • C.G) : a = b := by
  have hz : (a - b) • C.G = 0 := by rw [sub_smul, h, sub_self]
  exact sub_eq_zero.mp (smul_G_eq_zero hz)

end Curve

namespace Share

/-- A private key; the source keeps it reduced modulo the order. -/
abbrev SPrivKey := ℕ

variable (N : ℕ)

/-- A value drawn by `RandomPrivateKey`. -/
abbrev RandomPrivateKey := {k : SPrivKey // 0 < k ∧ k < N}

def privKeyZero : SPrivKey := 0

def bigInt2PrivateKey (i : ℕ) : SPrivKey := i % N

def modAdd (s1 s2 : SPrivKey) : SPrivKey := (s1 % N + s2 % N) % N

def modMul (s1 s2 : SPrivKey) : SPrivKey := (s1 % N * (s2 % N)) % N

def modSub (s1 s2 : SPrivKey) : SPrivKey :=
  let s1 := s1 % N
  let t := s2 % N
  if s1 ≥ t then (s1 - t) % N else (s1 + (N - t)) % N

/-- Fermat inversion. -/
def invertN (k : SPrivKey) : SPrivKey := k ^ (N - 2) % N

section Residues

variable {N}

@[simp] theorem cast_bigInt2PrivateKey (i : ℕ) : (bigInt2PrivateKey N i : ZMod N) = i := by
  simp [bigInt2PrivateKey]

@[simp] theorem cast_privKeyZero : (privKeyZero : ZMod N) = 0 := by simp [privKeyZero]

@[simp] theorem cast_modAdd (a b : SPrivKey) : (modAdd N a b : ZMod N) = a + b := by simp [modAdd]

@[simp] theorem cast_modMul (a b : SPrivKey) : (modMul N a b : ZMod N) = a * b := by simp [modMul]

@[simp] theorem cast_modSub [NeZero N] (a b : SPrivKey) : (modSub N a b : ZMod N) = a - b := by
  have hb : b % N < N := Nat.mod_lt b (NeZero.pos N)
  unfold modSub
  dsimp only
  split
  · rw [ZMod.natCast_mod, Nat.cast_sub ‹_›, ZMod.natCast_mod, ZMod.natCast_mod]
  · rw [ZMod.natCast_mod, Nat.cast_add, Nat.cast_sub hb.le, ZMod.natCast_mod, ZMod.natCast_mod, ZMod.natCast_self]
    ring

theorem cast_invertN [Fact N.Prime] {k : SPrivKey} (hk : (k : ZMod N) ≠ 0) :
    (invertN N k : ZMod N) = (k : ZMod N)⁻¹ := by
  have hN : 2 ≤ N := (Fact.out : N.Prime).two_le
  have hp : (k : ZMod N) ^ (N-2) * k = 1 := by
    rw [← pow_succ, show N-2+1 = N-1 by omega]
    exact ZMod.pow_card_sub_one_eq_one hk
  rw [invertN, ZMod.natCast_mod, Nat.cast_pow]
  exact eq_inv_of_mul_eq_one_left hp

theorem modAdd_lt [NeZero N] (a b : SPrivKey) : modAdd N a b < N := Nat.mod_lt _ (NeZero.pos N)

theorem modSub_lt [NeZero N] (a b : SPrivKey) : modSub N a b < N := by
  unfold modSub
  dsimp only
  split <;> exact Nat.mod_lt _ (NeZero.pos N)

theorem modMul_lt [NeZero N] (a b : SPrivKey) : modMul N a b < N := Nat.mod_lt _ (NeZero.pos N)

theorem bigInt2PrivateKey_lt [NeZero N] (i : ℕ) : bigInt2PrivateKey N i < N := Nat.mod_lt _ (NeZero.pos N)

/-- Reduced keys are equal when their residues are. -/
theorem eq_of_cast {a b : ℕ} (ha : a < N) (hb : b < N) (h : (a : ZMod N) = b) : a = b := by
  have h2 := (ZMod.natCast_eq_natCast_iff a b N).mp h
  rwa [Nat.ModEq, Nat.mod_eq_of_lt ha, Nat.mod_eq_of_lt hb] at h2

theorem cast_eq_zero_iff {a : ℕ} (ha : a < N) : (a : ZMod N) = 0 ↔ a = 0 := by
  rw [ZMod.natCast_eq_zero_iff]
  exact ⟨fun h => Nat.eq_zero_of_dvd_of_lt h ha, fun h => h ▸ dvd_zero N⟩

theorem RandomPrivateKey.cast_ne_zero (k : RandomPrivateKey N) : ((k : ℕ) : ZMod N) ≠ 0 := by
  intro h
  exact Nat.not_dvd_of_pos_of_lt k.2.1 k.2.2 ((ZMod.natCast_eq_zero_iff _ _).mp h)

/-- The order is prime. -/
theorem modMul_ne_zero [Fact N.Prime] {a b : SPrivKey} (ha : 0 < a ∧ a < N) (hb : 0 < b ∧ b < N) :
    modMul N a b ≠ 0 := by
  have hcast := mul_ne_zero (RandomPrivateKey.cast_ne_zero ⟨a,ha⟩) (RandomPrivateKey.cast_ne_zero ⟨b,hb⟩)
  intro h
  rw [← cast_modMul, h, Nat.cast_zero] at hcast
  exact hcast rfl

/-- A loop that adds its summands into an accumulator. -/
def modSum (N : ℕ) (acc : SPrivKey) (l : List SPrivKey) : SPrivKey := l.foldl (modAdd N) acc

@[simp] theorem cast_modSum (acc : SPrivKey) (l : List SPrivKey) :
    (modSum N acc l : ZMod N) = acc + (l.map fun s : ℕ => (s : ZMod N)).sum := by
  induction l generalizing acc with
  | nil => simp [modSum]
  | cons s l ih =>
    have h := ih (modAdd N acc s)
    simp only [modSum, List.foldl_cons] at h ⊢
    rw [h, cast_modAdd, List.map_cons, List.sum_cons, add_assoc]

theorem modSum_lt [NeZero N] {acc : SPrivKey} (h : acc < N) (l : List SPrivKey) : modSum N acc l < N := by
  induction l generalizing acc with
  | nil => exact h
  | cons s l ih => exact ih (modAdd_lt acc s)

end Residues

section Points

variable {C : Curve}

/-- The multiple of a point in the group, whatever the scalar. -/
def scalarMult (P : C.Point) (k : ℕ) : C.Point := k • P

def scalarBaseMult (C : Curve) (k : ℕ) : C.Point := k • C.G

/-- `ScalarMult` of the library, with nil coordinates where the scalar is not between zero and the order. -/
def bitCurveMult (P : C.Point) (k : ℕ) : Option C.Point :=
  if k = 0 ∨ C.N ≤ k then none else some (scalarMult P k)

def pointAdd (P Q : C.Point) : C.Point := P + Q

def pointSub (P Q : C.Point) : C.Point := P + -Q

theorem scalarMult_eq (P : C.Point) (k : ℕ) : scalarMult P k = (k : ZMod C.N) • P :=
  (Curve.natCast_smul k P).symm

theorem scalarBaseMult_eq (k : ℕ) : scalarBaseMult C k = (k : ZMod C.N) • C.G :=
  (Curve.natCast_smul k C.G).symm

theorem pointSub_eq (P Q : C.Point) : pointSub P Q = P - Q := (sub_eq_add_neg P Q).symm

/-- A loop that adds its points into an accumulator. -/
def pointSum (acc : C.Point) (l : List C.Point) : C.Point := l.foldl pointAdd acc

theorem pointSum_eq (acc : C.Point) (l : List C.Point) : pointSum acc l = acc + l.sum := by
  induction l generalizing acc with
  | nil => simp [pointSum]
  | cons P l ih =>
    have h := ih (pointAdd acc P)
    simp only [pointSum, List.foldl_cons] at h ⊢
    rw [h, pointAdd, List.sum_cons, add_assoc]

end Points

end Share

section Example

open Share

/-- The seven points of `y² = x³ + 2x + 1` over the field of 5 elements, as multiples of `(3,2)`. -/
def curve5 : Curve where
  Point := ZMod 7
  N := 7
  prime := by decide
  order := by decide
  G := 1
  G_ne_zero := by decide
  X := fun P => [0, 3, 0, 1, 1, 0, 3].getD P.val 0
  Y := fun P => [0, 2, 1, 2, 3, 4, 3].getD P.val 0
  coordinates := by decide

def curve5Key (k : ℕ) (h : 0 < k ∧ k < 7 := by decide) : RandomPrivateKey curve5.N := ⟨k, h⟩

theorem one_fits : 0 < 1 ∧ 1 < 7 := by decide

theorem two_fits : 0 < 2 ∧ 2 < 7 := by decide

theorem three_fits : 0 < 3 ∧ 3 < 7 := by decide

theorem four_fits : 0 < 4 ∧ 4 < 7 := by decide

theorem five_fits : 0 < 5 ∧ 5 < 7 := by decide

theorem six_fits : 0 < 6 ∧ 6 < 7 := by decide

end Example

end DistributedNotary.Mecdsa
