import DistributedNotary.Mecdsa.EndToEnd

/-! The check of a finished signature. `verify` replaces a large `s` by its negative
and flips the recovery id with it; the comparison that decides the first admits one
value more than the one that decides the second, and the last check admits one less. -/
namespace DistributedNotary.Mecdsa

open Library Share

variable {C : Curve}

/-- What `libsecp256k1` and the hash of an address add to the curve: the order `p` of the field,
and the point with a given abscissa and parity of the ordinate (`secp256k1_ge_set_xo_var`). -/
structure Recovery (C : Curve) where
  Address : Type
  [decEq : DecidableEq Address]
  pubkeyToAddress : C.Point → Address
  p : ℕ
  p_odd : p % 2 = 1
  N_odd : C.N % 2 = 1
  X_neg : ∀ P, C.X (-P) = C.X P
  Y_lt : ∀ P, P ≠ 0 → C.Y P < p
  Y_neg : ∀ P, P ≠ 0 → C.Y (-P) = p - C.Y P
  setXO : ℕ → ℕ → Option C.Point
  setXO_eq : ∀ x odd P, setXO x odd = some P ↔ P ≠ 0 ∧ C.X P = x ∧ C.Y P % 2 = odd

namespace Recovery

variable (lib : Recovery C)

/-- `Ecrecover`: the checks of the length of the signature and of its two halves, then `secp256k1_ecdsa_sig_recover`. -/
def ecrecover (h r s v : ℕ) : Option C.Point := do
  guard (v < 4 ∧ r < C.N ∧ s < C.N)
  guard (r ≠ 0 ∧ s ≠ 0)
  let fx ← if v / 2 = 1 then if r ≥ lib.p - C.N then none else some (r + C.N) else some r
  let x ← lib.setXO fx (v % 2)
  let rn := invertN C.N r
  let u1 := modSub C.N 0 (modMul C.N rn h)
  let u2 := modMul C.N rn s
  let q := pointAdd (scalarMult x u2) (scalarBaseMult C u1)
  if q = 0 then none else some q

def ethereum : Ethereum C where
  Address := lib.Address
  decEq := lib.decEq
  pubkeyToAddress := lib.pubkeyToAddress
  ecrecover := lib.ecrecover

theorem Y_neg_mod (lib : Recovery C) {P : C.Point} (hP : P ≠ 0) : C.Y (-P) % 2 = (C.Y P % 2) ^^^ 1 := by
  have hlt := lib.Y_lt P hP
  have hodd := lib.p_odd
  rw [lib.Y_neg P hP]
  obtain h | h := Nat.mod_two_eq_zero_or_one (C.Y P)
  · rw [h]
    change _ = 1
    omega
  · rw [h]
    change _ = 0
    omega

end Recovery

/-- The verification equation of ECDSA. -/
def EcdsaVerifies (y : C.Point) (m r s : ℕ) : Prop :=
  (0 < r ∧ r < C.N) ∧ (0 < s ∧ s < C.N) ∧
    C.X (((m : ZMod C.N) * (s : ZMod C.N)⁻¹) • C.G + ((r : ZMod C.N) * (s : ZMod C.N)⁻¹) • y) % C.N = r

/-- A signature `s` of the digest `m` for the nonce point `R` and the public key `y`. -/
structure IsSignature (R y : C.Point) (s m : ℕ) : Prop where
  R_ne_zero : R ≠ 0
  X_lt : C.X R < C.N
  s_pos : 0 < s
  s_lt : s < C.N
  m_lt : m < 2^256
  y_ne_zero : y ≠ 0
  eq : s • R = m • C.G + C.X R • y

/-- `verify` returns a signature with a small `s` that verifies for `y` and from which `y` is recovered. -/
def Normalizes (lib : Recovery C) (s : SPrivKey) (R y : C.Point) (m : ℕ) : Prop :=
  ∃ sig, verifySignature lib.ethereum s R y m = .ok (some sig) ∧ sig.r = C.X R ∧ sig.s ≤ halfN C ∧
    EcdsaVerifies y m sig.r sig.s ∧ lib.ecrecover m sig.r sig.s sig.v = some y

namespace IsSignature

variable {R y : C.Point} {s m : ℕ}

theorem cast_ne_zero {k : ℕ} (hpos : 0 < k) (hlt : k < C.N) : (k : ZMod C.N) ≠ 0 :=
  RandomPrivateKey.cast_ne_zero ⟨k, hpos, hlt⟩

theorem smul_eq (h : IsSignature R y s m) :
    (s : ZMod C.N) • R = (m : ZMod C.N) • C.G + (C.X R : ZMod C.N) • y := by
  rw [Curve.natCast_smul, Curve.natCast_smul, Curve.natCast_smul]
  exact h.eq

/-- The negative of `s` signs for the negative of `R`. -/
theorem neg (h : IsSignature R y s m) (lib : Recovery C) : IsSignature (-R) y (C.N - s) m where
  R_ne_zero := neg_ne_zero.mpr h.R_ne_zero
  X_lt := (lib.X_neg R).trans_lt h.X_lt
  s_pos := Nat.sub_pos_of_lt h.s_lt
  s_lt := Nat.sub_lt C.prime.pos h.s_pos
  m_lt := h.m_lt
  y_ne_zero := h.y_ne_zero
  eq := by
    rw [← Curve.natCast_smul, Nat.cast_sub h.s_lt.le, ZMod.natCast_self, zero_sub, neg_smul, smul_neg, neg_neg,
      lib.X_neg, Curve.natCast_smul]
    exact h.eq

/-- The nonce point is what the verification equation computes. -/
theorem verifier_eq (h : IsSignature R y s m) :
    ((m : ZMod C.N) * (s : ZMod C.N)⁻¹) • C.G + ((C.X R : ZMod C.N) * (s : ZMod C.N)⁻¹) • y = R := by
  have hs : (s : ZMod C.N) ≠ 0 := cast_ne_zero h.s_pos h.s_lt
  calc ((m : ZMod C.N) * (s : ZMod C.N)⁻¹) • C.G + ((C.X R : ZMod C.N) * (s : ZMod C.N)⁻¹) • y
      = (s : ZMod C.N)⁻¹ • ((m : ZMod C.N) • C.G + (C.X R : ZMod C.N) • y) := by module
    _ = R := by rw [← h.smul_eq, smul_smul, inv_mul_cancel₀ hs, one_smul]

theorem verifies (h : IsSignature R y s m) (hr : C.X R ≠ 0) : EcdsaVerifies y m (C.X R) s :=
  ⟨⟨Nat.pos_of_ne_zero hr, h.X_lt⟩, ⟨h.s_pos, h.s_lt⟩, by rw [h.verifier_eq, Nat.mod_eq_of_lt h.X_lt]⟩

theorem recovers (h : IsSignature R y s m) (lib : Recovery C) (hr : C.X R ≠ 0) :
    lib.ecrecover m (C.X R) s (C.Y R % 2) = some y := by
  have hv : C.Y R % 2 < 2 := Nat.mod_lt _ Nat.two_pos
  have hset : lib.setXO (C.X R) (C.Y R % 2 % 2) = some R :=
    (lib.setXO_eq _ _ _).mpr ⟨h.R_ne_zero, rfl, (Nat.mod_mod _ _).symm⟩
  have hrn := cast_ne_zero (C := C) (Nat.pos_of_ne_zero hr) h.X_lt
  have hq : pointAdd (scalarMult R (modMul C.N (invertN C.N (C.X R)) s))
      (scalarBaseMult C (modSub C.N 0 (modMul C.N (invertN C.N (C.X R)) m))) = y := by
    rw [pointAdd, scalarMult_eq, scalarBaseMult_eq, cast_modMul, cast_modSub, cast_modMul, cast_invertN hrn,
      Nat.cast_zero, mul_smul, h.smul_eq, smul_add, smul_smul, smul_smul, inv_mul_cancel₀ hrn, one_smul, zero_sub,
      neg_smul]
    abel
  have hlow : ¬ C.Y R % 2 / 2 = 1 := by omega
  rw [Recovery.ecrecover]
  simp only [guard, hv.trans (by decide : 2 < 4), h.X_lt, h.s_lt, hr, h.s_pos.ne', hlow, hset, hq, h.y_ne_zero,
    ne_eq, not_false_eq_true, and_self, if_true, if_false, Option.pure_def, Option.bind_eq_bind, Option.bind_some]

/-- The multiples of the equation have no coordinates when the scalar is zero. -/
theorem bitCurveMult_eq (h : IsSignature R y s m) (P : C.Point) (k : ℕ) :
    bitCurveMult P (modMul C.N (bigInt2PrivateKey C.N k) (invertN C.N s)) =
      if (k : ZMod C.N) = 0 then none else some (((k : ZMod C.N) * (s : ZMod C.N)⁻¹) • P) := by
  have hs : (s : ZMod C.N) ≠ 0 := cast_ne_zero h.s_pos h.s_lt
  have hcast : (modMul C.N (bigInt2PrivateKey C.N k) (invertN C.N s) : ZMod C.N) = k * (s : ZMod C.N)⁻¹ := by
    rw [cast_modMul, cast_bigInt2PrivateKey, cast_invertN hs]
  by_cases hk : (k : ZMod C.N) = 0
  · have hzero : modMul C.N (bigInt2PrivateKey C.N k) (invertN C.N s) = 0 :=
      eq_of_cast (modMul_lt _ _) C.prime.pos (by rw [hcast, hk, zero_mul, Nat.cast_zero])
    rw [bitCurveMult, if_pos (.inl hzero), if_pos hk]
  · have hne : modMul C.N (bigInt2PrivateKey C.N k) (invertN C.N s) ≠ 0 := fun h0 => by
      rw [h0, Nat.cast_zero] at hcast
      exact mul_ne_zero hk (inv_ne_zero hs) hcast.symm
    rw [bitCurveMult, if_neg (not_or.mpr ⟨hne, (modMul_lt _ _).not_ge⟩), if_neg hk, ← hcast, scalarMult_eq]

/-- The equation holds unless the digest or the abscissa is zero as a scalar, where its evaluation panics. -/
theorem verifyEquation_iff (h : IsSignature R y s m) :
    verifyEquation s R y m = .ok true ↔ ¬ C.N ∣ m ∧ C.X R ≠ 0 := by
  have hu1 := h.bitCurveMult_eq C.G m
  have hu2 := h.bitCurveMult_eq y (C.X R)
  have hdvd := ZMod.natCast_eq_zero_iff m C.N
  have hX : (C.X R : ZMod C.N) = 0 ↔ C.X R = 0 :=
    ⟨fun h0 => Nat.eq_zero_of_dvd_of_lt ((ZMod.natCast_eq_zero_iff _ _).mp h0) h.X_lt,
      fun h0 => by rw [h0, Nat.cast_zero]⟩
  rw [verifyEquation]
  by_cases hm : (m : ZMod C.N) = 0
  · rw [if_pos hm] at hu1
    simp only [hu1]
    exact ⟨(nomatch ·), fun h0 => absurd (hdvd.mp hm) h0.1⟩
  rw [if_neg hm] at hu1
  by_cases hr : (C.X R : ZMod C.N) = 0
  · rw [if_pos hr] at hu2
    simp only [hu1, hu2]
    exact ⟨(nomatch ·), fun h0 => absurd (hX.mp hr) h0.2⟩
  rw [if_neg hr] at hu2
  simp only [hu1, hu2, deref_some]
  have heq := h.verifier_eq
  refine iff_of_true ?_ ⟨fun h0 => hm (hdvd.mpr h0), fun h0 => hr (hX.mpr h0)⟩
  change Except.ok (decide (bigInt2PrivateKey C.N (C.X (_ + _)) = _)) = _
  rw [heq, decide_eq_true rfl]

/-- The order is odd, so that the half is the last value that is not large. -/
theorem N_eq (lib : Recovery C) : C.N = 2 * halfN C + 1 := by
  have hodd := lib.N_odd
  rw [halfN]
  omega

theorem restoreAndCheckRS_iff (sig : Signature) :
    restoreAndCheckRS C sig = .ok () ↔ (sig.v = 0 ∨ sig.v = 1) ∧ sig.s < halfN C := by
  rw [restoreAndCheckRS]
  by_cases hv : sig.v ≠ 0 ∧ sig.v ≠ 1
  · rw [if_pos hv]
    exact iff_of_false (nomatch ·) fun h => h.1.elim hv.1 hv.2
  rw [if_neg hv]
  have hv' : sig.v = 0 ∨ sig.v = 1 := by omega
  by_cases hs : sig.s ≥ halfN C
  · exact iff_of_false (fun h => nomatch (if_pos hs).symm.trans h) fun h => hs.not_gt h.2
  · exact iff_of_true (if_neg hs) ⟨hv', not_le.mp hs⟩

/-- `verify` returns a signature when the equation holds, the signer is recovered and the last check passes. -/
theorem verifySignature_iff {eth : Ethereum C} {s : ℕ} {R y : C.Point} {m : ℕ} {sig : Signature} :
    verifySignature eth s R y m = .ok (some sig) ↔ verifyEquation s R y m = .ok true ∧
      sig = normalizedSignature s R ∧
      (∃ pubkey2, eth.ecrecover (m % 2^256) sig.r sig.s sig.v = some pubkey2 ∧
        eth.pubkeyToAddress pubkey2 = eth.pubkeyToAddress y) ∧ restoreAndCheckRS C sig = .ok () := by
  constructor
  · intro hsig
    rw [verifySignature] at hsig
    cases heq : verifyEquation s R y m with
    | error e =>
      rw [heq] at hsig
      exact nomatch hsig
    | ok b =>
      rw [heq] at hsig
      cases b with
      | false => exact nomatch hsig
      | true =>
        cases hrec : eth.ecrecover (m % 2^256) (normalizedSignature s R).r (normalizedSignature s R).s
            (normalizedSignature s R).v with
        | none =>
          simp only [hrec] at hsig
          exact nomatch hsig
        | some pubkey2 =>
          simp only [hrec] at hsig
          by_cases haddr : eth.pubkeyToAddress pubkey2 = eth.pubkeyToAddress y
          · rw [if_pos haddr] at hsig
            change (restoreAndCheckRS C (normalizedSignature s R) >>= fun _ => _) = _ at hsig
            cases hcheck : restoreAndCheckRS C (normalizedSignature s R) with
            | error e =>
              rw [hcheck] at hsig
              exact nomatch hsig
            | ok u =>
              rw [hcheck] at hsig
              obtain rfl : normalizedSignature s R = sig := Option.some.inj (Except.ok.inj hsig)
              exact ⟨rfl, rfl, ⟨pubkey2, hrec, haddr⟩, hcheck⟩
          · simp only [if_neg haddr] at hsig
            exact nomatch hsig
  · rintro ⟨heq, rfl, ⟨pubkey2, hrec, haddr⟩, hcheck⟩
    rw [verifySignature, heq]
    simp only [hrec, if_pos haddr]
    exact (bind_ok (a := ()) hcheck _)

variable {R y : C.Point} {s m : ℕ}

/-- Away from the half, the normalised signature is the signature or its negative. -/
theorem normalized (h : IsSignature R y s m) (lib : Recovery C) (hs : s ≠ halfN C) :
    ∃ R', IsSignature R' y (normalizedSignature s R).s m ∧ C.X R' = C.X R ∧
      C.Y R' % 2 = (normalizedSignature s R).v := by
  by_cases hlt : s < halfN C
  · have h1 : (normalizedSignature s R).s = s := if_neg hlt.not_ge
    have h2 : (normalizedSignature s R).v = C.Y R % 2 := if_neg hlt.not_gt
    rw [h1, h2]
    exact ⟨R, h, rfl, rfl⟩
  · have hgt : halfN C < s := lt_of_le_of_ne (not_lt.mp hlt) hs.symm
    have h1 : (normalizedSignature s R).s = C.N - s := if_pos hgt.le
    have h2 : (normalizedSignature s R).v = (C.Y R % 2) ^^^ 1 := if_pos hgt
    rw [h1, h2]
    exact ⟨-R, h.neg lib, lib.X_neg R, lib.Y_neg_mod h.R_ne_zero⟩

/-- The half and its successor are the values of `s` that the last check refuses. -/
theorem normalizedSignature_s_lt (h : IsSignature R y s m) (lib : Recovery C) :
    (normalizedSignature s R).s < halfN C ↔ s ≠ halfN C ∧ s ≠ halfN C + 1 := by
  have hN := N_eq lib
  have hlt := h.s_lt
  by_cases hge : s ≥ halfN C
  · have h1 : (normalizedSignature s R).s = C.N - s := if_pos hge
    rw [h1]
    omega
  · have h1 : (normalizedSignature s R).s = s := if_neg hge
    rw [h1]
    omega

/-- `verify` normalises a signature exactly when `s` is neither the half of the order nor its successor
and the digest and the abscissa are not zero as scalars. -/
theorem verify_normalizes_iff (h : IsSignature R y s m) (lib : Recovery C) :
    Normalizes lib s R y m ↔ (s ≠ halfN C ∧ s ≠ halfN C + 1) ∧ ¬ C.N ∣ m ∧ C.X R ≠ 0 := by
  have hm : m % 2^256 = m := Nat.mod_eq_of_lt h.m_lt
  have hr : (normalizedSignature s R).r = C.X R := Nat.mod_eq_of_lt h.X_lt
  constructor
  · rintro ⟨sig, hsig, -⟩
    obtain ⟨heq, rfl, -, hcheck⟩ := verifySignature_iff.mp hsig
    exact ⟨(h.normalizedSignature_s_lt lib).mp ((restoreAndCheckRS_iff _).mp hcheck).2, h.verifyEquation_iff.mp heq⟩
  · rintro ⟨hs, hzero⟩
    obtain ⟨R', h', hX, hY⟩ := h.normalized lib hs.1
    have hlt := (h.normalizedSignature_s_lt lib).mpr hs
    have hrec := h'.recovers lib (hX.trans_ne hzero.2)
    have hverifies := h'.verifies (hX.trans_ne hzero.2)
    rw [hX, hY, ← hr] at hrec
    rw [hX, ← hr] at hverifies
    have hv : (normalizedSignature s R).v = 0 ∨ (normalizedSignature s R).v = 1 := by
      rw [← hY]
      exact Nat.mod_two_eq_zero_or_one _
    exact ⟨normalizedSignature s R, verifySignature_iff.mpr ⟨h.verifyEquation_iff.mpr hzero, rfl,
      ⟨y, by rw [hm]; exact hrec, rfl⟩, (restoreAndCheckRS_iff _).mpr ⟨hv, hlt⟩⟩, hr, hlt.le, hverifies, hrec⟩

end IsSignature

section Example

instance : Fintype curve5.Point := inferInstanceAs (Fintype (ZMod 7))

def points5 : List curve5.Point := List.finRange 7

/-- Square roots on the small curve are found among its points. -/
def recovery5 : Recovery curve5 where
  Address := curve5.Point
  pubkeyToAddress := fun P => P
  p := 5
  p_odd := rfl
  N_odd := rfl
  X_neg := by decide
  Y_lt := by decide
  Y_neg := by decide
  setXO := fun x odd => points5.find? fun P => P ≠ 0 && curve5.X P = x && curve5.Y P % 2 = odd
  setXO_eq := by
    have hinj : ∀ P Q : curve5.Point, P ≠ 0 → Q ≠ 0 → curve5.X P = curve5.X Q → curve5.Y P % 2 = curve5.Y Q % 2 →
        P = Q := by decide
    have hmem : ∀ P : curve5.Point, P ∈ points5 := by decide
    intro x odd P
    constructor
    · intro h
      have hP := List.find?_some h
      simp only [Bool.and_eq_true, decide_eq_true_eq] at hP
      exact ⟨hP.1.1, hP.1.2, hP.2⟩
    · rintro ⟨h0, rfl, rfl⟩
      obtain ⟨Q, hfind⟩ := Option.isSome_iff_exists.mp (List.find?_isSome
        (p := fun Q => Q ≠ 0 && curve5.X Q = curve5.X P && curve5.Y Q % 2 = curve5.Y P % 2).mpr
          ⟨P, hmem P, by simp [h0]⟩)
      have hQ := List.find?_some hfind
      simp only [Bool.and_eq_true, decide_eq_true_eq] at hQ
      rw [hfind, hinj Q P hQ.1.1 h0 hQ.1.2 hQ.2]

/-- The public key for which `s` signs `m` with the base point as nonce, whose abscissa is three. -/
def signer5 (s m : ℕ) : curve5.Point := ((5 * (s - m) : ZMod 7) : ZMod 7)

theorem verify_normalizes_iff_signer5 :
    IsSignature curve5.G (signer5 5 1) 5 1 ∧ Normalizes recovery5 5 curve5.G (signer5 5 1) 1 := by
  have h : IsSignature curve5.G (signer5 5 1) 5 1 :=
    ⟨by decide, by decide, by decide, by decide, by decide, by decide, by decide⟩
  exact ⟨h, (h.verify_normalizes_iff recovery5).mpr (by decide)⟩

/-- The half of the order is not normalised, nor is its successor. -/
theorem not_normalizes_half5 :
    (IsSignature curve5.G (signer5 3 1) 3 1 ∧ ¬ Normalizes recovery5 3 curve5.G (signer5 3 1) 1) ∧
    IsSignature curve5.G (signer5 4 1) 4 1 ∧ ¬ Normalizes recovery5 4 curve5.G (signer5 4 1) 1 := by
  refine ⟨⟨⟨by decide, by decide, by decide, by decide, by decide, by decide, by decide⟩, ?_⟩,
    ⟨by decide, by decide, by decide, by decide, by decide, by decide, by decide⟩, ?_⟩
  · rintro ⟨sig, hsig, -⟩
    have hrun : verifySignature recovery5.ethereum 3 curve5.G (signer5 3 1) 1 = .ok none := by decide +kernel
    rw [hrun] at hsig
    exact nomatch hsig
  · rintro ⟨sig, hsig, -⟩
    have hrun : verifySignature recovery5.ethereum 4 curve5.G (signer5 4 1) 1 = .error "wrong s" := by decide +kernel
    rw [hrun] at hsig
    exact nomatch hsig

end Example

end DistributedNotary.Mecdsa
