import DistributedNotary.Library.Checks
import DistributedNotary.Library.RangeMap
import DistributedNotary.Library.Sha256
import DistributedNotary.Mecdsa.CorrectKey
import DistributedNotary.Mecdsa.Messages
import DistributedNotary.Mecdsa.Transcripts

/-! The messages of a key negotiation as they come from a peer, before anything is
known about them: a pointer may be nil, a list may have any length and an integer
any size. The two verifiers of `curv/proofs` and the check of a share read them
without looking first, and where something is missing they panic. -/
namespace DistributedNotary.Mecdsa

open Library Share

/-- A `*big.Int`. -/
abbrev BigInt := Option ℤ

structure WireKey where
  X : BigInt
  Y : BigInt

structure WireProof where
  PK : Option WireKey
  pkTRandCommitment : Option WireKey
  challengeResponse : BigInt

/-- The message of the first phase, and that of the last. -/
structure WireMessage1 where
  proof : Option WireProof

/-- Of the key only the modulus is used; the proof is its list of sigmas. -/
structure WireMessage2 where
  paillierPubkey : Option BigInt
  com : BigInt
  correctKeyProof : Option (List BigInt)
  blindFactor : BigInt

/-- Of the verifiable sharing only the commitments are used. -/
structure WireMessage3 where
  vss : Option (List (Option WireKey))
  secretShare : BigInt

/-- The curve as the two libraries compute on coordinates, also on pairs that are no points: `mul` is the multiplication
of the C library on coordinates of 32 bytes, `add` the addition, which may panic on coordinates of any size. -/
structure WireCurve where
  N : ℕ
  two_le : 2 ≤ N
  N_le : N ≤ 2^256
  G : ℤ × ℤ
  mul : ℕ × ℕ → ℕ → ℤ × ℤ
  add : ℤ × ℤ → ℤ × ℤ → Option (ℤ × ℤ)

/-- A computation comes to an end. -/
def Returns {α : Type} (x : Except String α) : Prop := ∃ a, x = .ok a

section Returns

variable {α β : Type}

theorem returns_ok (a : α) : Returns (.ok a : Except String α) := ⟨a, rfl⟩

theorem returns_pure (a : α) : Returns (pure a : Except String α) := ⟨a, rfl⟩

theorem not_returns_error (err : String) : ¬ Returns (.error err : Except String α) := fun ⟨_, h⟩ => nomatch h

theorem returns_bind {x : Except String α} {f : α → Except String β} :
    Returns (x >>= f) ↔ ∃ a, x = .ok a ∧ Returns (f a) := by
  simp only [Returns, bind_eq_ok]
  rw [exists_comm]
  simp only [exists_and_left]

theorem returns_deref_bind {o : Option α} {f : α → Except String β} :
    Returns (deref o >>= f) ↔ ∃ a, o = some a ∧ Returns (f a) := by
  rw [returns_bind]
  simp only [deref_eq_ok]

end Returns

namespace WireCurve

variable (lib : WireCurve)

/-- `ScalarMult` on the bytes of a scalar; the coordinates are cut to 32 bytes, and nil where the scalar
is out of range. -/
def scalarMult (P : ℤ × ℤ) (k : ℕ) : Except String (Option (ℤ × ℤ)) :=
  if 2^256 ≤ k then .error "can't handle scalars > 256 bits"
  else if k = 0 ∨ lib.N ≤ k then .ok none
  else .ok (some (lib.mul (P.1.natAbs % 2^256, P.2.natAbs % 2^256) k))

/-- What a computation goes on with after a multiplication. -/
theorem returns_scalarMult_bind {β : Type} {P : ℤ × ℤ} {k : ℕ} {f : Option (ℤ × ℤ) → Except String β} :
    Returns (lib.scalarMult P k >>= f) ↔ k < 2^256 ∧
      Returns (f (if k = 0 ∨ lib.N ≤ k then none else some (lib.mul (P.1.natAbs % 2^256, P.2.natAbs % 2^256) k))) := by
  rw [scalarMult]
  by_cases hbig : 2^256 ≤ k
  · rw [if_pos hbig]
    exact iff_of_false (not_returns_error _) fun h => hbig.not_gt h.1
  · rw [if_neg hbig]
    by_cases hrange : k = 0 ∨ lib.N ≤ k
    · rw [if_pos hrange, if_pos hrange]
      exact ⟨fun h => ⟨not_le.mp hbig, h⟩, fun h => h.2⟩
    · rw [if_neg hrange, if_neg hrange]
      exact ⟨fun h => ⟨not_le.mp hbig, h⟩, fun h => h.2⟩

theorem ite_none_eq_some {k : ℕ} {P Q : ℤ × ℤ} :
    (if k = 0 ∨ lib.N ≤ k then none else some P) = some Q ↔ (0 < k ∧ k < lib.N) ∧ P = Q := by
  by_cases hrange : k = 0 ∨ lib.N ≤ k
  · rw [if_pos hrange]
    exact iff_of_false (nomatch ·) fun h => by omega
  · rw [if_neg hrange, Option.some.injEq]
    exact ⟨fun h => ⟨by omega, h⟩, fun h => h.2⟩

/-- The challenge of a proof. -/
def challenge (tx pkx : ℤ) : ℕ := Proofs.sha256 [bigBytes tx, bigBytes lib.G.1, bigBytes pkx] % lib.N

/-- The point that the verifier compares with the commitment of a proof. -/
def pkVerifier (tx pkx pky resp : ℤ) : Option (ℤ × ℤ) :=
  lib.add (lib.mul (lib.G.1.natAbs % 2^256, lib.G.2.natAbs % 2^256) resp.natAbs)
    (lib.mul (pkx.natAbs % 2^256, pky.natAbs % 2^256) (lib.challenge tx pkx))

/-- `Verify` of a proof of knowledge; the second coordinate is looked at only if the first agrees. -/
def verifyProof (proof : Option WireProof) : Except String Bool := do
  let proof ← deref proof
  let t ← deref proof.pkTRandCommitment
  let tx ← deref t.X
  let pk ← deref proof.PK
  let pkx ← deref pk.X
  let pky ← deref pk.Y
  let pkChallenge ← lib.scalarMult (pkx, pky) (lib.challenge tx pkx)
  let resp ← deref proof.challengeResponse
  let pkVerifier ← lib.scalarMult lib.G resp.natAbs
  let pkVerifier ← deref pkVerifier
  let pkChallenge ← deref pkChallenge
  let sum ← deref (lib.add pkVerifier pkChallenge)
  if sum.1 = tx then return sum.2 = (← deref t.Y) else return false

/-- A proof in which nothing is missing that the verifier reads. -/
def ReadableProof (proof : Option WireProof) : Prop :=
  ∃ p t tx pk pkx pky resp, proof = some p ∧ p.pkTRandCommitment = some t ∧ t.X = some tx ∧ p.PK = some pk ∧
    pk.X = some pkx ∧ pk.Y = some pky ∧ p.challengeResponse = some resp ∧ lib.challenge tx pkx ≠ 0 ∧
    (0 < resp.natAbs ∧ resp.natAbs < lib.N) ∧
      ∃ sum, lib.pkVerifier tx pkx pky resp = some sum ∧ (sum.1 = tx → t.Y.isSome)

theorem challenge_lt (tx pkx : ℤ) : lib.challenge tx pkx < lib.N :=
  Nat.mod_lt _ (Nat.lt_of_lt_of_le Nat.two_pos lib.two_le)

theorem returns_verifyProof_iff (proof : Option WireProof) :
    Returns (lib.verifyProof proof) ↔ lib.ReadableProof proof := by
  have hN := lib.N_le
  have hch := lib.challenge_lt
  have hlast : ∀ (sum : ℤ × ℤ) (tx : ℤ) (ty : BigInt), Returns (if sum.1 = tx then (do
      let ty ← deref ty
      return decide (sum.2 = ty)) else pure false : Except String Bool) ↔ (sum.1 = tx → ty.isSome) := by
    intro sum tx ty
    by_cases hx : sum.1 = tx
    · rw [if_pos hx, returns_deref_bind]
      simp only [returns_pure, and_true, hx, true_implies, Option.isSome_iff_exists]
    · rw [if_neg hx]
      exact iff_of_true (returns_pure _) fun h => absurd h hx
  rw [verifyProof]
  simp only [returns_deref_bind, returns_scalarMult_bind, ite_none_eq_some]
  constructor
  · rintro ⟨p, hp, t, ht, tx, htx, pk, hpk, pkx, hpkx, pky, hpky, -, resp, hresp, -, v, ⟨hr, rfl⟩, c, ⟨hc, rfl⟩,
      sum, hsum, hend⟩
    exact ⟨p, t, tx, pk, pkx, pky, resp, hp, ht, htx, hpk, hpkx, hpky, hresp, hc.1.ne', hr, sum, hsum,
      (hlast _ _ _).mp hend⟩
  · rintro ⟨p, t, tx, pk, pkx, pky, resp, hp, ht, htx, hpk, hpkx, hpky, hresp, hc, hr, sum, hsum, hend⟩
    exact ⟨p, hp, t, ht, tx, htx, pk, hpk, pkx, hpkx, pky, hpky, (hch tx pkx).trans_le hN,
      resp, hresp, hr.2.trans_le hN,
      _, ⟨hr, rfl⟩, _, ⟨⟨Nat.pos_of_ne_zero hc, hch tx pkx⟩, rfl⟩, sum, hsum, (hlast _ _ _).mpr hend⟩

end WireCurve

/-- The coordinates of a point, when they are there. -/
def WireKey.coordinates (c : Option WireKey) : Option (ℤ × ℤ) := do
  let c ← c
  return (← c.X, ← c.Y)

theorem WireKey.coordinates_eq_some {c : Option WireKey} {P : ℤ × ℤ} :
    WireKey.coordinates c = some P ↔ ∃ k, c = some k ∧ k.X = some P.1 ∧ k.Y = some P.2 := by
  simp only [WireKey.coordinates, Option.bind_eq_bind, Option.bind_eq_some_iff, Option.pure_def, Option.some.injEq]
  constructor
  · rintro ⟨k, hk, x, hx, y, hy, rfl⟩
    exact ⟨k, hk, hx, hy⟩
  · rintro ⟨k, hk, hx, hy⟩
    exact ⟨k, hk, _, hx, _, hy, rfl⟩

/-- The key of a message, when it is there. -/
def WireMessage1.key (m : WireMessage1) : Option (ℤ × ℤ) := do
  let proof ← m.proof
  WireKey.coordinates proof.PK

theorem WireCurve.ReadableProof.key {lib : WireCurve} {m : WireMessage1} (h : lib.ReadableProof m.proof) :
    m.key.isSome := by
  obtain ⟨p, t, tx, pk, pkx, pky, resp, hp, -, -, hpk, hpkx, hpky, -⟩ := h
  have hkey : m.key = some (pkx, pky) := by
    rw [WireMessage1.key, hp]
    exact WireKey.coordinates_eq_some.mpr ⟨pk, hpk, hpkx, hpky⟩
  rw [hkey]
  rfl

section KeyProof

/-- `Exp` of big integers: nothing where a negative power has no base that can be inverted. -/
def bigExp (x y m : ℤ) : Option ℤ :=
  if 0 ≤ y then some (x ^ y.natAbs % m)
  else if x.gcd m = 1 then some (x.gcdA m ^ y.natAbs % m)
  else none

/-- The loop of `Verify` over the sigmas. -/
def derivedRhoVec (N : ℤ) (sigma : List BigInt) : List ℕ → Except String (List (Option ℤ))
  | [] => .ok []
  | i :: l => do
    -- an index outside the list panics as a nil integer does
    let s ← deref (← deref sigma[i]?)
    return bigExp s N N :: (← derivedRhoVec N sigma l)

/-- `Verify` of the proof that a Paillier key is well formed. -/
def verifyCorrectKey (correctKeyProof : Option (List BigInt)) (paillierPubkey : Option BigInt) :
    Except String Bool := do
  let N ← deref (← deref paillierPubkey)
  if N = 0 then throw "division by zero"
  -- the bytes of a big integer, its length and its remainders do not depend on its sign
  let rhoVec := (Paillier.rhos N.natAbs).map fun rho => some (rho : ℤ)
  let sigma ← deref correctKeyProof
  let derived ← derivedRhoVec N sigma (List.range Paillier.M2)
  return rhoVec = derived && Int.gcd Paillier.P N = 1

/-- A modulus to divide by, and as many sigmas as are looked at. -/
def ReadableKeyProof (m : WireMessage2) : Prop :=
  (∃ N, m.paillierPubkey = some (some N) ∧ N ≠ 0) ∧ ∃ sigma, m.correctKeyProof = some sigma ∧
    ∀ i < Paillier.M2, ∃ s, sigma[i]? = some (some s)

theorem returns_derivedRhoVec_iff (N : ℤ) (sigma : List BigInt) (l : List ℕ) :
    Returns (derivedRhoVec N sigma l) ↔ ∀ i ∈ l, ∃ s, sigma[i]? = some (some s) := by
  induction l with
  | nil => exact iff_of_true (returns_ok _) fun i hi => absurd hi List.not_mem_nil
  | cons i l ih =>
    rw [derivedRhoVec, List.forall_mem_cons, ← ih]
    simp only [returns_bind, deref_eq_ok, returns_pure, and_true]
    constructor
    · rintro ⟨o, ho, s, rfl, v, hv⟩
      exact ⟨⟨s, ho⟩, v, hv⟩
    · rintro ⟨⟨s, hs⟩, v, hv⟩
      exact ⟨some s, hs, s, rfl, v, hv⟩

theorem returns_verifyCorrectKey_iff (m : WireMessage2) :
    Returns (verifyCorrectKey m.correctKeyProof m.paillierPubkey) ↔ ReadableKeyProof m := by
  rw [verifyCorrectKey, returns_deref_bind]
  simp only [returns_deref_bind]
  constructor
  · rintro ⟨o, ho, N, rfl, hrest⟩
    by_cases hN : N = 0
    · rw [if_pos hN] at hrest
      exact absurd hrest (not_returns_error _)
    · rw [if_neg hN] at hrest
      obtain ⟨sigma, hsigma, hloop⟩ := returns_deref_bind.mp hrest
      obtain ⟨v, hv, -⟩ := returns_bind.mp hloop
      exact ⟨⟨N, ho, hN⟩, sigma, hsigma, fun i hi =>
        (returns_derivedRhoVec_iff N sigma _).mp ⟨v, hv⟩ i (List.mem_range.mpr hi)⟩
  · rintro ⟨⟨N, hN, hne⟩, sigma, hsigma, hall⟩
    obtain ⟨v, hv⟩ := (returns_derivedRhoVec_iff N sigma (List.range Paillier.M2)).mpr fun i hi =>
      hall i (List.mem_range.mp hi)
    refine ⟨some N, hN, N, rfl, ?_⟩
    rw [if_neg hne]
    exact returns_deref_bind.mpr ⟨sigma, hsigma, returns_bind.mpr ⟨v, hv, returns_pure _⟩⟩

end KeyProof

section Share

variable (lib : WireCurve)

/-- The loop of `ValidateShare` over the commitments, from the last one down. -/
def commitmentsAt (index : ℕ) : List (Option WireKey) → Except String (ℤ × ℤ)
  | [] => .error "index out of range"
  | [c] => deref (WireKey.coordinates c)
  | c :: cs => do
    let head ← commitmentsAt index cs
    let p ← lib.scalarMult head (index % lib.N)
    let p ← deref p
    let c ← deref (WireKey.coordinates c)
    deref (lib.add p c)

/-- `ValidateShare`; a share out of range has no point, which the comparison finds. -/
def validateShare (commitments : List (Option WireKey)) (secretShare : BigInt) (index : ℕ) : Except String Bool := do
  let d ← deref secretShare
  let ssPoint ← lib.scalarMult lib.G d.natAbs
  let head ← commitmentsAt lib index commitments
  let ssPoint ← deref ssPoint
  return ssPoint.1 = head.1 && ssPoint.2 = head.2

/-- The value that the commitments have at an index, when there is a commitment and the library adds them up. -/
def horner (index : ℕ) : List (ℤ × ℤ) → Option (ℤ × ℤ)
  | [] => none
  | [c] => some c
  | c :: cs => do
    let head ← horner index cs
    lib.add (lib.mul (head.1.natAbs % 2^256, head.2.natAbs % 2^256) (index % lib.N)) c

theorem commitmentsAt_eq_ok {index : ℕ} (h0 : 0 < index % lib.N) {cs : List (Option WireKey)} {head : ℤ × ℤ} :
    commitmentsAt lib index cs = .ok head ↔
      ∃ l, cs.mapM WireKey.coordinates = some l ∧ horner lib index l = some head := by
  have hN := lib.N_le
  have hlt : index % lib.N < lib.N := Nat.mod_lt _ (Nat.lt_of_lt_of_le Nat.two_pos lib.two_le)
  have hmult : ∀ P, lib.scalarMult P (index % lib.N) =
      .ok (some (lib.mul (P.1.natAbs % 2^256, P.2.natAbs % 2^256) (index % lib.N))) := by
    intro P
    rw [WireCurve.scalarMult, if_neg (by omega), if_neg (by omega)]
  induction cs generalizing head with
  | nil => simp only [commitmentsAt, reduceCtorEq, List.mapM_nil, Option.pure_def, Option.some.injEq,
      exists_eq_left', horner]
  | cons c cs ih =>
    cases cs with
    | nil =>
      simp only [commitmentsAt, deref_eq_ok, List.mapM_cons, List.mapM_nil,
        Option.bind_eq_bind, Option.bind_eq_some_iff,
        Option.pure_def, Option.some.injEq, exists_eq_left']
      constructor
      · exact fun hc => ⟨_, ⟨head, hc, rfl⟩, rfl⟩
      · rintro ⟨l, ⟨P, hc, rfl⟩, hl⟩
        rw [hc, ← Option.some.inj hl]
    | cons c' cs =>
      have hstep : ∀ l, (c' :: cs).mapM WireKey.coordinates = some l → ∀ P, horner lib index (P :: l) = (do
          let head ← horner lib index l
          lib.add (lib.mul (head.1.natAbs % 2^256, head.2.natAbs % 2^256) (index % lib.N)) P) := by
        intro l hl P
        cases l with
        | nil => simp [List.mapM_cons, Option.bind_eq_some_iff] at hl
        | cons Q l => rfl
      have hrun : commitmentsAt lib index (c :: c' :: cs) = (do
          let head ← commitmentsAt lib index (c' :: cs)
          let p ← lib.scalarMult head (index % lib.N)
          let p ← deref p
          let c ← deref (WireKey.coordinates c)
          deref (lib.add p c)) := rfl
      rw [hrun, List.mapM_cons]
      simp only [bind_eq_ok, hmult, deref_eq_ok, Except.ok.injEq, exists_eq_left', Option.some.injEq, ih,
        Option.bind_eq_bind, Option.bind_eq_some_iff, Option.pure_def]
      constructor
      · rintro ⟨head', ⟨l, hl, hhead'⟩, P, hP, hadd⟩
        refine ⟨P :: l, ⟨P, hP, l, hl, rfl⟩, ?_⟩
        rw [hstep l hl P, hhead']
        exact hadd
      · rintro ⟨_, ⟨P, hP, l, hl, rfl⟩, hhead⟩
        rw [hstep l hl P] at hhead
        obtain ⟨head', hhead', hadd⟩ := Option.bind_eq_some_iff.mp hhead
        exact ⟨head', ⟨l, hl, hhead'⟩, P, hP, hadd⟩

/-- A share in range, and commitments that are all there. -/
def ReadableShare (commitments : List (Option WireKey)) (secretShare : BigInt) (index : ℕ) : Prop :=
  (∃ d, secretShare = some d ∧ 0 < d.natAbs ∧ d.natAbs < lib.N) ∧
    ∃ l, commitments.mapM WireKey.coordinates = some l ∧ (horner lib index l).isSome

theorem returns_validateShare_iff {index : ℕ} (h0 : 0 < index % lib.N) (commitments : List (Option WireKey))
    (secretShare : BigInt) :
    Returns (validateShare lib commitments secretShare index) ↔ ReadableShare lib commitments secretShare index := by
  have hN := lib.N_le
  have hhead : (∃ head, commitmentsAt lib index commitments = .ok head) ↔
      ∃ l, commitments.mapM WireKey.coordinates = some l ∧ (horner lib index l).isSome := by
    simp only [commitmentsAt_eq_ok lib h0, Option.isSome_iff_exists]
    rw [exists_comm]
    simp only [exists_and_left]
  rw [validateShare, ReadableShare, ← hhead]
  simp only [returns_deref_bind, WireCurve.returns_scalarMult_bind]
  constructor
  · rintro ⟨d, hd, -, hrest⟩
    obtain ⟨head, hhead, hss⟩ := returns_bind.mp hrest
    obtain ⟨p, hp, -⟩ := returns_deref_bind.mp hss
    exact ⟨⟨d, hd, (lib.ite_none_eq_some.mp hp).1⟩, head, hhead⟩
  · rintro ⟨⟨d, hd, hr⟩, head, hhead⟩
    exact ⟨d, hd, hr.2.trans_le hN, returns_bind.mpr ⟨head, hhead,
      returns_deref_bind.mpr ⟨_, lib.ite_none_eq_some.mpr ⟨hr, rfl⟩, returns_pure _⟩⟩⟩

end Share

end DistributedNotary.Mecdsa
