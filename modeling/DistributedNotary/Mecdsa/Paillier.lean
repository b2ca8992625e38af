import Mathlib.Data.Int.ModEq
import Mathlib.FieldTheory.Finite.Basic
import Mathlib.Tactic.LinearCombination

/-! The Paillier scheme of `curv/proofs`. Byte strings of non-negative integers
are the integers themselves. `decrypt` is the CRT computation of the source;
`Encrypts` describes the ciphertexts of a plaintext modulo `n`, the operations
map such ciphertexts to such ciphertexts, and `decrypt` inverts them. -/
namespace DistributedNotary.Mecdsa.Paillier

/-- `ModInverse`, from the Bézout coefficients. -/
def modInverse (g n : ℤ) : ℤ := (Int.gcdA g n) % n

/-- `l` with the Euclidean division of the source. -/
def l (u n : ℤ) : ℤ := (u - 1) / n

def h (p pp n : ℤ) : ℤ := modInverse (l ((1 - n) % pp) p) p

structure PublicKey where
  N : ℕ
  G : ℕ
  NSquared : ℕ

structure PrivateKey extends PublicKey where
  p : ℕ
  pp : ℕ
  pminusone : ℕ
  q : ℕ
  qq : ℕ
  qminusone : ℕ
  pinvq : ℤ
  dp : ℕ
  dq : ℕ
  hp : ℤ
  hq : ℤ
  n : ℕ

def crtDecompose (D p q : ℕ) : ℕ × ℕ := (D % p, D % q)

/-- The source panics when `n` has no inverse modulo `phi`: see `InvertiblePair`. -/
def newPrivateKey (p q : ℕ) : PrivateKey :=
  let n := p * q
  let phi := (p - 1) * (q - 1)
  let dn := (modInverse n phi).toNat
  let d := crtDecompose dn (p - 1) (q - 1)
  { N := n, NSquared := n * n, G := n + 1
    p := p, pp := p * p, pminusone := p - 1
    q := q, qq := q * q, qminusone := q - 1
    pinvq := modInverse p q
    dp := d.1, dq := d.2
    hp := h p (p * p : ℕ) n, hq := h q (q * q : ℕ) n
    n := n }

/-- Distinct primes as `GenerateKey` draws them. -/
structure KeyPair where
  p : ℕ
  q : ℕ
  p_prime : p.Prime
  q_prime : q.Prime
  ne : p ≠ q

def KeyPair.key (k : KeyPair) : PrivateKey := newPrivateKey k.p k.q

/-- Primes of which `NewPrivateKey` makes a key. -/
structure InvertiblePair extends KeyPair where
  coprime : (p * q).Coprime ((p - 1) * (q - 1))

def encryptWithNonce (pubKey : PublicKey) (r m : ℕ) : Except String ℕ :=
  if pubKey.N ≤ m then .error "paillier: message too long for Paillier public key size"
  else .ok ((1 + m * pubKey.N) % pubKey.NSquared * (r ^ pubKey.N % pubKey.NSquared) % pubKey.NSquared)

def crt (mp mq : ℤ) (privKey : PrivateKey) : ℤ :=
  let u := (mq - mp) * privKey.pinvq % privKey.q
  (mp + u * privKey.p) % privKey.n

def decrypt (privKey : PrivateKey) (c : ℕ) : Except String ℕ :=
  if privKey.NSquared ≤ c then .error "paillier: message too long for Paillier public key size"
  else
    let cp := c ^ privKey.pminusone % privKey.pp
    let mp := l cp privKey.p * privKey.hp % privKey.p
    let cq := c ^ privKey.qminusone % privKey.qq
    let mq := l cq privKey.q * privKey.hq % privKey.q
    .ok (crt mp mq privKey).toNat

def addCipher (pubKey : PublicKey) (cipher1 cipher2 : ℕ) : ℕ := cipher1 * cipher2 % pubKey.NSquared

def mul (pubKey : PublicKey) (cipher constant : ℕ) : ℕ := cipher ^ constant % pubKey.NSquared

/-- `c` is a ciphertext of the residue of `m` modulo `n`. -/
def Encrypts (n c m : ℕ) : Prop :=
  c < n * n ∧ ∃ R, R.Coprime n ∧ c ≡ (1 + m * n) * R ^ n [MOD n * n]

section Arithmetic

theorem modInverse_spec {g n : ℤ} (hc : Int.gcd g n = 1) : g * modInverse g n ≡ 1 [ZMOD n] := by
  have hb := Int.gcd_eq_gcd_ab g n
  rw [hc] at hb
  have h1 : g * Int.gcdA g n ≡ 1 [ZMOD n] := by
    rw [Int.modEq_iff_dvd]
    exact ⟨Int.gcdB g n, by linear_combination hb⟩
  exact (Int.ModEq.mul_left g (Int.mod_modEq _ n)).trans h1

/-- `l` reads the coefficient of `p` off a residue modulo `p²`. -/
theorem l_emod {p : ℤ} (hp : 1 < p) (x : ℤ) : l ((1 + p * x) % (p * p)) p = x % p := by
  have h0 : 0 ≤ x % p := Int.emod_nonneg x (by omega)
  have h1 : x % p < p := Int.emod_lt_of_pos x (by omega)
  have hres : (1 + p * x) % (p * p) = 1 + p * (x % p) := by
    have hx : 1 + p * x = 1 + p * (x % p) + p * p * (x / p) := by
      linear_combination p * (Int.emod_add_mul_ediv x p).symm
    rw [hx, Int.add_mul_emod_self_left]
    exact Int.emod_eq_of_lt (by positivity) (by nlinarith)
  rw [l, hres, add_sub_cancel_left, Int.mul_ediv_cancel_left _ (by omega)]

theorem one_add_pow_modEq {d x : ℕ} (hd : d ∣ x * x) (k : ℕ) : (1 + x) ^ k ≡ 1 + k * x [MOD d] := by
  induction k with
  | zero => simp; rfl
  | succ k ih =>
    have hz : k * (x * x) ≡ 0 [MOD d] := (Nat.modEq_zero_iff_dvd).mpr (hd.mul_left k)
    calc (1 + x) ^ (k+1) = (1 + x) ^ k * (1 + x) := pow_succ _ _
      _ ≡ (1 + k * x) * (1 + x) [MOD d] := ih.mul_right _
      _ = 1 + (k+1) * x + k * (x * x) := by ring
      _ ≡ 1 + (k+1) * x + 0 [MOD d] := hz.add_left _
      _ = 1 + (k+1) * x := by ring

end Arithmetic

section Operations

variable {n c d m m' : ℕ}

theorem encrypts_encryptWithNonce (pubKey : PublicKey) (hs : pubKey.NSquared = pubKey.N * pubKey.N)
    {r : ℕ} (hr : r.Coprime pubKey.N) (hm : m < pubKey.N) :
    ∃ c, encryptWithNonce pubKey r m = .ok c ∧ Encrypts pubKey.N c m := by
  have hpos : 0 < pubKey.N * pubKey.N := Nat.mul_pos (by omega) (by omega)
  refine ⟨_, if_neg (by omega), ?_, r, hr, ?_⟩
  · rw [hs]
    exact Nat.mod_lt _ hpos
  · rw [hs]
    exact (Nat.mod_modEq _ _).trans ((Nat.mod_modEq _ _).mul (Nat.mod_modEq _ _))

theorem Encrypts.mul (pubKey : PublicKey) (hs : pubKey.NSquared = pubKey.N * pubKey.N)
    (hc : Encrypts pubKey.N c m) (b : ℕ) : Encrypts pubKey.N (Paillier.mul pubKey c b) (m * b) := by
  obtain ⟨hlt, R, hR, hcong⟩ := hc
  refine ⟨?_, R ^ b, hR.pow_left b, ?_⟩
  · rw [Paillier.mul, hs]
    exact Nat.mod_lt _ (by omega)
  · rw [Paillier.mul, hs]
    have hone : (1 + m * pubKey.N) ^ b ≡ 1 + m * b * pubKey.N [MOD pubKey.N * pubKey.N] := by
      have h1 := one_add_pow_modEq (d := pubKey.N * pubKey.N) (x := m * pubKey.N)
        ⟨m * m, by ring⟩ b
      rwa [show b * (m * pubKey.N) = m * b * pubKey.N by ring] at h1
    calc c ^ b % (pubKey.N * pubKey.N) ≡ c ^ b [MOD pubKey.N * pubKey.N] := Nat.mod_modEq _ _
      _ ≡ ((1 + m * pubKey.N) * R ^ pubKey.N) ^ b [MOD pubKey.N * pubKey.N] := hcong.pow b
      _ = (1 + m * pubKey.N) ^ b * (R ^ b) ^ pubKey.N := by rw [mul_pow, ← pow_mul, ← pow_mul, mul_comm b]
      _ ≡ (1 + m * b * pubKey.N) * (R ^ b) ^ pubKey.N [MOD pubKey.N * pubKey.N] := hone.mul_right _

theorem Encrypts.addCipher {pubKey : PublicKey} (hs : pubKey.NSquared = pubKey.N * pubKey.N)
    (hc : Encrypts pubKey.N c m) (hd : Encrypts pubKey.N d m') :
    Encrypts pubKey.N (Paillier.addCipher pubKey c d) (m + m') := by
  obtain ⟨hlt, R, hR, hcong⟩ := hc
  obtain ⟨_, R', hR', hcong'⟩ := hd
  refine ⟨?_, R * R', hR.mul_left hR', ?_⟩
  · rw [Paillier.addCipher, hs]
    exact Nat.mod_lt _ (by omega)
  · rw [Paillier.addCipher, hs]
    have hz : m * m' * (pubKey.N * pubKey.N) ≡ 0 [MOD pubKey.N * pubKey.N] :=
      Nat.modEq_zero_iff_dvd.mpr ⟨m * m', by ring⟩
    calc c * d % (pubKey.N * pubKey.N) ≡ c * d [MOD pubKey.N * pubKey.N] := Nat.mod_modEq _ _
      _ ≡ ((1 + m * pubKey.N) * R ^ pubKey.N) * ((1 + m' * pubKey.N) * R' ^ pubKey.N)
          [MOD pubKey.N * pubKey.N] := hcong.mul hcong'
      _ = (1 + (m + m') * pubKey.N + m * m' * (pubKey.N * pubKey.N)) * (R * R') ^ pubKey.N := by
          rw [mul_pow]; ring
      _ ≡ (1 + (m + m') * pubKey.N + 0) * (R * R') ^ pubKey.N [MOD pubKey.N * pubKey.N] :=
          (hz.add_left _).mul_right _
      _ = (1 + (m + m') * pubKey.N) * (R * R') ^ pubKey.N := by rw [add_zero]

end Operations

section Decryption

/-- What the branch of `decrypt` for one prime computes. -/
theorem branch_eq {p q : ℕ} (hp : p.Prime) (hq : q.Prime) (hne : p ≠ q) {c m : ℕ}
    (hc : Encrypts (p * q) c m) :
    l ((c ^ (p-1) % (p*p) : ℕ) : ℤ) p * h p (p*p : ℕ) (p*q : ℕ) % p = (m : ℤ) % p := by
  obtain ⟨_, R, hR, hcong⟩ := hc
  have hp1 : (1 : ℤ) < p := by exact_mod_cast hp.one_lt
  have hdvd : p * p ∣ p * q * (p * q) := ⟨q * q, by ring⟩
  have hnonce : (R ^ (p * q)) ^ (p-1) ≡ 1 [MOD p * p] := by
    have ht := Nat.ModEq.pow_totient (Nat.Coprime.pow_right 2 (hR.coprime_dvd_right (Dvd.intro q rfl)))
    rw [Nat.totient_prime_pow hp (by norm_num), pow_one, sq] at ht
    rw [← pow_mul, show p * q * (p-1) = p * (p-1) * q by ring, pow_mul]
    simpa using ht.pow q
  have hlin : (1 + m * (p * q)) ^ (p-1) ≡ 1 + (p-1) * (m * (p * q)) [MOD p * p] :=
    one_add_pow_modEq ⟨m * m * (q * q), by ring⟩ (p-1)
  have hcp : c ^ (p-1) ≡ 1 + p * ((p-1) * m * q) [MOD p * p] := by
    calc c ^ (p-1) ≡ ((1 + m * (p * q)) * R ^ (p * q)) ^ (p-1) [MOD p * p] := (hcong.of_dvd hdvd).pow _
      _ = (1 + m * (p * q)) ^ (p-1) * (R ^ (p * q)) ^ (p-1) := mul_pow _ _ _
      _ ≡ (1 + (p-1) * (m * (p * q))) * 1 [MOD p * p] := hlin.mul hnonce
      _ = 1 + p * ((p-1) * m * q) := by ring
  have hl : l ((c ^ (p-1) % (p*p) : ℕ) : ℤ) p = ((p-1 : ℕ) * m * q : ℤ) % p := by
    rw [show c ^ (p-1) % (p*p) = (1 + p * ((p-1) * m * q)) % (p*p) from hcp]
    push_cast
    exact l_emod hp1 _
  have hinv : (-q : ℤ) % p * h p (p*p : ℕ) (p*q : ℕ) ≡ 1 [ZMOD p] := by
    have hg : l ((1 - (p*q : ℕ) : ℤ) % ((p*p : ℕ) : ℤ)) p = (-q : ℤ) % p := by
      have := l_emod hp1 (-q)
      rw [← this]
      push_cast
      congr 2
      ring
    rw [h, hg]
    refine modInverse_spec ?_
    rw [Int.gcd_emod, Int.neg_gcd, Int.gcd_natCast_natCast]
    exact (Nat.coprime_primes hq hp).mpr hne.symm
  have hfac : ((p-1 : ℕ) * m * q : ℤ) % p ≡ m * ((-q : ℤ) % p) [ZMOD p] := by
    have h1 : ((p-1 : ℕ) * m * q : ℤ) % p ≡ (p-1 : ℕ) * m * q [ZMOD p] := Int.mod_modEq _ _
    have h2 : (m * ((-q : ℤ) % p) : ℤ) ≡ m * (-q) [ZMOD p] := (Int.mod_modEq _ _).mul_left _
    refine h1.trans (Int.ModEq.trans ?_ h2.symm)
    rw [Int.modEq_iff_dvd]
    refine ⟨-(m * q), ?_⟩
    rw [Nat.cast_sub hp.one_le]
    push_cast
    ring
  rw [hl]
  calc ((p-1 : ℕ) * m * q : ℤ) % p * h p (p*p : ℕ) (p*q : ℕ)
      ≡ m * ((-q : ℤ) % p) * h p (p*p : ℕ) (p*q : ℕ) [ZMOD p] := hfac.mul_right _
    _ = m * ((-q : ℤ) % p * h p (p*p : ℕ) (p*q : ℕ)) := by ring
    _ ≡ m * 1 [ZMOD p] := hinv.mul_left _
    _ = m := by ring

theorem crt_eq (k : KeyPair) (m : ℕ) : crt ((m : ℤ) % k.p) ((m : ℤ) % k.q) k.key = (m : ℤ) % (k.p * k.q : ℕ) := by
  have hcop : Int.gcd (k.p : ℤ) (k.q : ℤ) = 1 := by
    rw [Int.gcd_natCast_natCast]
    exact (Nat.coprime_primes k.p_prime k.q_prime).mpr k.ne
  have hinv : (k.p : ℤ) * modInverse k.p k.q ≡ 1 [ZMOD k.q] := modInverse_spec hcop
  set a := (m : ℤ) % k.p
  set b := (m : ℤ) % k.q
  set u := (b - a) * modInverse k.p k.q % k.q with hu
  have hp : a + u * k.p ≡ m [ZMOD k.p] := by
    calc a + u * k.p ≡ a + 0 [ZMOD k.p] := (Int.modEq_zero_iff_dvd.mpr (Dvd.intro_left _ rfl)).add_left _
      _ = a := add_zero a
      _ ≡ m [ZMOD k.p] := Int.mod_modEq _ _
  have hq : a + u * k.p ≡ m [ZMOD k.q] := by
    calc a + u * k.p ≡ a + (b - a) * modInverse k.p k.q * k.p [ZMOD k.q] :=
          ((Int.mod_modEq _ _).mul_right _).add_left _
      _ = a + (b - a) * (k.p * modInverse k.p k.q) := by ring
      _ ≡ a + (b - a) * 1 [ZMOD k.q] := (hinv.mul_left _).add_left _
      _ = b := by ring
      _ ≡ m [ZMOD k.q] := Int.mod_modEq _ _
  have hn := (Int.modEq_and_modEq_iff_modEq_mul (by rwa [Int.natAbs_natCast, Int.natAbs_natCast])).mp ⟨hp, hq⟩
  rw [← Nat.cast_mul] at hn
  exact hn

theorem decrypt_eq (k : KeyPair) {c m : ℕ} (hc : Encrypts (k.p * k.q) c m) :
    decrypt k.key c = .ok (m % (k.p * k.q)) := by
  have hlt : ¬ k.key.NSquared ≤ c := not_le.mpr hc.1
  have hp := branch_eq k.p_prime k.q_prime k.ne hc
  have hq := branch_eq k.q_prime k.p_prime k.ne.symm (by rwa [mul_comm] at hc)
  rw [mul_comm k.q k.p] at hq
  have hcrt : crt (l ((c ^ (k.p-1) % (k.p*k.p) : ℕ) : ℤ) k.p * h k.p (k.p*k.p : ℕ) (k.p*k.q : ℕ) % k.p)
      (l ((c ^ (k.q-1) % (k.q*k.q) : ℕ) : ℤ) k.q * h k.q (k.q*k.q : ℕ) (k.p*k.q : ℕ) % k.q) k.key =
      (m : ℤ) % (k.p * k.q : ℕ) := by
    rw [hp, hq]
    exact crt_eq k m
  rw [decrypt, if_neg hlt]
  refine congrArg Except.ok ?_
  refine (congrArg Int.toNat hcrt).trans ?_
  rw [← Int.natCast_emod, Int.toNat_natCast]

end Decryption

section Homomorphism

/-- `Decrypt(AddCipher(Mul(EncryptWithNonce(a, r1), b), EncryptWithNonce(c, r2)))`. -/
def evaluate (privKey : PrivateKey) (a b c r1 r2 : ℕ) : Except String ℕ := do
  let x ← encryptWithNonce privKey.toPublicKey r1 a
  let y ← encryptWithNonce privKey.toPublicKey r2 c
  decrypt privKey (addCipher privKey.toPublicKey (mul privKey.toPublicKey x b) y)

theorem encryptWithNonce_modulus (k : KeyPair) (r : ℕ) : encryptWithNonce k.key.toPublicKey r (k.p * k.q) =
    .error "paillier: message too long for Paillier public key size" := if_pos (le_refl k.key.N)

theorem evaluate_eq (k : KeyPair) {a c r1 r2 : ℕ} (b : ℕ) (ha : a < k.p * k.q) (hc : c < k.p * k.q)
    (h1 : r1.Coprime (k.p * k.q)) (h2 : r2.Coprime (k.p * k.q)) :
    evaluate k.key a b c r1 r2 = .ok ((a * b + c) % (k.p * k.q)) := by
  obtain ⟨x, hx, hxm⟩ := encrypts_encryptWithNonce k.key.toPublicKey rfl h1 ha
  obtain ⟨y, hy, hym⟩ := encrypts_encryptWithNonce k.key.toPublicKey rfl h2 hc
  have hN : k.key.toPublicKey.NSquared = k.key.toPublicKey.N * k.key.toPublicKey.N := rfl
  have hsum := (hxm.mul k.key.toPublicKey hN b).addCipher hN hym
  rw [evaluate, hx, hy]
  exact decrypt_eq k hsum

/-- The message the size of the modulus is refused, and every smaller one comes through. -/
theorem evaluate_eq_iff (k : InvertiblePair) {a c r1 r2 : ℕ} (b : ℕ) (ha : a ≤ k.p * k.q) (hc : c ≤ k.p * k.q)
    (h1 : r1.Coprime (k.p * k.q)) (h2 : r2.Coprime (k.p * k.q)) :
    evaluate k.key a b c r1 r2 = .ok ((a * b + c) % (k.p * k.q)) ↔ a ≠ k.p * k.q ∧ c ≠ k.p * k.q := by
  constructor
  · intro h
    rw [evaluate] at h
    constructor
    · rintro rfl
      rw [encryptWithNonce_modulus] at h
      cases h
    · rintro rfl
      rw [encryptWithNonce_modulus] at h
      cases hx : encryptWithNonce k.key.toPublicKey r1 a with
      | error err => rw [hx] at h; cases h
      | ok x => rw [hx] at h; cases h
  · rintro ⟨hna, hnc⟩
    exact evaluate_eq k.toKeyPair b (lt_of_le_of_ne ha hna) (lt_of_le_of_ne hc hnc) h1 h2

/-- The primes 3 and 5. -/
def pair15 : InvertiblePair where
  p := 3
  q := 5
  p_prime := Nat.prime_three
  q_prime := Nat.prime_five
  ne := by decide
  coprime := by decide

/-- `7*4+13 = 41 = 11` modulo 15. -/
theorem evaluate_pair15 : evaluate pair15.key 7 4 13 2 4 = .ok 11 :=
  (evaluate_eq_iff pair15 4 (by decide) (by decide) (by decide) (by decide)).mpr ⟨by decide, by decide⟩

/-- 15 encrypts nothing, though it is no larger than the modulus. -/
theorem evaluate_pair15_modulus : evaluate pair15.key 15 1 0 2 4 ≠ .ok ((15 * 1 + 0) % 15) := by decide +kernel

end Homomorphism

end DistributedNotary.Mecdsa.Paillier
