import DistributedNotary.Library.Checks
import DistributedNotary.Mecdsa.Paillier
import DistributedNotary.Mecdsa.Proofs
import Mathlib.Tactic.NormNum.Prime

/-! The proof of a correct Paillier key. The prover draws the `n`-th roots of
challenges that it derives from the key; the verifier derives them again and
raises the roots to the power `n`. Roots are taken modulo each prime and put
together by the Chinese remainder theorem, also those of numbers that share a
factor with `n`. -/
namespace DistributedNotary.Mecdsa.Paillier

open Library

/-- `P`, the product of the primes up to 6379, a hundred digits at a time. -/
def P : ℕ :=
  [1824183726245393467247644231302244136093537199,
   571042132135505752436417827403606504909634598192440019472548148057149313258512671617100674358073838,
   4846392090113771004167388711399064382079897538671429983991413759259065400995262301498296268495553511,
   1234311335565220917383311689115138496765310625882473439402233109450021984891450304679833752756159872,
   2199910891941875750683827629522398309013948508872153921328836406694866741022777567532608556403175102,
   3561766094487363105463081603526910051033764325038999783763464024948003718429046292454015013367831218,
   5777228630834940021427688892876384196895677819059963882587092166301131529174343474451480089653483180,
   6025917510731397333707123002415816350493509254126830977292320920962764902299657850200419217363073944,
   3807526623496851544371682863339284820394537459192680046445059982355305246270872721917399017711968456,
   5306222502415160037753326638045687574106534702341439991863742806351468290587722561435038912863815688,
   1332886195127900959199040265732495570248393835954817041845289609789577245972633235120307438756142906,
   936853064309408005116622613527138586618805455668483792193588894564194496106629315952560288545222245,
   8958772845494346799890196718717317906330936509091221354615991671869862034179206244894205681566781062,
   6334157726288488787158030403588360986096548895213930464924712275460799242190554086128151731931087531,
   8447756225626686029709622393408850977739375262438075707208242760355607703994570071122668077839273726,
   7707541904355129695919972995501581794067880959822149963798096452613619855673307435602850208850402301,
   5830251117626223819532518834293176030056262320127257086944012722955090353676546204126408482041799559,
   8072270799629190981252997436194992688128834951875074761583766754930508329180418717912345312146664091,
   8862622766511668478452223742058912575427337018022812631386313110243745000214354806312441270889672903,
   3076456116588939865268121300321125403671737366642889952225166881208661149843185829003316318969317090,
   516385342942775922432363615257345333360735734816916791502770084600293274255082493900741433069724956,
   9916339964247646402851281857942965519194576006169066153524163225631476643914033601957614124583206541,
   8343527910039305061392092046611048827018426175016358648837608852367970819966794967512542607064385833,
   1688561240638654347925556618569779294247870433625420883918097074862488103994819241592986620431880022,
   295457932550799088592217150597176505394120909914475575501881459804699385499576326684695531034075283,
   1658006223284913849871949445044618641059869076467060959560831562404724896164739466388797265245859365,
   1101878074717438784001867467011043052805158606942216393469789993145604180262417544915727962010412633,
   1489491525955411465073551652840009163781923401029513048693746713122813578721687858104388238796796690].foldl
    (fun acc d => acc * 10 ^ 100 + d) 0

/-- `SaltString` as a number. -/
def saltBn : ℕ := Nat.ofDigits 256 [110, 101, 90, 75]

def M2 : ℕ := 11

def digestSize : ℕ := 256

def computeDigest (inputs : List (List ℕ)) : ℕ := Sha256.digest inputs.flatten

def maskGeneration (outLength seed : ℕ) : ℕ :=
  let msklen := outLength / digestSize + 1
  let msklenHashs := (List.range msklen).map fun j => computeDigest [Sha256.bytes seed, Sha256.bytes j]
  msklenHashs.zipIdx.foldl (fun result x => result + x.1 <<< (x.2 * digestSize)) 0

/-- A number whose root is asked for. -/
def rho (n i : ℕ) : ℕ :=
  let seed := computeDigest [Sha256.bytes n, Sha256.bytes saltBn, Sha256.bytes i]
  maskGeneration n.size seed % n

/-- `rhos` of the prover and `rhoVec` of the verifier. -/
def rhos (n : ℕ) : List ℕ := (List.range M2).map (rho n)

def crtRecombine (x1 x2 m1 m2 : ℕ) (m1inv : ℤ) : ℤ :=
  let diff : ℤ := ((x2 : ℤ) - x1) % m2
  let diff := if diff < 0 then diff + m2 else diff
  let diff := diff * m1inv % m2
  x1 + diff * m1

def extractNroot (key : PrivateKey) (z : ℕ) : ℕ :=
  let zs := crtDecompose z key.p key.q
  let rp := zs.1 ^ key.dp % key.p
  let rq := zs.2 ^ key.dq % key.q
  (crtRecombine rp rq key.p key.q key.pinvq).toNat

structure NICorrectKeyProof where
  Sigma : List ℕ

def createNICorrectKeyProof (key : PrivateKey) : NICorrectKeyProof :=
  { Sigma := (rhos key.n).map (extractNroot key) }

/-- `Verify`; reading beyond the end of `Sigma` panics. -/
def NICorrectKeyProof.verify (proof : NICorrectKeyProof) (pubkey : PublicKey) : Option Bool := do
  let rhoVec := rhos pubkey.N
  let gcdTest := P.gcd pubkey.N
  let derivedRhoVec ← (List.range M2).mapM fun i => proof.Sigma[i]?.map (· ^ pubkey.N % pubkey.N)
  return rhoVec == derivedRhoVec && gcdTest == 1

section Roots

variable {p q : ℕ}

/-- Fermat's theorem for all residues. -/
theorem pow_modEq_self (hp : p.Prime) {k : ℕ} (hpos : 0 < k) (hk : k ≡ 1 [MOD p - 1]) (z : ℕ) : z ^ k ≡ z [MOD p] := by
  by_cases hz : p ∣ z
  · have h0 : z ≡ 0 [MOD p] := Nat.modEq_zero_iff_dvd.mpr hz
    exact ((h0.pow k).trans (by rw [zero_pow (by omega)])).trans h0.symm
  · have hone : z ^ (p-1) ≡ 1 [MOD p] := by
      have h := Nat.ModEq.pow_totient ((Nat.Prime.coprime_iff_not_dvd hp).mpr hz).symm
      rwa [Nat.totient_prime hp] at h
    obtain ⟨m, hm⟩ := (Nat.modEq_iff_dvd' hpos).mp hk.symm
    calc z ^ k = (z ^ (p-1)) ^ m * z := by rw [← pow_mul, ← pow_succ, ← hm]; congr 1; omega
      _ ≡ 1 ^ m * z [MOD p] := (hone.pow m).mul_right z
      _ = z := by rw [one_pow, one_mul]

/-- A power that is inverted modulo `p - 1`. -/
theorem pow_pow_modEq_self (hp : p.Prime) (h2 : 2 < p) {d n : ℕ} (hd : d * n ≡ 1 [MOD p - 1]) (z : ℕ) :
    (z ^ d) ^ n ≡ z [MOD p] := by
  have hpos : 0 < d * n := by
    rw [Nat.pos_iff_ne_zero]
    intro h0
    rw [h0] at hd
    have hle := Nat.le_of_dvd Nat.one_pos (Nat.modEq_zero_iff_dvd.mp hd.symm)
    omega
  rw [← pow_mul]
  exact pow_modEq_self hp hpos hd z

theorem toNat_modInverse_mul {g n : ℕ} (hc : g.Coprime n) (hn : 0 < n) : (modInverse g n).toNat * g ≡ 1 [MOD n] := by
  have hinv := modInverse_spec (g := (g : ℤ)) (n := (n : ℤ)) (by rwa [Int.gcd_natCast_natCast])
  have hnonneg : 0 ≤ modInverse g n := Int.emod_nonneg _ (by omega)
  rw [← Int.natCast_modEq_iff, Nat.cast_mul, Int.toNat_of_nonneg hnonneg, Nat.cast_one, mul_comm]
  exact hinv

theorem crtRecombine_nonneg (x1 x2 m1 : ℕ) {m2 : ℕ} (hm : 0 < m2) (m1inv : ℤ) :
    0 ≤ crtRecombine x1 x2 m1 m2 m1inv := by
  have hdiff : 0 ≤ (if ((x2 : ℤ) - x1) % m2 < 0 then ((x2 : ℤ) - x1) % m2 + m2 else ((x2 : ℤ) - x1) % m2) * m1inv
      % m2 := Int.emod_nonneg _ (by omega)
  exact Int.add_nonneg (Int.natCast_nonneg x1) (Int.mul_nonneg hdiff (Int.natCast_nonneg m1))

theorem crtRecombine_modEq_left (x1 x2 m1 m2 : ℕ) (m1inv : ℤ) : crtRecombine x1 x2 m1 m2 m1inv ≡ x1 [ZMOD m1] :=
  Int.ModEq.symm (Int.modEq_iff_dvd.mpr ⟨_, (add_sub_cancel_left _ _).trans (mul_comm _ _)⟩)

theorem crtRecombine_modEq_right (x1 x2 m1 : ℕ) {m2 : ℕ} (hm : 0 < m2) {m1inv : ℤ} (hinv : m1 * m1inv ≡ 1 [ZMOD m2]) :
    crtRecombine x1 x2 m1 m2 m1inv ≡ x2 [ZMOD m2] := by
  have hsign : ¬ ((x2 : ℤ) - x1) % m2 < 0 := not_lt.mpr (Int.emod_nonneg _ (by omega))
  rw [crtRecombine]
  simp only [if_neg hsign]
  calc (x1 : ℤ) + ((x2 : ℤ) - x1) % m2 * m1inv % m2 * m1
      ≡ x1 + ((x2 : ℤ) - x1) * m1inv * m1 [ZMOD m2] :=
        ((((Int.mod_modEq _ _).trans ((Int.mod_modEq _ _).mul_right _))).mul_right _).add_left _
    _ = x1 + (x2 - x1) * (m1 * m1inv) := by ring
    _ ≡ x1 + (x2 - x1) * 1 [ZMOD m2] := (hinv.mul_left _).add_left _
    _ = x2 := by ring

end Roots

namespace InvertiblePair

variable (k : InvertiblePair)

/-- With 2 as one of the primes, the other one is odd and `n` shares the factor 2 with `phi`. -/
theorem p_ne_two : k.p ≠ 2 := by
  intro hp
  have hq : k.q % 2 = 1 := (k.q_prime.eq_two_or_odd).resolve_left fun hq => k.ne (hp.trans hq.symm)
  have hn : 2 ∣ k.p * k.q := hp ▸ Nat.dvd_mul_right 2 k.q
  have hphi : 2 ∣ (k.p - 1) * (k.q - 1) := Dvd.dvd.mul_left (by omega) _
  exact absurd (Nat.eq_one_of_dvd_coprimes k.coprime hn hphi) (by decide)

/-- The pair with its primes in the other order. -/
def swap : InvertiblePair where
  p := k.q
  q := k.p
  p_prime := k.q_prime
  q_prime := k.p_prime
  ne := k.ne.symm
  coprime := by
    rw [mul_comm k.q, mul_comm (k.q - 1)]
    exact k.coprime

theorem two_lt_p : 2 < k.p := lt_of_le_of_ne k.p_prime.two_le k.p_ne_two.symm

theorem two_lt_q : 2 < k.q := k.swap.two_lt_p

/-- `dn` is the inverse of `n` modulo `phi`. -/
theorem dn_mul : (modInverse (k.p * k.q : ℕ) ((k.p - 1) * (k.q - 1) : ℕ)).toNat * (k.p * k.q) ≡ 1
    [MOD (k.p - 1) * (k.q - 1)] := by
  have hp := k.two_lt_p
  have hq := k.two_lt_q
  exact toNat_modInverse_mul k.coprime (Nat.mul_pos (by omega) (by omega))

/-- The power `n` undoes the power `dp` modulo `p`, and the power `dq` modulo `q`. -/
theorem pow_dp (z : ℕ) : (z ^ k.key.dp) ^ (k.p * k.q) ≡ z [MOD k.p] :=
  pow_pow_modEq_self k.p_prime k.two_lt_p
    (((Nat.mod_modEq _ _).mul_right _).trans (k.dn_mul.of_dvd (Nat.dvd_mul_right _ _))) z

theorem pow_dq (z : ℕ) : (z ^ k.key.dq) ^ (k.p * k.q) ≡ z [MOD k.q] :=
  pow_pow_modEq_self k.q_prime k.two_lt_q
    (((Nat.mod_modEq _ _).mul_right _).trans (k.dn_mul.of_dvd (Nat.dvd_mul_left _ _))) z

/-- The root drawn by the prover, whatever `z` has in common with `n`. -/
theorem extractNroot_pow (z : ℕ) : extractNroot k.key z ^ (k.p * k.q) ≡ z [MOD k.p * k.q] := by
  have hcop : k.p.Coprime k.q := (Nat.coprime_primes k.p_prime k.q_prime).mpr k.ne
  have hinv : (k.p : ℤ) * k.key.pinvq ≡ 1 [ZMOD k.q] := modInverse_spec (by rwa [Int.gcd_natCast_natCast])
  set rp := (z % k.p) ^ k.key.dp % k.p with hrp
  set rq := (z % k.q) ^ k.key.dq % k.q with hrq
  have hroot : (extractNroot k.key z : ℤ) = crtRecombine rp rq k.p k.q k.key.pinvq :=
    Int.toNat_of_nonneg (crtRecombine_nonneg rp rq k.p k.q_prime.pos k.key.pinvq)
  have hp : extractNroot k.key z ≡ rp [MOD k.p] := by
    rw [← Int.natCast_modEq_iff, hroot]
    exact crtRecombine_modEq_left rp rq k.p k.q k.key.pinvq
  have hq : extractNroot k.key z ≡ rq [MOD k.q] := by
    rw [← Int.natCast_modEq_iff, hroot]
    exact crtRecombine_modEq_right rp rq k.p k.q_prime.pos hinv
  refine (Nat.modEq_and_modEq_iff_modEq_mul hcop).mp ⟨?_, ?_⟩
  · calc extractNroot k.key z ^ (k.p * k.q) ≡ rp ^ (k.p * k.q) [MOD k.p] := hp.pow _
      _ ≡ ((z % k.p) ^ k.key.dp) ^ (k.p * k.q) [MOD k.p] := (Nat.mod_modEq _ _).pow _
      _ ≡ z % k.p [MOD k.p] := k.pow_dp _
      _ ≡ z [MOD k.p] := Nat.mod_modEq _ _
  · calc extractNroot k.key z ^ (k.p * k.q) ≡ rq ^ (k.p * k.q) [MOD k.q] := hq.pow _
      _ ≡ ((z % k.q) ^ k.key.dq) ^ (k.p * k.q) [MOD k.q] := (Nat.mod_modEq _ _).pow _
      _ ≡ z % k.q [MOD k.q] := k.pow_dq _
      _ ≡ z [MOD k.q] := Nat.mod_modEq _ _

/-- What the verifier computes from the roots are the numbers it asked for. -/
theorem derived_eq :
    ((List.range M2).mapM fun i => (createNICorrectKeyProof k.key).Sigma[i]?.map (· ^ k.key.N % k.key.N)) =
      some (rhos k.key.N) := by
  refine mapM_eq_some_map fun i hi => ?_
  have hsigma : (createNICorrectKeyProof k.key).Sigma[i]? = some (extractNroot k.key (rho k.key.N i)) := by
    rw [createNICorrectKeyProof, rhos, List.map_map, List.getElem?_map, List.getElem?_range (List.mem_range.mp hi)]
    rfl
  have hroot : extractNroot k.key (rho k.key.N i) ^ k.key.N % k.key.N = rho k.key.N i :=
    (k.extractNroot_pow _).trans (Nat.mod_mod _ _)
  rw [hsigma, Option.map_some, hroot]

end InvertiblePair

/-- Every number has the root that is drawn for it, and the proof made of such roots is accepted. -/
theorem verify_createNICorrectKeyProof (k : InvertiblePair) :
    (∀ z, extractNroot k.key z ^ (k.p * k.q) ≡ z [MOD k.p * k.q]) ∧
      ((k.p * k.q).Coprime P →
        (createNICorrectKeyProof k.key).verify k.key.toPublicKey = some true) := by
  refine ⟨k.extractNroot_pow, fun hcop => ?_⟩
  have hgcd : P.gcd k.key.N = 1 := (Nat.coprime_comm.mp hcop)
  have hbind := congrArg (fun o => o.bind fun derivedRhoVec : List ℕ =>
    some (rhos k.key.N == derivedRhoVec && P.gcd k.key.N == 1)) k.derived_eq
  refine hbind.trans ?_
  simp [hgcd]

/-- Primes too large to divide `P`. -/
def pair6389 : InvertiblePair where
  p := 6389
  q := 6397
  p_prime := by norm_num
  q_prime := by norm_num
  ne := by decide
  coprime := by decide +kernel

theorem verify_pair6389 : (createNICorrectKeyProof pair6389.key).verify pair6389.key.toPublicKey = some true :=
  (verify_createNICorrectKeyProof pair6389).2 (by decide +kernel)

end DistributedNotary.Mecdsa.Paillier
