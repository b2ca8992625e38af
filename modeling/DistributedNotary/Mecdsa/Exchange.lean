import DistributedNotary.Mecdsa.KeyShares

/-! Phases 1 to 3 of an honest run: the temporary keys are committed to, the
products of one signer's `k` with the `gamma` and the `w` of every other one are
converted to sums, and every signer holds the shares of `k * gamma` of all
signers and its own share of `k * x`. In the group all of this always succeeds; with
the multiplication of the library it does exactly when the scalars of phase 2 fit. -/
namespace DistributedNotary.Mecdsa

open Library Share Feldman Proofs

namespace Session

variable {C : Curve} (s : Session C)

/-- The temporary keys as residues. -/
def k (i : ℕ) : ZMod C.N := ((s.coins i).kI : ℕ)

def gamma (i : ℕ) : ZMod C.N := ((s.coins i).gammaI : ℕ)

def sumK : ZMod C.N := ∑ i ∈ s.S.toFinset, s.k i

def sumGamma : ZMod C.N := ∑ i ∈ s.S.toFinset, s.gamma i

/-- The handler of signer `i` with the given record and completed phases. -/
def handler (i : ℕ) (sm : SignMessage C) (done : List Phase := []) : DSMHandler C :=
  { s.newDSMHandler i s.message with
    otherNotaryIDs := s.others i
    signMessage := sm
    doneChan := done }

/-- The record after `createSignKeys`. -/
def base (i : ℕ) (key : SignedKey C) : SignMessage C :=
  { message := s.message, S := s.others i ++ [i], signedKey := some key }

section Signers

variable {s} {i j : ℕ}

theorem mem_others : j ∈ s.others i ↔ j ≠ i ∧ j ∈ s.S := by
  rw [(s.others_perm i).mem_iff, s.S_nodup.mem_erase_iff]

theorem others_nodup : (s.others i).Nodup := (s.others_perm i).nodup_iff.mpr (s.S_nodup.erase i)

theorem cons_others_perm (hi : i ∈ s.S) : (i :: s.others i).Perm s.S :=
  ((s.others_perm i).cons i).trans (List.perm_cons_erase hi).symm

theorem others_append_perm (hi : i ∈ s.S) : (s.others i ++ [i]).Perm s.S :=
  (List.perm_append_singleton i (s.others i)).trans (cons_others_perm hi)

theorem others_length (hi : i ∈ s.S) : (s.others i).length + 1 = s.S.length :=
  (cons_others_perm hi).length_eq

theorem others_ne_nil (hi : i ∈ s.S) : s.others i ≠ [] := by
  intro h
  have hl := others_length hi
  have h2 := s.two_le
  rw [h, List.length_nil] at hl
  omega

theorem notMem_others : i ∉ s.others i := fun h => (mem_others.mp h).1 rfl

/-- A sum over all signers is the own summand and those of the others. -/
theorem sum_others {M : Type*} [AddCommMonoid M] (hi : i ∈ s.S) (f : ℕ → M) :
    f i + ((s.others i).map f).sum = ∑ j ∈ s.S.toFinset, f j := by
  rw [List.sum_toFinset f s.S_nodup, ← ((cons_others_perm hi).map f).sum_eq, List.map_cons, List.sum_cons]

/-- The messages of all other signers are stored one after the other, and the last one
is followed by the check of the phase. -/
theorem deliver_ok {ν : Type} (phase : Phase) (hi : i ∈ s.S) (set : RangeMap ℕ ν → DSMHandler C)
    (recv : DSMHandler C → ν → ℕ → Except String (DSMHandler C)) (check : DSMHandler C → Except String (DSMHandler C))
    (total : ℕ) (msg : ℕ → Except String ν) {P : ℕ → ν → Prop} {l : List ℕ} {m : RangeMap ℕ ν}
    (hrecv : ∀ m v j, m.lookup j = none → P j v → recv (set m) v j = check (set (m.insert j v)))
    (hcheck : ∀ m, RangeMap.len m < total → check (set m) = .ok (set m))
    (hmsg : ∀ j ∈ s.others i, ∃ v, msg j = .ok v ∧ P j v) (hm : RangeMap.Collects m l P)
    (hl : ∀ j ∈ s.others i, j ∉ l) (htotal : l.length + (s.others i).length = total) :
    ∃ m', RangeMap.Collects m' (s.others i ++ l) P ∧ s.deliver phase i msg recv (set m) = check (set m') := by
  have hp := (s.arrival phase i).perm (s.others i)
  obtain ⟨m', h1, h2⟩ := RangeMap.foldlM_collect set recv check msg hrecv hcheck hm
    (fun j hj => hmsg j (hp.mem_iff.mp hj)) (hp.nodup_iff.mpr others_nodup)
    (fun j hj => hl j (hp.mem_iff.mp hj)) (fun h => others_ne_nil hi (List.nil_perm.mp (h ▸ hp)))
    (by rw [hp.length_eq]; exact htotal)
  exact ⟨m', h1.perm (hp.append_right l), h2⟩

/-- The delivery returns when all messages do, and the check of the last one. -/
theorem deliver_returns {ν : Type} (phase : Phase) (hi : i ∈ s.S) (set : RangeMap ℕ ν → DSMHandler C)
    (recv : DSMHandler C → ν → ℕ → Except String (DSMHandler C)) (check : DSMHandler C → Except String (DSMHandler C))
    (total : ℕ) (msg : ℕ → Except String ν) (P : ℕ → ν → Prop) (post : DSMHandler C → Prop) {l : List ℕ}
    {m : RangeMap ℕ ν} {p : ℕ → Prop} {q : Prop}
    (hrecv : ∀ m v j, m.lookup j = none → P j v → recv (set m) v j = check (set (m.insert j v)))
    (hcheck : ∀ m, RangeMap.len m < total → check (set m) = .ok (set m))
    (hmsg : ∀ j ∈ s.others i, ReturnsIff (p j) (msg j) (P j)) (hm : RangeMap.Collects m l P)
    (hl : ∀ j ∈ s.others i, j ∉ l) (htotal : l.length + (s.others i).length = total)
    (hlast : ∀ m', RangeMap.Collects m' (s.others i ++ l) P → ReturnsIff q (check (set m')) post) :
    ReturnsIff ((∀ j ∈ s.others i, p j) ∧ q) (s.deliver phase i msg recv (set m)) post where
  returns := fun ⟨hp, hq⟩ => by
    obtain ⟨m', hm', hdel⟩ := deliver_ok phase hi set recv check total msg hrecv hcheck
      (fun j hj => (hmsg j hj).returns (hp j hj)) hm hl htotal
    rw [hdel]
    exact (hlast m' hm').returns hq
  only := fun dh hdh => by
    have hall := forall_of_foldlM_eq_ok hdh
    have hsent : ∀ j ∈ s.others i, ∃ v, msg j = .ok v := fun j hj =>
      hall j (((s.arrival phase i).perm (s.others i)).mem_iff.mpr hj)
    have hp : ∀ j ∈ s.others i, p j := fun j hj => (hmsg j hj).iff.mp (hsent j hj)
    obtain ⟨m', hm', hdel⟩ := deliver_ok phase hi set recv check total msg hrecv hcheck
      (fun j hj => (hmsg j hj).returns (hp j hj)) hm hl htotal
    exact ⟨hp, (hlast m' hm').only dh (hdel ▸ hdh)⟩

/-- The same for the handlers that keep one message for each sender, the own one being stored. -/
theorem deliver_receiveOnce {ν : Type} (phase : Phase) (hi : i ∈ s.S) (set : RangeMap ℕ ν → DSMHandler C)
    (recv : DSMHandler C → ν → ℕ → Except String (DSMHandler C)) (check : DSMHandler C → Except String (DSMHandler C))
    (post : DSMHandler C → Prop) {msg : ℕ → Except String ν} {P : ℕ → ν → Prop} {m : RangeMap ℕ ν} {p : ℕ → Prop}
    {q : Prop}
    (hrecv : ∀ m v j, m.lookup j = none → P j v → recv (set m) v j = check (set (m.insert j v)))
    (hcheck : ∀ m, RangeMap.len m ≠ (s.others i ++ [i]).length → check (set m) = .ok (set m))
    (hmsg : ∀ j ∈ s.S, ReturnsIff (p j) (msg j) (P j)) (hm : RangeMap.Collects m [i] P)
    (hlast : ∀ m', RangeMap.Collects m' s.S P → ReturnsIff q (check (set m')) post) :
    ReturnsIff ((∀ j ∈ s.others i, p j) ∧ q) (s.deliver phase i msg recv (set m)) post :=
  deliver_returns phase hi set recv check (s.others i ++ [i]).length msg P post hrecv (fun m hm => hcheck m hm.ne)
    (fun j hj => hmsg j (mem_others.mp hj).2) hm
    (fun j hj h => notMem_others (List.mem_singleton.mp h ▸ hj))
    (by rw [List.length_append, add_comm])
    (fun m' hm' => hlast m' (hm'.perm (others_append_perm hi)))

/-- A map that holds the own message alone is not complete. -/
theorem len_insert_empty_ne {ν : Type} (hi : i ∈ s.S) (v : ν) :
    RangeMap.len ((∅ : RangeMap ℕ ν).insert i v) ≠ (s.others i ++ [i]).length := by
  have h1 := RangeMap.len_insert_of_lookup_none v (AList.lookup_empty (β := fun _ => ν) i)
  have h2 := others_length hi
  have h3 := s.two_le
  rw [h1, RangeMap.len_empty, List.length_append, List.length_singleton]
  omega

theorem len_collects {ν : Type} {P : ℕ → ν → Prop} {m : RangeMap ℕ ν} (hi : i ∈ s.S)
    (hm : RangeMap.Collects m s.S P) : RangeMap.len m = (s.others i ++ [i]).length := by
  rw [hm.len, (others_append_perm hi).length_eq]

/-- A phase that is signalled ends with the state unchanged. -/
theorem notifyDone_handler (sm : SignMessage C) (c : Phase) :
    (s.handler i sm).notifyDone c = .ok (s.handler i sm [c]) := by
  simp [DSMHandler.notifyDone, handler, Committee.newDSMHandler]

theorem wait_signalled (sm : SignMessage C) (c : Phase) :
    (s.handler i sm [c]).waitPhaseDone c = .ok (s.handler i sm) := by
  simp [handler, Committee.newDSMHandler, DSMHandler.waitPhaseDone]

theorem wait_handler {sm : SignMessage C} {c : Phase} {x : Except String (DSMHandler C)}
    (h : x = (s.handler i sm).notifyDone c) : (x >>= fun dh => dh.waitPhaseDone c) = .ok (s.handler i sm) := by
  rw [h, notifyDone_handler]
  exact wait_signalled sm c

/-- What is asked of the signer itself and of the others is asked of all signers. -/
theorem forall_signers {p : ℕ → Prop} (hi : i ∈ s.S) : p i ∧ (∀ j ∈ s.others i, p j) ↔ ∀ j ∈ s.S, p j := by
  rw [← List.forall_mem_cons]
  exact ⟨fun h j hj => h j ((cons_others_perm hi).mem_iff.mpr hj),
    fun h j hj => h j ((cons_others_perm hi).mem_iff.mp hj)⟩

end Signers

section Phase1

/-- The signing key of signer `i`. -/
structure KeyOf (i : ℕ) (key : SignedKey C) : Prop where
  ki : key.ki = (s.coins i).kI
  gammaI : key.gammaI = (s.coins i).gammaI
  wi : (key.wi : ZMod C.N) = s.w i
  wi_lt : key.wi < C.N

/-- The broadcast of signer `i` commits to its point `gamma`. -/
def Commits (i : ℕ) (b : SignBroadcastPhase1) : Prop :=
  createCommitmentWithUserDefinedRandomNess (C.X (s.gamma i • C.G)) b.blindFactor = b.com

/-- The record of signer `i` after phase 1. -/
inductive After1 (i : ℕ) : SignMessage C → Prop
  | intro (key : SignedKey C) (p1 : RangeMap ℕ SignBroadcastPhase1) (hk : s.KeyOf i key)
      (h1 : RangeMap.Collects p1 s.S s.Commits) : After1 i { s.base i key with phase1BroadCast := p1 }

variable {s} {i : ℕ}

theorem start_ok (hi : i ∈ s.S) : ∃ key, s.KeyOf i key ∧ s.start i = .ok (s.handler i (s.base i key)) := by
  obtain ⟨d, hd, hd'⟩ := mapShareToNewParams_ok (v := (share C s.t s.n (s.poly i)).1)
    (s := s.others i ++ [i]) ((others_append_perm hi).nodup_iff.mpr s.S_nodup)
    (fun j hj => s.S_lt j ((others_append_perm hi).mem_iff.mp hj)) s.n_lt
    (by rw [(others_append_perm hi).length_eq]; exact s.S_length) (show i ∈ s.others i ++ [i] by simp)
  have hfin : (s.others i ++ [i]).toFinset = s.S.toFinset := List.toFinset_eq_of_perm _ _ (others_append_perm hi)
  rw [hfin] at hd'
  let wi := modMul C.N d (s.xi i)
  refine ⟨{ wi := wi, gwi := bitCurveMult C.G wi, ki := (s.coins i).kI, gammaI := (s.coins i).gammaI
            gGammaI := bitCurveMult C.G (s.coins i).gammaI }, ⟨rfl, rfl, ?_, modMul_lt _ _⟩, ?_⟩
  · rw [cast_modMul, hd']
    rfl
  · have hlen : ¬ s.S.length ≤ s.t := not_le.mpr s.S_length
    simp only [start, if_neg hlen, DSMHandler.registerOtherNotaryIDs, DSMHandler.createSignKeys,
      Committee.newDSMHandler]
    simp only [bind, Except.bind, hd]
    rfl

theorem phase1Broadcast_ok (hi : i ∈ s.S) : ∃ key b, s.KeyOf i key ∧ s.Commits i b ∧
    s.phase1Broadcast i = .ok (s.handler i { s.base i key with phase1BroadCast := AList.insert i b ∅ }, b) := by
  obtain ⟨key, hk, hstart⟩ := start_ok hi
  let b : SignBroadcastPhase1 := {
    com := createCommitmentWithUserDefinedRandomNess (C.X (scalarBaseMult C key.gammaI)) (s.coins i).blindFactor
    blindFactor := (s.coins i).blindFactor }
  refine ⟨key, b, hk, ?_, ?_⟩
  · rw [Commits, gamma, ← scalarBaseMult_eq, ← hk.gammaI]
  · have hcheck : (s.handler i { s.base i key with phase1BroadCast := AList.insert i b ∅ }).checkPhase1Done =
        .ok _ := if_neg (len_insert_empty_ne hi b)
    exact (bind_ok hstart _).trans (bind_ok hcheck _)

theorem phase1_ok (hi : i ∈ s.S) : ∃ sm, s.phase1 i = .ok (s.handler i sm) ∧ s.After1 i sm := by
  obtain ⟨key, b, hk, hb, hown⟩ := phase1Broadcast_ok hi
  have hmsg : ∀ j ∈ s.S, ReturnsIff True (do return (← s.phase1Broadcast j).2) (s.Commits j) := fun j hj => by
    obtain ⟨_, v, _, hv, h⟩ := phase1Broadcast_ok hj
    exact .of_ok (bind_ok h _) hv
  have hdel := deliver_receiveOnce (s := s) .phase1 hi
    (fun m => s.handler i { s.base i key with phase1BroadCast := m })
    DSMHandler.receivePhase1Broadcast DSMHandler.checkPhase1Done
    (fun dh => ∃ p1, RangeMap.Collects p1 s.S s.Commits ∧
      dh = s.handler i { s.base i key with phase1BroadCast := p1 } [.phase1])
    (fun m v j hj _ => DSMHandler.receiveOnce_new hj) (fun m hm => if_neg hm) hmsg
    ((RangeMap.Collects.empty _).insert List.not_mem_nil hb)
    (fun p1 h1 => .of_ok ((if_pos (len_collects hi h1)).trans (notifyDone_handler _ _)) ⟨p1, h1, rfl⟩)
  obtain ⟨_, hdel, p1, h1, rfl⟩ := hdel.returns ⟨fun _ _ => trivial, trivial⟩
  exact ⟨_, (bind_ok hown _).trans ((bind_ok hdel _).trans (wait_signalled _ _)), .intro key p1 hk h1⟩

end Phase1

section Phase2

/-- A message of phase 2 carries an encryption of `k_i` under the key of signer `i`. -/
def CarriesK (i : ℕ) (ma : MessageA) : Prop :=
  Paillier.Encrypts ((s.paillier i).p * (s.paillier i).q) ma.c (s.coins i).kI

/-- The answer to signer `i` about the scalar `b`, for the values that were drawn: the ciphertext holds
`k_i * b` plus the mask whose negation is `beta`. -/
structure Answers (i : ℕ) (b : ℕ) (coins : MtACoins C) (m : MessageB C) : Prop where
  bProof : m.bProof = prove b coins.proofNonce
  betaTagProof : m.betaTagProof = prove coins.betaTag coins.betaTagProofNonce
  beta : (m.beta : ZMod C.N) = -((coins.betaTag : ℕ) : ZMod C.N)
  encrypts : Paillier.Encrypts ((s.paillier i).p * (s.paillier i).q) m.c ((s.coins i).kI * b + coins.betaTag)

variable {s} in
theorem Answers.pk {i b : ℕ} {coins : MtACoins C} {m : MessageB C} (h : s.Answers i b coins m) :
    m.bProof.PK = (b : ZMod C.N) • C.G := by
  rw [h.bProof]
  exact scalarBaseMult_eq b

/-- The key share of signer `j` as the number that its handler keeps. -/
noncomputable def wKey (j : ℕ) : SPrivKey := (s.w j).val

/-- The answer of signer `j` to signer `i`. -/
structure AnswersBoth (i j : ℕ) (mb : MessageBPhase2 C) : Prop where
  gamma : s.Answers i (s.coins j).gammaI ((s.coins j).mtaGamma i) mb.messageBGamma
  wi : ∃ mbw, mb.messageBWi = some mbw ∧ s.Answers i (s.wKey j) ((s.coins j).mtaWi i) mbw

/-- The scalars of an answer fit: those of its two proofs and the share that is decrypted. -/
structure AnswerFits (i : ℕ) (b : ℕ) (coins : MtACoins C) : Prop where
  bProof : BitCurve.Fits (prove b coins.proofNonce : DLogProof C)
  betaTagProof : BitCurve.Fits (prove coins.betaTag coins.betaTagProofNonce : DLogProof C)
  alpha : s.k i * b + ((coins.betaTag : ℕ) : ZMod C.N) ≠ 0

theorem answerFits_iff {i b : ℕ} {coins : MtACoins C} : s.AnswerFits i b coins ↔
    BitCurve.Fits (prove b coins.proofNonce : DLogProof C) ∧
      BitCurve.Fits (prove coins.betaTag coins.betaTagProofNonce : DLogProof C) ∧
        s.k i * b + ((coins.betaTag : ℕ) : ZMod C.N) ≠ 0 := by
  constructor
  · intro h
    exact ⟨h.bProof, h.betaTagProof, h.alpha⟩
  · rintro ⟨hb, htag, halpha⟩
    exact ⟨hb, htag, halpha⟩

instance (i b : ℕ) (coins : MtACoins C) : Decidable (s.AnswerFits i b coins) := decidable_of_iff' _ s.answerFits_iff

/-- What signer `j` sends to signer `i` in phase 2 has its multiples. -/
structure PairFits (i j : ℕ) : Prop where
  w : s.w j ≠ 0
  gamma : s.AnswerFits i (s.coins j).gammaI ((s.coins j).mtaGamma i)
  wi : s.AnswerFits i (s.wKey j) ((s.coins j).mtaWi i)

theorem pairFits_iff {i j : ℕ} : s.PairFits i j ↔ s.w j ≠ 0 ∧
    s.AnswerFits i (s.coins j).gammaI ((s.coins j).mtaGamma i) ∧ s.AnswerFits i (s.wKey j) ((s.coins j).mtaWi i) := by
  constructor
  · intro h
    exact ⟨h.w, h.gamma, h.wi⟩
  · rintro ⟨hw, hgamma, hwi⟩
    exact ⟨hw, hgamma, hwi⟩

noncomputable instance (i j : ℕ) : Decidable (s.PairFits i j) := decidable_of_iff' _ s.pairFits_iff

/-- Everything that signer `i` gets in phase 2 has its multiples. -/
def ExchangeFits (i : ℕ) : Prop := ∀ j ∈ s.others i, s.PairFits i j

noncomputable instance (i : ℕ) : Decidable (s.ExchangeFits i) := inferInstanceAs (Decidable (∀ _ ∈ _, _))

variable {s} {i j : ℕ}

/-- Scalars, and a product of two of them plus a third, are below the Paillier moduli. -/
theorem lt_modulus (i : ℕ) {v : ℕ} (hv : v < C.N) : v < (s.paillier i).p * (s.paillier i).q := by
  have hm := s.modulus i
  omega

theorem mul_add_lt_modulus (i : ℕ) {a b v : ℕ} (ha : a < C.N) (hb : b < C.N) (hv : v < C.N) :
    a * b + v < (s.paillier i).p * (s.paillier i).q := by
  have hm := s.modulus i
  have hab : a * b ≤ C.N ^ 2 := (Nat.mul_le_mul ha.le hb.le).trans_eq (sq C.N).symm
  omega

theorem wKey_lt (j : ℕ) : s.wKey j < C.N := ZMod.val_lt _

theorem cast_wKey (j : ℕ) : (s.wKey j : ZMod C.N) = s.w j := ZMod.natCast_zmod_val _

theorem KeyOf.wi_eq {key : SignedKey C} (h : s.KeyOf i key) : key.wi = s.wKey i :=
  eq_of_cast h.wi_lt (wKey_lt i) (h.wi.trans (cast_wKey i).symm)

theorem newMessageB_ok {ma : MessageA} (hma : s.CarriesK i ma) (b : ℕ) (coins : MtACoins C)
    (hc : coins.nonce.Coprime ((s.paillier i).p * (s.paillier i).q)) :
    ∃ m, newMessageB b (s.paillier i).key.toPublicKey ma coins = .ok m ∧ s.Answers i b coins m := by
  have htag := lt_modulus (s := s) i coins.betaTag.2.2
  obtain ⟨c, hc1, hc2⟩ := Paillier.encrypts_encryptWithNonce
    (s.paillier i).key.toPublicKey rfl hc htag
  refine ⟨_, bind_ok hc1 _, ⟨rfl, rfl, ?_, ?_⟩⟩
  · rw [cast_modSub, cast_privKeyZero, zero_sub]
  · exact (Paillier.Encrypts.mul (s.paillier i).key.toPublicKey rfl hma b).addCipher rfl hc2

/-- The decrypted share and the share of the sender add up to the product. -/
theorem verifyProofsGetAlpha_ok {m : MessageB C} {b : ℕ} {coins : MtACoins C} (hm : s.Answers i b coins m)
    (hb : b < C.N) :
    ∃ a, verifyProofsGetAlpha m (s.paillier i).key (s.coins i).kI = .ok a ∧ a < C.N ∧
      (a : ZMod C.N) + m.beta = s.k i * b ∧
      ReturnsIff (s.AnswerFits i b coins)
        (BitCurve.verifyProofsGetAlpha m (s.paillier i).key (s.coins i).kI) (· = .ok a) := by
  have hlt := mul_add_lt_modulus (s := s) i (s.coins i).kI.2.2 hb coins.betaTag.2.2
  have hdec := Paillier.decrypt_eq (s.paillier i) hm.encrypts
  rw [Nat.mod_eq_of_lt hlt] at hdec
  have hbProof : verify m.bProof = true := by rw [hm.bProof, verify_prove]
  have htagProof : verify m.betaTagProof = true := by rw [hm.betaTagProof, verify_prove]
  have htag : m.betaTagProof.PK = ((coins.betaTag : ℕ) : ZMod C.N) • C.G := by
    rw [hm.betaTagProof]
    exact scalarBaseMult_eq _
  have halpha : ((bigInt2PrivateKey C.N ((s.coins i).kI * b + coins.betaTag) : ℕ) : ZMod C.N) =
      s.k i * b + ((coins.betaTag : ℕ) : ZMod C.N) := by
    rw [cast_bigInt2PrivateKey, k]
    push_cast
    rfl
  have hgroup : verifyProofsGetAlpha m (s.paillier i).key (s.coins i).kI =
      .ok (bigInt2PrivateKey C.N ((s.coins i).kI * b + coins.betaTag)) := by
    refine (bind_ok hdec _).trans (if_pos ?_)
    rw [hbProof, htagProof, Bool.true_and, Bool.true_and, Curve.eqGE_iff, hm.pk, htag, pointAdd,
      scalarMult_eq, scalarBaseMult_eq, halpha, k]
    module
  refine ⟨_, hgroup, bigInt2PrivateKey_lt _, ?_, ?_⟩
  · rw [halpha, hm.beta]
    ring
  · have hreturns := BitCurve.verifyProofsGetAlpha_returns hdec hbProof htagProof (s.coins i).kI
    rw [hgroup] at hreturns
    refine hreturns.congr ?_
    have hzero : bigInt2PrivateKey C.N ((s.coins i).kI * b + coins.betaTag) ≠ 0 ↔
        s.k i * b + ((coins.betaTag : ℕ) : ZMod C.N) ≠ 0 := by
      rw [← halpha, ne_eq, ne_eq, cast_eq_zero_iff (bigInt2PrivateKey_lt _)]
    rw [hm.bProof, hm.betaTagProof, hzero, answerFits_iff]

theorem phase2MessageA_ok (hi : i ∈ s.S) : ∃ key p1 ma, s.KeyOf i key ∧ RangeMap.Collects p1 s.S s.Commits ∧
    s.CarriesK i ma ∧ s.phase2MessageA i =
      .ok (s.handler i { s.base i key with phase1BroadCast := p1, messageA := some ma }, ma) := by
  obtain ⟨_, hrun, ⟨key, p1, hk, h1⟩⟩ := phase1_ok hi
  have hlt : key.ki < (s.paillier i).p * (s.paillier i).q := by
    rw [hk.ki]
    exact lt_modulus i (s.coins i).kI.2.2
  obtain ⟨c, hc1, hc2⟩ := Paillier.encrypts_encryptWithNonce
    (s.paillier i).key.toPublicKey rfl (s.encryptNonce_coprime i) hlt
  rw [hk.ki] at hc2
  have hma : newMessageA key.ki (s.paillier i).key.toPublicKey (s.coins i).encryptNonce = .ok { c := c } :=
    bind_ok hc1 _
  exact ⟨key, p1, { c := c }, hk, h1, hc2, (bind_ok hrun _).trans (bind_ok hma _)⟩

/-- The answer in the group, and with the multiplication of the library. -/
theorem phase2MessageB_ok (hi : i ∈ s.S) (hj : j ∈ s.S) :
    ∃ mb, s.phase2MessageBInGroup i j = .ok mb ∧ s.AnswersBoth i j mb ∧
      ReturnsIff (s.w j ≠ 0) (s.phase2MessageB i j) (· = mb) := by
  obtain ⟨keyj, p1, ma, hkj, _, _, hrunj⟩ := phase2MessageA_ok hj
  obtain ⟨_, _, mai, _, _, hmai, hruni⟩ := phase2MessageA_ok hi
  obtain ⟨mg, hmg, hag⟩ := newMessageB_ok hmai keyj.gammaI ((s.coins j).mtaGamma i) (s.mtaGamma_coprime j i)
  obtain ⟨mw, hmw, haw⟩ := newMessageB_ok hmai keyj.wi ((s.coins j).mtaWi i) (s.mtaWi_coprime j i)
  have hpk : deref ((s.handler j
      { s.base j keyj with phase1BroadCast := p1, messageA := some ma }).paillierPubKeys.lookup
      i) = .ok (s.paillier i).key.toPublicKey := by
    rw [show (s.handler j { s.base j keyj with phase1BroadCast := p1, messageA := some ma }).paillierPubKeys =
      RangeMap.tabulate (List.range s.n) fun j => (s.paillier j).key.toPublicKey from rfl,
      RangeMap.lookup_tabulate (List.mem_range.mpr (s.S_lt i hi))]
    rfl
  refine ⟨{ messageBGamma := mg, messageBWi := some mw }, ?_, ⟨?_, mw, rfl, ?_⟩, ?_⟩
  · exact (bind_ok hrunj _).trans ((bind_ok hruni _).trans ((bind_ok hpk _).trans
      ((bind_ok hmg _).trans (bind_ok hmw _))))
  · rw [← hkj.gammaI]
    exact hag
  · rw [← hkj.wi_eq]
    exact haw
  · have hgamma : 0 < keyj.gammaI ∧ keyj.gammaI < C.N := by
      rw [hkj.gammaI]
      exact (s.coins j).gammaI.2
    have hzero : s.w j = 0 ↔ keyj.wi = 0 := by rw [← hkj.wi, cast_eq_zero_iff hkj.wi_lt]
    have hsteps : ReturnsIff _ (s.phase2MessageB i j) (· = { messageBGamma := mg, messageBWi := some mw }) :=
      .then_ok hrunj (.then_ok hruni (.then_ok (deref_some _) (.then_ok hpk
        ((BitCurve.newMessageB_returns hmg).bind fun a _ ha =>
          (BitCurve.newMessageB_returns hmw).map fun b _ hb => by rw [ha, hb]))))
    refine hsteps.congr ?_
    rw [ne_eq, hzero, and_iff_right hgamma]
    exact ⟨fun h => h.1.ne', fun h => ⟨Nat.pos_of_ne_zero h, hkj.wi_lt⟩⟩

/-- The decrypted shares are those that complete the `beta` of the stored answers. -/
def AlphaGamma (p2 : RangeMap ℕ (MessageBPhase2 C)) (i j : ℕ) (a : SPrivKey) : Prop :=
  a < C.N ∧ ∃ mb, p2.lookup j = some mb ∧ (a : ZMod C.N) + mb.messageBGamma.beta = s.k i * s.gamma j

def AlphaWI (p2 : RangeMap ℕ (MessageBPhase2 C)) (i j : ℕ) (a : SPrivKey) : Prop :=
  a < C.N ∧ ∃ mb mbw, p2.lookup j = some mb ∧ mb.messageBWi = some mbw ∧
    (a : ZMod C.N) + mbw.beta = s.k i * s.w j

theorem collectAlpha_ok (sm : SignMessage C) {key : SignedKey C} (hkey : sm.signedKey = some key)
    (hki : key.ki = (s.coins i).kI) (p2 : RangeMap ℕ (MessageBPhase2 C)) (rest : List (ℕ × MessageBPhase2 C))
    (hrest : ∀ p ∈ rest, p2.lookup p.1 = some p.2 ∧ s.AnswersBoth i p.1 p.2) {l : List ℕ}
    {aG aW : RangeMap ℕ SPrivKey} (hG : RangeMap.Collects aG l (AlphaGamma (s := s) p2 i))
    (hW : RangeMap.Collects aW l (AlphaWI (s := s) p2 i)) (hnd : (rest.map Prod.fst).Nodup)
    (hdisj : ∀ j ∈ rest.map Prod.fst, j ∉ l) :
    ∃ aG' aW', RangeMap.Collects aG' (rest.map Prod.fst ++ l) (AlphaGamma (s := s) p2 i) ∧
      RangeMap.Collects aW' (rest.map Prod.fst ++ l) (AlphaWI (s := s) p2 i) ∧
      (s.handler i { sm with alphaGamma := aG, alphaWI := aW }).collectAlpha rest =
        (s.handler i { sm with alphaGamma := aG', alphaWI := aW' }).notifyDone .phase2 := by
  induction rest generalizing l aG aW with
  | nil => exact ⟨aG, aW, hG, hW, rfl⟩
  | cons p rest ih =>
    obtain ⟨j, mb⟩ := p
    obtain ⟨hlook, hboth⟩ := hrest (j, mb) (List.mem_cons_self ..)
    obtain ⟨mbw, hmbw, hans⟩ := hboth.wi
    obtain ⟨a, ha, halt, hsum, _⟩ := verifyProofsGetAlpha_ok hboth.gamma (s.coins j).gammaI.2.2
    obtain ⟨a', ha', halt', hsum', _⟩ := verifyProofsGetAlpha_ok hans (wKey_lt j)
    obtain ⟨hj, hnd⟩ := List.nodup_cons.mp hnd
    have hjl : j ∉ l := hdisj j (List.mem_cons_self ..)
    obtain ⟨aG', aW', hG', hW', hloop⟩ := ih (fun p hp => hrest p (List.mem_cons_of_mem _ hp))
      (hG.insert hjl ⟨halt, mb, hlook, hsum⟩)
        (hW.insert hjl ⟨halt', mb, mbw, hlook, hmbw, by rw [hsum', cast_wKey]⟩) hnd
      (fun k hk => by
        rw [List.mem_cons, not_or]
        exact ⟨fun h => hj (h ▸ hk), hdisj k (List.mem_cons_of_mem _ hk)⟩)
    refine ⟨aG', aW', hG'.perm List.perm_middle, hW'.perm List.perm_middle, ?_⟩
    have hk : deref (s.handler i { sm with alphaGamma := aG, alphaWI := aW }).signMessage.signedKey = .ok key := by
      rw [show (s.handler i { sm with alphaGamma := aG, alphaWI := aW }).signMessage.signedKey = sm.signedKey from rfl,
        hkey]
      rfl
    rw [DSMHandler.collectAlpha, bind_ok hk, hki]
    rw [show (s.handler i { sm with alphaGamma := aG, alphaWI := aW }).paillierPrivateKey = (s.paillier i).key from rfl,
      ha, hmbw]
    simp only [deref_some]
    rw [bind_ok rfl, ha']
    exact hloop

/-- The record of signer `i` after phase 2. -/
inductive After2 (s : Session C) (i : ℕ) : SignMessage C → Prop
  | intro (key : SignedKey C) (p1 : RangeMap ℕ SignBroadcastPhase1) (ma : MessageA)
      (p2 : RangeMap ℕ (MessageBPhase2 C)) (aG aW : RangeMap ℕ SPrivKey) (hk : s.KeyOf i key)
      (h1 : RangeMap.Collects p1 s.S s.Commits) (ha : s.CarriesK i ma)
      (h2 : RangeMap.Collects p2 (s.others i) (s.AnswersBoth i))
      (hG : RangeMap.Collects aG (s.others i) (AlphaGamma (s := s) p2 i))
      (hW : RangeMap.Collects aW (s.others i) (AlphaWI (s := s) p2 i)) :
      After2 s i { s.base i key with
        phase1BroadCast := p1, messageA := some ma, phase2MessageB := p2, alphaGamma := aG, alphaWI := aW }

/-- The state of signer `i` when the answers `p2` of the others have come in. -/
def collecting (s : Session C) (i : ℕ) (key : SignedKey C) (p1 : RangeMap ℕ SignBroadcastPhase1) (ma : MessageA)
    (p2 : RangeMap ℕ (MessageBPhase2 C)) : DSMHandler C :=
  s.handler i { s.base i key with phase1BroadCast := p1, messageA := some ma, phase2MessageB := p2 }

section Collecting

variable {key : SignedKey C} {p1 : RangeMap ℕ SignBroadcastPhase1} {ma : MessageA}

theorem others_append_length : (s.others i ++ [i]).length - 1 = (s.others i).length := by
  rw [List.length_append, List.length_singleton, Nat.add_sub_cancel]

/-- The check of all answers, in the group and with the multiplication of the library. -/
theorem checkPhase2Done_ok (hk : s.KeyOf i key) (h1 : RangeMap.Collects p1 s.S s.Commits) (ha : s.CarriesK i ma)
    {p2 : RangeMap ℕ (MessageBPhase2 C)} (h2 : RangeMap.Collects p2 (s.others i) (s.AnswersBoth i)) :
    ∃ sm, After2 s i sm ∧
      (s.collecting i key p1 ma p2).checkPhase2Done (s.loop .alpha i) = .ok (s.handler i sm [.phase2]) ∧
      ReturnsIff (∀ j ∈ s.others i,
          s.AnswerFits i (s.coins j).gammaI ((s.coins j).mtaGamma i) ∧ s.AnswerFits i (s.wKey j) ((s.coins j).mtaWi i))
        (BitCurve.checkPhase2Done (s.loop .alpha i) (s.collecting i key p1 ma p2))
        (· = s.handler i sm [.phase2]) := by
  have hfst := h2.range_fst_perm (s.loop .alpha i)
  obtain ⟨aG, aW, hG, hW, hloop⟩ := collectAlpha_ok (s := s) (i := i)
    { s.base i key with phase1BroadCast := p1, messageA := some ma, phase2MessageB := p2 } rfl hk.ki p2
    (p2.range (s.loop .alpha i)) (fun p hp => ⟨RangeMap.mem_range.mp hp, h2.of_mem_range hp⟩)
    (RangeMap.Collects.empty _) (RangeMap.Collects.empty _) (hfst.nodup_iff.mpr others_nodup)
    (fun j _ => List.not_mem_nil)
  rw [List.append_nil] at hG hW
  rw [notifyDone_handler] at hloop
  have hlen : (s.collecting i key p1 ma p2).signMessage.phase2MessageB.len =
      (s.collecting i key p1 ma p2).signMessage.S.length - 1 := h2.len.trans others_append_length.symm
  refine ⟨_, .intro key p1 ma p2 aG aW hk h1 ha h2 (hG.perm hfst) (hW.perm hfst), (if_pos hlen).trans hloop, ?_⟩
  have hloop' := BitCurve.collectAlpha_returns (s.collecting i key p1 ma p2)
    (fun j => s.AnswerFits i (s.coins j).gammaI ((s.coins j).mtaGamma i))
    (fun j => s.AnswerFits i (s.wKey j) ((s.coins j).mtaWi i)) rfl
    (fun p hp => by
      have hboth := h2.of_mem_range hp
      obtain ⟨mbw, hmbw, hans⟩ := hboth.wi
      obtain ⟨a, hga, _, _, hra⟩ := verifyProofsGetAlpha_ok hboth.gamma (s.coins p.1).gammaI.2.2
      obtain ⟨b, hgb, _, _, hrb⟩ := verifyProofsGetAlpha_ok hans (wKey_lt p.1)
      rw [← hk.ki] at hga hra hgb hrb
      exact ⟨⟨a, hga, hra⟩, mbw, b, hmbw, hgb, hrb⟩) hloop
  rw [BitCurve.checkPhase2Done, if_pos hlen]
  refine hloop'.congr ?_
  rw [← List.forall_mem_map (f := Prod.fst)
    (P := fun j => s.AnswerFits i (s.coins j).gammaI ((s.coins j).mtaGamma i) ∧
      s.AnswerFits i (s.wKey j) ((s.coins j).mtaWi i))]
  exact forall_congr' fun j => imp_congr_left hfst.mem_iff

end Collecting

theorem phase2InGroup_ok (hi : i ∈ s.S) : ∃ sm, s.phase2InGroup i = .ok (s.handler i sm) ∧ After2 s i sm := by
  obtain ⟨key, p1, ma, hk, h1, ha, hown⟩ := phase2MessageA_ok hi
  obtain ⟨p2, h2, hdel⟩ := deliver_ok (s := s) .phase2 hi (s.collecting i key p1 ma)
    (DSMHandler.receivePhase2MessageB (s.loop .alpha i)) (DSMHandler.checkPhase2Done (s.loop .alpha i))
    (s.others i).length (s.phase2MessageBInGroup i) (fun _ _ _ _ _ => rfl)
    (fun m hm => if_neg (fun h => hm.ne (h.trans others_append_length)))
    (fun j hj => by
      obtain ⟨mb, hmb, hans, _⟩ := phase2MessageB_ok hi (mem_others.mp hj).2
      exact ⟨mb, hmb, hans⟩)
    (RangeMap.Collects.empty _) (fun j _ => List.not_mem_nil) (by rw [List.length_nil, zero_add])
  rw [List.append_nil] at h2
  obtain ⟨sm, hsm, hcheck, _⟩ := checkPhase2Done_ok hk h1 ha h2
  exact ⟨sm, (bind_ok hown _).trans ((bind_ok (hdel.trans hcheck) _).trans (wait_signalled _ _)), hsm⟩

/-- Phase 2 returns exactly when nothing that is sent to the signer has a scalar without a multiple. -/
theorem phase2_returns (hi : i ∈ s.S) :
    ReturnsIff (s.ExchangeFits i) (s.phase2 i) fun dh => ∃ sm, dh = s.handler i sm ∧ After2 s i sm := by
  obtain ⟨key, p1, ma, hk, h1, ha, hown⟩ := phase2MessageA_ok hi
  have hdel := deliver_returns (s := s) .phase2 hi (s.collecting i key p1 ma)
    (BitCurve.receivePhase2MessageB (s.loop .alpha i)) (BitCurve.checkPhase2Done (s.loop .alpha i))
    (s.others i).length (s.phase2MessageB i) (s.AnswersBoth i)
    (fun dh => ∃ sm, dh = s.handler i sm [.phase2] ∧ After2 s i sm) (fun _ _ _ _ _ => rfl)
    (fun m hm => if_neg (fun h => hm.ne (h.trans others_append_length)))
    (fun j hj => by
      obtain ⟨mb, _, hans, hreturns⟩ := phase2MessageB_ok hi (mem_others.mp hj).2
      exact hreturns.mono fun a _ ha => ha ▸ hans)
    (RangeMap.Collects.empty _) (fun j _ => List.not_mem_nil) (by rw [List.length_nil, zero_add])
    (fun p2 h2 => by
      rw [List.append_nil] at h2
      obtain ⟨sm, hsm, _, hcheck⟩ := checkPhase2Done_ok hk h1 ha h2
      exact hcheck.mono fun dh _ hdh => ⟨sm, hdh, hsm⟩)
  have hsteps : ReturnsIff _ (s.phase2 i) fun dh => ∃ sm, dh = s.handler i sm ∧ After2 s i sm :=
    .then_ok hown (hdel.bind fun dh _ ⟨sm, hdh, hsm⟩ => by
      rw [hdh]
      exact .of_ok (wait_signalled sm .phase2) ⟨sm, rfl, hsm⟩)
  refine hsteps.congr ?_
  rw [and_iff_left trivial, ← forall₂_and]
  exact forall₂_congr fun j _ => s.pairFits_iff.symm

end Phase2

section Phase3

variable {s} {i j : ℕ}

/-- The loop of `addShares` over a list of other signers. -/
theorem addShares_foldl (alpha : RangeMap ℕ SPrivKey) (p2 : RangeMap ℕ (MessageBPhase2 C))
    (beta : MessageBPhase2 C → Except String SPrivKey) (f : ℕ → ZMod C.N) (l : List ℕ) (hil : i ∉ l)
    (hl : ∀ j ∈ l, ∃ a mb b, alpha.lookup j = some a ∧ p2.lookup j = some mb ∧ beta mb = .ok b ∧
      (a : ZMod C.N) + b = f j) (acc : SPrivKey) (hacc : acc < C.N) :
    ∃ d, (l ++ [i]).foldlM (fun acc j => do
        if j = i then return acc
        else
          let a ← deref (alpha.lookup j)
          let mb ← deref (p2.lookup j)
          let b ← beta mb
          return modAdd C.N (modAdd C.N acc a) b) acc = Except.ok d ∧
      d < C.N ∧ (d : ZMod C.N) = acc + (l.map f).sum := by
  induction l generalizing acc with
  | nil => exact ⟨acc, bind_ok (if_pos rfl) _, hacc, by simp⟩
  | cons j l ih =>
    obtain ⟨a, mb, b, ha, hmb, hb, hsum⟩ := hl j (List.mem_cons_self ..)
    rw [List.mem_cons, not_or] at hil
    obtain ⟨d, hd, hlt, hd'⟩ := ih hil.2 (fun j hj => hl j (List.mem_cons_of_mem _ hj))
      (modAdd C.N (modAdd C.N acc a) b) (modAdd_lt _ _)
    refine ⟨d, ?_, hlt, ?_⟩
    · have hda : deref (alpha.lookup j) = .ok a := by rw [ha, deref_some]
      have hdm : deref (p2.lookup j) = .ok mb := by rw [hmb, deref_some]
      rw [List.cons_append, List.foldlM_cons, if_neg (Ne.symm hil.1)]
      exact (bind_ok ((bind_ok hda _).trans ((bind_ok hdm _).trans (bind_ok hb _))) _).trans hd
    · rw [hd', cast_modAdd, cast_modAdd, List.map_cons, List.sum_cons, ← hsum]
      ring

/-- The share of the product of the sum of `k` with the sum of `gamma` that signer `i` broadcasts. -/
def IsDelta (s : Session C) (i : ℕ) (d : SPrivKey) : Prop := (d : ZMod C.N) = s.k i * s.sumGamma

/-- The record of signer `i` after phase 3. -/
inductive After3 (s : Session C) (i : ℕ) : SignMessage C → Prop
  | intro (key : SignedKey C) (p1 : RangeMap ℕ SignBroadcastPhase1) (ma : MessageA)
      (p2 : RangeMap ℕ (MessageBPhase2 C)) (aG aW d : RangeMap ℕ SPrivKey) (sigma : SPrivKey) (hk : s.KeyOf i key)
      (h1 : RangeMap.Collects p1 s.S s.Commits) (ha : s.CarriesK i ma)
      (h2 : RangeMap.Collects p2 (s.others i) (s.AnswersBoth i)) (hd : RangeMap.Collects d s.S (IsDelta s))
      (hsigma : (sigma : ZMod C.N) = s.k i * (s.groupKey : ZMod C.N)) :
      After3 s i { s.base i key with
        phase1BroadCast := p1, messageA := some ma, phase2MessageB := p2, alphaGamma := aG, alphaWI := aW,
        delta := d, sigma := sigma }

/-- The others' values are complete for the sums of phase 2. -/
theorem len_of_others {sm : SignMessage C} {m : RangeMap ℕ SPrivKey} {P : ℕ → SPrivKey → Prop}
    (hS : sm.S = s.others i ++ [i]) (hm : RangeMap.Collects m (s.others i) P) :
    ¬ m.len ≠ (s.handler i sm).signMessage.S.length - 1 := by
  rw [show (s.handler i sm).signMessage = sm from rfl, hm.len, hS, List.length_append, List.length_singleton,
    Nat.add_sub_cancel]
  exact not_not.mpr rfl

theorem deref_signedKey {sm : SignMessage C} {key : SignedKey C} (hkey : sm.signedKey = some key) :
    deref (s.handler i sm).signMessage.signedKey = .ok key := by
  rw [show (s.handler i sm).signMessage.signedKey = sm.signedKey from rfl, hkey, deref_some]

theorem phase2DeltaI_ok (hi : i ∈ s.S) (sm : SignMessage C) (hS : sm.S = s.others i ++ [i]) {key : SignedKey C}
    (hkey : sm.signedKey = some key) (hk : s.KeyOf i key)
    (hG : RangeMap.Collects sm.alphaGamma (s.others i) (AlphaGamma (s := s) sm.phase2MessageB i)) :
    ∃ d, (s.handler i sm).phase2DeltaI = .ok d ∧ IsDelta s i d := by
  obtain ⟨d, hd, _, hd'⟩ := addShares_foldl (i := i) sm.alphaGamma sm.phase2MessageB
    (fun mb => .ok mb.messageBGamma.beta) (fun j => s.k i * s.gamma j) (s.others i) notMem_others
    (fun j hj => by
      obtain ⟨a, ha, _, mb, hmb, hsum⟩ := hG.values j hj
      exact ⟨a, mb, _, ha, hmb, rfl, hsum⟩)
    (modMul C.N key.ki key.gammaI) (modMul_lt _ _)
  refine ⟨d, ?_, ?_⟩
  · rw [← hS] at hd
    exact (if_neg (len_of_others hS hG)).trans ((bind_ok (deref_signedKey hkey) _).trans hd)
  · rw [IsDelta, hd', cast_modMul, hk.ki, hk.gammaI, sumGamma, ← sum_others hi, List.sum_map_mul_left]
    simp only [k, gamma]
    ring

theorem phase2SigmaI_ok (hi : i ∈ s.S) (sm : SignMessage C) (hS : sm.S = s.others i ++ [i]) {key : SignedKey C}
    (hkey : sm.signedKey = some key) (hk : s.KeyOf i key)
    (hW : RangeMap.Collects sm.alphaWI (s.others i) (AlphaWI (s := s) sm.phase2MessageB i)) :
    ∃ d, (s.handler i sm).phase2SigmaI = .ok d ∧ (d : ZMod C.N) = s.k i * (s.groupKey : ZMod C.N) := by
  obtain ⟨d, hd, _, hd'⟩ := addShares_foldl (i := i) sm.alphaWI sm.phase2MessageB
    (fun mb => do
      let mbw ← deref mb.messageBWi
      return mbw.beta) (fun j => s.k i * s.w j) (s.others i) notMem_others
    (fun j hj => by
      obtain ⟨a, ha, _, mb, mbw, hmb, hmbw, hsum⟩ := hW.values j hj
      exact ⟨a, mb, mbw.beta, ha, hmb, by rw [hmbw, deref_some]; rfl, hsum⟩)
    (modMul C.N key.ki key.wi) (modMul_lt _ _)
  refine ⟨d, ?_, ?_⟩
  · rw [← hS] at hd
    exact (if_neg (len_of_others hS hW)).trans ((bind_ok (deref_signedKey hkey) _).trans hd)
  · rw [hd', cast_modMul, hk.ki, hk.wi, ← s.sum_w, ← sum_others hi, List.sum_map_mul_left]
    simp only [k]
    ring

/-- The record of signer `i` when it sends its share. -/
inductive Sends3 (s : Session C) (i : ℕ) : DSMHandler C × SPrivKey → Prop
  | intro (key : SignedKey C) (p1 : RangeMap ℕ SignBroadcastPhase1) (ma : MessageA)
      (p2 : RangeMap ℕ (MessageBPhase2 C)) (aG aW : RangeMap ℕ SPrivKey) (d sigma : SPrivKey) (hk : s.KeyOf i key)
      (h1 : RangeMap.Collects p1 s.S s.Commits) (ha : s.CarriesK i ma)
      (h2 : RangeMap.Collects p2 (s.others i) (s.AnswersBoth i)) (hd : IsDelta s i d)
      (hsigma : (sigma : ZMod C.N) = s.k i * (s.groupKey : ZMod C.N)) :
      Sends3 s i (s.handler i { s.base i key with
        phase1BroadCast := p1, messageA := some ma, phase2MessageB := p2, alphaGamma := aG, alphaWI := aW,
        delta := AList.insert i d ∅, sigma := sigma }, d)

theorem phase3DeltaI_returns (hi : i ∈ s.S) : ReturnsIff (s.ExchangeFits i) (s.phase3DeltaI i) (Sends3 s i) := by
  refine ((phase2_returns hi).bind fun dh _ ⟨sm, hdh, hsm⟩ => ?_).congr (and_iff_left trivial)
  rw [hdh]
  obtain ⟨key, p1, ma, p2, aG, aW, hk, h1, ha, h2, hG, hW⟩ := hsm
  obtain ⟨d, hd, hd'⟩ := phase2DeltaI_ok hi { s.base i key with
    phase1BroadCast := p1, messageA := some ma, phase2MessageB := p2, alphaGamma := aG, alphaWI := aW }
    rfl rfl hk hG
  obtain ⟨sigma, hs, hs'⟩ := phase2SigmaI_ok hi { s.base i key with
    phase1BroadCast := p1, messageA := some ma, phase2MessageB := p2, alphaGamma := aG, alphaWI := aW }
    rfl rfl hk hW
  have hcheck : (s.handler i { s.base i key with
      phase1BroadCast := p1, messageA := some ma, phase2MessageB := p2, alphaGamma := aG, alphaWI := aW,
      delta := AList.insert i d ∅, sigma := sigma }).checkPhase3Done = .ok _ := if_neg (len_insert_empty_ne hi d)
  exact .of_ok ((bind_ok hd _).trans ((bind_ok hs _).trans (bind_ok hcheck _)))
    (.intro key p1 ma p2 aG aW d sigma hk h1 ha h2 hd' hs')

/-- From phase 3 on a signer has something from every other one, so nobody may have failed. -/
theorem phase3_returns (hi : i ∈ s.S) :
    ReturnsIff (∀ j ∈ s.S, s.ExchangeFits j) (s.phase3 i) fun dh => ∃ sm, dh = s.handler i sm ∧ After3 s i sm := by
  have hmsg : ∀ j ∈ s.S, ReturnsIff (s.ExchangeFits j) (do return (← s.phase3DeltaI j).2) (IsDelta s j) :=
    fun j hj => (phase3DeltaI_returns hj).map fun r _ hr => by
      obtain ⟨_, _, _, _, _, _, d, _, _, _, _, _, hd, _⟩ := hr
      exact hd
  refine ((phase3DeltaI_returns hi).bind fun r _ hr => ?_).congr (forall_signers hi)
  obtain ⟨key, p1, ma, p2, aG, aW, d, sigma, hk, h1, ha, h2, hd, hs⟩ := hr
  refine ((deliver_receiveOnce (s := s) .phase3 hi
    (fun m => s.handler i { s.base i key with
      phase1BroadCast := p1, messageA := some ma, phase2MessageB := p2, alphaGamma := aG, alphaWI := aW,
      delta := m, sigma := sigma })
    DSMHandler.receivePhase3DeltaI DSMHandler.checkPhase3Done
    (fun dh => ∃ sm, dh = s.handler i sm [.phase3] ∧ After3 s i sm)
    (fun m v j hj _ => DSMHandler.receiveOnce_new hj) (fun m hm => if_neg hm) hmsg
    ((RangeMap.Collects.empty _).insert List.not_mem_nil hd)
    (fun m hm => .of_ok ((if_pos (len_collects hi hm)).trans (notifyDone_handler _ _))
      ⟨_, rfl, .intro key p1 ma p2 aG aW m sigma hk h1 ha h2 hm hs⟩)).bind fun dh _ ⟨sm, hdh, hsm⟩ => ?_).congr
    ((and_iff_left trivial).trans (and_iff_left trivial))
  rw [hdh]
  exact .of_ok (wait_signalled sm .phase3) ⟨sm, rfl, hsm⟩

end Phase3

end Session

end DistributedNotary.Mecdsa
