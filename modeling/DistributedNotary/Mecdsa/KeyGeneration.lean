import DistributedNotary.Library.Transition
import DistributedNotary.Mecdsa.Dealing
import Mathlib.Logic.Function.Basic

/-! The negotiation of a private key as `pkn_handler.go` runs it. In the first
phase the notaries exchange their public keys, in the second their Paillier keys,
and in the third the shares of their secrets. A notary waits for the end of a
phase, and handles whatever message comes meanwhile. The last phase, in which
nothing is compared, is left out. -/
namespace DistributedNotary.Mecdsa

open Library Share Feldman Proofs

/-- `correctKey` says whether the proof for the Paillier key that comes with the message verifies. -/
structure KeyGenBroadcastMessage2 where
  com : ℕ
  blindFactor : ℕ
  correctKey : Bool

structure KeyGenBroadcastMessage3 (C : Curve) where
  vss : VerifiableSS C
  secretShare : ℤ

inductive KeyGenMessage (C : Curve) where
  | phase1 (m : DLogProof C)
  | phase2 (m : KeyGenBroadcastMessage2)
  | phase3 (m : KeyGenBroadcastMessage3 C)

/-- The phases whose end a notary waits for. -/
inductive KeyGenPhase where
  | phase1
  | phase2
  | phase3
  deriving DecidableEq

instance : Fintype KeyGenPhase := ⟨{.phase1, .phase2, .phase3}, by intro k; cases k <;> simp⟩

structure PKNHandler (C : Curve) where
  selfNotaryID : ℕ
  ui : SPrivKey
  pubKeysProof1 : RangeMap ℕ (DLogProof C) := ∅
  paillierKeysProof2 : RangeMap ℕ KeyGenBroadcastMessage2 := ∅
  secretShareMessage3 : RangeMap ℕ (KeyGenBroadcastMessage3 C) := ∅
  publicKey : Option C.Point := none
  xi : Option SPrivKey := none
  doneChan : List KeyGenPhase := []
  quitChan : List String := []

/-- What `ModAdd` adds of a share. -/
def residue (N : ℕ) (d : ℤ) : SPrivKey := (d % N).toNat

namespace PKNHandler

variable {C : Curve}

/-- `notify(nil, err)`: the error is offered twice to a channel of capacity two. -/
def notifyError (ph : PKNHandler C) (err : String) : PKNHandler C :=
  { ph with quitChan := (ph.quitChan ++ [err, err]).take 2 }

/-- `notify(c, nil)`: nothing happens where the channel of capacity two is full. -/
def notifyDone (ph : PKNHandler C) (c : KeyGenPhase) : PKNHandler C :=
  if 2 ≤ ph.doneChan.count c then ph else { ph with doneChan := c :: ph.doneChan }

section Phase1

/-- `cfg.Notaries.ShareCount` is `n`; the loop visits the proofs in the order `rg`. -/
def checkPhase1Done (n : ℕ) (rg : Range ℕ) (ph : PKNHandler C) : PKNHandler C :=
  if ph.pubKeysProof1.len + 1 = n then
    { ph with
      publicKey := some (pointSum (scalarBaseMult C ph.ui)
        ((ph.pubKeysProof1.range rg).map fun p : ℕ × DLogProof C => p.2.PK)) }.notifyDone .phase1
  else ph

def receivePhase1PubKeyProof (n : ℕ) (rg : Range ℕ) (ph : PKNHandler C) (m : DLogProof C) (index : ℕ) :
    Except String (PKNHandler C) := do
  if (← verifyDLog m) = false then return ph.notifyError s!"pubkey roof for notary[ID={index}] verify not pass"
  if (ph.pubKeysProof1.lookup index).isSome then
    return ph.notifyError s!"pubkey roof for notary[ID={index}] already exist"
  return checkPhase1Done n rg { ph with pubKeysProof1 := ph.pubKeysProof1.insert index m }

end Phase1

section Phase2

def checkPhase2Done (n : ℕ) (ph : PKNHandler C) : PKNHandler C :=
  if ph.paillierKeysProof2.len = n then ph.notifyDone .phase2 else ph

/-- The proof for the own Paillier key verifies. -/
def generatePhase2PaillierKeyProof (n blindFactor : ℕ) (ph : PKNHandler C) : PKNHandler C × KeyGenBroadcastMessage2 :=
  let com := createCommitmentWithUserDefinedRandomNess (C.X (scalarBaseMult C ph.ui)) blindFactor
  let msg : KeyGenBroadcastMessage2 := { com := com, blindFactor := blindFactor, correctKey := true }
  (checkPhase2Done n
    { ph with paillierKeysProof2 := ph.paillierKeysProof2.insert ph.selfNotaryID msg }, msg)

def receivePhase2PaillierPubKeyProof (n : ℕ) (ph : PKNHandler C) (m : KeyGenBroadcastMessage2) (index : ℕ) :
    PKNHandler C :=
  if m.correctKey = false then ph.notifyError s!"paillier pubkey roof for notary[ID={index}] verify not pass"
  else if (ph.paillierKeysProof2.lookup index).isSome then
    ph.notifyError s!"paillier pubkey roof for notary[ID={index}] already exist"
  else checkPhase2Done n { ph with paillierKeysProof2 := ph.paillierKeysProof2.insert index m }

end Phase2

section Phase3

def checkPhase3Done (n : ℕ) (rg : Range ℕ) (ph : PKNHandler C) : PKNHandler C :=
  if ph.secretShareMessage3.len = n then
    { ph with
      xi := some (modSum C.N privKeyZero
        ((ph.secretShareMessage3.range rg).map fun p : ℕ × KeyGenBroadcastMessage3 C =>
          residue C.N p.2.secretShare)) }.notifyDone .phase3
  else ph

/-- Whether the public key of notary `i` is the one it has committed itself to. -/
def blindFactorFits (ph : PKNHandler C) (i : ℕ) : Except String Bool := do
  if i = ph.selfNotaryID then return true
  let m ← deref (ph.paillierKeysProof2.lookup i)
  let p ← deref (ph.pubKeysProof1.lookup i)
  return createCommitmentWithUserDefinedRandomNess (C.X p.PK) m.blindFactor = m.com

/-- The first of the listed notaries whose public key does not fit. -/
def firstMisfit (ph : PKNHandler C) : List ℕ → Except String (Option ℕ)
  | [] => .ok none
  | i :: l => do if ← ph.blindFactorFits i then firstMisfit ph l else return some i

/-- The shares of the polynomial whose coefficients after the constant one are `coefs`, for each notary. -/
def generatePhase3SecretShare (t n : ℕ) (rg : Range ℕ) (coefs : List SPrivKey) (ph : PKNHandler C) :
    Except String (PKNHandler C × RangeMap ℕ (KeyGenBroadcastMessage3 C)) := do
  match ← ph.firstMisfit (List.range ph.pubKeysProof1.len) with
  | some i => return (ph.notifyError s!"blind factor error for notary[ID={i}]", ∅)
  | none =>
    let (vss, secretShares) := share C t n (ph.ui :: coefs)
    let own ← deref secretShares[ph.selfNotaryID]?
    let msgs := RangeMap.tabulate ((List.range n).filter (· ≠ ph.selfNotaryID)) fun i =>
      ({ vss := vss, secretShare := secretShares.getD i 0 } : KeyGenBroadcastMessage3 C)
    return (checkPhase3Done n rg
      { ph with
        secretShareMessage3 :=
          ph.secretShareMessage3.insert ph.selfNotaryID { vss := vss, secretShare := own } }, msgs)

def receivePhase3SecretShare (n : ℕ) (rg : Range ℕ) (ph : PKNHandler C) (msg : KeyGenBroadcastMessage3 C) (index : ℕ) :
    Except String (PKNHandler C) := do
  let p ← deref (ph.pubKeysProof1.lookup index)
  let c ← deref msg.vss.commitments.head?
  if C.eqGE p.PK c = false then return ph.notifyError s!"pubkey not match for notary[ID={index}]"
  if (ph.secretShareMessage3.lookup index).isSome then
    return ph.notifyError s!"secret shares for notary[ID={index}] already received"
  if ← msg.vss.validateShare msg.secretShare (ph.selfNotaryID + 1) then
    return checkPhase3Done n rg { ph with secretShareMessage3 := ph.secretShareMessage3.insert index msg }
  else return ph.notifyError s!"secret share error for notary[ID={index}]"

end Phase3

/-- What `waitPhaseDone` does with a message. -/
def receive (n : ℕ) (rg : Range ℕ) (ph : PKNHandler C) (index : ℕ) : KeyGenMessage C → Except String (PKNHandler C)
  | .phase1 m => receivePhase1PubKeyProof n rg ph m index
  | .phase2 m => .ok (receivePhase2PaillierPubKeyProof n ph m index)
  | .phase3 m => receivePhase3SecretShare n rg ph m index

section Accepting

variable {ph : PKNHandler C} {n : ℕ} {rg : Range ℕ} {index : ℕ}

theorem notifyError_quitChan (err : String) : (ph.notifyError err).quitChan ≠ [] := by
  unfold notifyError
  cases ph.quitChan <;> simp

theorem notifyDone_eq (ph : PKNHandler C) (c : KeyGenPhase) :
    ∃ d, ph.notifyDone c = { ph with doneChan := d } ∧ ∀ c', c' ∈ d ↔ c' = c ∨ c' ∈ ph.doneChan := by
  unfold notifyDone
  split_ifs with h
  · refine ⟨ph.doneChan, rfl, fun c' => ⟨.inr, fun hc => hc.elim (fun e => ?_) fun hm => hm⟩⟩
    rw [e]
    exact List.count_pos_iff.mp (by omega)
  · exact ⟨c :: ph.doneChan, rfl, fun c' => List.mem_cons⟩

theorem checkPhase1Done_eq (n : ℕ) (rg : Range ℕ) (ph : PKNHandler C) :
    ∃ d key, checkPhase1Done n rg ph = { ph with publicKey := key, doneChan := d } ∧
      (∀ c, c ∈ d ↔ c = .phase1 ∧ ph.pubKeysProof1.len + 1 = n ∨ c ∈ ph.doneChan) ∧
      (ph.pubKeysProof1.len + 1 = n → key = some (pointSum (scalarBaseMult C ph.ui)
        ((ph.pubKeysProof1.range rg).map fun p : ℕ × DLogProof C => p.2.PK))) := by
  unfold checkPhase1Done
  split_ifs with h
  · obtain ⟨d, hd, hmem⟩ := notifyDone_eq { ph with
      publicKey := some (pointSum (scalarBaseMult C ph.ui)
        ((ph.pubKeysProof1.range rg).map fun p : ℕ × DLogProof C => p.2.PK)) } .phase1
    exact ⟨d, _, hd, fun c => by simp [hmem c, h], fun _ => rfl⟩
  · exact ⟨ph.doneChan, ph.publicKey, rfl, fun c => by simp [h], fun hn => absurd hn h⟩

theorem checkPhase2Done_eq (n : ℕ) (ph : PKNHandler C) :
    ∃ d, checkPhase2Done n ph = { ph with doneChan := d } ∧
      ∀ c, c ∈ d ↔ c = .phase2 ∧ ph.paillierKeysProof2.len = n ∨ c ∈ ph.doneChan := by
  unfold checkPhase2Done
  split_ifs with h
  · obtain ⟨d, hd, hmem⟩ := notifyDone_eq ph .phase2
    exact ⟨d, hd, fun c => by simp [hmem c, h]⟩
  · exact ⟨ph.doneChan, rfl, fun c => by simp [h]⟩

theorem checkPhase3Done_eq (n : ℕ) (rg : Range ℕ) (ph : PKNHandler C) :
    ∃ d xi, checkPhase3Done n rg ph = { ph with xi := xi, doneChan := d } ∧
      (∀ c, c ∈ d ↔ c = .phase3 ∧ ph.secretShareMessage3.len = n ∨ c ∈ ph.doneChan) ∧
      (ph.secretShareMessage3.len = n → xi = some (modSum C.N privKeyZero
        ((ph.secretShareMessage3.range rg).map fun p : ℕ × KeyGenBroadcastMessage3 C =>
          residue C.N p.2.secretShare))) := by
  unfold checkPhase3Done
  split_ifs with h
  · obtain ⟨d, hd, hmem⟩ := notifyDone_eq { ph with
      xi := some (modSum C.N privKeyZero
        ((ph.secretShareMessage3.range rg).map fun p : ℕ × KeyGenBroadcastMessage3 C =>
          residue C.N p.2.secretShare)) } .phase3
    exact ⟨d, _, hd, fun c => by simp [hmem c, h], fun _ => rfl⟩
  · exact ⟨ph.doneChan, ph.xi, rfl, fun c => by simp [h], fun hn => absurd hn h⟩

/-- A message of the first phase is refused, or it is new and stored. -/
theorem receivePhase1_cases {m : DLogProof C} {ph' : PKNHandler C}
    (h : receivePhase1PubKeyProof n rg ph m index = .ok ph') :
    (∃ err, ph' = ph.notifyError err) ∨ ph.pubKeysProof1.lookup index = none ∧
      ph' = checkPhase1Done n rg { ph with pubKeysProof1 := ph.pubKeysProof1.insert index m } := by
  unfold receivePhase1PubKeyProof at h
  cases hv : verifyDLog m with
  | error e => simp [hv, bind, Except.bind] at h
  | ok b =>
    simp only [hv, bind, Except.bind, pure, Except.pure] at h
    split_ifs at h with hb hs
    · exact .inl ⟨_, (Except.ok.inj h).symm⟩
    · exact .inl ⟨_, (Except.ok.inj h).symm⟩
    · exact .inr ⟨by simpa using hs, (Except.ok.inj h).symm⟩

theorem receivePhase1_quiet {m : DLogProof C} {ph' : PKNHandler C}
    (h : receivePhase1PubKeyProof n rg ph m index = .ok ph') (hquiet : ph'.quitChan = []) :
    ph.pubKeysProof1.lookup index = none ∧
      ph' = checkPhase1Done n rg { ph with pubKeysProof1 := ph.pubKeysProof1.insert index m } := by
  rcases receivePhase1_cases h with ⟨err, rfl⟩ | hnew
  · exact absurd hquiet (notifyError_quitChan _)
  · exact hnew

/-- In the second phase the proof for the stored key verifies. -/
theorem receivePhase2_cases (n : ℕ) (ph : PKNHandler C) (m : KeyGenBroadcastMessage2) (index : ℕ) :
    (∃ err, receivePhase2PaillierPubKeyProof n ph m index = ph.notifyError err) ∨
      m.correctKey = true ∧ ph.paillierKeysProof2.lookup index = none ∧ receivePhase2PaillierPubKeyProof n ph m index =
        checkPhase2Done n { ph with paillierKeysProof2 := ph.paillierKeysProof2.insert index m } := by
  unfold receivePhase2PaillierPubKeyProof
  split_ifs with hv hs
  · exact .inl ⟨_, rfl⟩
  · exact .inl ⟨_, rfl⟩
  · exact .inr ⟨by simpa using hv, by simpa using hs, rfl⟩

theorem receivePhase2_quiet {m : KeyGenBroadcastMessage2}
    (h : (receivePhase2PaillierPubKeyProof n ph m index).quitChan = []) :
    ph.paillierKeysProof2.lookup index = none ∧ receivePhase2PaillierPubKeyProof n ph m index =
      checkPhase2Done n { ph with paillierKeysProof2 := ph.paillierKeysProof2.insert index m } := by
  rcases receivePhase2_cases n ph m index with ⟨err, herr⟩ | ⟨_, hnew⟩
  · exact absurd (herr ▸ h) (notifyError_quitChan _)
  · exact hnew

/-- A share that is stored is new, comes from the key of the first phase and fits its commitments. -/
theorem receivePhase3_cases {m : KeyGenBroadcastMessage3 C} {ph' : PKNHandler C}
    (h : receivePhase3SecretShare n rg ph m index = .ok ph') :
    (∃ err, ph' = ph.notifyError err) ∨ ph.secretShareMessage3.lookup index = none ∧
      (∃ p, ph.pubKeysProof1.lookup index = some p ∧ m.vss.commitments.head? = some p.PK) ∧
      m.vss.validateShare m.secretShare (ph.selfNotaryID + 1) = .ok true ∧
      ph' = checkPhase3Done n rg { ph with secretShareMessage3 := ph.secretShareMessage3.insert index m } := by
  unfold receivePhase3SecretShare at h
  cases hp : ph.pubKeysProof1.lookup index with
  | none => simp [hp, deref, bind, Except.bind] at h
  | some p =>
    cases hc : m.vss.commitments.head? with
    | none => simp [hp, hc, deref, bind, Except.bind] at h
    | some c =>
      simp only [hp, hc, deref_some, bind, Except.bind, pure, Except.pure] at h
      split_ifs at h with hkey hdup
      · exact .inl ⟨_, (Except.ok.inj h).symm⟩
      · exact .inl ⟨_, (Except.ok.inj h).symm⟩
      · cases hv : m.vss.validateShare m.secretShare (ph.selfNotaryID + 1) with
        | error e => simp [hv] at h
        | ok b =>
          cases b with
          | false =>
            simp only [hv, Bool.false_eq_true, if_false, Except.ok.injEq] at h
            exact .inl ⟨_, h.symm⟩
          | true =>
            simp only [hv, if_true, Except.ok.injEq] at h
            have heq : p.PK = c := Curve.eqGE_iff.mp (by simpa using hkey)
            exact .inr ⟨by simpa using hdup, ⟨p, rfl, by rw [heq]⟩, rfl, h.symm⟩

theorem receivePhase3_quiet {m : KeyGenBroadcastMessage3 C} {ph' : PKNHandler C}
    (h : receivePhase3SecretShare n rg ph m index = .ok ph') (hquiet : ph'.quitChan = []) :
    ph.secretShareMessage3.lookup index = none ∧
      (∃ p, ph.pubKeysProof1.lookup index = some p ∧ m.vss.commitments.head? = some p.PK) ∧
      m.vss.validateShare m.secretShare (ph.selfNotaryID + 1) = .ok true ∧
      ph' = checkPhase3Done n rg { ph with secretShareMessage3 := ph.secretShareMessage3.insert index m } := by
  rcases receivePhase3_cases h with ⟨err, rfl⟩ | hnew
  · exact absurd hquiet (notifyError_quitChan _)
  · exact hnew

theorem receivePhase1_ok {m : DLogProof C} (hproof : verifyDLog m = .ok true)
    (hnew : ph.pubKeysProof1.lookup index = none) : receivePhase1PubKeyProof n rg ph m index =
      .ok (checkPhase1Done n rg { ph with pubKeysProof1 := ph.pubKeysProof1.insert index m }) := by
  simp [receivePhase1PubKeyProof, hproof, hnew, bind, Except.bind, pure, Except.pure]

theorem receivePhase2_ok {m : KeyGenBroadcastMessage2} (hkey : m.correctKey = true)
    (hnew : ph.paillierKeysProof2.lookup index = none) : receivePhase2PaillierPubKeyProof n ph m index =
      checkPhase2Done n { ph with paillierKeysProof2 := ph.paillierKeysProof2.insert index m } := by
  simp [receivePhase2PaillierPubKeyProof, hkey, hnew]

theorem receivePhase3_ok {m : KeyGenBroadcastMessage3 C} {p : DLogProof C}
    (hp : ph.pubKeysProof1.lookup index = some p) (hkey : m.vss.commitments.head? = some p.PK)
    (hshare : m.vss.validateShare m.secretShare (ph.selfNotaryID + 1) = .ok true)
    (hnew : ph.secretShareMessage3.lookup index = none) : receivePhase3SecretShare n rg ph m index =
      .ok (checkPhase3Done n rg { ph with secretShareMessage3 := ph.secretShareMessage3.insert index m }) := by
  simp [receivePhase3SecretShare, hp, hkey, hshare, hnew, Curve.eqGE_iff.mpr, bind, Except.bind, pure, Except.pure]

theorem firstMisfit_none {l : List ℕ} (h : ∀ i ∈ l, ph.blindFactorFits i = .ok true) : ph.firstMisfit l = .ok none := by
  induction l with
  | nil => rfl
  | cons i l ih =>
    rw [firstMisfit, h i (List.mem_cons_self ..)]
    exact ih fun k hk => h k (List.mem_cons_of_mem _ hk)

theorem fits_of_firstMisfit {l : List ℕ} (h : ph.firstMisfit l = .ok none) :
    ∀ i ∈ l, ph.blindFactorFits i = .ok true := by
  induction l with
  | nil => exact fun _ hi => absurd hi List.not_mem_nil
  | cons i l ih =>
    rw [firstMisfit] at h
    cases hfit : ph.blindFactorFits i with
    | error e => simp [hfit, bind, Except.bind] at h
    | ok b =>
      cases b with
      | false => simp [hfit, bind, Except.bind, pure, Except.pure] at h
      | true =>
        simp only [hfit, bind, Except.bind, if_true] at h
        intro k hk
        rcases List.mem_cons.mp hk with rfl | hk
        · exact hfit
        · exact ih h k hk

theorem generatePhase3_ok {t : ℕ} {coefs : List SPrivKey}
    (hfit : ∀ i < ph.pubKeysProof1.len, ph.blindFactorFits i = .ok true) (hself : ph.selfNotaryID < n) :
    ∃ ph' msgs, ph.generatePhase3SecretShare t n rg coefs = .ok (ph', msgs) ∧ ph'.quitChan = ph.quitChan := by
  have hmisfit := firstMisfit_none fun i hi => hfit i (List.mem_range.mp hi)
  obtain ⟨d, xi, heq, _⟩ := checkPhase3Done_eq n rg
    { ph with
      secretShareMessage3 := ph.secretShareMessage3.insert ph.selfNotaryID
        { vss := (share C t n (ph.ui :: coefs)).1
          secretShare := ((share C t n (ph.ui :: coefs)).2.getD ph.selfNotaryID 0 : SPrivKey) } }
  have hown := share_getElem? C t n (ph.ui :: coefs) hself
  unfold generatePhase3SecretShare
  rw [List.getD_eq_getElem?_getD, hown, Option.getD_some] at heq
  simp only [hmisfit, hown, deref_some, bind, Except.bind, pure, Except.pure]
  exact ⟨_, _, rfl, by rw [heq]⟩

/-- A notary reports the first key that does not fit, or it has found those fitting that it looks at and deals its
shares. -/
theorem generatePhase3_cases {t : ℕ} {coefs : List SPrivKey} {ph' : PKNHandler C}
    {msgs : RangeMap ℕ (KeyGenBroadcastMessage3 C)} (h : ph.generatePhase3SecretShare t n rg coefs = .ok (ph', msgs)) :
    (∃ err, ph' = ph.notifyError err) ∨ (∀ i < ph.pubKeysProof1.len, ph.blindFactorFits i = .ok true) ∧
      (share C t n (ph.ui :: coefs)).2[ph.selfNotaryID]? ≠ none ∧
      ph' = checkPhase3Done n rg { ph with
        secretShareMessage3 := ph.secretShareMessage3.insert ph.selfNotaryID
          { vss := (share C t n (ph.ui :: coefs)).1
            secretShare := ((share C t n (ph.ui :: coefs)).2.getD ph.selfNotaryID 0 : SPrivKey) } } ∧
      msgs = RangeMap.tabulate ((List.range n).filter (· ≠ ph.selfNotaryID)) fun i =>
        { vss := (share C t n (ph.ui :: coefs)).1
          secretShare := ((share C t n (ph.ui :: coefs)).2.getD i 0 : SPrivKey) } := by
  unfold generatePhase3SecretShare at h
  cases hm : ph.firstMisfit (List.range ph.pubKeysProof1.len) with
  | error e => simp [hm, bind, Except.bind] at h
  | ok misfit =>
    cases misfit with
    | some i =>
      simp only [hm, bind, Except.bind, pure, Except.pure, Except.ok.injEq, Prod.mk.injEq] at h
      exact .inl ⟨_, h.1.symm⟩
    | none =>
      cases hown : (share C t n (ph.ui :: coefs)).2[ph.selfNotaryID]? with
      | none => simp [hm, hown, deref, bind, Except.bind] at h
      | some own =>
        simp only [hm, hown, deref_some, bind, Except.bind, pure, Except.pure, Except.ok.injEq, Prod.mk.injEq] at h
        have hget : (share C t n (ph.ui :: coefs)).2.getD ph.selfNotaryID 0 = own := by
          rw [List.getD_eq_getElem?_getD, hown, Option.getD_some]
        rw [hget]
        exact .inr ⟨fun i hi => fits_of_firstMisfit hm i (List.mem_range.mpr hi), Option.some_ne_none _, h.1.symm,
          h.2.symm⟩

theorem generatePhase3_quiet {t : ℕ} {coefs : List SPrivKey} {ph' : PKNHandler C}
    {msgs : RangeMap ℕ (KeyGenBroadcastMessage3 C)}
    (h : ph.generatePhase3SecretShare t n rg coefs = .ok (ph', msgs)) (hquiet : ph'.quitChan = []) :
    (share C t n (ph.ui :: coefs)).2[ph.selfNotaryID]? ≠ none ∧
      ph' = checkPhase3Done n rg { ph with
        secretShareMessage3 := ph.secretShareMessage3.insert ph.selfNotaryID
          { vss := (share C t n (ph.ui :: coefs)).1
            secretShare := ((share C t n (ph.ui :: coefs)).2.getD ph.selfNotaryID 0 : SPrivKey) } } ∧
      msgs = RangeMap.tabulate ((List.range n).filter (· ≠ ph.selfNotaryID)) fun i =>
        { vss := (share C t n (ph.ui :: coefs)).1
          secretShare := ((share C t n (ph.ui :: coefs)).2.getD i 0 : SPrivKey) } := by
  rcases generatePhase3_cases h with ⟨err, rfl⟩ | ⟨_, hdeals⟩
  · exact absurd hquiet (notifyError_quitChan _)
  · exact hdeals

end Accepting

end PKNHandler

end DistributedNotary.Mecdsa
