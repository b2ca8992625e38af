import DistributedNotary.Mecdsa.Completion

/-! What becomes of a session whose phase 4 fails. `generatePhase4R` drops the error,
`StartDSMAndWaitFinish` goes on to phase 5, and the point `R` that was not set is
dereferenced there. -/
namespace DistributedNotary.Mecdsa

open Library Share Feldman Proofs

variable {C : Curve}

/-- The notary between the end of phase 3 and the first broadcast of phase 5, with whatever it has received. -/
structure Phase4 (C : Curve) where
  dh : DSMHandler C
  key : SignedKey C
  ma : MessageA
  signedKey : dh.signMessage.signedKey = some key
  messageA : dh.signMessage.messageA = some ma
  R : dh.signMessage.R = none
  coins : MtACoins C
  own : MessageB C
  own_eq : newMessageB key.gammaI dh.paillierPrivateKey.toPublicKey ma coins = .ok own
  coins5 : Phase5ACoins C
  delta : Range ℕ
  commitments : Range ℕ
  points : Range ℕ
  proofs : Range ℕ

/-- How `StartDSMAndWaitFinish` can go on from there. -/
inductive Outcome (C : Curve) where
  | returned (err : String)
  | broadcasts (dh : DSMHandler C) (msg : Phase5A C)
  | panicked (err : String)

namespace Phase4

variable (s : Phase4 C)

def generatePhase4R : Except String (DSMHandler C) :=
  s.dh.generatePhase4R s.delta s.commitments s.points s.coins

/-- The two calls before the broadcast, whose results are not looked at. -/
def outcome : Outcome C :=
  match s.generatePhase4R with
  | .error err => .panicked err
  | .ok dh =>
    match dh.generatePhase5a5bZkProof s.proofs s.coins5 with
    | .error err => .panicked err
    | .ok (dh, msg) => .broadcasts dh msg

/-- The messages that phase 4 checks: those of phase 2 and the own one. -/
def gammaIProof : RangeMap ℕ (MessageBPhase2 C) :=
  s.dh.signMessage.phase2MessageB.insert s.dh.selfNotaryID { messageBGamma := s.own, messageBWi := none }

/-- Every key of phase 2 is the one committed to in phase 1, and nobody else has committed to one. -/
structure Opens : Prop where
  len : s.gammaIProof.len = s.dh.signMessage.phase1BroadCast.len
  opens : ∀ i p, s.gammaIProof.lookup i = some p → ∃ b, s.dh.signMessage.phase1BroadCast.lookup i = some b ∧
    createCommitmentWithUserDefinedRandomNess (C.X p.messageBGamma.bProof.PK) b.blindFactor = b.com

/-- A failure of the check is what the session returns. -/
def Contained : Prop := ¬ s.Opens → s.outcome = .returned "invliad key"

theorem checkCommitments_iff (phase1Broadcast : RangeMap ℕ SignBroadcastPhase1) (l : List (ℕ × MessageBPhase2 C)) :
    checkCommitments phase1Broadcast l = .ok true ↔ ∀ p ∈ l, ∃ b, phase1Broadcast.lookup p.1 = some b ∧
      createCommitmentWithUserDefinedRandomNess (C.X p.2.messageBGamma.bProof.PK) b.blindFactor = b.com := by
  induction l with
  | nil => exact iff_of_true rfl fun p hp => absurd hp List.not_mem_nil
  | cons p l ih =>
    rw [checkCommitments, List.forall_mem_cons]
    cases hb : phase1Broadcast.lookup p.1 with
    | none => exact iff_of_false (nomatch ·) fun h => nomatch h.1
    | some b =>
      rw [bind_ok (deref_some b)]
      by_cases hopen : createCommitmentWithUserDefinedRandomNess (C.X p.2.messageBGamma.bProof.PK) b.blindFactor = b.com
      · rw [if_pos hopen, ih]
        exact ⟨fun h => ⟨⟨b, rfl, hopen⟩, h⟩, fun h => h.2⟩
      · rw [if_neg hopen]
        refine iff_of_false (nomatch ·) fun h => ?_
        obtain ⟨b', hb', hopen'⟩ := h.1
        obtain rfl := Option.some.inj hb'
        exact hopen hopen'

variable {s}

theorem checkCommitments_range_iff : s.gammaIProof.len = s.dh.signMessage.phase1BroadCast.len ∧
    checkCommitments s.dh.signMessage.phase1BroadCast (s.gammaIProof.range s.commitments) = .ok true ↔ s.Opens := by
  rw [checkCommitments_iff]
  exact ⟨fun h => ⟨h.1, fun i p hp => h.2 (i, p) (RangeMap.mem_range.mpr hp)⟩,
    fun h => ⟨h.len, fun p hp => h.opens p.1 p.2 (RangeMap.mem_range.mp hp)⟩⟩

/-- The state of phase 4 once the own message is added. -/
def withOwn (s : Phase4 C) : DSMHandler C := s.dh.setPhase2MessageB s.gammaIProof

/-- What phase 4 leaves: the point `R` if the check passes, and otherwise no `R`, if it comes to an end at all. -/
theorem generatePhase4R_eq : s.generatePhase4R = (do
    match ← phase4 s.commitments s.points (phase3ReconstructDelta s.delta s.dh.signMessage.delta C.N) s.gammaIProof
      s.dh.signMessage.phase1BroadCast with
    | none => return s.withOwn
    | some R => return { s.withOwn with signMessage := { s.withOwn.signMessage with R := some R } }) := by
  rw [generatePhase4R, DSMHandler.generatePhase4R, s.signedKey, bind_ok (deref_some _), s.messageA,
    bind_ok (deref_some _), bind_ok s.own_eq]
  rfl

theorem generatePhase4R_of_opens (h : s.Opens) :
    ∃ dh R, s.generatePhase4R = .ok dh ∧ dh.signMessage.R = some R := by
  obtain ⟨hlen, hcheck⟩ := checkCommitments_range_iff.mpr h
  rw [generatePhase4R_eq, phase4, if_neg (not_not.mpr hlen), hcheck]
  exact ⟨_, _, rfl, rfl⟩

/-- Without `R` the proof of phase 5 cannot be computed. -/
theorem outcome_of_not_opens (h : ¬ s.Opens) : ∃ err, s.outcome = .panicked err := by
  have hR : ∀ dh, s.generatePhase4R = .ok dh → dh.signMessage.R = none := by
    intro dh hdh
    rw [generatePhase4R_eq, phase4] at hdh
    by_cases hlen : s.gammaIProof.len = s.dh.signMessage.phase1BroadCast.len
    · rw [if_neg (not_not.mpr hlen)] at hdh
      cases hcheck : checkCommitments s.dh.signMessage.phase1BroadCast (s.gammaIProof.range s.commitments) with
      | error err =>
        rw [hcheck] at hdh
        exact nomatch hdh
      | ok b =>
        rw [hcheck] at hdh
        cases b with
        | true => exact absurd (checkCommitments_range_iff.mp ⟨hlen, hcheck⟩) h
        | false =>
          obtain rfl := Except.ok.inj hdh
          exact s.R
    · rw [if_pos hlen] at hdh
      exact nomatch hdh
  rw [outcome]
  cases hrun : s.generatePhase4R with
  | error err => exact ⟨err, rfl⟩
  | ok dh =>
    have hproof : ∃ err, dh.generatePhase5a5bZkProof s.proofs s.coins5 = .error err := by
      rw [DSMHandler.generatePhase5a5bZkProof, hR dh hrun]
      cases hkey : dh.signMessage.signedKey with
      | none => exact ⟨_, rfl⟩
      | some k => exact ⟨_, rfl⟩
    obtain ⟨err, herr⟩ := hproof
    exact ⟨err, by simp only [herr]⟩

/-- A failure of phase 4 is never what the session returns: the session panics on it. Where the commitments
open, phase 4 leaves its point. -/
theorem contained_iff (s : Phase4 C) : (s.Contained ↔ s.Opens) ∧ (¬ s.Opens → ∃ err, s.outcome = .panicked err) ∧
    (s.Opens → ∃ dh R, s.generatePhase4R = .ok dh ∧ dh.signMessage.R = some R) := by
  refine ⟨⟨fun h => ?_, fun h hno => absurd h hno⟩, outcome_of_not_opens, generatePhase4R_of_opens⟩
  by_contra hno
  obtain ⟨err, hpanic⟩ := outcome_of_not_opens hno
  rw [h hno] at hpanic
  exact nomatch hpanic

end Phase4

section Example

def tamperedCoins5 : MtACoins curve5 where
  betaTag := curve5Key 4 four_fits
  nonce := 1
  proofNonce := curve5Key 2 two_fits
  betaTagProofNonce := curve5Key 6 six_fits

/-- The message that the notary adds for itself. -/
def ownMessage5 : MessageB curve5 where
  c := Paillier.addCipher (exchange5 1).dh.paillierPrivateKey.toPublicKey
    (Paillier.mul (exchange5 1).dh.paillierPrivateKey.toPublicKey 1 1) (1 + 4 * 143)
  bProof := prove 1 2
  betaTagProof := prove 4 6
  beta := 3

/-- A notary with a peer whose key of phase 2 is not the one it committed to. -/
def tampered5 : Phase4 curve5 where
  dh := { (exchange5 1).dh with signMessage := { (exchange5 1).dh.signMessage with
    phase1BroadCast := (AList.insert 0
      { com := createCommitmentWithUserDefinedRandomNess (curve5.X curve5.G) 5, blindFactor := 5 }
      (AList.insert 1 { com := 0, blindFactor := 5 } ∅))
    phase2MessageB := AList.insert 1 { messageBGamma := answer5, messageBWi := some answer5 } ∅
    messageA := some { c := 1 }
    delta := AList.insert 0 1 (AList.insert 1 1 ∅) } }
  key := (exchange5 1).key
  ma := { c := 1 }
  signedKey := rfl
  messageA := rfl
  R := rfl
  coins := tamperedCoins5
  own := ownMessage5
  own_eq := rfl
  coins5 := {
    lI := curve5Key 3 three_fits
    rhoI := curve5Key 2 two_fits
    blindFactor := 9
    s1 := curve5Key 1 one_fits
    s2 := curve5Key 5 five_fits }
  delta := .id ℕ
  commitments := .id ℕ
  points := .id ℕ
  proofs := .id ℕ

theorem not_contained_tampered5 : ¬ tampered5.Contained := by
  intro h
  obtain ⟨b, hb, hopen⟩ := ((Phase4.contained_iff tampered5).1.mp h).opens 1
    { messageBGamma := answer5, messageBWi := some answer5 } rfl
  obtain rfl := Option.some.inj hb
  revert hopen
  decide +kernel

end Example

end DistributedNotary.Mecdsa
