import DistributedNotary.Mecdsa.HonestNegotiation

/-! What a notary has checked of the others when it deals its shares, whatever
messages reached it before, some of them refused. The proof of each Paillier key
was verified when it arrived. The loop that opens the commitments runs up to the
number of keys received, which leaves out the own one, so that it ends one short
of the last notary. -/
namespace DistributedNotary.Mecdsa

open Library Share Feldman Proofs

variable {C : Curve}

/-- One notary in `StartPKNAndWaitFinish`: `stage` counts the phases it has waited for, and `err` is the error that
`waitPhaseDone` has read meanwhile. -/
structure Negotiator (C : Curve) where
  handler : PKNHandler C
  stage : ℕ := 0
  err : Option String := none

namespace Negotiator

variable (s : Dealers C) (i : ℕ)

def start : Negotiator C where
  handler := { selfNotaryID := i, ui := s.ui i }

/-- The handler when `waitPhaseDone` has taken the signal of phase `k`. -/
def taken (w : Negotiator C) (k : KeyGenPhase) : PKNHandler C :=
  { w.handler with doneChan := w.handler.doneChan.erase k }

/-- One turn of the loop in `waitPhaseDone` of notary `i`, with what follows the end of a phase. Any other notary can
send any message at any time. -/
inductive Step : Negotiator C → Negotiator C → Prop
  | message {w : Negotiator C} {j : ℕ} {msg : KeyGenMessage C} {ph : PKNHandler C} (rg : Range ℕ) (hj : j < s.n)
    (hji : j ≠ i) (hrecv : w.handler.receive s.n rg j msg = .ok ph) : Step w { w with handler := ph }
  | error {w : Negotiator C} {err : String} {rest : List String} (hquit : w.handler.quitChan = err :: rest) :
    Step w { w with handler := { w.handler with quitChan := rest }, err := some err }
  | finish1 {w : Negotiator C} (hstage : w.stage = 0) (hdone : .phase1 ∈ w.handler.doneChan) (herr : w.err = none) :
    Step w { w with
      handler := ((w.taken .phase1).generatePhase2PaillierKeyProof s.n (s.blindFactor i)).1
      stage := 1 }
  | finish2 {w : Negotiator C} {ph : PKNHandler C} {msgs : RangeMap ℕ (KeyGenBroadcastMessage3 C)} (rg : Range ℕ)
    (hstage : w.stage = 1) (hdone : .phase2 ∈ w.handler.doneChan) (herr : w.err = none)
    (hrun : (w.taken .phase2).generatePhase3SecretShare s.t s.n rg (s.tail i) = .ok (ph, msgs)) :
    Step w { w with handler := ph, stage := 2 }
  | finish3 {w : Negotiator C} (hstage : w.stage = 2) (hdone : .phase3 ∈ w.handler.doneChan) (herr : w.err = none) :
    Step w { w with handler := w.taken .phase3, stage := 3 }

/-- The states of all runs of notary `i`. -/
abbrev Run : Negotiator C → Prop := Reachable (fun w => w = start s i) (Step s i)

end Negotiator

/-! ### What a notary has collected -/

section Collected

variable {s : Dealers C} {i stage : ℕ} {ph ph' : PKNHandler C} {rg : Range ℕ} {j : ℕ}

/-- The keys come from other notaries, and a signal is given when they are complete. -/
structure Collected (s : Dealers C) (i stage : ℕ) (ph : PKNHandler C) : Prop where
  self : ph.selfNotaryID = i
  keys1 : ∀ j p, ph.pubKeysProof1.lookup j = some p → j ∈ s.others i
  keys2 : ∀ j m, ph.paillierKeysProof2.lookup j = some m → j ∈ List.range s.n ∧ m.correctKey = true
  own2 : stage < 1 → ph.paillierKeysProof2.lookup i = none
  own3 : stage < 2 → ph.secretShareMessage3.lookup i = none
  done1 : .phase1 ∈ ph.doneChan ∨ 1 ≤ stage → ph.pubKeysProof1.len + 1 = s.n
  done2 : .phase2 ∈ ph.doneChan ∨ 2 ≤ stage → ph.paillierKeysProof2.len = s.n

namespace Collected

theorem start (s : Dealers C) (i : ℕ) : Collected s i 0 { selfNotaryID := i, ui := s.ui i } where
  self := rfl
  keys1 j p h := by simp at h
  keys2 j m h := by simp at h
  own2 _ := rfl
  own3 _ := rfl
  done1 h := by simp at h
  done2 h := by simp at h

theorem quit (h : Collected s i stage ph) (q : List String) : Collected s i stage { ph with quitChan := q } :=
  ⟨h.self, h.keys1, h.keys2, h.own2, h.own3, h.done1, h.done2⟩

/-- From the end of a phase on, its keys are complete. -/
theorem full1 (h : Collected s i stage ph) (hi : i < s.n) (hdone : .phase1 ∈ ph.doneChan ∨ 1 ≤ stage) :
    RangeMap.Collects ph.pubKeysProof1 (s.others i) fun _ _ => True := by
  have hlen := Dealers.length_others (s := s) hi
  have hdone := h.done1 hdone
  exact .of_len (fun j p hp => ⟨h.keys1 j p hp, trivial⟩) (by omega)

theorem full2 (h : Collected s i stage ph) (hdone : .phase2 ∈ ph.doneChan ∨ 2 ≤ stage) :
    RangeMap.Collects ph.paillierKeysProof2 (List.range s.n) fun _ m => m.correctKey = true :=
  .of_len h.keys2 (by rw [h.done2 hdone, List.length_range])

theorem receive1 (h : Collected s i stage ph) (hi : i < s.n) (hj : j < s.n) (hji : j ≠ i) {m : DLogProof C}
    (hrecv : ph.receivePhase1PubKeyProof s.n rg m j = .ok ph') : Collected s i stage ph' := by
  rcases PKNHandler.receivePhase1_cases hrecv with ⟨err, rfl⟩ | ⟨hnone, rfl⟩
  · exact h.quit _
  · obtain ⟨d, key, heq, hd, _⟩ := PKNHandler.checkPhase1Done_eq s.n rg
      { ph with pubKeysProof1 := ph.pubKeysProof1.insert j m }
    have hmem : j ∈ s.others i := Dealers.mem_others.mpr ⟨hj,hji⟩
    have hnot : ¬ (.phase1 ∈ ph.doneChan ∨ 1 ≤ stage) := fun hdone => by
      obtain ⟨p, hp, _⟩ := (h.full1 hi hdone).values j hmem
      rw [hnone] at hp
      cases hp
    rw [heq]
    refine ⟨h.self, fun k p hk => ?_, h.keys2, h.own2, h.own3, fun hdone => ?_, fun hdone => ?_⟩
    · rw [RangeMap.lookup_insert_eq] at hk
      split_ifs at hk with hkj
      · exact hkj ▸ hmem
      · exact h.keys1 k p hk
    · have hfull := (hd .phase1).mp (hdone.resolve_right fun hs => hnot (.inr hs))
      exact (hfull.resolve_right fun hs => hnot (.inl hs)).2
    · exact h.done2 (hdone.imp_left fun hm => by simpa using (hd .phase2).mp hm)

theorem receive2 (h : Collected s i stage ph) (hj : j < s.n) (hji : j ≠ i) (m : KeyGenBroadcastMessage2) :
    Collected s i stage (ph.receivePhase2PaillierPubKeyProof s.n m j) := by
  rcases PKNHandler.receivePhase2_cases s.n ph m j with ⟨err, herr⟩ | ⟨hkey, hnone, hnew⟩
  · exact herr ▸ h.quit _
  · obtain ⟨d, heq, hd⟩ := PKNHandler.checkPhase2Done_eq s.n
      { ph with paillierKeysProof2 := ph.paillierKeysProof2.insert j m }
    have hnot : ¬ (.phase2 ∈ ph.doneChan ∨ 2 ≤ stage) := fun hdone => by
      obtain ⟨m', hm', _⟩ := (h.full2 hdone).values j (List.mem_range.mpr hj)
      rw [hnone] at hm'
      cases hm'
    rw [hnew, heq]
    refine ⟨h.self, h.keys1, fun k m' hk => ?_, fun hs => ?_, h.own3, fun hdone => ?_, fun hdone => ?_⟩
    · rw [RangeMap.lookup_insert_eq] at hk
      split_ifs at hk with hkj
      · exact ⟨hkj ▸ List.mem_range.mpr hj, Option.some.inj hk ▸ hkey⟩
      · exact h.keys2 k m' hk
    · exact (AList.lookup_insert_ne hji.symm).trans (h.own2 hs)
    · exact h.done1 (hdone.imp_left fun hm => by simpa using (hd .phase1).mp hm)
    · have hfull := (hd .phase2).mp (hdone.resolve_right fun hs => hnot (.inr hs))
      exact (hfull.resolve_right fun hs => hnot (.inl hs)).2

theorem receive3 (h : Collected s i stage ph) (hji : j ≠ i) {m : KeyGenBroadcastMessage3 C}
    (hrecv : ph.receivePhase3SecretShare s.n rg m j = .ok ph') : Collected s i stage ph' := by
  rcases PKNHandler.receivePhase3_cases hrecv with ⟨err, rfl⟩ | ⟨_, _, _, rfl⟩
  · exact h.quit _
  · obtain ⟨d, xi, heq, hd, _⟩ := PKNHandler.checkPhase3Done_eq s.n rg
      { ph with secretShareMessage3 := ph.secretShareMessage3.insert j m }
    rw [heq]
    refine ⟨h.self, h.keys1, h.keys2, h.own2, fun hs => ?_, fun hdone => ?_, fun hdone => ?_⟩
    · exact (AList.lookup_insert_ne hji.symm).trans (h.own3 hs)
    · exact h.done1 (hdone.imp_left fun hm => by simpa using (hd .phase1).mp hm)
    · exact h.done2 (hdone.imp_left fun hm => by simpa using (hd .phase2).mp hm)

theorem receive (h : Collected s i stage ph) (hi : i < s.n) (hj : j < s.n) (hji : j ≠ i) {msg : KeyGenMessage C}
    (hrecv : ph.receive s.n rg j msg = .ok ph') : Collected s i stage ph' := by
  cases msg with
  | phase1 m => exact h.receive1 hi hj hji hrecv
  | phase2 m =>
    obtain rfl := Except.ok.inj hrecv
    exact h.receive2 hj hji m
  | phase3 m => exact h.receive3 hji hrecv

theorem finish1 (h : Collected s i 0 ph) (hi : i < s.n) (hdone : .phase1 ∈ ph.doneChan) (blindFactor : ℕ) :
    Collected s i 1 (({ ph with doneChan := ph.doneChan.erase .phase1 } : PKNHandler C).generatePhase2PaillierKeyProof
      s.n blindFactor).1 := by
  obtain ⟨d, heq, hd⟩ := PKNHandler.checkPhase2Done_eq s.n
    { ph with
      doneChan := ph.doneChan.erase .phase1
      paillierKeysProof2 := ph.paillierKeysProof2.insert ph.selfNotaryID
        (({ ph with doneChan := ph.doneChan.erase .phase1 } : PKNHandler C).generatePhase2PaillierKeyProof
          s.n blindFactor).2 }
  have hnot : .phase2 ∉ ph.doneChan.erase .phase1 := fun hmem => by
    obtain ⟨m, hm, _⟩ := (h.full2 (.inl (List.mem_of_mem_erase hmem))).values i (List.mem_range.mpr hi)
    rw [h.own2 Nat.zero_lt_one] at hm
    cases hm
  refine Eq.mpr (congrArg (Collected s i 1) heq) ⟨h.self, h.keys1, fun k m hk => ?_, fun hs => absurd hs (by decide),
    fun _ => h.own3 (by decide), fun _ => h.done1 (.inl hdone), fun hc => ?_⟩
  · dsimp only at hk
    rw [h.self, RangeMap.lookup_insert_eq] at hk
    split_ifs at hk with hki
    · exact ⟨hki ▸ List.mem_range.mpr hi, Option.some.inj hk ▸ rfl⟩
    · exact h.keys2 k m hk
  · exact (((hd .phase2).mp (hc.resolve_right (by decide))).resolve_right hnot).2

theorem finish2 (h : Collected s i 1 ph) (hdone : .phase2 ∈ ph.doneChan) {coefs : List SPrivKey}
    {msgs : RangeMap ℕ (KeyGenBroadcastMessage3 C)}
    (hrun : ({ ph with doneChan := ph.doneChan.erase .phase2 } : PKNHandler C).generatePhase3SecretShare
      s.t s.n rg coefs = .ok (ph', msgs)) : Collected s i 2 ph' := by
  rcases PKNHandler.generatePhase3_cases hrun with ⟨err, rfl⟩ | ⟨_, _, rfl, _⟩
  · exact ⟨h.self, h.keys1, h.keys2, fun hs => absurd hs (by decide), fun hs => absurd hs (by decide),
      fun _ => h.done1 (.inr le_rfl), fun _ => h.done2 (.inl hdone)⟩
  · obtain ⟨d, xi, heq, hd, _⟩ := PKNHandler.checkPhase3Done_eq s.n rg
      { ph with
        doneChan := ph.doneChan.erase .phase2
        secretShareMessage3 := ph.secretShareMessage3.insert ph.selfNotaryID
          { vss := (share C s.t s.n (ph.ui :: coefs)).1
            secretShare := ((share C s.t s.n (ph.ui :: coefs)).2.getD ph.selfNotaryID 0 : SPrivKey) } }
    exact Eq.mpr (congrArg (Collected s i 2) heq) ⟨h.self, h.keys1, h.keys2, fun hs => absurd hs (by decide),
      fun hs => absurd hs (by decide), fun _ => h.done1 (.inr le_rfl), fun _ => h.done2 (.inl hdone)⟩

theorem finish3 (h : Collected s i 2 ph) :
    Collected s i 3 { ph with doneChan := ph.doneChan.erase .phase3 } :=
  ⟨h.self, h.keys1, h.keys2, fun hs => absurd hs (by decide), fun hs => absurd hs (by decide),
    fun _ => h.done1 (.inr (by decide)), fun _ => h.done2 (.inr le_rfl)⟩

end Collected

theorem Negotiator.Run.collected {w : Negotiator C} (h : Negotiator.Run s i w) (hi : i < s.n) :
    Collected s i w.stage w.handler := by
  refine h.invariant (p := fun w => Collected s i w.stage w.handler) (fun w hw => hw ▸ .start s i)
    fun w w' _ hinv hstep => ?_
  cases hstep with
  | message rg hj hji hrecv => exact hinv.receive hi hj hji hrecv
  | error hquit => exact hinv.quit _
  | finish1 hstage hdone herr =>
    rw [hstage] at hinv
    exact hinv.finish1 hi hdone _
  | finish2 rg hstage hdone herr hrun =>
    rw [hstage] at hinv
    exact hinv.finish2 hdone hrun
  | finish3 hstage hdone herr =>
    rw [hstage] at hinv
    exact hinv.finish3

end Collected

/-! ### What it has checked -/

namespace PKNHandler

/-- The key of `j` opens the commitment that came with its Paillier key. -/
def Opened (ph : PKNHandler C) (j : ℕ) : Prop :=
  ∃ p m, ph.pubKeysProof1.lookup j = some p ∧ ph.paillierKeysProof2.lookup j = some m ∧
    createCommitmentWithUserDefinedRandomNess (C.X p.PK) m.blindFactor = m.com

/-- The commitment of `j` opens, and its Paillier key was verified. -/
structure Verified (ph : PKNHandler C) (j : ℕ) : Prop where
  opened : ph.Opened j
  correctKey : ∃ m, ph.paillierKeysProof2.lookup j = some m ∧ m.correctKey = true

theorem blindFactorFits_iff {ph : PKNHandler C} {j : ℕ} (hj : j ≠ ph.selfNotaryID) :
    ph.blindFactorFits j = .ok true ↔ ph.Opened j := by
  unfold blindFactorFits Opened
  rw [if_neg hj]
  cases hm : ph.paillierKeysProof2.lookup j with
  | none => simp [deref, bind, Except.bind]
  | some m =>
    cases hp : ph.pubKeysProof1.lookup j with
    | none => simp [deref, bind, Except.bind]
    | some p => simp [deref, bind, Except.bind, pure, Except.pure]

end PKNHandler

namespace Negotiator

variable {s : Dealers C} {i : ℕ} {w : Negotiator C}

/-- Notary `i`, which has waited for the second phase, starts to deal its shares. -/
structure Deals (s : Dealers C) (i : ℕ) (w : Negotiator C) : Prop where
  stage : w.stage = 1
  done : .phase2 ∈ w.handler.doneChan
  err : w.err = none
  run : ∃ rg ph msgs, (w.taken .phase2).generatePhase3SecretShare s.t s.n rg (s.tail i) = .ok (ph, msgs) ∧
    ph.secretShareMessage3.lookup i ≠ none

theorem Run.opened_of_deals (h : Run s i w) (hi : i < s.n) (hdeals : Deals s i w) {j : ℕ} (hj : j+1 < s.n)
    (hji : j ≠ i) : w.handler.Opened j := by
  have hc := h.collected hi
  have hself : (w.taken .phase2).selfNotaryID = i := hc.self
  obtain ⟨rg, ph, msgs, hrun, hown⟩ := hdeals.run
  rcases PKNHandler.generatePhase3_cases hrun with ⟨err, rfl⟩ | ⟨hfits, _⟩
  · exact absurd (hc.own3 (by rw [hdeals.stage]; decide)) hown
  · have hlen := hc.done1 (.inr hdeals.stage.ge)
    have hfit := hfits j (show j < w.handler.pubKeysProof1.len by omega)
    have hopened : (w.taken .phase2).blindFactorFits j = .ok true ↔ (w.taken .phase2).Opened j :=
      PKNHandler.blindFactorFits_iff (by rwa [hself])
    exact hopened.mp hfit

theorem Run.verified_iff (h : Run s i w) (hi : i < s.n) (hdeals : Deals s i w) {j : ℕ} (hj : j < s.n) :
    w.handler.Verified j ↔ w.handler.Opened j :=
  ⟨fun hv => hv.opened, fun ho => ⟨ho, ((h.collected hi).full2 (.inl hdeals.done)).values j (List.mem_range.mpr hj)⟩⟩

/-- No run of the notary deals its shares before it has verified all the others. -/
def ChecksEveryDealer (s : Dealers C) (i : ℕ) : Prop :=
  ∀ w, Run s i w → Deals s i w → ∀ j < s.n, j ≠ i → w.handler.Verified j

/-- A notary that starts to deal its shares has verified all the others exactly when it is the last one itself, or
the commitment of the last one, which it does not look at, opens. -/
theorem verified_all_iff (h : Run s i w) (hi : i < s.n) (hdeals : Deals s i w) :
    (∀ j < s.n, j ≠ i → w.handler.Verified j) ↔ i = s.n - 1 ∨ w.handler.Opened (s.n - 1) := by
  constructor
  · intro hall
    rw [or_iff_not_imp_left]
    intro hne
    exact (hall (s.n - 1) (by omega) (Ne.symm hne)).opened
  · intro hlast j hj hji
    rw [h.verified_iff hi hdeals hj]
    by_cases hjl : j+1 < s.n
    · exact h.opened_of_deals hi hdeals hjl hji
    · obtain rfl : j = s.n - 1 := by omega
      exact hlast.resolve_left fun hil => hji hil.symm

end Negotiator

section Example

/-- Two notaries, each of which sees the commitment of the other one only. -/
def pair5 : Dealers curve5 := { dealers5 (curve5Key 1 one_fits) with
  n := 2
  t_lt := by decide
  n_lt := by decide }

/-- The second notary commits itself to nothing that its key opens. -/
def sealed5 : KeyGenBroadcastMessage2 := { pair5.message2 1 with com := 0 }

theorem pair5_deals : ∃ w, Negotiator.Run pair5 0 w ∧ Negotiator.Deals pair5 0 w ∧
    w.handler.pubKeysProof1.lookup 1 = some (pair5.message1 1) ∧
    w.handler.paillierKeysProof2.lookup 1 = some sealed5 := by
  have hproof : verifyDLog (pair5.message1 1) = .ok true :=
    (verifyDLog_prove _ _).trans (if_neg (by decide +kernel))
  have h0 : Negotiator.Run pair5 0 (Negotiator.start pair5 0) := .init rfl
  have hrecv1 : (Negotiator.start pair5 0).handler.receive pair5.n (Range.id ℕ) 1 (.phase1 (pair5.message1 1)) =
    .ok _ :=
    PKNHandler.receivePhase1_ok hproof rfl
  have h1 := h0.step (.message (Range.id ℕ) (by decide) (by decide) hrecv1)
  have h2 := h1.step (.finish1 rfl (List.mem_cons_self ..) rfl)
  have h3 := h2.step (.message (Range.id ℕ) (by decide) (by decide)
    (show PKNHandler.receive pair5.n (Range.id ℕ) _ 1 (.phase2 sealed5) = .ok _ from
      congrArg Except.ok (PKNHandler.receivePhase2_ok rfl rfl)))
  refine ⟨_, h3, ⟨rfl, List.mem_cons_self .., rfl, Range.id ℕ, _, _, rfl, ?_⟩, rfl, rfl⟩
  exact Option.some_ne_none _

theorem not_opened_sealed5 {ph : PKNHandler curve5} (hp : ph.pubKeysProof1.lookup 1 = some (pair5.message1 1))
    (hm : ph.paillierKeysProof2.lookup 1 = some sealed5) : ¬ ph.Opened 1 := by
  rintro ⟨p, m, hp', hm', hopen⟩
  rw [hp] at hp'
  rw [hm] at hm'
  rw [← Option.some.inj hp', ← Option.some.inj hm'] at hopen
  revert hopen
  decide +kernel

theorem not_checksEveryDealer_pair5 : ¬ Negotiator.ChecksEveryDealer pair5 0 := by
  intro h
  obtain ⟨w, hrun, hdeals, hp, hm⟩ := pair5_deals
  exact not_opened_sealed5 hp hm (h w hrun hdeals 1 (by decide) (by decide)).opened

theorem verified_all_pair5 : ∃ w, Negotiator.Run pair5 0 w ∧ Negotiator.Deals pair5 0 w ∧
    ((∀ j < 2, j ≠ 0 → w.handler.Verified j) ↔ 0 = 1 ∨ w.handler.Opened 1) := by
  obtain ⟨w, hrun, hdeals, _⟩ := pair5_deals
  exact ⟨w, hrun, hdeals, Negotiator.verified_all_iff hrun (by decide) hdeals⟩

end Example

end DistributedNotary.Mecdsa
