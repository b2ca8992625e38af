import DistributedNotary.Mecdsa.PhaseGates

/-! Who completes the phases of a signing session. Its main loop takes requests
from everybody, counts the senders of each phase and asks nobody whether it is a
signer. In a run where only the other signers send what is counted, a phase is
complete just when all of them have sent. -/
namespace DistributedNotary.Mecdsa

open Library Share

variable {C : Curve} {eth : Ethereum C}

namespace Terms

variable {t : Terms C}

/-- The signers whose message a phase needs. In phase 2 a session does not ask itself. -/
def awaited (t : Terms C) : Phase → Finset ℕ
  | .phase2 => t.S.toFinset.erase t.selfNotaryID
  | _ => t.S.toFinset

/-- The signers are the session's own notary and others, each once. -/
structure Proper (t : Terms C) : Prop where
  S : t.S = t.otherNotaryIDs ++ [t.selfNotaryID]
  nodup : t.S.Nodup
  others : t.otherNotaryIDs ≠ []

theorem Proper.self_mem (ht : t.Proper) : t.selfNotaryID ∈ t.S := by
  rw [ht.S]
  exact List.mem_append_right _ List.mem_cons_self

theorem Proper.card_awaited (ht : t.Proper) (p : Phase) : (t.awaited p).card = t.quota p := by
  have hcard : t.S.toFinset.card = t.S.length := List.toFinset_card_of_nodup ht.nodup
  cases p with
  | phase2 =>
    unfold awaited quota
    rw [Finset.card_erase_of_mem (List.mem_toFinset.mpr ht.self_mem), hcard]
  | _ => exact hcard

theorem Proper.mem_awaited_of_other (ht : t.Proper) {j : ℕ} (hj : j ∈ t.otherNotaryIDs) (p : Phase) :
    j ∈ t.awaited p := by
  have hnd := ht.nodup
  rw [ht.S] at hnd
  have hS : j ∈ t.S.toFinset := by
    rw [ht.S]
    exact List.mem_toFinset.mpr (List.mem_append_left _ hj)
  cases p with
  | phase2 =>
    refine Finset.mem_erase.mpr ⟨?_, hS⟩
    rintro rfl
    exact List.disjoint_of_nodup_append hnd hj List.mem_cons_self
  | _ => exact hS

theorem mem_awaited {j : ℕ} (hj : j ∈ t.S) (hne : j ≠ t.selfNotaryID) (p : Phase) :
    j ∈ t.awaited p := by
  cases p with
  | phase2 => exact Finset.mem_erase.mpr ⟨hne, List.mem_toFinset.mpr hj⟩
  | _ => exact List.mem_toFinset.mpr hj

theorem Proper.self_mem_awaited (ht : t.Proper) {p : Phase} (hp : p ≠ .phase2) : t.selfNotaryID ∈ t.awaited p := by
  cases p with
  | phase2 => exact absurd rfl hp
  | _ => exact List.mem_toFinset.mpr ht.self_mem

theorem Proper.nonempty_awaited (ht : t.Proper) (p : Phase) : (t.awaited p).Nonempty := by
  obtain ⟨j, hj⟩ := List.exists_mem_of_ne_nil _ ht.others
  exact ⟨j, ht.mem_awaited_of_other hj p⟩

end Terms

namespace MainLoop

/-- The phase is signalled, or the wait for it is over. -/
def Completed (m : MainLoop C) (p : Phase) : Prop := p.index < m.passed ∨ p ∈ m.dh.doneChan

/-- A message of `j` for the phase. -/
def Input.Carries (p : Phase) (j : ℕ) : Input C → Prop
  | .request index req _ => index = j ∧ req.keptFor = some p
  | .answer index _ _ => index = j ∧ p = .phase2
  | _ => False

theorem Input.carries_request {p : Phase} {j index : ℕ} {req : DSMRequest C} {rg : Range ℕ} :
    Input.Carries p j (.request index req rg) ↔ req.keptFor = some p ∧ j = index := by
  rw [and_comm, eq_comm (a := j)]
  exact Iff.rfl

theorem Input.carries_answer {p : Phase} {j index : ℕ} {msg : MessageBPhase2 C} {rg : Range ℕ} :
    Input.Carries p j (.answer index msg rg) ↔ p = .phase2 ∧ j = index := by
  rw [and_comm, eq_comm (a := j)]
  exact Iff.rfl

/-- A message of `j` for the phase has come in; the session's own is there once it is made. -/
def Received (run : List (Input C)) (m : MainLoop C) (p : Phase) (j : ℕ) : Prop :=
  if j = m.dh.selfNotaryID then j ∈ m.dh.senders p else ∃ a ∈ run, a.Carries p j

/-- The phases that are complete are those for which a message of every signer has come. -/
def CountsSigners (run : List (Input C)) (m : MainLoop C) : Prop :=
  ∀ p, m.Completed p ↔ ∀ j ∈ m.dh.terms.awaited p, Received run m p j

def Input.ofSigner (S : List ℕ) : Input C → Bool
  | .request index _ _ => decide (index ∈ S)
  | _ => true

/-- What is counted comes from another signer and is well formed. Phase 2's questions are not counted. -/
def Input.Proper (t : Terms C) : Input C → Prop
  | .request index req _ => req.keptFor.isSome → index ∈ t.S ∧ index ≠ t.selfNotaryID ∧ req.Opens
  | .answer _ msg _ => msg.messageBWi.isSome
  | _ => True

/-- A step on a proper input, after which the full phases pass their checks. -/
structure ProperStep (eth : Ethereum C) (m : MainLoop C) (a : Input C) (m' : MainLoop C) : Prop where
  step : Step eth m a m'
  input : a.Proper m.dh.terms
  passes : ∀ p, m'.dh.Full p → m'.dh.Passes eth p

def gates (m : MainLoop C) : Gates Phase ℕ where
  arrived
    -- the own answer is put there after the phase
    | .phase2 => (m.dh.senders .phase2).erase m.dh.selfNotaryID
    | p => m.dh.senders p
  opened := {p | m.Completed p}

section Gates

variable {m m' : MainLoop C} {p : Phase} {j : ℕ}

@[simp] theorem mem_gates_opened (m : MainLoop C) : p ∈ m.gates.opened ↔ m.Completed p := Iff.rfl

theorem gates_arrived (m : MainLoop C) (h : p ≠ .phase2 ∨ m.dh.selfNotaryID ∉ m.dh.senders p) :
    m.gates.arrived p = m.dh.senders p := by
  cases p with
  | phase2 => exact Finset.erase_eq_of_notMem (h.resolve_left fun hne => hne rfl)
  | _ => rfl

theorem mem_gates_arrived (m : MainLoop C) (p : Phase) (h : j ≠ m.dh.selfNotaryID) :
    j ∈ m.gates.arrived p ↔ j ∈ m.dh.senders p := by
  cases p with
  | phase2 => exact Finset.mem_erase.trans (and_iff_right h)
  | _ => exact Iff.rfl

theorem gates_eq (m m' : MainLoop C) (hterms : m'.dh.terms = m.dh.terms) (hsenders : m'.dh.senders = m.dh.senders)
    (hdone : ∀ p, m'.Completed p ↔ m.Completed p) : m'.gates = m.gates := by
  have hself : m'.dh.selfNotaryID = m.dh.selfNotaryID := congrArg Terms.selfNotaryID hterms
  unfold gates
  rw [hsenders, hself]
  congr 1
  ext p
  exact hdone p

/-- What a phase keeps arrives at its gate. -/
theorem arrives_of_stored (hs : m.dh.Stored eth p j m'.dh) (hpassed : m'.passed = m.passed)
    (hpass : m'.dh.Full p → m'.dh.Passes eth p)
    (hown : p ≠ .phase2 ∨ j ≠ m.dh.selfNotaryID ∧ m.dh.selfNotaryID ∉ m.dh.senders p) :
    Gates.Arrives (m.dh.terms.quota p) p j m.gates m'.gates := by
  have hself : m'.dh.selfNotaryID = m.dh.selfNotaryID := congrArg Terms.selfNotaryID hs.terms
  have hsame : m'.dh.senders p = insert j (m.dh.senders p) := by rw [hs.senders, Function.update_self]
  have harrived : m'.gates.arrived p = m'.dh.senders p := by
    refine gates_arrived m' (hown.imp_right fun hown => ?_)
    rw [hself, hsame]
    exact fun hmem => (Finset.mem_insert.mp hmem).elim (fun heq => hown.1 heq.symm) hown.2
  refine ⟨funext fun q => ?_, fun q => ?_⟩
  · by_cases hq : q = p
    · rw [hq, harrived, hsame, Function.update_self, gates_arrived m (hown.imp_right And.right)]
    · have hother : m'.dh.senders q = m.dh.senders q := by rw [hs.senders, Function.update_of_ne hq]
      rw [Function.update_of_ne hq]
      cases q with
      | phase2 => exact congrArg₂ Finset.erase hother hself
      | _ => exact hother
  · have hfull : (m'.gates.arrived p).card = m.dh.terms.quota p ↔ m'.dh.Full p := by
      rw [harrived, ← hs.terms]
      exact Iff.rfl
    rw [hfull]
    by_cases hf : m'.dh.Full p
    · have hdone := hs.full hf (hpass hf)
      simp only [mem_gates_opened, Completed, hpassed, hdone, List.mem_cons]
      tauto
    · have hdone := hs.below hf
      simp only [mem_gates_opened, Completed, hpassed, hdone]
      tauto

end Gates

/-- What the main loop makes of its own for the phases, from the handler it has after a wait. The own answer of
phase 2 comes before the message of phase 5A. -/
structure Makes (eth : Ethereum C) (p : Phase) (dh dh' : DSMHandler C) : Prop where
  terms : dh'.terms = dh.terms
  kept : ∃ dh₀, (dh.Unmoved dh₀ ∨ p = .phase3 ∧ dh.Answered dh₀) ∧
    (dh₀.Unmoved dh' ∨ ∃ q, q ≠ .phase2 ∧ dh₀.Stored eth q dh.selfNotaryID dh')

theorem makes_of_proceed {m m' : MainLoop C} {coins : LoopCoins C} {p : Phase} (h : proceed eth m coins p = .ok m') :
    Makes eth p m.dh m'.dh ∧ m'.passed = m.passed ∧
      m'.asked = (if p = .phase1 then m.dh.otherNotaryIDs else m.asked) := by
  have hstored {dh : DSMHandler C} {q : Phase} (hq : q ≠ .phase2) (hs : m.dh.Stored eth q m.dh.selfNotaryID dh) :
      Makes eth p m.dh dh := ⟨hs.terms, m.dh, .inl (.refl m.dh), .inr ⟨q, hq, hs⟩⟩
  have hunmoved {dh : DSMHandler C} (hu : m.dh.Unmoved dh) : Makes eth p m.dh dh :=
    ⟨hu.terms, m.dh, .inl (.refl m.dh), .inl hu⟩
  cases p with
  | phase1 =>
    obtain ⟨r, hr, h⟩ := bind_eq_ok.mp h
    have hu := DSMHandler.generatePhase2MessageA_unmoved hr
    rw [← pure_eq_ok.mp h]
    exact ⟨hunmoved hu, rfl, congrArg Terms.otherNotaryIDs hu.terms⟩
  | phase2 =>
    obtain ⟨r, hr, h⟩ := bind_eq_ok.mp h
    rw [← pure_eq_ok.mp h]
    exact ⟨hstored (by decide) (DSMHandler.generatePhase3DeltaI_stored hr), rfl, rfl⟩
  | phase3 =>
    obtain ⟨dh, hdh, h⟩ := bind_eq_ok.mp h
    obtain ⟨r, hr, h⟩ := bind_eq_ok.mp h
    rw [← pure_eq_ok.mp h]
    have ha := DSMHandler.generatePhase4R_answered hdh
    have hs : DSMHandler.Stored eth .phase5A5B dh.selfNotaryID dh r.1 :=
      DSMHandler.generatePhase5a5bZkProof_stored hr
    rw [show dh.selfNotaryID = m.dh.selfNotaryID from congrArg Terms.selfNotaryID ha.terms] at hs
    exact ⟨⟨hs.terms.trans ha.terms, dh, .inr ⟨rfl, ha⟩, .inr ⟨.phase5A5B, by decide, hs⟩⟩, rfl, rfl⟩
  | phase5A5B =>
    obtain ⟨r, hr, h⟩ := bind_eq_ok.mp h
    rw [← pure_eq_ok.mp h]
    exact ⟨hstored (by decide) (DSMHandler.generatePhase5CProof_stored hr), rfl, rfl⟩
  | phase5C =>
    obtain ⟨r, hr, h⟩ := bind_eq_ok.mp h
    rw [← pure_eq_ok.mp h]
    refine ⟨?_, rfl, rfl⟩
    rcases DSMHandler.generate5dProof_cases hr with hu | hs
    · exact hunmoved hu
    · exact hstored (by decide) hs
  | phase6 =>
    obtain ⟨r, -, h⟩ := bind_eq_ok.mp h
    rw [← pure_eq_ok.mp h]
    exact ⟨hunmoved (.refl m.dh), rfl, rfl⟩

/-- What holds of a session after proper inputs. -/
structure Keeps (t : Terms C) (run : List (Input C)) (m : MainLoop C) : Prop where
  terms : m.dh.terms = t
  exact : Gates.Exact t.awaited m.gates
  received : ∀ p j, j ≠ t.selfNotaryID → (j ∈ m.dh.senders p ↔ ∃ a ∈ run, a.Carries p j)
  nodup : m.asked.Nodup
  asked : ∀ j ∈ m.asked, j ∈ t.awaited .phase2 ∧ j ∉ m.dh.senders .phase2
  asks : m.passed = 0 → m.asked = [] ∧ m.dh.senders .phase2 = ∅
  own : t.selfNotaryID ∈ m.dh.senders .phase2 → m.Completed .phase2

namespace Keeps

variable {t : Terms C} {run run' : List (Input C)} {m m' : MainLoop C}

theorem selfNotaryID (h : Keeps t run m) : m.dh.selfNotaryID = t.selfNotaryID := congrArg Terms.selfNotaryID h.terms

theorem unmoved (h : Keeps t run m) (hu : m.dh.Unmoved m'.dh) (hpassed : m'.passed = m.passed)
    (hasked : m'.asked.Sublist m.asked)
    (hrun : ∀ p j, j ≠ t.selfNotaryID → ((∃ a ∈ run', a.Carries p j) ↔ ∃ a ∈ run, a.Carries p j)) :
    Keeps t run' m' := by
  have hdone : ∀ p, m'.Completed p ↔ m.Completed p := fun p => by rw [Completed, Completed, hpassed, hu.doneChan]
  refine ⟨hu.terms.trans h.terms, ?_, fun p j hj => ?_, h.nodup.sublist hasked, fun j hj => ?_, fun h0 => ?_, ?_⟩
  · rw [gates_eq m m' hu.terms hu.senders hdone]
    exact h.exact
  · rw [hu.senders, hrun p j hj]
    exact h.received p j hj
  · rw [hu.senders]
    exact h.asked j (hasked.subset hj)
  · obtain ⟨hnone, h2⟩ := h.asks (hpassed ▸ h0)
    rw [hnone, List.sublist_nil] at hasked
    exact ⟨hasked, hu.senders ▸ h2⟩
  · rw [hu.senders, hdone]
    exact h.own

/-- A message of another phase than 2 is kept, of a signer or of the session itself. -/
theorem stored (h : Keeps t run m) (ht : t.Proper) {p : Phase} {j : ℕ} (hs : m.dh.Stored eth p j m'.dh)
    (hp : p ≠ .phase2) (hj : j ∈ t.awaited p) (hpassed : m'.passed = m.passed) (hasked : m'.asked = m.asked)
    (hpass : m'.dh.Full p → m'.dh.Passes eth p)
    (hrun : ∀ q i, i ≠ t.selfNotaryID →
      ((∃ a ∈ run', a.Carries q i) ↔ (∃ a ∈ run, a.Carries q i) ∨ q = p ∧ i = j)) :
    Keeps t run' m' := by
  have harrives := arrives_of_stored hs hpassed hpass (.inl hp)
  rw [h.terms, ← ht.card_awaited p] at harrives
  have h2 : m'.dh.senders .phase2 = m.dh.senders .phase2 := by rw [hs.senders, Function.update_of_ne hp.symm]
  refine ⟨hs.terms.trans h.terms, h.exact.arrives hj harrives, fun q i hi => ?_, hasked ▸ h.nodup, ?_, ?_,
    fun hown => ?_⟩
  · rw [hrun q i hi, ← h.received q i hi, hs.senders]
    by_cases hq : q = p
    · rw [hq, Function.update_self, Finset.mem_insert]
      tauto
    · rw [Function.update_of_ne hq]
      tauto
  · rw [hasked, h2]
    exact h.asked
  · rw [hasked, h2, hpassed]
    exact h.asks
  · rw [h2] at hown
    exact (harrives.opened .phase2).mpr (.inl (h.own hown))

/-- An answer of phase 2 is kept. As it was still missing, the phase was not complete and has no own answer yet. -/
theorem answered (h : Keeps t run m) (ht : t.Proper) {j : ℕ} (hs : m.dh.Stored eth .phase2 j m'.dh) (hj : j ∈ m.asked)
    (hpassed : m'.passed = m.passed) (hasked : m'.asked = m.asked.erase j)
    (hpass : m'.dh.Full .phase2 → m'.dh.Passes eth .phase2)
    (hrun : ∀ q i, i ≠ t.selfNotaryID →
      ((∃ a ∈ run', a.Carries q i) ↔ (∃ a ∈ run, a.Carries q i) ∨ q = .phase2 ∧ i = j)) :
    Keeps t run' m' := by
  obtain ⟨hawaited, hmissing⟩ := h.asked j hj
  have hne : j ≠ t.selfNotaryID := (Finset.mem_erase.mp hawaited).1
  have hown : t.selfNotaryID ∉ m.dh.senders .phase2 := by
    intro hown
    have hall := (h.exact.mem_opened_iff .phase2).mp (h.own hown) j hawaited
    exact hmissing ((mem_gates_arrived m .phase2 (h.selfNotaryID ▸ hne)).mp hall)
  have harrives := arrives_of_stored hs hpassed hpass (.inr (h.selfNotaryID ▸ ⟨hne, hown⟩))
  rw [h.terms, ← ht.card_awaited .phase2] at harrives
  have h2 : m'.dh.senders .phase2 = insert j (m.dh.senders .phase2) := by rw [hs.senders, Function.update_self]
  refine ⟨hs.terms.trans h.terms, h.exact.arrives hawaited harrives, fun q i hi => ?_, ?_, fun i hi => ?_,
    fun h0 => ?_, fun hown' => ?_⟩
  · rw [hrun q i hi, ← h.received q i hi, hs.senders]
    by_cases hq : q = .phase2
    · rw [hq, Function.update_self, Finset.mem_insert]
      tauto
    · rw [Function.update_of_ne hq]
      tauto
  · rw [hasked]
    exact h.nodup.erase j
  · rw [hasked] at hi
    obtain ⟨hij, hi⟩ := h.nodup.mem_erase_iff.mp hi
    obtain ⟨hai, hmi⟩ := h.asked i hi
    rw [h2]
    exact ⟨hai, fun hmem => (Finset.mem_insert.mp hmem).elim hij hmi⟩
  · rw [hpassed] at h0
    rw [(h.asks h0).1] at hj
    exact absurd hj List.not_mem_nil
  · rw [h2] at hown'
    exact absurd hown' fun hmem => (Finset.mem_insert.mp hmem).elim (fun heq => hne heq.symm) hown

/-- The session waits for the next phase. -/
theorem waited (h : Keeps t run m) {p : Phase} (hp : m.passed = p.index) (hc : p ∈ m.dh.doneChan) :
    Keeps t run (m.waitPhaseDone p) := by
  have hindex : ∀ q : Phase, q.index = p.index → q = p := by cases p <;> intro q <;> cases q <;> decide
  have hdone : ∀ q, (m.waitPhaseDone p).Completed q ↔ m.Completed q := by
    intro q
    unfold Completed waitPhaseDone
    by_cases hq : q = p
    · rw [hq, hp]
      exact iff_of_true (.inl (Nat.lt_succ_self _)) (.inr hc)
    · have hne : q.index ≠ m.passed := fun heq => hq (hindex q (heq.trans hp))
      simp only [List.mem_erase_of_ne hq]
      exact or_congr_left (by omega)
  refine ⟨h.terms, ?_, h.received, h.nodup, h.asked, fun h0 => absurd h0 (Nat.succ_ne_zero _), fun hown => ?_⟩
  · rw [gates_eq m (m.waitPhaseDone p) rfl rfl hdone]
    exact h.exact
  · exact (hdone _).mpr (h.own hown)

/-- The session asks the other signers for their answers. -/
theorem asking (h : Keeps t run m) (ht : t.Proper) (hpassed : m.passed ≠ 0) (h2 : m.dh.senders .phase2 = ∅) :
    Keeps t run { m with asked := t.otherNotaryIDs } := by
  refine ⟨h.terms, h.exact, h.received, ?_, fun j hj => ?_, fun h0 => absurd h0 hpassed, h.own⟩
  · have hnd := ht.nodup
    rw [ht.S] at hnd
    exact hnd.of_append_left
  · refine ⟨ht.mem_awaited_of_other hj .phase2, ?_⟩
    rw [h2]
    exact Finset.notMem_empty j

/-- The session puts its own answer to those of phase 2, which is complete. -/
theorem answering (h : Keeps t run m) {dh : DSMHandler C} (ha : m.dh.Answered dh) (hpassed : m.passed ≠ 0)
    (hc : m.Completed .phase2) : Keeps t run { m with dh := dh } := by
  have hself : dh.selfNotaryID = m.dh.selfNotaryID := congrArg Terms.selfNotaryID ha.terms
  have hdone : ∀ q, Completed { m with dh := dh } q ↔ m.Completed q := fun q => by
    rw [Completed, Completed, ha.doneChan]
  have h2 : dh.senders .phase2 = insert m.dh.selfNotaryID (m.dh.senders .phase2) := by
    rw [ha.senders, Function.update_self]
  have hother : ∀ q, q ≠ .phase2 → dh.senders q = m.dh.senders q := fun q hq => by
    rw [ha.senders, Function.update_of_ne hq]
  have hgates : gates { m with dh := dh } = m.gates := by
    unfold gates
    congr 1
    · funext q
      cases q with
      | phase2 =>
        dsimp only
        rw [h2, hself, Finset.erase_insert_eq_erase]
      | _ => exact hother _ (by decide)
    · ext q
      exact hdone q
  have hmem : ∀ q j, j ≠ t.selfNotaryID → (j ∈ dh.senders q ↔ j ∈ m.dh.senders q) := by
    intro q j hj
    by_cases hq : q = .phase2
    · rw [hq, h2, h.selfNotaryID, Finset.mem_insert]
      exact or_iff_right hj
    · rw [hother q hq]
  refine ⟨ha.terms.trans h.terms, ?_, fun q j hj => (hmem q j hj).trans (h.received q j hj), h.nodup, fun j hj => ?_,
    fun h0 => absurd h0 hpassed, fun _ => (hdone _).mpr hc⟩
  · rw [hgates]
    exact h.exact
  · obtain ⟨hawaited, hmissing⟩ := h.asked j hj
    exact ⟨hawaited, fun hj' => hmissing ((hmem .phase2 j (Finset.mem_erase.mp hawaited).1).mp hj')⟩

theorem signal (h : Keeps t run m) (ht : t.Proper) {p : Phase} {coins : LoopCoins C} (hp : m.passed = p.index)
    (hc : p ∈ m.dh.doneChan) (hok : proceed eth (m.waitPhaseDone p) coins p = .ok m')
    (hpass : ∀ p, m'.dh.Full p → m'.dh.Passes eth p) : Keeps t (.signal coins :: run) m' := by
  obtain ⟨hmakes, hpassed, hasked⟩ := makes_of_proceed hok
  obtain ⟨dh, hfirst, hlast⟩ := hmakes.kept
  have hw := h.waited hp hc
  have hw0 : (m.waitPhaseDone p).passed ≠ 0 := Nat.succ_ne_zero m.passed
  have hasking : Keeps t run { m.waitPhaseDone p with asked := m'.asked } := by
    by_cases hp1 : p = .phase1
    · rw [hasked, if_pos hp1, show (m.waitPhaseDone p).dh.otherNotaryIDs = t.otherNotaryIDs from
        congrArg Terms.otherNotaryIDs h.terms]
      rw [hp1] at hp
      exact hw.asking ht hw0 (h.asks hp).2
    · rw [hasked, if_neg hp1]
      exact hw
  have hbefore : Keeps t run { m.waitPhaseDone p with dh := dh, asked := m'.asked } := by
    rcases hfirst with hu | ⟨rfl, ha⟩
    · exact hasking.unmoved hu rfl (.refl _) fun _ _ _ => Iff.rfl
    · refine hasking.answering ha hw0 (.inl ?_)
      simp only [waitPhaseDone, hp]
      decide
  have hcons : ∀ q i, (∃ a ∈ Input.signal coins :: run, a.Carries q i) ↔ ∃ a ∈ run, a.Carries q i := fun q i => by
    simp [Input.Carries]
  rcases hlast with hu | ⟨q, hq, hs⟩
  · refine hbefore.unmoved hu hpassed ?_ fun q i _ => hcons q i
    exact .refl _
  · have hself : (m.waitPhaseDone p).dh.selfNotaryID = t.selfNotaryID := hw.selfNotaryID
    rw [hself] at hs
    refine hbefore.stored ht hs hq (ht.self_mem_awaited hq) hpassed rfl (hpass q) fun q' i hi => ?_
    rw [hcons]
    exact (or_iff_left fun heq => hi heq.2).symm

theorem step (h : Keeps t run m) (ht : t.Proper) {a : Input C} (hs : ProperStep eth m a m') :
    Keeps t (a :: run) m' := by
  obtain ⟨hstep, hinput, hpass⟩ := hs
  have hcons : ∀ q i, (∃ b ∈ a :: run, b.Carries q i) ↔ (∃ b ∈ run, b.Carries q i) ∨ a.Carries q i := fun q i => by
    simp only [List.mem_cons, exists_eq_or_imp, or_comm]
  cases hstep with
  | signal coins hrun hp hc hok => exact h.signal ht hp hc hok hpass
  | quit hrun hq =>
    exact h.unmoved ⟨rfl, rfl, rfl⟩ rfl (.refl _) fun q i _ => (hcons q i).trans (or_iff_left id)
  | request index req rg hrun hok =>
    rw [h.terms] at hinput
    rcases DSMHandler.onRequest_cases hok with ⟨hnone, rfl⟩ | ⟨p, hp, hcases⟩
    · refine h.unmoved (.refl m.dh) rfl (.refl _) fun q i _ => (hcons q i).trans (or_iff_left ?_)
      intro hq
      rw [Input.carries_request, hnone] at hq
      exact nomatch hq.1
    · obtain ⟨hmem, hne, hopens⟩ := hinput (hp ▸ rfl)
      have hp2 : p ≠ .phase2 := by
        rintro rfl
        cases req <;> cases hp
      rcases hcases with ⟨hthere, hu⟩ | ⟨-, -, hstored⟩
      · refine h.unmoved hu rfl (.refl _) fun q i hi => (hcons q i).trans (or_iff_left_of_imp fun hq => ?_)
        obtain ⟨hkept, rfl⟩ := Input.carries_request.mp hq
        obtain rfl := Option.some.inj (hkept.symm.trans hp)
        exact (h.received q i hi).mp (hthere hopens)
      · refine h.stored ht hstored hp2 (Terms.mem_awaited hmem hne p) rfl rfl (hpass p) fun q i _ => ?_
        rw [hcons, Input.carries_request, hp, Option.some.injEq, eq_comm (a := p)]
  | answer index msg rg ha hok =>
    rcases DSMHandler.onAnswer_cases eth hok with ⟨hnone, -⟩ | ⟨-, hstored⟩
    · exact absurd hinput (by simp [Input.Proper, hnone])
    · refine h.answered ht hstored ha rfl rfl (hpass .phase2) fun q i _ => ?_
      rw [hcons, Input.carries_answer]
  | noAnswer index err ha =>
    refine h.unmoved (DSMHandler.unmoved_notifyError m.dh err) rfl List.erase_sublist fun q i _ => ?_
    exact (hcons q i).trans (or_iff_left id)

end Keeps

end MainLoop

namespace DSMHandler

/-- A handler to which nothing has come yet, as `NewDSMHandler` makes it. -/
structure Unused (dh : DSMHandler C) : Prop where
  senders : ∀ p, dh.senders p = ∅
  doneChan : dh.doneChan = []

variable {dh dh' : DSMHandler C} {otherNotaryIDs : List ℕ} {gammaI kI : SPrivKey}

theorem Unused.register (h : dh.Unused) (hreg : dh.registerOtherNotaryIDs otherNotaryIDs gammaI kI = .ok dh') :
    dh'.Unused := by
  obtain ⟨lambdaI, -, hreg⟩ := bind_eq_ok.mp hreg
  rw [← pure_eq_ok.mp hreg]
  exact ⟨h.senders, h.doneChan⟩

theorem proper_of_register (hids : otherNotaryIDs.Nodup) (hself : dh.selfNotaryID ∉ otherNotaryIDs)
    (hne : otherNotaryIDs ≠ []) (hreg : dh.registerOtherNotaryIDs otherNotaryIDs gammaI kI = .ok dh') :
    dh'.terms.Proper := by
  obtain ⟨lambdaI, -, hreg⟩ := bind_eq_ok.mp hreg
  rw [← pure_eq_ok.mp hreg]
  refine ⟨rfl, List.Nodup.append hids (List.nodup_singleton _) ?_, hne⟩
  intro j hj hmem
  rw [List.mem_singleton.mp hmem] at hj
  exact hself hj

end DSMHandler

namespace MainLoop

variable {dh dh' : DSMHandler C} {m₀ m m' : MainLoop C} {run : List (Input C)} {thresholdCount blindFactor : ℕ}

theorem Keeps.start (eth : Ethereum C) (hnew : dh.Unused) (ht : dh.terms.Proper)
    (hstart : start thresholdCount dh blindFactor = .ok m₀) :
    Keeps dh.terms [] m₀ := by
  have hnone : ∀ p j, j ≠ dh.terms.selfNotaryID →
      (j ∈ dh.senders p ↔ ∃ a ∈ ([] : List (Input C)), a.Carries p j) := by
    intro p j _
    rw [hnew.senders p]
    simp
  have hbefore : ∀ result, Keeps dh.terms [] { dh := dh, result := result } := by
    intro result
    refine ⟨rfl, Gates.Exact.start (fun p => ?_) ?_ ht.nonempty_awaited, hnone, List.nodup_nil,
      fun j hj => absurd hj List.not_mem_nil, fun _ => ⟨rfl, hnew.senders .phase2⟩, fun hown => ?_⟩
    · rw [gates_arrived _ (.inr ?_)]
      · exact hnew.senders p
      · rw [hnew.senders p]
        exact Finset.notMem_empty _
    · ext p
      simp [gates, Completed, hnew.doneChan]
    · rw [hnew.senders] at hown
      exact absurd hown (Finset.notMem_empty _)
  unfold MainLoop.start at hstart
  split at hstart
  · rw [← Except.ok.inj hstart]
    exact hbefore _
  · obtain ⟨r, hr, hstart⟩ := bind_eq_ok.mp hstart
    rw [← pure_eq_ok.mp hstart]
    have hs : dh.Stored eth .phase1 _ r.1 := DSMHandler.generatePhase1Broadcast_stored hr
    refine (hbefore none).stored ht hs (by decide) (ht.self_mem_awaited (by decide)) rfl rfl (fun _ => trivial) ?_
    exact fun q i hi => (or_iff_left fun heq => hi heq.2).symm

theorem Keeps.runs (hstart : Keeps dh.terms [] m₀) (ht : dh.terms.Proper) (hrun : Runs (ProperStep eth) m₀ run m) :
    Keeps dh.terms run m :=
  hrun.invariant (Keeps dh.terms) hstart fun _ _ _ _ h hs => h.step ht hs

theorem Keeps.countsSigners {t : Terms C} (h : Keeps t run m) : CountsSigners run m := by
  intro p
  rw [← mem_gates_opened, h.exact.mem_opened_iff p, h.terms]
  refine forall_congr' fun j => forall_congr' fun hj => ?_
  unfold Received
  rw [h.selfNotaryID]
  split_ifs with hself
  · rw [gates_arrived m (.inl ?_)]
    rintro rfl
    exact (Finset.mem_erase.mp hj).1 hself
  · rw [mem_gates_arrived m p (h.selfNotaryID ▸ hself), h.received p j hself]

/-- What comes from outside the signers changes nothing. -/
theorem ProperStep.eq_of_outside {a : Input C} (h : ProperStep eth m a m')
    (ha : a.ofSigner m.dh.signMessage.S = false) :
    m' = m := by
  obtain ⟨hstep, hinput, -⟩ := h
  cases hstep with
  | request index req rg hrun hok =>
    rcases DSMHandler.onRequest_cases hok with ⟨-, rfl⟩ | ⟨p, hp, -⟩
    · rfl
    · have hmem : index ∈ m.dh.signMessage.S := (hinput (hp ▸ rfl)).1
      simp [Input.ofSigner, hmem] at ha
  | _ => cases ha

/-- In a run on proper inputs whose complete phases pass their checks, a phase is complete just when the messages of
all signers for it have come, and without what others sent the session would be the same. -/
theorem phases_count_signers (eth : Ethereum C) {otherNotaryIDs : List ℕ} {gammaI kI : SPrivKey} (hnew : dh.Unused)
    (hids : otherNotaryIDs.Nodup) (hself : dh.selfNotaryID ∉ otherNotaryIDs) (hne : otherNotaryIDs ≠ [])
    (hreg : dh.registerOtherNotaryIDs otherNotaryIDs gammaI kI = .ok dh')
    (hstart : start thresholdCount dh' blindFactor = .ok m₀) (hrun : Runs (ProperStep eth) m₀ run m) :
    CountsSigners run m ∧ Runs (Step eth) m₀ (run.filter (Input.ofSigner dh'.signMessage.S)) m := by
  have ht := DSMHandler.proper_of_register hids hself hne hreg
  have hkeeps := Keeps.start eth (hnew.register hreg) ht hstart
  refine ⟨(hkeeps.runs ht hrun).countsSigners, ?_⟩
  refine (hrun.invariant (fun l s => Keeps dh'.terms l s ∧
    Runs (Step eth) m₀ (l.filter (Input.ofSigner dh'.signMessage.S)) s) ⟨hkeeps, .start⟩ ?_).2
  rintro l s a s' ⟨hs, hl⟩ hstep
  refine ⟨hs.step ht hstep, ?_⟩
  have hS : s.dh.signMessage.S = dh'.signMessage.S := congrArg Terms.S hs.terms
  by_cases ha : a.ofSigner dh'.signMessage.S
  · rw [List.filter_cons_of_pos ha]
    exact hl.next a hstep.step
  · rw [List.filter_cons_of_neg ha, hstep.eq_of_outside (hS ▸ Bool.not_eq_true _ ▸ ha)]
    exact hl

/-- A broadcast of phase 1 that reaches notary 0 of `session5`. -/
def broadcast5 (j : ℕ) : Input curve5 := .request j (.phase1Broadcast { com := 5, blindFactor := 5 }) (Range.id ℕ)

/-- What notary 0 of `session5` has when it has two broadcasts of phase 1, its own one and that of `j`. -/
structure Broadcast5 (j : ℕ) (m₀ m : MainLoop curve5) : Prop where
  step : Step ethereum5 m₀ (broadcast5 j) m
  terms : m.dh.terms = m₀.dh.terms
  selfNotaryID : m.dh.terms.selfNotaryID = 0
  S : m.dh.terms.S = [1, 0]
  done : m.Completed .phase1
  senders : ∀ p, p ≠ .phase1 → m.dh.senders p = ∅
  before : ¬ m₀.Completed .phase1

theorem exists_broadcast5 (key : SignedKey curve5) {j : ℕ} (hj : j ≠ 0) :
    ∃ m₀ m, start 1 (session5.handler 0 (session5.base 0 key)) 5 = .ok m₀ ∧ Broadcast5 j m₀ m := by
  let msg : SignBroadcastPhase1 := {
    com := Proofs.createCommitmentWithUserDefinedRandomNess (curve5.X (scalarBaseMult curve5 key.gammaI)) 5
    blindFactor := 5 }
  let own : RangeMap ℕ SignBroadcastPhase1 := AList.insert 0 msg ∅
  let dh := (session5.handler 0 (session5.base 0 key)).setPhase1BroadCast own
  have hnew : own.lookup j = none := (AList.lookup_insert_ne hj).trans rfl
  let dh' := dh.setPhase1BroadCast (own.insert j { com := 5, blindFactor := 5 })
  have hlen : RangeMap.len (own.insert j { com := 5, blindFactor := 5 }) = 2 :=
    RangeMap.len_insert_of_lookup_none _ hnew
  have hok : dh.onRequest ethereum5 (Range.id ℕ) j (.phase1Broadcast { com := 5, blindFactor := 5 }) =
      .ok { dh' with doneChan := [.phase1] } := by
    unfold DSMHandler.onRequest DSMHandler.receivePhase1Broadcast
    dsimp only
    rw [DSMHandler.receiveOnce_new hnew]
    exact if_pos hlen
  refine ⟨{ dh := dh }, { dh := { dh' with doneChan := [.phase1] } }, rfl, .request j _ _ rfl hok, rfl, rfl, rfl,
    .inr List.mem_cons_self, fun p hp => ?_, ?_⟩
  · cases p with
    | phase1 => exact absurd rfl hp
    | _ => rfl
  · rintro (h | h)
    · exact absurd h (Nat.not_lt_zero _)
    · exact absurd h List.not_mem_nil

theorem unused_session5 : (session5.newDSMHandler 0 78).Unused :=
  ⟨fun p => by cases p <;> rfl, rfl⟩

theorem register_session5 : ∃ key, (session5.newDSMHandler 0 78).registerOtherNotaryIDs [1] 3 2 =
    .ok (session5.handler 0 (session5.base 0 key)) := by
  obtain ⟨key, -, hkey⟩ := Session.start_ok (s := session5) (i := 0) List.mem_cons_self
  exact ⟨key, hkey⟩

theorem phases_count_signers_session5 : ∃ dh m₀ m,
    (session5.newDSMHandler 0 78).registerOtherNotaryIDs [1] 3 2 = .ok dh ∧ start 1 dh 5 = .ok m₀ ∧
      Runs (ProperStep ethereum5) m₀ [broadcast5 1] m ∧ CountsSigners [broadcast5 1] m ∧
      Runs (Step ethereum5) m₀ ([broadcast5 1].filter (Input.ofSigner dh.signMessage.S)) m := by
  obtain ⟨key, hreg⟩ := register_session5
  obtain ⟨m₀, m, hstart, h⟩ := exists_broadcast5 key Nat.one_ne_zero
  have hinput : (broadcast5 1).Proper m₀.dh.terms := by
    intro _
    rw [← h.terms]
    rw [h.S, h.selfNotaryID]
    exact ⟨List.mem_cons_self, Nat.one_ne_zero, trivial⟩
  have hpasses : ∀ p, m.dh.Full p → m.dh.Passes ethereum5 p := by
    intro p hfull
    have hlen : m.dh.terms.S.length = 2 := by rw [h.S]; rfl
    cases p with
    | phase1 | phase3 | phase5C => trivial
    | phase2 | phase5A5B | phase6 =>
      simp [DSMHandler.Full, h.senders, Terms.quota, hlen] at hfull
  have hrun : Runs (ProperStep ethereum5) m₀ [broadcast5 1] m := .next _ .start ⟨h.step, hinput, hpasses⟩
  have hcounts := phases_count_signers ethereum5 unused_session5 (by decide) (by decide) (by decide) hreg hstart hrun
  exact ⟨_, m₀, m, hreg, hstart, hrun, hcounts⟩

/-- Notary 2 does not sign, and its broadcast completes phase 1 before the one of signer 1 has come. -/
theorem outsider_completes : ∃ dh m₀ m,
    (session5.newDSMHandler 0 78).registerOtherNotaryIDs [1] 3 2 = .ok dh ∧ start 1 dh 5 = .ok m₀ ∧
      Runs (Step ethereum5) m₀ [broadcast5 2] m ∧ ¬ CountsSigners [broadcast5 2] m ∧
      ¬ Runs (Step ethereum5) m₀ ([broadcast5 2].filter (Input.ofSigner dh.signMessage.S)) m := by
  obtain ⟨key, hreg⟩ := register_session5
  obtain ⟨m₀, m, hstart, h⟩ := exists_broadcast5 key (j := 2) (by decide)
  refine ⟨_, m₀, m, hreg, hstart, .next _ .start h.step, fun hcounts => ?_, fun hruns => ?_⟩
  · have hawaited : 1 ∈ m.dh.terms.awaited .phase1 := by simp [Terms.awaited, h.S]
    have hreceived := (hcounts .phase1).mp h.done 1 hawaited
    have hself : 1 ≠ m.dh.selfNotaryID := by
      rw [show m.dh.selfNotaryID = 0 from h.selfNotaryID]
      decide
    rw [Received, if_neg hself] at hreceived
    simp [broadcast5, Input.carries_request] at hreceived
  · have hnone :
        [broadcast5 2].filter (Input.ofSigner (session5.handler 0 (session5.base 0 key)).signMessage.S) = [] := rfl
    rw [hnone] at hruns
    cases hruns
    exact h.before h.done

end MainLoop

end DistributedNotary.Mecdsa
