import DistributedNotary.Mecdsa.Contributions

/-! A negotiation gets on. When each message passes the checks of its receiver,
what arrives is accepted, every step brings the end nearer, and there is a step
until the notaries that are not malicious have waited for all phases. -/
namespace DistributedNotary.Mecdsa

open Library Share Feldman Proofs

/-- One message from `j` to `i` for each phase. -/
structure Dealing (C : Curve) where
  proof1 : ℕ → ℕ → DLogProof C
  message2 : ℕ → ℕ → KeyGenBroadcastMessage2
  message3 : ℕ → ℕ → KeyGenBroadcastMessage3 C

namespace Dealing

variable {C : Curve} (d : Dealing C)

def message (j : ℕ) (k : KeyGenPhase) (i : ℕ) : KeyGenMessage C :=
  match k with
  | .phase1 => .phase1 (d.proof1 j i)
  | .phase2 => .phase2 (d.message2 j i)
  | .phase3 => .phase3 (d.message3 j i)

def offers (j i : ℕ) (msg : KeyGenMessage C) : Prop := msg = d.message j msg.phase i

/-- The messages from `j` pass what the handlers of `i` check. -/
structure Passes (j i : ℕ) : Prop where
  proof : verifyDLog (d.proof1 j i) = .ok true
  correctKey : (d.message2 j i).correctKey = true
  key : (d.message3 j i).vss.commitments.head? = some (d.proof1 j i).PK
  valid : (d.message3 j i).vss.validateShare (d.message3 j i).secretShare (i+1) = .ok true

/-- The key from `j` is the one that it has committed itself to. -/
def Opens (j i : ℕ) : Prop :=
  createCommitmentWithUserDefinedRandomNess (C.X (d.proof1 j i).PK) (d.message2 j i).blindFactor = (d.message2 j i).com

/-- Whether messages pass depends on these messages only. -/
theorem Passes.congr {d d' : Dealing C} {j i : ℕ} (h : d.Passes j i) (h1 : d'.proof1 j i = d.proof1 j i)
    (h2 : d'.message2 j i = d.message2 j i) (h3 : d'.message3 j i = d.message3 j i) : d'.Passes j i := by
  obtain ⟨hproof, hkey, hhead, hvalid⟩ := h
  rw [← h1] at hproof
  rw [← h2] at hkey
  rw [← h3, ← h1] at hhead
  rw [← h3] at hvalid
  exact ⟨hproof, hkey, hhead, hvalid⟩

theorem Opens.congr {d d' : Dealing C} {j i : ℕ} (h : d.Opens j i) (h1 : d'.proof1 j i = d.proof1 j i)
    (h2 : d'.message2 j i = d.message2 j i) : d'.Opens j i := by
  unfold Opens at h ⊢
  rw [h1, h2]
  exact h

@[simp] theorem phase_message (j : ℕ) (k : KeyGenPhase) (i : ℕ) : (d.message j k i).phase = k := by cases k <;> rfl

end Dealing

/-- What is sent when the notaries in `bad` send the messages of `d`. -/
def Dealers.sends {C : Curve} (s : Dealers C) (bad : Finset ℕ) (d : Dealing C) : Dealing C where
  proof1 j i := if j ∈ bad then d.proof1 j i else s.message1 j
  message2 j i := if j ∈ bad then d.message2 j i else s.message2 j
  message3 j i := if j ∈ bad then d.message3 j i else s.message3 j i

/-- Every message passes the checks of its receiver; the commitment of the last notary is not looked at. -/
def Dealers.AllPass {C : Curve} (s : Dealers C) (bad : Finset ℕ) (d : Dealing C) : Prop :=
  ∀ i < s.n, i ∉ bad → ∀ j < s.n, j ≠ i → (s.sends bad d).Passes j i ∧ (j+1 < s.n → (s.sends bad d).Opens j i)

section Sends

variable {C : Curve} {s : Dealers C} {bad : Finset ℕ} {d : Dealing C} {i j : ℕ}

theorem Dealers.sends_proof1 (j i : ℕ) :
    (s.sends bad d).proof1 j i = if j ∈ bad then d.proof1 j i else s.message1 j := rfl

theorem Dealers.sends_message3 (j i : ℕ) :
    (s.sends bad d).message3 j i = if j ∈ bad then d.message3 j i else s.message3 j i := rfl

theorem Dealers.sends_message_of_mem (hj : j ∈ bad) (k : KeyGenPhase) (i : ℕ) :
    (s.sends bad d).message j k i = d.message j k i := by cases k <;> simp [Dealing.message, Dealers.sends, hj]

theorem Dealers.sends_message_of_notMem (hj : j ∉ bad) (k : KeyGenPhase) (i : ℕ) :
    (s.sends bad d).message j k i = s.message j k i := by
  cases k <;> simp [Dealing.message, Dealers.sends, Dealers.message, hj]

theorem Negotiation.expected_iff {msg : KeyGenMessage C} :
    Negotiation.Expected s bad d.offers i j msg ↔ msg = (s.sends bad d).message j msg.phase i := by
  by_cases hj : j ∈ bad
  · simp [Negotiation.Expected, hj, Dealing.offers, Dealers.sends_message_of_mem]
  · simp [Negotiation.Expected, hj, Dealers.sends_message_of_notMem]

theorem Dealers.sends_passes_of_mem (hj : j ∈ bad) : (s.sends bad d).Passes j i ↔ d.Passes j i :=
  ⟨fun h => h.congr (if_pos hj).symm (if_pos hj).symm (if_pos hj).symm,
    fun h => h.congr (if_pos hj) (if_pos hj) (if_pos hj)⟩

end Sends

namespace Negotiation

variable {C : Curve} {s : Dealers C} {bad : Finset ℕ} {d : Dealing C} {w w' : Negotiation C} {i j : ℕ}

/-! ### What is accepted -/

theorem Sound.lookup1 (h : Sound s bad d.offers w) (hi : i < s.n) (hgood : i ∉ bad) (hj : j < s.n) (hji : j ≠ i)
    (harr : w.arrived i .phase1 j = true) :
    (w.handler i).pubKeysProof1.lookup j = some ((s.sends bad d).proof1 j i) := by
  have hm := (h.held i hi hgood).map1
  obtain ⟨m, hm'⟩ := Option.isSome_iff_exists.mp ((hm.keys j (Dealers.mem_others.mpr ⟨hj,hji⟩)).mpr harr)
  rw [hm', KeyGenMessage.phase1.inj (expected_iff.mp (hm.values j m hm').2)]

theorem Sound.lookup2 (h : Sound s bad d.offers w) (hi : i < s.n) (hgood : i ∉ bad) (hj : j < s.n) (hji : j ≠ i)
    (harr : w.arrived i .phase2 j = true) :
    (w.handler i).paillierKeysProof2.lookup j = some ((s.sends bad d).message2 j i) := by
  have hm := (h.held i hi hgood).map2
  obtain ⟨m, hm'⟩ := Option.isSome_iff_exists.mp ((hm.keys j (List.mem_range.mpr hj)).mpr (by rwa [if_neg hji]))
  rw [hm', KeyGenMessage.phase2.inj (expected_iff.mp (hm.values j m hm').2)]

/-- From the end of a phase on, its messages have arrived. -/
theorem Sound.arrived1 (h : Sound s bad d.offers w) (hi : i < s.n) (hgood : i ∉ bad) (hstage : 1 ≤ w.stage i)
    (hj : j < s.n) (hji : j ≠ i) : w.arrived i .phase1 j = true := by
  have hheld := h.held i hi hgood
  obtain ⟨m, hm, _⟩ := hheld.accepted1 hi hstage hj hji
  exact (hheld.map1.keys j (Dealers.mem_others.mpr ⟨hj,hji⟩)).mp (by rw [hm]; rfl)

/-- A message that can come is accepted, the share of the third phase when the keys of the first are there. -/
theorem Sound.accepts (h : Sound s bad d.offers w) (hi : i < s.n) (hgood : i ∉ bad) (hj : j < s.n) (hji : j ≠ i)
    (hpass : (s.sends bad d).Passes j i) {k : KeyGenPhase} (hnew : w.arrived i k j = false)
    (hkeys : k = .phase3 → w.arrived i .phase1 j = true) (rg : Range ℕ) :
    ∃ ph, (w.handler i).receive s.n rg j ((s.sends bad d).message j k i) = .ok ph ∧ ph.quitChan = [] := by
  have hheld := h.held i hi hgood
  cases k with
  | phase1 =>
    have hnone := hheld.map1.lookup_none (Dealers.mem_others.mpr ⟨hj,hji⟩) (by simp [hnew])
    obtain ⟨done, key, heq, _⟩ := PKNHandler.checkPhase1Done_eq s.n rg
      { w.handler i with pubKeysProof1 := (w.handler i).pubKeysProof1.insert j ((s.sends bad d).proof1 j i) }
    exact ⟨_, PKNHandler.receivePhase1_ok hpass.proof hnone, by rw [heq]; exact hheld.quiet⟩
  | phase2 =>
    have hnone := hheld.map2.lookup_none (List.mem_range.mpr hj) (by simp [hji, hnew])
    obtain ⟨done, heq, _⟩ := PKNHandler.checkPhase2Done_eq s.n
      { w.handler i with
        paillierKeysProof2 := (w.handler i).paillierKeysProof2.insert j ((s.sends bad d).message2 j i) }
    refine ⟨_, congrArg Except.ok (PKNHandler.receivePhase2_ok hpass.correctKey hnone), ?_⟩
    rw [heq]
    exact hheld.quiet
  | phase3 =>
    have hnone := hheld.map3.lookup_none (List.mem_range.mpr hj) (by simp [hji, hnew])
    obtain ⟨done, xi, heq, _⟩ := PKNHandler.checkPhase3Done_eq s.n rg
      { w.handler i with
        secretShareMessage3 := (w.handler i).secretShareMessage3.insert j ((s.sends bad d).message3 j i) }
    have hvalid := hpass.valid
    rw [← hheld.self] at hvalid
    refine ⟨_, PKNHandler.receivePhase3_ok (h.lookup1 hi hgood hj hji (hkeys rfl)) hpass.key ?_ hnone, ?_⟩
    · rw [hheld.self] at hvalid ⊢
      exact hvalid
    · rw [heq]
      exact hheld.quiet

/-- A notary that has waited for the second phase can deal its shares. -/
theorem Sound.deals (h : Sound s bad d.offers w) (hi : i < s.n) (hgood : i ∉ bad) (hstage : 1 ≤ w.stage i)
    (hopens : ∀ j, j+1 < s.n → j ≠ i → (s.sends bad d).Opens j i)
    (hall : ∀ j < s.n, j ≠ i → w.arrived i .phase2 j = true)
    (rg : Range ℕ) : ∃ ph msgs, (w.taken i .phase2).generatePhase3SecretShare s.t s.n rg (s.tail i) = .ok (ph, msgs) ∧
      ph.quitChan = [] := by
  have hheld := h.held i hi hgood
  obtain ⟨hlen, _⟩ := hheld.done1 (.inr hstage)
  have hself : (w.taken i .phase2).selfNotaryID = i := hheld.self
  have hfit : ∀ j < (w.taken i .phase2).pubKeysProof1.len, (w.taken i .phase2).blindFactorFits j = .ok true := by
    intro j hj
    have hlast : j+1 < s.n := by
      change j < (w.handler i).pubKeysProof1.len at hj
      omega
    have hjn : j < s.n := Nat.lt_of_succ_lt hlast
    unfold PKNHandler.blindFactorFits
    rw [hself]
    by_cases hji : j = i
    · rw [if_pos hji]
      rfl
    · rw [if_neg hji, show (w.taken i .phase2).paillierKeysProof2.lookup j = _ from
          h.lookup2 hi hgood hjn hji (hall j hjn hji),
        show (w.taken i .phase2).pubKeysProof1.lookup j = _ from
          h.lookup1 hi hgood hjn hji (h.arrived1 hi hgood hstage hjn hji)]
      exact congrArg Except.ok (decide_eq_true (hopens j hlast hji))
  obtain ⟨ph, msgs, hrun, hquit⟩ : ∃ ph msgs,
      (w.taken i .phase2).generatePhase3SecretShare s.t s.n rg (s.tail i) = .ok (ph, msgs) ∧
        ph.quitChan = (w.taken i .phase2).quitChan := PKNHandler.generatePhase3_ok hfit (lt_of_eq_of_lt hself hi)
  exact ⟨ph, msgs, hrun, hquit.trans hheld.quiet⟩

/-! ### The next step -/

/-- The notaries that run the handler. -/
def honest (s : Dealers C) (bad : Finset ℕ) : Finset ℕ := (Finset.range s.n).filter (· ∉ bad)

theorem mem_honest : i ∈ honest s bad ↔ i < s.n ∧ i ∉ bad := by simp [honest]

/-- Every notary that is not malicious has waited for all phases. -/
def Finished (s : Dealers C) (bad : Finset ℕ) (w : Negotiation C) : Prop := ∀ i < s.n, i ∉ bad → w.stage i = 3

/-- A message that an honest notary has sent, or a malicious one can send, makes a step. -/
theorem Sound.deliver (h : Sound s bad d.offers w) (hpass : s.AllPass bad d) (hi : i < s.n) (hgood : i ∉ bad)
    (hj : j < s.n) (hji : j ≠ i) {k : KeyGenPhase} (hat : j ∉ bad → k.sentAt ≤ w.stage j)
    (hnew : w.arrived i k j = false)
    (hkeys : k = .phase3 → w.arrived i .phase1 j = true) : ∃ w', Step s bad d.offers w w' := by
  obtain ⟨ph, hrecv, hquiet⟩ := h.accepts hi hgood hj hji (hpass i hi hgood j hj hji).1 hnew hkeys (Range.id ℕ)
  refine ⟨_, .deliver (Range.id ℕ) hj hi hji hgood (fun hb => ?_) (fun hg => ?_) hrecv hquiet⟩
  · rw [Dealing.offers, Dealing.phase_message, Dealers.sends_message_of_mem hb]
  · have hsent := (h.held j hj hg).sent k i (Dealers.mem_others.mpr ⟨hi,hji.symm⟩)
    rw [if_pos (hat hg)] at hsent
    rw [Dealing.phase_message, hsent, Dealers.sends_message_of_notMem hg]
    exact ⟨rfl, hnew⟩

/-- A notary that has the messages of its phase goes on to the next. -/
theorem Sound.finish (h : Sound s bad d.offers w) (hpass : s.AllPass bad d) (hn : 1 < s.n) (hi : i < s.n)
    (hgood : i ∉ bad)
    {k : KeyGenPhase} (hstage : w.stage i = k.sentAt) (hall : ∀ j < s.n, j ≠ i → w.arrived i k j = true) :
    ∃ w', Step s bad d.offers w w' := by
  have hheld := h.held i hi hgood
  have hothers : ∀ j ∈ s.others i, w.arrived i k j = true := fun j hj =>
    hall j (Dealers.mem_others.mp hj).1 (Dealers.mem_others.mp hj).2
  cases k with
  | phase1 =>
    have hlen := hheld.map1.len_eq (List.nodup_range.filter _) hothers
    have hcount := Dealers.length_others (s := s) hi
    have hdone := ((hheld.signal1 (by omega)).resolve_left (by omega)).resolve_right (by rw [hstage]; decide)
    exact ⟨_, .finish1 hi hgood hstage hdone⟩
  | phase2 =>
    have hlen := hheld.map2.len_eq List.nodup_range fun j hj => by
      by_cases hji : j = i
      · rw [if_pos hji, hstage]
        exact le_rfl
      · rw [if_neg hji]
        exact hall j (List.mem_range.mp hj) hji
    rw [List.length_range] at hlen
    have hdone := (hheld.signal2 hlen).resolve_right (by rw [hstage]; decide)
    have hopens : ∀ j, j+1 < s.n → j ≠ i → (s.sends bad d).Opens j i := fun j hj hji =>
      (hpass i hi hgood j (Nat.lt_of_succ_lt hj) hji).2 hj
    obtain ⟨ph, msgs, hrun, hquiet⟩ := h.deals hi hgood hstage.ge hopens hall (Range.id ℕ)
    exact ⟨_, .finish2 (Range.id ℕ) hi hgood hstage hdone hrun hquiet⟩
  | phase3 =>
    have hlen := hheld.map3.len_eq List.nodup_range fun j hj => by
      by_cases hji : j = i
      · rw [if_pos hji, hstage]
        exact le_rfl
      · rw [if_neg hji]
        exact hall j (List.mem_range.mp hj) hji
    rw [List.length_range] at hlen
    have hdone := (hheld.signal3 hlen).resolve_right (by rw [hstage]; decide)
    exact ⟨_, .finish3 hi hgood hstage hdone⟩

/-- The notary that is furthest behind can go on, or there is a message for it. -/
theorem Sound.progress (h : Sound s bad d.offers w) (hpass : s.AllPass bad d) (hn : 1 < s.n)
    (hopen : ¬ Finished s bad w) (hle : ∀ i, w.stage i ≤ 3) : ∃ w', Step s bad d.offers w w' := by
  unfold Finished at hopen
  push Not at hopen
  obtain ⟨i₀, hi₀, hgood₀, hne₀⟩ := hopen
  obtain ⟨i, hi, hmin⟩ := Finset.exists_min_image (honest s bad) w.stage ⟨i₀, mem_honest.mpr ⟨hi₀,hgood₀⟩⟩
  have hlt : w.stage i < 3 := lt_of_le_of_lt (hmin i₀ (mem_honest.mpr ⟨hi₀,hgood₀⟩)) (lt_of_le_of_ne (hle i₀) hne₀)
  obtain ⟨hi, hgood⟩ := mem_honest.mp hi
  obtain ⟨k, hk⟩ : ∃ k : KeyGenPhase, w.stage i = k.sentAt := by
    interval_cases w.stage i
    · exact ⟨.phase1, rfl⟩
    · exact ⟨.phase2, rfl⟩
    · exact ⟨.phase3, rfl⟩
  by_cases hall : ∀ j < s.n, j ≠ i → w.arrived i k j = true
  · exact h.finish hpass hn hi hgood hk hall
  · push Not at hall
    obtain ⟨j, hj, hji, hnew⟩ := hall
    refine h.deliver hpass hi hgood hj hji (fun hg => hk ▸ hmin j (mem_honest.mpr ⟨hj,hg⟩)) (by simpa using hnew) ?_
    rintro rfl
    exact h.arrived1 hi hgood (by rw [hk]; decide) hj hji

/-! ### The end comes nearer -/

/-- How many phases a notary has still to wait for, and how many messages for it have not arrived. -/
def remainingOf (s : Dealers C) (w : Negotiation C) (i : ℕ) : ℕ :=
  (3 - w.stage i) + ∑ k : KeyGenPhase, ∑ j ∈ Finset.range s.n, if w.arrived i k j then 0 else 1

def remaining (s : Dealers C) (w : Negotiation C) : ℕ := ∑ i ∈ Finset.range s.n, remainingOf s w i

/-- A message is accepted once. -/
theorem Sound.fresh (h : Sound s bad d.offers w) (hi : i < s.n) (hgood : i ∉ bad) (hj : j < s.n) (hji : j ≠ i)
    {msg : KeyGenMessage C} {rg : Range ℕ} {ph : PKNHandler C} (hrecv : (w.handler i).receive s.n rg j msg = .ok ph)
    (hquiet : ph.quitChan = []) : w.arrived i msg.phase j = false := by
  have hheld := h.held i hi hgood
  rw [← Bool.not_eq_true]
  intro harr
  cases msg with
  | phase1 m =>
    have hsome := (hheld.map1.keys j (Dealers.mem_others.mpr ⟨hj,hji⟩)).mpr harr
    rw [(PKNHandler.receivePhase1_quiet hrecv hquiet).1] at hsome
    cases hsome
  | phase2 m =>
    have hsome := (hheld.map2.keys j (List.mem_range.mpr hj)).mpr (by rwa [if_neg hji])
    obtain rfl := Except.ok.inj hrecv
    rw [(PKNHandler.receivePhase2_quiet hquiet).1] at hsome
    cases hsome
  | phase3 m =>
    have hsome := (hheld.map3.keys j (List.mem_range.mpr hj)).mpr (by rwa [if_neg hji])
    rw [(PKNHandler.receivePhase3_quiet hrecv hquiet).1] at hsome
    cases hsome

/-- A step changes one notary, and leaves less for that one. -/
theorem remaining_lt_of (i : ℕ) (hi : i < s.n) (hlt : remainingOf s w' i < remainingOf s w i)
    (hothers : ∀ j ≠ i, w'.stage j = w.stage j ∧ w'.arrived j = w.arrived j) : remaining s w' < remaining s w := by
  refine Finset.sum_lt_sum (fun j _ => ?_) ⟨i, Finset.mem_range.mpr hi, hlt⟩
  rcases eq_or_ne j i with rfl | hne
  · exact hlt.le
  · rw [remainingOf, remainingOf, (hothers j hne).1, (hothers j hne).2]

theorem remainingOf_lt_of_stage (hstage : w.stage i < w'.stage i) (hle : w'.stage i ≤ 3)
    (harr : w'.arrived i = w.arrived i) : remainingOf s w' i < remainingOf s w i := by
  rw [remainingOf, remainingOf, harr]
  omega

theorem remainingOf_lt_of_mark {k : KeyGenPhase} (hj : j < s.n) (hstage : w'.stage i = w.stage i)
    (hnew : w.arrived i k j = false) (harr : w'.arrived i = mark k j (w.arrived i)) :
    remainingOf s w' i < remainingOf s w i := by
  have hmono : ∀ k' j', (if w'.arrived i k' j' then 0 else 1) ≤ if w.arrived i k' j' then 0 else 1 := by
    intro k' j'
    rw [harr, mark]
    split_ifs <;> simp_all
  rw [remainingOf, remainingOf, hstage]
  refine Nat.add_lt_add_left (Finset.sum_lt_sum (fun k' _ => Finset.sum_le_sum fun j' _ => hmono k' j') ?_) _
  refine ⟨k, Finset.mem_univ k, Finset.sum_lt_sum (fun j' _ => hmono k j') ⟨j, Finset.mem_range.mpr hj, ?_⟩⟩
  rw [harr, mark_self, hnew]
  decide

theorem Sound.remaining_lt (h : Sound s bad d.offers w) (hstep : Step s bad d.offers w w') :
    remaining s w' < remaining s w := by
  cases hstep with
  | @deliver j i msg ph rg hj hi hji hgood hbad hsent hrecv hquiet =>
    refine remaining_lt_of i hi ?_ fun k hk => ⟨rfl, by simp [hk]⟩
    exact remainingOf_lt_of_mark hj rfl (h.fresh hi hgood hj hji hrecv hquiet) (Function.update_self ..)
  | @finish1 i hi hgood hstage hdone =>
    exact remaining_lt_of i hi (remainingOf_lt_of_stage (by simp [hstage]) (by simp) rfl) fun k hk =>
      ⟨by simp [hk], rfl⟩
  | @finish2 i ph msgs rg hi hgood hstage hdone hrun hquiet =>
    exact remaining_lt_of i hi (remainingOf_lt_of_stage (by simp [hstage]) (by simp) rfl) fun k hk =>
      ⟨by simp [hk], rfl⟩
  | @finish3 i hi hgood hstage hdone =>
    exact remaining_lt_of i hi (remainingOf_lt_of_stage (by simp [hstage]) (by simp) rfl) fun k hk =>
      ⟨by simp [hk], rfl⟩

theorem Reached.stage_le (h : Reached s bad d.offers w) (i : ℕ) : w.stage i ≤ 3 := by
  refine h.invariant (p := fun w => w.stage i ≤ 3) (fun w hw => hw ▸ Nat.zero_le 3) fun w w' _ hle hstep => ?_
  cases hstep with
  | deliver => exact hle
  | _ =>
    simp only [Function.update_apply]
    split_ifs
    · omega
    · exact hle

/-! ### Whole runs -/

/-- No negotiation goes on forever. -/
theorem stops (run : ℕ → Negotiation C) (h : Reached s bad d.offers (run 0)) :
    ∃ k, ¬ Step s bad d.offers (run k) (run (k+1)) :=
  Reachable.stops (remaining s) (fun _ _ hreach hstep => (Reached.sound hreach).remaining_lt hstep) run h

/-- When all messages pass, every run can be led to its end. -/
theorem Reached.completes (h : Reached s bad d.offers w) (hpass : s.AllPass bad d) (hn : 1 < s.n) :
    ∃ w', Relation.ReflTransGen (Step s bad d.offers) w w' ∧ Reached s bad d.offers w' ∧ Finished s bad w' :=
  Reachable.completes (remaining s) (fun _ _ hreach hstep => (Reached.sound hreach).remaining_lt hstep)
    (fun _ hreach hopen => (Reached.sound hreach).progress hpass hn hopen (Reached.stage_le hreach)) h

end Negotiation

end DistributedNotary.Mecdsa
