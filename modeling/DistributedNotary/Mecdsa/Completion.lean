import DistributedNotary.Library.Transition
import DistributedNotary.Mecdsa.EndToEnd

/-! The end of phase 2. For each peer a goroutine waits for the answer, stores it and
then looks whether all answers are there. Storing is one step and looking is another
one, so that several goroutines can find the phase complete, each of which signals it.
One peer is signalled once, two at most twice, and three can fill the channel. -/
namespace DistributedNotary.Mecdsa

open Library Share

variable {C : Curve}

/-- The exchange of phase 2 as a notary starts it: nothing is stored yet, and each peer answers with a
message or not at all. -/
structure Phase2 (C : Curve) where
  dh : DSMHandler C
  key : SignedKey C
  answer : ℕ → Option (MessageBPhase2 C)
  signedKey : dh.signMessage.signedKey = some key
  nodup : dh.otherNotaryIDs.Nodup
  self : dh.selfNotaryID ∉ dh.otherNotaryIDs
  S : dh.signMessage.S = dh.otherNotaryIDs ++ [dh.selfNotaryID]
  stored : dh.signMessage.phase2MessageB = ∅
  silent : .phase2 ∉ dh.doneChan
  complete : ∀ i msg, answer i = some msg → msg.messageBWi.isSome

/-- Where the goroutine of a peer is. -/
inductive Goroutine where
  | waiting
  | stored
  | finished
  | failed
  deriving DecidableEq

/-- The handler, the goroutines, whether the main goroutine has taken the signal and whether it has stored its
own message since; `panicked` is set when a goroutine has panicked. -/
structure Collecting (C : Curve) where
  dh : DSMHandler C
  goroutine : ℕ → Goroutine := fun _ => .waiting
  received : Bool := false
  own : Bool := false
  panicked : Bool := false

namespace Phase2

variable (s : Phase2 C)

abbrev peers : List ℕ := s.dh.otherNotaryIDs

/-- A message from which `checkPhase2Done` gets both shares. -/
def Verifies (msg : MessageBPhase2 C) : Prop :=
  ∃ mbw a b, msg.messageBWi = some mbw ∧
    verifyProofsGetAlpha msg.messageBGamma s.dh.paillierPrivateKey s.key.ki = .ok a ∧
    verifyProofsGetAlpha mbw s.dh.paillierPrivateKey s.key.ki = .ok b

/-- Every peer answers with a message that verifies. -/
def AllVerify : Prop := ∀ i ∈ s.peers, ∃ msg, s.answer i = some msg ∧ s.Verifies msg

inductive Step : Collecting C → Collecting C → Prop
  | store {w : Collecting C} {i : ℕ} {msg : MessageBPhase2 C} (hp : w.panicked = false) (hi : i ∈ s.peers)
    (hw : w.goroutine i = .waiting) (hmsg : s.answer i = some msg) : Step w { w with
      dh := w.dh.setPhase2MessageB (w.dh.signMessage.phase2MessageB.insert i msg)
      goroutine := Function.update w.goroutine i .stored }
  | fail {w : Collecting C} {i : ℕ} (err : String) (hp : w.panicked = false) (hi : i ∈ s.peers)
    (hw : w.goroutine i = .waiting) (hmsg : s.answer i = none) : Step w { w with
      dh := w.dh.notifyError err
      goroutine := Function.update w.goroutine i .failed }
  | check {w : Collecting C} {i : ℕ} {dh : DSMHandler C} (rg : Range ℕ) (hp : w.panicked = false) (hi : i ∈ s.peers)
    (hw : w.goroutine i = .stored) (hrun : w.dh.checkPhase2Done rg = .ok dh) : Step w { w with
      dh := dh
      goroutine := Function.update w.goroutine i .finished }
  | panic {w : Collecting C} {i : ℕ} {err : String} (rg : Range ℕ) (hp : w.panicked = false) (hi : i ∈ s.peers)
    (hw : w.goroutine i = .stored) (hrun : w.dh.checkPhase2Done rg = .error err) : Step w { w with panicked := true }
  | receive {w : Collecting C} (hp : w.panicked = false) (hr : w.received = false) (hdone : .phase2 ∈ w.dh.doneChan) :
    Step w { w with
      dh := { w.dh with doneChan := w.dh.doneChan.erase .phase2 }
      received := true }
  | phase4 {w : Collecting C} (msg : MessageBPhase2 C) (hp : w.panicked = false) (hr : w.received = true)
    (ho : w.own = false) : Step w { w with
      dh := w.dh.setPhase2MessageB (w.dh.signMessage.phase2MessageB.insert w.dh.selfNotaryID msg)
      own := true }

/-- The states of all runs. -/
abbrev Run : Collecting C → Prop := Reachable (fun w => w = { dh := s.dh }) s.Step

/-- The signals given, whether taken or not. -/
def signals (w : Collecting C) : ℕ := w.dh.doneChan.count .phase2 + w.received.toNat

def Ended (w : Collecting C) : Prop := ∀ i ∈ s.peers, w.goroutine i = .finished ∨ w.goroutine i = .failed

/-- The phase is signalled once, whatever the goroutines do when. -/
def SignalsOnce : Prop :=
  ∀ w, s.Run w → w.panicked = false ∧ signals w ≤ 1 ∧ (s.Ended w → signals w = 1)

def NeverPanics : Prop := ∀ w, s.Run w → w.panicked = false

/-- The peers whose answers are stored. -/
def storedBy (w : Collecting C) : List ℕ :=
  s.peers.filter fun i => w.goroutine i = .stored ∨ w.goroutine i = .finished

section Loop

variable {s} {dh : DSMHandler C}

/-- The loop over messages that verify ends with the signal. -/
theorem collectAlpha_done (hkey : dh.signMessage.signedKey = some s.key)
    (hpaillier : dh.paillierPrivateKey = s.dh.paillierPrivateKey) {l : List (ℕ × MessageBPhase2 C)}
    (hl : ∀ p ∈ l, s.Verifies p.2) : ∃ aG aW, dh.collectAlpha l = (dh.setAlpha aG aW).notifyDone .phase2 := by
  induction l generalizing dh with
  | nil => exact ⟨dh.signMessage.alphaGamma, dh.signMessage.alphaWI, rfl⟩
  | cons p l ih =>
    obtain ⟨mbw, a, b, hmbw, ha, hb⟩ := hl p (List.mem_cons_self ..)
    rw [← hpaillier] at ha hb
    obtain ⟨aG, aW, hloop⟩ := @ih (dh.setAlpha (dh.signMessage.alphaGamma.insert p.1 a)
      (dh.signMessage.alphaWI.insert p.1 b)) hkey hpaillier fun q hq => hl q (List.mem_cons_of_mem _ hq)
    refine ⟨aG, aW, ?_⟩
    rw [DSMHandler.collectAlpha, hkey, bind_ok (deref_some _), ha, hmbw]
    simp only [deref_some]
    rw [bind_ok rfl, hb]
    exact hloop

/-- A message that does not verify ends it with an error. -/
theorem collectAlpha_error (hkey : dh.signMessage.signedKey = some s.key)
    (hpaillier : dh.paillierPrivateKey = s.dh.paillierPrivateKey) {l : List (ℕ × MessageBPhase2 C)}
    (hwi : ∀ p ∈ l, p.2.messageBWi.isSome) (hl : ∃ p ∈ l, ¬ s.Verifies p.2) :
    ∃ aG aW err, dh.collectAlpha l = .ok ((dh.setAlpha aG aW).notifyError err) := by
  induction l generalizing dh with
  | nil => simp at hl
  | cons p l ih =>
    obtain ⟨mbw, hmbw⟩ := Option.isSome_iff_exists.mp (hwi p (List.mem_cons_self ..))
    rw [DSMHandler.collectAlpha, hkey, bind_ok (deref_some _), hmbw]
    cases ha : verifyProofsGetAlpha p.2.messageBGamma dh.paillierPrivateKey s.key.ki with
    | error err => exact ⟨dh.signMessage.alphaGamma, dh.signMessage.alphaWI, err, rfl⟩
    | ok a =>
      simp only [deref_some]
      rw [bind_ok rfl]
      cases hb : verifyProofsGetAlpha mbw dh.paillierPrivateKey s.key.ki with
      | error err => exact ⟨dh.signMessage.alphaGamma, dh.signMessage.alphaWI, err, rfl⟩
      | ok b =>
        have hp : s.Verifies p.2 := ⟨mbw, a, b, hmbw, hpaillier ▸ ha, hpaillier ▸ hb⟩
        obtain ⟨q, hq, hbad⟩ := hl
        have hql : q ∈ l := (List.mem_cons.mp hq).resolve_left fun h => hbad (h ▸ hp)
        exact @ih (dh.setAlpha (dh.signMessage.alphaGamma.insert p.1 a) (dh.signMessage.alphaWI.insert p.1 b))
          hkey hpaillier (fun q hq => hwi q (List.mem_cons_of_mem _ hq)) ⟨q, hql, hbad⟩

end Loop

/-! ### What holds in every run -/

section Counting

variable {l : List ℕ} {i : ℕ} {p q : ℕ → Prop} [DecidablePred p] [DecidablePred q]

/-- One more member of a list satisfies the property. -/
theorem filter_perm_cons (hl : l.Nodup) (hi : i ∈ l) (hp : ¬ p i) (hq : q i) (h : ∀ j, j ≠ i → (q j ↔ p j)) :
    (l.filter q).Perm (i :: l.filter p) := by
  have hnd : (i :: l.filter p).Nodup := List.nodup_cons.mpr ⟨by simp [hp], hl.filter _⟩
  refine (List.perm_ext_iff_of_nodup (hl.filter _) hnd).mpr fun j => ?_
  rw [List.mem_cons, List.mem_filter, List.mem_filter]
  rcases eq_or_ne j i with rfl | hj
  · simp [hi, hq]
  · simp [hj, h j hj]

end Counting

/-- Where the goroutine of a peer is after a step of its own. -/
theorem update_iff {g : ℕ → Goroutine} {i j : ℕ} {x : Goroutine} (hj : j ≠ i) : Function.update g i x j = g j :=
  Function.update_of_ne hj _ _

/-- The peers whose goroutines have looked. -/
def finishedBy (w : Collecting C) : List ℕ := s.peers.filter fun i => w.goroutine i = .finished

structure Inv (w : Collecting C) : Prop where
  key : w.dh.signMessage.signedKey = some s.key
  paillier : w.dh.paillierPrivateKey = s.dh.paillierPrivateKey
  S : w.dh.signMessage.S = s.peers ++ [s.dh.selfNotaryID]
  self : w.dh.selfNotaryID = s.dh.selfNotaryID
  collects : RangeMap.Collects w.dh.signMessage.phase2MessageB
    ((if w.own then [s.dh.selfNotaryID] else []) ++ s.storedBy w) fun i msg => i ∈ s.peers → s.answer i = some msg
  own_received : w.own = true → w.received = true
  signals_le : signals w ≤ (s.finishedBy w).length
  all_stored : 0 < signals w → s.AllVerify ∧ s.storedBy w = s.peers
  pending : s.storedBy w = s.peers → s.AllVerify → s.peers ≠ [] →
    0 < signals w ∨ ∃ i ∈ s.peers, w.goroutine i = .stored

namespace Inv

variable {s} {w w' : Collecting C}

theorem start : Inv s { dh := s.dh } where
  key := s.signedKey
  paillier := rfl
  S := s.S
  self := rfl
  collects := by
    have hnone : s.storedBy { dh := s.dh } = [] := List.filter_eq_nil_iff.mpr fun i _ => by simp
    rw [hnone]
    change RangeMap.Collects s.dh.signMessage.phase2MessageB [] _
    rw [s.stored]
    exact .empty _
  own_received h := nomatch h
  signals_le := by
    rw [signals, List.count_eq_zero_of_not_mem s.silent]
    exact Nat.zero_le _
  all_stored h := by
    rw [signals, List.count_eq_zero_of_not_mem s.silent] at h
    exact absurd h (by simp)
  pending h _ hne := by
    have hnone : s.storedBy { dh := s.dh } = [] := List.filter_eq_nil_iff.mpr fun i _ => by simp
    exact absurd (h.symm.trans hnone) hne

theorem storedBy_eq_iff :
    s.storedBy w = s.peers ↔ ∀ i ∈ s.peers, w.goroutine i = .stored ∨ w.goroutine i = .finished := by
  rw [storedBy, List.filter_eq_self]
  simp

theorem length_storedBy_lt (h : s.storedBy w ≠ s.peers) : (s.storedBy w).length < s.peers.length :=
  lt_of_le_of_ne (List.length_filter_le ..) fun heq =>
    h (List.filter_eq_self.mpr (List.length_filter_eq_length_iff.mp heq))

theorem len (h : Inv s w) : w.dh.signMessage.phase2MessageB.len = w.own.toNat + (s.storedBy w).length := by
  rw [h.collects.len, List.length_append]
  cases w.own <;> rfl

theorem length_S (h : Inv s w) : w.dh.signMessage.S.length - 1 = s.peers.length := by
  rw [h.S, List.length_append, List.length_singleton, Nat.add_sub_cancel]

/-- A signal that was taken is one. -/
theorem signals_pos (h : w.received = true) : 0 < signals w := by
  rw [signals, h]
  exact Nat.succ_pos _

/-- What a look at the messages finds: the phase is not complete, or a message does not verify, or it is complete. -/
theorem check (h : Inv s w) (rg : Range ℕ) :
    (w.dh.checkPhase2Done rg = .ok w.dh ∧ (w.own = true ∨ s.storedBy w ≠ s.peers)) ∨
    (¬ s.AllVerify ∧ ∃ aG aW err, w.dh.checkPhase2Done rg = .ok ((w.dh.setAlpha aG aW).notifyError err)) ∨
    (s.AllVerify ∧ s.storedBy w = s.peers ∧
      ∃ aG aW, w.dh.checkPhase2Done rg = (w.dh.setAlpha aG aW).notifyDone .phase2) := by
  by_cases hfull : w.own = true ∨ s.storedBy w ≠ s.peers
  · refine .inl ⟨if_neg ?_, hfull⟩
    rw [h.len, h.length_S]
    obtain hown | hne := hfull
    · rw [(h.all_stored (signals_pos (h.own_received hown))).2, hown, Bool.toNat_true]
      omega
    · have hlt := length_storedBy_lt hne
      cases hown : w.own with
      | false =>
        rw [Bool.toNat_false]
        omega
      | true =>
        exact absurd (h.all_stored (signals_pos (h.own_received hown))).2 hne
  · obtain ⟨hown, hall⟩ := not_or.mp hfull
    rw [not_not] at hall
    rw [Bool.not_eq_true] at hown
    have hlen : w.dh.signMessage.phase2MessageB.len = w.dh.signMessage.S.length - 1 := by
      rw [h.len, h.length_S, hall, hown, Bool.toNat_false, Nat.zero_add]
    have hcollects := h.collects
    rw [hown, hall] at hcollects
    have hmem : ∀ p ∈ w.dh.signMessage.phase2MessageB.range rg, p.1 ∈ s.peers ∧ s.answer p.1 = some p.2 := by
      intro p hp
      obtain ⟨hk, hans⟩ := hcollects.of_lookup (RangeMap.mem_range.mp hp)
      exact ⟨hk, hans hk⟩
    rw [DSMHandler.checkPhase2Done, if_pos hlen]
    by_cases hverify : s.AllVerify
    · refine .inr (.inr ⟨hverify, hall, collectAlpha_done h.key h.paillier fun p hp => ?_⟩)
      obtain ⟨msg, hmsg, hv⟩ := hverify p.1 (hmem p hp).1
      rw [(hmem p hp).2] at hmsg
      exact Option.some.inj hmsg ▸ hv
    · refine .inr (.inl ⟨hverify, collectAlpha_error h.key h.paillier
        (fun p hp => s.complete p.1 p.2 (hmem p hp).2) ?_⟩)
      rw [AllVerify] at hverify
      push Not at hverify
      obtain ⟨i, hi, hbad⟩ := hverify
      obtain ⟨msg, hlookup, hans⟩ := hcollects.values i (List.mem_append_right _ hi)
      exact ⟨(i, msg), RangeMap.mem_range.mpr hlookup, hbad msg (hans hi)⟩

section Moves

variable {i : ℕ}

/-- A goroutine that waits is none of the others. -/
theorem storedBy_wait (hw : w.goroutine i = .waiting) (hi : i ∈ s.peers) : s.storedBy w ≠ s.peers := fun h => by
  have hs := storedBy_eq_iff.mp h i hi
  rw [hw] at hs
  exact hs.elim (nomatch ·) (nomatch ·)

theorem silent (h : Inv s w) (hne : s.storedBy w ≠ s.peers) : signals w = 0 := by
  by_contra hpos
  exact hne (h.all_stored (Nat.pos_of_ne_zero hpos)).2

theorem store (h : Inv s w) {msg : MessageBPhase2 C} (hi : i ∈ s.peers) (hw : w.goroutine i = .waiting)
    (hmsg : s.answer i = some msg) : Inv s { w with
      dh := w.dh.setPhase2MessageB (w.dh.signMessage.phase2MessageB.insert i msg)
      goroutine := Function.update w.goroutine i .stored } := by
  have hstored : (s.storedBy { w with
      dh := w.dh.setPhase2MessageB (w.dh.signMessage.phase2MessageB.insert i msg)
      goroutine := Function.update w.goroutine i .stored }).Perm (i :: s.storedBy w) :=
    filter_perm_cons s.nodup hi (by simp [hw]) (by simp) fun j hj => by simp [update_iff hj]
  have hnot : i ∉ (if w.own then [s.dh.selfNotaryID] else []) ++ s.storedBy w := by
    rw [List.mem_append, not_or]
    refine ⟨fun hmem => ?_, fun hmem => ?_⟩
    · split at hmem
      · exact s.self (List.mem_singleton.mp hmem ▸ hi)
      · exact List.not_mem_nil hmem
    · simp [storedBy, hw] at hmem
  have hsilent := h.silent (storedBy_wait hw hi)
  exact {
    key := h.key
    paillier := h.paillier
    S := h.S
    self := h.self
    collects := (h.collects.insert hnot fun _ => hmsg).perm
      (List.perm_middle.symm.trans (List.Perm.append_left _ hstored.symm))
    own_received := h.own_received
    signals_le := hsilent.trans_le (Nat.zero_le _)
    all_stored := fun hpos => absurd hsilent hpos.ne'
    pending := fun _ _ _ => .inr ⟨i, hi, Function.update_self ..⟩ }

theorem fail (h : Inv s w) (err : String) (hi : i ∈ s.peers) (hw : w.goroutine i = .waiting) : Inv s { w with
    dh := w.dh.notifyError err
    goroutine := Function.update w.goroutine i .failed } := by
  have hstored : s.storedBy { w with
      dh := w.dh.notifyError err
      goroutine := Function.update w.goroutine i .failed } = s.storedBy w :=
    List.filter_congr fun j _ => by
      rcases eq_or_ne j i with rfl | hj
      · simp [hw]
      · simp [update_iff hj]
  have hne := storedBy_wait hw hi
  have hsilent := h.silent hne
  exact {
    key := h.key
    paillier := h.paillier
    S := h.S
    self := h.self
    collects := by
      rw [hstored]
      exact h.collects
    own_received := h.own_received
    signals_le := hsilent.trans_le (Nat.zero_le _)
    all_stored := fun hpos => absurd hsilent hpos.ne'
    pending := fun hall => absurd (hstored ▸ hall) hne }

/-- A goroutine that has looked, with `n` signals more. -/
theorem finish (h : Inv s w) (hi : i ∈ s.peers) (hw : w.goroutine i = .stored) {dh : DSMHandler C}
    (hsm : ∃ aG aW, dh.signMessage = (w.dh.setAlpha aG aW).signMessage)
    (hpaillier : dh.paillierPrivateKey = w.dh.paillierPrivateKey) (hself : dh.selfNotaryID = w.dh.selfNotaryID)
    (hdone : dh.doneChan = w.dh.doneChan ∧ (s.AllVerify → s.storedBy w = s.peers → 0 < signals w) ∨
      dh.doneChan = .phase2 :: w.dh.doneChan ∧ s.AllVerify ∧ s.storedBy w = s.peers) :
    Inv s { w with dh := dh, goroutine := Function.update w.goroutine i .finished } := by
  obtain ⟨aG, aW, hsm⟩ := hsm
  have hstored : s.storedBy { w with dh := dh, goroutine := Function.update w.goroutine i .finished } = s.storedBy w :=
    List.filter_congr fun j _ => by
      rcases eq_or_ne j i with rfl | hj
      · simp [hw]
      · simp [update_iff hj]
  have hfinished : (s.finishedBy { w with dh := dh, goroutine := Function.update w.goroutine i .finished }).length =
      (s.finishedBy w).length + 1 :=
    (filter_perm_cons s.nodup hi (by simp [hw]) (by simp) fun j hj => by simp [update_iff hj]).length_eq
  have hle := h.signals_le
  refine ⟨?_, ?_, ?_, ?_, ?_, h.own_received, ?_, ?_, ?_⟩
  · change dh.signMessage.signedKey = _
    rw [hsm]
    exact h.key
  · exact hpaillier.trans h.paillier
  · change dh.signMessage.S = _
    rw [hsm]
    exact h.S
  · exact hself.trans h.self
  · rw [hstored]
    change RangeMap.Collects dh.signMessage.phase2MessageB _ _
    rw [hsm]
    exact h.collects
  · rw [hfinished]
    obtain ⟨hd, -⟩ | ⟨hd, -⟩ := hdone
    · simp only [signals, hd] at hle ⊢
      omega
    · simp only [signals, hd, List.count_cons_self] at hle ⊢
      omega
  · intro hpos
    rw [hstored]
    obtain ⟨hd, -⟩ | ⟨-, hall⟩ := hdone
    · simp only [signals, hd] at hpos
      exact h.all_stored hpos
    · exact hall
  · intro hall hverify _
    rw [hstored] at hall
    left
    obtain ⟨hd, hpos⟩ | ⟨hd, -⟩ := hdone
    · have h0 := hpos hverify hall
      simp only [signals, hd] at h0 ⊢
      exact h0
    · simp only [signals, hd, List.count_cons_self]
      omega

/-- When the look changes nothing, the phase has been signalled before, if at all. -/
theorem check_finish (h : Inv s w) (rg : Range ℕ) (hi : i ∈ s.peers) (hw : w.goroutine i = .stored) {dh : DSMHandler C}
    (hrun : w.dh.checkPhase2Done rg = .ok dh) :
    Inv s { w with dh := dh, goroutine := Function.update w.goroutine i .finished } := by
  obtain ⟨heq, hfull⟩ | ⟨hno, aG, aW, err, heq⟩ | ⟨hverify, hall, aG, aW, heq⟩ := h.check rg
  · obtain rfl : w.dh = dh := Except.ok.inj (heq.symm.trans hrun)
    refine h.finish hi hw ⟨w.dh.signMessage.alphaGamma, w.dh.signMessage.alphaWI, rfl⟩ rfl rfl (.inl ⟨rfl, ?_⟩)
    intro _ hall
    exact signals_pos (h.own_received (hfull.resolve_right (not_not.mpr hall)))
  · obtain rfl := Except.ok.inj (heq.symm.trans hrun)
    exact h.finish hi hw ⟨aG, aW, rfl⟩ rfl rfl (.inl ⟨rfl, fun hv => absurd hv hno⟩)
  · rw [heq, DSMHandler.notifyDone] at hrun
    split at hrun
    · cases hrun
    · obtain rfl := Except.ok.inj hrun
      exact h.finish hi hw ⟨aG, aW, rfl⟩ rfl rfl (.inr ⟨rfl, hverify, hall⟩)

theorem receive (h : Inv s w) (hr : w.received = false) (hdone : .phase2 ∈ w.dh.doneChan) : Inv s { w with
    dh := { w.dh with doneChan := w.dh.doneChan.erase .phase2 }
    received := true } := by
  have hcount := List.count_pos_iff.mpr hdone
  have hsignals : signals { w with
      dh := { w.dh with doneChan := w.dh.doneChan.erase .phase2 }
      received := true } = signals w := by
    simp only [signals, List.count_erase_self, hr, Bool.toNat_true, Bool.toNat_false]
    omega
  exact ⟨h.key, h.paillier, h.S, h.self, h.collects, fun _ => rfl, hsignals.trans_le h.signals_le,
    fun hpos => h.all_stored (hsignals ▸ hpos),
    fun hall hv hne => (h.pending hall hv hne).imp_left fun hpos => hsignals.symm ▸ hpos⟩

theorem phase4 (h : Inv s w) (msg : MessageBPhase2 C) (hr : w.received = true) (ho : w.own = false) : Inv s { w with
    dh := w.dh.setPhase2MessageB (w.dh.signMessage.phase2MessageB.insert w.dh.selfNotaryID msg)
    own := true } := by
  have hcollects := h.collects
  rw [ho] at hcollects
  have hnot : w.dh.selfNotaryID ∉ s.storedBy w := fun hmem => s.self (h.self ▸ (List.mem_filter.mp hmem).1)
  have hins := hcollects.insert (v := msg) hnot fun hmem => absurd (h.self ▸ hmem) s.self
  rw [h.self] at hins
  refine ⟨h.key, h.paillier, h.S, h.self, ?_, fun _ => hr, h.signals_le, h.all_stored, h.pending⟩
  change RangeMap.Collects (w.dh.signMessage.phase2MessageB.insert w.dh.selfNotaryID msg) _ _
  rw [h.self]
  exact hins

end Moves

theorem step (h : Inv s w) (hstep : s.Step w w') : Inv s w' := by
  cases hstep with
  | store _ hi hw hmsg => exact h.store hi hw hmsg
  | fail err _ hi hw _ => exact h.fail err hi hw
  | check rg _ hi hw hrun => exact h.check_finish rg hi hw hrun
  | panic => exact ⟨h.key, h.paillier, h.S, h.self, h.collects, h.own_received, h.signals_le, h.all_stored, h.pending⟩
  | receive _ hr hdone => exact h.receive hr hdone
  | phase4 msg _ hr ho => exact h.phase4 msg hr ho

theorem of_run (h : s.Run w) : Inv s w := by
  refine h.invariant (fun w hw => ?_) fun w w' _ hinv hstep => hinv.step hstep
  rw [hw]
  exact start

/-- A goroutine panics only when two others have signalled before it. -/
theorem panic (h : Inv s w) {i : ℕ} (rg : Range ℕ) (hi : i ∈ s.peers) (hw : w.goroutine i = .stored) {err : String}
    (hrun : w.dh.checkPhase2Done rg = .error err) : s.AllVerify ∧ 3 ≤ s.peers.length := by
  obtain ⟨heq, -⟩ | ⟨-, aG, aW, err, heq⟩ | ⟨hverify, -, aG, aW, heq⟩ := h.check rg
  · rw [heq] at hrun
    cases hrun
  · rw [heq] at hrun
    cases hrun
  · refine ⟨hverify, ?_⟩
    rw [heq, DSMHandler.notifyDone] at hrun
    split at hrun
    · have hcount : 2 ≤ w.dh.doneChan.count .phase2 := ‹_›
      have hle := h.signals_le
      have hlt : (s.finishedBy w).length < s.peers.length :=
        List.length_filter_lt_length_iff_exists.mpr ⟨i, hi, by simp [hw]⟩
      rw [signals] at hle
      omega
    · cases hrun

end Inv

/-! ### Runs that signal too often -/

variable {s} {w : Collecting C}

/-- A goroutine that has failed has no answer. -/
theorem answer_of_failed (h : s.Run w) : ∀ i ∈ s.peers, w.goroutine i = .failed → s.answer i = none := by
  refine h.invariant (p := fun w => ∀ i ∈ s.peers, w.goroutine i = .failed → s.answer i = none)
    (fun w hw i _ hf => ?_) fun w w' _ hinv hstep i hi hf => ?_
  · rw [hw] at hf
    exact nomatch hf
  · cases hstep with
    | store | check =>
      refine hinv i hi ?_
      simp only [Function.update_apply] at hf
      split at hf
      · exact nomatch hf
      · exact hf
    | @fail j err _ hj _ hmsg =>
      simp only [Function.update_apply] at hf
      split at hf
      · next heq => exact heq ▸ hmsg
      · exact hinv i hi hf
    | panic | receive | phase4 => exact hinv i hi hf

/-- All answers are stored before the first look at them is over, and no signal has been taken. -/
structure Full (s : Phase2 C) (w : Collecting C) : Prop where
  run : s.Run w
  panicked : w.panicked = false
  received : w.received = false
  all : s.storedBy w = s.peers

namespace Full

variable {i : ℕ}

theorem check (h : Full s w) (hv : s.AllVerify) :
    ∃ aG aW, w.dh.checkPhase2Done (.id ℕ) = (w.dh.setAlpha aG aW).notifyDone .phase2 := by
  have hinv := Inv.of_run h.run
  obtain ⟨-, hown | hne⟩ | ⟨hno, -⟩ | ⟨-, -, hcheck⟩ := hinv.check (.id ℕ)
  · exact absurd (hinv.own_received hown) (by simp [h.received])
  · exact absurd h.all hne
  · exact absurd hv hno
  · exact hcheck

theorem signals_eq (h : Full s w) : signals w = w.dh.doneChan.count .phase2 := by
  rw [signals, h.received]
  rfl

/-- One more goroutine looks and signals. -/
theorem signal (h : Full s w) (hv : s.AllVerify) (hi : i ∈ s.peers) (hw : w.goroutine i = .stored)
    (hlt : signals w < 2) :
    ∃ w', Full s w' ∧ signals w' = signals w + 1 ∧ ∀ j, j ≠ i → w'.goroutine j = w.goroutine j := by
  obtain ⟨aG, aW, hcheck⟩ := h.check hv
  rw [h.signals_eq] at hlt
  have hrun := hcheck.trans (if_neg hlt.not_ge)
  have hstep := Step.check (s := s) (.id ℕ) h.panicked hi hw hrun
  refine ⟨_, ⟨h.run.step hstep, h.panicked, h.received, ?_⟩, ?_, fun j hj => update_iff hj⟩
  · refine Inv.storedBy_eq_iff.mpr fun j hj => ?_
    rcases eq_or_ne j i with rfl | hne
    · exact .inr (Function.update_self ..)
    · simp only [update_iff hne]
      exact Inv.storedBy_eq_iff.mp h.all j hj
  · rw [h.signals_eq, signals, h.received]
    change (Phase.phase2 :: w.dh.doneChan).count .phase2 + 0 = _
    rw [List.count_cons_self]

theorem overflow (h : Full s w) (hv : s.AllVerify) (hi : i ∈ s.peers) (hw : w.goroutine i = .stored)
    (hfull : signals w = 2) : ¬ s.NeverPanics := by
  intro hnever
  obtain ⟨aG, aW, hcheck⟩ := h.check hv
  have hrun := hcheck.trans (if_pos (h.signals_eq.symm.trans hfull).ge)
  exact nomatch hnever _ (h.run.step (.panic (.id ℕ) h.panicked hi hw hrun))

end Full

/-- All goroutines can store before one of them looks. -/
theorem exists_full (hv : s.AllVerify) : ∃ w, Full s w ∧ signals w = 0 ∧ ∀ i ∈ s.peers, w.goroutine i = .stored := by
  have hstore : ∀ l : List ℕ, l.Nodup → l ⊆ s.peers → ∃ w, s.Run w ∧ w.panicked = false ∧ w.received = false ∧
      signals w = 0 ∧ ∀ i, w.goroutine i = if i ∈ l then .stored else .waiting := by
    intro l
    induction l with
    | nil =>
      intro _ _
      refine ⟨_, .init rfl, rfl, rfl, ?_, fun i => rfl⟩
      rw [signals, List.count_eq_zero_of_not_mem s.silent]
      rfl
    | cons i l ih =>
      intro hnd hl
      obtain ⟨hil, hnd⟩ := List.nodup_cons.mp hnd
      obtain ⟨hi, hl⟩ := List.cons_subset.mp hl
      obtain ⟨w, hrun, hp, hr, hsig, hg⟩ := ih hnd hl
      obtain ⟨msg, hmsg, -⟩ := hv i hi
      refine ⟨_, hrun.step (.store hp hi ((hg i).trans (if_neg hil)) hmsg), hp, hr, hsig, fun j => ?_⟩
      rcases eq_or_ne j i with rfl | hj
      · simp
      · simp [hg j, hj]
  obtain ⟨w, hrun, hp, hr, hsig, hg⟩ := hstore s.peers s.nodup (List.Subset.refl _)
  have hall : ∀ i ∈ s.peers, w.goroutine i = .stored := fun i hi => (hg i).trans (if_pos hi)
  exact ⟨w, ⟨hrun, hp, hr, Inv.storedBy_eq_iff.mpr fun i hi => .inl (hall i hi)⟩, hsig, hall⟩

/-- When some answer does not verify, all goroutines can come to an end. -/
theorem exists_ended (hno : ¬ s.AllVerify) : ∃ w, s.Run w ∧ s.Ended w := by
  have hend : ∀ l : List ℕ, l.Nodup → l ⊆ s.peers → ∃ w, s.Run w ∧ w.panicked = false ∧
      (∀ i ∈ l, w.goroutine i = .finished ∨ w.goroutine i = .failed) ∧ ∀ i, i ∉ l → w.goroutine i = .waiting := by
    intro l
    induction l with
    | nil => exact fun _ _ => ⟨_, .init rfl, rfl, fun i hi => absurd hi List.not_mem_nil, fun i _ => rfl⟩
    | cons i l ih =>
      intro hnd hl
      obtain ⟨hil, hnd⟩ := List.nodup_cons.mp hnd
      obtain ⟨hi, hl⟩ := List.cons_subset.mp hl
      obtain ⟨w, hrun, hp, hdone, hwait⟩ := ih hnd hl
      have hend : ∀ w' : Collecting C, s.Run w' → w'.panicked = false →
          (w'.goroutine i = .finished ∨ w'.goroutine i = .failed) →
          (∀ j, j ≠ i → w'.goroutine j = w.goroutine j) → ∃ w, s.Run w ∧ w.panicked = false ∧
          (∀ j ∈ i :: l, w.goroutine j = .finished ∨ w.goroutine j = .failed) ∧
            ∀ j, j ∉ i :: l → w.goroutine j = .waiting := by
        intro w' hrun' hp' hi' hother
        refine ⟨w', hrun', hp', fun j hj => ?_, fun j hj => ?_⟩
        · rcases eq_or_ne j i with rfl | hne
          · exact hi'
          · rw [hother j hne]
            exact hdone j ((List.mem_cons.mp hj).resolve_left hne)
        · obtain ⟨hne, hjl⟩ := not_or.mp (mt List.mem_cons.mpr hj)
          rw [hother j hne]
          exact hwait j hjl
      cases hans : s.answer i with
      | none =>
        exact hend _ (hrun.step (.fail "no response" hp hi (hwait i hil) hans)) hp (.inr (Function.update_self ..))
          fun j hj => update_iff hj
      | some msg =>
        have hstore := hrun.step (.store hp hi (hwait i hil) hans)
        have hinv := Inv.of_run hstore
        cases hcheck :
            (w.dh.setPhase2MessageB (w.dh.signMessage.phase2MessageB.insert i msg)).checkPhase2Done (.id ℕ) with
        | error err => exact absurd (hinv.panic (.id ℕ) hi (Function.update_self ..) hcheck).1 hno
        | ok dh =>
          refine hend _ (hstore.step (.check (.id ℕ) hp hi (Function.update_self ..) hcheck)) hp
            (.inl (Function.update_self ..)) fun j hj => ?_
          simp only [update_iff hj]
  obtain ⟨w, hrun, -, hdone, -⟩ := hend s.peers s.nodup (List.Subset.refl _)
  exact ⟨w, hrun, hdone⟩

theorem neverPanics (h : s.peers.length ≤ 2 ∨ ¬ s.AllVerify) : s.NeverPanics := by
  intro w hrun
  refine hrun.invariant (p := fun w => w.panicked = false) (fun w hw => by rw [hw]) fun w w' hreach hp hstep => ?_
  cases hstep with
  | panic rg _ hi hw hcheck =>
    obtain ⟨hv, hlen⟩ := (Inv.of_run hreach).panic rg hi hw hcheck
    exact absurd hlen (h.elim (by omega) fun hno => absurd hv hno)
  | store | fail | check | receive | phase4 => exact hp

/-- Two peers can both be signalled. -/
theorem two_signals (hv : s.AllVerify) {i j : ℕ} {l : List ℕ} (hpeers : s.peers = i :: j :: l) :
    ∃ w, Full s w ∧ signals w = 2 ∧ ∀ k ∈ l, w.goroutine k = .stored := by
  have hnd := s.nodup
  rw [show s.dh.otherNotaryIDs = i :: j :: l from hpeers, List.nodup_cons, List.nodup_cons,
    List.mem_cons, not_or] at hnd
  have hi : i ∈ s.peers := hpeers ▸ List.mem_cons_self ..
  have hj : j ∈ s.peers := hpeers ▸ List.mem_cons_of_mem _ (List.mem_cons_self ..)
  obtain ⟨w, hfull, hsig, hg⟩ := exists_full hv
  obtain ⟨w1, hfull1, hsig1, hg1⟩ := hfull.signal hv hi (hg i hi) (by omega)
  obtain ⟨w2, hfull2, hsig2, hg2⟩ := hfull1.signal hv hj ((hg1 j (Ne.symm hnd.1.1)).trans (hg j hj)) (by omega)
  refine ⟨w2, hfull2, by omega, fun k hk => ?_⟩
  rw [hg2 k fun h => hnd.2.1 (h ▸ hk), hg1 k fun h => hnd.1.2 (h ▸ hk)]
  exact hg k (hpeers ▸ List.mem_cons_of_mem _ (List.mem_cons_of_mem _ hk))

theorem signalsOnce_iff : s.SignalsOnce ↔ s.peers.length = 1 ∧ s.AllVerify := by
  constructor
  · intro h
    have hv : s.AllVerify := by
      by_contra hno
      obtain ⟨w, hrun, hend⟩ := exists_ended hno
      have hone := (h w hrun).2.2 hend
      exact hno ((Inv.of_run hrun).all_stored (by omega)).1
    refine ⟨?_, hv⟩
    match hpeers : s.peers with
    | [] =>
      have hone := (h _ (.init rfl)).2.2 fun i hi => absurd (hpeers ▸ hi) List.not_mem_nil
      rw [signals, List.count_eq_zero_of_not_mem s.silent] at hone
      exact nomatch hone
    | [i] => rfl
    | i :: j :: l =>
      obtain ⟨w, hfull, hsig, -⟩ := two_signals hv hpeers
      have hle := (h w hfull.run).2.1
      omega
  · rintro ⟨hlen, hv⟩ w hrun
    have hinv := Inv.of_run hrun
    have hle : (s.finishedBy w).length ≤ s.peers.length := List.length_filter_le ..
    have hsig := hinv.signals_le
    refine ⟨neverPanics (.inl (by omega)) w hrun, by omega, fun hend => ?_⟩
    have hfinished : ∀ i ∈ s.peers, w.goroutine i = .finished := fun i hi => (hend i hi).resolve_right fun hf => by
      obtain ⟨msg, hmsg, -⟩ := hv i hi
      rw [answer_of_failed hrun i hi hf] at hmsg
      exact nomatch hmsg
    have hall : s.storedBy w = s.peers := Inv.storedBy_eq_iff.mpr fun i hi => .inr (hfinished i hi)
    obtain hpos | ⟨i, hi, hs⟩ := hinv.pending hall hv (fun h0 => by rw [h0] at hlen; exact nomatch hlen)
    · omega
    · rw [hfinished i hi] at hs
      exact nomatch hs

theorem neverPanics_iff : s.NeverPanics ↔ s.peers.length ≤ 2 ∨ ¬ s.AllVerify := by
  refine ⟨fun h => ?_, neverPanics⟩
  rw [or_iff_not_imp_right, not_not]
  intro hv
  match hpeers : s.peers with
  | [] | [_] | [_, _] => simp
  | i :: j :: k :: l =>
    obtain ⟨w, hfull, hsig, hg⟩ := two_signals hv hpeers
    have hk : k ∈ s.peers := hpeers ▸ List.mem_cons_of_mem _ (List.mem_cons_of_mem _ (List.mem_cons_self ..))
    exact absurd h (hfull.overflow hv hk (hg k (List.mem_cons_self ..)) hsig)

/-- The completion of phase 2 is signalled exactly once, whatever the schedule, for a single peer alone whose answer
verifies, and the channel cannot overflow for two at most, or when no signal is given at all. -/
theorem completion_iff (s : Phase2 C) : (s.SignalsOnce ↔ s.peers.length = 1 ∧ s.AllVerify) ∧
    (s.NeverPanics ↔ s.peers.length ≤ 2 ∨ ¬ s.AllVerify) := ⟨signalsOnce_iff, neverPanics_iff⟩

end Phase2

section Example

/-- An answer for the key two and the blinding keys two and one: two times two and one are five. -/
def answer5 : MessageB curve5 where
  c := 1 + 5 * 143
  bProof := Proofs.prove 2 1
  betaTagProof := Proofs.prove 1 2
  beta := 6

/-- A notary with `n` peers that all give the same answer. -/
def exchange5 (n : ℕ) : Phase2 curve5 where
  dh := {
    selfNotaryID := 0
    otherNotaryIDs := List.range' 1 n
    xi := 1
    paillierPubKeys := ∅
    paillierPrivateKey := Paillier.newPrivateKey 11 13
    publicKey := 0
    vss := { threshold := 1, shareCount := n+1, commitments := [] }
    signMessage := {
      message := 78
      S := List.range' 1 n ++ [0]
      signedKey := some { wi := 1, gwi := none, ki := 2, gammaI := 1, gGammaI := none } } }
  key := { wi := 1, gwi := none, ki := 2, gammaI := 1, gGammaI := none }
  answer := fun _ => some { messageBGamma := answer5, messageBWi := some answer5 }
  signedKey := rfl
  nodup := List.nodup_range'
  self := by simp
  S := rfl
  stored := rfl
  silent := by simp
  complete := by
    intro i msg h
    obtain rfl := Option.some.inj h
    rfl

theorem allVerify_exchange5 (n : ℕ) : (exchange5 n).AllVerify := by
  intro i _
  have hverify : verifyProofsGetAlpha answer5 (Paillier.newPrivateKey 11 13) 2 = .ok 5 := by decide +kernel
  exact ⟨_, rfl, answer5, 5, 5, rfl, hverify, hverify⟩

/-- Two peers can be signalled twice, and three can make the last goroutine panic. -/
theorem not_signalsOnce_exchange5 : ¬ (exchange5 2).SignalsOnce ∧ ¬ (exchange5 3).NeverPanics := by
  refine ⟨fun h => ?_, fun h => ?_⟩
  · exact absurd (Phase2.signalsOnce_iff.mp h).1 (by decide)
  · exact (Phase2.neverPanics_iff.mp h).elim (by decide) fun hno => hno (allVerify_exchange5 3)

end Example

end DistributedNotary.Mecdsa
