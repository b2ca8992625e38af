import DistributedNotary.Library.Checks
import DistributedNotary.Library.Gates
import DistributedNotary.Mecdsa.EndToEnd
import DistributedNotary.Mecdsa.MainLoop

/-! What the phases of a signing session wait for. Every handler keeps at most one
message and compares the number of senders with the number of signers, so the
phases are gates that count; who the senders are is not looked at. -/
namespace DistributedNotary.Mecdsa

open Library Share

variable {C : Curve}

/-- What a session signs, with whom and under which keys. -/
structure Terms (C : Curve) where
  selfNotaryID : ℕ
  otherNotaryIDs : List ℕ
  message : ℕ
  S : List ℕ
  signedKey : Option (SignedKey C)

/-- The number of senders with which a phase is complete. -/
def Terms.quota (t : Terms C) : Phase → ℕ
  | .phase2 => t.S.length - 1
  | _ => t.S.length

namespace DSMHandler

def terms (dh : DSMHandler C) : Terms C where
  selfNotaryID := dh.selfNotaryID
  otherNotaryIDs := dh.otherNotaryIDs
  message := dh.signMessage.message
  S := dh.signMessage.S
  signedKey := dh.signMessage.signedKey

/-- The senders whose message for a phase is kept. -/
def senders (dh : DSMHandler C) : Phase → Finset ℕ
  | .phase1 => dh.signMessage.phase1BroadCast.keys.toFinset
  | .phase2 => dh.signMessage.phase2MessageB.keys.toFinset
  | .phase3 => dh.signMessage.delta.keys.toFinset
  | .phase5A5B => dh.signMessage.phase5A.keys.toFinset
  | .phase5C => dh.signMessage.phase5C.keys.toFinset
  | .phase6 => dh.signMessage.phase5D.keys.toFinset

/-- The answer of phase 2 carries both parts, and both decrypt to what its proofs are about. -/
def Accepts (dh : DSMHandler C) (msg : MessageBPhase2 C) : Prop :=
  ∃ k mbw alphaGamma alphaWi, dh.signMessage.signedKey = some k ∧ msg.messageBWi = some mbw ∧
    verifyProofsGetAlpha msg.messageBGamma dh.paillierPrivateKey k.ki = .ok alphaGamma ∧
    verifyProofsGetAlpha mbw dh.paillierPrivateKey k.ki = .ok alphaWi

/-- The check of a phase accepts the messages that are there, in whatever order it visits them. -/
def Passes (eth : Ethereum C) (dh : DSMHandler C) : Phase → Prop
  | .phase2 => ∀ i msg, dh.signMessage.phase2MessageB.lookup i = some msg → dh.Accepts msg
  | .phase5A5B => ∀ rg, verifyPhase5A dh.signMessage.R (dh.signMessage.phase5A.range rg) = .ok true
  | .phase6 => ∀ rg ls R, dh.signMessage.localSignature = some ls → dh.signMessage.R = some R →
      ∃ signature, verifySignature eth (dh.sumSI rg ls) R ls.Y ls.M = .ok (some signature)
  | _ => True

/-- As many messages of the phase are there as it counts. -/
def Full (dh : DSMHandler C) (p : Phase) : Prop := (dh.senders p).card = dh.terms.quota p

/-- What does not touch the gates. -/
structure Unmoved (dh dh' : DSMHandler C) : Prop where
  terms : dh'.terms = dh.terms
  senders : dh'.senders = dh.senders
  doneChan : dh'.doneChan = dh.doneChan

/-- The own answer joins those of phase 2 without a count. -/
structure Answered (dh dh' : DSMHandler C) : Prop where
  terms : dh'.terms = dh.terms
  senders : dh'.senders = Function.update dh.senders .phase2 (insert dh.selfNotaryID (dh.senders .phase2))
  doneChan : dh'.doneChan = dh.doneChan

/-- The count of a phase: the phase is signalled if it is full and its check passes, and not before it is full. -/
structure Counted (eth : Ethereum C) (p : Phase) (dh dh' : DSMHandler C) : Prop where
  terms : dh'.terms = dh.terms
  senders : dh'.senders = dh.senders
  below : ¬ dh.Full p → dh'.doneChan = dh.doneChan
  full : dh.Full p → dh'.Passes eth p → dh'.doneChan = p :: dh.doneChan

/-- A message of `j` that is kept for a phase, and the count after it. -/
structure Stored (eth : Ethereum C) (p : Phase) (j : ℕ) (dh dh' : DSMHandler C) : Prop where
  terms : dh'.terms = dh.terms
  senders : dh'.senders = Function.update dh.senders p (insert j (dh.senders p))
  below : ¬ dh'.Full p → dh'.doneChan = dh.doneChan
  full : dh'.Full p → dh'.Passes eth p → dh'.doneChan = p :: dh.doneChan

section Counts

variable {eth : Ethereum C} {dh dh' dh'' : DSMHandler C} {p : Phase} {j : ℕ}

theorem Unmoved.refl (dh : DSMHandler C) : Unmoved dh dh := ⟨rfl, rfl, rfl⟩

theorem Unmoved.stored (h : Unmoved dh dh') (hs : Stored eth p j dh' dh'') : Stored eth p j dh dh'' where
  terms := hs.terms.trans h.terms
  senders := by rw [hs.senders, h.senders]
  below := by
    rw [← h.doneChan]
    exact hs.below
  full := by
    rw [← h.doneChan]
    exact hs.full

theorem unmoved_notifyError (dh : DSMHandler C) (err : String) : Unmoved dh (dh.notifyError err) := ⟨rfl, rfl, rfl⟩

theorem notifyDone_eq_ok {c : Phase} (h : dh.notifyDone c = .ok dh') :
    dh' = { dh with doneChan := c :: dh.doneChan } := by
  unfold notifyDone at h
  split at h
  · cases h
  · exact (Except.ok.inj h).symm

theorem card_keys {ν : Type} (m : RangeMap ℕ ν) : m.keys.toFinset.card = m.len :=
  List.toFinset_card_of_nodup m.keys_nodup

theorem counted_below (h : ¬ dh.Full p) : Counted eth p dh dh :=
  ⟨rfl, rfl, fun _ => rfl, fun hf => absurd hf h⟩

theorem counted_notifyDone (h : dh.Full p) (hd : dh.notifyDone p = .ok dh') : Counted eth p dh dh' := by
  obtain rfl := notifyDone_eq_ok hd
  exact ⟨rfl, rfl, fun hb => absurd h hb, fun _ _ => rfl⟩

theorem counted_notifyError (h : dh.Full p) (err : String) (hp : ¬ dh.Passes eth p) :
    Counted eth p dh (dh.notifyError err) := by
  refine ⟨rfl, rfl, fun hb => absurd h hb, fun _ hpass => absurd ?_ hp⟩
  cases p <;> exact hpass

theorem counted_checkPhase1Done (h : dh.checkPhase1Done = .ok dh') : Counted eth .phase1 dh dh' := by
  unfold checkPhase1Done at h
  rw [← card_keys] at h
  split at h
  · next hlen => exact counted_notifyDone hlen h
  · next hlen => exact Except.ok.inj h ▸ counted_below hlen

theorem counted_checkPhase3Done (h : dh.checkPhase3Done = .ok dh') : Counted eth .phase3 dh dh' := by
  unfold checkPhase3Done at h
  rw [← card_keys] at h
  split at h
  · next hlen => exact counted_notifyDone hlen h
  · next hlen => exact Except.ok.inj h ▸ counted_below hlen

theorem counted_checkPhase5CDone (h : dh.checkPhase5CDone = .ok dh') : Counted eth .phase5C dh dh' := by
  unfold checkPhase5CDone at h
  rw [← card_keys] at h
  split at h
  · next hlen => exact counted_notifyDone hlen h
  · next hlen => exact Except.ok.inj h ▸ counted_below hlen

/-- The loop over the answers writes what it decrypts, and ends in a signal if it accepts all of them. -/
theorem collectAlpha_eq_ok (l : List (ℕ × MessageBPhase2 C)) (h : dh.collectAlpha l = .ok dh') :
    ∃ alphaGamma alphaWI doneChan quitChan,
      dh' = { dh.setAlpha alphaGamma alphaWI with doneChan := doneChan, quitChan := quitChan } ∧
        ((∀ x ∈ l, dh.Accepts x.2) → doneChan = .phase2 :: dh.doneChan) := by
  induction l generalizing dh with
  | nil => exact ⟨dh.signMessage.alphaGamma, dh.signMessage.alphaWI, _, dh.quitChan, notifyDone_eq_ok h, fun _ => rfl⟩
  | cons a l ih =>
    obtain ⟨index, msg⟩ := a
    rw [collectAlpha] at h
    obtain ⟨k, hk, h⟩ := bind_eq_ok.mp h
    have hkey := deref_eq_ok.mp hk
    split at h
    · next err hgamma =>
      refine ⟨dh.signMessage.alphaGamma, dh.signMessage.alphaWI, _, _, (Except.ok.inj h).symm, fun hall => ?_⟩
      obtain ⟨k', mbw, aG, aW, hkey', -, hG, -⟩ := hall _ List.mem_cons_self
      rw [hkey] at hkey'
      rw [Option.some.inj hkey', hG] at hgamma
      cases hgamma
    · next alphaijGamma _ =>
      obtain ⟨mbw, hmbw, h⟩ := bind_eq_ok.mp h
      have hwi := deref_eq_ok.mp hmbw
      split at h
      · next err hwi' =>
        refine ⟨dh.signMessage.alphaGamma, dh.signMessage.alphaWI, _, _, (Except.ok.inj h).symm, fun hall => ?_⟩
        obtain ⟨k', mbw', aG, aW, hkey', hmbw', -, hW⟩ := hall _ List.mem_cons_self
        rw [hkey] at hkey'
        rw [hwi] at hmbw'
        rw [Option.some.inj hkey', Option.some.inj hmbw', hW] at hwi'
        cases hwi'
      · obtain ⟨alphaGamma, alphaWI, doneChan, quitChan, heq, hdone⟩ := ih h
        exact ⟨alphaGamma, alphaWI, doneChan, quitChan, heq, fun hall => hdone fun x hx => hall x (.tail _ hx)⟩

theorem counted_checkPhase2Done {rg : Range ℕ} (h : dh.checkPhase2Done rg = .ok dh') :
    Counted eth .phase2 dh dh' := by
  unfold checkPhase2Done at h
  rw [← card_keys] at h
  split at h
  · next hlen =>
    obtain ⟨alphaGamma, alphaWI, doneChan, quitChan, rfl, hdone⟩ := collectAlpha_eq_ok _ h
    refine ⟨rfl, rfl, fun hb => absurd hlen hb, fun _ hpass => hdone fun x hx => ?_⟩
    exact hpass x.1 x.2 (RangeMap.mem_range.mp hx)
  · next hlen => exact Except.ok.inj h ▸ counted_below hlen

theorem counted_checkPhase5A5BDone {rg : Range ℕ} (h : dh.checkPhase5A5BDone rg = .ok dh') :
    Counted eth .phase5A5B dh dh' := by
  unfold checkPhase5A5BDone at h
  rw [← card_keys] at h
  split at h
  · next hlen =>
    obtain ⟨valid, hvalid, h⟩ := bind_eq_ok.mp h
    split at h
    · exact counted_notifyDone hlen h
    · next hfalse =>
      rw [← pure_eq_ok.mp h]
      refine counted_notifyError (p := .phase5A5B) hlen _ fun hpass => hfalse ?_
      rw [hpass rg] at hvalid
      exact (Except.ok.inj hvalid).symm
  · next hlen => exact Except.ok.inj h ▸ counted_below hlen

theorem counted_checkPhase6Done {rg : Range ℕ} (h : dh.checkPhase6Done eth rg = .ok dh') :
    Counted eth .phase6 dh dh' := by
  unfold checkPhase6Done at h
  rw [← card_keys] at h
  split at h
  · next hlen =>
    obtain ⟨ls, hls, h⟩ := bind_eq_ok.mp h
    obtain ⟨R, hR, h⟩ := bind_eq_ok.mp h
    obtain ⟨sig, hsig, h⟩ := bind_eq_ok.mp h
    cases sig with
    | none =>
      rw [← pure_eq_ok.mp h]
      refine counted_notifyError (p := .phase6) hlen _ fun hpass => ?_
      obtain ⟨signature, hsignature⟩ := hpass rg ls R (deref_eq_ok.mp hls) (deref_eq_ok.mp hR)
      rw [hsignature] at hsig
      cases hsig
    | some signature => exact counted_notifyDone hlen h
  · next hlen => exact Except.ok.inj h ▸ counted_below hlen

end Counts

section Slots

variable {eth : Ethereum C} {dh dh' : DSMHandler C} {p : Phase} {j : ℕ}

/-- The map that keeps the messages of a phase. -/
structure Slot {ν : Type} (p : Phase) (get : DSMHandler C → RangeMap ℕ ν)
    (set : DSMHandler C → RangeMap ℕ ν → DSMHandler C) : Prop where
  get : ∀ dh, dh.senders p = (get dh).keys.toFinset
  terms : ∀ dh m, (set dh m).terms = dh.terms
  senders : ∀ dh m, (set dh m).senders = Function.update dh.senders p m.keys.toFinset
  doneChan : ∀ dh m, (set dh m).doneChan = dh.doneChan

theorem toFinset_keys_insert {ν : Type} (m : RangeMap ℕ ν) (j : ℕ) (v : ν) :
    (m.insert j v).keys.toFinset = insert j m.keys.toFinset := by
  ext k
  rw [List.mem_toFinset, ← AList.mem_keys, AList.mem_insert, Finset.mem_insert, List.mem_toFinset, AList.mem_keys]

theorem Slot.stored {ν : Type} {get : DSMHandler C → RangeMap ℕ ν} {set : DSMHandler C → RangeMap ℕ ν → DSMHandler C}
    (hslot : Slot p get set) (v : ν) (h : Counted eth p (set dh ((get dh).insert j v)) dh') :
    Stored eth p j dh dh' := by
  have hsenders : (set dh ((get dh).insert j v)).senders =
      Function.update dh.senders p (insert j (dh.senders p)) := by
    rw [hslot.senders, toFinset_keys_insert, ← hslot.get]
  have hfull : dh'.Full p ↔ (set dh ((get dh).insert j v)).Full p := by
    unfold Full
    rw [h.senders, h.terms]
  refine ⟨h.terms.trans (hslot.terms _ _), h.senders.trans hsenders, ?_, ?_⟩
  · rw [hfull, ← hslot.doneChan dh]
    exact h.below
  · rw [hfull, ← hslot.doneChan dh]
    exact h.full

theorem Slot.receiveOnce_cases {ν : Type} {get : DSMHandler C → RangeMap ℕ ν}
    {set : DSMHandler C → RangeMap ℕ ν → DSMHandler C} {check : DSMHandler C → Except String (DSMHandler C)}
    {exist : String} {msg : ν} (hslot : Slot p get set)
    (hcheck : ∀ dh dh' : DSMHandler C, check dh = .ok dh' → Counted eth p dh dh')
    (h : receiveOnce get set check exist dh msg j = .ok dh') :
    j ∈ dh.senders p ∧ Unmoved dh dh' ∨ j ∉ dh.senders p ∧ Stored eth p j dh dh' := by
  have hmem : ((get dh).lookup j).isSome ↔ j ∈ dh.senders p := by
    rw [AList.lookup_isSome, AList.mem_keys, hslot.get, List.mem_toFinset]
  unfold receiveOnce at h
  split at h
  · next hj =>
    rw [← Except.ok.inj h]
    exact .inl ⟨hmem.mp hj, unmoved_notifyError dh exist⟩
  · next hj => exact .inr ⟨fun hmem' => hj (hmem.mpr hmem'), hslot.stored msg (hcheck _ _ h)⟩

theorem slot1 : Slot (C := C) .phase1 (·.signMessage.phase1BroadCast) setPhase1BroadCast :=
  ⟨fun _ => rfl, fun _ _ => rfl, fun _ _ => funext fun q => by cases q <;> rfl, fun _ _ => rfl⟩

theorem slot2 : Slot (C := C) .phase2 (·.signMessage.phase2MessageB) setPhase2MessageB :=
  ⟨fun _ => rfl, fun _ _ => rfl, fun _ _ => funext fun q => by cases q <;> rfl, fun _ _ => rfl⟩

theorem slot3 : Slot (C := C) .phase3 (·.signMessage.delta) setDelta :=
  ⟨fun _ => rfl, fun _ _ => rfl, fun _ _ => funext fun q => by cases q <;> rfl, fun _ _ => rfl⟩

theorem slot5A : Slot (C := C) .phase5A5B (·.signMessage.phase5A) setPhase5A :=
  ⟨fun _ => rfl, fun _ _ => rfl, fun _ _ => funext fun q => by cases q <;> rfl, fun _ _ => rfl⟩

theorem slot5C : Slot (C := C) .phase5C (·.signMessage.phase5C) setPhase5C :=
  ⟨fun _ => rfl, fun _ _ => rfl, fun _ _ => funext fun q => by cases q <;> rfl, fun _ _ => rfl⟩

theorem slot5D : Slot (C := C) .phase6 (·.signMessage.phase5D) setPhase5D :=
  ⟨fun _ => rfl, fun _ _ => rfl, fun _ _ => funext fun q => by cases q <;> rfl, fun _ _ => rfl⟩

end Slots

section Messages

variable {eth : Ethereum C} {dh dh' : DSMHandler C}

theorem generatePhase1Broadcast_stored {blindFactor : ℕ} {r : DSMHandler C × SignBroadcastPhase1}
    (h : dh.generatePhase1Broadcast blindFactor = .ok r) : Stored eth .phase1 dh.selfNotaryID dh r.1 := by
  obtain ⟨k, -, h⟩ := bind_eq_ok.mp h
  obtain ⟨dh', hcheck, h⟩ := bind_eq_ok.mp h
  rw [← pure_eq_ok.mp h]
  exact slot1.stored _ (counted_checkPhase1Done hcheck)

theorem generatePhase2MessageA_unmoved {nonce : ℕ} {r : DSMHandler C × MessageA}
    (h : dh.generatePhase2MessageA nonce = .ok r) : Unmoved dh r.1 := by
  obtain ⟨k, -, h⟩ := bind_eq_ok.mp h
  obtain ⟨ma, -, h⟩ := bind_eq_ok.mp h
  rw [← pure_eq_ok.mp h]
  exact ⟨rfl, rfl, rfl⟩

theorem generatePhase3DeltaI_stored {r : DSMHandler C × SPrivKey} (h : dh.generatePhase3DeltaI = .ok r) :
    Stored eth .phase3 dh.selfNotaryID dh r.1 := by
  obtain ⟨deltaI, -, h⟩ := bind_eq_ok.mp h
  obtain ⟨sigmaI, -, h⟩ := bind_eq_ok.mp h
  obtain ⟨dh', hcheck, h⟩ := bind_eq_ok.mp h
  rw [← pure_eq_ok.mp h]
  have hsigma : Unmoved dh (dh.setSigma sigmaI) := ⟨rfl, rfl, rfl⟩
  exact hsigma.stored (slot3.stored _ (counted_checkPhase3Done hcheck))

theorem generatePhase4R_answered {rg rg' rg'' : Range ℕ} {coins : MtACoins C}
    (h : dh.generatePhase4R rg rg' rg'' coins = .ok dh') : Answered dh dh' := by
  obtain ⟨k, -, h⟩ := bind_eq_ok.mp h
  obtain ⟨ma, -, h⟩ := bind_eq_ok.mp h
  obtain ⟨mgGamma, -, h⟩ := bind_eq_ok.mp h
  obtain ⟨R, -, h⟩ := bind_eq_ok.mp h
  have hown : ∀ mb : MessageBPhase2 C,
      (dh.setPhase2MessageB (dh.signMessage.phase2MessageB.insert dh.selfNotaryID mb)).senders =
        Function.update dh.senders .phase2 (insert dh.selfNotaryID (dh.senders .phase2)) := by
    intro mb
    rw [slot2.senders, toFinset_keys_insert]
    rfl
  cases R with
  | none =>
    rw [← pure_eq_ok.mp h]
    exact ⟨rfl, hown _, rfl⟩
  | some R =>
    rw [← pure_eq_ok.mp h]
    exact ⟨rfl, hown _, rfl⟩

theorem generatePhase5a5bZkProof_stored {rg : Range ℕ} {coins : Phase5ACoins C} {r : DSMHandler C × Phase5A C}
    (h : dh.generatePhase5a5bZkProof rg coins = .ok r) : Stored eth .phase5A5B dh.selfNotaryID dh r.1 := by
  obtain ⟨k, -, h⟩ := bind_eq_ok.mp h
  obtain ⟨R, -, h⟩ := bind_eq_ok.mp h
  obtain ⟨msg, -, h⟩ := bind_eq_ok.mp h
  obtain ⟨dh', hcheck, h⟩ := bind_eq_ok.mp h
  rw [← pure_eq_ok.mp h]
  have hlocal : ∀ ls : LocalSignature C, Unmoved dh (dh.setLocalSignature ls) := fun _ => ⟨rfl, rfl, rfl⟩
  exact (hlocal _).stored (slot5A.stored _ (counted_checkPhase5A5BDone hcheck))

theorem generatePhase5CProof_stored {rg : Range ℕ} {blindFactor : ℕ} {r : DSMHandler C × Phase5C C}
    (h : dh.generatePhase5CProof rg blindFactor = .ok r) : Stored eth .phase5C dh.selfNotaryID dh r.1 := by
  unfold generatePhase5CProof at h
  split at h
  · cases h
  obtain ⟨ls, -, h⟩ := bind_eq_ok.mp h
  obtain ⟨own, -, h⟩ := bind_eq_ok.mp h
  obtain ⟨msg, -, h⟩ := bind_eq_ok.mp h
  obtain ⟨dh', hcheck, h⟩ := bind_eq_ok.mp h
  rw [← pure_eq_ok.mp h]
  exact slot5C.stored _ (counted_checkPhase5CDone hcheck)

theorem generate5dProof_cases {rg rg' : Range ℕ} {r : DSMHandler C × SPrivKey}
    (h : dh.generate5dProof eth rg rg' = .ok r) : Unmoved dh r.1 ∨ Stored eth .phase6 dh.selfNotaryID dh r.1 := by
  obtain ⟨opened, -, h⟩ := bind_eq_ok.mp h
  obtain ⟨si, -, h⟩ := bind_eq_ok.mp h
  cases si with
  | none =>
    rw [← pure_eq_ok.mp h]
    exact .inl (unmoved_notifyError dh _)
  | some si =>
    obtain ⟨dh', hcheck, h⟩ := bind_eq_ok.mp h
    rw [← pure_eq_ok.mp h]
    exact .inr (slot5D.stored _ (counted_checkPhase6Done hcheck))

end Messages

end DSMHandler

/-- The phase that keeps a request, if one does. -/
def DSMRequest.keptFor : DSMRequest C → Option Phase
  | .phase1Broadcast _ => some .phase1
  | .phase2MessageA .. => none
  | .phase3DeltaI _ => some .phase3
  | .phase5A5BProof _ => some .phase5A5B
  | .phase5CProof _ => some .phase5C
  | .phase6ReceiveSI _ => some .phase6

/-- A message of phase 5C opens its own commitment; of the others nothing is asked when they come. -/
def DSMRequest.Opens : DSMRequest C → Prop
  | .phase5CProof msg => Proofs.createCommitmentWithUserDefinedRandomNess
      (Proofs.createHashFromGE [msg.decom.uI, msg.decom.ti]) msg.decom.blindFactor = msg.com
  | _ => True

namespace DSMHandler

variable {eth : Ethereum C} {dh dh' : DSMHandler C} {j : ℕ} {rg : Range ℕ}

/-- A request is answered, kept or refused; refused is what does not open and what is there already. -/
theorem onRequest_cases {req : DSMRequest C} (h : dh.onRequest eth rg j req = .ok dh') :
    req.keptFor = none ∧ dh' = dh ∨ ∃ p, req.keptFor = some p ∧
      ((req.Opens → j ∈ dh.senders p) ∧ Unmoved dh dh' ∨ req.Opens ∧ j ∉ dh.senders p ∧ Stored eth p j dh dh') := by
  have hplain : ∀ {p : Phase}, req.keptFor = some p → req.Opens →
      (j ∈ dh.senders p ∧ Unmoved dh dh' ∨ j ∉ dh.senders p ∧ Stored eth p j dh dh') →
      ∃ p, req.keptFor = some p ∧
        ((req.Opens → j ∈ dh.senders p) ∧ Unmoved dh dh' ∨ req.Opens ∧ j ∉ dh.senders p ∧ Stored eth p j dh dh') := by
    intro p hp hopens hcases
    refine ⟨p, hp, hcases.imp (fun hr => ⟨fun _ => hr.1, hr.2⟩) fun hs => ⟨hopens, hs⟩⟩
  cases req with
  | phase1Broadcast msg =>
    exact .inr (hplain rfl trivial (slot1.receiveOnce_cases (fun _ _ => counted_checkPhase1Done) h))
  | phase2MessageA msg coinsGamma coinsWi =>
    obtain ⟨mb, -, h⟩ := bind_eq_ok.mp h
    exact .inl ⟨rfl, (pure_eq_ok.mp h).symm⟩
  | phase3DeltaI msg =>
    exact .inr (hplain rfl trivial (slot3.receiveOnce_cases (fun _ _ => counted_checkPhase3Done) h))
  | phase5A5BProof msg =>
    exact .inr (hplain rfl trivial (slot5A.receiveOnce_cases (fun _ _ => counted_checkPhase5A5BDone) h))
  | phase5CProof msg =>
    simp only [onRequest, receivePhase5cProof] at h
    split at h
    · next hcom =>
      rw [← Except.ok.inj h]
      exact .inr ⟨.phase5C, rfl, .inl ⟨fun ho => absurd ho hcom, unmoved_notifyError dh _⟩⟩
    · next hcom =>
      exact .inr (hplain rfl (not_not.mp hcom) (slot5C.receiveOnce_cases (fun _ _ => counted_checkPhase5CDone) h))
  | phase6ReceiveSI msg =>
    exact .inr (hplain rfl trivial (slot5D.receiveOnce_cases (fun _ _ => counted_checkPhase6Done) h))

theorem onAnswer_cases (eth : Ethereum C) {msg : MessageBPhase2 C} (h : dh.onAnswer rg j msg = .ok dh') :
    msg.messageBWi = none ∧ Unmoved dh dh' ∨ msg.messageBWi.isSome ∧ Stored eth .phase2 j dh dh' := by
  unfold onAnswer at h
  split at h
  · next hnone =>
    rw [← Except.ok.inj h]
    exact .inl ⟨Option.isNone_iff_eq_none.mp hnone, unmoved_notifyError dh _⟩
  · next hsome =>
    refine .inr ⟨by simpa [Option.isSome_iff_ne_none] using hsome, ?_⟩
    exact slot2.stored msg (counted_checkPhase2Done h)

end DSMHandler

end DistributedNotary.Mecdsa
