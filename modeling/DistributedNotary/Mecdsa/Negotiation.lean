import DistributedNotary.Mecdsa.KeyGeneration

/-! All notaries of a negotiation. Those that are not malicious run the handler;
a message that one of them has sent arrives once, at any later time, and a
malicious notary sends whatever it likes, to each of the others something else.
Only steps are considered in which every check accepts. -/
namespace DistributedNotary.Mecdsa

open Library Share Feldman Proofs

/-- What `n` notaries draw for the negotiation of a key with threshold `t`. -/
structure Dealers (C : Curve) where
  n : ℕ
  t : ℕ
  t_lt : t < n
  n_lt : n < C.N
  ui : ℕ → RandomPrivateKey C.N
  /-- The coefficients that `SamplePolynomial` draws after the constant one. -/
  coefs : ℕ → List (RandomPrivateKey C.N)
  coefs_length : ∀ j, (coefs j).length = t
  proofNonce : ℕ → RandomPrivateKey C.N
  blindFactor : ℕ → ℕ

namespace Dealers

variable {C : Curve} (s : Dealers C)

def tail (j : ℕ) : List SPrivKey := (s.coefs j).map Subtype.val

def poly (j : ℕ) : List SPrivKey := (s.ui j : ℕ) :: s.tail j

def vss (j : ℕ) : VerifiableSS C := (share C s.t s.n (s.poly j)).1

/-- The share of notary `i` in the secret of `j`. -/
def dealt (j i : ℕ) : SPrivKey := (share C s.t s.n (s.poly j)).2.getD i 0

def message1 (j : ℕ) : DLogProof C := prove (s.ui j) (s.proofNonce j)

def message2 (j : ℕ) : KeyGenBroadcastMessage2 where
  com := createCommitmentWithUserDefinedRandomNess (C.X (scalarBaseMult C (s.ui j))) (s.blindFactor j)
  blindFactor := s.blindFactor j
  correctKey := true

def message3 (j i : ℕ) : KeyGenBroadcastMessage3 C where
  vss := s.vss j
  secretShare := s.dealt j i

/-- What `j` sends to `i`. -/
def message (j : ℕ) (k : KeyGenPhase) (i : ℕ) : KeyGenMessage C :=
  match k with
  | .phase1 => .phase1 (s.message1 j)
  | .phase2 => .phase2 (s.message2 j)
  | .phase3 => .phase3 (s.message3 j i)

/-- The notaries other than `i`. -/
def others (i : ℕ) : List ℕ := (List.range s.n).filter (· ≠ i)

variable {s}

theorem mem_others {i j : ℕ} : j ∈ s.others i ↔ j < s.n ∧ j ≠ i := by simp [others]

theorem length_others {i : ℕ} (hi : i < s.n) : (s.others i).length + 1 = s.n := by
  have h : s.others i = (List.range s.n).erase i := by
    rw [others, List.nodup_range.erase_eq_filter]
    exact List.filter_congr fun j _ => by simp [bne, BEq.beq]
  rw [h, List.length_erase_of_mem (List.mem_range.mpr hi), List.length_range]
  omega

end Dealers

def KeyGenMessage.phase {C : Curve} : KeyGenMessage C → KeyGenPhase
  | .phase1 _ => .phase1
  | .phase2 _ => .phase2
  | .phase3 _ => .phase3

/-- The stage from which on a notary has sent the message of a phase. -/
def KeyGenPhase.sentAt : KeyGenPhase → ℕ
  | .phase1 => 0
  | .phase2 => 1
  | .phase3 => 2

/-- The notaries of a negotiation; `stage` counts the phases whose end a notary has waited for, and `arrived`
says which of the messages that were `sent` to it have arrived. -/
structure Negotiation (C : Curve) where
  handler : ℕ → PKNHandler C
  stage : ℕ → ℕ
  sent : ℕ → KeyGenPhase → ℕ → Option (KeyGenMessage C)
  arrived : ℕ → KeyGenPhase → ℕ → Bool

namespace Negotiation

variable {C : Curve} (s : Dealers C)

/-- Every notary has created its handler, and has sent the message of the first phase. -/
def start : Negotiation C where
  handler i := { selfNotaryID := i, ui := s.ui i }
  stage _ := 0
  sent i k _ := if k = .phase1 then some (.phase1 (s.message1 i)) else none
  arrived _ _ _ := false

/-- The message of phase `k` from `j` has arrived as well. -/
def mark (k : KeyGenPhase) (j : ℕ) (arrived : KeyGenPhase → ℕ → Bool) : KeyGenPhase → ℕ → Bool := fun k' j' =>
  if k' = k ∧ j' = j then true else arrived k' j'

variable (w : Negotiation C)

def send (i : ℕ) (k : KeyGenPhase) (msg : ℕ → Option (KeyGenMessage C)) :
    ℕ → KeyGenPhase → ℕ → Option (KeyGenMessage C) :=
  Function.update w.sent i (Function.update (w.sent i) k msg)

/-- The handler of `i` when `waitPhaseDone` has taken the signal. -/
def taken (i : ℕ) (k : KeyGenPhase) : PKNHandler C :=
  { w.handler i with doneChan := (w.handler i).doneChan.erase k }

/-- One step of a notary that is not in `bad`, without a panic and without an error; `offers j i` are the messages
that a malicious `j` may send to `i`. -/
inductive Step (bad : Finset ℕ) (offers : ℕ → ℕ → KeyGenMessage C → Prop) : Negotiation C → Negotiation C → Prop
  | deliver {w : Negotiation C} {j i : ℕ} {msg : KeyGenMessage C} {ph : PKNHandler C} (rg : Range ℕ) (hj : j < s.n)
    (hi : i < s.n) (hji : j ≠ i) (hgood : i ∉ bad) (hbad : j ∈ bad → offers j i msg)
    (hsent : j ∉ bad → w.sent j msg.phase i = some msg ∧ w.arrived i msg.phase j = false)
    (hrecv : (w.handler i).receive s.n rg j msg = .ok ph) (hquiet : ph.quitChan = []) :
    Step bad offers w
      { w with
        handler := Function.update w.handler i ph
        arrived := Function.update w.arrived i (mark msg.phase j (w.arrived i)) }
  | finish1 {w : Negotiation C} {i : ℕ} (hi : i < s.n) (hgood : i ∉ bad) (hstage : w.stage i = 0)
    (hdone : .phase1 ∈ (w.handler i).doneChan) :
    Step bad offers w
      { w with
        handler := Function.update w.handler i
          ((w.taken i .phase1).generatePhase2PaillierKeyProof s.n (s.blindFactor i)).1
        stage := Function.update w.stage i 1
        sent := w.send i .phase2 fun _ =>
          some (.phase2 ((w.taken i .phase1).generatePhase2PaillierKeyProof s.n (s.blindFactor i)).2) }
  | finish2 {w : Negotiation C} {i : ℕ} {ph : PKNHandler C} {msgs : RangeMap ℕ (KeyGenBroadcastMessage3 C)}
    (rg : Range ℕ) (hi : i < s.n) (hgood : i ∉ bad) (hstage : w.stage i = 1)
    (hdone : .phase2 ∈ (w.handler i).doneChan)
    (hrun : (w.taken i .phase2).generatePhase3SecretShare s.t s.n rg (s.tail i) = .ok (ph, msgs))
    (hquiet : ph.quitChan = []) :
    Step bad offers w
      { w with
        handler := Function.update w.handler i ph
        stage := Function.update w.stage i 2
        sent := w.send i .phase3 fun k => (msgs.lookup k).map .phase3 }
  | finish3 {w : Negotiation C} {i : ℕ} (hi : i < s.n) (hgood : i ∉ bad) (hstage : w.stage i = 2)
    (hdone : .phase3 ∈ (w.handler i).doneChan) :
    Step bad offers w
      { w with
        handler := Function.update w.handler i (w.taken i .phase3)
        stage := Function.update w.stage i 3 }

/-- The states of all runs in which the notaries in `bad` are malicious. -/
abbrev Reached (bad : Finset ℕ) (offers : ℕ → ℕ → KeyGenMessage C → Prop) : Negotiation C → Prop :=
  Reachable (fun w => w = start s) (Step s bad offers)

end Negotiation

/-! ### What a notary holds -/

section Held

variable {C : Curve} (s : Dealers C) (expected : ℕ → KeyGenMessage C → Prop) (i : ℕ)

/-- The share passes what the receiver `i` checks. -/
structure Checked (pub : RangeMap ℕ (DLogProof C)) (j : ℕ) (m : KeyGenBroadcastMessage3 C) : Prop where
  key : ∃ p, pub.lookup j = some p ∧ m.vss.commitments.head? = some p.PK
  valid : m.vss.validateShare m.secretShare (i+1) = .ok true

/-- What notary `i` holds at stage `stage`, when it has `sent` its messages and those of the others have `arrived`,
each of the expected kind. -/
structure Held (ph : PKNHandler C) (stage : ℕ) (sent : KeyGenPhase → ℕ → Option (KeyGenMessage C))
    (arrived : KeyGenPhase → ℕ → Bool) : Prop where
  self : ph.selfNotaryID = i
  ui : ph.ui = s.ui i
  quiet : ph.quitChan = []
  sent : ∀ k, ∀ j ∈ s.others i, sent k j = if k.sentAt ≤ stage then some (s.message i k j) else none
  map1 : RangeMap.Gathers ph.pubKeysProof1 (s.others i) (fun j m => expected j (.phase1 m))
    (fun j => arrived .phase1 j = true)
  map2 : RangeMap.Gathers ph.paillierKeysProof2 (List.range s.n) (fun j m => expected j (.phase2 m))
    (fun j => if j = i then 1 ≤ stage else arrived .phase2 j = true)
  map3 : RangeMap.Gathers ph.secretShareMessage3 (List.range s.n)
    (fun j m => expected j (.phase3 m) ∧ (j ≠ i → Checked i ph.pubKeysProof1 j m))
    (fun j => if j = i then 2 ≤ stage else arrived .phase3 j = true)
  done1 : .phase1 ∈ ph.doneChan ∨ 1 ≤ stage → ph.pubKeysProof1.len + 1 = s.n ∧
    ∃ rg : Range ℕ, ph.publicKey = some (pointSum (scalarBaseMult C ph.ui)
      ((ph.pubKeysProof1.range rg).map fun p : ℕ × DLogProof C => p.2.PK))
  done2 : .phase2 ∈ ph.doneChan ∨ 2 ≤ stage → ph.paillierKeysProof2.len = s.n
  done3 : .phase3 ∈ ph.doneChan ∨ 3 ≤ stage → ph.secretShareMessage3.len = s.n ∧
    ∃ rg : Range ℕ, ph.xi = some (modSum C.N privKeyZero
      ((ph.secretShareMessage3.range rg).map fun p : ℕ × KeyGenBroadcastMessage3 C => residue C.N p.2.secretShare))
  signal1 : ph.pubKeysProof1.len + 1 = s.n → s.n = 1 ∨ .phase1 ∈ ph.doneChan ∨ 1 ≤ stage
  signal2 : ph.paillierKeysProof2.len = s.n → .phase2 ∈ ph.doneChan ∨ 2 ≤ stage
  signal3 : ph.secretShareMessage3.len = s.n → .phase3 ∈ ph.doneChan ∨ 3 ≤ stage

variable {s expected i} {ph : PKNHandler C} {stage : ℕ} {sent : KeyGenPhase → ℕ → Option (KeyGenMessage C)}
  {arrived : KeyGenPhase → ℕ → Bool}

theorem mark_of_ne {k k' : KeyGenPhase} (j j' : ℕ) (h : k' ≠ k) :
    Negotiation.mark k j arrived k' j' = arrived k' j' := by simp [Negotiation.mark, h]

theorem mark_of_ne_sender (k k' : KeyGenPhase) {j j' : ℕ} (h : j' ≠ j) :
    Negotiation.mark k j arrived k' j' = arrived k' j' := by simp [Negotiation.mark, h]

theorem mark_self (k : KeyGenPhase) (j : ℕ) : Negotiation.mark k j arrived k j = true := by simp [Negotiation.mark]

theorem Checked.insert {pub : RangeMap ℕ (DLogProof C)} {j k : ℕ} {m : KeyGenBroadcastMessage3 C}
    (h : Checked i pub k m) (hnone : pub.lookup j = none) (p : DLogProof C) : Checked i (pub.insert j p) k m := by
  obtain ⟨p', hp', hc⟩ := h.key
  refine ⟨⟨p', ?_, hc⟩, h.valid⟩
  rw [RangeMap.lookup_insert_eq, if_neg (fun hkj => ?_), hp']
  rw [hkj, hnone] at hp'
  cases hp'

namespace Held

/-- A message of the first phase. -/
theorem receive1 (h : Held s expected i ph stage sent arrived) (hi : i < s.n) {j : ℕ} (hj : j < s.n) (hji : j ≠ i)
    {rg : Range ℕ} {m : DLogProof C} (hm : expected j (.phase1 m)) {ph' : PKNHandler C}
    (hrecv : ph.receivePhase1PubKeyProof s.n rg m j = .ok ph') (hquiet : ph'.quitChan = []) :
    Held s expected i ph' stage sent (Negotiation.mark .phase1 j arrived) := by
  obtain ⟨hnone, rfl⟩ := PKNHandler.receivePhase1_quiet hrecv hquiet
  obtain ⟨d, key, heq, hd, hkey⟩ := PKNHandler.checkPhase1Done_eq s.n rg
    { ph with pubKeysProof1 := ph.pubKeysProof1.insert j m }
  rw [heq]
  have hmem : j ∈ s.others i := Dealers.mem_others.mpr ⟨hj,hji⟩
  have hlt := h.map1.len_lt hmem hnone
  have hlen := Dealers.length_others (s := s) hi
  have hnot : ¬ (.phase1 ∈ ph.doneChan ∨ 1 ≤ stage) := fun hc => by
    have := (h.done1 hc).1
    omega
  refine { h with
    map1 := ?_, map2 := ?_, map3 := ?_, done1 := ?_, done2 := ?_, done3 := ?_,
    signal1 := ?_, signal2 := ?_, signal3 := ?_ }
  · exact h.map1.insert hmem hm (mark_self .phase1 j) fun k _ hk => by rw [mark_of_ne_sender _ _ hk]
  · exact h.map2.mono (fun _ _ _ hP => hP) fun k _ => by rw [mark_of_ne _ _ (by decide)]
  · exact h.map3.mono (fun k v _ hP => ⟨hP.1, fun hk => (hP.2 hk).insert hnone m⟩) fun k _ => by
      rw [mark_of_ne _ _ (by decide)]
  · intro hc
    have hfull := ((hd .phase1).mp (hc.resolve_right fun hs => hnot (.inr hs))).resolve_right fun hs => hnot (.inl hs)
    exact ⟨hfull.2, rg, hkey hfull.2⟩
  · exact fun hc => h.done2 (hc.imp_left fun hm => by simpa using (hd .phase2).mp hm)
  · exact fun hc => h.done3 (hc.imp_left fun hm => by simpa using (hd .phase3).mp hm)
  · exact fun hfull => .inr (.inl ((hd .phase1).mpr (.inl ⟨rfl,hfull⟩)))
  · exact fun hfull => (h.signal2 hfull).imp_left fun hm => (hd .phase2).mpr (.inr hm)
  · exact fun hfull => (h.signal3 hfull).imp_left fun hm => (hd .phase3).mpr (.inr hm)

/-- A message of the second phase. -/
theorem receive2 (h : Held s expected i ph stage sent arrived) {j : ℕ} (hj : j < s.n) (hji : j ≠ i)
    {m : KeyGenBroadcastMessage2} (hm : expected j (.phase2 m))
    (hquiet : (ph.receivePhase2PaillierPubKeyProof s.n m j).quitChan = []) :
    Held s expected i (ph.receivePhase2PaillierPubKeyProof s.n m j) stage sent
    (Negotiation.mark .phase2 j arrived) := by
  obtain ⟨hnone, hph⟩ := PKNHandler.receivePhase2_quiet hquiet
  obtain ⟨d, heq, hd⟩ := PKNHandler.checkPhase2Done_eq s.n
    { ph with paillierKeysProof2 := ph.paillierKeysProof2.insert j m }
  rw [hph, heq]
  have hmem : j ∈ List.range s.n := List.mem_range.mpr hj
  have hlt := h.map2.len_lt hmem hnone
  rw [List.length_range] at hlt
  have hnot : ¬ (.phase2 ∈ ph.doneChan ∨ 2 ≤ stage) := fun hc => by
    have := h.done2 hc
    omega
  refine { h with
    map1 := ?_, map2 := ?_, map3 := ?_, done1 := ?_, done2 := ?_, done3 := ?_,
    signal1 := ?_, signal2 := ?_, signal3 := ?_ }
  · exact h.map1.mono (fun _ _ _ hP => hP) fun k _ => by rw [mark_of_ne _ _ (by decide)]
  · refine h.map2.insert hmem hm ?_ fun k _ hk => by rw [mark_of_ne_sender _ _ hk]
    rw [if_neg hji]
    exact mark_self .phase2 j
  · exact h.map3.mono (fun _ _ _ hP => hP) fun k _ => by rw [mark_of_ne _ _ (by decide)]
  · exact fun hc => h.done1 (hc.imp_left fun hm => by simpa using (hd .phase1).mp hm)
  · intro hc
    exact (((hd .phase2).mp (hc.resolve_right fun hs => hnot (.inr hs))).resolve_right fun hs => hnot (.inl hs)).2
  · exact fun hc => h.done3 (hc.imp_left fun hm => by simpa using (hd .phase3).mp hm)
  · exact fun hfull => (h.signal1 hfull).imp_right (.imp_left fun hm => (hd .phase1).mpr (.inr hm))
  · exact fun hfull => .inl ((hd .phase2).mpr (.inl ⟨rfl,hfull⟩))
  · exact fun hfull => (h.signal3 hfull).imp_left fun hm => (hd .phase3).mpr (.inr hm)

/-- A share. -/
theorem receive3 (h : Held s expected i ph stage sent arrived) {j : ℕ} (hj : j < s.n) (hji : j ≠ i)
    {rg : Range ℕ} {m : KeyGenBroadcastMessage3 C} (hm : expected j (.phase3 m))
    {ph' : PKNHandler C} (hrecv : ph.receivePhase3SecretShare s.n rg m j = .ok ph') (hquiet : ph'.quitChan = []) :
    Held s expected i ph' stage sent (Negotiation.mark .phase3 j arrived) := by
  obtain ⟨hnone, hkey, hvalid, rfl⟩ := PKNHandler.receivePhase3_quiet hrecv hquiet
  obtain ⟨d, xi, heq, hd, hxi⟩ := PKNHandler.checkPhase3Done_eq s.n rg
    { ph with secretShareMessage3 := ph.secretShareMessage3.insert j m }
  rw [heq]
  rw [h.self] at hvalid
  have hmem : j ∈ List.range s.n := List.mem_range.mpr hj
  have hlt := h.map3.len_lt hmem hnone
  rw [List.length_range] at hlt
  have hnot : ¬ (.phase3 ∈ ph.doneChan ∨ 3 ≤ stage) := fun hc => by
    have := (h.done3 hc).1
    omega
  refine { h with
    map1 := ?_, map2 := ?_, map3 := ?_, done1 := ?_, done2 := ?_, done3 := ?_,
    signal1 := ?_, signal2 := ?_, signal3 := ?_ }
  · exact h.map1.mono (fun _ _ _ hP => hP) fun k _ => by rw [mark_of_ne _ _ (by decide)]
  · exact h.map2.mono (fun _ _ _ hP => hP) fun k _ => by rw [mark_of_ne _ _ (by decide)]
  · refine h.map3.insert hmem ⟨hm, fun _ => ⟨hkey,hvalid⟩⟩ ?_ fun k _ hk => by rw [mark_of_ne_sender _ _ hk]
    rw [if_neg hji]
    exact mark_self .phase3 j
  · exact fun hc => h.done1 (hc.imp_left fun hm => by simpa using (hd .phase1).mp hm)
  · exact fun hc => h.done2 (hc.imp_left fun hm => by simpa using (hd .phase2).mp hm)
  · intro hc
    have hfull := ((hd .phase3).mp (hc.resolve_right fun hs => hnot (.inr hs))).resolve_right fun hs => hnot (.inl hs)
    exact ⟨hfull.2, rg, hxi hfull.2⟩
  · exact fun hfull => (h.signal1 hfull).imp_right (.imp_left fun hm => (hd .phase1).mpr (.inr hm))
  · exact fun hfull => (h.signal2 hfull).imp_left fun hm => (hd .phase2).mpr (.inr hm)
  · exact fun hfull => .inl ((hd .phase3).mpr (.inl ⟨rfl,hfull⟩))

/-- The end of the first phase. -/
theorem finish1 (h : Held s expected i ph 0 sent arrived) (hi : i < s.n) (hown : expected i (.phase2 (s.message2 i)))
    (hdone : .phase1 ∈ ph.doneChan) {ph₁ : PKNHandler C}
    (htaken : ph₁ = { ph with doneChan := ph.doneChan.erase .phase1 }) :
    Held s expected i (ph₁.generatePhase2PaillierKeyProof s.n (s.blindFactor i)).1 1
      (Function.update sent .phase2 fun _ =>
        some (.phase2 (ph₁.generatePhase2PaillierKeyProof s.n (s.blindFactor i)).2)) arrived := by
  have hmsg : (ph₁.generatePhase2PaillierKeyProof s.n (s.blindFactor i)).2 = s.message2 i := by
    rw [htaken]
    change ({ com := createCommitmentWithUserDefinedRandomNess (C.X (scalarBaseMult C ph.ui)) (s.blindFactor i)
              blindFactor := s.blindFactor i
              correctKey := true } : KeyGenBroadcastMessage2) = _
    rw [h.ui]
    rfl
  have hfst : (ph₁.generatePhase2PaillierKeyProof s.n (s.blindFactor i)).1 = PKNHandler.checkPhase2Done s.n
      { ph₁ with paillierKeysProof2 := ph₁.paillierKeysProof2.insert ph₁.selfNotaryID (s.message2 i) } := by
    rw [← hmsg]
    rfl
  obtain ⟨d, heq, hd⟩ := PKNHandler.checkPhase2Done_eq s.n
    { ph₁ with paillierKeysProof2 := ph₁.paillierKeysProof2.insert ph₁.selfNotaryID (s.message2 i) }
  rw [hmsg, hfst, heq]
  subst htaken
  dsimp only at hd ⊢
  rw [h.self] at hd ⊢
  have hmem : i ∈ List.range s.n := List.mem_range.mpr hi
  have hlt := h.map2.len_lt hmem (h.map2.lookup_none hmem (by simp))
  rw [List.length_range] at hlt
  have hnot : .phase2 ∉ ph.doneChan.erase .phase1 := fun hc => by
    have := h.done2 (.inl (List.mem_of_mem_erase hc))
    omega
  refine { h with
    self := rfl, sent := fun k j hj => ?_,
    map1 := h.map1, map2 := ?_, map3 := ?_, done1 := ?_, done2 := ?_, done3 := ?_,
    signal1 := ?_, signal2 := ?_, signal3 := ?_ }
  · cases k with
    | phase2 =>
      rw [Function.update_self]
      rfl
    | _ =>
      rw [Function.update_of_ne (by decide), h.sent _ j hj]
      simp [KeyGenPhase.sentAt]
  · exact h.map2.insert hmem hown (by simp) fun k _ hk => by simp [hk]
  · exact h.map3.mono (fun _ _ _ hP => hP) fun k _ => by simp
  · exact fun _ => h.done1 (.inl hdone)
  · exact fun hc => (((hd .phase2).mp (hc.resolve_right (by omega))).resolve_right hnot).2
  · intro hc
    have hmem3 := ((hd .phase3).mp (hc.resolve_right (by omega))).resolve_left fun hc => by simp at hc
    exact h.done3 (.inl (List.mem_of_mem_erase hmem3))
  · exact fun _ => .inr (.inr le_rfl)
  · exact fun hfull => .inl ((hd .phase2).mpr (.inl ⟨rfl,hfull⟩))
  · intro hfull
    have hmem3 := (h.signal3 hfull).resolve_right (by omega)
    exact .inl ((hd .phase3).mpr (.inr ((List.mem_erase_of_ne (by decide)).mpr hmem3)))

/-- The end of the second phase. -/
theorem finish2 (h : Held s expected i ph 1 sent arrived) (hi : i < s.n) (hown : expected i (.phase3 (s.message3 i i)))
    (hdone : .phase2 ∈ ph.doneChan) {ph₁ : PKNHandler C}
    (htaken : ph₁ = { ph with doneChan := ph.doneChan.erase .phase2 }) {rg : Range ℕ}
    {ph' : PKNHandler C} {msgs : RangeMap ℕ (KeyGenBroadcastMessage3 C)}
    (hrun : ph₁.generatePhase3SecretShare s.t s.n rg (s.tail i) = .ok (ph', msgs)) (hquiet : ph'.quitChan = []) :
    Held s expected i ph' 2 (Function.update sent .phase3 fun k => (msgs.lookup k).map .phase3) arrived := by
  obtain ⟨_, rfl, rfl⟩ := PKNHandler.generatePhase3_quiet hrun hquiet
  have hui : ph₁.ui = s.ui i := by rw [htaken, ← h.ui]
  have hself : ph₁.selfNotaryID = i := by rw [htaken, ← h.self]
  rw [hui, hself]
  change Held s expected i (PKNHandler.checkPhase3Done s.n rg
    { ph₁ with
      selfNotaryID := i, ui := s.ui i, secretShareMessage3 := ph₁.secretShareMessage3.insert i (s.message3 i i) }) 2
      (Function.update sent .phase3 fun k =>
        ((RangeMap.tabulate (s.others i) (s.message3 i)).lookup k).map .phase3) arrived
  obtain ⟨d, xi, heq, hd, hxi⟩ := PKNHandler.checkPhase3Done_eq s.n rg
    { ph₁ with
      selfNotaryID := i, ui := s.ui i, secretShareMessage3 := ph₁.secretShareMessage3.insert i (s.message3 i i) }
  rw [heq]
  subst htaken
  dsimp only at hd hxi ⊢
  have hmem : i ∈ List.range s.n := List.mem_range.mpr hi
  have hlt := h.map3.len_lt hmem (h.map3.lookup_none hmem (by simp))
  rw [List.length_range] at hlt
  have hnot : .phase3 ∉ ph.doneChan.erase .phase2 := fun hc => by
    have := (h.done3 (.inl (List.mem_of_mem_erase hc))).1
    omega
  refine { h with
    self := rfl, ui := rfl, sent := fun k j hj => ?_,
    map1 := h.map1, map2 := ?_, map3 := ?_, done1 := ?_, done2 := ?_, done3 := ?_,
    signal1 := ?_, signal2 := ?_, signal3 := ?_ }
  · cases k with
    | phase3 =>
      rw [Function.update_self, RangeMap.lookup_tabulate hj]
      rfl
    | _ =>
      rw [Function.update_of_ne (by decide), h.sent _ j hj]
      simp [KeyGenPhase.sentAt]
  · exact h.map2.mono (fun _ _ _ hP => hP) fun k _ => by simp
  · exact h.map3.insert hmem ⟨hown, fun hne => absurd rfl hne⟩ (by simp) fun k _ hk => by simp [hk]
  · intro _
    have hkey := h.done1 (.inr le_rfl)
    rwa [h.ui] at hkey
  · exact fun _ => h.done2 (.inl hdone)
  · intro hc
    have hfull := (((hd .phase3).mp (hc.resolve_right (by omega))).resolve_right hnot).2
    exact ⟨hfull, rg, hxi hfull⟩
  · exact fun _ => .inr (.inr (by omega))
  · exact fun _ => .inr le_rfl
  · exact fun hfull => .inl ((hd .phase3).mpr (.inl ⟨rfl,hfull⟩))

/-- The end of the third phase. -/
theorem finish3 (h : Held s expected i ph 2 sent arrived) (hdone : .phase3 ∈ ph.doneChan) :
    Held s expected i { ph with doneChan := ph.doneChan.erase .phase3 } 3 sent arrived := by
  refine { h with
    sent := fun k j hj => ?_, map2 := ?_, map3 := ?_, done1 := ?_, done2 := ?_, done3 := ?_,
    signal1 := ?_, signal2 := ?_, signal3 := ?_ }
  · rw [h.sent k j hj]
    cases k <;> simp [KeyGenPhase.sentAt]
  · exact h.map2.mono (fun _ _ _ hP => hP) fun k _ => by simp
  · exact h.map3.mono (fun _ _ _ hP => hP) fun k _ => by simp
  · exact fun _ => h.done1 (.inr (by omega))
  · exact fun _ => h.done2 (.inr le_rfl)
  · exact fun _ => h.done3 (.inl hdone)
  · exact fun _ => .inr (.inr (by omega))
  · exact fun _ => .inr (by omega)
  · exact fun _ => .inr le_rfl

end Held

theorem held_start (expected : ℕ → KeyGenMessage C → Prop) (i : ℕ) :
    Held s expected i { selfNotaryID := i, ui := s.ui i } 0
      (fun k _ => if k = .phase1 then some (.phase1 (s.message1 i)) else none) (fun _ _ => false) where
  self := rfl
  ui := rfl
  quiet := rfl
  sent k j _ := by cases k <;> simp [KeyGenPhase.sentAt, Dealers.message]
  map1 := .empty _ _ fun _ _ => by simp
  map2 := .empty _ _ fun _ _ => by simp
  map3 := .empty _ _ fun _ _ => by simp
  done1 h := by simp at h
  done2 h := by simp at h
  done3 h := by simp at h
  signal1 h := .inl h.symm
  signal2 h := by
    have := s.t_lt
    rw [RangeMap.len_empty] at h
    omega
  signal3 h := by
    have := s.t_lt
    rw [RangeMap.len_empty] at h
    omega

end Held

/-! ### What all notaries hold -/

namespace Negotiation

variable {C : Curve} (s : Dealers C) (bad : Finset ℕ) (offers : ℕ → ℕ → KeyGenMessage C → Prop)

/-- What `i` can be sent by `j`. -/
def Expected (i j : ℕ) (msg : KeyGenMessage C) : Prop :=
  (j ∈ bad → offers j i msg) ∧ (j ∉ bad → msg = s.message j msg.phase i)

structure Sound (w : Negotiation C) : Prop where
  held : ∀ i < s.n, i ∉ bad →
    Held s (Expected s bad offers i) i (w.handler i) (w.stage i) (w.sent i) (w.arrived i)
  order : ∀ i j, i ∉ bad → j < s.n → j ∉ bad → ∀ k, w.arrived i k j = true → k.sentAt ≤ w.stage j

variable {s bad offers} {w w' : Negotiation C}

theorem sound_start : Sound s bad offers (start s) := by
  refine ⟨fun i _ _ => held_start _ i, fun i j _ _ _ k h => ?_⟩
  cases h

/-- A notary that changes, and gets on with its stage. -/
theorem Sound.update (h : Sound s bad offers w) (i : ℕ)
    (hheld : i < s.n → Held s (Expected s bad offers i) i (w'.handler i) (w'.stage i) (w'.sent i) (w'.arrived i))
    (hothers : ∀ j ≠ i, w'.handler j = w.handler j ∧ w'.stage j = w.stage j ∧ w'.sent j = w.sent j ∧
      w'.arrived j = w.arrived j)
    (hstage : w.stage i ≤ w'.stage i)
    (horder : ∀ j < s.n, j ∉ bad → ∀ k, w'.arrived i k j = true → w.arrived i k j = true ∨ k.sentAt ≤ w.stage j) :
    Sound s bad offers w' := by
  have hmono : ∀ j, w.stage j ≤ w'.stage j := by
    intro j
    rcases eq_or_ne j i with rfl | hne
    · exact hstage
    · exact (hothers j hne).2.1.ge
  constructor
  · intro j hj hgood
    rcases eq_or_ne j i with rfl | hne
    · exact hheld hj
    · obtain ⟨h1, h2, h3, h4⟩ := hothers j hne
      rw [h1, h2, h3, h4]
      exact h.held j hj hgood
  · intro i' j hi' hj hgood k harr
    refine le_trans ?_ (hmono j)
    rcases eq_or_ne i' i with rfl | hne
    · exact (horder j hj hgood k harr).elim (h.order i' j hi' hj hgood k) fun hle => hle
    · rw [(hothers i' hne).2.2.2] at harr
      exact h.order i' j hi' hj hgood k harr

/-- A message on the way to `i` is sent by an honest notary that has got so far. -/
theorem Sound.sent (h : Sound s bad offers w) {i j : ℕ} (hi : i < s.n) (hj : j < s.n) (hji : j ≠ i) (hgood : j ∉ bad)
    {msg : KeyGenMessage C} (hmsg : w.sent j msg.phase i = some msg) :
    msg.phase.sentAt ≤ w.stage j ∧ msg = s.message j msg.phase i := by
  have hsent := (h.held j hj hgood).sent msg.phase i (Dealers.mem_others.mpr ⟨hi,hji.symm⟩)
  rw [hmsg] at hsent
  split_ifs at hsent with hle
  exact ⟨hle, Option.some.inj hsent⟩

/-- A message that is accepted is recorded. -/
theorem Sound.receive (h : Sound s bad offers w) {i j : ℕ} (hi : i < s.n) (hj : j < s.n) (hji : j ≠ i) (hgood : i ∉ bad)
    {msg : KeyGenMessage C} (hmsg : Expected s bad offers i j msg) {rg : Range ℕ} {ph : PKNHandler C}
    (hrecv : (w.handler i).receive s.n rg j msg = .ok ph) (hquiet : ph.quitChan = []) :
    Held s (Expected s bad offers i) i ph (w.stage i) (w.sent i) (mark msg.phase j (w.arrived i)) := by
  have hheld := h.held i hi hgood
  cases msg with
  | phase1 m => exact hheld.receive1 hi hj hji hmsg hrecv hquiet
  | phase2 m =>
    obtain rfl := Except.ok.inj hrecv
    exact hheld.receive2 hj hji hmsg hquiet
  | phase3 m => exact hheld.receive3 hj hji hmsg hrecv hquiet

theorem Sound.step (h : Sound s bad offers w) (hstep : Step s bad offers w w') : Sound s bad offers w' := by
  cases hstep with
  | @deliver j i msg ph rg hj hi hji hgood hbad hsent hrecv hquiet =>
    have hmsg : Expected s bad offers i j msg :=
      ⟨hbad, fun hgoodj => (h.sent hi hj hji hgoodj (hsent hgoodj).1).2⟩
    have hheld := h.receive hi hj hji hgood hmsg hrecv hquiet
    refine h.update i (fun _ => by simpa using hheld) (fun k hk => by simp [hk]) le_rfl fun k hk hgoodk c harr => ?_
    simp only [Function.update_self, mark] at harr
    split_ifs at harr with heq
    · obtain ⟨rfl, rfl⟩ := heq
      exact .inr (h.sent hi hj hji hgoodk (hsent hgoodk).1).1
    · exact .inl harr
  | @finish1 i hi hgood hstage hdone =>
    have hheld := h.held i hi hgood
    rw [hstage] at hheld
    refine h.update i (fun _ => ?_) (fun k hk => by simp [hk, send]) (by simp [hstage]) fun k _ _ c harr => .inl harr
    have hown : Expected s bad offers i i (.phase2 (s.message2 i)) := ⟨fun hb => absurd hb hgood, fun _ => rfl⟩
    simpa [send] using hheld.finish1 hi hown hdone (show w.taken i .phase1 = _ from rfl)
  | @finish2 i ph msgs rg hi hgood hstage hdone hrun hquiet =>
    have hheld := h.held i hi hgood
    rw [hstage] at hheld
    refine h.update i (fun _ => ?_) (fun k hk => by simp [hk, send]) (by simp [hstage]) fun k _ _ c harr => .inl harr
    have hown : Expected s bad offers i i (.phase3 (s.message3 i i)) := ⟨fun hb => absurd hb hgood, fun _ => rfl⟩
    simpa [send] using hheld.finish2 hi hown hdone (show w.taken i .phase2 = _ from rfl) hrun hquiet
  | @finish3 i hi hgood hstage hdone =>
    have hheld := h.held i hi hgood
    rw [hstage] at hheld
    refine h.update i (fun _ => ?_) (fun k hk => by simp [hk]) (by simp [hstage]) fun k _ _ c harr => .inl harr
    simpa [taken] using hheld.finish3 hdone

theorem Reached.sound (h : Reached s bad offers w) : Sound s bad offers w :=
  h.invariant (fun _ hw => hw ▸ sound_start) fun _ _ _ hinv hstep => hinv.step hstep

end Negotiation

end DistributedNotary.Mecdsa
