import DistributedNotary.Mecdsa.KeyMail

/-! Sessions refine `Negotiation`: whatever the notaries do, the handlers have got
where a run of the abstract negotiation has got, nothing has gone wrong, and the
end has come nearer. So each run of a session can be led to its end, and there
all notaries hold the same key. -/
namespace DistributedNotary.Mecdsa

open Library Share Proofs

variable {C : Curve} {s : KeyCommittee C} {w : ℕ → KeyNode C} {a a' : Negotiation C} {i j : ℕ}

/-! ### What the abstract negotiation says -/

section Abstract

/-- The private share of a notary that has waited for three phases. -/
theorem Negotiation.Sound.xi_final (h : Negotiation.Sound s.toDealers ∅ s.dealing.offers a) (hi : i < s.n)
    (hstage : 3 ≤ a.stage i) : (a.handler i).xi = some (s.finalShare i) := by
  have hheld := h.held i hi (Finset.notMem_empty i)
  obtain ⟨xi, hxi, hsum⟩ := hheld.xi_eq hstage
  obtain ⟨-, rg, hmod⟩ := hheld.done3 (.inr hstage)
  rw [hxi]
  congr 1
  refine eq_of_cast (N := C.N) ?_ (Nat.mod_lt _ C.prime.pos) ?_
  · rw [Option.some.inj (hxi.symm.trans hmod)]
    exact modSum_lt C.prime.pos _
  · rw [hsum, KeyCommittee.finalShare, ZMod.natCast_mod, Nat.cast_sum]
    exact Finset.sum_congr rfl fun j hj =>
      h.shareFrom_honest hi (Finset.notMem_empty i) hstage (Finset.mem_range.mp hj) (Finset.notMem_empty j)

/-- A notary that has the messages of its phase has been told so. -/
theorem Negotiation.Sound.signalled (h : Negotiation.Sound s.toDealers ∅ s.dealing.offers a) (hn : 1 < s.n)
    (hi : i < s.n)
    {k : KeyGenPhase} (hstage : a.stage i = k.sentAt) (hall : ∀ j ∈ s.others i, a.arrived i k j = true) :
    k ∈ (a.handler i).doneChan := by
  have hheld := h.held i hi (Finset.notMem_empty i)
  have hrange : ∀ j ∈ List.range s.n, if j = i then k.sentAt ≤ a.stage i else a.arrived i k j = true := by
    intro j hj
    split_ifs with hji
    · exact hstage.ge
    · exact hall j (Dealers.mem_others.mpr ⟨List.mem_range.mp hj, hji⟩)
  cases k with
  | phase1 =>
    have hlen := hheld.map1.len_eq (List.nodup_range.filter _) hall
    have hcount := Dealers.length_others (s := s.toDealers) hi
    exact ((hheld.signal1 (by omega)).resolve_left (by omega)).resolve_right (by rw [hstage]; decide)
  | phase2 =>
    have hlen := hheld.map2.len_eq List.nodup_range hrange
    rw [List.length_range] at hlen
    exact (hheld.signal2 hlen).resolve_right (by rw [hstage]; decide)
  | phase3 =>
    have hlen := hheld.map3.len_eq List.nodup_range hrange
    rw [List.length_range] at hlen
    exact (hheld.signal3 hlen).resolve_right (by rw [hstage]; decide)

end Abstract

/-! ### The handler of a session -/

/-- The handler is where the abstract one is, which has come to `stage`. -/
structure PKNSession.Follows (s : KeyCommittee C) (i : ℕ) (ph : PKNSession C) (h : PKNHandler C) (stage : ℕ)
    (arrived : KeyGenPhase → ℕ → Bool) : Prop where
  handler : ph.toPKNHandler = h
  err : ph.err = none
  thread : ph.thread.Fine
  stage : min 3 ph.thread.stage = stage
  fresh : ph.thread.begun = false → ph.toPKNHandler = (s.newPKNHandler i).toPKNHandler ∧ ∀ k j, arrived k j = false
  keys4 : ∀ j m, ph.lastPubkeyProof4.lookup j = some m → j < s.n
  own4 : (ph.lastPubkeyProof4.lookup i).isSome ↔ 3 ≤ ph.thread.stage
  signal4 : ph.lastPubkeyProof4.len = s.n ↔ 0 < ph.phase4DoneChan ∨ ph.thread.stage = 4

namespace PKNSession

variable {ph : PKNSession C} {h : PKNHandler C} {stage : ℕ} {arrived : KeyGenPhase → ℕ → Bool}

/-- A map with as many keys as there are notaries has the key of each. -/
theorem lookup_of_len {ν : Type} {m : RangeMap ℕ ν} {n : ℕ} (hkeys : ∀ k v, m.lookup k = some v → k < n)
    (hlen : RangeMap.len m = n) {k : ℕ} (hk : k < n) : ∃ v, m.lookup k = some v := by
  have hall : RangeMap.Collects m (List.range n) fun _ _ => True :=
    .of_len (fun k v hv => ⟨List.mem_range.mpr (hkeys k v hv), trivial⟩) (by rw [hlen, List.length_range])
  obtain ⟨v, hv, -⟩ := hall.values k (List.mem_range.mpr hk)
  exact ⟨v, hv⟩

theorem checkPhase4Done_ok (ph : PKNSession C) (hkeys : ∀ j m, ph.lastPubkeyProof4.lookup j = some m → j < s.n)
    (hkey : ph.lastPubkeyProof4.len = s.n → ph.publicKey.isSome) : ph.checkPhase4Done s.n = .ok { ph with
      phase4DoneChan :=
        if ph.lastPubkeyProof4.len = s.n then min 2 (ph.phase4DoneChan + 1) else ph.phase4DoneChan } := by
  unfold checkPhase4Done
  split_ifs with hlen
  · obtain ⟨key, hkey⟩ := Option.isSome_iff_exists.mp (hkey hlen)
    have hread : ∀ l : List ℕ, (∀ j ∈ l, j ∈ List.range s.n) →
        ∃ ms, (l.mapM fun j => deref (ph.lastPubkeyProof4.lookup j)) = .ok ms := by
      intro l
      induction l with
      | nil => exact fun _ => ⟨[], rfl⟩
      | cons j l ih =>
        intro hl
        obtain ⟨m, hm⟩ := lookup_of_len hkeys hlen (List.mem_range.mp (hl j List.mem_cons_self))
        obtain ⟨ms, hms⟩ := ih fun k hk => hl k (List.mem_cons_of_mem _ hk)
        exact ⟨m :: ms, by simp [List.mapM_cons, hm, hms, bind, Except.bind, pure, Except.pure]⟩
    obtain ⟨ms, hms⟩ := hread _ fun _ hj => hj
    simp [hms, hkey, bind, Except.bind, pure, Except.pure]
  · rfl

theorem receive_early {ph : PKNSession C} {req : KeyGenRequest C} {msg : KeyGenMessage C} {rg : Range ℕ}
    (hbody : req.body = .early msg) (hrecv : ph.toPKNHandler.receive s.n rg req.senderNotaryID msg = .ok h) :
    ph.receive s rg req = { ph with toPKNHandler := h } := by simp only [receive, hbody, hrecv]

theorem receive_phase4 {ph ph' : PKNSession C} {req : KeyGenRequest C} {m : DLogProof C} (rg : Range ℕ)
    (hbody : req.body = .phase4 m)
    (hrecv : ph.receivePhase4VerifyTotalPubKey s.n m req.senderNotaryID = .ok ph') : ph.receive s rg req = ph' := by
  simp only [receive, hbody, hrecv]

theorem receivePhase4_ok (ph : PKNSession C) {m : DLogProof C} (hverify : verifyDLog m = .ok true)
    (hnone : ph.lastPubkeyProof4.lookup j = none) : ph.receivePhase4VerifyTotalPubKey s.n m j =
      checkPhase4Done s.n { ph with lastPubkeyProof4 := ph.lastPubkeyProof4.insert j m } := by
  simp [receivePhase4VerifyTotalPubKey, hverify, hnone, bind, Except.bind]

theorem generatePhase4_ok (ph : PKNSession C) {ph' : PKNSession C} {xi nonce : SPrivKey} {n : ℕ}
    (hself : ph.selfNotaryID = i) (hxi : ph.xi = some xi) (hne : xi ≠ 0) (hlt : xi < C.N)
    (hcheck : checkPhase4Done n { ph with
      lastPubkeyProof4 := ph.lastPubkeyProof4.insert i (prove xi nonce) } = .ok ph') :
    ph.generatePhase4PubKeyProof n nonce = .ok (ph', prove xi nonce) := by
  rw [← hself] at hcheck
  have hmult : bitCurveMult C.G xi = some (scalarMult C.G xi) := if_neg (not_or.mpr ⟨hne, not_le.mpr hlt⟩)
  simp [generatePhase4PubKeyProof, hxi, hmult, hcheck, bind, Except.bind, pure, Except.pure]

section Proceed

variable (rg : Range ℕ) (herr : ph.err = none)

include herr

theorem proceed_phase1 : ph.proceed s rg i 0 =
    ({ ph with
        toPKNHandler := (ph.generatePhase2PaillierKeyProof s.n (s.blindFactor i)).1
        thread := .waiting 1 },
      s.wsBroadcast i (.early (.phase2 (ph.generatePhase2PaillierKeyProof s.n (s.blindFactor i)).2))) := by
  simp only [proceed, herr]

theorem proceed_phase2 {msgs : RangeMap ℕ (KeyGenBroadcastMessage3 C)}
    (hrun : ph.generatePhase3SecretShare s.t s.n rg (s.tail i) = .ok (h, msgs)) : ph.proceed s rg i 1 =
      ({ ph with toPKNHandler := h, thread := .waiting 2 },
        fun j => (msgs.lookup j).map fun m => .early (.phase3 m)) := by
  simp only [proceed, herr, hrun]

theorem proceed_phase3 {ph' : PKNSession C} {m : DLogProof C}
    (hrun : ph.generatePhase4PubKeyProof s.n (s.lastNonce i) = .ok (ph', m)) : ph.proceed s rg i 2 =
      ({ ph' with thread := .waiting 3 }, s.wsBroadcast i (.phase4 m)) := by
  simp only [proceed, herr, hrun]

theorem proceed_phase4 : ph.proceed s rg i 3 = ({ ph with thread := .returned none }, fun _ => none) := by
  simp only [proceed, herr]

end Proceed

/-- A last proof is stored, and when it is the last one the end of the phase is signalled. -/
theorem checkPhase4Done_store (ph : PKNSession C) (hkeys : ∀ k m, ph.lastPubkeyProof4.lookup k = some m → k < s.n)
    (hdone : 0 < ph.phase4DoneChan → ph.lastPubkeyProof4.len = s.n) (hj : j < s.n)
    (hnone : ph.lastPubkeyProof4.lookup j = none) (m : DLogProof C)
    (hkey : RangeMap.len (ph.lastPubkeyProof4.insert j m) = s.n → ph.publicKey.isSome) :
    ∃ d, checkPhase4Done s.n { ph with lastPubkeyProof4 := ph.lastPubkeyProof4.insert j m } =
        .ok { ph with lastPubkeyProof4 := ph.lastPubkeyProof4.insert j m, phase4DoneChan := d } ∧
      (RangeMap.len (ph.lastPubkeyProof4.insert j m) = s.n ↔ 0 < d) := by
  have hall : RangeMap.Gathers ph.lastPubkeyProof4 (List.range s.n) (fun _ _ => True)
      fun k => (ph.lastPubkeyProof4.lookup k).isSome :=
    ⟨fun k v hk => ⟨List.mem_range.mpr (hkeys k v hk), trivial⟩, fun _ _ => Iff.rfl⟩
  have hlt := hall.len_lt (List.mem_range.mpr hj) hnone
  rw [List.length_range] at hlt
  have hcheck := checkPhase4Done_ok (s := s) { ph with lastPubkeyProof4 := ph.lastPubkeyProof4.insert j m }
    (fun k m' hk => ?_) hkey
  · refine ⟨_, hcheck, ?_⟩
    split_ifs with hlen
    · exact ⟨fun _ => by omega, fun _ => hlen⟩
    · exact ⟨fun h => absurd h hlen, fun h => absurd (hdone h) hlt.ne⟩
  · rw [RangeMap.lookup_insert_eq] at hk
    split_ifs at hk with hkj
    · exact hkj ▸ hj
    · exact hkeys k m' hk

/-- A handler of which only the channel and the goroutine have changed. -/
theorem Follows.rethread (hf : ph.Follows s i h stage arrived) (l : List (KeyGenRequest C)) {t : KeyThread C}
    (hfine : t.Fine) (hstage : t.stage = ph.thread.stage) (hbegun : t.begun = false → ph.thread.begun = false) :
    { ph with receiveChan := l, thread := t }.Follows s i h stage arrived where
  handler := hf.handler
  err := hf.err
  thread := hfine
  stage := by rw [hstage]; exact hf.stage
  fresh hb := hf.fresh (hbegun hb)
  keys4 := hf.keys4
  own4 := by rw [hstage]; exact hf.own4
  signal4 := by rw [hstage]; exact hf.signal4

/-- A handler that has come to the second or the third phase. -/
theorem Follows.next (hf : ph.Follows s i h stage arrived) {ph' : PKNSession C} {h' : PKNHandler C} {k : ℕ} (hk : k < 2)
    (hthread : ph.thread = .waiting k) (hthread' : ph'.thread = .waiting (k + 1)) (hhandler : ph'.toPKNHandler = h')
    (herr : ph'.err = ph.err) (hlast : ph'.lastPubkeyProof4 = ph.lastPubkeyProof4)
    (hdone : ph'.phase4DoneChan = ph.phase4DoneChan) : ph'.Follows s i h' (k + 1) arrived := by
  have hown := hf.own4
  have hsignal := hf.signal4
  rw [hthread] at hown hsignal
  constructor
  · exact hhandler
  · exact herr.trans hf.err
  · rw [hthread']
    show k + 1 ≤ 3
    omega
  · rw [hthread']
    show min 3 (k + 1) = k + 1
    omega
  · rw [hthread']
    exact fun hb => absurd hb.symm Bool.false_ne_true
  · rw [hlast]
    exact hf.keys4
  · rw [hlast, hthread', hown]
    show 3 ≤ k ↔ 3 ≤ k + 1
    omega
  · rw [hlast, hdone, hthread', hsignal]
    show _ ∨ k = 4 ↔ _ ∨ k + 1 = 4
    omega

end PKNSession

/-! ### The session as a whole -/

/-- How far the goroutine has got, from the creation of the handler on. -/
def KeyThread.level (t : KeyThread C) : ℕ := if t.begun then t.stage + 1 else 0

section Level

variable (req : KeyGenRequest C) (k : ℕ) (err : Option String)

@[simp] theorem KeyThread.level_idle : (.idle : KeyThread C).level = 0 := rfl
@[simp] theorem KeyThread.level_spawned : (.spawned req : KeyThread C).level = 0 := rfl
@[simp] theorem KeyThread.level_waiting : (.waiting k : KeyThread C).level = k + 1 := rfl
@[simp] theorem KeyThread.level_returned : (.returned err : KeyThread C).level = 5 := rfl

end Level

/-- What a notary has still to do; each request counts for the places it can still go to. -/
def KeyNode.load (s : KeyCommittee C) (i : ℕ) (v : KeyNode C) : ℕ :=
  (3*s.n + 1) * (5 - (v.session s i).thread.level) + 3 * v.incoming.length + 2 * v.creating.length +
    (v.session s i).thread.held.length + (v.session s i).receiveChan.length

namespace KeyCommittee

/-- Every notary is where the abstract negotiation is, and has its mail. -/
structure Linked (s : KeyCommittee C) (w : ℕ → KeyNode C) (a : Negotiation C) : Prop where
  run : s.Run a
  created : ∀ i < s.n, ∀ ph, (w i).pknHandler = some ph → ph.thread ≠ .idle
  session : ∀ i < s.n, ((w i).session s i).Follows s i (a.handler i) (a.stage i) (a.arrived i)
  mail : ∀ i < s.n, (w i).Mail s i (((w i).session s i).Arrived (a.arrived i)) fun j p => ((w j).session s j).Sent p

/-- To how many notaries a message is sent. -/
def sends (s : KeyCommittee C) (i : ℕ) (out : ℕ → Option (KeyGenBody C)) : ℕ :=
  ∑ j ∈ (Finset.range s.n).erase i, (out j).toList.length

/-- What a step of notary `i` amounts to. -/
structure Goes (s : KeyCommittee C) (w : ℕ → KeyNode C) (i : ℕ) (v : KeyNode C) (out : ℕ → Option (KeyGenBody C)) :
    Prop where
  linked : ∃ a, s.Linked (post w i v out) a
  sent : ∀ p, ((w i).session s i).Sent p → (v.session s i).Sent p
  load : v.load s i + 3 * s.sends i out < (w i).load s i

theorem sends_none : s.sends i (fun _ => none) = 0 := by simp [sends]

theorem sends_lt (s : KeyCommittee C) (hi : i < s.n) (out : ℕ → Option (KeyGenBody C)) : s.sends i out < s.n := by
  have hle : s.sends i out ≤ ((Finset.range s.n).erase i).card • 1 := Finset.sum_le_card_nsmul _ _ 1 fun j _ => by
    cases out j <;> simp
  rw [Finset.card_erase_of_mem (Finset.mem_range.mpr hi), Finset.card_range] at hle
  simp only [smul_eq_mul, mul_one] at hle
  omega

namespace Linked

theorem sound (h : s.Linked w a) : Negotiation.Sound s.toDealers ∅ s.dealing.offers a := Negotiation.Reached.sound h.run

/-- The frame of a step: notary `i` has changed, and the others have its message in their mail if it has sent one. -/
theorem post (h : s.Linked w a) (hi : i < s.n) {v : KeyNode C} {out : ℕ → Option (KeyGenBody C)} (hrun : s.Run a')
    (hothers : ∀ j ≠ i, a'.handler j = a.handler j ∧ a'.stage j = a.stage j ∧ a'.arrived j = a.arrived j)
    (hcreated : ∀ ph, v.pknHandler = some ph → ph.thread ≠ .idle)
    (hsession : (v.session s i).Follows s i (a'.handler i) (a'.stage i) (a'.arrived i))
    (hmail : v.Mail s i ((v.session s i).Arrived (a'.arrived i)) fun j p => ((w j).session s j).Sent p)
    (hout : (∀ j, out j = none) ∧ (∀ p, (v.session s i).Sent p ↔ ((w i).session s i).Sent p) ∨
      ∃ p, ¬ ((w i).session s i).Sent p ∧ (∀ q, (v.session s i).Sent q ↔ ((w i).session s i).Sent q ∨ q = p) ∧
        ∀ j ∈ s.others i, out j = some (s.body i p j)) : s.Linked (post w i v out) a' := by
  have hself : KeyCommittee.post w i v out i = v := if_pos rfl
  have hpost : ∀ j ≠ i, KeyCommittee.post w i v out j =
      { w j with incoming := (w j).incoming ++ (out j).toList.map (KeyGenRequest.mk i) } := fun j hj => if_neg hj
  have hsame : ∀ j ≠ i, (KeyCommittee.post w i v out j).session s j = (w j).session s j := fun j hj => by
    rw [hpost j hj]
    rfl
  refine ⟨hrun, fun j hj => ?_, fun j hj => ?_, fun j hj => ?_⟩
  · rcases eq_or_ne j i with rfl | hne
    · rw [hself]
      exact hcreated
    · rw [hpost j hne]
      exact h.created j hj
  · rcases eq_or_ne j i with rfl | hne
    · rw [hself]
      exact hsession
    · obtain ⟨h1, h2, h3⟩ := hothers j hne
      rw [hsame j hne, h1, h2, h3]
      exact h.session j hj
  · rcases eq_or_ne j i with rfl | hne
    · rw [hself]
      exact hmail.congr fun k hk p => by rw [hsame k (Dealers.mem_others.mp hk).2]
    · obtain ⟨-, -, h3⟩ := hothers j hne
      have hmail' := h.mail j hj
      rw [hsame j hne, h3]
      rcases hout with ⟨hnone, hsent⟩ | ⟨p, hnew, hsent, hbody⟩
      · refine (hmail'.move ?_ ?_ ?_ fun _ _ _ => Iff.rfl).congr fun k hk q => ?_
        · rw [hpost j hne, hnone j]
          simp [KeyNode.pending, KeyNode.session]
        · rw [hpost j hne]
        · rw [hpost j hne]
        · rcases eq_or_ne k i with rfl | hki
          · rw [hself]
            exact hsent q
          · rw [hsame k hki]
      · have hij : i ∈ s.others j := Dealers.mem_others.mpr ⟨hi, hne.symm⟩
        refine hmail'.post hij hnew ?_ ?_ ?_ fun k hk q => ?_
        · rw [hpost j hne, hbody j (Dealers.mem_others.mpr ⟨hj, hne⟩)]
          simp only [KeyNode.pending, KeyNode.session, Option.toList_some,
            List.map_cons, List.map_nil, List.append_assoc]
          exact List.perm_middle
        · rw [hpost j hne]
        · rw [hpost j hne]
        · rcases eq_or_ne k i with rfl | hki
          · rw [hself, hsent q]
            simp
          · rw [hsame k hki]
            simp [hki]

/-! ### Requests go to the handler -/

/-- A notary that has sent a later message has heard of all the others. -/
theorem joined (h : s.Linked w a) (hi : i < s.n) (hj : j ∈ s.others i) {p : Option KeyGenPhase} (hp : p ≠ some .phase1)
    (hsent : ((w j).session s j).Sent p) : (w i).pknHandler ≠ none := by
  intro hnone
  obtain ⟨hjn, hji⟩ := Dealers.mem_others.mp hj
  have hstage : 1 ≤ a.stage j := by
    rw [← (h.session j hjn).stage]
    have hlate : 1 ≤ stageOf p := Nat.one_le_iff_ne_zero.mpr fun h0 => hp (stageOf_injective (h0.trans rfl))
    have := hsent.2
    omega
  have harr := h.sound.arrived1 hjn (Finset.notMem_empty j) hstage hi hji.symm
  have hsenti := ((h.mail j hjn).accounted i (Dealers.mem_others.mpr ⟨hi, hji.symm⟩) (some .phase1)).mpr (.inr harr)
  rw [KeyNode.session_none hnone] at hsenti
  exact Bool.false_ne_true hsenti.1

/-- A step that sends nothing and in which the abstract negotiation stays where it is. -/
theorem quiet (h : s.Linked w a) (hi : i < s.n) {v : KeyNode C}
    (hcreated : ∀ ph, v.pknHandler = some ph → ph.thread ≠ .idle)
    (hsession : (v.session s i).Follows s i (a.handler i) (a.stage i) (a.arrived i))
    (hperm : (v.pending s i).Perm ((w i).pending s i)) (hrefused : v.refused = (w i).refused)
    (hdropped : v.dropped = (w i).dropped)
    (hlast : (v.session s i).lastPubkeyProof4 = ((w i).session s i).lastPubkeyProof4)
    (hbegun : (v.session s i).thread.begun = ((w i).session s i).thread.begun)
    (hstage : (v.session s i).thread.stage = ((w i).session s i).thread.stage) (hload : v.load s i < (w i).load s i) :
    s.Goes w i v fun _ => none := by
  have hsent : ∀ p, (v.session s i).Sent p ↔ ((w i).session s i).Sent p := fun p => by
    rw [PKNSession.Sent, PKNSession.Sent, hbegun, hstage]
  refine ⟨⟨a, h.post hi h.run (fun _ _ => ⟨rfl, rfl, rfl⟩) hcreated hsession ?_ (.inl ⟨fun _ => rfl, hsent⟩)⟩,
    fun p hp => (hsent p).mpr hp, by rw [sends_none]; exact hload⟩
  refine (h.mail i hi).move hperm hrefused hdropped fun j _ p => ?_
  cases p with
  | none => rw [PKNSession.Arrived, PKNSession.Arrived, hlast]
  | some k => exact Iff.rfl

/-- A request comes to the handler that there is. -/
theorem handed (h : s.Linked w a) (hi : i < s.n) {req : KeyGenRequest C} {ph : PKNSession C} {v : KeyNode C}
    (hph : (w i).pknHandler = some ph) (hrefused : v.refused = (w i).refused) (hdropped : v.dropped = (w i).dropped)
    (hperm : (v.incoming ++ v.creating ++ [req]).Perm ((w i).incoming ++ (w i).creating))
    (hload : 3 * v.incoming.length + 2 * v.creating.length + 1 <
      3 * (w i).incoming.length + 2 * (w i).creating.length) :
    s.Goes w i (v.onRequest s.n ph req) fun _ => none := by
  have hsession := h.session i hi
  rw [KeyNode.session_some hph] at hsession
  rw [KeyNode.onRequest_eq ph ((h.mail i hi).room hi hph)]
  refine h.quiet hi (KeyNode.created_some (h.created i hi ph hph))
    (hsession.rethread _ hsession.thread rfl fun hb => hb) ?_ hrefused hdropped ?_ ?_ ?_ ?_
  · have hlast : (ph.thread.held ++ (ph.receiveChan ++ [req])).Perm ([req] ++ (ph.thread.held ++ ph.receiveChan)) := by
      rw [← List.append_assoc]
      exact List.perm_append_comm
    rw [KeyNode.pending, KeyNode.pending, KeyNode.session_some hph]
    refine (hlast.append_left _).trans ?_
    rw [← List.append_assoc]
    exact hperm.append_right _
  · rw [KeyNode.session_some hph]
    rfl
  · rw [KeyNode.session_some hph]
    rfl
  · rw [KeyNode.session_some hph]
    rfl
  · simp only [KeyNode.load, KeyNode.session, hph, Option.getD_some, List.length_append, List.length_cons,
      List.length_nil]
    omega

/-- A request comes to `onPKNRequest`. -/
theorem request (h : s.Linked w a) (hi : i < s.n) {req : KeyGenRequest C} {before after : List (KeyGenRequest C)}
    (hin : (w i).incoming = before ++ req :: after) :
    s.Goes w i ({ w i with incoming := before ++ after }.onPKNRequest s.n req) fun _ => none := by
  have hmail := h.mail i hi
  cases hph : (w i).pknHandler with
  | some ph =>
    rw [KeyNode.onPKNRequest_some (v := { w i with incoming := before ++ after }) hph]
    refine h.handed hi hph rfl rfl ?_ ?_
    · rw [hin]
      simpa using KeyNode.perm_shift before (after ++ (w i).creating) [] req
    · simp only [hin, List.length_append, List.length_cons]
      omega
  | none =>
    have hmem : req ∈ (w i).pending s i := by
      rw [KeyNode.pending, hin]
      simp
    obtain ⟨hj, -, -⟩ := hmail.expected req hmem
    have hfirst : req.body.phase = some .phase1 := by
      by_contra hne
      exact h.joined hi hj hne ((hmail.accounted _ hj _).mpr
        (.inl (List.mem_map_of_mem (f := KeyGenRequest.key) hmem))) hph
    rw [KeyNode.onPKNRequest_none (v := { w i with incoming := before ++ after }) hph hfirst]
    refine h.quiet hi (h.created i hi) (h.session i hi) ?_ rfl rfl rfl rfl rfl ?_
    · simpa [KeyNode.pending, KeyNode.session, hin] using KeyNode.perm_shift before after
        ((w i).creating ++ (((w i).session s i).thread.held ++ ((w i).session s i).receiveChan)) req
    · simp only [KeyNode.load, KeyNode.session, hin, List.length_append, List.length_cons]
      omega

/-- A goroutine that has created a handler finds another one, or leaves its own. -/
theorem create (h : s.Linked w a) (hi : i < s.n) {req : KeyGenRequest C} {before after : List (KeyGenRequest C)}
    (hin : (w i).creating = before ++ req :: after) :
    s.Goes w i ({ w i with creating := before ++ after }.loadOrStore s i req) fun _ => none := by
  have hsession := h.session i hi
  cases hph : (w i).pknHandler with
  | some ph =>
    rw [KeyNode.loadOrStore_some (v := { w i with creating := before ++ after }) hph]
    refine h.handed hi hph rfl rfl ?_ ?_
    · rw [hin]
      simpa using KeyNode.perm_shift ((w i).incoming ++ before) after [] req
    · simp only [hin, List.length_append, List.length_cons]
      omega
  | none =>
    rw [KeyNode.session_none hph] at hsession
    rw [KeyNode.loadOrStore_none (v := { w i with creating := before ++ after }) hph]
    refine h.quiet hi (KeyNode.created_some (by simp))
      (hsession.rethread [] trivial rfl fun _ => rfl) ?_ rfl rfl ?_ ?_ ?_ ?_
    · simpa [KeyNode.pending, KeyNode.session, hph, hin, newPKNHandler, KeyThread.held] using
        KeyNode.perm_shift ((w i).incoming ++ before) after [] req
    · rw [KeyNode.session_none hph]
      rfl
    · rw [KeyNode.session_none hph]
      rfl
    · rw [KeyNode.session_none hph]
      rfl
    · simp only [KeyNode.load, KeyNode.session, hph, Option.getD_some, Option.getD_none, hin, List.length_append,
        List.length_cons, newPKNHandler, KeyThread.held, KeyThread.level_idle, KeyThread.level_spawned, List.length_nil]
      omega

/-- The goroutine of a notary that has been asked sends its message of the first phase. -/
theorem start (h : s.Linked w a) (hi : i < s.n) {ph : PKNSession C} {req : KeyGenRequest C}
    (hph : (w i).pknHandler = some ph) (hthread : ph.thread = .spawned req) :
    s.Goes w i ((w i).onRequest s.n { ph with thread := .waiting 0 } req)
      (s.wsBroadcast i (.early (.phase1 (s.message1 i)))) := by
  have hmail := h.mail i hi
  have hsession := h.session i hi
  have hroom := hmail.room hi hph
  rw [KeyNode.session_some hph] at hsession
  rw [KeyNode.onRequest_eq { ph with thread := .waiting 0 } hroom]
  have hnot : ∀ p, ¬ ((w i).session s i).Sent p := fun p hp => by
    rw [KeyNode.session_some hph, PKNSession.Sent, hthread] at hp
    exact Bool.false_ne_true hp.1
  have hsent : ∀ q, ({ ph with receiveChan := ph.receiveChan ++ [req], thread := .waiting 0 } : PKNSession C).Sent q ↔
      ((w i).session s i).Sent q ∨ q = some .phase1 := by
    intro q
    rw [or_iff_right (hnot q)]
    exact ⟨fun hq => stageOf_injective (Nat.le_zero.mp hq.2), fun hq => hq ▸ ⟨rfl, le_rfl⟩⟩
  refine ⟨⟨a, h.post hi h.run (fun _ _ => ⟨rfl, rfl, rfl⟩) (KeyNode.created_some (by simp)) ?_ ?_
    (.inr ⟨some .phase1, hnot _, hsent, fun j hj => if_pos hj⟩)⟩, fun p hp => absurd hp (hnot p), ?_⟩
  · exact hsession.rethread _ (Nat.zero_le 3) (by rw [hthread]; rfl) fun hb => absurd hb.symm Bool.false_ne_true
  · refine hmail.move ?_ rfl rfl fun j _ p => ?_
    · simpa [KeyNode.pending, KeyNode.session, hph, hthread, KeyThread.held] using
        KeyNode.perm_shift ((w i).incoming ++ (w i).creating) ph.receiveChan [] req
    · cases p <;> simp [PKNSession.Arrived, KeyNode.session, hph]
  · have hlt := s.sends_lt hi (s.wsBroadcast i (.early (.phase1 (s.message1 i))))
    simp only [KeyNode.load, KeyNode.session, hph, Option.getD_some, hthread, KeyThread.held, KeyThread.level_spawned,
      KeyThread.level_waiting, List.length_append, List.length_cons, List.length_nil]
    omega

/-! ### The handler reads a request -/

/-- A message of the first three phases that is pending makes a step of the abstract negotiation. -/
theorem accepts (h : s.Linked w a) (hz : s.NoScalarZero) (hi : i < s.n) (hj : j ∈ s.others i) {k : KeyGenPhase}
    (hsent : ((w j).session s j).Sent (some k)) (hnew : a.arrived i k j = false) (rg : Range ℕ) :
    ∃ ph, (a.handler i).receive s.n rg j (s.message j k i) = .ok ph ∧ s.Run { a with
      handler := Function.update a.handler i ph
      arrived := Function.update a.arrived i (Negotiation.mark k j (a.arrived i)) } := by
  have hno : ∀ i, i ∉ (∅ : Finset ℕ) := Finset.notMem_empty
  obtain ⟨hjn, hji⟩ := Dealers.mem_others.mp hj
  have hstage : k.sentAt ≤ a.stage j := by
    have hle := hsent.2
    have h3 := stageOf_le (some k)
    change k.sentAt ≤ _ at hle
    change k.sentAt ≤ 3 at h3
    rw [← (h.session j hjn).stage]
    omega
  obtain ⟨ph, hrecv, hquiet⟩ := h.sound.accepts hi (hno i) hjn hji (hz.early.allPass i hi (hno i) j hjn hji).1 hnew
    (fun hk => h.sound.keys_of_sent hi hjn hji (by rwa [hk] at hstage)) rg
  rw [Dealers.sends_message_of_notMem (hno j)] at hrecv
  have hmsg := (h.sound.held j hjn (hno j)).sent k i (Dealers.mem_others.mpr ⟨hi, hji.symm⟩)
  rw [if_pos hstage] at hmsg
  have hphase := phase_message (s := s) j k i
  have hstep : s.RunStep a { a with
      handler := Function.update a.handler i ph
      arrived := Function.update a.arrived i (Negotiation.mark (s.message j k i).phase j (a.arrived i)) } :=
    .deliver rg hjn hi hji (hno i) (fun hb => absurd hb (hno j))
      (fun _ => by rw [hphase]; exact ⟨hmsg, hnew⟩) hrecv hquiet
  rw [hphase] at hstep
  exact ⟨ph, hrecv, h.run.step hstep⟩

/-- The handler has read a request, and has its message. -/
theorem reads (h : s.Linked w a) (hi : i < s.n) {ph ph' : PKNSession C} {req : KeyGenRequest C}
    {rest : List (KeyGenRequest C)} (hph : (w i).pknHandler = some ph) (hreq : ph.receiveChan = req :: rest)
    (hrun : s.Run a')
    (hothers : ∀ j ≠ i, a'.handler j = a.handler j ∧ a'.stage j = a.stage j ∧ a'.arrived j = a.arrived j)
    (hfollows : ph'.Follows s i (a'.handler i) (a'.stage i) (a'.arrived i)) (hchan : ph'.receiveChan = rest)
    (hthread : ph'.thread = ph.thread)
    (harr : ∀ p j, ph'.Arrived (a'.arrived i) p j ↔ ph.Arrived (a.arrived i) p j ∨ (j, p) = req.key) :
    s.Goes w i { w i with pknHandler := some ph' } fun _ => none := by
  have hmail := h.mail i hi
  have hold : (w i).session s i = ph := KeyNode.session_some hph
  have hsent : ∀ p, ph'.Sent p ↔ ((w i).session s i).Sent p := fun p => by
    rw [hold, PKNSession.Sent, PKNSession.Sent, hthread]
  rw [hold] at hmail
  refine ⟨⟨a', h.post hi hrun hothers (KeyNode.created_some (by rw [hthread]; exact h.created i hi ph hph)) hfollows ?_
    (.inl ⟨fun _ => rfl, hsent⟩)⟩, fun p hp => (hsent p).mpr hp, ?_⟩
  · refine hmail.take req ?_ rfl rfl harr
    simpa [KeyNode.pending, KeyNode.session, hph, hreq, hchan, hthread] using
      (KeyNode.perm_shift [] ((w i).incoming ++ ((w i).creating ++ ph.thread.held)) rest req)
  · rw [sends_none]
    simp only [KeyNode.load, KeyNode.session, hph, Option.getD_some, hreq, hchan, hthread, List.length_cons]
    omega

/-- A notary that has sent its last proof, or waits for those of the others, knows the public key. -/
theorem publicKey (h : s.Linked w a) (hi : i < s.n) (hstage : 1 ≤ a.stage i) : (a.handler i).publicKey.isSome := by
  obtain ⟨-, rg, hkey⟩ := (h.sound.held i hi (Finset.notMem_empty i)).done1 (.inr hstage)
  rw [hkey]
  rfl

theorem receive (h : s.Linked w a) (hz : s.NoScalarZero) (hi : i < s.n) {ph : PKNSession C} {stage : ℕ}
    {req : KeyGenRequest C} {rest : List (KeyGenRequest C)} (rg : Range ℕ) (hph : (w i).pknHandler = some ph)
    (hthread : ph.thread = .waiting stage) (hreq : ph.receiveChan = req :: rest) :
    s.Goes w i { w i with pknHandler := some ({ ph with receiveChan := rest }.receive s rg req) } fun _ => none := by
  have hmail := h.mail i hi
  have hsession := h.session i hi
  have hold : (w i).session s i = ph := KeyNode.session_some hph
  rw [hold] at hmail hsession
  have hmem : req ∈ (w i).pending s i := by
    rw [KeyNode.pending, hold, hreq]
    simp
  obtain ⟨hj, hbody, hnew⟩ := hmail.expected req hmem
  have hsent := (hmail.accounted _ hj _).mpr (.inl (List.mem_map_of_mem (f := KeyGenRequest.key) hmem))
  obtain ⟨j, body⟩ := req
  dsimp only at hj hbody hnew hsent
  obtain ⟨hjn, hji⟩ := Dealers.mem_others.mp hj
  have hfresh : ph.thread.begun ≠ false := by
    rw [hthread]
    exact Bool.true_eq_false_eq_False
  cases hp : body.phase with
  | some k =>
    rw [hp] at hbody hnew hsent
    obtain ⟨h', hrecv, hrun⟩ := h.accepts hz hi hj hsent (by simpa [PKNSession.Arrived] using hnew) rg
    rw [← hsession.handler] at hrecv
    have heq : PKNSession.receive s rg { ph with receiveChan := rest } ⟨j, body⟩ =
        { ph with toPKNHandler := h', receiveChan := rest } := PKNSession.receive_early hbody hrecv
    rw [heq]
    refine h.reads hi hph hreq hrun (fun k' hk' => ⟨by simp [hk'], rfl, by simp [hk']⟩) ?_ rfl rfl fun p j' => ?_
    · exact {
        handler := by simp
        err := hsession.err
        thread := hsession.thread
        stage := hsession.stage
        fresh := fun hb => absurd hb hfresh
        keys4 := hsession.keys4
        own4 := hsession.own4
        signal4 := hsession.signal4 }
    · cases p with
      | none => simp [PKNSession.Arrived, KeyGenRequest.key, hp]
      | some k' =>
        simp only [PKNSession.Arrived, KeyGenRequest.key, hp, Function.update_self, Negotiation.mark, Prod.mk.injEq,
          Option.some.injEq]
        split_ifs with heq
        · simp [heq]
        · exact (or_iff_left fun hc => heq hc.symm).symm
  | none =>
    rw [hp] at hbody hnew hsent
    have hnone : ph.lastPubkeyProof4.lookup j = none := Option.not_isSome_iff_eq_none.mp hnew
    have hlookup : ∀ k, (ph.lastPubkeyProof4.insert j (s.message4 j)).lookup k =
        if k = j then some (s.message4 j) else ph.lastPubkeyProof4.lookup k :=
          fun k => RangeMap.lookup_insert_eq _ _ _ _
    have hkeys : ∀ k m, (ph.lastPubkeyProof4.insert j (s.message4 j)).lookup k = some m → k < s.n := fun k m hm => by
      rw [hlookup] at hm
      split_ifs at hm with hkj
      · exact hkj ▸ hjn
      · exact hsession.keys4 k m hm
    have hown : (ph.lastPubkeyProof4.insert j (s.message4 j)).lookup i = ph.lastPubkeyProof4.lookup i := by
      rw [hlookup, if_neg hji.symm]
    have hkey : RangeMap.len (ph.lastPubkeyProof4.insert j (s.message4 j)) = s.n → ph.publicKey.isSome := fun hlen => by
      obtain ⟨m, hm⟩ := PKNSession.lookup_of_len hkeys hlen hi
      have hstage := hsession.own4.mp (by rw [← hown, hm]; rfl)
      have hlate : 1 ≤ a.stage i := by
        rw [← hsession.stage]
        omega
      rw [hsession.handler]
      exact h.publicKey hi hlate
    obtain ⟨d, hcheck, hd⟩ := PKNSession.checkPhase4Done_store { ph with receiveChan := rest } hsession.keys4
      (fun hd => hsession.signal4.mpr (.inl hd)) hjn hnone (s.message4 j) hkey
    have heq : PKNSession.receive s rg { ph with receiveChan := rest } ⟨j, body⟩ = { ph with
        receiveChan := rest
        lastPubkeyProof4 := ph.lastPubkeyProof4.insert j (s.message4 j)
        phase4DoneChan := d } :=
      PKNSession.receive_phase4 rg hbody ((PKNSession.receivePhase4_ok { ph with receiveChan := rest }
        ((verifyDLog_prove _ _).trans (if_neg (not_or.mpr (hz.proof j hjn)))) hnone).trans hcheck)
    rw [heq]
    refine h.reads hi hph hreq h.run (fun _ _ => ⟨rfl, rfl, rfl⟩) ?_ rfl rfl fun p j' => ?_
    · exact {
        handler := hsession.handler
        err := hsession.err
        thread := hsession.thread
        stage := hsession.stage
        fresh := fun hb => absurd hb hfresh
        keys4 := hkeys
        own4 := by
          rw [hown]
          exact hsession.own4
        signal4 := by
          rw [hd]
          refine ⟨.inl, fun hor => hor.resolve_right fun h4 => ?_⟩
          have hle := hsession.thread
          rw [hthread] at h4 hle
          exact absurd (h4.symm.trans_le hle) (by decide) }
    · cases p with
      | none =>
        simp only [PKNSession.Arrived, KeyGenRequest.key, hp, hlookup, Prod.mk.injEq, and_true]
        split_ifs with heq
        · simp [heq]
        · simp [heq]
      | some k' => simp [PKNSession.Arrived, KeyGenRequest.key, hp]

/-! ### The goroutine goes on -/

/-- The goroutine has sent the message of the next phase. -/
theorem advance (h : s.Linked w a) (hi : i < s.n) {ph ph' : PKNSession C} {k : ℕ} {p : Option KeyGenPhase}
    {out : ℕ → Option (KeyGenBody C)} (hph : (w i).pknHandler = some ph) (hthread : ph.thread = .waiting k)
    (hp : stageOf p = k + 1) (hthread' : ph'.thread = .waiting (k + 1)) (hchan : ph'.receiveChan = ph.receiveChan)
    (hrun : s.Run a')
    (hothers : ∀ j ≠ i, a'.handler j = a.handler j ∧ a'.stage j = a.stage j ∧ a'.arrived j = a.arrived j)
    (hfollows : ph'.Follows s i (a'.handler i) (a'.stage i) (a'.arrived i))
    (harr : ∀ j ∈ s.others i, ∀ q, ph'.Arrived (a'.arrived i) q j ↔ ph.Arrived (a.arrived i) q j)
    (hout : ∀ j ∈ s.others i, out j = some (s.body i p j)) : s.Goes w i { w i with pknHandler := some ph' } out := by
  have hmail := h.mail i hi
  have hold : (w i).session s i = ph := KeyNode.session_some hph
  have hle := stageOf_le p
  have hnot : ¬ ((w i).session s i).Sent p := by
    rw [hold, PKNSession.Sent, hthread]
    exact fun hs => absurd hs.2 (by rw [hp]; exact Nat.not_succ_le_self k)
  have hsent : ∀ q, ph'.Sent q ↔ ((w i).session s i).Sent q ∨ q = p := by
    intro q
    rw [hold, PKNSession.Sent, PKNSession.Sent, hthread, hthread']
    simp only [KeyThread.begun, KeyThread.stage, true_and]
    rw [Nat.le_succ_iff, show k.succ = stageOf p from hp.symm, stageOf_injective.eq_iff]
  rw [hold] at hmail
  refine ⟨⟨a', h.post hi hrun hothers (KeyNode.created_some (by rw [hthread']; simp)) hfollows ?_
    (.inr ⟨p, hnot, hsent, hout⟩)⟩, fun q hq => (hsent q).mpr (.inl hq), ?_⟩
  · refine hmail.move ?_ rfl rfl harr
    simp [KeyNode.pending, KeyNode.session, hph, hchan, hthread, hthread', KeyThread.held]
  · have hlt := s.sends_lt hi out
    have hk : 5 - (k + 1) = (5 - (k + 1 + 1)) + 1 := by omega
    simp only [KeyNode.load, KeyNode.session, hph, Option.getD_some, hchan, hthread, hthread', KeyThread.held,
      KeyThread.level_waiting, List.length_nil, hk, Nat.mul_succ]
    omega

/-- The end of the first phase. -/
theorem proceed_phase1 (h : s.Linked w a) (hi : i < s.n) {ph : PKNSession C} (rg : Range ℕ)
    (hph : (w i).pknHandler = some ph) (hthread : ph.thread = .waiting 0) (hsignal : .phase1 ∈ ph.doneChan) :
    s.Goes w i { w i with pknHandler := some ((ph.take 0).proceed s rg i 0).1 } ((ph.take 0).proceed s rg i 0).2 := by
  have hsession := h.session i hi
  rw [KeyNode.session_some hph] at hsession
  have hgood : i ∉ (∅ : Finset ℕ) := Finset.notMem_empty i
  have hstage : a.stage i = 0 := by
    rw [← hsession.stage, hthread]
    rfl
  have hstep : s.RunStep a _ := .finish1 hi hgood hstage (hsession.handler ▸ hsignal)
  have htaken : (ph.take 0).toPKNHandler = a.taken i .phase1 := by
    rw [Negotiation.taken, ← hsession.handler]
    rfl
  have hrun := h.run.step hstep
  rw [PKNSession.proceed_phase1 rg (show (ph.take 0).err = none from hsession.err), htaken]
  refine h.advance hi hph hthread (show stageOf (some .phase2) = 0 + 1 from rfl) rfl rfl hrun
    (fun j hj => ⟨by simp [hj], by simp [hj], rfl⟩) ?_ (fun j _ q => by cases q <;> exact Iff.rfl) fun j hj => ?_
  · dsimp only
    rw [Function.update_self, Function.update_self]
    exact hsession.next (by decide) hthread rfl rfl rfl rfl rfl
  · have hsent := ((Negotiation.Reached.sound hrun).held i hi hgood).sent .phase2 j hj
    simp only [Negotiation.send, Function.update_self] at hsent
    rw [if_pos (by decide)] at hsent
    exact (if_pos hj).trans (congrArg (fun m => m.map KeyGenBody.early) hsent)

/-- The end of the second phase. -/
theorem proceed_phase2 (h : s.Linked w a) (hi : i < s.n) {ph : PKNSession C} (rg : Range ℕ)
    (hph : (w i).pknHandler = some ph) (hthread : ph.thread = .waiting 1) (hsignal : .phase2 ∈ ph.doneChan) :
    s.Goes w i { w i with pknHandler := some ((ph.take 1).proceed s rg i 1).1 } ((ph.take 1).proceed s rg i 1).2 := by
  have hsession := h.session i hi
  rw [KeyNode.session_some hph] at hsession
  have hgood : i ∉ (∅ : Finset ℕ) := Finset.notMem_empty i
  have hstage : a.stage i = 1 := by
    rw [← hsession.stage, hthread]
    rfl
  have hdone : .phase2 ∈ (a.handler i).doneChan := hsession.handler ▸ hsignal
  obtain ⟨h', msgs, hdeal, hquiet⟩ := h.sound.deals hi hgood hstage.ge
    (fun j _ _ => Dealers.sends_opens_of_notMem (Finset.notMem_empty j) i)
    (fun j hj hji => (h.sound.held i hi hgood).arrived2 (.inl hdone) hj hji) rg
  have hrun := h.run.step (.finish2 rg hi hgood hstage hdone hdeal hquiet)
  have htaken : (ph.take 1).toPKNHandler = a.taken i .phase2 := by
    rw [Negotiation.taken, ← hsession.handler]
    rfl
  rw [← htaken] at hdeal
  rw [PKNSession.proceed_phase2 rg (show (ph.take 1).err = none from hsession.err) hdeal]
  refine h.advance hi hph hthread (show stageOf (some .phase3) = 1 + 1 from rfl) rfl rfl hrun
    (fun j hj => ⟨by simp [hj], by simp [hj], rfl⟩) ?_ (fun j _ q => by cases q <;> exact Iff.rfl) fun j hj => ?_
  · dsimp only
    rw [Function.update_self, Function.update_self]
    exact hsession.next (by decide) hthread rfl rfl rfl rfl rfl
  · have hsent := ((Negotiation.Reached.sound hrun).held i hi hgood).sent .phase3 j hj
    simp only [Negotiation.send, Function.update_self] at hsent
    rw [if_pos (by decide)] at hsent
    have hbody := congrArg (fun m => m.map KeyGenBody.early) hsent
    rw [Option.map_map] at hbody
    exact hbody

/-- The end of the third phase. -/
theorem proceed_phase3 (h : s.Linked w a) (hz : s.NoScalarZero) (hi : i < s.n) {ph : PKNSession C} (rg : Range ℕ)
    (hph : (w i).pknHandler = some ph) (hthread : ph.thread = .waiting 2) (hsignal : .phase3 ∈ ph.doneChan) :
    s.Goes w i { w i with pknHandler := some ((ph.take 2).proceed s rg i 2).1 } ((ph.take 2).proceed s rg i 2).2 := by
  have hsession := h.session i hi
  rw [KeyNode.session_some hph] at hsession
  have hgood : i ∉ (∅ : Finset ℕ) := Finset.notMem_empty i
  have hstage : a.stage i = 2 := by
    rw [← hsession.stage, hthread]
    rfl
  have hrun := h.run.step (.finish3 hi hgood hstage (hsession.handler ▸ hsignal))
  have hsound := Negotiation.Reached.sound hrun
  have htaken : (ph.take 2).toPKNHandler = a.taken i .phase3 := by
    rw [Negotiation.taken, ← hsession.handler]
    rfl
  have hxi : (ph.take 2).xi = some (s.finalShare i) := by
    have hfinal := hsound.xi_final hi (by simp)
    rw [htaken]
    simpa using hfinal
  have hself : (ph.take 2).selfNotaryID = i := by
    rw [htaken]
    exact (h.sound.held i hi hgood).self
  have hown := hsession.own4
  have hsignal4 := hsession.signal4
  rw [hthread] at hown hsignal4
  have hnone : ph.lastPubkeyProof4.lookup i = none :=
    Option.not_isSome_iff_eq_none.mp fun hs => absurd (hown.mp hs) (Nat.not_succ_le_self 2)
  have hkey : (ph.take 2).publicKey.isSome := by
    rw [htaken]
    exact h.publicKey hi (by omega)
  obtain ⟨d, hcheck, hd⟩ := PKNSession.checkPhase4Done_store (ph.take 2) hsession.keys4
    (fun hd => hsignal4.mpr (.inl hd)) hi hnone (s.message4 i) fun _ => hkey
  have hgen := PKNSession.generatePhase4_ok (ph.take 2) hself hxi (hz.share i hi) (Nat.mod_lt _ C.prime.pos) hcheck
  have hlookup : ∀ k, (ph.lastPubkeyProof4.insert i (s.message4 i)).lookup k =
      if k = i then some (s.message4 i) else ph.lastPubkeyProof4.lookup k := fun k => RangeMap.lookup_insert_eq _ _ _ _
  rw [PKNSession.proceed_phase3 rg (show (ph.take 2).err = none from hsession.err) hgen]
  refine h.advance hi hph hthread (show stageOf none = 2 + 1 from rfl) rfl rfl hrun
    (fun j hj => ⟨by simp [hj], by simp [hj], rfl⟩) ?_ (fun j hj q => ?_) fun j hj => if_pos hj
  · exact {
      handler := by
        dsimp only
        rw [Function.update_self]
        exact htaken
      err := hsession.err
      thread := show 3 ≤ 3 from le_rfl
      stage := by simp [KeyThread.stage]
      fresh := fun hb => absurd hb.symm Bool.false_ne_true
      keys4 := fun k m hm => by
        rw [show (ph.take 2).lastPubkeyProof4 = ph.lastPubkeyProof4 from rfl, hlookup] at hm
        split_ifs at hm with hki
        · exact hki ▸ hi
        · exact hsession.keys4 k m hm
      own4 := by
        rw [show (ph.take 2).lastPubkeyProof4 = ph.lastPubkeyProof4 from rfl, hlookup, if_pos rfl]
        exact ⟨fun _ => le_rfl, fun _ => rfl⟩
      signal4 := hd.trans (or_iff_left (show ¬ 3 = 4 by decide)).symm }
  · cases q with
    | none =>
      change (((ph.lastPubkeyProof4.insert i (s.message4 i)).lookup j).isSome = true ↔ _)
      rw [hlookup, if_neg (Dealers.mem_others.mp hj).2]
      exact Iff.rfl
    | some k => exact Iff.rfl

/-- The end of the last phase. -/
theorem proceed_phase4 (h : s.Linked w a) (hi : i < s.n) {ph : PKNSession C} (rg : Range ℕ)
    (hph : (w i).pknHandler = some ph) (hthread : ph.thread = .waiting 3) (hsignal : 0 < ph.phase4DoneChan) :
    s.Goes w i { w i with pknHandler := some ((ph.take 3).proceed s rg i 3).1 } ((ph.take 3).proceed s rg i 3).2 := by
  have hmail := h.mail i hi
  have hsession := h.session i hi
  have hold : (w i).session s i = ph := KeyNode.session_some hph
  rw [hold] at hsession hmail
  rw [PKNSession.proceed_phase4 rg (show (ph.take 3).err = none from hsession.err)]
  have hsent : ∀ q, ({ ph.take 3 with thread := .returned none } : PKNSession C).Sent q ↔
      ((w i).session s i).Sent q := by
    intro q
    have hle := stageOf_le q
    rw [hold, PKNSession.Sent, PKNSession.Sent, hthread]
    exact ⟨fun _ => ⟨rfl, hle⟩, fun _ => ⟨rfl, Nat.le_succ_of_le hle⟩⟩
  refine ⟨⟨a, h.post hi h.run (fun _ _ => ⟨rfl, rfl, rfl⟩) (KeyNode.created_some (by simp)) ?_ ?_
    (.inl ⟨fun _ => rfl, hsent⟩)⟩, fun q hq => (hsent q).mpr hq, ?_⟩
  · have hown := hsession.own4
    have hsignal4 := hsession.signal4
    have hstage := hsession.stage
    rw [hthread] at hown hsignal4 hstage
    exact {
      handler := hsession.handler
      err := hsession.err
      thread := rfl
      stage := hstage
      fresh := fun hb => absurd hb.symm Bool.false_ne_true
      keys4 := hsession.keys4
      own4 := hown.trans ⟨fun _ => show 3 ≤ 4 by decide, fun _ => le_rfl⟩
      signal4 := ⟨fun _ => .inr rfl, fun _ => hsignal4.mpr (.inl hsignal)⟩ }
  · refine hmail.move ?_ rfl rfl fun j _ p => by cases p <;> exact Iff.rfl
    simp [KeyNode.pending, KeyNode.session, hph, hthread, KeyThread.held, PKNSession.take]
  · rw [sends_none]
    simp only [KeyNode.load, KeyNode.session, hph, Option.getD_some, hthread, KeyThread.held, KeyThread.level_waiting,
      KeyThread.level_returned, PKNSession.take]
    omega

/-- Every step of a notary is one of these. -/
theorem step (h : s.Linked w a) (hz : s.NoScalarZero) (hi : i < s.n) {v : KeyNode C} {out : ℕ → Option (KeyGenBody C)}
    (hstep : KeyNode.Step s i (w i) v out) : s.Goes w i v out := by
  cases hstep with
  | request req hin => exact h.request hi hin
  | create req hin => exact h.create hi hin
  | start hph hthread => exact h.start hi hph hthread
  | receive rg hph hthread hreq => exact h.receive hz hi rg hph hthread hreq
  | @readError ph _ _ _ hph _ hquit =>
    have hsession := h.session i hi
    rw [KeyNode.session_some hph] at hsession
    have hempty := (h.sound.held i hi (Finset.notMem_empty i)).quiet
    rw [← hsession.handler, hquit] at hempty
    cases hempty
  | @proceed ph stage rg hph hthread hsignal =>
    have hfine := (h.session i hi).thread
    rw [KeyNode.session_some hph, hthread] at hfine
    have hle : stage ≤ 3 := hfine
    interval_cases stage
    · exact h.proceed_phase1 hi rg hph hthread hsignal
    · exact h.proceed_phase2 hi rg hph hthread hsignal
    · exact h.proceed_phase3 hz hi rg hph hthread hsignal
    · exact h.proceed_phase4 hi rg hph hthread hsignal

end Linked

end KeyCommittee

end DistributedNotary.Mecdsa
