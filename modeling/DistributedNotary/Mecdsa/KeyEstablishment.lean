import DistributedNotary.Mecdsa.KeyRuns

/-! A session that a notary has started comes to its end at all notaries and
leaves one key with them, in whatever order requests arrive and goroutines run. -/
namespace DistributedNotary.Mecdsa

open Library Share Proofs

variable {C : Curve}

namespace KeyCommittee

variable (s : KeyCommittee C)

/-- The public key, by the secrets of all notaries. -/
def totalKey : C.Point := (∑ j ∈ Finset.range s.n, ((s.ui j : ℕ) : ZMod C.N)) • C.G

/-- The goroutines of all notaries have returned a key. -/
def Finished (w : ℕ → KeyNode C) : Prop := ∀ i < s.n, ∃ ph, (w i).pknHandler = some ph ∧ ph.thread = .returned none

/-- No request has found no handler or a full channel, and no goroutine has panicked or read an error. -/
def Faultless (w : ℕ → KeyNode C) : Prop := ∀ i < s.n, (w i).refused = [] ∧ (w i).dropped = [] ∧
  ∀ ph, (w i).pknHandler = some ph → ph.quitChan = [] ∧ ph.err = none ∧ ph.thread.Fine

/-- A notary that has returned holds the public key and its private share. -/
def Agreed (w : ℕ → KeyNode C) : Prop := ∀ i < s.n, ∀ ph, (w i).pknHandler = some ph → ph.thread = .returned none →
  ph.publicKey = some s.totalKey ∧ ph.xi = some (s.finalShare i)

/-- A session that notary `i` has started gives every large enough set of signers what it needs. -/
structure Establishes (i : ℕ) : Prop where
  follows : ∀ w, s.Sessions i w → ∃ a, s.Run a ∧ ∀ j < s.n, ((w j).session s j).toPKNHandler = a.handler j
  faultless : ∀ w, s.Sessions i w → s.Faultless w
  agreed : ∀ w, s.Sessions i w → s.Agreed w
  finite : ∀ run : ℕ → ℕ → KeyNode C, s.Sessions i (run 0) → ∃ k, ¬ s.Step (run k) (run (k+1))
  finished : ∀ w, s.Sessions i w → (∀ w', ¬ s.Step w w') → s.Finished w
  outcome : ∀ w, s.Sessions i w → s.Finished w → ∃ a xi, s.Outcome a s.totalKey xi ∧
    ∀ j < s.n, ((w j).session s j).toPKNHandler = a.handler j

/-- What all notaries have still to do. -/
def totalLoad (w : ℕ → KeyNode C) : ℕ := ∑ i ∈ Finset.range s.n, (w i).load s i

variable {s} {w w' : ℕ → KeyNode C} {a : Negotiation C} {i j : ℕ}

/-! ### The start -/

theorem follows_newPKNHandler (i : ℕ) :
    (s.newPKNHandler i).Follows s i ((Negotiation.start s.toDealers).handler i) 0 fun _ _ => false where
  handler := rfl
  err := rfl
  thread := trivial
  stage := rfl
  fresh _ := ⟨rfl, fun _ _ => rfl⟩
  keys4 j m h := by simp [newPKNHandler] at h
  own4 := by simp [newPKNHandler, KeyThread.stage]
  signal4 := by
    have hpos : 0 < s.n := lt_of_le_of_lt (Nat.zero_le _) s.t_lt
    simp [newPKNHandler, KeyThread.stage, RangeMap.len_empty]
    omega

theorem linked_empty (s : KeyCommittee C) : s.Linked (fun _ => {}) (Negotiation.start s.toDealers) where
  run := .init rfl
  created i _ ph h := by cases h
  session i _ := follows_newPKNHandler i
  mail i _ := KeyNode.Mail.empty (fun j _ p h => Bool.false_ne_true h.1) fun p j h => by
    cases p with
    | none => simp [PKNSession.Arrived, KeyNode.session, newPKNHandler] at h
    | some k => exact Bool.false_ne_true h

theorem linked_started (hi : i < s.n) : s.Linked (s.started i) (Negotiation.start s.toDealers) := by
  have h := s.linked_empty
  have hnot : ∀ p, ¬ (({} : KeyNode C).session s i).Sent p := fun p hp => Bool.false_ne_true hp.1
  refine h.post hi h.run (fun _ _ => ⟨rfl, rfl, rfl⟩) (KeyNode.created_some (by simp)) ?_ ?_
    (.inr ⟨some .phase1, hnot _, fun q => ?_, fun j hj => if_pos hj⟩)
  · exact (follows_newPKNHandler i).rethread [] (Nat.zero_le 3) rfl fun hb => absurd hb.symm Bool.false_ne_true
  · refine (h.mail i hi).move (.refl _) rfl rfl fun j _ p => ?_
    cases p <;> exact Iff.rfl
  · rw [or_iff_right (hnot q)]
    exact ⟨fun hq => stageOf_injective (Nat.le_zero.mp hq.2), fun hq => hq ▸ ⟨rfl, le_rfl⟩⟩

theorem session_post (hne : j ≠ i) (v : KeyNode C) (out : ℕ → Option (KeyGenBody C)) :
    (post w i v out j).session s j = (w j).session s j := by
  rw [post, if_neg hne]
  rfl

/-- In every state of a session the notaries are where a run of the abstract negotiation is, and the notary that has
started it has sent its first message. -/
theorem Sessions.linked (hz : s.NoScalarZero) (hi : i < s.n) (h : s.Sessions i w) :
    (∃ a, s.Linked w a) ∧ ((w i).session s i).Sent (some .phase1) := by
  refine h.invariant (p := fun w => (∃ a, s.Linked w a) ∧ ((w i).session s i).Sent (some .phase1)) (fun w hw => ?_)
    fun w w' _ ⟨⟨a, hlinked⟩, hsent⟩ hstep => ?_
  · rw [hw]
    refine ⟨⟨_, linked_started hi⟩, ?_⟩
    rw [started, post, if_pos rfl]
    exact ⟨rfl, le_rfl⟩
  · cases hstep with
    | @node k v out hk hnode =>
      have hgoes := hlinked.step hz hk hnode
      refine ⟨hgoes.linked, ?_⟩
      rcases eq_or_ne i k with rfl | hne
      · rw [post, if_pos rfl]
        exact hgoes.sent _ hsent
      · rwa [session_post hne]

/-! ### The end comes nearer -/

theorem load_post (hne : j ≠ i) (v : KeyNode C) (out : ℕ → Option (KeyGenBody C)) :
    (post w i v out j).load s j = (w j).load s j + 3 * (out j).toList.length := by
  rw [post, if_neg hne]
  simp only [KeyNode.load, KeyNode.session, List.length_append, List.length_map]
  omega

theorem Linked.totalLoad_lt (h : s.Linked w a) (hz : s.NoScalarZero) (hstep : s.Step w w') :
    s.totalLoad w' < s.totalLoad w := by
  cases hstep with
  | @node i v out hi hnode =>
    have hload := (h.step hz hi hnode).load
    have hmem := Finset.mem_range.mpr hi
    have hothers : ∑ j ∈ (Finset.range s.n).erase i, (KeyCommittee.post w i v out j).load s j =
        ∑ j ∈ (Finset.range s.n).erase i, (w j).load s j + 3 * s.sends i out := by
      rw [sends, Finset.mul_sum, ← Finset.sum_add_distrib]
      exact Finset.sum_congr rfl fun j hj => load_post (Finset.ne_of_mem_erase hj) v out
    have hself : KeyCommittee.post w i v out i = v := if_pos rfl
    rw [totalLoad, totalLoad, ← Finset.add_sum_erase _ _ hmem, ← Finset.add_sum_erase _ _ hmem, hothers, hself]
    omega

/-! ### It is reached -/

/-- A notary without a step, which has taken in all that was sent to it. -/
structure Idle (s : KeyCommittee C) (i : ℕ) (v : KeyNode C) : Prop where
  incoming : v.incoming = []
  creating : v.creating = []
  spawned : ∀ req, (v.session s i).thread ≠ .spawned req
  receiveChan : ∀ k, (v.session s i).thread = .waiting k → (v.session s i).receiveChan = []
  signal : ∀ k, (v.session s i).thread = .waiting k → ¬ (v.session s i).Signals k

theorem idle_of_stuck (hi : i < s.n) (hstuck : ∀ w', ¬ s.Step w w') : Idle s i (w i) := by
  have hno : ∀ v out, ¬ KeyNode.Step s i (w i) v out := fun v out h => hstuck _ (.node hi h)
  have hhandler : ∀ t, ((w i).session s i).thread = t → t ≠ .idle →
      (w i).pknHandler = some ((w i).session s i) := by
    rintro t rfl ht
    cases hph : (w i).pknHandler with
    | none =>
      rw [KeyNode.session_none hph] at ht
      exact absurd rfl ht
    | some ph => rw [KeyNode.session_some hph]
  constructor
  · cases hin : (w i).incoming with
    | nil => rfl
    | cons req l => exact absurd (.request req (show (w i).incoming = [] ++ req :: l from hin)) (hno _ _)
  · cases hin : (w i).creating with
    | nil => rfl
    | cons req l => exact absurd (.create req (show (w i).creating = [] ++ req :: l from hin)) (hno _ _)
  · exact fun req ht => hno _ _ (.start (hhandler _ ht (by simp)) ht)
  · intro k ht
    cases hchan : ((w i).session s i).receiveChan with
    | nil => rfl
    | cons req l => exact absurd (.receive (Range.id ℕ) (hhandler _ ht (by simp)) ht hchan) (hno _ _)
  · exact fun k ht hs => hno _ _ (.proceed (Range.id ℕ) (hhandler _ ht (by simp)) ht hs)

/-- A notary that has nothing to read has all that was sent to it. -/
theorem Idle.arrived_of_sent (h : Idle s i (w i)) (hlinked : s.Linked w a) (hi : i < s.n) (hj : j ∈ s.others i)
    (hchan : ((w i).session s i).receiveChan = []) {p : Option KeyGenPhase} (hsent : ((w j).session s j).Sent p) :
    ((w i).session s i).Arrived (a.arrived i) p j := by
  have hheld : ((w i).session s i).thread.held = [] := by
    cases ht : ((w i).session s i).thread with
    | spawned req => exact absurd ht (h.spawned req)
    | _ => rfl
  have hpending : (w i).pending s i = [] := by
    rw [KeyNode.pending, h.incoming, h.creating, hheld, hchan]
    rfl
  have harrived := ((hlinked.mail i hi).accounted j hj p).mp hsent
  rw [hpending] at harrived
  exact harrived.resolve_left List.not_mem_nil

/-- The message of the notary that has started the session has reached all others. -/
theorem Idle.begun (h : Idle s i (w i)) (hlinked : s.Linked w a) (hi : i < s.n) (hj : j < s.n)
    (hsent : ((w j).session s j).Sent (some .phase1)) : ((w i).session s i).thread.begun = true := by
  rcases eq_or_ne j i with rfl | hji
  · exact hsent.1
  · by_contra hb
    have hfalse := eq_false_of_ne_true hb
    have hidle : ((w i).session s i).thread = .idle := by
      cases ht : ((w i).session s i).thread with
      | idle => rfl
      | spawned req => exact absurd ht (h.spawned req)
      | _ =>
        rw [ht] at hfalse
        cases hfalse
    have hnone : (w i).pknHandler = none := by
      cases hph : (w i).pknHandler with
      | none => rfl
      | some ph =>
        rw [KeyNode.session_some hph] at hidle
        exact absurd hidle (hlinked.created i hi ph hph)
    have harrived := h.arrived_of_sent hlinked hi (Dealers.mem_others.mpr ⟨hj, hji⟩)
      (by rw [KeyNode.session_none hnone]; rfl) hsent
    exact Bool.false_ne_true ((((hlinked.session i hi).fresh hfalse).2 .phase1 j).symm.trans harrived)

/-- A notary that has what the others have sent in its phase has been told so. -/
theorem Linked.signals (h : s.Linked w a) (hn : 1 < s.n) (hi : i < s.n) {k : ℕ}
    (hthread : ((w i).session s i).thread = .waiting k)
    (hall : ∀ p, stageOf p = k → ∀ j ∈ s.others i, ((w i).session s i).Arrived (a.arrived i) p j) :
    ((w i).session s i).Signals k := by
  have hsession := h.session i hi
  have hle : k ≤ 3 := by
    have hfine := hsession.thread
    rwa [hthread] at hfine
  have hstage : min 3 k = a.stage i := by
    rw [← hsession.stage, hthread]
    rfl
  have hearly (p : KeyGenPhase) (hp : p.sentAt = k) : p ∈ ((w i).session s i).doneChan := by
    rw [hsession.handler]
    have hlt : p.sentAt ≤ 2 := by cases p <;> decide
    exact h.sound.signalled hn hi (by omega) (hall (some p) hp)
  interval_cases k
  · exact hearly .phase1 rfl
  · exact hearly .phase2 rfl
  · exact hearly .phase3 rfl
  · have hkeys : RangeMap.Gathers ((w i).session s i).lastPubkeyProof4 (List.range s.n) (fun _ _ => True)
        fun j => (((w i).session s i).lastPubkeyProof4.lookup j).isSome :=
      ⟨fun j m hm => ⟨List.mem_range.mpr (hsession.keys4 j m hm), trivial⟩, fun _ _ => Iff.rfl⟩
    have hlen := hkeys.len_eq List.nodup_range fun j hj => by
      rcases eq_or_ne j i with rfl | hji
      · exact hsession.own4.mpr (by rw [hthread]; rfl)
      · exact hall none rfl j (Dealers.mem_others.mpr ⟨List.mem_range.mp hj, hji⟩)
    rw [List.length_range] at hlen
    refine (hsession.signal4.mp hlen).resolve_right fun h4 => ?_
    rw [hthread] at h4
    exact absurd (show (3 : ℕ) = 4 from h4) (by decide)

/-- As long as a notary has not returned, there is a step: of the notary that is furthest behind, or of one that
has still a request to take in. -/
theorem Linked.finished_of_stuck (h : s.Linked w a) (hn : 1 < s.n) {i₀ : ℕ} (hi₀ : i₀ < s.n)
    (hsent : ((w i₀).session s i₀).Sent (some .phase1)) (hstuck : ∀ w', ¬ s.Step w w') : s.Finished w := by
  have hidle : ∀ i < s.n, Idle s i (w i) := fun i hi => idle_of_stuck hi hstuck
  have hbegun : ∀ i < s.n, ((w i).session s i).thread.begun = true := fun i hi =>
    (hidle i hi).begun h hi hi₀ hsent
  obtain ⟨i, hi, hmin⟩ := Finset.exists_min_image (Finset.range s.n) (fun i => ((w i).session s i).thread.stage)
    ⟨i₀, Finset.mem_range.mpr hi₀⟩
  have hi := Finset.mem_range.mp hi
  -- the one that is furthest behind waits for nothing any more
  have hreturned : ((w i).session s i).thread.stage = 4 := by
    have hb := hbegun i hi
    have hfine := (h.session i hi).thread
    cases hthread : ((w i).session s i).thread with
    | waiting k =>
      rw [hthread] at hmin
      refine absurd (h.signals hn hi hthread fun p hp j hj => ?_) ((hidle i hi).signal k hthread)
      obtain ⟨hjn, -⟩ := Dealers.mem_others.mp hj
      exact (hidle i hi).arrived_of_sent h hi hj ((hidle i hi).receiveChan k hthread)
        ⟨hbegun j hjn, hp.trans_le (hmin j (Finset.mem_range.mpr hjn))⟩
    | returned err => rfl
    | panicked err =>
      rw [hthread] at hfine
      exact hfine.elim
    | _ =>
      rw [hthread] at hb
      cases hb
  intro j hj
  have hle := hmin j (Finset.mem_range.mpr hj)
  have hfine := (h.session j hj).thread
  rw [hreturned] at hle
  cases hph : (w j).pknHandler with
  | none =>
    have hb := hbegun j hj
    rw [KeyNode.session_none hph] at hb
    cases hb
  | some ph =>
    rw [KeyNode.session_some hph] at hle hfine
    refine ⟨ph, rfl, ?_⟩
    cases hthread : ph.thread with
    | waiting k =>
      rw [hthread] at hle hfine
      exact absurd (hle.trans hfine) (by decide)
    | returned err =>
      rw [hthread] at hfine
      rw [show err = none from hfine]
    | panicked err =>
      rw [hthread] at hfine
      exact hfine.elim
    | _ =>
      rw [hthread] at hle
      exact absurd (show 4 ≤ 0 from hle) (by decide)

/-! ### What the notaries hold -/

theorem Linked.faultless (h : s.Linked w a) : s.Faultless w := by
  intro i hi
  refine ⟨(h.mail i hi).refused, (h.mail i hi).dropped, fun ph hph => ?_⟩
  have hsession := h.session i hi
  rw [KeyNode.session_some hph] at hsession
  refine ⟨?_, hsession.err, hsession.thread⟩
  rw [hsession.handler]
  exact (h.sound.held i hi (Finset.notMem_empty i)).quiet

theorem Linked.agreed (h : s.Linked w a) : s.Agreed w := by
  intro i hi ph hph hthread
  have hsession := h.session i hi
  rw [KeyNode.session_some hph] at hsession
  have hstage : a.stage i = 3 := by
    rw [← hsession.stage, hthread]
    rfl
  rw [hsession.handler]
  exact ⟨h.sound.publicKey_final hi (by omega), h.sound.xi_final hi hstage.ge⟩

theorem Linked.finished (h : s.Linked w a) (hfin : s.Finished w) : Negotiation.Finished s.toDealers ∅ a := by
  intro i hi _
  obtain ⟨ph, hph, hthread⟩ := hfin i hi
  have hsession := h.session i hi
  rw [KeyNode.session_some hph] at hsession
  rw [← hsession.stage, hthread]
  rfl

/-- A session leaves one key with all notaries when no scalar of it is zero, whoever starts it. -/
theorem establishes (s : KeyCommittee C) (hz : s.NoScalarZero) {i : ℕ} (hi : i < s.n) : s.Establishes i where
  follows w hw := by
    obtain ⟨⟨a, h⟩, -⟩ := Sessions.linked hz hi hw
    exact ⟨a, h.run, fun j hj => (h.session j hj).handler⟩
  faultless w hw := by
    obtain ⟨⟨a, h⟩, -⟩ := Sessions.linked hz hi hw
    exact h.faultless
  agreed w hw := by
    obtain ⟨⟨a, h⟩, -⟩ := Sessions.linked hz hi hw
    exact h.agreed
  finite run hrun := by
    refine Reachable.stops s.totalLoad (fun w w' hw hstep => ?_) run hrun
    obtain ⟨⟨a, h⟩, -⟩ := Sessions.linked hz hi hw
    exact h.totalLoad_lt hz hstep
  finished w hw hstuck := by
    obtain ⟨⟨a, h⟩, hsent⟩ := Sessions.linked hz hi hw
    exact h.finished_of_stuck hz.early.several hi hsent hstuck
  outcome w hw hfin := by
    obtain ⟨⟨a, h⟩, -⟩ := Sessions.linked hz hi hw
    exact ⟨a, _, h.sound.outcome (h.finished hfin), fun j hj => (h.session j hj).handler⟩

end KeyCommittee

section Example

/-- The notaries of `dealers5`, with nonces for their last proofs. -/
def keyCommittee5 : KeyCommittee curve5 :=
  { dealers5 (curve5Key 1 one_fits) with lastNonce := fun _ => curve5Key 1 one_fits }

theorem noScalarZero_keyCommittee5 : keyCommittee5.NoScalarZero where
  early := ⟨by decide, by decide +kernel, by decide +kernel⟩
  share := by decide +kernel
  proof := by decide +kernel

theorem establishes_keyCommittee5 : keyCommittee5.Establishes 2 :=
  KeyCommittee.establishes keyCommittee5 noScalarZero_keyCommittee5 (by decide)

end Example

end DistributedNotary.Mecdsa
