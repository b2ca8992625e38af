import DistributedNotary.Pbft.FirstView
import DistributedNotary.Pbft.Senders
import DistributedNotary.Pbft.Worlds

/-! Agreement in the first view, with malicious notaries. The votes fix the digest
of a number, as two quorums share a correct replica. They do not fix its
operation: the operation that is executed is the one of the preprepare message
that the replica has stored last, and a malicious leader can send several with
one digest. -/
namespace DistributedNotary.Pbft

open Library Relation Server

variable {A : Type}

/-- An operation as a number of a view, with its auxiliary. -/
structure Assignment where
  view : ℤ
  seq : ℤ
  op : String
  auxiliary : String
  deriving DecidableEq

def PrePrepareArgs.assignment (pp : PrePrepareArgs) : Assignment where
  view := pp.view
  seq := pp.seq
  op := pp.message.op
  auxiliary := pp.digest

def Event.assignment : Event → Option Assignment
  | .send (.prePrepare pp) => some pp.assignment
  | .updateSeq view seq op auxiliary => some { view := view, seq := seq, op := op, auxiliary := auxiliary }
  | _ => none

/-- The operations that the server has had in its entries, has proposed or has executed. -/
def Server.assignments (s : Server A) : List Assignment :=
  ((List.range s.next).filterMap fun r => (s.heap r).pp.map PrePrepareArgs.assignment) ++
    s.trace.filterMap Event.assignment

theorem Server.mem_assignments {s : Server A} {a : Assignment} : a ∈ s.assignments ↔
    (∃ r pp, s.HoldsAt r pp ∧ pp.assignment = a) ∨ (∃ pp, s.Sent (.prePrepare pp) ∧ pp.assignment = a) ∨
      .updateSeq a.view a.seq a.op a.auxiliary ∈ s.trace := by
  unfold Server.assignments HoldsAt Sent
  rw [List.mem_append, List.mem_filterMap, List.mem_filterMap]
  refine or_congr ?_ ?_
  · constructor
    · rintro ⟨r, hr, hpp⟩
      obtain ⟨pp, hpp, heq⟩ := Option.map_eq_some_iff.mp hpp
      exact ⟨r, pp, ⟨List.mem_range.mp hr, hpp⟩, heq⟩
    · rintro ⟨r, pp, ⟨hr, hpp⟩, heq⟩
      exact ⟨r, List.mem_range.mpr hr, by rw [hpp, Option.map_some, heq]⟩
  · constructor
    · rintro ⟨e, he, ha⟩
      unfold Event.assignment at ha
      split at ha
      · exact .inl ⟨_, he, Option.some.inj ha⟩
      · obtain rfl := Option.some.inj ha
        exact .inr he
      · exact nomatch ha
    · rintro (⟨pp, hpp, rfl⟩ | he)
      · exact ⟨_, hpp, rfl⟩
      · exact ⟨_, he, rfl⟩

/-- What `PrePrepare` stores: the service agrees, and the entry has no other digest. -/
def Server.TakesIn (env : Env A) (s : Server A) (args : PrePrepareArgs) : Prop :=
  s.changing = false ∧ (env.as.prepareSeq s.as args.view args.seq args.message.op args.digest).2.isOk = true ∧
    s.inWindow args.view args.seq = true ∧
    ∀ r ∈ s.log.lookup ⟨args.view, args.seq⟩, accepts (s.heap r) args = true

instance instDecidableTakesIn (env : Env A) (s : Server A) (args : PrePrepareArgs) :
    Decidable (s.TakesIn env args) := by
  unfold Server.TakesIn
  infer_instance

/-- A preprepare message that is stored has the operation that the correct servers have for its number and digest. -/
def SameOperation (env : Env A) (n : ℕ) (byz : Finset ℤ) (servers : ℤ → Server A) (i : ℤ) : Msg → Prop
  | .prePrepare args => (servers i).TakesIn env args → ∀ j ∈ ids n, j ∉ byz → ∀ a ∈ (servers j).assignments,
      a.view = args.view → a.seq = args.seq → a.auxiliary = args.digest → a.op = args.message.op
  | _ => True

instance instDecidableSameOperation (env : Env A) (n : ℕ) (byz : Finset ℤ) (servers : ℤ → Server A) (i : ℤ)
    (msg : Msg) :
    Decidable (SameOperation env n byz servers i msg) := by
  unfold SameOperation
  split <;> infer_instance

section Moves

variable {env : Env A} {K : Server A → Msg → Prop} {s s' : Server A}

/-- A number is used up when it is given. -/
theorem Move.tSeq_le (hm : Move env K s s') (hview : s'.view = s.view) : s.tSeq ≤ s'.tSeq := by
  cases hm with
  | propose => exact Int.le_add_one le_rfl
  | enterView nv mins maxs pps henter => exact absurd hview henter.1.ne'
  | _ => exact le_rfl

/-- A preprepare message goes out for an entry, or the leader gives its next number. -/
theorem Move.proposes (hm : Move env K s s') (hs : s.WF) {pp : PrePrepareArgs} (h : s'.Sent (.prePrepare pp)) :
    s.Sent (.prePrepare pp) ∨ (∃ r, s.HoldsAt r pp) ∨
      (pp.view = s.view ∧ pp.seq = s.tSeq ∧ s'.tSeq = s.tSeq + 1 ∧ s'.view = s.view ∧ s.isLeader = true ∧
        s'.trace = .send (.prePrepare pp) :: s.trace) := by
  unfold Sent at h ⊢
  cases hm with
  | propose args digest as seqmap hk hc hl hnew hH has =>
    rcases List.mem_cons.mp h with heq | h
    · obtain rfl := Msg.prePrepare.inj (Event.send.inj heq)
      exact .inr (.inr ⟨rfl, rfl, rfl, rfl, hl, rfl⟩)
    · exact .inl h
  | repropose m r pp' hc hl hr hpp =>
    rcases List.mem_cons.mp h with heq | h
    · obtain rfl := Msg.prePrepare.inj (Event.send.inj heq)
      exact .inr (.inl ⟨r, (hs.refs _ _ hr).1, hpp⟩)
    · exact .inl h
  | _ => exact .inl (by simpa using h)

/-- An operation comes with an accepted message, its view has started with it, or the leader proposes it. -/
theorem Move.assigned (hm : Move env K s s') (hs : s.WF) {a : Assignment} (ha : a ∈ s'.assignments) :
    a ∈ s.assignments ∨ (∃ pp, K s (.prePrepare pp) ∧ pp.assignment = a) ∨
      (a.view = s.view ∧ ∃ v mins maxs pps, .enterView s.view v ∈ s.trace ∧
        newViewOf s.view v = some (mins, maxs, pps) ∧ ∃ pp ∈ pps, pp.assignment = a) ∨
      (a.view = s.view ∧ a.seq = s.tSeq ∧ s'.tSeq = s.tSeq + 1 ∧ s'.view = s.view ∧ s.isLeader = true ∧
        ∃ pp, pp.assignment = a ∧ s'.trace = .send (.prePrepare pp) :: s.trace) := by
  rcases mem_assignments.mp ha with ⟨r, pp, hpp, rfl⟩ | ⟨pp, hpp, rfl⟩ | he
  · rcases hm.holds hpp with hpp | ⟨hk, -⟩ | ⟨hview, v, mins, maxs, pps, hv, hnv, hmem⟩
    · exact .inl (mem_assignments.mpr (.inl ⟨r, pp, hpp, rfl⟩))
    · exact .inr (.inl ⟨pp, hk, rfl⟩)
    · exact .inr (.inr (.inl ⟨hview, v, mins, maxs, pps, hv, hnv, pp, hmem, rfl⟩))
  · rcases hm.proposes hs hpp with hpp | ⟨r, hpp⟩ | ⟨hat, hseq, hnext, hview, hl, ht⟩
    · exact .inl (mem_assignments.mpr (.inr (.inl ⟨pp, hpp, rfl⟩)))
    · exact .inl (mem_assignments.mpr (.inl ⟨r, pp, hpp, rfl⟩))
    · exact .inr (.inr (.inr ⟨hat, hseq, hnext, hview, hl, pp, rfl, ht⟩))
  · rcases hm.executes hs he with he | ⟨r, pp, hpp, -, h1, h2, h3, h4⟩
    · exact .inl (mem_assignments.mpr (.inr (.inr he)))
    · refine .inl (mem_assignments.mpr (.inl ⟨r, pp, hpp, ?_⟩))
      unfold PrePrepareArgs.assignment
      rw [h1, h2, h3, h4]

/-- In view 0 an operation comes with an accepted message, or the leader proposes it. -/
theorem Move.assigns (hm : Move env K s s') (hs : s.WF) (hv : s.InViews) {a : Assignment} (ha : a ∈ s'.assignments)
    (hview : a.view = 0) :
    a ∈ s.assignments ∨ (∃ pp, K s (.prePrepare pp) ∧ pp.assignment = a) ∨
      (s.view = 0 ∧ a.seq = s.tSeq ∧ s'.tSeq = s.tSeq + 1 ∧ s.isLeader = true ∧
        ∃ pp, pp.assignment = a ∧ s'.trace = .send (.prePrepare pp) :: s.trace) := by
  rcases hm.assigned hs ha with ha | ha | ⟨heq, v, _, _, _, he, -⟩ | ⟨heq, hseq, hnext, -, hl, ht⟩
  · exact .inl ha
  · exact .inr (.inl ha)
  · exact absurd (heq.symm.trans hview) (hv.entered _ v he).ne'
  · exact .inr (.inr ⟨heq.symm.trans hview, hseq, hnext, hl, ht⟩)

/-- What a server reads in a reaction: its own messages, and the one that is delivered. -/
def Reads (delivered : Option Msg) (s : Server A) (msg : Msg) : Prop := s.Sent msg ∨ delivered = some msg

theorem moves_reads (hs : s.WF) (orders : Orders) (a : Input) :
    Moves env (Reads a.delivered) s (after (s.react env orders a)) := by
  refine moves_react ⟨fun _ _ h => .inl h, fun _ _ h => .inl h⟩ hs (fun msg hmsg s' _ => .inr ?_) ?_
  · rw [hmsg]
    rfl
  · intro _ cp s' _ _ _ _ _ hsent
    exact .inl hsent

/-- A preprepare message that is not stored is not read. -/
theorem moves_not_takesIn {args : PrePrepareArgs} (h : ¬ s.TakesIn env args) :
    Moves env K s (after (s.prePrepare env args)) := by
  unfold prePrepare
  split_ifs with hc
  · exact .refl
  · rcases hcall : env.as.prepareSeq s.as args.view args.seq args.message.op args.digest with ⟨as, answer⟩
    have hservice : Move env K s { s with as := as } := by
      have hcalled : env.as.Called s.as _ := .prepareSeq args.view args.seq args.message.op args.digest
      rw [hcall] at hcalled
      exact .service s as hcalled
    rcases answer with (text | text) | ⟨⟩
    · exact .single hservice
    · exact .single hservice
    · have hstop : Move env K { s with as := as } ({ s with as := as } : Server A).stopTimer :=
        .idle _ false false 0 s.armed s.state s.seqmap
      refine (ReflTransGen.single hservice).tail ?_
      simp only [acceptPrePrepare]
      split_ifs with hw
      · obtain ⟨r, hr, ha⟩ : ∃ r, s.log.lookup ⟨args.view, args.seq⟩ = some r ∧ ¬ accepts (s.heap r) args = true := by
          by_contra hno
          rw [Bool.not_eq_true] at hc
          refine h ⟨hc, by rw [hcall]; rfl, hw, fun r hr => ?_⟩
          by_contra ha
          exact hno ⟨r, hr, ha⟩
        have hentry : ({ s with as := as } : Server A).stopTimer.getEntry ⟨args.view, args.seq⟩ =
            (({ s with as := as } : Server A).stopTimer, r) := by
          unfold getEntry
          rw [show ({ s with as := as } : Server A).stopTimer.log.lookup ⟨args.view, args.seq⟩ = some r from hr]
        have hrefused : ({ s with as := as } : Server A).stopTimer.prePrepareEntry env args r =
            .ok ({ s with as := as } : Server A).stopTimer := if_neg ha
        rw [hentry]
        change Move env K _ (after (({ s with as := as } : Server A).stopTimer.prePrepareEntry env args r))
        rw [hrefused]
        exact hstop
      · exact hstop

/-- A server other than the leader of view 0 goes by nothing new in view 0 but what it is told. -/
theorem assignments_of_moves {delivered : Option Msg} (h : Moves env (Reads delivered) s s') (hs : s.WF)
    (hv : s.InViews) (hid : s.id ≠ 0) : ∀ a ∈ s'.assignments, a.view = 0 →
      a ∈ s.assignments ∨ ∃ pp, delivered = some (.prePrepare pp) ∧ pp.assignment = a := by
  induction h with
  | refl => exact fun a ha _ => .inl ha
  | @tail s₁ s₂ hm hn ih =>
    intro a ha hview
    have hv₁ : s₁.InViews := Moves.invariant (fun _ _ hs hv hm => hv.move hs hm) hm hs hv
    rcases hn.assigns (Moves.wf hm hs) hv₁ ha hview with ha | ⟨pp, hsent | hd, rfl⟩ | ⟨hview₁, -, -, hl, -⟩
    · exact ih a ha hview
    · exact ih _ (mem_assignments.mpr (.inr (.inl ⟨pp, hsent, rfl⟩))) hview
    · exact .inr ⟨pp, hd, rfl⟩
    · rw [isLeader, hview₁, Int.zero_tmod, decide_eq_true_eq, (Moves.fixed hm).1] at hl
      exact absurd hl.symm hid

theorem assignments_of_react (hs : s.WF) (hv : s.InViews) (hid : s.id ≠ 0) {orders : Orders} {a : Input}
    {x : Assignment} (hx : x ∈ (after (s.react env orders a)).assignments) (hview : x.view = 0) :
    x ∈ s.assignments ∨ ∃ pp, a = .message (.prePrepare pp) ∧ s.TakesIn env pp ∧ pp.assignment = x := by
  rcases assignments_of_moves (moves_reads hs orders a) hs hv hid x hx hview with hx' | ⟨pp, hd, heq⟩
  · exact .inl hx'
  · obtain rfl : a = .message (.prePrepare pp) := by
      cases a with
      | message msg => exact congrArg Input.message (Option.some.inj hd)
      | timer => exact nomatch hd
      | background k => exact nomatch hd
    by_cases htakes : s.TakesIn env pp
    · exact .inr ⟨pp, rfl, htakes, heq⟩
    · have hmoves : Moves env (Reads none) s (after (s.react env orders (.message (.prePrepare pp)))) :=
        moves_not_takesIn htakes
      rcases assignments_of_moves hmoves hs hv hid x hx hview with hx' | ⟨pp', hd', -⟩
      · exact .inl hx'
      · exact nomatch hd'

end Moves

section Worlds

variable (n : ℕ) (byz : Finset ℤ) (servers : ℤ → Server A)

/-- A correct server goes by the operation. -/
def Assigned (a : Assignment) : Prop := ∃ j, Correct n byz j ∧ a ∈ (servers j).assignments

/-- A number of view 0 has one operation for each digest. -/
def OneOperation : Prop := ∀ a a', Assigned n byz servers a → Assigned n byz servers a' → a.view = 0 → a'.view = 0 →
  a.seq = a'.seq → a.auxiliary = a'.auxiliary → a.op = a'.op

/-- With a correct leader a number of view 0 has one operation and one digest, and is a number that it has given. -/
structure Led : Prop where
  once : ∀ a a', Assigned n byz servers a → Assigned n byz servers a' →
    a.view = 0 → a'.view = 0 → a.seq = a'.seq → a = a'
  given : (servers 0).view = 0 → ∀ a, Assigned n byz servers a → a.view = 0 → a.seq < (servers 0).tSeq

/-- A commit message comes from a malicious notary, or the correct server with its id has sent it. -/
def Committed (args : CommitArgs) : Prop :=
  args.rid ∈ byz ∨ (Correct n byz args.rid ∧ (servers args.rid).Sent (.commit args))

/-- The commit messages that correct servers count are real. -/
def Authentic : Prop := ∀ i, Correct n byz i → ∀ r < (servers i).next, ∀ args ∈ ((servers i).heap r).c,
  Committed n byz servers args

variable {n byz servers} {env : Env A} {i : ℤ} {s' : Server A}

theorem Assigned.of_update {a : Assignment} (h : Assigned n byz (Function.update servers i s') a) :
    Assigned n byz servers a ∨ a ∈ s'.assignments := by
  obtain ⟨j, hj, ha⟩ := h
  rcases eq_or_ne j i with rfl | hne
  · rw [Function.update_self] at ha
    exact .inr ha
  · rw [Function.update_of_ne hne] at ha
    exact .inl ⟨j, hj, ha⟩

theorem Committed.update (ht : (servers i).trace <:+ s'.trace) {args : CommitArgs} (h : Committed n byz servers args) :
    Committed n byz (Function.update servers i s') args :=
  h.imp_right fun ⟨hc, hs⟩ => ⟨hc, update_sent ht hs⟩

/-- A reaction of a correct server keeps to the operations that there are. -/
theorem OneOperation.react (h : OneOperation n byz servers) (h0 : 0 ∈ byz) (hi : Correct n byz i)
    (hid : (servers i).id = i)
    (hs : (servers i).WF) (hv : (servers i).InViews) {orders : Orders} {a : Input}
    (hmeets : ∀ msg ∈ a.delivered, SameOperation env n byz servers i msg) :
    OneOperation n byz (Function.update servers i (after ((servers i).react env orders a))) := by
  have hne : (servers i).id ≠ 0 := by
    rw [hid]
    rintro rfl
    exact hi.2 h0
  have hnew : ∀ x, Assigned n byz (Function.update servers i (after ((servers i).react env orders a))) x → x.view = 0 →
      Assigned n byz servers x ∨
        ∃ pp, a = .message (.prePrepare pp) ∧ (servers i).TakesIn env pp ∧ pp.assignment = x := by
    intro x hx hview
    rcases hx.of_update with hx | hx
    · exact .inl hx
    · exact (assignments_of_react hs hv hne hx hview).imp_left fun hx => ⟨i, hi, hx⟩
  have hagree : ∀ x, Assigned n byz servers x → ∀ pp, a = .message (.prePrepare pp) → (servers i).TakesIn env pp →
      x.view = pp.view → x.seq = pp.seq → x.auxiliary = pp.digest → x.op = pp.message.op := by
    rintro x ⟨j, hj, hx⟩ pp rfl htakes hview hseq hdigest
    exact hmeets _ rfl htakes j hj.1 hj.2 x hx hview hseq hdigest
  intro x x' hx hx' hview hview' hseq hdigest
  rcases hnew x hx hview with hold | ⟨pp, ha, htakes, rfl⟩ <;>
    rcases hnew x' hx' hview' with hold' | ⟨pp', ha', htakes', rfl⟩
  · exact h x x' hold hold' hview hview' hseq hdigest
  · exact hagree x hold pp' ha' htakes' (hview.trans hview'.symm) hseq hdigest
  · exact (hagree x' hold' pp ha htakes (hview'.trans hview.symm) hseq.symm hdigest.symm).symm
  · rw [ha] at ha'
    rw [Msg.prePrepare.inj (Input.message.inj ha')]

/-- A move of a correct server, while the leader of view 0 is correct. -/
theorem Led.move {C : (ℤ → Server A) → ℤ → Msg → Prop} (h : Led n byz servers) (h0 : 0 ∉ byz) (hi : Correct n byz i)
    (hid : (servers i).id = i) (hs : (servers i).WF) (hv : (servers i).InViews)
    (hm : Move env (fun _ => Takes n byz servers C i) (servers i) s') : Led n byz (Function.update servers i s') := by
  have hnew : ∀ x, Assigned n byz (Function.update servers i s') x → x.view = 0 → Assigned n byz servers x ∨
      (i = 0 ∧ (servers i).view = 0 ∧ x.seq = (servers i).tSeq ∧ s'.tSeq = (servers i).tSeq + 1 ∧
        ∃ pp, pp.assignment = x ∧ s'.trace = .send (.prePrepare pp) :: (servers i).trace) := by
    intro x hx hview
    rcases hx.of_update with hx | hx
    · exact .inl hx
    · rcases hm.assigns hs hv hx hview with hx | ⟨pp, hk, rfl⟩ | ⟨hview₀, hseq, hnext, hl, ht⟩
      · exact .inl ⟨i, hi, hx⟩
      · rcases hk with ⟨-, hsent⟩ | ⟨⟨j, hj, hsent, -⟩ | ⟨j, hj, hcheck⟩ | hreq, -⟩
        · exact .inl ⟨i, hi, mem_assignments.mpr (.inr (.inl ⟨pp, hsent, rfl⟩))⟩
        · exact .inl ⟨j, hj, mem_assignments.mpr (.inr (.inl ⟨pp, hsent, rfl⟩))⟩
        · -- a malicious notary speaks for the view with its own number only
          have hj0 : j = 0 := (of_decide_eq_true hcheck).symm.trans hview
          exact absurd (hj0 ▸ hj) h0
        · exact nomatch hreq
      · rw [isLeader, hview₀, Int.zero_tmod, decide_eq_true_eq, hid] at hl
        exact .inr ⟨hl.symm, hview₀, hseq, hnext, ht⟩
  refine ⟨fun x x' hx hx' hview hview' hseq => ?_, fun hview₀ x hx hview => ?_⟩
  · rcases hnew x hx hview with hold | ⟨rfl, hview₀, hat, -, pp, rfl, ht⟩ <;>
      rcases hnew x' hx' hview' with hold' | ⟨h0', hview₀', hat', -, pp', rfl, ht'⟩
    · exact h.once x x' hold hold' hview hview' hseq
    · subst h0'
      have hlt := h.given hview₀' x hold hview
      omega
    · have hlt := h.given hview₀ x' hold' hview'
      omega
    · rw [ht] at ht'
      rw [Msg.prePrepare.inj (Event.send.inj (List.cons.inj ht').1)]
  · rcases eq_or_ne 0 i with rfl | hne
    · rw [Function.update_self] at hview₀ ⊢
      have hbefore : (servers 0).view = 0 := le_antisymm (hview₀ ▸ hm.view_le) hv.view
      rcases hnew x hx hview with hold | ⟨-, -, hat, hnext, -⟩
      · exact (h.given hbefore x hold hview).trans_le (hm.tSeq_le (hview₀.trans hbefore.symm))
      · omega
    · rw [Function.update_of_ne hne] at hview₀ ⊢
      rcases hnew x hx hview with hold | ⟨heq, -⟩
      · exact h.given hview₀ x hold hview
      · exact absurd heq.symm hne

theorem Authentic.move {C : (ℤ → Server A) → ℤ → Msg → Prop} (h : Authentic n byz servers)
    (hown : ∀ j, Correct n byz j → (servers j).id = j ∧ (servers j).SpeaksOwn) (hi : Correct n byz i)
    (hm : Move env (fun _ => Takes n byz servers C i) (servers i) s') :
    Authentic n byz (Function.update servers i s') := by
  intro j hj r hr args hargs
  have ht := hm.trace_suffix
  rcases eq_or_ne j i with rfl | hne
  · rw [Function.update_self] at hr hargs
    rcases hm.counts hr hargs with ⟨hr, hargs⟩ | hk | ⟨hrid, hsent⟩
    · exact (h j hj r hr args hargs).update ht
    · rcases hk with ⟨howned, -⟩ | ⟨⟨k, hk, hsent, -⟩ | ⟨k, hk, hcheck⟩ | hreq, -⟩
      · exact nomatch howned
      · have hrid : args.rid = k := by
          obtain ⟨hid, hspeaks⟩ := hown k hk
          exact (hspeaks.sent _ hsent).trans hid
        exact Committed.update ht (.inr (hrid.symm ▸ ⟨hk, hsent⟩))
      · exact .inl ((of_decide_eq_true hcheck : args.rid = k).symm ▸ hk)
      · exact nomatch hreq
    · have hrid' : args.rid = j := hrid.trans (hown j hj).1
      refine .inr ⟨hrid'.symm ▸ hj, ?_⟩
      rw [hrid', Function.update_self]
      exact hsent
  · rw [Function.update_of_ne hne] at hr hargs
    exact (h j hj r hr args hargs).update ht

/-- Another state of the service changes no assignment. -/
theorem Assigned.of_external {as : A} {a : Assignment}
    (h : Assigned n byz (Function.update servers i { servers i with as := as }) a) : Assigned n byz servers a :=
  h.of_update.elim id fun ha => by
    obtain ⟨j, hj, hmem⟩ := h
    rcases eq_or_ne j i with rfl | hne
    · exact ⟨j, hj, ha⟩
    · rw [Function.update_of_ne hne] at hmem
      exact ⟨j, hj, hmem⟩

theorem OneOperation.external (h : OneOperation n byz servers) (as : A) :
    OneOperation n byz (Function.update servers i { servers i with as := as }) :=
  fun a a' ha ha' => h a a' ha.of_external ha'.of_external

theorem Led.external (h : Led n byz servers) (as : A) :
    Led n byz (Function.update servers i { servers i with as := as }) where
  once a a' ha ha' := h.once a a' ha.of_external ha'.of_external
  given hview a ha hview' := by
    rcases eq_or_ne 0 i with rfl | hne
    · rw [Function.update_self] at hview ⊢
      exact h.given hview a ha.of_external hview'
    · rw [Function.update_of_ne hne] at hview ⊢
      exact h.given hview a ha.of_external hview'

theorem Authentic.external (h : Authentic n byz servers) (as : A) :
    Authentic n byz (Function.update servers i { servers i with as := as }) := by
  intro j hj r hr args hargs
  have ht : (servers i).trace <:+ ({ servers i with as := as } : Server A).trace := List.suffix_rfl
  rcases eq_or_ne j i with rfl | hne
  · rw [Function.update_self] at hr hargs
    exact (h j hj r hr args hargs).update ht
  · rw [Function.update_of_ne hne] at hr hargs
    exact (h j hj r hr args hargs).update ht

end Worlds

theorem Server.InViews.external {s : Server A} (h : s.InViews) (as : A) : ({ s with as := as } : Server A).InViews :=
  ⟨h.view, h.entered, h.held, h.executed⟩

theorem Server.SaysOnce.external {s : Server A} (h : s.SaysOnce) (as : A) :
    ({ s with as := as } : Server A).SaysOnce where
  placed hview := by
    obtain ⟨key, cp, hset, hle, hplaced⟩ := h.placed hview
    exact ⟨key, cp, hset.frame rfl le_rfl rfl rfl, hle, hplaced⟩
  single := h.single
  commits := h.commits
  executed := h.executed

theorem Server.SpeaksOwn.external {s : Server A} (h : s.SpeaksOwn) (as : A) :
    ({ s with as := as } : Server A).SpeaksOwn := ⟨h.view, h.responses, h.background, h.sent⟩

section Reached

variable {env : Env A} {ext : A → A → Prop} {n f : ℕ} {byz : Finset ℤ} {initSeq : ℤ → ℕ} {as : ℤ → A} {w : World A}
  {ok : World A → Orders → Action → Prop} {i j : ℤ}

theorem World.Reached.inViews (h : World.Reached env byz n f initSeq as ok ext w) (i : ℤ) : (w.servers i).InViews :=
  h.forall_servers Server.InViews (fun i => .new env i f (initSeq i) (ids n) (as i)) (fun _ _ hs hv hm => hv.move hs hm)
    (fun _ as hv => hv.external as) i

theorem World.Reached.saysOnce (h : World.Reached env byz n f initSeq as ok ext w) (i : ℤ) :
    (w.servers i).SaysOnce :=
  (h.forall_servers (fun s => s.InViews ∧ s.SaysOnce)
    (fun i => ⟨.new env i f (initSeq i) (ids n) (as i), .new env i f (ids n) (as i) (Int.natCast_nonneg _)⟩)
    (fun _ _ hs hv hm => ⟨hv.1.move hs hm, hv.2.move hv.1 hs hm⟩)
    (fun _ as hv => ⟨hv.1.external as, hv.2.external as⟩) i).2

theorem not_assigned_new {a : Assignment} : ¬ Assigned n byz (World.new env n f initSeq as).servers a := by
  rintro ⟨j, -, ha⟩
  rcases mem_assignments.mp ha with ⟨r, pp, hpp, -⟩ | ⟨pp, hpp, -⟩ | he
  · exact nomatch hpp.1
  · exact nomatch hpp
  · exact nomatch he

/-- The commit messages that correct servers count are real in every run. -/
theorem World.Reached.authentic (h : World.Reached env byz n f initSeq as ok ext w) : Authentic n byz w.servers := by
  have hinv : (∀ j, (w.servers j).id = j ∧ (w.servers j).SpeaksOwn) ∧ Authentic n byz w.servers := by
    refine (h.invariant_of_moves (C := fun _ _ _ => True) (fun servers => (∀ j, (servers j).id = j ∧
      (servers j).SpeaksOwn) ∧ Authentic n byz servers) (fun _ _ _ _ _ _ => trivial) (fun _ _ _ _ _ _ => trivial)
      ?_ ?_ ?_).2
    · exact ⟨fun j => ⟨rfl, .new env j f (initSeq j) (ids n) (as j)⟩, fun i _ r hr => nomatch hr⟩
    · rintro servers i s' hi hconf ⟨hown, hauth⟩ hm
      refine ⟨?_, hauth.move (fun j _ => hown j) hi hm⟩
      rw [Function.forall_update_iff servers fun j s => s.id = j ∧ s.SpeaksOwn]
      exact ⟨⟨hm.fixed.1.trans (hown i).1, (hown i).2.move hconf.wf hm⟩, fun j _ => hown j⟩
    · rintro servers i as ⟨hown, hauth⟩ -
      refine ⟨?_, hauth.external as⟩
      rw [Function.forall_update_iff servers fun j s => s.id = j ∧ s.SpeaksOwn]
      exact ⟨⟨(hown i).1, (hown i).2.external as⟩, fun j _ => hown j⟩
  exact hinv.2

/-- With a correct leader every number of view 0 has one operation in every run. -/
theorem World.Reached.led (h : World.Reached env byz n f initSeq as ok ext w) (h0 : 0 ∉ byz) :
    Led n byz w.servers := by
  have hinv : (∀ j, (w.servers j).InViews) ∧ Led n byz w.servers := by
    refine (h.invariant_of_moves (C := fun _ _ _ => True) (fun servers => (∀ j, (servers j).InViews) ∧
      Led n byz servers) (fun _ _ _ _ _ _ => trivial) (fun _ _ _ _ _ _ => trivial) ?_ ?_ ?_).2
    · refine ⟨fun j => .new env j f (initSeq j) (ids n) (as j), fun a _ ha => ?_, fun _ a ha => ?_⟩
      · exact absurd ha not_assigned_new
      · exact absurd ha not_assigned_new
    · rintro servers i s' hi hconf ⟨hv, hled⟩ hm
      refine ⟨?_, hled.move h0 hi hconf.id hconf.wf (hv i) hm⟩
      rw [Function.forall_update_iff servers fun _ s => s.InViews]
      exact ⟨(hv i).move hconf.wf hm, fun j _ => hv j⟩
    · rintro servers i as ⟨hv, hled⟩ -
      refine ⟨?_, hled.external as⟩
      rw [Function.forall_update_iff servers fun _ s => s.InViews]
      exact ⟨(hv i).external as, fun j _ => hv j⟩
  exact hinv.2

/-- With a malicious leader every number and digest of view 0 has one operation in the runs whose messages
keep to it. -/
theorem World.Reached.oneOperation (h : World.Reached env byz n f initSeq as ok ext w)
    (hok : ∀ (w : World A) orders a, ok w orders a → a.Meets (SameOperation env n byz) w.servers) (h0 : 0 ∈ byz) :
    OneOperation n byz w.servers := by
  have hinv : (∀ j, (w.servers j).InViews) ∧ OneOperation n byz w.servers := by
    refine (h.invariant_of_reacts (fun servers => (∀ j, (servers j).InViews) ∧ OneOperation n byz servers) ?_ ?_ ?_).2
    · exact ⟨fun j => .new env j f (initSeq j) (ids n) (as j), fun a a' ha => absurd ha not_assigned_new⟩
    · rintro w orders a hi hconf ⟨hv, hone⟩ hok' -
      have hmoves : Moves env (fun _ _ => True) (w.servers a.dst)
          (after ((w.servers a.dst).react env orders a.input)) :=
        moves_react ⟨fun _ _ _ => trivial, fun _ _ _ => trivial⟩ (hconf a.dst).wf (fun _ _ _ _ => trivial)
          fun _ _ _ _ _ _ _ _ _ => trivial
      refine ⟨?_, hone.react h0 hi (hconf a.dst).id (hconf a.dst).wf (hv a.dst) (hok w orders a hok')⟩
      rw [Function.forall_update_iff w.servers fun _ s => s.InViews]
      exact ⟨Moves.invariant (fun _ _ hs hv hm => hv.move hs hm) hmoves (hconf a.dst).wf (hv a.dst), fun j _ => hv j⟩
    · rintro servers i as ⟨hv, hone⟩ -
      refine ⟨?_, hone.external as⟩
      rw [Function.forall_update_iff servers fun _ s => s.InViews]
      exact ⟨(hv i).external as, fun j _ => hv j⟩
  exact hinv.2

/-- The senders of the commit messages that count are notaries, and the correct ones have sent the digest. -/
theorem commitSenders_spec (hauth : Authentic n byz w.servers) (hbyz : byz ⊆ (ids n).toFinset) (hi : Correct n byz i)
    {r : ℕ} {pp : PrePrepareArgs} (hpp : (w.servers i).HoldsAt r pp) :
    ((w.servers i).heap r).commitSenders ⊆ (ids n).toFinset ∧
      ∀ k ∈ ((w.servers i).heap r).commitSenders, k ∉ byz → Correct n byz k ∧
        ∃ args, (w.servers k).Sent (.commit args) ∧
          args.view = pp.view ∧ args.seq = pp.seq ∧ args.digest = pp.digest := by
  have hmem : ∀ k ∈ ((w.servers i).heap r).commitSenders, ∃ args, Committed n byz w.servers args ∧ args.rid = k ∧
      args.view = pp.view ∧ args.seq = pp.seq ∧ args.digest = pp.digest := by
    intro k hk
    unfold Entry.commitSenders at hk
    rw [hpp.2, List.mem_toFinset, List.mem_map] at hk
    obtain ⟨args, hargs, hrid⟩ := hk
    obtain ⟨hc, hmatch⟩ := List.mem_filter.mp hargs
    exact ⟨args, hauth i hi r hpp.1 args hc, hrid, of_decide_eq_true hmatch⟩
  constructor
  · intro k hk
    obtain ⟨args, hc, rfl, -⟩ := hmem k hk
    rcases hc with hc | ⟨hc, -⟩
    · exact hbyz hc
    · exact List.mem_toFinset.mpr hc.1
  · intro k hk hkb
    obtain ⟨args, hc, rfl, hmatch⟩ := hmem k hk
    obtain ⟨hcorrect, hsent⟩ := hc.resolve_left hkb
    exact ⟨hcorrect, args, hsent, hmatch⟩

/-- Two correct servers that execute a number of view 0 have it with one digest, unless the malicious notaries are too
many for two quorums to share a correct one. -/
theorem same_digest (h : World.Reached env byz n f initSeq as ok ext w) (hbyz : byz ⊆ (ids n).toFinset)
    (hquorum : n + byz.card < 2 * (2 * f + 1)) (hi : Correct n byz i) (hj : Correct n byz j) {seq : ℤ}
    {op op' auxiliary auxiliary' : String} (hop : .updateSeq 0 seq op auxiliary ∈ (w.servers i).trace)
    (hop' : .updateSeq 0 seq op' auxiliary' ∈ (w.servers j).trace) : auxiliary = auxiliary' := by
  have hf : ∀ k, (w.servers k).f = f := h.forall_servers (fun s => s.f = f) (fun _ => rfl)
    (fun _ _ _ hs hm => hm.fixed.2.2.trans hs) fun _ _ hs => hs
  obtain ⟨r, pp, hpp, hcom, hview, hseq, rfl⟩ := (h.saysOnce i).executed _ _ _ _ hop
  obtain ⟨r', pp', hpp', hcom', hview', hseq', rfl⟩ := (h.saysOnce j).executed _ _ _ _ hop'
  rw [Server.committed_iff, hf] at hcom hcom'
  obtain ⟨hsub, hsent⟩ := commitSenders_spec h.authentic hbyz hi hpp
  obtain ⟨hsub', hsent'⟩ := commitSenders_spec h.authentic hbyz hj hpp'
  have hcard : (ids n).toFinset.card + byz.card <
      ((w.servers i).heap r).commitSenders.card + ((w.servers j).heap r').commitSenders.card := by
    have hn : (ids n).toFinset.card ≤ n := (List.toFinset_card_le _).trans (length_ids n).le
    omega
  obtain ⟨k, hk, hk', hkb⟩ := exists_mem_inter_notMem hsub hsub' hcard
  -- the correct notary in both quorums has sent one digest only
  obtain ⟨-, args, hargs, hv, hs, hd⟩ := hsent k hk hkb
  obtain ⟨-, args', hargs', hv', hs', hd'⟩ := hsent' k hk' hkb
  obtain ⟨q, p, hp, hpv, hps, hpd⟩ := (h.saysOnce k).commits args hargs
  obtain ⟨q', p', hp', hpv', hps', hpd'⟩ := (h.saysOnce k).commits args' hargs'
  calc pp.digest = p.digest := (hpd.trans hd).symm
    _ = p'.digest := (h.saysOnce k).single q q' p p' hp hp' (hpv.trans (hv.trans hview)) (hpv'.trans (hv'.trans hview'))
        ((hps.trans (hs.trans hseq)).trans (hps'.trans (hs'.trans hseq')).symm)
    _ = pp'.digest := hpd'.trans hd'

/-- In every run of `n ≥ 3f+1` notaries of which at most `f` are malicious, two correct ones that execute a number of
the first view execute the same operation with the same auxiliary. If the leader is malicious, this takes that it sends
no second operation with the digest of a number that a correct notary still accepts, and for `n = 3f+2` that fewer than
`f` are malicious. -/
theorem single_view_agreement (ext : A → A → Prop) (hn : 3 * faults n + 1 ≤ n) (hbyz : byz ⊆ (ids n).toFinset)
    (hfaults : byz.card ≤ faults n) (hfew : 0 ∈ byz → n = 3 * faults n + 2 → byz.card < faults n)
    (h : World.Reached env byz n (faults n) initSeq as
      (fun w _ a => 0 ∈ byz → a.Meets (SameOperation env n byz) w.servers) ext w)
    (hi : Correct n byz i) (hj : Correct n byz j) {seq : ℤ} {op op' auxiliary auxiliary' : String}
    (hop : .updateSeq 0 seq op auxiliary ∈ (w.servers i).trace)
    (hop' : .updateSeq 0 seq op' auxiliary' ∈ (w.servers j).trace) : op = op' ∧ auxiliary = auxiliary' := by
  have ha : Assigned n byz w.servers ⟨0, seq, op, auxiliary⟩ := ⟨i, hi, mem_assignments.mpr (.inr (.inr hop))⟩
  have ha' : Assigned n byz w.servers ⟨0, seq, op', auxiliary'⟩ := ⟨j, hj, mem_assignments.mpr (.inr (.inr hop'))⟩
  by_cases h0 : 0 ∈ byz
  · have hmod : n = 3 * faults n + 1 ∨ n = 3 * faults n + 2 := by
      unfold faults at hn ⊢
      omega
    have hquorum : n + byz.card < 2 * (2 * faults n + 1) := by
      rcases hmod with hmod | hmod
      · omega
      · have := hfew h0 hmod
        omega
    have hdigest := same_digest h hbyz hquorum hi hj hop hop'
    exact ⟨h.oneOperation (fun _ _ _ hok => hok h0) h0 _ _ ha ha' rfl rfl rfl hdigest, hdigest⟩
  · have heq := (h.led h0).once _ _ ha ha' rfl rfl rfl
    rw [Assignment.mk.injEq] at heq
    exact ⟨heq.2.2.1, heq.2.2.2⟩

end Reached

def Action.forge (src dst : ℤ) (msg : Msg) : Action := ⟨.forger src, dst, .message msg⟩

/-- The correct servers of four vote for `a` as the first number, after the malicious leader has sent them its messages;
servers 1 and 3 commit it. -/
def afterPrePrepares (pp₁ pp₂ pp₃ : PrePrepareArgs) : List Action :=
  [.forge 0 1 (.prePrepare pp₁), .forge 0 2 (.prePrepare pp₂), .forge 0 3 (.prePrepare pp₃)] ++
    [(2, 1), (3, 1), (1, 2), (3, 2), (1, 3), (2, 3)].map (fun ij : ℤ × ℤ =>
      .deliver ij.1 ij.2 (.prepare (plainPrepare 0 0 "a" ij.1))) ++
    [(2, 1), (3, 1), (1, 3), (2, 3)].map fun ij : ℤ × ℤ => .deliver ij.1 ij.2 (.commit (plainCommit 0 0 "a" ij.1))

/-- The leader keeps to one operation. -/
theorem single_view_agreement_four :
    ∃ w : World Unit, .updateSeq 0 0 "a" "#a" ∈ (w.servers 1).trace ∧ .updateSeq 0 0 "a" "#a" ∈ (w.servers 3).trace ∧
      "a" = "a" ∧ "#a" = "#a" := by
  have hrun : ((World.new Env.plain 4 (faults 4) (fun _ => 0) fun _ => ()).plays Env.plain {0}
      (fun w _ a => 0 ∈ ({0} : Finset ℤ) → a.Meets (SameOperation Env.plain 4 {0}) w.servers)
      (afterPrePrepares (plainPP 0 0 "a") (plainPP 0 0 "a") (plainPP 0 0 "a"))).map (fun w =>
        decide (.updateSeq 0 0 "a" "#a" ∈ (w.servers 1).trace ∧ .updateSeq 0 0 "a" "#a" ∈ (w.servers 3).trace)) =
      some true := by
    decide +kernel
  obtain ⟨w, hw, hmem⟩ := Option.map_eq_some_iff.mp hrun
  obtain ⟨h₁, h₃⟩ := of_decide_eq_true hmem
  exact ⟨w, h₁, h₃, single_view_agreement Eq (by decide) (by decide) (by decide) (by decide)
    (World.reached_plays (.init rfl) hw) (i := 1) (j := 3) ⟨by decide, by decide⟩ ⟨by decide, by decide⟩ h₁ h₃⟩

/-- The proposal of another operation under the digest of `a`. -/
def otherOperation : PrePrepareArgs := { plainPP 0 0 "a" with message := { op := "b", id := 1 } }

/-- A malicious leader of five that proposes `a` to two servers and `b` to the two others, and votes for both. -/
def splitDigest : List Action :=
  [1, 2].map (.forge 0 · (.prePrepare (plainPP 0 0 "a"))) ++ [3, 4].map (.forge 0 · (.prePrepare (plainPP 0 0 "b"))) ++
    [(2, 1), (1, 2)].map (fun ij : ℤ × ℤ => .deliver ij.1 ij.2 (.prepare (plainPrepare 0 0 "a" ij.1))) ++
    [(4, 3), (3, 4)].map (fun ij : ℤ × ℤ => .deliver ij.1 ij.2 (.prepare (plainPrepare 0 0 "b" ij.1))) ++
    [1, 2].map (.forge 0 · (.prepare (plainPrepare 0 0 "a" 0))) ++
    [3, 4].map (.forge 0 · (.prepare (plainPrepare 0 0 "b" 0))) ++
    [.deliver 2 1 (.commit (plainCommit 0 0 "a" 2)), .forge 0 1 (.commit (plainCommit 0 0 "a" 0)),
      .deliver 4 3 (.commit (plainCommit 0 0 "b" 4)), .forge 0 3 (.commit (plainCommit 0 0 "b" 0))]

/-- The server of the leader alone is malicious, and two correct servers execute different operations. -/
theorem single_view_disagreement :
    (∃ w : World Unit, World.Reached Env.plain {0} 4 (faults 4) (fun _ => 0) (fun _ => ()) (fun _ _ _ => True) Eq w ∧
      .updateSeq 0 0 "a" "#a" ∈ (w.servers 1).trace ∧ .updateSeq 0 0 "b" "#a" ∈ (w.servers 3).trace) ∧
    (∃ w : World Unit, World.Reached Env.plain {0} 5 (faults 5) (fun _ => 0) (fun _ => ()) (fun _ _ _ => True) Eq w ∧
      .updateSeq 0 0 "a" "#a" ∈ (w.servers 1).trace ∧ .updateSeq 0 0 "b" "#b" ∈ (w.servers 3).trace) := by
  constructor
  · have hrun : ((World.new Env.plain 4 (faults 4) (fun _ => 0) fun _ => ()).plays Env.plain {0} (fun _ _ _ => True)
        (afterPrePrepares (plainPP 0 0 "a") (plainPP 0 0 "a") otherOperation)).map (fun w =>
          decide (.updateSeq 0 0 "a" "#a" ∈ (w.servers 1).trace ∧ .updateSeq 0 0 "b" "#a" ∈ (w.servers 3).trace)) =
        some true := by
      decide +kernel
    obtain ⟨w, hw, hmem⟩ := Option.map_eq_some_iff.mp hrun
    exact ⟨w, World.reached_plays (.init rfl) hw, of_decide_eq_true hmem⟩
  · have hrun : ((World.new Env.plain 5 (faults 5) (fun _ => 0) fun _ => ()).plays Env.plain {0} (fun _ _ _ => True)
        splitDigest).map (fun w =>
          decide (.updateSeq 0 0 "a" "#a" ∈ (w.servers 1).trace ∧ .updateSeq 0 0 "b" "#b" ∈ (w.servers 3).trace)) =
        some true := by
      decide +kernel
    obtain ⟨w, hw, hmem⟩ := Option.map_eq_some_iff.mp hrun
    exact ⟨w, World.reached_plays (.init rfl) hw, of_decide_eq_true hmem⟩

end DistributedNotary.Pbft
