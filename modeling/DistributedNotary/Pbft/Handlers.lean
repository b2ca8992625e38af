import DistributedNotary.Library.Checks
import DistributedNotary.Pbft.Moves

/-! Every handler of a server is a sequence of moves, also one that panics. What
has to be known of a message is asked for at the states in which the handler
has not taken the message into account yet; of the messages of normal operation
that a server has sent itself it is enough that it has sent them. -/
namespace DistributedNotary.Pbft

open Library Relation Server

variable {A : Type}

/-- Any number of moves. -/
abbrev Moves (env : Env A) (K : Server A → Msg → Prop) : Server A → Server A → Prop := ReflTransGen (Move env K)

/-- What is known of messages includes that a server has sent its own ones. -/
structure KnowsOwn (K : Server A → Msg → Prop) : Prop where
  prePrepare : ∀ s pp, s.Sent (.prePrepare pp) → K s (.prePrepare pp)
  prepare : ∀ s p, s.Sent (.prepare p) → K s (.prepare p)

/-- In `s'` the message is still as new as in `s`. -/
def Before (s s' : Server A) : Msg → Prop
  | .request _ => s' = s
  | .viewChange _ => s' = s
  | .checkPoint args =>
    s'.id = s.id ∧ s.trace <:+ s'.trace ∧ (s'.slot args.seq).proof = (s.slot args.seq).proof ∧
      (s'.slot args.seq).stable = (s.slot args.seq).stable
  | .newView _ => s'.id = s.id ∧ s.trace <:+ s'.trace ∧ s'.view = s.view ∧ s'.f = s.f
  | _ => s'.id = s.id ∧ s.trace <:+ s'.trace

/-- The message is known until it is taken into account. -/
def Known (K : Server A → Msg → Prop) (s : Server A) (msg : Msg) : Prop := ∀ s', Before s s' msg → K s' msg

section Moves

variable {env : Env A} {K : Server A → Msg → Prop} {s s' : Server A}

theorem Moves.wf (h : Moves env K s s') (hs : s.WF) : s'.WF := by
  induction h with
  | refl => exact hs
  | tail _ hm ih => exact hm.wf ih

/-- What every move of a well-formed server preserves. -/
theorem Moves.invariant {inv : Server A → Prop} (hmove : ∀ s s', s.WF → inv s → Move env K s s' → inv s')
    (h : Moves env K s s') (hs : s.WF) (hi : inv s) : inv s' := by
  induction h with
  | refl => exact hi
  | tail hm hn ih => exact hmove _ _ (Moves.wf hm hs) ih hn

theorem Moves.fixed (h : Moves env K s s') : s'.id = s.id ∧ s'.replicas = s.replicas ∧ s'.f = s.f := by
  induction h with
  | refl => exact ⟨rfl, rfl, rfl⟩
  | tail _ hm ih =>
    obtain ⟨h1, h2, h3⟩ := hm.fixed
    exact ⟨h1.trans ih.1, h2.trans ih.2.1, h3.trans ih.2.2⟩

theorem Moves.view_le (h : Moves env K s s') : s.view ≤ s'.view := by
  induction h with
  | refl => exact le_rfl
  | tail _ hm ih => exact ih.trans hm.view_le

theorem Moves.trace_suffix (h : Moves env K s s') : s.trace <:+ s'.trace := by
  induction h with
  | refl => exact List.suffix_rfl
  | tail _ hm ih => exact ih.trans hm.trace_suffix

theorem Moves.sent (h : Moves env K s s') {msg : Msg} (hm : s.Sent msg) : s'.Sent msg :=
  h.trace_suffix.subset hm

/-- A message that the server has sent stays known. -/
theorem KnowsOwn.known_prepare (hK : KnowsOwn K) {args : PrepareArgs} (h : s.Sent (.prepare args)) :
    Known K s (.prepare args) := fun s' hs' => hK.prepare s' args (hs'.2.subset h)

theorem KnowsOwn.known_prePrepare (hK : KnowsOwn K) {args : PrePrepareArgs} (h : s.Sent (.prePrepare args)) :
    Known K s (.prePrepare args) := fun s' hs' => hK.prePrepare s' args (hs'.2.subset h)

/-- A run that goes on where another has ended. -/
theorem Moves.bind {r : Run A (Server A)} {g : Server A → Run A (Server A)} (h : Moves env K s (after r))
    (hg : ∀ s', r = .ok s' → Moves env K s s' → Moves env K s' (after (g s'))) : Moves env K s (after (r >>= g)) := by
  cases r with
  | error s' => exact h
  | ok s' => exact h.trans (hg s' rfl h)

end Moves

namespace Server

/-- The vote that a quorum chooses is one of them, and more than twice the faulty agree with it. -/
theorem quorumVote_spec {f : ℕ} {seen votes : List CheckPointArgs} {proof : CheckPointArgs}
    (h : quorumVote f seen votes = some proof) :
    proof ∈ votes ∧ 2 * f < (seen ++ votes).countP (fun v => v.digest = proof.digest) ∧
      2 * f < (seen ++ votes).countP fun v => v.view = proof.view := by
  induction votes generalizing seen with
  | nil => nomatch h
  | cons vote votes ih =>
    unfold quorumVote at h
    simp only [] at h
    split_ifs at h with hq
    · obtain rfl := Option.some.inj h
      refine ⟨List.mem_cons_self .., hq.1.trans_le ?_, hq.2.trans_le ?_⟩ <;>
        simp only [List.countP_append, List.countP_cons] <;> omega
    · obtain ⟨h1, h2, h3⟩ := ih h
      refine ⟨List.mem_cons_of_mem _ h1, ?_, ?_⟩
      · simp only [List.countP_append, List.countP_cons] at h2 ⊢
        omega
      · simp only [List.countP_append, List.countP_cons] at h3 ⊢
        omega

section Handlers

variable {env : Env A} {K : Server A → Msg → Prop} {s : Server A}

theorem inWindow_iff {view seq : ℤ} : s.inWindow view seq = true ↔ s.view = view ∧ s.h ≤ seq ∧ seq < s.H := by
  simp [inWindow]

/-- A handler that stops the timer and looks up an entry in the window goes on with the entry that is there. -/
theorem moves_entry (hs : s.WF) {view seq : ℤ} {g : Server A × ℕ → Run A (Server A)}
    (hg : ∀ s' r, s'.WF → s'.id = s.id → s'.trace = s.trace → s'.changing = s.changing →
      s'.inWindow view seq = true → s'.log.lookup ⟨view, seq⟩ = some r → Moves env K s' (after (g (s', r)))) :
    Moves env K s
      (after (if s.stopTimer.inWindow view seq then g (s.stopTimer.getEntry ⟨view, seq⟩) else .ok s.stopTimer)) := by
  have hstop : Move env K s s.stopTimer := .idle s false false 0 s.armed s.state s.seqmap
  refine (ReflTransGen.single hstop).trans ?_
  have hwf := hstop.wf hs
  split_ifs with hw
  · obtain ⟨rfl, -⟩ := inWindow_iff.mp hw
    unfold getEntry
    cases hl : s.stopTimer.log.lookup ⟨s.stopTimer.view, seq⟩ with
    | some r => exact hg s.stopTimer r hwf rfl rfl rfl hw hl
    | none =>
      have hnew : Move env K s.stopTimer _ := .newEntry s.stopTimer seq hl
      exact (ReflTransGen.single hnew).trans (hg _ _ (hnew.wf hwf) rfl rfl rfl hw (AList.lookup_insert _))
  · exact .refl

/-- Answering a task calls the service, which may panic; otherwise the answer is sent. -/
theorem replyByPendingTask_cases (env : Env A) (s : Server A) {pt : PendingTask} {pp : PrePrepareArgs}
    (hpp : (s.heap pt.ent).pp = some pp) :
    ∃ as, env.as.Called s.as as ∧
      (env.as.updateSeq s.as pt.seq pp.message.op pp.digest = .error as ∧
        s.replyByPendingTask env pt = .error (s.answered pt pp as) ∨
        ∃ r, ((s.answered pt pp as).heap pt.ent).r = some r ∧
          s.replyByPendingTask env pt = .ok ((s.answered pt pp as).send (.response r))) := by
  have has : (s.answer pt pp).as = s.as := rfl
  unfold replyByPendingTask
  simp only [hpp, has]
  cases hu : env.as.updateSeq s.as pt.seq pp.message.op pp.digest with
  | error as => exact ⟨as, .updateSeq _ _ _ (.inr hu), .inl ⟨rfl, rfl⟩⟩
  | ok as =>
    obtain ⟨r, hr⟩ : ∃ r, ((s.answer pt pp).heap pt.ent).r = some r := by simp
    refine ⟨as, .updateSeq _ _ _ (.inl hu), .inr ⟨r, hr, ?_⟩⟩
    simp only [reply, hr, answered]

theorem WF.task_pp (hs : s.WF) {queue : PriorityQueue PendingTask} {m : PQElem PendingTask}
    (hq : s.applyQueue.extractMin = (queue, some m)) : ∃ pp, (s.heap m.c.ent).pp = some pp := by
  have ht := hs.tasks m (by
    rw [PriorityQueue.content_of_extractMin hq]
    exact List.mem_cons_self ..)
  exact Option.isSome_iff_exists.mp (hs.commits _ ht.1 ht.2.2.2.2.2.2.1)

theorem moves_replyUpTo (seq : ℤ) (k : ℕ) (hs : s.WF) {key : ℤ} {cp : CheckPoint} (hcp : s.cps.lookup key = some cp)
    (hstable : cp.stable = true) (hle : seq ≤ cp.seq) : Moves env K s (after (replyUpTo env seq k s)) := by
  induction k generalizing s with
  | zero => exact .refl
  | succ k ih =>
    unfold replyUpTo
    cases hq : s.applyQueue.extractMin with
    | mk queue m =>
      cases m with
      | none => exact .refl
      | some m =>
        simp only []
        split_ifs with hm
        · obtain ⟨pp, hpp⟩ := hs.task_pp hq
          obtain ⟨as, has, ⟨-, hr⟩ | ⟨r, hr, hok⟩⟩ := replyByPendingTask_cases env
            { s with applyQueue := queue } hpp
          · rw [hr]
            exact .single (.answerTask s queue m pp as cp key hq hcp hstable (hm.trans hle) hpp has)
          · have hmove : Move env K s ({ s with applyQueue := queue }.answered m.c pp as) :=
              .answerTask s queue m pp as cp key hq hcp hstable (hm.trans hle) hpp has
            have hsend : Move env K ({ s with applyQueue := queue }.answered m.c pp as) _ := .respond _ m.c.ent r hr
            rw [hok]
            exact ((ReflTransGen.single hmove).tail hsend).trans (ih (hsend.wf (hmove.wf hs)) hcp)
        · exact .refl

/-- Answering older tasks touches the service, the entries and the queue, and sends nothing but answers. -/
theorem replyUpTo_frame {k : ℕ} {seq : ℤ} {s' : Server A} (h : replyUpTo env seq k s = .ok s') :
    ∃ as heap queue trace, s' = { s with as := as, heap := heap, applyQueue := queue, trace := trace } ∧
      ∀ vote, .send (.checkPoint vote) ∈ trace → s.Sent (.checkPoint vote) := by
  induction k generalizing s with
  | zero =>
    obtain rfl := Except.ok.inj h
    exact ⟨_, _, _, _, rfl, fun _ hm => hm⟩
  | succ k ih =>
    unfold replyUpTo at h
    cases hq : s.applyQueue.extractMin with
    | mk queue m =>
      rw [hq] at h
      cases m with
      | none =>
        obtain rfl := Except.ok.inj h
        exact ⟨_, _, _, _, rfl, fun _ hm => hm⟩
      | some m =>
        simp only [] at h
        split_ifs at h with hm
        · cases hpp : (s.heap m.c.ent).pp with
          | none =>
            simp only [replyByPendingTask, hpp] at h
            nomatch h
          | some pp =>
            obtain ⟨as, has, ⟨-, hr⟩ | ⟨r, hr, hok⟩⟩ := replyByPendingTask_cases env
              { s with applyQueue := queue } hpp
            · rw [hr] at h
              nomatch h
            · rw [hok] at h
              obtain ⟨as', heap, queue', trace, rfl, hsent⟩ := ih h
              exact ⟨as', heap, queue', trace, rfl, fun vote hm => by simpa [Sent] using hsent vote hm⟩
        · obtain rfl := Except.ok.inj h
          exact ⟨_, _, _, _, rfl, fun _ hm => hm⟩

/-- A checkpoint that has just become the stable one is the basis for answering older tasks. -/
theorem moves_settled (hs : s.WF) {key : ℤ} {cp : CheckPoint} {proof : CheckPointArgs} (k : ℕ) :
    Moves env K (s.settle key cp proof)
      (after (replyUpTo env cp.seq k (s.settle key cp proof) >>= fun s => .ok { s with lastcp := cp.seq })) := by
  have hcp : (s.settle key cp proof).cps.lookup key = some { cp with stable := true, digest := proof.digest } := by
    simp [settle, removeOldCheckPoint, RangeMap.lookup_filter]
  refine (moves_replyUpTo cp.seq k (hs.settle key cp proof) hcp rfl le_rfl).bind fun s' hs' _ => ?_
  obtain ⟨_, _, _, _, rfl, -⟩ := replyUpTo_frame hs'
  exact .single (.settled _ { cp with stable := true, digest := proof.digest } key hcp rfl)

theorem moves_countVotes (hs : s.WF) {key : ℤ} {cp : CheckPoint} (hdiv : key.tmod checkpointDiv = 0)
    (hcp : s.cps.lookup key = some cp) (hstable : cp.stable = false) :
    Moves env K s (after (s.countVotes env key cp)) := by
  unfold countVotes
  split
  · exact .refl
  · next proof hq =>
    split_ifs at hq with hlen
    have hnote : (s.note (.stable proof cp.proof)).WF := hs.of_eq rfl rfl rfl rfl rfl rfl
    change Moves env K s (after (replyUpTo env cp.seq _ (settle ((s.note _).adoptView proof) key cp proof) >>= _))
    unfold adoptView
    split_ifs with hv
    · have hresume : ((s.note (.stable proof cp.proof)).resumeIn proof.view).WF :=
        hnote.mono (fun _ _ hr => hr) (le_of_lt hv) rfl rfl rfl fun _ he => he
      exact (ReflTransGen.single (.stabilizeAndResume s key cp proof hdiv hcp hstable hq hv)).trans
        (moves_settled hresume _)
    · exact (ReflTransGen.single (.stabilize s key cp proof hdiv hcp hstable hq (not_lt.mp hv))).trans
        (moves_settled hnote _)

/-- A digest is computed for every number that may have a checkpoint. -/
theorem checkPointDigest_eq_some (env : Env A) (s : Server A) {n : ℤ} (hdiv : n.tmod checkpointDiv = 0)
    (digest : String) : ∃ digest', s.checkPointDigest env n digest = some digest' := by
  unfold checkPointDigest
  split_ifs with h1 h2 h3
  · exact ⟨_, rfl⟩
  · exact ⟨_, rfl⟩
  · exact ⟨_, rfl⟩
  · rw [Int.tmod_eq_emod_of_nonneg (by omega)] at hdiv h3
    unfold checkpointDiv at hdiv h3
    omega

/-- What `getCheckPoint` does: it has no answer, or stores the checkpoint with its digest. -/
theorem getCheckPoint_cases (env : Env A) (s : Server A) {n : ℤ} (hdiv : n.tmod checkpointDiv = 0) :
    s.hasSlot n = false ∧ s.getCheckPoint env n = .ok (s, none) ∨
    s.hasSlot n = true ∧ ∃ digest, s.checkPointDigest env n (s.slot n).digest = some digest ∧
      s.getCheckPoint env n =
        .ok (s.setCheckPoint n { s.slot n with digest := digest }, some { s.slot n with digest := digest }) := by
  obtain ⟨digest, hd⟩ := checkPointDigest_eq_some env s hdiv (s.slot n).digest
  unfold getCheckPoint hasSlot slot at *
  cases hl : s.cps.lookup n with
  | none =>
    cases hlater : s.hasLaterStable n with
    | true => simp
    | false =>
      rw [hl] at hd
      simp only [Option.getD_none] at hd
      simp [hd]
  | some cp =>
    rw [hl] at hd
    simp only [Option.getD_some] at hd
    simp [hd]

theorem moves_checkPoint (hs : s.WF) {args : CheckPointArgs} (hk : Known K s (.checkPoint args)) :
    Moves env K s (after (s.checkPoint env args)) := by
  unfold checkPoint
  split_ifs with hdiv
  · exact .refl
  · rw [not_not] at hdiv
    rcases getCheckPoint_cases env s hdiv with ⟨-, hg⟩ | ⟨hslot, digest, -, hg⟩
    · rw [hg]
      exact .refl
    · rw [hg]
      have htouch : Move env K s _ := .touch s args.seq digest hdiv hslot
      refine (ReflTransGen.single htouch).trans ?_
      change Moves env K _ (after (if _ then _ else _))
      split_ifs with hstable
      · exact .refl
      · rw [Bool.not_eq_true] at hstable
        have hlookup := AList.lookup_insert (a := args.seq) (b := { s.slot args.seq with digest := digest }) s.cps
        have hbefore : Before s (s.setCheckPoint args.seq { s.slot args.seq with digest := digest })
            (.checkPoint args) := ⟨rfl, List.suffix_rfl, by simp [slot], by simp [slot]⟩
        have hvote : Move env K _ _ := .vote _ _ args (hk _ hbefore) hdiv hlookup hstable
        refine (ReflTransGen.single hvote).trans ?_
        exact moves_countVotes (hvote.wf (htouch.wf hs)) hdiv (AList.lookup_insert _) hstable

@[simp] theorem setCheckPoint_setCheckPoint (n : ℤ) (cp cp' : CheckPoint) :
    (s.setCheckPoint n cp).setCheckPoint n cp' = s.setCheckPoint n cp' := by
  simp [AList.insert_insert]

theorem send_setCheckPoint (msg : Msg) (n : ℤ) (cp : CheckPoint) :
    (s.send msg).setCheckPoint n cp = (s.setCheckPoint n cp).send msg := rfl

@[simp] theorem slot_setCheckPoint (n : ℤ) (cp : CheckPoint) : (s.setCheckPoint n cp).slot n = cp := by
  simp [slot]

/-- Voting for the own checkpoint `n`: the vote is cast once, whatever the digest is computed to be then. -/
theorem startCheckPoint_cases (env : Env A) (s : Server A) {n : ℤ} (hdiv : n.tmod checkpointDiv = 0) :
    s.startCheckPoint env n = .ok s ∨
    s.hasSlot n = true ∧
      ∃ digest digest' cp, s.checkPointDigest env n (s.slot n).digest = some digest ∧
        (s.castVote n digest digest').cps.lookup n = some cp ∧ cp.stable = false ∧
        s.startCheckPoint env n = (s.castVote n digest digest').countVotes env n cp := by
  unfold startCheckPoint
  rcases getCheckPoint_cases env s hdiv with ⟨-, hg⟩ | ⟨hslot, digest, hd, hg⟩
  · rw [hg]
    exact .inl rfl
  · rw [hg]
    refine .inr ⟨hslot, ?_⟩
    let cpArgs : CheckPointArgs := { seq := n, digest := digest, rid := s.id, view := s.view }
    let cp : CheckPoint := { s.slot n with seq := n, stable := false, digest := digest }
    let s' := (s.setCheckPoint n cp).send (.checkPoint cpArgs)
    have hs' : s'.slot n = cp := slot_setCheckPoint n cp
    have hballot : ((s.setCheckPoint n { s.slot n with digest := digest }).setCheckPoint n cp).send
        (.checkPoint cpArgs) = s' := by
      rw [setCheckPoint_setCheckPoint]
    change ∃ _ _ _, _ ∧ _ ∧ _ ∧ (((s.setCheckPoint n { s.slot n with digest := digest }).setCheckPoint n cp).send
      (.checkPoint cpArgs)).checkPoint env cpArgs = _
    rw [hballot]
    unfold checkPoint
    rw [if_neg (not_not.mpr hdiv)]
    rcases getCheckPoint_cases env s' hdiv with ⟨hno, -⟩ | ⟨-, digest', hd', hg'⟩
    · simp [hasSlot, s'] at hno
    · rw [hs'] at hg'
      refine ⟨digest, digest', _, hd, AList.lookup_insert _, rfl, ?_⟩
      rw [hg']
      change ((((s.setCheckPoint n cp).send _).setCheckPoint n _).setCheckPoint n _).countVotes env n _ = _
      rw [setCheckPoint_setCheckPoint, send_setCheckPoint, setCheckPoint_setCheckPoint]
      rfl

theorem moves_applyLoop (k : ℕ) (hs : s.WF) : Moves env K s (after (applyLoop env k s)) := by
  induction k generalizing s with
  | zero => exact .refl
  | succ k ih =>
    unfold applyLoop
    cases hq : s.applyQueue.extractMin with
    | mk queue m =>
      cases m with
      | none => exact .refl
      | some m =>
        simp only []
        split_ifs with hturn hlate
        · obtain ⟨pp, hpp⟩ := hs.task_pp hq
          obtain ⟨as, has, ⟨-, hr⟩ | ⟨r, hr, hok⟩⟩ := replyByPendingTask_cases env (s.takeTurn queue m) hpp
          · rw [hr]
            exact .single (.runTask s queue m pp as hq hturn hpp has)
          · rw [hok]
            have hrun : Move env K s (s.runTask queue m pp as) := .runTask s queue m pp as hq hturn hpp has
            have hsend : Move env K _ ((s.runTask queue m pp as).send (.response r)) := .respond _ m.c.ent r hr
            have htail := (ReflTransGen.single hrun).tail hsend
            change Moves env K s (after (if (s.apply + 1).tmod checkpointDiv = 0 then
              ((s.runTask queue m pp as).send (.response r)).startCheckPoint env (s.apply + 1) >>= applyLoop env k
              else applyLoop env k ((s.runTask queue m pp as).send (.response r))))
            split_ifs with hdiv
            · refine Moves.bind ?_ fun s' _ hs' => ih (hs'.wf hs)
              rcases startCheckPoint_cases env ((s.runTask queue m pp as).send (.response r)) hdiv with
                h | ⟨hslot, digest, digest', cp, -, hcp, hstable, h⟩
              · rw [h]
                exact htail
              · rw [h]
                rw [hturn] at hdiv hslot hcp ⊢
                have hvote := Move.runTaskAndVote (K := K) s queue m pp as r digest digest' hq hturn hpp has hr hdiv
                  hslot
                exact (ReflTransGen.single hvote).trans (moves_countVotes (hvote.wf hs) hdiv hcp hstable)
            · exact htail.trans (ih (Moves.wf htail hs))
        · exact .refl
        · exact .refl

theorem moves_commitEntry (hs : s.WF) {args : CommitArgs} {r : ℕ} (hk : K s (.commit args)) (hc : s.changing = false)
    (hw : s.inWindow args.view args.seq = true) (hr : s.log.lookup ⟨args.view, args.seq⟩ = some r) :
    Moves env K s (after (s.commitEntry env args r)) := by
  unfold commitEntry
  simp only []
  split_ifs with hm hexec
  · have hadd : Move env K s (s.setEntry r { s.heap r with c := (s.heap r).c ++ [args] }) :=
      .addCommit s r args hk hc hw hr hm
    refine (ReflTransGen.single hadd).trans ?_
    have hwf := hadd.wf hs
    generalize hs' : s.setEntry r { s.heap r with c := (s.heap r).c ++ [args] } = s' at *
    have hheap : s'.heap r = { s.heap r with c := (s.heap r).c ++ [args] } := by
      rw [← hs']
      simp
    unfold execute
    split_ifs with happly
    · exact .refl
    · split
      · exact .refl
      · next queue hq =>
        have hqueue : Move env K s' _ := .enqueue s' r args queue (hs' ▸ hw) (hs' ▸ hr) (by rw [hheap]; exact hm)
          (by rw [hheap]; exact hexec.2.1) (by rw [hheap]; simpa using hexec.1) (by rw [hheap]; exact hexec.2.2)
          (not_le.mp happly) hq
        exact (ReflTransGen.single hqueue).trans (moves_applyLoop _ (hqueue.wf hwf))
  · exact .single (.addCommit s r args hk hc hw hr hm)
  · exact .refl

theorem moves_commit (hs : s.WF) {args : CommitArgs} (hk : Known K s (.commit args)) :
    Moves env K s (after (s.commit env args)) := by
  unfold commit
  split_ifs with hc
  · exact .refl
  · refine moves_entry hs (g := fun p => p.1.commitEntry env args p.2) ?_
    intro s' r hs' hid htrace hchanging hw hr
    have hbefore : Before s s' (.commit args) := ⟨hid, htrace ▸ List.suffix_rfl⟩
    rw [Bool.not_eq_true, ← hchanging] at hc
    exact moves_commitEntry hs' (hk s' hbefore) hc hw hr

theorem commitEntry_of_not_sendCommit {args : CommitArgs} {r : ℕ} (hm : matchesPP (s.heap r) args.digest = true)
    (hsend : (s.heap r).sendCommit = false) :
    s.commitEntry env args r = .ok (s.setEntry r { s.heap r with c := (s.heap r).c ++ [args] }) := by
  unfold commitEntry
  simp only []
  rw [if_pos hm, if_neg fun h => Bool.false_ne_true (hsend.symm.trans h.2.1)]

/-- A commit message for an entry that is not marked yet is only counted. -/
theorem commit_of_not_sendCommit {args : CommitArgs} {r : ℕ} (hc : s.changing = false)
    (hw : s.inWindow args.view args.seq = true) (hr : s.log.lookup ⟨args.view, args.seq⟩ = some r)
    (hm : matchesPP (s.heap r) args.digest = true) (hsend : (s.heap r).sendCommit = false) :
    s.commit env args = .ok (s.stopTimer.setEntry r { s.heap r with c := (s.heap r).c ++ [args] }) := by
  have hget : s.stopTimer.getEntry ⟨args.view, args.seq⟩ = (s.stopTimer, r) := by
    have hr' : s.stopTimer.log.lookup ⟨args.view, args.seq⟩ = some r := hr
    simp only [getEntry, hr']
  unfold commit
  simp only [hc, Bool.false_eq_true, if_false, hget]
  change (if s.inWindow args.view args.seq = true then s.stopTimer.commitEntry env args r else _) = _
  rw [if_pos hw]
  exact commitEntry_of_not_sendCommit (s := s.stopTimer) hm hsend

/-- The own commit message is counted before the entry is marked, so that it is not what completes the entry. -/
theorem sendCommit_eq (hs : s.WF) {args : PrepareArgs} {r : ℕ} {pp : PrePrepareArgs} {as : A} (hc : s.changing = false)
    (hw : s.inWindow args.view args.seq = true) (hr : s.log.lookup ⟨args.view, args.seq⟩ = some r)
    (hpp : (s.heap r).pp = some pp) (hsend : (s.heap r).sendCommit = false)
    (has : env.as.commitSeq s.as s.view pp.seq pp.message.op pp.digest = (as, .ok ())) :
    s.sendCommit env args r pp = .ok
      { ({ s with as := as }.setEntry r
          { s.heap r with sendCommit := true, c := (s.heap r).c ++ [s.commitFor pp] }).send
            (.commit (s.commitFor pp)) with
        monitor := false, change := false, myViewChangeCount := 0
        seqmap := AList.insert pp.message.op args.seq s.seqmap } := by
  obtain ⟨hlt, hid⟩ := hs.refs _ _ hr
  have hpid := hs.pps r pp hlt hpp
  rw [hid] at hpid
  simp only [EntryID.mk.injEq] at hpid
  obtain ⟨hview, hseq⟩ := hpid
  let cArgs : CommitArgs := { view := args.view, seq := pp.seq, digest := pp.digest, rid := s.id }
  let s' := { s with as := as, seqmap := AList.insert pp.message.op args.seq s.seqmap }.send (.commit cArgs)
  have hown : s'.commit env cArgs = .ok (s'.stopTimer.setEntry r { s.heap r with c := (s.heap r).c ++ [cArgs] }) := by
    refine commit_of_not_sendCommit (s := s') hc ?_ ?_ ?_ hsend
    · rw [hseq] at hw
      exact hw
    · rw [hseq] at hr
      exact hr
    · change matchesPP (s.heap r) pp.digest = true
      simp [matchesPP, hpp]
  unfold sendCommit
  rw [has]
  change (s'.commit env cArgs >>= fun s => _) = _
  rw [hown]
  simp [Bind.bind, Except.bind, s', cArgs, commitFor, hview]

theorem moves_sendCommit (hs : s.WF) {args : PrepareArgs} {r : ℕ} {pp : PrePrepareArgs} (hc : s.changing = false)
    (hw : s.inWindow args.view args.seq = true) (hr : s.log.lookup ⟨args.view, args.seq⟩ = some r)
    (hpp : (s.heap r).pp = some pp) (hsend : (s.heap r).sendCommit = false) (hp : s.prepared (s.heap r) = true) :
    Moves env K s (after (s.sendCommit env args r pp)) := by
  rcases hcall : env.as.commitSeq s.as s.view pp.seq pp.message.op pp.digest with ⟨as, answer⟩
  have hservice : Move env K s { s with as := as } := by
    have hcalled : env.as.Called s.as _ := .commitSeq s.view pp.seq pp.message.op pp.digest
    rw [hcall] at hcalled
    exact .service s as hcalled
  rcases answer with (text | text) | ⟨⟩
  · have harm : Move env K { s with as := as } { s with as := as }.arm :=
      .idle _ s.monitor s.change s.myViewChangeCount (s.armed + 1) s.state s.seqmap
    unfold sendCommit
    rw [hcall]
    exact (ReflTransGen.single hservice).tail harm
  · unfold sendCommit
    rw [hcall]
    exact .single hservice
  · obtain ⟨hlt, hid⟩ := hs.refs _ _ hr
    have hpid := hs.pps r pp hlt hpp
    rw [hid] at hpid
    simp only [EntryID.mk.injEq] at hpid
    rw [sendCommit_eq hs hc hw hr hpp hsend hcall]
    have hcommit : Move env K s _ := .sendCommit s r pp as hc (hpid.1 ▸ hpid.2 ▸ hw) (hpid.1 ▸ hpid.2 ▸ hr) hpp hsend hp
      hcall
    exact (ReflTransGen.single hcommit).tail (.idle _ false false 0 _ _ _)

theorem moves_prepareEntry (hs : s.WF) {args : PrepareArgs} {r : ℕ} (hk : K s (.prepare args)) (hc : s.changing = false)
    (hw : s.inWindow args.view args.seq = true) (hr : s.log.lookup ⟨args.view, args.seq⟩ = some r) :
    Moves env K s (after (s.prepareEntry env args r)) := by
  unfold prepareEntry
  simp only []
  by_cases hm : matchesPP (s.heap r) args.digest = true
  · rw [if_pos hm]
    have hadd : Move env K s (s.setEntry r { s.heap r with p := (s.heap r).p ++ [args] }) :=
      .addPrepare s r args hk hc hw hr hm
    refine (ReflTransGen.single hadd).trans ?_
    split
    · exact .refl
    · next pp hpp =>
      split_ifs with hprep
      · apply moves_sendCommit (hadd.wf hs) hc hw hr
        · simpa using hpp
        · simpa using hprep.1
        · simpa using hprep.2
      · exact .refl
  · rw [if_neg hm]
    exact .refl

theorem moves_prepare (hs : s.WF) {args : PrepareArgs} (hk : Known K s (.prepare args)) :
    Moves env K s (after (s.prepare env args)) := by
  unfold prepare
  split_ifs with hc
  · exact .refl
  · refine moves_entry hs (g := fun p => p.1.prepareEntry env args p.2) ?_
    intro s' r hs' hid htrace hchanging hw hr
    have hbefore : Before s s' (.prepare args) := ⟨hid, htrace ▸ List.suffix_rfl⟩
    rw [Bool.not_eq_true, ← hchanging] at hc
    exact moves_prepareEntry hs' (hk s' hbefore) hc hw hr

theorem moves_prePrepareEntry (hK : KnowsOwn K) (hs : s.WF) {args : PrePrepareArgs} {r : ℕ}
    (hk : K s (.prePrepare args)) (hc : s.changing = false) (hw : s.inWindow args.view args.seq = true)
    (hr : s.log.lookup ⟨args.view, args.seq⟩ = some r) : Moves env K s (after (s.prePrepareEntry env args r)) := by
  unfold prePrepareEntry
  simp only []
  split_ifs with ha
  · have haccept : Move env K s ((s.setEntry r { s.heap r with pp := some args }).send
      (.prepare (s.prepareFor args))) := .accept s r args hk hc hw hr ha
    have hsent : ((s.setEntry r { s.heap r with pp := some args }).send (.prepare (s.prepareFor args))).Sent
      (.prepare (s.prepareFor args)) := List.mem_cons_self ..
    exact (ReflTransGen.single haccept).trans (moves_prepare (haccept.wf hs) (hK.known_prepare hsent))
  · exact .refl

theorem moves_prePrepare (hK : KnowsOwn K) (hs : s.WF) {args : PrePrepareArgs} (hk : Known K s (.prePrepare args)) :
    Moves env K s (after (s.prePrepare env args)) := by
  unfold prePrepare
  split_ifs with hc
  · exact .refl
  · rcases hcall : env.as.prepareSeq s.as args.view args.seq args.message.op args.digest with ⟨as, answer⟩
    have hservice : Move env K s { s with as := as } := by
      have hcalled : env.as.Called s.as _ := .prepareSeq args.view args.seq args.message.op
        args.digest
      rw [hcall] at hcalled
      exact .service s as hcalled
    rcases answer with (text | text) | ⟨⟩
    · exact .single hservice
    · exact .single hservice
    · refine (ReflTransGen.single hservice).trans ?_
      refine moves_entry (hservice.wf hs) (g := fun p => p.1.prePrepareEntry env args p.2) ?_
      intro s' r hs' hid htrace hchanging hw hr
      have hbefore : Before s s' (.prePrepare args) := ⟨hid, htrace ▸ List.suffix_rfl⟩
      rw [Bool.not_eq_true] at hc
      exact moves_prePrepareEntry hK hs' (hk s' hbefore) (hchanging.trans hc) hw hr

theorem moves_propose (hK : KnowsOwn K) (hs : s.WF) {args : RequestArgs} (hk : K s (.request args))
    (hc : s.changing = false) (hl : s.isLeader = true) (hnew : s.seqmap.lookup args.op = none) :
    Moves env K s (after (s.propose env args)) := by
  unfold propose
  split_ifs with hH
  · exact .refl
  · rcases hcall : env.as.getOpAuxiliary s.as args.op s.id with ⟨as, answer⟩
    have hservice : Move env K s { s with as := as } := by
      have hcalled : env.as.Called s.as _ := .getOpAuxiliary args.op s.id
      rw [hcall] at hcalled
      exact .service s as hcalled
    rcases answer with (text | text) | digest
    · exact .single hservice
    · exact .single hservice
    · have hpropose : Move env K s _ := .propose s args digest as (AList.insert args.op s.tSeq s.seqmap) hk hc hl hnew
        (not_le.mp hH) hcall
      exact (ReflTransGen.single hpropose).trans (moves_prePrepare hK (hpropose.wf hs)
        (hK.known_prePrepare (List.mem_cons_self ..)))

theorem moves_reply (r : ℕ) : Moves env K s (s.reply (s.heap r)) := by
  unfold reply
  split
  · next resp hr => exact .single (.respond s r resp hr)
  · exact .refl

theorem moves_reproposeEntry (hK : KnowsOwn K) (hs : s.WF) {n : ℤ} {r : ℕ} (hc : s.changing = false)
    (hl : s.isLeader = true) (hr : s.log.lookup ⟨s.view, n⟩ = some r) :
    Moves env K s (after (s.reproposeEntry env r)) := by
  unfold reproposeEntry
  simp only []
  split
  · exact .refl
  · next pp hpp =>
    split_ifs
    · exact .refl
    · exact moves_reply r
    · have hagain : Move env K s _ := .repropose s n r pp hc hl hr hpp
      exact (ReflTransGen.single hagain).trans (moves_prePrepare hK (hagain.wf hs)
        (hK.known_prePrepare (List.mem_cons_self ..)))

theorem moves_repropose (hK : KnowsOwn K) (hs : s.WF) {n : ℤ} (hc : s.changing = false) (hl : s.isLeader = true) :
    Moves env K s (after (s.repropose env n)) := by
  unfold repropose
  split_ifs
  · exact .refl
  · unfold getEntry
    cases hr : s.log.lookup ⟨s.view, n⟩ with
    | some r => exact moves_reproposeEntry hK hs hc hl hr
    | none =>
      have hnew : Move env K s _ := .newEntry s n hr
      exact (ReflTransGen.single hnew).trans
        (moves_reproposeEntry hK (hnew.wf hs) hc hl (AList.lookup_insert (a := ⟨s.view, n⟩) (b := s.next) s.log))

theorem moves_request (hK : KnowsOwn K) (hs : s.WF) {args : RequestArgs} (hk : Known K s (.request args)) :
    Moves env K s (after (s.request env args)) := by
  unfold request
  split_ifs with hc hl
  · exact .refl
  · rw [Bool.not_eq_true] at hc
    unfold handleRequestLeader
    split
    · next hnew => exact moves_propose hK hs (hk s rfl) hc hl hnew
    · exact moves_repropose hK hs hc hl
  · unfold handleRequestFollower
    split_ifs
    · exact .refl
    · have hrelay : Move env K s (s.send (.request args)) := .relay s args (hk s rfl)
      exact (ReflTransGen.single hrelay).tail (.idle _ true true s.myViewChangeCount (s.armed + 1) s.state s.seqmap)

/-- The preprepare messages of a new view are about the numbers after `mins`, one each. -/
theorem map_seq_calcPPS (view mins maxs : ℤ) (pprepared : RangeMap ℤ PrePrepareArgs) :
    (calcPPS view mins maxs pprepared).map PrePrepareArgs.seq =
      (List.range (maxs - mins).toNat).map fun j : ℕ => mins + 1 + (j : ℤ) := by
  unfold calcPPS
  rw [List.map_map]
  refine List.map_congr_left fun j _ => ?_
  simp only [Function.comp_apply]
  split <;> rfl

theorem nodup_seq_calcPPS (view mins maxs : ℤ) (pprepared : RangeMap ℤ PrePrepareArgs) :
    ((calcPPS view mins maxs pprepared).map PrePrepareArgs.seq).Nodup := by
  rw [map_seq_calcPPS]
  exact List.Nodup.map (fun i j h => by omega) List.nodup_range

theorem of_mem_calcPPS {view mins maxs : ℤ} {pprepared : RangeMap ℤ PrePrepareArgs} {pp : PrePrepareArgs}
    (h : pp ∈ calcPPS view mins maxs pprepared) : pp.view = view ∧ mins < pp.seq ∧ pp.seq ≤ maxs := by
  obtain ⟨j, hj, rfl⟩ := List.mem_map.mp h
  rw [List.mem_range] at hj
  clear h
  simp only []
  split <;> exact ⟨rfl, by simp only []; omega, by simp only []; omega⟩

theorem takeOver_cons {view : ℤ} {pp : PrePrepareArgs} (pps : List PrePrepareArgs) (hview : pp.view = view)
    (hnew : s.log.lookup ⟨view, pp.seq⟩ = none) :
    takeOver view (pp :: pps) s = takeOver view pps (s.takeOne pp) := by
  subst hview
  conv_lhs => rw [takeOver]
  simp [getEntry, hnew]

/-- It makes no difference to the new entries whether they are made before the view is raised. -/
theorem takeOne_enterView {view mins : ℤ} {v : List ViewChangeArgs} {ps : List PrepareArgs} {pp : PrePrepareArgs}
    (hmin : mins < pp.seq) (hnew : s.log.lookup ⟨pp.view, pp.seq⟩ = none) :
    (s.takeOne pp).enterView view mins v ps = (s.enterView view mins v ps).takeOne pp := by
  have hlog : removeOldLog mins (s.log.insert ⟨pp.view, pp.seq⟩ s.next) =
      (removeOldLog mins s.log).insert ⟨pp.view, pp.seq⟩ s.next :=
    RangeMap.filter_insert (by simpa using hmin.le) hnew
  simp [hlog]

theorem preparesOf_takeOver (view view' : ℤ) (l pps : List PrePrepareArgs) :
    (takeOver view l s).preparesOf view' pps = s.preparesOf view' pps := by
  induction l generalizing s with
  | nil => rfl
  | cons pp l ih =>
    rw [takeOver, ih]
    unfold getEntry
    split <;> rfl

theorem lookup_takeOne_ne {pp : PrePrepareArgs} {id : EntryID} (h : id ≠ ⟨pp.view, pp.seq⟩) :
    (s.takeOne pp).log.lookup id = s.log.lookup id := by
  simp [AList.lookup_insert_ne h]

theorem moves_takeOver {view mins maxs : ℤ} {v : List ViewChangeArgs} {ps : List PrepareArgs}
    {pps l : List PrePrepareArgs} (hnv : newViewOf view v = some (mins, maxs, pps)) (hl : l ⊆ pps)
    (hmem : ∀ pp ∈ l, pp.view = view ∧ mins < pp.seq) (hnodup : (l.map PrePrepareArgs.seq).Nodup)
    (hnew : ∀ pp ∈ l, s.log.lookup ⟨view, pp.seq⟩ = none) {s' : Server A}
    (hs : Moves env K s' (s.enterView view mins v ps)) :
    Moves env K s' ((takeOver view l s).enterView view mins v ps) := by
  induction l generalizing s with
  | nil => exact hs
  | cons pp l ih =>
    obtain ⟨hview, hmin⟩ := hmem pp (List.mem_cons_self ..)
    obtain ⟨hne, hnodup⟩ := List.nodup_cons.mp hnodup
    have hpp := hnew pp (List.mem_cons_self ..)
    rw [takeOver_cons l hview hpp]
    refine ih (fun p hp => hl (List.mem_cons_of_mem _ hp)) (fun p hp => hmem p (List.mem_cons_of_mem _ hp)) hnodup ?_ ?_
    · intro p hp
      rw [lookup_takeOne_ne, hnew p (List.mem_cons_of_mem _ hp)]
      intro h
      simp only [EntryID.mk.injEq] at h
      exact hne (h.2 ▸ List.mem_map_of_mem hp)
    · subst hview
      rw [takeOne_enterView hmin hpp]
      refine hs.tail (.takeOne _ v mins maxs pps pp (List.mem_cons_self ..) hnv (hl (List.mem_cons_self ..)) rfl ?_)
      change (removeOldLog mins s.log).lookup ⟨pp.view, pp.seq⟩ = none
      rw [removeOldLog, RangeMap.lookup_filter, hpp]
      rfl

/-- The server that goes into view `nv.view`: it leads that view and has announced it, or was told so. -/
def Announced (K : Server A → Msg → Prop) (s : Server A) (nv : NewViewArgs) : Prop :=
  (nv.view.tmod s.replicas.length = s.id ∧ 2 * s.f + 1 ≤ nv.v.length ∧
      s.vcs.lookup nv.view = some nv.v ∧ s.Sent (.newView nv)) ∨
    (Known K s (.newView nv) ∧
      2 * s.f < ((nv.v.filter fun vc => vc.view = nv.view).map ViewChangeArgs.rid).dedup.length)

theorem Announced.mayEnter {s' : Server A} {nv : NewViewArgs} {mins maxs : ℤ} {pps : List PrePrepareArgs}
    (h : Announced K s nv) (hmoves : Moves env K s s') (hview : s'.view = s.view) (hvcs : s'.vcs = s.vcs)
    (hlt : s.view < nv.view) (hnv : newViewOf nv.view nv.v = some (mins, maxs, pps)) :
    MayEnter K s' nv mins maxs pps := by
  obtain ⟨hid, hreplicas, hf⟩ := hmoves.fixed
  refine ⟨hview ▸ hlt, hnv, ?_⟩
  rcases h with ⟨hl, hlen, hlookup, hsent⟩ | ⟨hk, hcount⟩
  · exact .inl ⟨by rw [hreplicas, hid, hl], by omega, hvcs ▸ hlookup, hmoves.sent hsent⟩
  · exact .inr ⟨hk s' ⟨hid, hmoves.trace_suffix, hview, hf⟩, by omega⟩

theorem setCheckPoint_settle (n : ℤ) (cp cp' : CheckPoint) (proof : CheckPointArgs) :
    (s.setCheckPoint n cp).settle n cp' proof = s.settle n cp' proof := by
  simp [AList.insert_insert]
  rfl

theorem stablizeCP_of_le {key : ℤ} {cp : CheckPoint} {proof : CheckPointArgs} (h : proof.view ≤ s.view) :
    s.stablizeCP env key cp proof =
      (replyUpTo env cp.seq s.applyQueue.length (s.settle key cp proof) >>= fun s =>
        .ok { s with lastcp := cp.seq }) := by
  unfold stablizeCP adoptView
  rw [if_neg (not_lt.mpr h)]
  rfl

theorem moves_catchUp (env : Env A) (order : Range ℤ) (hs : s.WF) {nv : NewViewArgs} {mins maxs : ℤ}
    {pps : List PrePrepareArgs}
    (henter : MayEnter K s nv mins maxs pps) :
    Moves env K s (after (s.catchUp env order nv.v mins)) ∧
      ∀ s', s.catchUp env order nv.v mins = .ok s' → s'.view = s.view ∧ s'.vcs = s.vcs ∧ s'.Reaches mins := by
  unfold catchUp
  split
  · exact ⟨.refl, fun _ h => nomatch h⟩
  · next scp hscp =>
    split_ifs with hlt
    · split
      · exact ⟨.refl, fun _ h => nomatch h⟩
      · next cp2 hfind =>
        obtain ⟨vc, hvc, hfilter⟩ := List.exists_of_findSome?_eq_some hfind
        rw [Option.filter_eq_some_iff, decide_eq_true_eq] at hfilter
        obtain ⟨hcp2, rfl⟩ := hfilter
        simp only []
        rw [stablizeCP_of_le le_rfl, setCheckPoint_settle]
        have hcatch : Move env K s _ := .catchUp s nv scp cp2 cp2.seq maxs pps order henter hscp hlt rfl ⟨vc, hvc, hcp2⟩
        refine ⟨(ReflTransGen.single hcatch).trans (moves_settled hs _), fun s' h => ?_⟩
        obtain ⟨s₁, hreply, hs₁⟩ := bind_eq_ok.mp h
        obtain rfl := Except.ok.inj hs₁
        obtain ⟨_, _, _, _, rfl, -⟩ := replyUpTo_frame hreply
        refine ⟨rfl, rfl, cp2.seq, { seq := cp2.seq, stable := true, digest := cp2.digest, view := cp2.view },
          ?_, rfl, le_rfl⟩
        simp [settle, removeOldCheckPoint, RangeMap.lookup_filter]
    · refine ⟨.refl, fun s' h => ?_⟩
      obtain rfl := Except.ok.inj h
      obtain ⟨⟨key, cp⟩, hmem, rfl⟩ := List.mem_map.mp (List.mem_of_find?_eq_some hscp)
      exact ⟨rfl, rfl, key, cp, RangeMap.mem_range.mp hmem, List.find?_some hscp, not_lt.mp hlt⟩

theorem newViewOf_eq (view : ℤ) {mins maxs : ℤ} {v : List ViewChangeArgs} {pprepared : RangeMap ℤ PrePrepareArgs}
    (h : calcMinMaxspp v = some (mins, maxs, pprepared)) :
    newViewOf view v = some (mins, maxs, calcPPS view mins maxs pprepared) := by
  simp [newViewOf, h]

theorem moves_enteringNewView (hs : s.WF) {order : Range ℤ} {nv : NewViewArgs} {mins maxs : ℤ}
    {pprepared : RangeMap ℤ PrePrepareArgs} (h : Announced K s nv) (hlt : s.view < nv.view)
    (hcalc : calcMinMaxspp nv.v = some (mins, maxs, pprepared)) :
    Moves env K s (after (s.enteringNewView env order nv mins maxs (calcPPS nv.view mins maxs pprepared))) := by
  have hnv := newViewOf_eq nv.view hcalc
  obtain ⟨hcatch, hframe⟩ := moves_catchUp env order hs
    (h.mayEnter (ReflTransGen.refl : Moves env K s s) rfl rfl hlt hnv)
  refine hcatch.bind fun s' hs' hmoves => ?_
  obtain ⟨hview, hvcs, hmins⟩ := hframe s' hs'
  have hwf := hmoves.wf hs
  have henter : Move env K s' _ := .enterView s' nv mins maxs _ (h.mayEnter hmoves hview hvcs hlt hnv) hmins
  have hprepares := preparesOf_takeOver (s := { s' with tSeq := maxs + 1 }) nv.view nv.view
    (calcPPS nv.view mins maxs pprepared) (calcPPS nv.view mins maxs pprepared)
  change Moves env K s' ((takeOver nv.view _ { s' with tSeq := maxs + 1 }).enterView nv.view mins nv.v
    (preparesOf (takeOver nv.view _ { s' with tSeq := maxs + 1 }) nv.view _))
  rw [hprepares]
  refine moves_takeOver (s := { s' with tSeq := maxs + 1 }) hnv (List.Subset.refl _) (fun pp hpp => ?_)
    (nodup_seq_calcPPS ..) (fun pp _ => ?_) (.single henter)
  · obtain ⟨h1, h2, -⟩ := of_mem_calcPPS hpp
    exact ⟨h1, h2⟩
  · -- no entry belongs to a view that was not entered yet
    change s'.log.lookup ⟨nv.view, pp.seq⟩ = none
    by_contra hr
    obtain ⟨r, hr⟩ := Option.ne_none_iff_exists'.mp hr
    have := hwf.views _ r hr
    simp only [hview] at this
    omega

theorem moves_viewChange (hs : s.WF) {order : Range ℤ} {args : ViewChangeArgs} (hk : K s (.viewChange args)) :
    Moves env K s (after (s.viewChange env order args)) := by
  unfold viewChange
  by_cases hle : args.view ≤ s.view
  · rw [if_pos hle]
    exact .refl
  · rw [if_neg hle]
    rw [not_le] at hle
    have hstore : Move env K s _ := .storeViewChange s args hk hle
    refine (ReflTransGen.single hstore).trans ?_
    have hwf := hstore.wf hs
    simp only []
    generalize (s.vcs.lookup args.view).getD [] ++ [args] = v at *
    split_ifs with hlead
    · split
      · exact .refl
      · next mins maxs pprepared hcalc =>
        have hlookup : (s.vcs.insert args.view v).lookup args.view = some v := AList.lookup_insert _
        have hsend : Move env K { s with vcs := s.vcs.insert args.view v } _ :=
          .sendNewView _ { view := args.view, v := v, o := calcPPS args.view mins maxs pprepared } mins maxs hle hlead.1
            hlead.2 hlookup (newViewOf_eq args.view hcalc)
        refine (ReflTransGen.single hsend).trans (moves_enteringNewView (hsend.wf hwf) (.inl ?_) hle hcalc)
        exact ⟨hlead.1, hlead.2, hlookup, List.mem_cons_self ..⟩
    · exact .refl

theorem moves_newView (hs : s.WF) {order : Range ℤ} {args : NewViewArgs} (hk : Known K s (.newView args)) :
    Moves env K s (after (s.newView env order args)) := by
  unfold newView
  by_cases hle : args.view ≤ s.view
  · rw [if_pos hle]
    exact .refl
  · rw [if_neg hle]
    simp only []
    split_ifs with hcount
    · exact .refl
    · split
      · exact .refl
      · next mins maxs pprepared hcalc =>
        split
        · exact .refl
        · exact .refl
        · exact moves_enteringNewView hs (.inr ⟨hk, not_le.mp hcount⟩) (not_le.mp hle) hcalc

/-- What has to be known of the view change message that the timer makes the server send. -/
def KnowsTimeout (K : Server A → Msg → Prop) (orders : Orders) (s : Server A) : Prop :=
  ∀ cp s', s.getStableCheckPoint orders.cps = some cp → s'.vcs = s.vcs → s'.id = s.id → s'.replicas = s.replicas →
    s.trace <:+ s'.trace → s'.Sent (.viewChange (s.generateViewChange orders.log cp)) →
    K s' (.viewChange (s.generateViewChange orders.log cp))

theorem moves_handleTimer (hs : s.WF) {orders : Orders} (hk : KnowsTimeout K orders s) :
    Moves env K s (after (s.handleTimer env orders)) := by
  unfold handleTimer
  have hstart : Move env K s { s with changing := true } := .startChange s
  refine (ReflTransGen.single hstart).trans ?_
  simp only []
  split
  · exact .refl
  · next cp hcp =>
    have hsend : Move env K { s with changing := true } _ := .sendViewChange _ orders cp rfl hcp
    have hmoves := ReflTransGen.single hsend
    refine Moves.bind (hmoves.trans (moves_viewChange (hsend.wf (hstart.wf hs)) ?_)) fun s' _ _ => ?_
    · exact hk cp _ hcp rfl rfl rfl (List.suffix_cons _ _) (List.mem_cons_self ..)
    · exact .single (.idle s' true true s'.myViewChangeCount (s'.armed + 1) s'.state s'.seqmap)

theorem moves_sendBackground (hK : KnowsOwn K) (hs : s.WF) (k : ℕ) :
    Moves env K s (after (s.sendBackground env k)) := by
  unfold sendBackground
  split
  · next p ps hbackground =>
    have hsend : Move env K s _ := .sendBackground s k p ps hbackground
    exact (ReflTransGen.single hsend).trans
      (moves_prepare (hsend.wf hs) (hK.known_prepare (List.mem_cons_self ..)))
  · exact .refl

theorem moves_handleReq (hK : KnowsOwn K) (hs : s.WF) {orders : Orders} {msg : Msg} (hk : Known K s msg) :
    Moves env K s (after (s.handleReq env orders msg)) := by
  cases msg with
  | request arg => exact moves_request hK hs hk
  | prePrepare arg => exact moves_prePrepare hK hs hk
  | prepare arg => exact moves_prepare hs hk
  | commit arg => exact moves_commit hs hk
  | checkPoint arg => exact moves_checkPoint hs hk
  | viewChange arg => exact moves_viewChange hs (hk s rfl)
  | newView arg => exact moves_newView hs hk
  | response arg => exact .refl

/-- Whatever makes a server act, it makes moves. -/
theorem moves_react (hK : KnowsOwn K) (hs : s.WF) {orders : Orders} {a : Input}
    (hmsg : ∀ msg, a = .message msg → Known K s msg) (htimer : a = .timer → KnowsTimeout K orders s) :
    Moves env K s (after (s.react env orders a)) := by
  cases a with
  | message msg => exact moves_handleReq hK hs (hmsg msg rfl)
  | timer =>
    have hidle : Move env K s { s with armed := s.armed - 1 } :=
      .idle s s.monitor s.change s.myViewChangeCount (s.armed - 1) s.state s.seqmap
    exact (ReflTransGen.single hidle).trans (moves_handleTimer (hidle.wf hs) (htimer rfl))
  | background k => exact moves_sendBackground hK hs k

end Handlers

/-- What no move destroys, whatever is known of messages, holds in all runs of a server. -/
theorem History.invariant_of_moves {env : Env A} {ext : A → A → Prop} {allowed : Server A → Orders → Input → Prop}
    {s₀ : Server A} (inv : Server A → Prop) (hwf : s₀.WF) (hinv : inv s₀)
    (hmove : ∀ s s', s.WF → inv s → Move env (fun _ _ => True) s s' → inv s')
    (hext : ∀ s as, inv s → inv { s with as := as }) {l : List Input} {s : Server A}
    (h : History env ext allowed s₀ l s) : s.WF ∧ inv s := by
  induction h with
  | start => exact ⟨hwf, hinv⟩
  | @react l s orders a h ha ih =>
    have hmoves : Moves env (fun _ _ => True) s (after (s.react env orders a)) :=
      moves_react ⟨fun _ _ _ => trivial, fun _ _ _ => trivial⟩ ih.1 (fun _ _ _ _ => trivial)
        fun _ _ _ _ _ _ _ _ _ => trivial
    exact ⟨hmoves.wf ih.1, Moves.invariant hmove hmoves ih.1 ih.2⟩
  | external as h hext' ih => exact ⟨ih.1.of_eq rfl rfl rfl rfl rfl rfl, hext _ as ih.2⟩

end Server

end DistributedNotary.Pbft
