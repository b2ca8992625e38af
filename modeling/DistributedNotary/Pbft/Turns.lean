import DistributedNotary.Library.Sorted
import DistributedNotary.Pbft.Settled

/-! How committed requests get their turn. Every handler either leaves the queue
and `apply` alone, executes what follows on a commit message, or makes a later
checkpoint stable and answers the requests up to it. The same walk through the
handlers tells where they can panic. -/
namespace DistributedNotary.Pbft

open Library Relation Server

variable {A : Type}

/-- Some call of the service panics. -/
def PBFTAuxiliary.Panics (as : PBFTAuxiliary A) : Prop :=
  (∃ a seq op auxiliary a', as.updateSeq a seq op auxiliary = .error a') ∨
    (∃ a op view text a', as.getOpAuxiliary a op view = (a', .error (.panic text))) ∨
    (∃ a view seq op auxiliary text a', as.prepareSeq a view seq op auxiliary = (a', .error (.panic text))) ∨
    ∃ a view seq op auxiliary text a', as.commitSeq a view seq op auxiliary = (a', .error (.panic text))

namespace Server

/-- The waiting requests are in order, and the first of them does not have its turn yet. -/
structure InOrder (s : Server A) : Prop where
  sorted : s.applyQueue.content.Pairwise fun a b => a.pri < b.pri
  drained : ∀ e ∈ s.applyQueue.content, s.apply + 1 < e.pri

/-- The waiting requests are in order and not executed yet. -/
structure Ahead (s : Server A) : Prop where
  sorted : s.applyQueue.content.Pairwise fun a b => a.pri < b.pri
  ahead : ∀ e ∈ s.applyQueue.content, s.apply < e.pri

/-- What the handlers rely on. -/
structure Steady (s : Server A) : Prop where
  wf : s.WF
  settled : s.Settled

/-- Neither the queue nor `apply` has changed. -/
def Same (s s' : Server A) : Prop := s'.apply = s.apply ∧ s'.applyQueue = s.applyQueue

/-- The checkpoint `q` is taken over: what it covers counts as executed, and no longer waits. -/
def Advance (s s' : Server A) (q : ℤ) : Prop :=
  s'.apply = max s.apply q ∧ s'.applyQueue.content = s.applyQueue.content.dropWhile fun e => e.pri ≤ q

variable {env : Env A} {K : Server A → Msg → Prop} {s s' : Server A}

theorem Steady.move (h : s.Steady) (hm : Move env K s s') : s'.Steady := ⟨hm.wf h.wf, h.settled.move hm⟩

theorem Steady.moves (h : s.Steady) (hm : Moves env K s s') : s'.Steady := by
  induction hm with
  | refl => exact h
  | tail _ hm ih => exact ih.move hm

theorem Same.refl : s.Same s := ⟨rfl, rfl⟩

theorem Same.trans {s'' : Server A} (h : s.Same s') (h' : s'.Same s'') : s.Same s'' :=
  ⟨h'.1.trans h.1, h'.2.trans h.2⟩

theorem InOrder.isAhead (h : s.InOrder) : s.Ahead :=
  ⟨h.sorted, fun e he => (Int.lt_succ _).trans (h.drained e he)⟩

theorem Ahead.of_same (h : s.Ahead) (hs : s.Same s') : s'.Ahead := by
  obtain ⟨happly, hqueue⟩ := hs
  refine ⟨?_, ?_⟩
  · rw [hqueue]
    exact h.sorted
  · rw [happly, hqueue]
    exact h.ahead

theorem InOrder.of_same (h : s.InOrder) (hs : s.Same s') : s'.InOrder := by
  obtain ⟨happly, hqueue⟩ := hs
  refine ⟨?_, ?_⟩
  · rw [hqueue]
    exact h.sorted
  · rw [happly, hqueue]
    exact h.drained

/-- What still waits after a checkpoint is taken over waited before, and is not covered by it. -/
theorem Advance.waiting {q : ℤ} (ha : s.Advance s' q) (hs : s.applyQueue.content.Pairwise fun a b => a.pri < b.pri) :
    (s'.applyQueue.content.Pairwise fun a b => a.pri < b.pri) ∧
      ∀ e ∈ s'.applyQueue.content, e ∈ s.applyQueue.content ∧ q < e.pri := by
  obtain ⟨-, hqueue⟩ := ha
  refine ⟨?_, fun e he => ?_⟩
  · rw [hqueue]
    exact hs.sublist (List.dropWhile_sublist _)
  · rw [hqueue, dropWhile_le_eq_filter hs, List.mem_filter, decide_eq_true_eq] at he
    exact he

theorem Ahead.advance (h : s.Ahead) {q : ℤ} (ha : s.Advance s' q) : s'.Ahead := by
  obtain ⟨hsorted, hwaiting⟩ := ha.waiting h.sorted
  refine ⟨hsorted, fun e he => ?_⟩
  obtain ⟨hmem, hlt⟩ := hwaiting e he
  rw [ha.1]
  exact max_lt (h.ahead e hmem) hlt

/-- After a checkpoint is taken over, the next number must not be left waiting. -/
theorem InOrder.advance (h : s.InOrder) {q : ℤ} (ha : s.Advance s' q)
    (hq : s.apply < q → ∀ e ∈ s.applyQueue.content, e.pri ≠ q + 1) : s'.InOrder := by
  obtain ⟨hsorted, hwaiting⟩ := ha.waiting h.sorted
  refine ⟨hsorted, fun e he => ?_⟩
  obtain ⟨hmem, hlt⟩ := hwaiting e he
  have hdrained := h.drained e hmem
  have hnext := fun hlt => hq hlt e hmem
  rw [ha.1]
  omega

end Server

/-! ### Executing and stabilising -/

section Turns

variable {env : Env A} {s : Server A}

theorem replyUpTo_ends (seq : ℤ) (k : ℕ) (hs : s.WF) (hk : s.applyQueue.content.length ≤ k) :
    Ends (replyUpTo env seq k s)
      (fun s' => s'.apply = s.apply ∧ s'.applyQueue.content = s.applyQueue.content.dropWhile fun e => e.pri ≤ seq)
      fun _ => env.as.Panics := by
  induction k generalizing s with
  | zero =>
    have hnil : s.applyQueue.content = [] := List.eq_nil_of_length_eq_zero (Nat.le_zero.mp hk)
    exact ⟨rfl, by rw [hnil]; rfl⟩
  | succ k ih =>
    unfold replyUpTo
    cases hq : s.applyQueue.extractMin with
    | mk queue m =>
      cases m with
      | none => exact ⟨rfl, by rw [PriorityQueue.content_of_extractMin_none hq]; rfl⟩
      | some m =>
        have hcontent := PriorityQueue.content_of_extractMin hq
        simp only []
        split_ifs with hm
        · obtain ⟨pp, hpp⟩ := hs.task_pp hq
          obtain ⟨as, -, ⟨hpanic, hr⟩ | ⟨r, -, hok⟩⟩ := replyByPendingTask_cases env
            { s with applyQueue := queue } hpp
          · rw [hr]
            exact .inl ⟨_, _, _, _, as, hpanic⟩
          · rw [hok, hcontent, List.dropWhile_cons_of_pos (by simpa using hm)]
            have hlt : m.c.ent < s.next := (hs.tasks m (by rw [hcontent]; exact List.mem_cons_self ..)).1
            have hwf : ({ s with applyQueue := queue }.answered m.c pp as).WF := (hs.tail hq).answered hlt pp as
            rw [hcontent] at hk
            exact ih (s := ({ s with applyQueue := queue }.answered m.c pp as).send (.response r))
              (hwf.of_eq rfl rfl rfl rfl rfl rfl) (Nat.le_of_succ_le_succ hk)
        · rw [hcontent, List.dropWhile_cons_of_neg (by simpa using hm), ← hcontent]
          exact ⟨rfl, rfl⟩

/-- The checkpoint `n` is taken over. -/
theorem stablizeCP_ends (hs : s.WF) {n : ℤ} {cp : CheckPoint} {proof : CheckPointArgs} (hseq : cp.seq = n)
    (hproof : proof.seq = n) :
    Ends (s.stablizeCP env n cp proof) (fun s' => s.Advance s' n) fun _ => env.as.Panics := by
  have hadopt : (s.adoptView proof).WF ∧ s.Same (s.adoptView proof) := by
    unfold adoptView
    split_ifs with hv
    · exact ⟨hs.mono (fun _ _ hr => hr) hv.le rfl rfl rfl fun _ he => he, rfl, rfl⟩
    · exact ⟨hs, rfl, rfl⟩
  obtain ⟨hwf, happly, hqueue⟩ := hadopt
  unfold stablizeCP
  refine Ends.bind (replyUpTo_ends cp.seq _ (hwf.settle n cp proof) le_rfl) fun s' _ h => ?_
  obtain ⟨h1, h2⟩ := h
  refine ⟨?_, ?_⟩
  · change s'.apply = _
    rw [h1]
    change (if (s.adoptView proof).apply < proof.seq then cp.seq else (s.adoptView proof).apply) = _
    rw [happly]
    split_ifs <;> omega
  · change s'.applyQueue.content = _
    rw [h2]
    change (s.adoptView proof).applyQueue.content.dropWhile _ = _
    rw [hqueue, hseq]

theorem countVotes_ends (hs : s.WF) {n : ℤ} {cp : CheckPoint} (hseq : cp.seq = n)
    (hvotes : ∀ vote ∈ cp.proof, vote.seq = n) :
    Ends (s.countVotes env n cp)
      (fun s' => s.Same s' ∨
        (2 * s.f < cp.proof.length ∧ (quorumVote s.f [] cp.proof).isSome = true ∧ s.Advance s' n))
      fun _ => env.as.Panics := by
  unfold countVotes
  split
  · exact .inl Same.refl
  · next proof hq =>
    split_ifs at hq with hlen
    have hnote : (s.note (.stable proof cp.proof)).WF := hs.of_eq rfl rfl rfl rfl rfl rfl
    refine (stablizeCP_ends hnote hseq (hvotes proof (quorumVote_spec hq).1)).mono (fun s' h => .inr ⟨hlen, ?_, h⟩)
      fun _ h => h
    rw [hq]
    rfl

/-- The vote makes its checkpoint stable. -/
def Server.completes (s : Server A) (args : CheckPointArgs) : Bool :=
  args.seq.tmod checkpointDiv = 0 ∧ s.hasSlot args.seq ∧ ¬ (s.slot args.seq).stable ∧
    2 * s.f < ((s.slot args.seq).proof ++ [args]).length ∧
    (quorumVote s.f [] ((s.slot args.seq).proof ++ [args])).isSome

theorem SettledAt.slot_votes {key n : ℤ} {cp : CheckPoint} (h : s.SettledAt key cp) :
    (s.slot n).seq = n ∧ ∀ vote ∈ (s.slot n).proof, vote.seq = n := by
  unfold slot
  cases hc : s.cps.lookup n with
  | none => simp
  | some c => exact ⟨h.keys n c hc, h.votes n c hc⟩

theorem checkPoint_ends (hs : s.Steady) (args : CheckPointArgs) :
    Ends (s.checkPoint env args) (fun s' => s.Same s' ∨ (s.completes args = true ∧ s.Advance s' args.seq))
      fun _ => env.as.Panics := by
  obtain ⟨hwf, key, cp, hsettled⟩ := hs
  obtain ⟨hseq, hvotes⟩ := SettledAt.slot_votes (n := args.seq) hsettled
  unfold checkPoint
  split_ifs with hdiv
  · exact .inl Same.refl
  · rw [not_not] at hdiv
    rcases getCheckPoint_cases env s hdiv with ⟨-, hg⟩ | ⟨hslot, digest, -, hg⟩
    · rw [hg]
      exact .inl Same.refl
    · rw [hg]
      change Ends (if _ then _ else _) _ _
      split_ifs with hstable
      · exact .inl ⟨rfl, rfl⟩
      · let touched := s.setCheckPoint args.seq { s.slot args.seq with digest := digest }
        let cp' : CheckPoint := { s.slot args.seq with digest := digest, proof := (s.slot args.seq).proof ++ [args] }
        have hvotes' : ∀ vote ∈ cp'.proof, vote.seq = args.seq := by
          intro vote hvote
          rcases List.mem_append.mp hvote with hvote | hvote
          · exact hvotes vote hvote
          · rw [List.mem_singleton.mp hvote]
        have hwf' : (touched.setCheckPoint args.seq cp').WF := hwf.of_eq rfl rfl rfl rfl rfl rfl
        refine Ends.mono (countVotes_ends hwf' (show cp'.seq = args.seq from hseq) hvotes')
          (fun s' h => ?_) fun _ h => h
        refine h.imp (fun h => h) fun ⟨h1, h2, h3⟩ => ⟨?_, h3⟩
        simp only [completes, decide_eq_true_eq]
        exact ⟨hdiv, hslot, hstable, h1, h2⟩

/-- The loop of `execute` works off the queue until a number is missing. -/
theorem applyLoop_ends (k : ℕ) (hs : s.Steady) (hk : s.applyQueue.content.length ≤ k)
    (ho : s.Ahead) : Ends (applyLoop env k s) InOrder fun _ => env.as.Panics := by
  obtain ⟨hsorted, hahead⟩ := ho
  induction k generalizing s with
  | zero =>
    have hnil : s.applyQueue.content = [] := List.eq_nil_of_length_eq_zero (Nat.le_zero.mp hk)
    exact ⟨hsorted, by simp [hnil]⟩
  | succ k ih =>
    unfold applyLoop
    cases hq : s.applyQueue.extractMin with
    | mk queue m =>
      cases m with
      | none => exact ⟨hsorted, by simp [PriorityQueue.content_of_extractMin_none hq]⟩
      | some m =>
        have hcontent := PriorityQueue.content_of_extractMin hq
        rw [hcontent] at hk hsorted hahead
        obtain ⟨hlater, htail⟩ := List.pairwise_cons.mp hsorted
        have hm := hahead m (List.mem_cons_self ..)
        simp only []
        split_ifs with hturn hlate
        · obtain ⟨pp, hpp⟩ := hs.wf.task_pp hq
          obtain ⟨as, has, ⟨hpanic, hr⟩ | ⟨r, hr, hok⟩⟩ := replyByPendingTask_cases env (s.takeTurn queue m) hpp
          · rw [hr]
            exact .inl ⟨_, _, _, _, as, hpanic⟩
          · rw [hok]
            have hrun : Move env (fun _ _ => True) s (s.runTask queue m pp as) :=
              .runTask s queue m pp as hq hturn hpp has
            have hsend : Move env (fun _ _ => True) _ ((s.runTask queue m pp as).send (.response r)) :=
              .respond _ m.c.ent r hr
            have hsteady := (hs.move hrun).move hsend
            have hqueue : ∀ e ∈ queue.content, s.apply + 1 < e.pri := fun e he => hturn ▸ hlater e he
            change Ends (if (s.apply + 1).tmod checkpointDiv = 0 then
              ((s.runTask queue m pp as).send (.response r)).startCheckPoint env (s.apply + 1) >>= applyLoop env k
              else applyLoop env k ((s.runTask queue m pp as).send (.response r))) _ _
            split_ifs with hdiv
            · rcases startCheckPoint_cases env ((s.runTask queue m pp as).send (.response r)) hdiv with
                h | ⟨hslot, digest, digest', cp, -, hcp, hstable, h⟩
              · rw [h]
                exact ih hsteady (Nat.le_of_succ_le_succ hk) htail hqueue
              · rw [h]
                rw [hturn] at hdiv hslot hcp ⊢
                have hvote := hs.move (.runTaskAndVote (K := fun _ _ => True) s queue m pp as r digest digest' hq hturn
                  hpp has hr hdiv hslot)
                obtain ⟨key, stable, hsettled⟩ := hvote.settled
                refine Ends.bind (countVotes_ends hvote.wf (hsettled.keys _ _ hcp) (hsettled.votes _ _ hcp))
                  fun s' hs' h => ?_
                have hsteady' : s'.Steady := by
                  have hmoves : Moves env (fun _ _ => True) _ (after (countVotes env _ m.pri cp)) :=
                    moves_countVotes hvote.wf hdiv hcp hstable
                  rw [hs'] at hmoves
                  exact hvote.moves hmoves
                -- a checkpoint at the number that was just executed neither raises `apply` nor covers what waits
                have hsame : s'.apply = s.apply + 1 ∧ s'.applyQueue.content = queue.content := by
                  rcases h with ⟨happly, hqueue'⟩ | ⟨-, -, happly, hqueue'⟩
                  · exact ⟨happly, congrArg PriorityQueue.content hqueue'⟩
                  · refine ⟨happly.trans (max_eq_left hturn.ge), hqueue'.trans ?_⟩
                    change queue.content.dropWhile _ = queue.content
                    rw [dropWhile_le_eq_filter htail]
                    exact List.filter_eq_self.mpr fun e he => by simpa using hlater e he
                obtain ⟨happly, hcontent'⟩ := hsame
                refine ih hsteady' ?_ ?_ ?_
                · rw [hcontent']
                  exact Nat.le_of_succ_le_succ hk
                · rw [hcontent']
                  exact htail
                · rw [hcontent', happly]
                  exact hqueue
            · exact ih hsteady (Nat.le_of_succ_le_succ hk) htail hqueue
        · omega
        · refine ⟨hcontent ▸ hsorted, fun e he => ?_⟩
          rw [hcontent] at he
          rcases List.mem_cons.mp he with rfl | he
          · omega
          · have := hlater e he
            omega

end Turns

/-! ### Normal operation -/

namespace Server

/-- The commit message completes the entry under reference `r`. -/
def completesEntry (s : Server A) (r : ℕ) (args : CommitArgs) : Bool :=
  matchesPP (s.heap r) args.digest ∧ ¬ (s.heap r).sendReply ∧ (s.heap r).sendCommit ∧
    s.committed { s.heap r with c := (s.heap r).c ++ [args] }

def waits (s : Server A) (seq : ℤ) : Bool := s.applyQueue.content.any fun e => e.pri = seq

/-- The commit message completes an entry whose number still waits. -/
def collides (s : Server A) (args : CommitArgs) : Bool :=
  ¬ s.changing ∧ s.inWindow args.view args.seq ∧ s.waits args.seq ∧
    (s.log.lookup ⟨args.view, args.seq⟩).any fun r => s.completesEntry r args

end Server

section Handlers

variable {env : Env A} {s : Server A}

theorem commitEntry_ends (hs : s.Steady) (ho : s.Ahead) {args : CommitArgs} {r : ℕ} (hc : s.changing = false)
    (hw : s.inWindow args.view args.seq = true) (hr : s.log.lookup ⟨args.view, args.seq⟩ = some r) :
    Ends (s.commitEntry env args r) (fun s' => s.Same s' ∨ s'.InOrder)
      fun _ => env.as.Panics ∨ (s.waits args.seq = true ∧ s.completesEntry r args = true) := by
  unfold commitEntry
  simp only []
  split_ifs with hm hexec
  · have hadd := hs.move (.addCommit (K := fun _ _ => True) s r args trivial hc hw hr hm : Move env _ s _)
    generalize hs' : s.setEntry r { s.heap r with c := (s.heap r).c ++ [args] } = s' at *
    have hsame : s.Same s' := by
      rw [← hs']
      exact ⟨rfl, rfl⟩
    have ho' := ho.of_same hsame
    have hheap : s'.heap r = { s.heap r with c := (s.heap r).c ++ [args] } := by
      rw [← hs']
      simp
    unfold execute
    split_ifs with happly
    · exact .inl hsame
    · split
      · next queue hq =>
        obtain ⟨e, he, hpri⟩ := PriorityQueue.exists_of_insert hq
        refine .inr ⟨List.any_eq_true.mpr ⟨e, hsame.2 ▸ he, by simpa using hpri⟩, ?_⟩
        simp only [completesEntry, decide_eq_true_eq]
        refine ⟨hm, hexec.1, hexec.2.1, ?_⟩
        rw [← hs'] at hexec
        exact hexec.2.2
      · next queue hq =>
        have hqueue := hadd.move (.enqueue (K := fun _ _ => True) s' r args queue (hs' ▸ hw) (hs' ▸ hr)
          (by rw [hheap]; exact hm) (by rw [hheap]; exact hexec.2.1) (by rw [hheap]; simpa using hexec.1)
          (by rw [hheap]; exact hexec.2.2) (not_le.mp happly) hq : Move env _ s' _)
        refine (applyLoop_ends _ hqueue le_rfl ⟨PriorityQueue.pairwise_of_insert hq ho'.sorted, ?_⟩).mono
          (fun _ h => .inr h) fun _ h => .inl h
        intro e he
        rcases (PriorityQueue.mem_of_insert hq).mp he with rfl | he
        · exact not_le.mp happly
        · exact ho'.ahead e he
  · exact .inl ⟨rfl, rfl⟩
  · exact .inl Same.refl

/-- A handler that stops the timer goes on with an entry that it knows, or that is new. -/
theorem entry_ends (env : Env A) (hs : s.Steady) {view seq : ℤ} {g : Server A × ℕ → Run A (Server A)}
    {post : Server A → Prop} {bad : Server A → Prop} (hstop : post s.stopTimer)
    (hg : ∀ s' r, s'.Steady → s.Same s' → s'.changing = s.changing → s'.f = s.f → s.inWindow view seq = true →
      s'.inWindow view seq = true → s'.log.lookup ⟨view, seq⟩ = some r →
      (s.log.lookup ⟨view, seq⟩ = some r ∧ s'.heap r = s.heap r ∨ (s'.heap r).sendCommit = false) →
      Ends (g (s', r)) post bad) :
    Ends (if s.stopTimer.inWindow view seq then g (s.stopTimer.getEntry ⟨view, seq⟩) else .ok s.stopTimer)
      post bad := by
  have hstopped := hs.move (.idle (K := fun _ _ => True) s false false 0 s.armed s.state s.seqmap : Move env _ s _)
  split_ifs with hw
  · obtain ⟨rfl, -⟩ := inWindow_iff.mp hw
    unfold getEntry
    cases hl : s.stopTimer.log.lookup ⟨s.stopTimer.view, seq⟩ with
    | some r => exact hg s.stopTimer r hstopped ⟨rfl, rfl⟩ rfl rfl hw hw hl (.inl ⟨hl, rfl⟩)
    | none =>
      have hnew := hstopped.move (.newEntry (K := fun _ _ => True) s.stopTimer seq hl : Move env _ s.stopTimer _)
      exact hg _ _ hnew ⟨rfl, rfl⟩ rfl rfl hw hw (AList.lookup_insert _) (.inr (by simp))
  · exact hstop

theorem commit_ends (hs : s.Steady) (ho : s.Ahead) (args : CommitArgs) :
    Ends (s.commit env args) (fun s' => s.Same s' ∨ s'.InOrder) fun _ => env.as.Panics ∨ s.collides args = true := by
  unfold commit
  split_ifs with hc
  · exact .inl Same.refl
  · rw [Bool.not_eq_true] at hc
    refine entry_ends env hs (g := fun p => p.1.commitEntry env args p.2) (.inl ⟨rfl, rfl⟩) ?_
    intro s' r hs' hsame hchanging hf hw hw' hr hent
    refine (commitEntry_ends hs' (ho.of_same hsame) (hchanging.trans hc) hw' hr).mono
      (fun _ h => h.imp_left hsame.trans) ?_
    rintro _ (hpanic | ⟨hwaits, hcompletes⟩)
    · exact .inl hpanic
    · rcases hent with ⟨hlookup, hheap⟩ | hnew
      · refine .inr ?_
        simp only [collides, decide_eq_true_eq, hlookup, Option.any_some]
        unfold waits at hwaits ⊢
        unfold completesEntry committed at hcompletes ⊢
        rw [hsame.2] at hwaits
        rw [hheap, hf] at hcompletes
        exact ⟨by simp [hc], hw, hwaits, hcompletes⟩
      · simp [completesEntry, hnew] at hcompletes

theorem sendCommit_ends (hs : s.WF) {args : PrepareArgs} {r : ℕ} {pp : PrePrepareArgs} (hc : s.changing = false)
    (hw : s.inWindow args.view args.seq = true) (hr : s.log.lookup ⟨args.view, args.seq⟩ = some r)
    (hpp : (s.heap r).pp = some pp) (hsend : (s.heap r).sendCommit = false) :
    Ends (s.sendCommit env args r pp) s.Same fun _ => env.as.Panics := by
  rcases hcall : env.as.commitSeq s.as s.view pp.seq pp.message.op pp.digest with ⟨as, (text | text) | ⟨⟩⟩
  · unfold sendCommit
    rw [hcall]
    exact ⟨rfl, rfl⟩
  · unfold sendCommit
    rw [hcall]
    exact .inr (.inr (.inr ⟨_, _, _, _, _, text, as, hcall⟩))
  · rw [sendCommit_eq hs hc hw hr hpp hsend hcall]
    exact ⟨rfl, rfl⟩

theorem prepare_ends (hs : s.Steady) (args : PrepareArgs) :
    Ends (s.prepare env args) s.Same fun _ => env.as.Panics := by
  unfold prepare
  split_ifs with hc
  · exact Same.refl
  · rw [Bool.not_eq_true] at hc
    refine entry_ends env hs (g := fun p => p.1.prepareEntry env args p.2) ⟨rfl, rfl⟩ ?_
    intro s' r hs' hsame hchanging hf hw hw' hr hent
    unfold prepareEntry
    simp only []
    by_cases hm : matchesPP (s'.heap r) args.digest = true
    · rw [if_pos hm]
      have hadd := hs'.move (.addPrepare (K := fun _ _ => True) s' r args trivial (hchanging.trans hc) hw' hr hm :
        Move env _ s' _)
      split
      · exact hsame
      · next pp hpp =>
        split_ifs with hprep
        · refine (sendCommit_ends hadd.wf (hchanging.trans hc) hw' hr ?_ ?_).mono
            (fun _ h => hsame.trans h) fun _ h => h
          · simpa using hpp
          · simpa using hprep.1
        · exact hsame
    · rw [if_neg hm]
      exact hsame

theorem prePrepare_ends (hs : s.Steady) (args : PrePrepareArgs) :
    Ends (s.prePrepare env args) s.Same fun _ => env.as.Panics := by
  unfold prePrepare
  split_ifs with hc
  · exact Same.refl
  · rw [Bool.not_eq_true] at hc
    rcases hcall : env.as.prepareSeq s.as args.view args.seq args.message.op args.digest with ⟨as, (text | text) | ⟨⟩⟩
    · exact ⟨rfl, rfl⟩
    · exact .inr (.inr (.inl ⟨_, _, _, _, _, text, as, hcall⟩))
    · have hcalled : env.as.Called s.as _ := .prepareSeq args.view args.seq args.message.op args.digest
      rw [hcall] at hcalled
      have hservice := hs.move (.service (K := fun _ _ => True) s as hcalled : Move env _ s _)
      refine entry_ends env hservice (g := fun p => p.1.prePrepareEntry env args p.2) ⟨rfl, rfl⟩ ?_
      intro s' r hs' hsame hchanging hf hw hw' hr hent
      unfold prePrepareEntry
      simp only []
      split_ifs with ha
      · have haccept := hs'.move (.accept (K := fun _ _ => True) s' r args trivial (hchanging.trans hc) hw' hr ha :
          Move env _ s' _)
        exact (prepare_ends haccept _).mono (fun _ h => hsame.trans h) fun _ h => h
      · exact hsame

theorem propose_ends (hs : s.Steady) (args : RequestArgs) (hc : s.changing = false) (hl : s.isLeader = true)
    (hnew : s.seqmap.lookup args.op = none) : Ends (s.propose env args) s.Same fun _ => env.as.Panics := by
  unfold propose
  split_ifs with hH
  · exact Same.refl
  · rcases hcall : env.as.getOpAuxiliary s.as args.op s.id with ⟨as, (text | text) | digest⟩
    · exact ⟨rfl, rfl⟩
    · exact .inr (.inl ⟨_, _, _, text, as, hcall⟩)
    · have hpropose := hs.move (.propose (K := fun _ _ => True) s args digest as (AList.insert args.op s.tSeq s.seqmap)
        trivial hc hl hnew (not_le.mp hH) hcall : Move env _ s _)
      exact (prePrepare_ends hpropose _).mono (fun _ h => h) fun _ h => h

theorem reply_same (r : ℕ) : s.Same (s.reply (s.heap r)) := by
  unfold reply
  split <;> exact ⟨rfl, rfl⟩

theorem repropose_ends (hs : s.Steady) (n : ℤ) (hc : s.changing = false) (hl : s.isLeader = true) :
    Ends (s.repropose env n) s.Same fun _ => env.as.Panics := by
  have hentry : ∀ s' r, s'.Steady → s.Same s' → s'.changing = false → s'.isLeader = true →
      s'.log.lookup ⟨s'.view, n⟩ = some r → Ends (s'.reproposeEntry env r) s.Same fun _ => env.as.Panics := by
    intro s' r hs' hsame hc' hl' hr
    unfold reproposeEntry
    simp only []
    split
    · exact hsame
    · next pp hpp =>
      split_ifs
      · exact hsame
      · exact hsame.trans (reply_same r)
      · have hagain := hs'.move (.repropose (K := fun _ _ => True) s' n r pp hc' hl' hr hpp : Move env _ s' _)
        exact (prePrepare_ends hagain pp).mono (fun _ h => hsame.trans h) fun _ h => h
  unfold repropose
  split_ifs
  · exact Same.refl
  · unfold getEntry
    cases hr : s.log.lookup ⟨s.view, n⟩ with
    | some r => exact hentry s r hs Same.refl hc hl hr
    | none =>
      have hnew := hs.move (.newEntry (K := fun _ _ => True) s n hr : Move env _ s _)
      exact hentry _ _ hnew ⟨rfl, rfl⟩ hc hl (AList.lookup_insert (a := ⟨s.view, n⟩) (b := s.next) s.log)

theorem request_ends (hs : s.Steady) (args : RequestArgs) :
    Ends (s.request env args) s.Same fun _ => env.as.Panics := by
  unfold request
  split_ifs with hc hl
  · exact Same.refl
  · rw [Bool.not_eq_true] at hc
    unfold handleRequestLeader
    split
    · next hnew => exact propose_ends hs args hc hl hnew
    · exact repropose_ends hs _ hc hl
  · unfold handleRequestFollower
    split_ifs <;> exact ⟨rfl, rfl⟩

theorem sendBackground_ends (hs : s.Steady) (k : ℕ) :
    Ends (s.sendBackground env k) s.Same fun _ => env.as.Panics := by
  unfold sendBackground
  split
  · next p ps hbackground =>
    have hsend := hs.move (.sendBackground (K := fun _ _ => True) s k p ps hbackground : Move env _ s _)
    exact (prepare_ends hsend p).mono (fun _ h => h) fun _ h => h
  · exact Same.refl

end Handlers

/-! ### New views -/

namespace Server

/-- The view changes that the server has for a view once it gets another one. -/
def collected (s : Server A) (vc : ViewChangeArgs) : List ViewChangeArgs := (s.vcs.lookup vc.view).getD [] ++ [vc]

/-- With the view change the server starts its view as the leader. -/
def leads (s : Server A) (vc : ViewChangeArgs) : Bool :=
  s.view < vc.view ∧ vc.view.tmod s.replicas.length = s.id ∧ 2 * s.f + 1 ≤ (s.collected vc).length

/-- The new view has enough view changes behind it. -/
def backed (s : Server A) (nv : NewViewArgs) : Bool :=
  s.view < nv.view ∧
    2 * s.f < ((nv.v.filter fun vc => vc.view = nv.view).map ViewChangeArgs.rid).dedup.length

/-- The number that a new view starts after. -/
def minsOf (v : List ViewChangeArgs) : Option ℤ := (calcMinMaxspp v).map Prod.fst

/-- Whether the preprepare messages of the leader agree with the own ones; none where they run out or there are none. -/
def agrees (nv : NewViewArgs) : Option Bool := (newViewOf nv.view nv.v).bind fun r => sameO r.2.2 nv.o

/-- The checkpoint that the server takes over on an input, because of the votes for it or with a new view. -/
def takesOver (s : Server A) (orders : Orders) : Input → Option ℤ
  | .message (.checkPoint args) => if s.completes args then some args.seq else none
  | .message (.viewChange vc) => if s.leads vc then minsOf (s.collected vc) else none
  | .message (.newView nv) => if s.backed nv ∧ agrees nv = some true then minsOf nv.v else none
  | .timer =>
    (s.getStableCheckPoint orders.cps).bind fun cp =>
      let vc := s.generateViewChange orders.log cp
      if s.leads vc then minsOf (s.collected vc) else none
  | _ => none

/-- The input makes the server panic. -/
def trips (s : Server A) (orders : Orders) : Input → Bool
  | .message (.commit args) => s.collides args
  | .message (.viewChange vc) => s.leads vc ∧ minsOf (s.collected vc) = none
  | .message (.newView nv) => s.backed nv ∧ agrees nv = none
  | .message (.response _) => true
  | .timer =>
    (s.getStableCheckPoint orders.cps).any fun cp =>
      let vc := s.generateViewChange orders.log cp
      s.leads vc ∧ minsOf (s.collected vc) = none
  | _ => false

end Server

section NewViews

variable {env : Env A} {s : Server A}

theorem foldl_max_mem (l : List ℤ) (a : ℤ) : l.foldl max a = a ∨ l.foldl max a ∈ l := by
  induction l generalizing a with
  | nil => exact .inl rfl
  | cons b l ih =>
    rw [List.foldl_cons]
    rcases ih (max a b) with h | h
    · rw [h]
      rcases max_choice a b with h | h <;> simp [h]
    · exact .inr (List.mem_cons_of_mem _ h)

/-- The number that a new view starts after is that of one of its checkpoints. -/
theorem mem_of_calcMinMaxspp {v : List ViewChangeArgs} {mins maxs : ℤ} {pprepared : RangeMap ℤ PrePrepareArgs}
    (h : calcMinMaxspp v = some (mins, maxs, pprepared)) :
    mins = -1 ∨ ∃ vc ∈ v, ∃ cp, vc.cp = some cp ∧ cp.seq = mins := by
  unfold calcMinMaxspp at h
  obtain ⟨cps, hcps, h⟩ := Option.bind_eq_some_iff.mp h
  obtain ⟨pps, -, h⟩ := Option.bind_eq_some_iff.mp h
  simp only [Option.pure_def, Option.some.injEq, Prod.mk.injEq] at h
  obtain ⟨rfl, -, -⟩ := h
  refine (foldl_max_mem _ (-1)).imp_right fun hmem => ?_
  obtain ⟨cp, hcp, hseq⟩ := List.mem_map.mp hmem
  obtain ⟨vc, hvc, hvcp⟩ := exists_of_mapM_eq_some hcps hcp
  exact ⟨vc, hvc, cp, hvcp, hseq⟩

theorem catchUp_ends (hs : s.Steady) (order : Range ℤ) {v : List ViewChangeArgs} {mins maxs : ℤ}
    {pprepared : RangeMap ℤ PrePrepareArgs} (hcalc : calcMinMaxspp v = some (mins, maxs, pprepared)) :
    Ends (s.catchUp env order v mins) (fun s' => s.Same s' ∨ s.Advance s' mins) fun _ => env.as.Panics := by
  obtain ⟨key, cp, hsettled⟩ := hs.settled
  obtain ⟨scp, hscp⟩ := hsettled.exists_getStableCheckPoint order
  unfold catchUp
  rw [hscp]
  simp only []
  split_ifs with hlt
  · split
    · next hfind =>
      obtain rfl := hsettled.of_getStableCheckPoint hscp
      have hlower := hsettled.lower
      rw [hsettled.seq] at hlt
      rcases mem_of_calcMinMaxspp hcalc with hmins | ⟨vc, hvc, cp, hcp, hseq⟩
      · omega
      · have hnone := List.findSome?_eq_none_iff.mp hfind vc hvc
        simp [hcp, Option.filter, hseq] at hnone
    · next cp2 hfind =>
      obtain ⟨vc, hvc, hfilter⟩ := List.exists_of_findSome?_eq_some hfind
      rw [Option.filter_eq_some_iff, decide_eq_true_eq] at hfilter
      obtain ⟨-, rfl⟩ := hfilter
      have hset : ∀ c, (s.setCheckPoint cp2.seq c).WF := fun c => hs.wf.of_eq rfl rfl rfl rfl rfl rfl
      exact (stablizeCP_ends (hset _) rfl rfl).mono (fun _ h => .inr h) fun _ h => h
  · exact .inl Same.refl

theorem takeOver_same (view : ℤ) (pps : List PrePrepareArgs) : s.Same (takeOver view pps s) := by
  induction pps generalizing s with
  | nil => exact Same.refl
  | cons pp pps ih =>
    conv => rw [takeOver]
    unfold getEntry
    dsimp only
    split
    · exact ⟨ih.1, ih.2⟩
    · exact ⟨ih.1, ih.2⟩

theorem enteringNewView_ends (hs : s.Steady) (order : Range ℤ) (nv : NewViewArgs) {mins maxs : ℤ}
    {pprepared : RangeMap ℤ PrePrepareArgs} (hcalc : calcMinMaxspp nv.v = some (mins, maxs, pprepared))
    (pps : List PrePrepareArgs) :
    Ends (s.enteringNewView env order nv mins maxs pps) (fun s' => s.Same s' ∨ s.Advance s' mins)
      fun _ => env.as.Panics := by
  unfold enteringNewView
  refine Ends.bind (catchUp_ends hs order hcalc) fun s' _ h => ?_
  obtain ⟨happly, hqueue⟩ := takeOver_same (s := { s' with tSeq := maxs + 1 }) nv.view pps
  refine h.imp (fun h => ⟨happly.trans h.1, hqueue.trans h.2⟩) fun h => ⟨happly.trans h.1, ?_⟩
  exact (congrArg PriorityQueue.content hqueue).trans h.2

theorem viewChange_ends (hs : s.Steady) (order : Range ℤ) (vc : ViewChangeArgs) :
    Ends (s.viewChange env order vc)
      (fun s' => s.Same s' ∨ ∃ mins, s.leads vc = true ∧ minsOf (s.collected vc) = some mins ∧ s.Advance s' mins)
      fun _ => env.as.Panics ∨ (s.leads vc = true ∧ minsOf (s.collected vc) = none) := by
  have hcollected : (s.vcs.lookup vc.view).getD [] ++ [vc] = s.collected vc := rfl
  unfold viewChange
  simp only [hcollected]
  split_ifs with hle hlead
  · exact .inl Same.refl
  · have hleads : s.leads vc = true := by
      simp only [leads, decide_eq_true_eq]
      exact ⟨not_le.mp hle, hlead⟩
    have hstore := hs.move (.storeViewChange (K := fun _ _ => True) s vc trivial (not_le.mp hle) : Move env _ s _)
    cases hcalc : calcMinMaxspp (s.collected vc) with
    | none => exact .inr ⟨hleads, by simp [minsOf, hcalc]⟩
    | some r =>
      obtain ⟨mins, maxs, pprepared⟩ := r
      have hlookup : (s.vcs.insert vc.view (s.collected vc)).lookup vc.view = some (s.collected vc) :=
        AList.lookup_insert _
      have hsend := hstore.move (.sendNewView (K := fun _ _ => True)
        { s with vcs := s.vcs.insert vc.view (s.collected vc) }
        { view := vc.view, v := s.collected vc, o := calcPPS vc.view mins maxs pprepared } mins maxs (not_le.mp hle)
        hlead.1 hlead.2 hlookup (newViewOf_eq vc.view hcalc) : Move env _ _ _)
      refine (enteringNewView_ends hsend order _ hcalc _).mono (fun s' h => ?_) fun _ h => .inl h
      exact h.imp (fun h => h) fun h => ⟨mins, hleads, by simp [minsOf, hcalc], h⟩
  · exact .inl ⟨rfl, rfl⟩

theorem newView_ends (hs : s.Steady) (order : Range ℤ) (nv : NewViewArgs) :
    Ends (s.newView env order nv)
      (fun s' => s.Same s' ∨
        ∃ mins, (s.backed nv = true ∧ agrees nv = some true) ∧ minsOf nv.v = some mins ∧ s.Advance s' mins)
      fun _ => env.as.Panics ∨ (s.backed nv = true ∧ agrees nv = none) := by
  unfold newView
  simp only []
  split_ifs with hle hcount
  · exact .inl Same.refl
  · exact .inl Same.refl
  · have hbacked : s.backed nv = true := by simpa [backed] using ⟨not_le.mp hle, not_le.mp hcount⟩
    cases hcalc : calcMinMaxspp nv.v with
    | none => exact .inr ⟨hbacked, by simp [agrees, newViewOf, hcalc]⟩
    | some r =>
      obtain ⟨mins, maxs, pprepared⟩ := r
      have hagrees : agrees nv = sameO (calcPPS nv.view mins maxs pprepared) nv.o := by simp [agrees, newViewOf, hcalc]
      simp only []
      cases hsame : sameO (calcPPS nv.view mins maxs pprepared) nv.o with
      | none => exact .inr ⟨hbacked, hagrees.trans hsame⟩
      | some same =>
        cases same with
        | false => exact .inl Same.refl
        | true =>
          refine (enteringNewView_ends hs order nv hcalc _).mono (fun s' h => ?_) fun _ h => .inl h
          exact h.imp (fun h => h) fun h => ⟨mins, ⟨hbacked, hagrees.trans hsame⟩, by simp [minsOf, hcalc], h⟩

end NewViews

/-- What a server does on an input: it works in turn, unless it takes over a checkpoint, and panics only where
the service does or the input trips it. -/
theorem react_ends (env : Env A) {s : Server A} (hs : s.Steady) (ho : s.Ahead) (orders : Orders) (a : Input) :
    Ends (s.react env orders a)
      (fun s' => s.Same s' ∨ s'.InOrder ∨ ∃ q, s.takesOver orders a = some q ∧ s.Advance s' q)
      fun _ => env.as.Panics ∨ s.trips orders a = true := by
  have hsame : ∀ {r : Run A (Server A)}, Ends r s.Same (fun _ => env.as.Panics) →
      Ends r (fun s' => s.Same s' ∨ s'.InOrder ∨ ∃ q, s.takesOver orders a = some q ∧ s.Advance s' q)
        fun _ => env.as.Panics ∨ s.trips orders a = true :=
    fun h => h.mono (fun _ h => .inl h) fun _ h => .inl h
  cases a with
  | message msg =>
    cases msg with
    | request arg => exact hsame (request_ends hs arg)
    | prePrepare arg => exact hsame (prePrepare_ends hs arg)
    | prepare arg => exact hsame (prepare_ends hs arg)
    | commit arg => exact (commit_ends hs ho arg).mono (fun _ h => h.imp_right .inl) fun _ h => h
    | checkPoint arg =>
      refine (checkPoint_ends hs arg).mono (fun s' h => ?_) fun _ h => .inl h
      exact h.imp_right fun ⟨hc, h⟩ => .inr ⟨arg.seq, by simp [takesOver, hc], h⟩
    | viewChange vc =>
      refine (viewChange_ends hs orders.cps vc).mono (fun s' h => ?_) fun _ h =>
        h.imp_right fun h => by simpa [trips] using h
      exact h.imp_right fun ⟨mins, hl, hmins, h⟩ => .inr ⟨mins, by simp [takesOver, hl, hmins], h⟩
    | newView nv =>
      refine (newView_ends hs orders.cps nv).mono (fun s' h => ?_) fun _ h =>
        h.imp_right fun h => by simpa [trips] using h
      exact h.imp_right fun ⟨mins, hb, hmins, h⟩ => .inr ⟨mins, by simp [takesOver, hb, hmins], h⟩
    | response arg => exact .inr rfl
  | timer =>
    obtain ⟨key, stable, hsettled⟩ := hs.settled
    obtain ⟨cp, hcp⟩ := hsettled.exists_getStableCheckPoint orders.cps
    let fired : Server A := { s with armed := s.armed - 1 }
    have hfired : fired.Steady := hs.move (.idle (K := fun _ _ => True) s s.monitor s.change s.myViewChangeCount
      (s.armed - 1) s.state s.seqmap : Move env _ s _)
    have hstart := hfired.move (.startChange (K := fun _ _ => True) fired : Move env _ fired _)
    have hsend := hstart.move
      (.sendViewChange (K := fun _ _ => True) { fired with changing := true } orders cp rfl hcp :
      Move env _ _ _)
    let vc := s.generateViewChange orders.log cp
    have htakes : s.takesOver orders .timer = if s.leads vc then minsOf (s.collected vc) else none := by
      simp only [takesOver, hcp, Option.bind_some, vc]
    have htrips : s.trips orders .timer = decide (s.leads vc = true ∧ minsOf (s.collected vc) = none) := by
      simp only [trips, hcp, Option.any_some, vc]
    have hcp' : ({ fired with changing := true } : Server A).getStableCheckPoint orders.cps = some cp := hcp
    change Ends (fired.handleTimer env orders) _ _
    unfold handleTimer
    simp only [hcp']
    refine Ends.bind ((viewChange_ends hsend orders.cps vc).mono (fun _ h => h) ?_) fun s' _ h => ?_
    · rintro _ (hpanic | ⟨hleads, hnone⟩)
      · exact .inl hpanic
      · exact .inr (htrips.trans (decide_eq_true ⟨hleads, hnone⟩))
    · rcases h with h | ⟨mins, hleads, hmins, h⟩
      · exact .inl ⟨h.1, h.2⟩
      · have hleads' : s.leads vc = true := hleads
        refine .inr (.inr ⟨mins, ?_, h.1, h.2⟩)
        rw [htakes, if_pos hleads']
        exact hmins
  | background k => exact hsame (sendBackground_ends hs k)

end DistributedNotary.Pbft
