import DistributedNotary.Pbft.NewViews

/-! What a server commits itself to in one reaction. A commit message is only
sent for the view that the server is in, while it is not changing views; a view
change only when the timer has fired; a new view only by its leader, which then
goes into it unless it panics on the way. Only votes for a checkpoint take a
server into a view without its new view message, and it votes for one itself
only when a commit message of its view has come in. -/
namespace DistributedNotary.Pbft

open Library Relation Server

variable {A : Type}

/-- The events that bear on what a server may do in other views. -/
def Event.binding : Event → Bool
  | .send (.commit _) => true
  | .send (.viewChange _) => true
  | .send (.newView _) => true
  | .send (.checkPoint _) => true
  | .adoptView _ => true
  | .enterView _ _ => true
  | _ => false

namespace Server

/-- From `s` to `s'` no binding event has happened but those in `P`. -/
structure Binds (P : Event → Prop) (s s' : Server A) : Prop where
  of_mem : ∀ e, e.binding = true → e ∈ s'.trace → e ∈ s.trace ∨ P e

abbrev Mute : Server A → Server A → Prop := Binds fun _ => False

section Binds

variable {P Q : Event → Prop} {s s₁ s' s'' : Server A}

theorem Binds.of_trace (h : s'.trace = s.trace) : Binds P s s' := ⟨fun _ _ he => .inl (h ▸ he)⟩

theorem Binds.of_note {e : Event} (h : s'.trace = e :: s.trace) (he : e.binding = true → P e) : Binds P s s' where
  of_mem e' hb he' := by
    rw [h] at he'
    rcases List.mem_cons.mp he' with rfl | he'
    · exact .inr (he hb)
    · exact .inl he'

theorem Binds.trans (h : Binds P s s') (h' : Binds P s' s'') : Binds P s s'' :=
  ⟨fun e hb he => (h'.of_mem e hb he).elim (h.of_mem e hb) .inr⟩

theorem Binds.of_start (h : Binds P s₁ s') (ht : s₁.trace = s.trace) : Binds P s s' := (Binds.of_trace ht).trans h

theorem Binds.mono (h : Binds P s s') (hPQ : ∀ e, P e → Q e) : Binds Q s s' :=
  ⟨fun e hb he => (h.of_mem e hb he).imp_right (hPQ e)⟩

theorem Mute.binds (h : Mute s s') : Binds P s s' := h.mono fun _ => False.elim

/-- Before the last event that the server notes, it was mute. -/
theorem Mute.note (h : Mute s s') {e : Event} (ht : s''.trace = e :: s'.trace) (he : e.binding = true → P e) :
    Binds P s s'' := h.binds.trans (.of_note ht he)

theorem Binds.bind {r : Run A (Server A)} {g : Server A → Run A (Server A)} (h : Binds P s (after r))
    (hg : ∀ s', r = .ok s' → Binds P s' (after (g s'))) : Binds P s (after (r >>= g)) := by
  cases r with
  | error s' => exact h
  | ok s' => exact h.trans (hg s' rfl)

end Binds

/-- A view that is taken over with a checkpoint. -/
def Adopts (e : Event) : Prop := ∃ view, e = .adoptView view

/-- A view that is taken over with a checkpoint, or a vote for a checkpoint. -/
def Votes (e : Event) : Prop := Adopts e ∨ ∃ vote, e = .send (.checkPoint vote)

/-- A view that is entered with its new view message. -/
def Enters (e : Event) : Prop := ∃ view v, e = .enterView view v

/-- A commit message for the view of the server. -/
def Commits (s : Server A) (e : Event) : Prop :=
  s.changing = false ∧ ∃ args : CommitArgs, e = .send (.commit args) ∧ args.view = s.view

/-- The view that the server goes into once it has the view change, and its message. -/
def Opens (s : Server A) (vc : ViewChangeArgs) (e : Event) : Prop :=
  Enters e ∨ s.leads vc = true ∧ ∃ mins maxs pps, newViewOf vc.view (s.collected vc) = some (mins, maxs, pps) ∧
    e = .send (.newView { view := vc.view, v := s.collected vc, o := pps })

section Handlers

variable {env : Env A} {s : Server A}

theorem mute_replyByPendingTask (pt : PendingTask) : Mute s (after (s.replyByPendingTask env pt)) := by
  cases hpp : (s.heap pt.ent).pp with
  | none =>
    simp only [replyByPendingTask, hpp]
    exact .of_trace rfl
  | some pp =>
    have hanswer (as : A) : Mute s (s.answered pt pp as) := .of_note rfl fun h => absurd h Bool.false_ne_true
    obtain ⟨as, -, ⟨-, hr⟩ | ⟨r, -, hr⟩⟩ := replyByPendingTask_cases env s hpp
    · rw [hr]
      exact hanswer as
    · rw [hr]
      exact (hanswer as).note rfl fun h => absurd h Bool.false_ne_true

theorem mute_replyUpTo (seq : ℤ) (k : ℕ) : Mute s (after (replyUpTo env seq k s)) := by
  induction k generalizing s with
  | zero => exact .of_trace rfl
  | succ k ih =>
    unfold replyUpTo
    split
    · exact .of_trace rfl
    · next queue m hq =>
      split_ifs with hm
      · let s' := { s with applyQueue := queue }
        have hreply : Mute s' (after (s'.replyByPendingTask env m.c)) := mute_replyByPendingTask m.c
        exact (hreply.bind fun _ _ => ih).of_start rfl
      · exact .of_trace rfl

theorem mute_settled (key : ℤ) (cp : CheckPoint) (proof : CheckPointArgs) (k : ℕ) :
    Mute s (after (replyUpTo env cp.seq k (s.settle key cp proof) >>= fun s => .ok { s with lastcp := cp.seq })) :=
  ((mute_replyUpTo cp.seq k).bind fun _ _ => .of_trace rfl).of_start rfl

theorem adopts_countVotes (key : ℤ) (cp : CheckPoint) : Binds Adopts s (after (s.countVotes env key cp)) := by
  unfold countVotes
  split
  · exact .of_trace rfl
  · next proof _ =>
    have hnote : Binds Adopts s ((s.note (.stable proof cp.proof)).adoptView proof) := by
      have hstable : Binds Adopts s (s.note (.stable proof cp.proof)) := .of_note rfl nofun
      refine hstable.trans ?_
      unfold adoptView
      split_ifs
      · exact .of_note rfl fun _ => ⟨proof.view, rfl⟩
      · exact .of_trace rfl
    exact hnote.trans (mute_settled key cp proof _).binds

theorem adopts_checkPoint (args : CheckPointArgs) : Binds Adopts s (after (s.checkPoint env args)) := by
  unfold checkPoint
  split_ifs with hdiv
  · exact .of_trace rfl
  · rw [not_not] at hdiv
    rcases getCheckPoint_cases env s hdiv with ⟨-, hg⟩ | ⟨-, digest, -, hg⟩
    · rw [hg]
      exact .of_trace rfl
    · rw [hg]
      change Binds Adopts s (after (if _ then _ else _))
      split_ifs
      · exact .of_trace rfl
      · exact (adopts_countVotes args.seq _).of_start rfl

theorem votes_startCheckPoint {n : ℤ} (hdiv : n.tmod checkpointDiv = 0) :
    Binds Votes s (after (s.startCheckPoint env n)) := by
  rcases startCheckPoint_cases env s hdiv with h | ⟨-, digest, digest', cp, -, -, -, h⟩
  · rw [h]
    exact .of_trace rfl
  · rw [h]
    have hcast : Binds Votes s (s.castVote n digest digest') := .of_note rfl fun _ => .inr ⟨_, rfl⟩
    exact hcast.trans ((adopts_countVotes n cp).mono fun _ => .inl)

theorem votes_applyLoop (k : ℕ) : Binds Votes s (after (applyLoop env k s)) := by
  induction k generalizing s with
  | zero => exact .of_trace rfl
  | succ k ih =>
    unfold applyLoop
    split
    · exact .of_trace rfl
    · next queue m hq =>
      split_ifs with hturn hlate
      · let s' := s.takeTurn queue m
        have hreply : Mute s' (after (s'.replyByPendingTask env m.c)) := mute_replyByPendingTask m.c
        refine Binds.of_start (hreply.binds.bind fun s₁ _ => ?_) rfl
        simp only []
        split_ifs with hdiv
        · exact (votes_startCheckPoint hdiv).bind fun _ _ => ih
        · exact ih
      · exact .of_trace rfl
      · exact .of_trace rfl

theorem votes_commitEntry (args : CommitArgs) (r : ℕ) : Binds Votes s (after (s.commitEntry env args r)) := by
  unfold commitEntry
  simp only []
  split_ifs
  · unfold execute
    split_ifs
    · exact .of_trace rfl
    · split
      · exact .of_trace rfl
      · exact (votes_applyLoop _).of_start rfl
  · exact .of_trace rfl
  · exact .of_trace rfl

/-- A handler that stops the timer and looks up an entry in the window goes on with that entry. -/
theorem binds_entry {P : Event → Prop} (hs : s.WF) {view seq : ℤ} {g : Server A × ℕ → Run A (Server A)}
    (hg : ∀ s' r, s'.WF → s'.view = s.view → s'.changing = s.changing → s'.inWindow view seq = true →
      s'.log.lookup ⟨view, seq⟩ = some r → Binds P s' (after (g (s', r)))) :
    Binds P s
      (after (if s.stopTimer.inWindow view seq then g (s.stopTimer.getEntry ⟨view, seq⟩) else .ok s.stopTimer)) := by
  have hstop : s.stopTimer.WF := hs.of_eq rfl rfl rfl rfl rfl rfl
  split_ifs with hw
  · obtain ⟨rfl, -⟩ := inWindow_iff.mp hw
    unfold getEntry
    split
    · next r hr => exact (hg s.stopTimer r hstop rfl rfl hw hr).of_start rfl
    · next hr =>
      have hnew : (s.stopTimer.alloc ⟨s.stopTimer.view, seq⟩ { id := ⟨s.stopTimer.view, seq⟩ }).WF :=
        hstop.alloc _ le_rfl rfl nofun rfl rfl rfl
      exact (hg _ _ hnew rfl rfl hw (AList.lookup_insert _)).of_start rfl
  · exact .of_trace rfl

/-- A commit message makes the server vote, if at all, only where it is one of its view. -/
theorem votes_commit (hs : s.WF) (args : CommitArgs) :
    Binds (fun e => Votes e ∧ args.view = s.view) s (after (s.commit env args)) := by
  unfold commit
  split_ifs
  · exact .of_trace rfl
  · refine binds_entry hs (g := fun p => p.1.commitEntry env args p.2) fun s' r _ hview _ hw _ => ?_
    exact (votes_commitEntry args r).mono fun _ he => ⟨he, (inWindow_iff.mp hw).1.symm.trans hview⟩

theorem Commits.of_eq {s' : Server A} (hview : s'.view = s.view) (hchanging : s'.changing = s.changing) {e : Event}
    (h : s'.Commits e) : s.Commits e := by
  rwa [Commits, ← hview, ← hchanging]

/-- The own commit message completes nothing. -/
theorem commits_sendCommit (hs : s.WF) {args : PrepareArgs} {r : ℕ} {pp : PrePrepareArgs} (hc : s.changing = false)
    (hw : s.inWindow args.view args.seq = true) (hr : s.log.lookup ⟨args.view, args.seq⟩ = some r)
    (hpp : (s.heap r).pp = some pp) (hsend : (s.heap r).sendCommit = false) :
    Binds (Commits s) s (after (s.sendCommit env args r pp)) := by
  rcases hcall : env.as.commitSeq s.as s.view pp.seq pp.message.op pp.digest with ⟨as, answer⟩
  rcases answer with (text | text) | ⟨⟩
  · unfold sendCommit
    rw [hcall]
    exact .of_trace rfl
  · unfold sendCommit
    rw [hcall]
    exact .of_trace rfl
  · rw [sendCommit_eq hs hc hw hr hpp hsend hcall]
    obtain ⟨hlt, hid⟩ := hs.refs _ _ hr
    have hpid := hs.pps r pp hlt hpp
    rw [hid, EntryID.mk.injEq] at hpid
    have hview : pp.view = s.view := hpid.1.symm.trans (inWindow_iff.mp hw).1.symm
    exact .of_note rfl fun _ => ⟨hc, s.commitFor pp, rfl, hview⟩

theorem commits_prepareEntry (hs : s.WF) {args : PrepareArgs} {r : ℕ} (hc : s.changing = false)
    (hw : s.inWindow args.view args.seq = true) (hr : s.log.lookup ⟨args.view, args.seq⟩ = some r) :
    Binds (Commits s) s (after (s.prepareEntry env args r)) := by
  unfold prepareEntry
  simp only []
  by_cases hm : matchesPP (s.heap r) args.digest = true
  · rw [if_pos hm]
    split
    · exact .of_trace rfl
    · next pp hpp =>
      split_ifs with hprep
      · let s' := s.setEntry r { s.heap r with p := (s.heap r).p ++ [args] }
        have hpp' : (s'.heap r).pp = some pp := by
          change (Function.update s.heap r _ r).pp = some pp
          rw [Function.update_self]
          exact hpp
        have hsend : (s'.heap r).sendCommit = false := by
          change (Function.update s.heap r _ r).sendCommit = false
          rw [Function.update_self]
          exact Bool.not_eq_true _ ▸ hprep.1
        have hcommit : Binds (Commits s') s' (after (s'.sendCommit env args r pp)) :=
          commits_sendCommit (hs.addPrepare hr) hc hw hr hpp' hsend
        exact hcommit.of_start rfl
      · exact .of_trace rfl
  · rw [if_neg hm]
    exact .of_trace rfl

theorem commits_prepare (hs : s.WF) (args : PrepareArgs) : Binds (Commits s) s (after (s.prepare env args)) := by
  unfold prepare
  split_ifs with hc
  · exact .of_trace rfl
  · rw [Bool.not_eq_true] at hc
    refine binds_entry hs (g := fun p => p.1.prepareEntry env args p.2) fun s' r hs' hview hchanging hw hr => ?_
    exact (commits_prepareEntry hs' (hchanging.trans hc) hw hr).mono fun _ => Commits.of_eq hview hchanging

theorem commits_prePrepare (hs : s.WF) (args : PrePrepareArgs) :
    Binds (Commits s) s (after (s.prePrepare env args)) := by
  unfold prePrepare
  split_ifs with hc
  · exact .of_trace rfl
  · split
    · exact .of_trace rfl
    · exact .of_trace rfl
    · next as _ _ =>
      have has : ({ s with as := as } : Server A).WF := hs.of_eq rfl rfl rfl rfl rfl rfl
      have hentry : Binds (Commits s) { s with as := as } (after ({ s with as := as }.acceptPrePrepare env args)) := by
        refine binds_entry has (g := fun p => p.1.prePrepareEntry env args p.2) fun s' r hs' hview hchanging _ hr => ?_
        unfold prePrepareEntry
        simp only []
        split_ifs with ha
        · let s'' := (s'.setEntry r { s'.heap r with pp := some args }).send (.prepare (s'.prepareFor args))
          have haccept : Binds (Commits s) s' s'' := .of_note rfl nofun
          have hs'' : s''.WF := (hs'.accept hr ha).of_eq rfl rfl rfl rfl rfl rfl
          have hprepare : Binds (Commits s'') s'' (after (s''.prepare env (s'.prepareFor args))) :=
            commits_prepare hs'' _
          exact haccept.trans (hprepare.mono fun _ => Commits.of_eq hview hchanging)
        · exact .of_trace rfl
      exact hentry.of_start rfl

theorem commits_handleRequestLeader (hs : s.WF) (args : RequestArgs) :
    Binds (Commits s) s (after (s.handleRequestLeader env args)) := by
  have hpropose (s' : Server A) (pp : PrePrepareArgs) (hs' : s'.WF) (hview : s'.view = s.view)
      (hchanging : s'.changing = s.changing) (ht : s'.trace = s.trace) :
      Binds (Commits s) s (after ((s'.send (.prePrepare pp)).prePrepare env pp)) := by
    have hsend : Binds (Commits s) s (s'.send (.prePrepare pp)) := .of_note (congrArg (_ :: ·) ht) nofun
    have hsent : (s'.send (.prePrepare pp)).WF := hs'.of_eq rfl rfl rfl rfl rfl rfl
    exact hsend.trans ((commits_prePrepare hsent pp).mono fun _ => Commits.of_eq hview hchanging)
  have hrepropose (s' : Server A) (r : ℕ) (hs' : s'.WF) (hview : s'.view = s.view)
    (hchanging : s'.changing = s.changing)
      (ht : s'.trace = s.trace) : Binds (Commits s) s (after (s'.reproposeEntry env r)) := by
    unfold reproposeEntry
    simp only []
    split
    · exact .of_trace ht
    · split_ifs
      · exact .of_trace ht
      · unfold reply
        split
        · exact .of_note (congrArg (_ :: ·) ht) nofun
        · exact .of_trace ht
      · exact hpropose s' _ hs' hview hchanging ht
  unfold handleRequestLeader
  split
  · unfold propose
    split_ifs
    · exact .of_trace rfl
    · split
      · exact .of_trace rfl
      · exact .of_trace rfl
      · exact hpropose { s with as := _, seqmap := _, tSeq := _ } _ (hs.of_eq rfl rfl rfl rfl rfl rfl) rfl rfl rfl
  · next gseq _ =>
    unfold repropose
    split_ifs
    · exact .of_trace rfl
    · unfold getEntry
      cases s.log.lookup ⟨s.view, gseq⟩ with
      | some r => exact hrepropose s r hs rfl rfl rfl
      | none => exact hrepropose (s.alloc _ _) s.next (hs.alloc _ le_rfl rfl nofun rfl rfl rfl) rfl rfl rfl

theorem commits_request (hs : s.WF) (args : RequestArgs) : Binds (Commits s) s (after (s.request env args)) := by
  unfold request
  split_ifs
  · exact .of_trace rfl
  · exact commits_handleRequestLeader hs args
  · unfold handleRequestFollower
    split_ifs
    · exact .of_trace rfl
    · exact .of_note rfl nofun

theorem commits_sendBackground (hs : s.WF) (k : ℕ) : Binds (Commits s) s (after (s.sendBackground env k)) := by
  unfold sendBackground
  split
  · next p ps _ =>
    let s' := { s with background := s.background.set k ps }.send (.prepare p)
    have hsend : Binds (Commits s) s s' := .of_note rfl nofun
    have hs' : s'.WF := hs.of_eq rfl rfl rfl rfl rfl rfl
    have hprepare : Binds (Commits s') s' (after (s'.prepare env p)) := commits_prepare hs' p
    exact hsend.trans (hprepare.mono fun _ => Commits.of_eq rfl rfl)
  · exact .of_trace rfl

theorem enters_enteringNewView {order : Range ℤ} {nv : NewViewArgs} {mins maxs : ℤ} {pps : List PrePrepareArgs} :
    Binds Enters s (after (s.enteringNewView env order nv mins maxs pps)) := by
  have hcatch : Mute s (after (s.catchUp env order nv.v mins)) := by
    unfold catchUp
    split
    · exact .of_trace rfl
    · split_ifs
      · split
        · exact .of_trace rfl
        · next cp2 _ =>
          simp only []
          rw [stablizeCP_of_le le_rfl]
          exact Binds.of_start (mute_settled ..) rfl
      · exact .of_trace rfl
  have htake (view : ℤ) (l : List PrePrepareArgs) (s : Server A) : (takeOver view l s).trace = s.trace := by
    induction l generalizing s with
    | nil => rfl
    | cons pp l ih =>
      rw [takeOver, ih]
      unfold getEntry
      split <;> rfl
  refine hcatch.binds.bind fun s' _ => ?_
  exact .of_note (congrArg (_ :: ·) (htake nv.view pps _)) fun _ => ⟨nv.view, nv.v, rfl⟩

theorem opens_viewChange (order : Range ℤ) (vc : ViewChangeArgs) :
    Binds (Opens s vc) s (after (s.viewChange env order vc)) := by
  unfold viewChange
  by_cases hle : vc.view ≤ s.view
  · rw [if_pos hle]
    exact .of_trace rfl
  · rw [if_neg hle]
    simp only []
    split_ifs with hlead
    · split
      · exact .of_trace rfl
      · next mins maxs pprepared hcalc =>
        let s' := { s with vcs := s.vcs.insert vc.view (s.collected vc) }
        let nv : NewViewArgs :=
          { view := vc.view, v := s.collected vc, o := calcPPS vc.view mins maxs pprepared }
        have hsend : Binds (Opens s vc) s (s'.send (.newView nv)) := by
          refine .of_note rfl fun _ => .inr ⟨?_, mins, maxs, _, newViewOf_eq vc.view hcalc, rfl⟩
          exact decide_eq_true ⟨not_le.mp hle, hlead⟩
        exact hsend.trans (enters_enteringNewView.mono fun _ => .inl)
    · exact .of_trace rfl

theorem enters_newView (order : Range ℤ) (nv : NewViewArgs) : Binds Enters s (after (s.newView env order nv)) := by
  unfold newView
  split_ifs
  · exact .of_trace rfl
  · simp only []
    split_ifs
    · exact .of_trace rfl
    · split
      · exact .of_trace rfl
      · split
        · exact .of_trace rfl
        · exact .of_trace rfl
        · exact enters_enteringNewView

/-- The leader that announces a view is in it afterwards. -/
theorem view_of_viewChange {order : Range ℤ} {vc : ViewChangeArgs} {s' : Server A}
    (h : s.viewChange env order vc = .ok s') (hl : s.leads vc = true) : s'.view = vc.view := by
  simp only [leads, decide_eq_true_eq] at hl
  unfold viewChange at h
  rw [if_neg (not_le.mpr hl.1)] at h
  simp only [collected] at hl
  rw [if_pos hl.2] at h
  split at h
  · cases h
  · exact enteringNewView_view h

end Handlers

/-- The view change that an input makes the server handle, a delivered one or its own. -/
def handles (s : Server A) (orders : Orders) : Input → Option ViewChangeArgs
  | .message (.viewChange vc) => some vc
  | .timer => (s.getStableCheckPoint orders.cps).map fun cp => s.generateViewChange orders.log cp
  | _ => none

end Server

/-- The inputs that make a server take part in its view, if it is not changing views. -/
def Input.takesPart : Input → Bool
  | .message (.request _) => true
  | .message (.prePrepare _) => true
  | .message (.prepare _) => true
  | .background _ => true
  | _ => false

namespace Server

/-- How a binding event comes about. -/
inductive Announces (s : Server A) (orders : Orders) (a : Input) : Event → Prop
  | adopts (view : ℤ) (hno : s.handles orders a = none) : Announces s orders a (.adoptView view)
  | enters (view : ℤ) (v : List ViewChangeArgs) (hno : ∀ args, a ≠ .message (.commit args)) :
    Announces s orders a (.enterView view v)
  | commits (args : CommitArgs) (ha : a.takesPart = true) (hc : s.changing = false) (hview : args.view = s.view) :
    Announces s orders a (.send (.commit args))
  | votes (vote : CheckPointArgs) (args : CommitArgs) (ha : a = .message (.commit args)) (hview : args.view = s.view) :
    Announces s orders a (.send (.checkPoint vote))
  | changes (vc : ViewChangeArgs) (ha : a = .timer) (hvc : s.handles orders a = some vc) :
    Announces s orders a (.send (.viewChange vc))
  | opens (vc : ViewChangeArgs) (mins maxs : ℤ) (pps : List PrePrepareArgs) (hvc : s.handles orders a = some vc)
    (hl : s.leads vc = true) (hnv : newViewOf vc.view (s.collected vc) = some (mins, maxs, pps)) :
    Announces s orders a (.send (.newView { view := vc.view, v := s.collected vc, o := pps }))

section React

variable {env : Env A} {s : Server A} {orders : Orders}

theorem binds_handleTimer : Binds (Announces s orders .timer) s
    (after ({ s with armed := s.armed - 1 }.handleTimer env orders)) := by
  unfold handleTimer
  simp only []
  split
  · exact .of_trace rfl
  · next cp hcp =>
    let vc := s.generateViewChange orders.log cp
    have hvc : s.handles orders .timer = some vc := by
      unfold handles
      rw [show s.getStableCheckPoint orders.cps = some cp from hcp]
      rfl
    let s' := { s with armed := s.armed - 1, changing := true, myViewChangeCount := s.myViewChangeCount + 1 }.send
      (.viewChange vc)
    have hsend : Binds (Announces s orders .timer) s s' := .of_note rfl fun _ => .changes vc rfl hvc
    have hopens : Binds (Opens s' vc) s' (after (s'.viewChange env orders.cps vc)) := opens_viewChange orders.cps vc
    refine (hsend.trans (hopens.mono ?_)).bind fun _ _ => .of_trace rfl
    rintro e (⟨view, v, rfl⟩ | ⟨hl, mins, maxs, pps, hnv, rfl⟩)
    · exact .enters view v nofun
    · exact .opens vc mins maxs pps hvc hl hnv

/-- What a server commits itself to when it reacts. -/
theorem binds_react (hs : s.WF) (a : Input) : Binds (Announces s orders a) s (after (s.react env orders a)) := by
  have hcommits (ha : a.takesPart = true) {s' : Server A} (h : Binds (Commits s) s s') :
      Binds (Announces s orders a) s s' := by
    refine h.mono ?_
    rintro e ⟨hc, args, rfl, hview⟩
    exact .commits args ha hc hview
  cases a with
  | timer => exact binds_handleTimer
  | background k => exact hcommits rfl (commits_sendBackground hs k)
  | message msg =>
    cases msg with
    | request args => exact hcommits rfl (commits_request hs args)
    | prePrepare args => exact hcommits rfl (commits_prePrepare hs args)
    | prepare args => exact hcommits rfl (commits_prepare hs args)
    | response r => exact .of_trace rfl
    | commit args =>
      refine (votes_commit hs args).mono ?_
      rintro e ⟨⟨view, rfl⟩ | ⟨vote, rfl⟩, hview⟩
      · exact .adopts view rfl
      · exact .votes vote args rfl hview
    | checkPoint args =>
      refine (adopts_checkPoint args).mono ?_
      rintro e ⟨view, rfl⟩
      exact .adopts view rfl
    | newView nv =>
      refine (enters_newView orders.cps nv).mono ?_
      rintro e ⟨view, v, rfl⟩
      exact .enters view v nofun
    | viewChange vc =>
      refine (opens_viewChange orders.cps vc).mono ?_
      rintro e (⟨view, v, rfl⟩ | ⟨hl, mins, maxs, pps, hnv, rfl⟩)
      · exact .enters view v nofun
      · exact .opens vc mins maxs pps rfl hl hnv

/-- The server that has announced a view is in it, or has panicked. -/
theorem view_of_leads {a : Input} {vc : ViewChangeArgs} {s' : Server A} (h : s.react env orders a = .ok s')
    (hvc : s.handles orders a = some vc) (hl : s.leads vc = true) : s'.view = vc.view := by
  cases a with
  | background k => cases hvc
  | timer =>
    obtain ⟨cp, hcp, rfl⟩ := Option.map_eq_some_iff.mp hvc
    have hcp' :
        ({ s with armed := s.armed - 1, changing := true } : Server A).getStableCheckPoint orders.cps = some cp :=
      hcp
    simp only [react, handleTimer, hcp'] at h
    obtain ⟨s₁, h₁, h⟩ := bind_eq_ok.mp h
    obtain rfl := Except.ok.inj h
    have hview := view_of_viewChange h₁ hl
    exact hview
  | message msg =>
    cases msg with
    | viewChange vc' =>
      obtain rfl := Option.some.inj hvc
      exact view_of_viewChange h hl
    | _ => cases hvc

end React

end Server

end DistributedNotary.Pbft
