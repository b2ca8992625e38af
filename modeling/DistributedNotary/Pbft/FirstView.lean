import DistributedNotary.Pbft.Settled
import DistributedNotary.Pbft.Quorums

/-! What one server says in view 0, whatever messages it gets. It accepts one
digest for each number, as an entry that it has dropped lies before its stable
checkpoint, and sends its commit messages for that digest only. What it has
executed it has in an entry for which a quorum has sent commit messages. -/
namespace DistributedNotary.Pbft

open Library Relation Server

variable {A : Type}

/-- Everything under a reference stays, except that a preprepare message may be replaced by one with its digest. -/
theorem Move.keeps {env : Env A} {K : Server A → Msg → Prop} {s s' : Server A} (hm : Move env K s s') (hs : s.WF) :
    s.next ≤ s'.next ∧ ∀ r < s.next, (s.heap r).Keeps (s'.heap r) := by
  have hsame : ∀ {e e' : Entry},
      e'.id = e.id → e'.pp = e.pp → e'.sendCommit = e.sendCommit → e.c <+: e'.c → e.Keeps e' :=
    fun hid hpp hsend hc => ⟨hid, fun pp h => ⟨pp, hpp.trans h, rfl, rfl, rfl⟩, fun h => hsend.trans h, hc⟩
  have hrefl : ∀ e : Entry, e.Keeps e := fun e => hsame rfl rfl rfl List.prefix_rfl
  have hupdate : ∀ (r : ℕ) (ent : Entry), (s.heap r).Keeps ent → ∀ r' < s.next,
      (s.heap r').Keeps (Function.update s.heap r ent r') := by
    intro r ent hent r' _
    rcases eq_or_ne r' r with rfl | hne
    · rwa [Function.update_self]
    · rw [Function.update_of_ne hne]
      exact hrefl _
  have hnew : ∀ (ent : Entry), ∀ r' < s.next, (s.heap r').Keeps (Function.update s.heap s.next ent r') := by
    intro ent r' hr'
    rw [Function.update_of_ne hr'.ne]
    exact hrefl _
  cases hm with
  | newEntry n _ => exact ⟨Nat.le_succ _, hnew _⟩
  | accept r pp hk hc hw hr ha =>
    refine ⟨le_rfl, hupdate r _ ⟨rfl, fun pp' hpp' => ⟨pp, rfl, ?_⟩, fun h => h, List.prefix_rfl⟩⟩
    obtain ⟨hlt, hid⟩ := hs.refs _ _ hr
    have hid' := hs.pps r pp' hlt hpp'
    rw [hid, EntryID.mk.injEq] at hid'
    simp only [accepts, hpp', decide_eq_true_eq] at ha
    exact ⟨hid'.1, hid'.2, ha.1.symm⟩
  | addPrepare r args => exact ⟨le_rfl, hupdate r _ (hsame rfl rfl rfl List.prefix_rfl)⟩
  | sendCommit r pp as hc hw hr hpp hs hp has =>
    exact ⟨le_rfl, hupdate r _ ⟨rfl, fun pp h => ⟨pp, h, rfl, rfl, rfl⟩, fun _ => rfl, List.prefix_append _ _⟩⟩
  | addCommit r args => exact ⟨le_rfl, hupdate r _ (hsame rfl rfl rfl (List.prefix_append _ _))⟩
  | enqueue r args => exact ⟨le_rfl, hupdate r _ (hsame rfl rfl rfl List.prefix_rfl)⟩
  | runTask queue m => exact ⟨le_rfl, hupdate m.c.ent _ (hsame rfl rfl rfl List.prefix_rfl)⟩
  | runTaskAndVote queue m => exact ⟨le_rfl, hupdate m.c.ent _ (hsame rfl rfl rfl List.prefix_rfl)⟩
  | answerTask queue m => exact ⟨le_rfl, hupdate m.c.ent _ (hsame rfl rfl rfl List.prefix_rfl)⟩
  | takeOne => exact ⟨Nat.le_succ _, hnew _⟩
  | idle | service | relay | respond | propose | repropose | sendBackground | touch | vote | stabilize
  | stabilizeAndResume | settled | startChange | sendViewChange | storeViewChange | sendNewView | catchUp | enterView =>
    exact ⟨le_rfl, fun r _ => hrefl (s.heap r)⟩

namespace Server

/-- The server has the preprepare message in the entry under the reference `r`, in its log or dropped from it. -/
def HoldsAt (s : Server A) (r : ℕ) (pp : PrePrepareArgs) : Prop := r < s.next ∧ (s.heap r).pp = some pp

end Server

section Inversion

variable {env : Env A} {K : Server A → Msg → Prop} {s s' : Server A}

/-- A preprepare message that is new in an entry was accepted, or the view has started with it. -/
theorem Move.holds (hm : Move env K s s') {r : ℕ} {pp : PrePrepareArgs} (h : s'.HoldsAt r pp) :
    s.HoldsAt r pp ∨
      (K s (.prePrepare pp) ∧ s.inWindow pp.view pp.seq = true ∧ s.log.lookup ⟨pp.view, pp.seq⟩ = some r ∧
        accepts (s.heap r) pp = true) ∨
      (pp.view = s.view ∧ ∃ v mins maxs pps, .enterView s.view v ∈ s.trace ∧
        newViewOf s.view v = some (mins, maxs, pps) ∧ pp ∈ pps) := by
  have hupdate : ∀ (r' : ℕ) (ent : Entry), ent.pp = (s.heap r').pp → r < s.next →
      (Function.update s.heap r' ent r).pp = some pp → s.HoldsAt r pp := by
    intro r' ent hent hlt hpp
    rcases eq_or_ne r r' with rfl | hne
    · rw [Function.update_self, hent] at hpp
      exact ⟨hlt, hpp⟩
    · rw [Function.update_of_ne hne] at hpp
      exact ⟨hlt, hpp⟩
  obtain ⟨hlt, hpp⟩ := h
  cases hm with
  | newEntry n _ =>
    simp only [alloc] at hlt hpp
    rcases eq_or_ne r s.next with rfl | hne
    · rw [Function.update_self] at hpp
      exact nomatch hpp
    · rw [Function.update_of_ne hne] at hpp
      exact .inl ⟨lt_of_le_of_ne (Nat.lt_succ_iff.mp hlt) hne, hpp⟩
  | accept r' pp' hk hc hw hr ha =>
    simp only [send, note, setEntry] at hlt hpp
    rcases eq_or_ne r r' with rfl | hne
    · rw [Function.update_self] at hpp
      obtain rfl := Option.some.inj hpp
      exact .inr (.inl ⟨hk, hw, hr, ha⟩)
    · rw [Function.update_of_ne hne] at hpp
      exact .inl ⟨hlt, hpp⟩
  | takeOne v mins maxs pps pp' henter hnv hmem hview hnew =>
    simp only [Server.takeOne, alloc] at hlt hpp
    rcases eq_or_ne r s.next with rfl | hne
    · rw [Function.update_self] at hpp
      obtain rfl := Option.some.inj hpp
      exact .inr (.inr ⟨hview, v, mins, maxs, pps, henter, hnv, hmem⟩)
    · rw [Function.update_of_ne hne] at hpp
      exact .inl ⟨lt_of_le_of_ne (Nat.lt_succ_iff.mp hlt) hne, hpp⟩
  | addPrepare | addCommit | enqueue | sendCommit | runTask | runTaskAndVote | answerTask =>
      exact .inl (hupdate _ _ (by rfl) hlt hpp)
  | _ => exact .inl ⟨hlt, hpp⟩

/-- What is executed is in the entry of a task that has a quorum of commit messages. -/
theorem Move.executes (hm : Move env K s s') (hs : s.WF) {view seq : ℤ} {op auxiliary : String}
    (h : .updateSeq view seq op auxiliary ∈ s'.trace) :
    .updateSeq view seq op auxiliary ∈ s.trace ∨
      ∃ r pp, s.HoldsAt r pp ∧ s.committed (s.heap r) = true ∧ pp.view = view ∧ pp.seq = seq ∧ pp.message.op = op ∧
        pp.digest = auxiliary := by
  have htask : ∀ {queue : PriorityQueue PendingTask} {m : PQElem PendingTask} {pp : PrePrepareArgs},
      s.applyQueue.extractMin = (queue, some m) → (s.heap m.c.ent).pp = some pp →
      Event.updateSeq view seq op auxiliary = .updateSeq m.c.args.view m.c.seq pp.message.op pp.digest →
      ∃ r pp, s.HoldsAt r pp ∧ s.committed (s.heap r) = true ∧ pp.view = view ∧ pp.seq = seq ∧ pp.message.op = op ∧
        pp.digest = auxiliary := by
    intro queue m pp hq hpp heq
    obtain ⟨hlt, -, -, -, hid, -, -, hcommitted⟩ := hs.tasks m (by
      rw [PriorityQueue.content_of_extractMin hq]
      exact List.mem_cons_self ..)
    have hid' := hs.pps _ pp hlt hpp
    rw [hid, EntryID.mk.injEq] at hid'
    obtain ⟨rfl, rfl, rfl, rfl⟩ := Event.updateSeq.inj heq
    exact ⟨_, pp, ⟨hlt, hpp⟩, hcommitted, hid'.1.symm, hid'.2.symm, rfl, rfl⟩
  cases hm with
  | runTask queue m pp as hq hturn hpp has =>
    exact (List.mem_cons.mp h).symm.imp_right (htask hq hpp)
  | runTaskAndVote queue m pp as reply digest digest' hq hturn hpp has hreply hdiv hslot =>
    simp only [castVote, send, note, setCheckPoint, Server.runTask, answered, answer, takeTurn,
      List.mem_cons, reduceCtorEq,
      false_or] at h
    exact h.symm.imp_right (htask hq hpp)
  | answerTask queue m pp as cp key hq hcp hstable hle hpp has =>
    exact (List.mem_cons.mp h).symm.imp_right (htask hq hpp)
  | _ => exact .inl (by simpa using h)

theorem Move.sent_commit (hm : Move env K s s') {args : CommitArgs} (h : s'.Sent (.commit args)) (hs : s.WF) :
    s.Sent (.commit args) ∨ ∃ r pp, s.HoldsAt r pp ∧ args = s.commitFor pp := by
  unfold Sent at h ⊢
  cases hm with
  | sendCommit r pp as hc hw hr hpp hsend hp has =>
    rcases List.mem_cons.mp h with heq | h
    · exact .inr ⟨r, pp, ⟨(hs.refs _ _ hr).1, hpp⟩, Msg.commit.inj (Event.send.inj heq)⟩
    · exact .inl h
  | _ => exact .inl (by simpa using h)

/-- A commit message that is new in an entry was delivered, or is the server's own. -/
theorem Move.counts (hm : Move env K s s') {r : ℕ} (hr : r < s'.next) {args : CommitArgs} (h : args ∈ (s'.heap r).c) :
    (r < s.next ∧ args ∈ (s.heap r).c) ∨ K s (.commit args) ∨ (args.rid = s.id ∧ s'.Sent (.commit args)) := by
  have hupdate : ∀ (r' : ℕ) (ent : Entry), ent.c = (s.heap r').c → r < s.next →
      args ∈ (Function.update s.heap r' ent r).c → r < s.next ∧ args ∈ (s.heap r).c := by
    intro r' ent hent hlt hargs
    rcases eq_or_ne r r' with rfl | hne
    · rw [Function.update_self, hent] at hargs
      exact ⟨hlt, hargs⟩
    · rw [Function.update_of_ne hne] at hargs
      exact ⟨hlt, hargs⟩
  have hadd : ∀ (r' : ℕ) (ent : Entry) (args' : CommitArgs), ent.c = (s.heap r').c ++ [args'] → r < s.next →
      args ∈ (Function.update s.heap r' ent r).c → (r < s.next ∧ args ∈ (s.heap r).c) ∨ args = args' := by
    intro r' ent args' hent hlt hargs
    rcases eq_or_ne r r' with rfl | hne
    · rw [Function.update_self, hent] at hargs
      exact (List.mem_append.mp hargs).imp (fun hargs => ⟨hlt, hargs⟩) List.mem_singleton.mp
    · rw [Function.update_of_ne hne] at hargs
      exact .inl ⟨hlt, hargs⟩
  have hnew : ∀ (ent : Entry), ent.c = [] → r < s.next + 1 → args ∈ (Function.update s.heap s.next ent r).c →
      r < s.next ∧ args ∈ (s.heap r).c := by
    intro ent hent hlt hargs
    rcases eq_or_ne r s.next with rfl | hne
    · rw [Function.update_self, hent] at hargs
      exact absurd hargs List.not_mem_nil
    · rw [Function.update_of_ne hne] at hargs
      exact ⟨lt_of_le_of_ne (Nat.lt_succ_iff.mp hlt) hne, hargs⟩
  cases hm with
  | newEntry | takeOne => exact .inl (hnew _ (by rfl) hr h)
  | sendCommit r' pp as hc hw hr' hpp hs hp has =>
    rcases hadd _ _ (s.commitFor pp) (by rfl) hr h with hold | rfl
    · exact .inl hold
    · exact .inr (.inr ⟨rfl, List.mem_cons_self ..⟩)
  | addCommit r' args' hk hc hw hr' hm =>
    rcases hadd _ _ args' (by rfl) hr h with hold | rfl
    · exact .inl hold
    · exact .inr (.inl hk)
  | accept | addPrepare | enqueue | runTask | runTaskAndVote | answerTask => exact .inl (hupdate _ _ (by rfl) hr h)
  | _ => exact .inl ⟨hr, h⟩

theorem Move.enters (hm : Move env K s s') {view : ℤ} {v : List ViewChangeArgs} (h : .enterView view v ∈ s'.trace) :
    .enterView view v ∈ s.trace ∨ s.view < view := by
  cases hm with
  | enterView nv mins maxs pps henter =>
    rcases List.mem_cons.mp h with heq | h
    · obtain ⟨rfl, rfl⟩ := Event.enterView.inj heq
      exact .inr henter.1
    · exact .inl h
  | _ => exact .inl (by simpa using h)

end Inversion

namespace Server

/-- The views of a server are counted from 0 on. -/
structure InViews (s : Server A) : Prop where
  view : 0 ≤ s.view
  entered : ∀ view v, .enterView view v ∈ s.trace → 0 < view
  held : ∀ r pp, s.HoldsAt r pp → 0 ≤ pp.view ∧ pp.view ≤ s.view
  executed : ∀ view seq op auxiliary, .updateSeq view seq op auxiliary ∈ s.trace → 0 ≤ view ∧ view ≤ s.view

variable {env : Env A} {K : Server A → Msg → Prop} {s s' : Server A}

theorem InViews.new (env : Env A) (rid : ℤ) (f : ℕ) (initSeq : ℤ) (nodes : List ℤ) (as : A) :
    (Server.new env rid f initSeq nodes as).InViews where
  view := le_rfl
  entered view v h := by simp [Server.new] at h
  held r pp h := nomatch h.1
  executed view seq op auxiliary h := by simp [Server.new] at h

theorem InViews.move (h : s.InViews) (hs : s.WF) (hm : Move env K s s') : s'.InViews where
  view := h.view.trans hm.view_le
  entered view v hv := by
    rcases hm.enters hv with hv | hlt
    · exact h.entered view v hv
    · exact h.view.trans_lt hlt
  held r pp hpp := by
    have hle := hm.view_le
    rcases hm.holds hpp with hpp | ⟨-, hw, -⟩ | ⟨hview, -⟩
    · exact ⟨(h.held r pp hpp).1, (h.held r pp hpp).2.trans hle⟩
    · rw [← (inWindow_iff.mp hw).1]
      exact ⟨h.view, hle⟩
    · rw [hview]
      exact ⟨h.view, hle⟩
  executed view seq op auxiliary he := by
    have hle := hm.view_le
    rcases hm.executes hs he with he | ⟨r, pp, hpp, -, rfl, -⟩
    · exact ⟨(h.executed _ _ _ _ he).1, (h.executed _ _ _ _ he).2.trans hle⟩
    · exact ⟨(h.held r pp hpp).1, (h.held r pp hpp).2.trans hle⟩

/-- A preprepare message of view 0 that is new in an entry was accepted. -/
theorem InViews.holds (h : s.InViews) (hm : Move env K s s') {r : ℕ} {pp : PrePrepareArgs} (hpp : s'.HoldsAt r pp)
    (hview : pp.view = 0) : s.HoldsAt r pp ∨ (K s (.prePrepare pp) ∧ s.inWindow pp.view pp.seq = true ∧
      s.log.lookup ⟨pp.view, pp.seq⟩ = some r ∧ accepts (s.heap r) pp = true) := by
  rcases hm.holds hpp with hpp | hpp | ⟨heq, v, -, -, -, hv, -⟩
  · exact .inl hpp
  · exact .inr hpp
  · exact absurd (heq.symm.trans hview) (h.entered _ v hv).ne'

/-- What the server says in view 0: one digest for each number. -/
structure SaysOnce (s : Server A) : Prop where
  placed : s.view = 0 → ∃ key cp, s.SettledAt key cp ∧ key ≤ s.h ∧ ∀ r pp, s.HoldsAt r pp → pp.view = 0 →
    s.log.lookup ⟨0, pp.seq⟩ = some r ∨ pp.seq < key
  single : ∀ r r' pp pp', s.HoldsAt r pp → s.HoldsAt r' pp' → pp.view = 0 → pp'.view = 0 → pp.seq = pp'.seq →
    pp.digest = pp'.digest
  commits : ∀ args, s.Sent (.commit args) → ∃ r pp, s.HoldsAt r pp ∧ pp.view = args.view ∧ pp.seq = args.seq ∧
    pp.digest = args.digest
  executed : ∀ view seq op auxiliary, .updateSeq view seq op auxiliary ∈ s.trace → ∃ r pp, s.HoldsAt r pp ∧
    s.committed (s.heap r) = true ∧ pp.view = view ∧ pp.seq = seq ∧ pp.digest = auxiliary

theorem SaysOnce.new (env : Env A) (rid : ℤ) (f : ℕ) {initSeq : ℤ} (nodes : List ℤ) (as : A) (h : 0 ≤ initSeq) :
    (Server.new env rid f initSeq nodes as).SaysOnce where
  placed _ := by
    obtain ⟨cp, hcp⟩ := SettledAt.new env rid f nodes as h
    refine ⟨-1, cp, hcp, ?_, fun r pp hpp => nomatch hpp.1⟩
    change -1 ≤ initSeq
    omega
  single r r' pp pp' hpp := nomatch hpp.1
  commits args hargs := by simp [Server.new, Sent] at hargs
  executed view seq op auxiliary he := by simp [Server.new] at he

/-- What is held stays held, with its number and its digest. -/
theorem HoldsAt.move (hs : s.WF) (hm : Move env K s s') {r : ℕ} {pp : PrePrepareArgs} (h : s.HoldsAt r pp) :
    ∃ pp', s'.HoldsAt r pp' ∧ pp'.view = pp.view ∧ pp'.seq = pp.seq ∧ pp'.digest = pp.digest := by
  obtain ⟨hnext, hkeeps⟩ := hm.keeps hs
  obtain ⟨pp', hpp', heq⟩ := (hkeeps r h.1).pp pp h.2
  exact ⟨pp', ⟨h.1.trans_le hnext, hpp'⟩, heq⟩

/-- A digest that is accepted is the one that is held for the number already. -/
theorem SaysOnce.accepted (h : s.SaysOnce) {r r' : ℕ} {pp pp' : PrePrepareArgs} (hw : s.inWindow pp.view pp.seq = true)
    (hr : s.log.lookup ⟨pp.view, pp.seq⟩ = some r) (ha : accepts (s.heap r) pp = true) (hpp' : s.HoldsAt r' pp')
    (hview : pp.view = 0) (hview' : pp'.view = 0) (hseq : pp.seq = pp'.seq) : pp.digest = pp'.digest := by
  obtain ⟨hat, hle, -⟩ := inWindow_iff.mp hw
  obtain ⟨key, cp, -, hkey, hplaced⟩ := h.placed (hat.trans hview)
  rcases hplaced r' pp' hpp' hview' with hlookup | hlt
  · rw [hview, hseq, hlookup] at hr
    obtain rfl := Option.some.inj hr
    simp only [accepts, hpp'.2, decide_eq_true_eq] at ha
    exact ha.1.symm
  · omega

theorem SaysOnce.move (h : s.SaysOnce) (hv : s.InViews) (hs : s.WF) (hm : Move env K s s') : s'.SaysOnce where
  placed hview := by
    have hview0 : s.view = 0 := le_antisymm (hview ▸ hm.view_le) hv.view
    obtain ⟨key, cp, hset, hkey, hplaced⟩ := h.placed hview0
    obtain ⟨key', cp', hset', hforward⟩ := hset.move hm
    have hle := hforward.le
    refine ⟨key', cp', hset', ?_, fun r pp hpp hpp0 => ?_⟩
    · rcases hforward.bound with ⟨rfl, hh⟩ | hh
      · exact hkey.trans hh.ge
      · exact hh.ge
    · have hold : s.log.lookup ⟨0, pp.seq⟩ = some r ∨ pp.seq < key := by
        rcases hv.holds hm hpp hpp0 with hpp | ⟨-, -, hr, -⟩
        · exact hplaced r pp hpp hpp0
        · exact .inl (hpp0 ▸ hr)
      rcases hold with hlookup | hlt
      · rcases le_or_gt key' pp.seq with hge | hlt
        · exact .inl (hforward.log ⟨0, pp.seq⟩ r hge hlookup)
        · exact .inr hlt
      · exact .inr (hlt.trans_le hle)
  single r r' pp pp' hpp hpp' hview hview' hseq := by
    rcases hv.holds hm hpp hview with hold | ⟨-, hw, hr, ha⟩ <;>
      rcases hv.holds hm hpp' hview' with hold' | ⟨-, hw', hr', ha'⟩
    · exact h.single r r' pp pp' hold hold' hview hview' hseq
    · exact (h.accepted hw' hr' ha' hold hview' hview hseq.symm).symm
    · exact h.accepted hw hr ha hold' hview hview' hseq
    · rw [hview, hseq, ← hview', hr'] at hr
      obtain rfl := Option.some.inj hr
      rw [Option.some.inj (hpp.2.symm.trans hpp'.2)]
  commits args hargs := by
    have hstay : ∀ {r pp}, s.HoldsAt r pp → pp.view = args.view → pp.seq = args.seq → pp.digest = args.digest →
        ∃ r pp, s'.HoldsAt r pp ∧ pp.view = args.view ∧ pp.seq = args.seq ∧ pp.digest = args.digest := by
      intro r pp hpp h1 h2 h3
      obtain ⟨pp', hpp', h1', h2', h3'⟩ := hpp.move hs hm
      exact ⟨r, pp', hpp', h1'.trans h1, h2'.trans h2, h3'.trans h3⟩
    rcases hm.sent_commit hargs hs with hargs | ⟨r, pp, hpp, rfl⟩
    · obtain ⟨r, pp, hpp, h1, h2, h3⟩ := h.commits args hargs
      exact hstay hpp h1 h2 h3
    · exact hstay hpp rfl rfl rfl
  executed view seq op auxiliary he := by
    have hstay : ∀ {r pp}, s.HoldsAt r pp → s.committed (s.heap r) = true → pp.view = view → pp.seq = seq →
        pp.digest = auxiliary → ∃ r pp, s'.HoldsAt r pp ∧ s'.committed (s'.heap r) = true ∧ pp.view = view ∧
          pp.seq = seq ∧ pp.digest = auxiliary := by
      intro r pp hpp hcommitted h1 h2 h3
      obtain ⟨pp', hpp', h1', h2', h3'⟩ := hpp.move hs hm
      exact ⟨r, pp', hpp', committed_keeps ((hm.keeps hs).2 r hpp.1) hm.fixed.2.2 hcommitted,
        h1'.trans h1, h2'.trans h2,
        h3'.trans h3⟩
    rcases hm.executes hs he with he | ⟨r, pp, hpp, hcommitted, h1, h2, -, h3⟩
    · obtain ⟨r, pp, hpp, hcommitted, h1, h2, h3⟩ := h.executed view seq op auxiliary he
      exact hstay hpp hcommitted h1 h2 h3
    · exact hstay hpp hcommitted h1 h2 h3

end Server

end DistributedNotary.Pbft
