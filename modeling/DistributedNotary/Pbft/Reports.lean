import DistributedNotary.Pbft.Backing

/-! What the view changes of a server say of its commit messages. An entry that
the server has committed is marked, and only dropped with a checkpoint, so every
view change that it sends afterwards reports it. This is all that a new view has
to go by, unless the server goes on to commit in a view below the one that it
has announced. -/
namespace DistributedNotary.Pbft

open Library Relation Server

variable {A : Type}

/-- The view changes that the server has sent. -/
def Event.viewChange : Event → Option ViewChangeArgs
  | .send (.viewChange vc) => some vc
  | _ => none

def Server.viewChanges (s : Server A) : List ViewChangeArgs := s.trace.filterMap Event.viewChange

theorem Server.mem_viewChanges {s : Server A} {vc : ViewChangeArgs} : vc ∈ s.viewChanges ↔ s.Sent (.viewChange vc) := by
  unfold viewChanges Sent
  rw [List.mem_filterMap]
  refine ⟨?_, fun h => ⟨_, h, rfl⟩⟩
  rintro ⟨e, he, hvc⟩
  unfold Event.viewChange at hvc
  split at hvc
  · obtain rfl := Option.some.inj hvc
    exact he
  · nomatch hvc

/-- A server takes part in its view, where it is not changing views, only if it has not announced a later one. -/
def Action.StaysOut (w : World A) (a : Action) : Prop :=
  a.input.takesPart = true → (w.servers a.dst).changing = false →
    ∀ vc ∈ (w.servers a.dst).viewChanges, vc.view ≤ (w.servers a.dst).view

instance instDecidableStaysOut (w : World A) (a : Action) : Decidable (a.StaysOut w) := by
  unfold Action.StaysOut
  infer_instance

section Commits

variable {env : Env A} {K : Server A → Msg → Prop} {s s' : Server A}

/-- The entry of the commit message is in the log, and marked. -/
def Server.Marked (s : Server A) (c : CommitArgs) : Prop :=
  ∃ r pp, s.log.lookup ⟨c.view, c.seq⟩ = some r ∧ (s.heap r).pp = some pp ∧ pp.digest = c.digest ∧
    (s.heap r).sendCommit = true

theorem Move.marks_commit (hm : Move env K s s') {c : CommitArgs} (h : s'.Sent (.commit c)) :
    s.Sent (.commit c) ∨ s'.Marked c := by
  unfold Sent at h ⊢
  cases hm with
  | sendCommit r pp as hc hw hr hpp hsend hp has =>
    rcases List.mem_cons.mp h with heq | h
    · rw [Msg.commit.inj (Event.send.inj heq)]
      refine .inr ⟨r, pp, hr, ?_, rfl, ?_⟩
      · change (Function.update s.heap r _ r).pp = some pp
        rw [Function.update_self]
        exact hpp
      · change (Function.update s.heap r _ r).sendCommit = true
        rw [Function.update_self]
    · exact .inl h
  | _ => exact .inl (by simpa using h)

/-- What the server has committed is marked in its log, or covered by its stable checkpoint. -/
structure Server.CommitsKept (s : Server A) : Prop where
  kept : ∃ key cp, s.SettledAt key cp ∧ ∀ c, s.Sent (.commit c) → c.seq ≤ key ∨ s.Marked c

namespace Server.CommitsKept

theorem new (env : Env A) (rid : ℤ) (f : ℕ) {initSeq : ℤ} (nodes : List ℤ) (as : A) (h : 0 ≤ initSeq) :
    (Server.new env rid f initSeq nodes as).CommitsKept := by
  obtain ⟨cp, hcp⟩ := SettledAt.new env rid f nodes as h
  exact ⟨-1, cp, hcp, fun c hc => by simp [Server.new, Sent] at hc⟩

theorem move (h : s.CommitsKept) (hs : s.WF) (hm : Move env K s s') : s'.CommitsKept := by
  obtain ⟨key, cp, hsettled, hkept⟩ := h.kept
  obtain ⟨key', cp', hsettled', hforward⟩ := hsettled.move hm
  refine ⟨key', cp', hsettled', fun c hc => ?_⟩
  rcases hm.marks_commit hc with hold | hnew
  · rcases hkept c hold with hle | ⟨r, pp, hr, hpp, hdigest, hsend⟩
    · exact .inl (hle.trans hforward.le)
    · by_cases hlt : c.seq < key'
      · exact .inl hlt.le
      · have hkeeps := (hm.keeps hs).2 r (hs.refs _ r hr).1
        obtain ⟨pp', hpp', -, -, hsame⟩ := hkeeps.pp pp hpp
        exact .inr ⟨r, pp', hforward.log _ r (not_lt.mp hlt) hr, hpp', hsame.trans hdigest, hkeeps.commit hsend⟩
  · exact .inr hnew

theorem external (h : s.CommitsKept) (as : A) : ({ s with as := as } : Server A).CommitsKept := by
  obtain ⟨key, cp, hsettled, hkept⟩ := h.kept
  exact ⟨key, cp, hsettled.frame rfl le_rfl rfl rfl, hkept⟩

end Server.CommitsKept

/-- The view change leaves the number of the commit message to its checkpoint, or says what was committed. -/
def ViewChangeArgs.Covers (vc : ViewChangeArgs) (c : CommitArgs) : Prop :=
  (∃ cp, vc.cp = some cp ∧ c.seq ≤ cp.seq) ∨
    ∃ pm ∈ vc.p, ∃ pp, pm.pp = some pp ∧ pp.view = c.view ∧ pp.seq = c.seq ∧ pp.digest = c.digest

/-- A view change covers what the server has committed before. -/
theorem Server.CommitsKept.covers (h : s.CommitsKept) (hs : s.WF) {orders : Orders} {cp : CheckPoint}
    (hcp : s.getStableCheckPoint orders.cps = some cp) {c : CommitArgs} (hc : s.Sent (.commit c)) :
    (s.generateViewChange orders.log cp).Covers c := by
  obtain ⟨key, stable, hsettled, hkept⟩ := h.kept
  obtain rfl := hsettled.of_getStableCheckPoint hcp
  by_cases hle : c.seq ≤ key
  · exact .inl ⟨_, rfl, hle.trans_eq hsettled.seq.symm⟩
  · obtain ⟨r, pp, hr, hpp, hdigest, hsend⟩ := (hkept c hc).resolve_left hle
    obtain ⟨hlt, hid⟩ := hs.refs _ r hr
    have hpid := hs.pps r pp hlt hpp
    rw [hid, EntryID.mk.injEq] at hpid
    refine .inr ⟨{ pp := some pp, p := (s.heap r).p }, ?_, pp, rfl, hpid.1.symm, hpid.2.symm, hdigest⟩
    refine List.mem_filterMap.mpr ⟨(⟨c.view, c.seq⟩, r), RangeMap.mem_range.mpr hr, ?_⟩
    have hin : cp.seq < c.seq ∧ (s.heap r).pp.isSome = true ∧
        ((s.heap r).sendCommit = true ∨ s.prepared (s.heap r) = true) := by
      rw [hsettled.seq, hpp]
      exact ⟨not_le.mp hle, rfl, .inl hsend⟩
    simp only [hin, hpp]
    rfl

end Commits

/-- The view changes of the server cover what it commits in earlier views, whenever that is. -/
def Server.Reported (s : Server A) : Prop :=
  ∀ vc c, s.Sent (.viewChange vc) → s.Sent (.commit c) → c.view < vc.view → vc.Covers c

section Reached

variable {env : Env A} {n f : ℕ} {initSeq : ℤ → ℕ} {as : ℤ → A} {ext : A → A → Prop} {byz : Finset ℤ}
  {ok : World A → Orders → Action → Prop} {w : World A}

theorem World.Reached.commitsKept (h : World.Reached env byz n f initSeq as ok ext w) (i : ℤ) :
    (w.servers i).CommitsKept :=
  h.forall_servers Server.CommitsKept (fun i => .new env i f (ids n) (as i) (Int.natCast_nonneg _))
    (fun _ _ hs hk hm => hk.move hs hm) (fun _ as hk => hk.external as) i

/-- In one reaction a server does not both announce a view and commit. -/
theorem Server.Reported.react {s : Server A} (hs : s.WF) (hkept : s.CommitsKept) {orders : Orders} {a : Input}
    (hstays : a.takesPart = true → s.changing = false → ∀ vc ∈ s.viewChanges, vc.view ≤ s.view)
    (h : s.Reported) {vc : ViewChangeArgs} {c : CommitArgs} (hvc : (after (s.react env orders a)).Sent (.viewChange vc))
    (hc : (after (s.react env orders a)).Sent (.commit c)) (hlt : c.view < vc.view) : vc.Covers c := by
  rcases (binds_react hs a).of_mem _ rfl hvc with hvcold | hvcnew
  · rcases (binds_react hs a).of_mem _ rfl hc with hcold | hcnew
    · exact h vc c hvcold hcold hlt
    · cases hcnew with
      | commits _ ha hchanging hview =>
        have hle := hstays ha hchanging vc (mem_viewChanges.mpr hvcold)
        omega
  · cases hvcnew with
    | changes _ ha hvc =>
      subst ha
      obtain ⟨cp, hcp, rfl⟩ := Option.map_eq_some_iff.mp hvc
      rcases (binds_react hs Input.timer).of_mem _ rfl hc with hcold | hcnew
      · exact hkept.covers hs hcp hcold
      · cases hcnew with
        | commits _ ha' => exact nomatch ha'

/-- The view changes of server `i` cover its commits when it stays out; what the others do does not matter. -/
theorem World.Reached.reported (h : World.Reached env byz n f initSeq as ok ext w) (i : ℤ)
    (hok : ∀ w orders a, ok w orders a → a.dst = i → a.StaysOut w) : (w.servers i).Reported := by
  refine (h.invariant_of_puts (fun w => (w.servers i).Reported) ?_ ?_ ?_).2
  · intro vc c hvc
    simp [World.new, Server.new, Sent] at hvc
  · intro w orders a hreached _ _ hconf _ hinv hallowed _ vc c hvc hc hlt
    rw [World.servers_put] at hvc hc
    rcases eq_or_ne i a.dst with rfl | hne
    · rw [Function.update_self] at hvc hc
      have hstays : a.StaysOut w := hok w orders a hallowed rfl
      exact Server.Reported.react (hconf a.dst).wf (hreached.commitsKept a.dst) hstays hinv hvc hc hlt
    · rw [Function.update_of_ne hne] at hvc hc
      exact hinv vc c hvc hc hlt
  · intro w j as hinv _ vc c hvc hc hlt
    have htrace := trace_external_subset w.servers j as i
    exact hinv vc c (htrace hvc) (htrace hc) hlt

/-- In every run, with any malicious notaries, a view change of a server that runs the protocol reports everything that
the server commits below its view, before or after, or leaves it to its checkpoint; unless the server takes part in a
view again after it has announced a later one. -/
theorem changes_cover_commits {i : ℤ}
    (h : World.Reached env byz n f initSeq as (fun w _ a => a.dst = i → a.StaysOut w) ext w) {vc : ViewChangeArgs}
    {c : CommitArgs} (hvc : (w.servers i).Sent (.viewChange vc)) (hc : (w.servers i).Sent (.commit c))
    (hlt : c.view < vc.view) : vc.Covers c :=
  h.reported i (fun _ _ _ hok => hok) vc c hvc hc hlt

end Reached

/-- Server 0 commits `a` in view 0 and reports it for view 2. -/
theorem changes_cover_commits_four :
    ∃ w : World Unit, (w.servers 0).Sent (.viewChange (changeTo2 0 0 [0, 1, 2] 0)) ∧
      (w.servers 0).Sent (.commit (plainCommit 0 0 "a" 0)) ∧
        (changeTo2 0 0 [0, 1, 2] 0).Covers (plainCommit 0 0 "a" 0) := by
  have hrun : ((World.new Env.plain 4 1 (fun _ => 0) fun _ => ()).plays Env.plain ∅
      (fun w _ a => a.dst = 0 → a.StaysOut w) (prepareFirst ++ prepareAgain ++ executeBoth)).map (fun w =>
        decide ((w.servers 0).Sent (.viewChange (changeTo2 0 0 [0, 1, 2] 0)) ∧
          (w.servers 0).Sent (.commit (plainCommit 0 0 "a" 0)))) = some true := by
    decide +kernel
  obtain ⟨w, hw, hmem⟩ := Option.map_eq_some_iff.mp hrun
  obtain ⟨hvc, hc⟩ := of_decide_eq_true hmem
  have hreached : World.Reached Env.plain ∅ 4 1 (fun _ => 0) (fun _ => ())
      (fun w _ a => a.dst = 0 → a.StaysOut w) Eq w :=
    World.reached_plays (.init rfl) hw
  exact ⟨w, hvc, hc, changes_cover_commits hreached hvc hc (by decide)⟩

end DistributedNotary.Pbft
