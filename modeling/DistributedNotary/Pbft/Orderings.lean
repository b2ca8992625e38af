import DistributedNotary.Pbft.Openings

/-! Which operation a number of a view stands for, where no notary is malicious.
A view starts with the operations of its new view message, and its leader gives
the numbers after these, one after the other. Whatever servers keep, propose or
execute has been given so, and a number is given once. -/
namespace DistributedNotary.Pbft

open Library Relation Server

variable {A : Type}

section Inversion

variable {env : Env A} {K : Server A → Msg → Prop} {s s' : Server A}

theorem Move.sent_newView (hm : Move env K s s') {nv : NewViewArgs} (h : s'.Sent (.newView nv)) :
    s.Sent (.newView nv) ∨ (s.view < nv.view ∧ s'.view = s.view ∧ s'.trace = .send (.newView nv) :: s.trace) := by
  unfold Sent at h ⊢
  cases hm with
  | sendNewView nv' mins maxs hv hl hlen hvcs hnv =>
    rcases List.mem_cons.mp h with heq | h
    · obtain rfl := Msg.newView.inj (Event.send.inj heq)
      exact .inr ⟨hv, rfl, rfl⟩
    · exact .inl h
  | _ => exact .inl (by simpa using h)

theorem Move.entered (hm : Move env K s s') {view : ℤ} {v : List ViewChangeArgs} (h : .enterView view v ∈ s'.trace) :
    .enterView view v ∈ s.trace ∨
      ∃ nv mins maxs pps, MayEnter K s nv mins maxs pps ∧ nv.view = view ∧ nv.v = v ∧ s'.view = view := by
  cases hm with
  | enterView nv mins maxs pps henter =>
    rcases List.mem_cons.mp h with heq | h
    · obtain ⟨rfl, rfl⟩ := Event.enterView.inj heq
      exact .inr ⟨nv, mins, maxs, pps, henter, rfl, rfl, rfl⟩
    · exact .inl h
  | _ => exact .inl (by simpa using h)

/-- The view is raised by a new view message, which gives the next number, or taken over with a checkpoint. -/
theorem Move.raises (hm : Move env K s s') : s'.view = s.view ∨
    (∃ nv mins maxs pps, MayEnter K s nv mins maxs pps ∧ s'.view = nv.view ∧ s'.tSeq = maxs + 1 ∧
      .enterView nv.view nv.v ∈ s'.trace) ∨
      (s.view < s'.view ∧ .adoptView s'.view ∈ s'.trace) := by
  cases hm with
  | enterView nv mins maxs pps henter =>
      exact .inr (.inl ⟨nv, mins, maxs, pps, henter, rfl, rfl, List.mem_cons_self ..⟩)
  | stabilizeAndResume n cp proof hdiv hcp hs hq hv => exact .inr (.inr ⟨hv, List.mem_cons_self ..⟩)
  | _ => exact .inl rfl

end Inversion

section Servers

variable (n : ℕ) (servers : ℤ → Server A)

/-- The operation has been given its number by the leader, or with the new view. -/
def Issued (a : Assignment) : Prop :=
  (∃ i pp, (servers i).Sent (.prePrepare pp) ∧ pp.assignment = a) ∨
    ∃ nv, Declared servers nv ∧ ∃ pp ∈ nv.o, pp.assignment = a

/-- The view has been announced, unless it is the first one. -/
def Started (view : ℤ) : Prop := view = 0 ∨ ∃ nv, Declared servers nv ∧ nv.view = view

/-- Every operation that a server goes by has been given, and every number of a view is given once. The leader that
is in its view gives the numbers after all others of the view. -/
structure Ordered : Prop where
  entered : ∀ i view v, .enterView view v ∈ (servers i).trace → ∃ nv, Declared servers nv ∧ nv.view = view ∧ nv.v = v
  positive : ∀ nv, Declared servers nv → 0 < nv.view
  held : ∀ i, ∀ a ∈ (servers i).assignments, Issued servers a
  begun : ∀ a, Issued servers a → 0 < a.view → ∃ nv, Declared servers nv ∧ nv.view = a.view ∧
    ((∃ pp ∈ nv.o, pp.assignment = a) ∨ (a.view ≤ (servers (a.view.tmod n)).view ∧
      ∀ mins maxs pps, newViewOf nv.view nv.v = some (mins, maxs, pps) → maxs < a.seq))
  once : ∀ a a', Issued servers a → Issued servers a' → a.view = a'.view → a.seq = a'.seq → a = a'
  given : ∀ a, Issued servers a → (servers (a.view.tmod n)).view = a.view → a.seq < (servers (a.view.tmod n)).tSeq
  leader : ∀ nv, Declared servers nv → (servers (nv.view.tmod n)).view = nv.view →
    ∀ mins maxs pps, newViewOf nv.view nv.v = some (mins, maxs, pps) → maxs < (servers (nv.view.tmod n)).tSeq

variable {n servers} {env : Env A} {C : (ℤ → Server A) → ℤ → Msg → Prop} {f : ℕ} {i : ℤ} {s' : Server A}
  {servers' : ℤ → Server A}

theorem Issued.mono (ht : ∀ j, (servers j).trace ⊆ (servers' j).trace) {a : Assignment} (h : Issued servers a) :
    Issued servers' a :=
  h.imp (fun ⟨i, pp, hpp, heq⟩ => ⟨i, pp, ht i hpp, heq⟩) fun ⟨nv, hnv, hmem⟩ => ⟨nv, hnv.mono ht, hmem⟩

/-- Without malicious notaries a server takes only into account what servers have sent, and requests. -/
theorem sent_of_takes (hi : i ∈ ids n) {msg : Msg} (ht : Takes n ∅ servers C i msg) :
    msg.isRequest = true ∨ ∃ j ∈ ids n, (servers j).Sent msg := by
  rcases ht with ⟨-, hs⟩ | ⟨⟨j, hj, hs, -⟩ | ⟨j, hj, -⟩ | hr, -⟩
  · exact .inr ⟨i, hi, hs⟩
  · exact .inr ⟨j, hj.1, hs⟩
  · exact absurd hj (Finset.notMem_empty j)
  · exact .inl hr

/-- A view is entered when it has been announced. -/
theorem declared_of_mayEnter (hi : i ∈ ids n) {nv : NewViewArgs} {mins maxs : ℤ} {pps : List PrePrepareArgs}
    (h : MayEnter (fun _ => Takes n ∅ servers C i) (servers i) nv mins maxs pps) : Declared servers nv := by
  rcases h.2.2 with ⟨-, -, -, hsent⟩ | ⟨hk, -⟩
  · exact ⟨i, hsent⟩
  · rcases sent_of_takes hi hk with hr | ⟨j, -, hsent⟩
    · exact nomatch hr
    · exact ⟨j, hsent⟩

/-- The messages of a new view have its number, and a number each. -/
theorem Openings.of_mem (h : Openings n servers) {nv : NewViewArgs} (hnv : Declared servers nv) {mins maxs : ℤ}
    {pps : List PrePrepareArgs} (hmade : newViewOf nv.view nv.v = some (mins, maxs, pps)) :
    pps = nv.o ∧ (nv.o.map PrePrepareArgs.seq).Nodup ∧ ∀ pp ∈ nv.o, pp.view = nv.view ∧ pp.seq ≤ maxs := by
  obtain ⟨i, hsent⟩ := hnv
  obtain ⟨mins', maxs', ho⟩ := h.made i nv hsent
  rw [hmade, Option.some.injEq, Prod.mk.injEq, Prod.mk.injEq] at ho
  obtain ⟨-, -, rfl⟩ := ho
  obtain ⟨r, -, heq⟩ := Option.map_eq_some_iff.mp hmade
  simp only [Prod.mk.injEq] at heq
  obtain ⟨-, rfl, ho⟩ := heq
  rw [← ho]
  refine ⟨rfl, nodup_seq_calcPPS .., fun pp hpp => ?_⟩
  obtain ⟨hview, -, hle⟩ := of_mem_calcPPS hpp
  exact ⟨hview, hle⟩

theorem Openings.view_of_mem (h : Openings n servers) {nv : NewViewArgs} (hnv : Declared servers nv)
    {pp : PrePrepareArgs}
    (hpp : pp ∈ nv.o) : pp.view = nv.view := by
  obtain ⟨i, hsent⟩ := hnv
  obtain ⟨mins, maxs, ho⟩ := h.made i nv hsent
  exact ((h.of_mem ⟨i, hsent⟩ ho).2.2 pp hpp).1

/-- How an operation is given by a move of server `i`: it has been, the leader gives its next number, or the view is
announced. -/
inductive Issues (servers : ℤ → Server A) (i : ℤ) (s' : Server A) (a : Assignment) : Prop
  | before (h : Issued servers a)
  | proposes (pp : PrePrepareArgs) (hpp : pp.assignment = a) (hview : a.view = (servers i).view)
    (hseq : a.seq = (servers i).tSeq) (hsame : s'.view = (servers i).view) (hnext : s'.tSeq = (servers i).tSeq + 1)
    (hl : (servers i).isLeader = true) (ht : s'.trace = .send (.prePrepare pp) :: (servers i).trace)
  | opens (nv : NewViewArgs) (pp : PrePrepareArgs) (hmem : pp ∈ nv.o) (hpp : pp.assignment = a)
    (hlt : (servers i).view < nv.view) (hsame : s'.view = (servers i).view)
    (ht : s'.trace = .send (.newView nv) :: (servers i).trace)

theorem Ordered.issues (h : Ordered n servers) (hs : (servers i).WF)
    (hm : Move env (fun _ => Takes n ∅ servers C i) (servers i) s') {a : Assignment}
    (ha : Issued (Function.update servers i s') a) : Issues servers i s' a := by
  rcases ha with ⟨j, pp, hpp, rfl⟩ | ⟨nv, ⟨j, hnv⟩, pp, hpp, rfl⟩
  · rcases eq_or_ne j i with rfl | hne
    · rw [Function.update_self] at hpp
      rcases hm.proposes hs hpp with hpp | ⟨r, hpp⟩ | ⟨hview, hseq, hnext, hsame, hl, ht⟩
      · exact .before (.inl ⟨j, pp, hpp, rfl⟩)
      · exact .before (h.held j _ (mem_assignments.mpr (.inl ⟨r, pp, hpp, rfl⟩)))
      · exact .proposes pp rfl hview hseq hsame hnext hl ht
    · rw [Function.update_of_ne hne] at hpp
      exact .before (.inl ⟨j, pp, hpp, rfl⟩)
  · rcases eq_or_ne j i with rfl | hne
    · rw [Function.update_self] at hnv
      rcases hm.sent_newView hnv with hnv | ⟨hlt, hsame, ht⟩
      · exact .before (.inr ⟨nv, ⟨j, hnv⟩, pp, hpp, rfl⟩)
      · exact .opens nv pp hpp rfl hlt hsame ht
    · rw [Function.update_of_ne hne] at hnv
      exact .before (.inr ⟨nv, ⟨j, hnv⟩, pp, hpp, rfl⟩)

/-- A move of server `i`, after which the views are still announced once each. -/
structure OrderlyMove (env : Env A) (C : (ℤ → Server A) → ℤ → Msg → Prop) (n f : ℕ) (servers : ℤ → Server A) (i : ℤ)
    (s' : Server A) : Prop where
  before : Ordered n servers
  openings : Openings n (Function.update servers i s')
  member : i ∈ ids n
  configured : Configured n f i (servers i)
  inViews : (servers i).InViews
  started : Started servers (servers i).view
  move : Move env (fun _ => Takes n ∅ servers C i) (servers i) s'

namespace OrderlyMove

variable (h : OrderlyMove env C n f servers i s')

include h

theorem traces (j : ℤ) : (servers j).trace ⊆ (Function.update servers i s' j).trace :=
  trace_subset_update h.move.trace_suffix j

theorem openingsBefore : Openings n servers := h.openings.before h.traces

theorem issues {a : Assignment} (ha : Issued (Function.update servers i s') a) : Issues servers i s' a :=
  h.before.issues h.configured.wf h.move ha

theorem unique {nv nv' : NewViewArgs} (hnv : Declared servers nv) (hnv' : Declared (Function.update servers i s') nv')
    (hview : nv.view = nv'.view) : nv = nv' := h.openings.eq_of_view (hnv.mono h.traces) hnv' hview

theorem view_le (j : ℤ) : (servers j).view ≤ (Function.update servers i s' j).view := by
  rcases eq_or_ne j i with rfl | hne
  · rw [Function.update_self]
    exact h.move.view_le
  · rw [Function.update_of_ne hne]

/-- The leader that proposes is `i`. -/
theorem proposer (hl : (servers i).isLeader = true) : (servers i).view.tmod n = i := by
  rw [isLeader, decide_eq_true_eq, h.configured.id, h.configured.replicas, length_ids] at hl
  exact hl

/-- So is the leader that announces a view. -/
theorem announces {nv : NewViewArgs} (hsent : s'.trace = .send (.newView nv) :: (servers i).trace) :
    Declared (Function.update servers i s') nv ∧ nv.view.tmod n = i := by
  have hsent' : (Function.update servers i s' i).Sent (.newView nv) := by
    rw [Function.update_self, Sent, hsent]
    exact List.mem_cons_self ..
  exact ⟨⟨i, hsent'⟩, h.openings.leader i nv hsent'⟩

theorem view_of_opens {nv : NewViewArgs} {pp : PrePrepareArgs} (hmem : pp ∈ nv.o)
    (hsent : s'.trace = .send (.newView nv) :: (servers i).trace) : pp.view = nv.view :=
  h.openings.view_of_mem (h.announces hsent).1 hmem

/-- A leader that gets into its view gets there with its new view message. -/
theorem raises {nv : NewViewArgs} (hnv : Declared (Function.update servers i s') nv) (hl : nv.view.tmod n = i)
    (hview : s'.view = nv.view) : s'.view = (servers i).view ∨ (Declared servers nv ∧
      ∀ mins maxs pps, newViewOf nv.view nv.v = some (mins, maxs, pps) → s'.tSeq = maxs + 1) := by
  rcases h.move.raises with hsame | ⟨nv', mins, maxs, pps, he, hview', hnext, -⟩ | ⟨-, hadopt⟩
  · exact .inl hsame
  · have hdecl := declared_of_mayEnter h.member he
    obtain rfl := h.unique hdecl hnv (hview'.symm.trans hview)
    refine .inr ⟨hdecl, fun mins' maxs' pps' hmade => ?_⟩
    have heq := he.2.1.symm.trans hmade
    rw [Option.some.injEq, Prod.mk.injEq, Prod.mk.injEq] at heq
    rw [hnext, heq.2.1]
  · have hsent := h.openings.sent hnv
    rw [hl] at hsent
    refine absurd ?_ (h.openings.apart i nv hsent)
    rw [Function.update_self, ← hview]
    exact hadopt

theorem positive {nv : NewViewArgs} (hnv : Declared (Function.update servers i s') nv) : 0 < nv.view := by
  obtain ⟨j, hnv⟩ := hnv
  rcases eq_or_ne j i with rfl | hne
  · rw [Function.update_self] at hnv
    rcases h.move.sent_newView hnv with hnv | ⟨hlt, -⟩
    · exact h.before.positive nv ⟨j, hnv⟩
    · exact h.inViews.view.trans_lt hlt
  · rw [Function.update_of_ne hne] at hnv
    exact h.before.positive nv ⟨j, hnv⟩

theorem entered {j view : ℤ} {v : List ViewChangeArgs}
    (hev : .enterView view v ∈ (Function.update servers i s' j).trace) :
    ∃ nv, Declared (Function.update servers i s') nv ∧ nv.view = view ∧ nv.v = v := by
  rcases eq_or_ne j i with rfl | hne
  · rw [Function.update_self] at hev
    rcases h.move.entered hev with hev | ⟨nv, mins, maxs, pps, he, rfl, rfl, -⟩
    · obtain ⟨nv, hnv, heq⟩ := h.before.entered j view v hev
      exact ⟨nv, hnv.mono h.traces, heq⟩
    · exact ⟨nv, (declared_of_mayEnter h.member he).mono h.traces, rfl, rfl⟩
  · rw [Function.update_of_ne hne] at hev
    obtain ⟨nv, hnv, heq⟩ := h.before.entered j view v hev
    exact ⟨nv, hnv.mono h.traces, heq⟩

theorem held {j : ℤ} {a : Assignment} (ha : a ∈ (Function.update servers i s' j).assignments) :
    Issued (Function.update servers i s') a := by
  rcases eq_or_ne j i with rfl | hne
  · rw [Function.update_self] at ha
    rcases h.move.assigned h.configured.wf ha with ha | ⟨pp, hk, rfl⟩ |
        ⟨-, v, mins, maxs, pps, he, hnv, pp, hmem, rfl⟩ | ⟨-, -, -, -, -, pp, rfl, hsent⟩
    · exact (h.before.held j a ha).mono h.traces
    · rcases sent_of_takes h.member hk with hr | ⟨k, -, hsent⟩
      · exact absurd hr Bool.false_ne_true
      · exact .inl ⟨k, pp, h.traces k hsent, rfl⟩
    · obtain ⟨nv, hdecl, hview, rfl⟩ := h.before.entered j _ v he
      rw [← hview] at hnv
      obtain ⟨rfl, -⟩ := h.openingsBefore.of_mem hdecl hnv
      exact .inr ⟨nv, hdecl.mono h.traces, pp, hmem, rfl⟩
    · refine .inl ⟨j, pp, ?_, rfl⟩
      rw [Function.update_self, Sent, hsent]
      exact List.mem_cons_self ..
  · rw [Function.update_of_ne hne] at ha
    exact (h.before.held j a ha).mono h.traces

theorem begun {a : Assignment} (ha : Issued (Function.update servers i s') a) (hpos : 0 < a.view) :
    ∃ nv, Declared (Function.update servers i s') nv ∧ nv.view = a.view ∧
      ((∃ pp ∈ nv.o, pp.assignment = a) ∨ (a.view ≤ (Function.update servers i s' (a.view.tmod n)).view ∧
        ∀ mins maxs pps, newViewOf nv.view nv.v = some (mins, maxs, pps) → maxs < a.seq)) := by
  rcases h.issues ha with hold | ⟨pp, rfl, hview, hseq, hsame, hnext, hl, hsent⟩ |
      ⟨nv, pp, hmem, rfl, hlt, hsame, hsent⟩
  · obtain ⟨nv, hnv, hview, hcase⟩ := h.before.begun a hold hpos
    exact ⟨nv, hnv.mono h.traces, hview, hcase.imp_right (And.imp_left fun hle => hle.trans (h.view_le _))⟩
  · rcases h.started with hzero | ⟨nv, hnv, hnview⟩
    · exact absurd (hview.trans hzero) hpos.ne'
    · refine ⟨nv, hnv.mono h.traces, hnview.trans hview.symm, .inr ⟨?_, fun mins maxs pps hmade => ?_⟩⟩
      · rw [hview, h.proposer hl, Function.update_self, hsame]
      · rw [hseq]
        have hlead := h.before.leader nv hnv
        rw [hnview, h.proposer hl] at hlead
        exact hlead rfl mins maxs pps (hnview ▸ hmade)
  · exact ⟨nv, (h.announces hsent).1, (h.view_of_opens hmem hsent).symm, .inl ⟨pp, hmem, rfl⟩⟩

/-- An operation of a view that is announced just now is not known before. -/
theorem issued_of_opens {a a' : Assignment} (hold : Issued servers a) (hsame : a.view = a'.view) {nv : NewViewArgs}
    {pp : PrePrepareArgs} (hmem : pp ∈ nv.o) (hpp : pp.assignment = a')
    (hsent : s'.trace = .send (.newView nv) :: (servers i).trace) : Issued servers a' := by
  have hnv := (h.announces hsent).1
  have hat : a'.view = nv.view := hpp ▸ h.view_of_opens hmem hsent
  have hpos : 0 < a.view := hsame.trans hat ▸ h.positive hnv
  obtain ⟨nv', hnv', hview', -⟩ := h.before.begun a hold hpos
  obtain rfl := h.unique hnv' hnv (hview'.trans (hsame.trans hat))
  exact .inr ⟨nv', hnv', pp, hmem, hpp⟩

/-- The leader gives a number after all that have been given. -/
theorem lt_of_proposes {a a' : Assignment} (hold : Issued servers a) (hsame : a.view = a'.view)
    (hview : a'.view = (servers i).view) (hseq : a'.seq = (servers i).tSeq) (hl : (servers i).isLeader = true) :
    a.seq < a'.seq := by
  have hgiven := h.before.given a hold
  rw [hsame, hview, h.proposer hl] at hgiven
  exact hseq ▸ hgiven rfl

theorem once {a a' : Assignment} (ha : Issued (Function.update servers i s') a)
    (ha' : Issued (Function.update servers i s') a') (hview : a.view = a'.view) (hseq : a.seq = a'.seq) : a = a' := by
  rcases h.issues ha with hold | ⟨pp, hpp, hv₁, hs₁, -, -, hl, hsent⟩ | ⟨nv, pp, hmem, hpp, hlt, -, hsent⟩ <;>
    rcases h.issues ha' with hold' | ⟨pp', hpp', hv₂, hs₂, -, -, hl', hsent'⟩ |
      ⟨nv', pp', hmem', hpp', hlt', -, hsent'⟩
  · exact h.before.once a a' hold hold' hview hseq
  · exact absurd hseq (h.lt_of_proposes hold hview hv₂ hs₂ hl').ne
  · exact h.before.once a a' hold (h.issued_of_opens hold hview hmem' hpp' hsent') hview hseq
  · exact absurd hseq.symm (h.lt_of_proposes hold' hview.symm hv₁ hs₁ hl).ne
  · have heq := hsent.symm.trans hsent'
    rw [← hpp, ← hpp', Msg.prePrepare.inj (Event.send.inj (List.cons.inj heq).1)]
  · have heq := hsent.symm.trans hsent'
    cases Event.send.inj (List.cons.inj heq).1
  · exact h.before.once a a' (h.issued_of_opens hold' hview.symm hmem hpp hsent) hold' hview hseq
  · have heq := hsent.symm.trans hsent'
    cases Event.send.inj (List.cons.inj heq).1
  · obtain rfl := Msg.newView.inj (Event.send.inj (List.cons.inj (hsent.symm.trans hsent')).1)
    obtain ⟨j, hj⟩ := (h.announces hsent).1
    obtain ⟨mins, maxs, hmade⟩ := h.openings.made j nv hj
    have hnodup := (h.openings.of_mem ⟨j, hj⟩ hmade).2.1
    subst hpp hpp'
    rw [List.inj_on_of_nodup_map hnodup hmem hmem' hseq]

/-- The operations of the leader's view are numbered below its next number: either it was in its view, or it has got
there with the numbers of its new view message. -/
theorem given_at_leader {a : Assignment} (ha : Issued (Function.update servers i s') a) (hl : a.view.tmod n = i)
    (hin : s'.view = a.view) : a.seq < s'.tSeq := by
  rcases h.issues ha with hold | ⟨pp, -, -, hseq, -, hnext, -, -⟩ | ⟨nv, pp, hmem, rfl, hlt, hsame, hsent⟩
  · rcases eq_or_ne s'.view (servers i).view with hsame | hraised
    · have hgiven := h.before.given a hold
      rw [hl] at hgiven
      exact (hgiven (hsame.symm.trans hin)).trans_le (h.move.tSeq_le hsame)
    · -- the view of the operation has been announced with it, as its leader was not there yet
      have hlt : (servers i).view < a.view := hin ▸ lt_of_le_of_ne h.move.view_le hraised.symm
      obtain ⟨nv, hnv, hview, hcase⟩ := h.before.begun a hold (h.inViews.view.trans_lt hlt)
      obtain ⟨mins, maxs, hmade⟩ := h.openingsBefore.made _ nv (h.openingsBefore.sent hnv)
      have hafter := (h.raises (hnv.mono h.traces) (hview ▸ hl) (hin.trans hview.symm)).resolve_left hraised
      rw [hafter.2 mins maxs nv.o hmade]
      rcases hcase with ⟨pp, hmem, rfl⟩ | ⟨hle, -⟩
      · exact Int.lt_add_one_of_le ((h.openingsBefore.of_mem hnv hmade).2.2 pp hmem).2
      · rw [hl] at hle
        exact absurd hle (not_le.mpr hlt)
  · rw [hseq, hnext]
    exact Int.lt_succ _
  · have hview : pp.assignment.view = nv.view := h.view_of_opens hmem hsent
    exact absurd (hsame.symm.trans (hin.trans hview)) hlt.ne

theorem given {a : Assignment} (ha : Issued (Function.update servers i s') a)
    (hin : (Function.update servers i s' (a.view.tmod n)).view = a.view) :
    a.seq < (Function.update servers i s' (a.view.tmod n)).tSeq := by
  by_cases hl : a.view.tmod n = i
  · rw [hl, Function.update_self] at hin ⊢
    exact h.given_at_leader ha hl hin
  · rw [Function.update_of_ne hl] at hin ⊢
    rcases h.issues ha with hold | ⟨pp, -, hview, -, -, -, hlead, -⟩ | ⟨nv, pp, hmem, rfl, hlt, hsame, hsent⟩
    · exact h.before.given a hold hin
    · exact absurd (hview ▸ h.proposer hlead) hl
    · have hview : pp.assignment.view = nv.view := h.view_of_opens hmem hsent
      exact absurd (hview ▸ (h.announces hsent).2) hl

theorem leader {nv : NewViewArgs} (hnv : Declared (Function.update servers i s') nv)
    (hin : (Function.update servers i s' (nv.view.tmod n)).view = nv.view) {mins maxs : ℤ} {pps : List PrePrepareArgs}
    (hmade : newViewOf nv.view nv.v = some (mins, maxs, pps)) :
    maxs < (Function.update servers i s' (nv.view.tmod n)).tSeq := by
  have hsent := h.openings.sent hnv
  by_cases hl : nv.view.tmod n = i
  · rw [hl, Function.update_self] at hin hsent ⊢
    rcases h.raises hnv hl hin with hsame | ⟨-, hafter⟩
    · rcases h.move.sent_newView hsent with hold | ⟨hlt, -⟩
      · have hlead := h.before.leader nv ⟨i, hold⟩
        rw [hl] at hlead
        exact (hlead (hsame.symm.trans hin) mins maxs pps hmade).trans_le (h.move.tSeq_le hsame)
      · exact absurd (hsame.symm.trans hin) hlt.ne
    · rw [hafter mins maxs pps hmade]
      exact Int.lt_succ _
  · rw [Function.update_of_ne hl] at hin hsent ⊢
    exact h.before.leader nv ⟨_, hsent⟩ hin mins maxs pps hmade

end OrderlyMove

/-- What is known of the numbers is still known after the move. -/
theorem OrderlyMove.ordered (h : OrderlyMove env C n f servers i s') : Ordered n (Function.update servers i s') where
  entered _ _ _ hev := h.entered hev
  positive _ hnv := h.positive hnv
  held _ _ ha := h.held ha
  begun _ ha hpos := h.begun ha hpos
  once _ _ ha ha' hview hseq := h.once ha ha' hview hseq
  given _ ha hin := h.given ha hin
  leader _ hnv hin _ _ _ hmade := h.leader hnv hin hmade

/-- The leader of a view that has been announced is a replica. -/
theorem Openings.of_sent (ho : Openings n servers) (h : Ordered n servers) (hn : 0 < n) {i : ℤ} {nv : NewViewArgs}
    (hnv : (servers i).Sent (.newView nv)) : i ∈ ids n := by
  have hpos := h.positive nv ⟨i, hnv⟩
  have hi := ho.leader i nv hnv
  have hlt := Int.tmod_lt_of_pos nv.view (show (0 : ℤ) < n by omega)
  have hle := Int.tmod_nonneg (n : ℤ) hpos.le
  rw [hi] at hlt hle
  rw [mem_ids]
  exact ⟨hle, hlt⟩

end Servers

end DistributedNotary.Pbft
