import DistributedNotary.Pbft.Announcements
import DistributedNotary.Pbft.Agreement

/-! How views are opened. The leader of a view, if it is not malicious, announces
it once, since it is in it afterwards or has panicked, and it does not get there
in any other way. -/
namespace DistributedNotary.Pbft

open Library Relation Server

variable {A : Type}

theorem Server.leads_iff {s : Server A} {vc : ViewChangeArgs} : s.leads vc = true ↔
    s.view < vc.view ∧ vc.view.tmod s.replicas.length = s.id ∧ 2 * s.f + 1 ≤ (s.collected vc).length := by
  simp [leads]

/-- The view changes from which an action makes the server announce a view. -/
def Action.Collects (w : World A) (orders : Orders) (a : Action) (P : List ViewChangeArgs → Prop) : Prop :=
  ∀ vc ∈ (w.servers a.dst).handles orders a.input, (w.servers a.dst).leads vc = true →
    P ((w.servers a.dst).collected vc)

instance instDecidableCollects (w : World A) (orders : Orders) (a : Action) (P : List ViewChangeArgs → Prop)
    [DecidablePred P] : Decidable (a.Collects w orders P) := by
  unfold Action.Collects
  infer_instance

section Servers

variable (n : ℕ) (servers : ℤ → Server A)

/-- Some server has announced the view. -/
def Declared (nv : NewViewArgs) : Prop := ∃ i, (servers i).Sent (.newView nv)

/-- Every view is announced once, by its leader, which never takes it over with a checkpoint. -/
structure Openings : Prop where
  leader : ∀ i nv, (servers i).Sent (.newView nv) → nv.view.tmod n = i
  once : ∀ i nv nv', (servers i).Sent (.newView nv) → (servers i).Sent (.newView nv') → nv.view = nv'.view → nv = nv'
  made : ∀ i nv, (servers i).Sent (.newView nv) → ∃ mins maxs, newViewOf nv.view nv.v = some (mins, maxs, nv.o)
  own : ∀ i nv, (servers i).Sent (.newView nv) → ∃ vc ∈ nv.v, vc.view = nv.view
  apart : ∀ i nv, (servers i).Sent (.newView nv) → .adoptView nv.view ∉ (servers i).trace

variable {n servers} {servers' : ℤ → Server A}

/-- What holds of all that has happened holds of what had happened before. -/
theorem Openings.before (h : Openings n servers') (ht : ∀ j, (servers j).trace ⊆ (servers' j).trace) :
    Openings n servers where
  leader i nv hnv := h.leader i nv (ht i hnv)
  once i nv nv' hnv hnv' := h.once i nv nv' (ht i hnv) (ht i hnv')
  made i nv hnv := h.made i nv (ht i hnv)
  own i nv hnv := h.own i nv (ht i hnv)
  apart i nv hnv hadopt := h.apart i nv (ht i hnv) (ht i hadopt)

theorem Openings.sent (h : Openings n servers) {nv : NewViewArgs} (hnv : Declared servers nv) :
    (servers (nv.view.tmod n)).Sent (.newView nv) := by
  obtain ⟨i, hi⟩ := hnv
  rwa [h.leader i nv hi]

theorem Openings.eq_of_view (h : Openings n servers) {nv nv' : NewViewArgs} (hnv : Declared servers nv)
    (hnv' : Declared servers nv') (hview : nv.view = nv'.view) : nv = nv' := by
  have hsent := h.sent hnv
  have hsent' := h.sent hnv'
  rw [← hview] at hsent'
  exact h.once _ nv nv' hsent hsent' hview

theorem Declared.mono (ht : ∀ j, (servers j).trace ⊆ (servers' j).trace) {nv : NewViewArgs} (h : Declared servers nv) :
    Declared servers' nv :=
  h.imp fun i hi => ht i hi

/-- What the state of a service does not bear on stays when others change that state. -/
theorem update_external {β : Type*} (servers : ℤ → Server A) (i : ℤ) (as : A) (g : Server A → β)
    (hg : ∀ s as, g { s with as := as } = g s) (j : ℤ) :
    g (Function.update servers i { servers i with as := as } j) = g (servers j) := by
  rcases eq_or_ne j i with rfl | hne
  · rw [Function.update_self, hg]
  · rw [Function.update_of_ne hne]

theorem trace_external_subset (servers : ℤ → Server A) (i : ℤ) (as : A) (j : ℤ) :
    (Function.update servers i { servers i with as := as } j).trace ⊆ (servers j).trace := by
  rw [update_external servers i as Server.trace fun _ _ => rfl]
  exact List.Subset.refl _

theorem trace_subset_update {i : ℤ} {s' : Server A} (ht : (servers i).trace <:+ s'.trace) (j : ℤ) :
    (servers j).trace ⊆ (Function.update servers i s' j).trace := by
  rcases eq_or_ne j i with rfl | hne
  · rw [Function.update_self]
    exact ht.subset
  · rw [Function.update_of_ne hne]
    exact List.Subset.refl _

end Servers

/-- The leader of a view that has not panicked is in the views that it has announced, all from view changes that
satisfy `P`. -/
structure OpensOnce (n : ℕ) (P : List ViewChangeArgs → Prop) (w : World A) : Prop where
  openings : Openings n w.servers
  inside : ∀ i, w.down i = false → ∀ nv, (w.servers i).Sent (.newView nv) → nv.view ≤ (w.servers i).view
  adopted : ∀ i view, .adoptView view ∈ (w.servers i).trace → view ≤ (w.servers i).view
  sound : ∀ i nv, (w.servers i).Sent (.newView nv) → P nv.v

section Adopts

variable {env : Env A} {K : Server A → Msg → Prop} {s s' : Server A}

theorem Move.adopts (hm : Move env K s s') {view : ℤ} (h : .adoptView view ∈ s'.trace) :
    .adoptView view ∈ s.trace ∨ (s.view < view ∧ view = s'.view) := by
  cases hm with
  | stabilizeAndResume n cp proof hdiv hcp hs hq hv =>
    simp only [settle, resumeIn, note, List.mem_cons, Event.adoptView.injEq, reduceCtorEq, false_or] at h
    rcases h with rfl | h
    · exact .inr ⟨hv, rfl⟩
    · exact .inl h
  | _ => exact .inl (by simpa using h)

theorem Moves.adopts (hm : Moves env K s s') {view : ℤ} (h : .adoptView view ∈ s'.trace) :
    .adoptView view ∈ s.trace ∨ (s.view < view ∧ view ≤ s'.view) := by
  induction hm with
  | refl => exact .inl h
  | tail hm hn ih =>
    rcases hn.adopts h with h | ⟨hlt, rfl⟩
    · exact (ih h).imp_right fun ⟨hlt, hle⟩ => ⟨hlt, hle.trans hn.view_le⟩
    · exact .inr ⟨(Moves.view_le hm).trans_lt hlt, le_rfl⟩

end Adopts

section Opens

variable {env : Env A} {n f : ℕ} {initSeq : ℤ → ℕ} {as : ℤ → A} {ext : A → A → Prop} {byz : Finset ℤ}
  {ok : World A → Orders → Action → Prop} {P : List ViewChangeArgs → Prop} {w : World A}

/-- A new view message that is new was made in this reaction. -/
theorem Server.sent_newView_react {s : Server A} (hs : s.WF) {orders : Orders} {a : Input} {nv : NewViewArgs}
    (h : (after (s.react env orders a)).Sent (.newView nv)) : s.Sent (.newView nv) ∨
      ∃ vc, s.handles orders a = some vc ∧ s.leads vc = true ∧ nv.view = vc.view ∧ nv.v = s.collected vc ∧
        ∃ mins maxs, newViewOf vc.view (s.collected vc) = some (mins, maxs, nv.o) := by
  rcases (binds_react hs a).of_mem _ rfl h with h | h
  · exact .inl h
  · cases h with
    | opens vc mins maxs pps hvc hl hnv => exact .inr ⟨vc, hvc, hl, rfl, rfl, mins, maxs, hnv⟩

/-- A server does not announce a view in a reaction in which it takes one over. -/
theorem Server.adoptView_react {s : Server A} (hs : s.WF) {orders : Orders} {a : Input} {view : ℤ}
    (h : .adoptView view ∈ (after (s.react env orders a)).trace) :
    .adoptView view ∈ s.trace ∨ s.handles orders a = none := by
  rcases (binds_react hs a).of_mem _ rfl h with h | h
  · exact .inl h
  · cases h with
    | adopts _ hno => exact .inr hno

theorem OpensOnce.put (h : OpensOnce n P w) {orders : Orders} {a : Action} (hup : w.down a.dst = false)
    (hconf : Configured n f a.dst (w.servers a.dst)) (hok : a.Collects w orders P) :
    OpensOnce n P (w.put a.dst ((w.servers a.dst).react env orders a.input)) := by
  have hmoves : Moves env (fun _ _ => True) (w.servers a.dst) (after ((w.servers a.dst).react env orders a.input)) :=
    moves_react ⟨fun _ _ _ => trivial, fun _ _ _ => trivial⟩ hconf.wf (fun _ _ _ _ => trivial)
      fun _ _ _ _ _ _ _ _ _ => trivial
  have hlt {nv vc} (hold : (w.servers a.dst).Sent (.newView nv)) (hl : (w.servers a.dst).leads vc = true) :
      nv.view < vc.view := (h.inside a.dst hup nv hold).trans_lt (leads_iff.mp hl).1
  -- what has not been sent before was made from the collected view changes
  have hmade {i : ℤ} {nv : NewViewArgs}
      (hnv : ((w.put a.dst ((w.servers a.dst).react env orders a.input)).servers i).Sent (.newView nv)) :
      (w.servers i).Sent (.newView nv) ∨ (i = a.dst ∧ ∃ vc, (w.servers a.dst).handles orders a.input = some vc ∧
        (w.servers a.dst).leads vc = true ∧ nv.view = vc.view ∧ nv.v = (w.servers a.dst).collected vc ∧
          ∃ mins maxs, newViewOf vc.view ((w.servers a.dst).collected vc) = some (mins, maxs, nv.o)) := by
    rw [World.servers_put] at hnv
    rcases eq_or_ne i a.dst with rfl | hne
    · rw [Function.update_self] at hnv
      exact (sent_newView_react hconf.wf hnv).imp_right fun h => ⟨rfl, h⟩
    · rw [Function.update_of_ne hne] at hnv
      exact .inl hnv
  refine ⟨⟨?_, ?_, ?_, ?_, ?_⟩, ?_, ?_, ?_⟩
  · intro i nv hnv
    rcases hmade hnv with hold | ⟨rfl, vc, -, hl, hv, -⟩
    · exact h.openings.leader i nv hold
    · have hlead := (leads_iff.mp hl).2.1
      rwa [hconf.id, hconf.replicas, length_ids, ← hv] at hlead
  · intro i nv nv' hnv hnv' hsame
    rcases hmade hnv with hold | ⟨rfl, vc, hvc, hl, hv, hc, _, _, ho⟩
    · rcases hmade hnv' with hold' | ⟨rfl, vc', -, hl', hv', -⟩
      · exact h.openings.once i nv nv' hold hold' hsame
      · exact absurd (hsame.trans hv') (hlt hold hl').ne
    · rcases hmade hnv' with hold' | ⟨-, vc', hvc', hl', hv', hc', _, _, ho'⟩
      · exact absurd (hsame.symm.trans hv) (hlt hold' hl).ne
      · obtain rfl := Option.some.inj (hvc.symm.trans hvc')
        rw [ho, Option.some.injEq, Prod.mk.injEq, Prod.mk.injEq] at ho'
        cases nv
        cases nv'
        simp only [NewViewArgs.mk.injEq]
        exact ⟨hsame, hc.trans hc'.symm, ho'.2.2⟩
  · intro i nv hnv
    rcases hmade hnv with hold | ⟨rfl, vc, -, -, hv, hc, mins, maxs, ho⟩
    · exact h.openings.made i nv hold
    · exact ⟨mins, maxs, by rw [hv, hc, ho]⟩
  · intro i nv hnv
    rcases hmade hnv with hold | ⟨rfl, vc, -, -, hv, hc, -⟩
    · exact h.openings.own i nv hold
    · exact ⟨vc, by rw [hc]; exact List.mem_append_right _ (List.mem_singleton_self vc), hv.symm⟩
  · intro i nv hnv hadopt
    rw [World.servers_put] at hadopt
    rcases eq_or_ne i a.dst with rfl | hne
    · rw [Function.update_self] at hadopt
      rcases hmade hnv with hold | ⟨-, vc, hvc, hl, hv, -⟩
      · rcases hmoves.adopts hadopt with hadopt | ⟨hlt, -⟩
        · exact h.openings.apart _ nv hold hadopt
        · exact absurd (h.inside a.dst hup nv hold) (not_le.mpr hlt)
      · rcases adoptView_react hconf.wf hadopt with hadopt | hno
        · have hle := h.adopted a.dst nv.view hadopt
          rw [hv] at hle
          exact absurd hle (not_le.mpr (leads_iff.mp hl).1)
        · exact Option.some_ne_none vc (hvc.symm.trans hno)
    · rw [Function.update_of_ne hne] at hadopt
      rcases hmade hnv with hold | ⟨rfl, -⟩
      · exact h.openings.apart i nv hold hadopt
      · exact hne rfl
  · intro i hi nv hnv
    obtain ⟨hdown, hreturns⟩ := w.down_put _ _ hi
    rcases hmade hnv with hold | ⟨rfl, vc, hvc, hl, hv, -⟩
    · refine (h.inside i hdown nv hold).trans ?_
      rw [World.servers_put]
      rcases eq_or_ne i a.dst with rfl | hne
      · rw [Function.update_self]
        exact hmoves.view_le
      · rw [Function.update_of_ne hne]
    · obtain ⟨s', hs'⟩ := hreturns rfl
      rw [World.servers_put, Function.update_self, hs']
      exact (hv.trans (view_of_leads hs' hvc hl).symm).le
  · intro i view hadopt
    rw [World.servers_put] at hadopt ⊢
    rcases eq_or_ne i a.dst with rfl | hne
    · rw [Function.update_self] at hadopt ⊢
      rcases hmoves.adopts hadopt with hadopt | ⟨-, hle⟩
      · exact (h.adopted a.dst view hadopt).trans hmoves.view_le
      · exact hle
    · rw [Function.update_of_ne hne] at hadopt ⊢
      exact h.adopted i view hadopt
  · intro i nv hnv
    rcases hmade hnv with hold | ⟨rfl, vc, hvc, hl, -, hc, -⟩
    · exact h.sound i nv hold
    · rw [hc]
      exact hok vc hvc hl

theorem OpensOnce.new : OpensOnce n P (World.new env n f initSeq as) where
  openings :=
    { leader := fun _ _ hnv => by simp [World.new, Server.new, Sent] at hnv
      once := fun _ _ _ hnv => by simp [World.new, Server.new, Sent] at hnv
      made := fun _ _ hnv => by simp [World.new, Server.new, Sent] at hnv
      own := fun _ _ hnv => by simp [World.new, Server.new, Sent] at hnv
      apart := fun _ _ hnv => by simp [World.new, Server.new, Sent] at hnv }
  inside _ _ _ hnv := by simp [World.new, Server.new, Sent] at hnv
  adopted _ _ h := by simp [World.new, Server.new] at h
  sound _ _ hnv := by simp [World.new, Server.new, Sent] at hnv

/-- Only what the servers of a world have noted counts, and the views they are in. -/
theorem OpensOnce.external (h : OpensOnce n P w) (i : ℤ) (as : A) :
    OpensOnce n P { w with servers := Function.update w.servers i { w.servers i with as := as } } := by
  have htrace := trace_external_subset w.servers i as
  have hview (j : ℤ) := update_external w.servers i as Server.view (fun _ _ => rfl) j
  refine ⟨h.openings.before htrace, fun j hj nv hnv => ?_, fun j view hv => ?_, fun j nv hnv => ?_⟩
  · exact (h.inside j hj nv (htrace j hnv)).trans_eq (hview j).symm
  · exact (h.adopted j view (htrace j hv)).trans_eq (hview j).symm
  · exact h.sound j nv (htrace j hnv)

theorem World.Reached.opensOnce (h : World.Reached env byz n f initSeq as ok ext w)
    (hok : ∀ w orders a, ok w orders a → a.Collects w orders P) : OpensOnce n P w := by
  refine (h.invariant_of_puts (OpensOnce n P) OpensOnce.new ?_ fun w i as hinv _ => hinv.external i as).2
  intro w orders a _ _ _ hconf hup hinv hallowed _
  exact hinv.put hup (hconf a.dst) (hok w orders a hallowed)

/-- In every run, with any malicious notaries, two announcements of one view by servers that run the protocol are one
and the same, by the leader of the view, with the operations that follow from its view changes. -/
theorem announced_once (h : World.Reached env byz n f initSeq as ok ext w) {i j : ℤ} {nv nv' : NewViewArgs}
    (hi : (w.servers i).Sent (.newView nv)) (hj : (w.servers j).Sent (.newView nv')) (hview : nv.view = nv'.view) :
    i = nv.view.tmod n ∧ j = i ∧ nv' = nv ∧ ∃ mins maxs, newViewOf nv.view nv.v = some (mins, maxs, nv.o) := by
  have ho := (h.opensOnce (P := fun _ => True) fun _ _ _ _ _ _ _ => trivial).openings
  have hl := ho.leader i nv hi
  have hl' := ho.leader j nv' hj
  refine ⟨hl.symm, ?_, (ho.eq_of_view ⟨i, hi⟩ ⟨j, hj⟩ hview).symm, ho.made i nv hi⟩
  rw [← hl, ← hl', hview]

end Opens

theorem announced_once_four : ∃ w : World Unit, (w.servers 1).Sent (.newView newView1) ∧
    (1 : ℤ) = newView1.view.tmod (4 : ℕ) ∧ (1 : ℤ) = 1 ∧ newView1 = newView1 ∧
      ∃ mins maxs, newViewOf newView1.view newView1.v = some (mins, maxs, newView1.o) := by
  have hrun : ((World.new Env.plain 4 1 (fun _ => 0) fun _ => ()).plays Env.plain ∅ (fun _ _ _ => True)
      (prepareFirst ++ prepareAgain)).map (fun w => decide ((w.servers 1).Sent (.newView newView1))) = some true := by
    decide +kernel
  obtain ⟨w, hw, hmem⟩ := Option.map_eq_some_iff.mp hrun
  have hsent := of_decide_eq_true hmem
  have hreached : World.Reached Env.plain ∅ 4 1 (fun _ => 0) (fun _ => ()) (fun _ _ _ => True) Eq w :=
    World.reached_plays (.init rfl) hw
  exact ⟨w, hsent, announced_once hreached hsent hsent rfl⟩

end DistributedNotary.Pbft
