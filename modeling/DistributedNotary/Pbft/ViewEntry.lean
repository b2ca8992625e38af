import DistributedNotary.Pbft.Handlers
import DistributedNotary.Pbft.Quorums

/-! Which view changes a server has seen when it goes into a view. A follower
counts the senders in the message of the leader, but the leader counts the
messages, so it may go into its view on messages of one replica. -/
namespace DistributedNotary.Pbft

open Library Server

variable {A : Type}

/-- The view change messages that the server has for a view. -/
def Server.changes (s : Server A) (view : ℤ) : List ViewChangeArgs := (s.vcs.lookup view).getD []

/-- The server does not lead the view, or has no view change of the replica for it yet. -/
def Server.NoChangeOf (s : Server A) (view rid : ℤ) : Prop :=
  view.tmod s.replicas.length = s.id → ∀ vc ∈ s.changes view, vc.rid ≠ rid

/-- No replica, the server itself included, is heard a second time about a view that the server leads. -/
def Server.HearsOnce (s : Server A) (_ : Orders) : Input → Prop
  | .message (.viewChange vc) => s.NoChangeOf vc.view vc.rid
  | .timer => s.NoChangeOf (s.view + s.myViewChangeCount + 1) s.id
  | _ => True

instance instDecidableNoChangeOf (s : Server A) (view rid : ℤ) : Decidable (s.NoChangeOf view rid) := by
  unfold Server.NoChangeOf
  infer_instance

instance instDecidableHearsOnce (s : Server A) (orders : Orders) (a : Input) : Decidable (s.HearsOnce orders a) := by
  unfold Server.HearsOnce
  split <;> infer_instance

/-- The view change has reached the server, by itself or in a new view message. -/
def Received (l : List Input) (vc : ViewChangeArgs) : Prop :=
  .message (.viewChange vc) ∈ l ∨ ∃ nv, .message (.newView nv) ∈ l ∧ vc ∈ nv.v

/-- The view changes behind every view that the server has gone into, and those that it keeps; they
were all received, as `R` says, or sent by the server itself. -/
structure EntersOnQuorum (R : ViewChangeArgs → Prop) (s : Server A) : Prop where
  stored : ∀ view, ∀ vc ∈ s.changes view, vc.view = view ∧ (R vc ∨ s.Sent (.viewChange vc))
  once : ∀ view, view.tmod s.replicas.length = s.id → ((s.changes view).map ViewChangeArgs.rid).Nodup
  entered : ∀ view v, .enterView view v ∈ s.trace →
    2 * s.f < (changeSenders view v).card ∧ ∀ vc ∈ v, R vc ∨ s.Sent (.viewChange vc)

namespace EntersOnQuorum

variable {env : Env A} {R R' : ViewChangeArgs → Prop} {s s' : Server A}

theorem mono (h : EntersOnQuorum R s) (hR : ∀ vc, R vc → R' vc) : EntersOnQuorum R' s where
  stored view vc hvc := ⟨(h.stored view vc hvc).1, (h.stored view vc hvc).2.imp_left (hR vc)⟩
  once := h.once
  entered view v he := ⟨(h.entered view v he).1, fun vc hvc => ((h.entered view v he).2 vc hvc).imp_left (hR vc)⟩

theorem of_eq (h : EntersOnQuorum R s) (hm : s.trace <:+ s'.trace) (hid : s'.id = s.id)
    (hreplicas : s'.replicas = s.replicas) (hf : s'.f = s.f)
    (hvcs : ∀ view, s'.changes view = s.changes view ∨ s'.changes view = [])
    (he : ∀ view v, .enterView view v ∈ s'.trace → .enterView view v ∈ s.trace) : EntersOnQuorum R s' where
  stored view vc hvc := by
    rcases hvcs view with hv | hv <;> rw [hv] at hvc
    · exact ⟨(h.stored view vc hvc).1, (h.stored view vc hvc).2.imp_right fun hs => hm.subset hs⟩
    · exact absurd hvc List.not_mem_nil
  once view hl := by
    rw [hreplicas, hid] at hl
    rcases hvcs view with hv | hv <;> rw [hv]
    · exact h.once view hl
    · exact List.nodup_nil
  entered view v hev := by
    obtain ⟨h1, h2⟩ := h.entered view v (he view v hev)
    exact ⟨hf ▸ h1, fun vc hvc => (h2 vc hvc).imp_right fun hs => hm.subset hs⟩

/-- What is known of the messages that bear on views. -/
def Knows (R : ViewChangeArgs → Prop) (s : Server A) : Msg → Prop
  | .viewChange vc => (R vc ∨ s.Sent (.viewChange vc)) ∧ s.NoChangeOf vc.view vc.rid
  | .newView nv => ∀ vc ∈ nv.v, R vc
  | _ => True

theorem changes_insert (s : Server A) (view view' : ℤ) (v : List ViewChangeArgs) :
    ({ s with vcs := s.vcs.insert view v } : Server A).changes view' = if view' = view then v else s.changes view' := by
  unfold changes
  rw [RangeMap.lookup_insert_eq]
  split <;> rfl

theorem storeViewChange (h : EntersOnQuorum R s) {vc : ViewChangeArgs} (hk : Knows R s (.viewChange vc)) :
    EntersOnQuorum R { s with vcs := s.vcs.insert vc.view (s.changes vc.view ++ [vc]) } where
  stored view vc' hvc := by
    rw [changes_insert] at hvc
    split at hvc
    · next heq =>
      rcases List.mem_append.mp hvc with hvc | hvc
      · exact heq ▸ h.stored vc.view vc' hvc
      · obtain rfl := List.mem_singleton.mp hvc
        exact ⟨heq.symm, hk.1⟩
    · exact h.stored view vc' hvc
  once view hl := by
    rw [changes_insert]
    split
    · next heq =>
      subst heq
      rw [List.map_append, List.nodup_append]
      refine ⟨h.once vc.view hl, List.nodup_singleton _, ?_⟩
      intro i hi j hj
      obtain ⟨vc', hvc', rfl⟩ := List.mem_map.mp hi
      obtain rfl := List.mem_singleton.mp hj
      exact hk.2 hl vc' hvc'
    · exact h.once view hl
  entered := h.entered

/-- A leader that hears each replica once has as many senders as messages. -/
theorem card_changeSenders (h : EntersOnQuorum R s) {view : ℤ} (hl : view.tmod s.replicas.length = s.id) :
    (changeSenders view (s.changes view)).card = (s.changes view).length := by
  have hall : ((s.changes view).filter fun vc => vc.view = view) = s.changes view := by
    rw [List.filter_eq_self]
    intro vc hvc
    simpa using (h.stored view vc hvc).1
  rw [changeSenders, hall, List.card_toFinset, (h.once view hl).dedup, List.length_map]

theorem enterView (h : EntersOnQuorum R s) {nv : NewViewArgs} {mins maxs : ℤ} {pps : List PrePrepareArgs}
    {ps : List PrepareArgs} (henter : MayEnter (Knows R) s nv mins maxs pps) :
    EntersOnQuorum R (s.startView nv.view mins maxs nv.v ps) := by
  have hquorum : 2 * s.f < (changeSenders nv.view nv.v).card ∧ ∀ vc ∈ nv.v, R vc ∨ s.Sent (.viewChange vc) := by
    rcases henter.2.2 with ⟨hl, hlen, hlookup, -⟩ | ⟨hk, hcount⟩
    · have hv : s.changes nv.view = nv.v := by simp [changes, hlookup]
      have hcard := h.card_changeSenders hl
      rw [hv] at hcard
      refine ⟨by omega, fun vc hvc => (h.stored nv.view vc ?_).2⟩
      rw [hv]
      exact hvc
    · rw [changeSenders, List.card_toFinset]
      exact ⟨hcount, fun vc hvc => .inl (hk vc hvc)⟩
  have hsent : ∀ vc, s.Sent (.viewChange vc) → (s.startView nv.view mins maxs nv.v ps).Sent (.viewChange vc) :=
    fun vc hs => List.mem_cons_of_mem _ hs
  have hchanges : ∀ view, (s.startView nv.view mins maxs nv.v ps).changes view = s.changes view ∨
      (s.startView nv.view mins maxs nv.v ps).changes view = [] := by
    intro view
    simp only [changes, startView, Server.enterView, removeOldViewChange, RangeMap.lookup_filter]
    cases s.vcs.lookup view with
    | none => exact .inl rfl
    | some l => by_cases hq : view < nv.view <;> simp [hq, Option.filter]
  refine ⟨?_, ?_, ?_⟩
  · intro view vc hvc
    rcases hchanges view with hv | hv <;> rw [hv] at hvc
    · exact ⟨(h.stored view vc hvc).1, (h.stored view vc hvc).2.imp_right (hsent vc)⟩
    · exact absurd hvc List.not_mem_nil
  · intro view hl
    rcases hchanges view with hv | hv <;> rw [hv]
    · exact h.once view hl
    · exact List.nodup_nil
  · intro view v he
    rcases List.mem_cons.mp he with heq | he
    · obtain ⟨rfl, rfl⟩ := Event.enterView.inj heq
      exact ⟨hquorum.1, fun vc hvc => (hquorum.2 vc hvc).imp_right (hsent vc)⟩
    · exact ⟨(h.entered view v he).1, fun vc hvc => ((h.entered view v he).2 vc hvc).imp_right (hsent vc)⟩

theorem move (h : EntersOnQuorum R s) (hm : Move env (Knows R) s s') : EntersOnQuorum R s' := by
  obtain ⟨hid, hreplicas, hf⟩ := hm.fixed
  have ht := hm.trace_suffix
  cases hm with
  | storeViewChange vc hk hv => exact h.storeViewChange hk
  | enterView nv mins maxs pps henter => exact h.enterView henter
  | _ => exact h.of_eq ht hid hreplicas hf (fun _ => .inl rfl) (by simp)

theorem new (rid : ℤ) (f : ℕ) (initSeq : ℤ) (nodes : List ℤ) (as : A) :
    EntersOnQuorum R (Server.new env rid f initSeq nodes as) where
  stored view vc hvc := by simp [changes, Server.new] at hvc
  once view hl := by simp [changes, Server.new]
  entered view v he := by simp [Server.new] at he

theorem knowsOwn : KnowsOwn (Knows R : Server A → Msg → Prop) := ⟨fun _ _ _ => trivial, fun _ _ _ => trivial⟩

/-- A message that was received, and in which no replica is heard a second time. -/
theorem known {l : List Input} {orders : Orders} {msg : Msg} (hc : s.HearsOnce orders (.message msg)) :
    Known (Knows (Received (.message msg :: l))) s msg := by
  intro s' hs'
  cases msg with
  | viewChange vc =>
    obtain rfl : s' = s := hs'
    exact ⟨.inl (.inl (List.mem_cons_self ..)), hc⟩
  | newView nv => exact fun vc hvc => .inr ⟨nv, List.mem_cons_self .., hvc⟩
  | _ => trivial

theorem knowsTimeout {orders : Orders} (hc : s.HearsOnce orders .timer) : KnowsTimeout (Knows R) orders s := by
  intro cp s' _ hvcs hid hreplicas _ hsent
  refine ⟨.inr hsent, ?_⟩
  unfold NoChangeOf changes
  rw [hvcs, hid, hreplicas]
  exact hc

end EntersOnQuorum

section Runs

variable {env : Env A} {ext : A → A → Prop} {rid initSeq : ℤ} {f : ℕ} {nodes : List ℤ} {as : A}

/-- In every run in which no replica is heard twice about a view, by the replica that leads that view,
every view that a server goes into has the view changes of more than `2f` replicas behind it, all of
which were received or are its own. -/
theorem enterView_on_quorum {l : List Input} {s : Server A}
    (h : History env ext (fun s orders a => s.offers a ∧ s.HearsOnce orders a)
      (Server.new env rid f initSeq nodes as) l s) {view : ℤ} {v : List ViewChangeArgs}
    (hv : .enterView view v ∈ s.trace) :
    2 * f + 1 ≤ (changeSenders view v).card ∧ ∀ vc ∈ v, Received l vc ∨ s.Sent (.viewChange vc) := by
  have hinv : s.f = f ∧ EntersOnQuorum (Received l) s := by
    clear hv
    induction h with
    | start => exact ⟨rfl, EntersOnQuorum.new ..⟩
    | @react l s orders a h ha ih =>
      obtain ⟨hf, ih⟩ := ih
      have hwf := (h.invariant_of_moves (fun _ => True) (WF.new ..) trivial
        (fun _ _ _ _ _ => trivial) fun _ _ _ => trivial).1
      have hmoves : Moves env (EntersOnQuorum.Knows (Received (a :: l))) s (after (s.react env orders a)) := by
        apply moves_react EntersOnQuorum.knowsOwn hwf
        · rintro msg rfl
          exact EntersOnQuorum.known ha.2
        · rintro rfl
          exact EntersOnQuorum.knowsTimeout ha.2
      refine ⟨hmoves.fixed.2.2.trans hf, Moves.invariant (fun _ _ _ hi hm => hi.move hm) hmoves hwf (ih.mono ?_)⟩
      rintro vc (hr | ⟨nv, hr, hvc⟩)
      · exact .inl (List.mem_cons_of_mem _ hr)
      · exact .inr ⟨nv, List.mem_cons_of_mem _ hr, hvc⟩
    | external as h hext ih =>
      exact ⟨ih.1, ih.2.of_eq List.suffix_rfl rfl rfl rfl (fun _ => .inl rfl) fun _ _ he => he⟩
  obtain ⟨hf, hinv⟩ := hinv
  obtain ⟨h1, h2⟩ := hinv.entered view v hv
  exact ⟨by omega, h2⟩

end Runs

/-- View changes to view 1 as replica 1 gets them from the replicas of a list. -/
def changesTo1 (l : List ℤ) : List Input := l.map fun i => .message (.viewChange (blankChange 1 i))

/-- The leader of a view may go into it on the view changes of one replica. -/
theorem enterView_on_one_replica :
    let s := Server.new Env.plain 1 1 0 (ids 4) ()
    s.allAllowed Env.plain (fun s _ a => s.offers a) (changesTo1 [2, 2, 2]) ∧
      .enterView 1 (List.replicate 3 (blankChange 1 2)) ∈ (s.reacts Env.plain (changesTo1 [2, 2, 2])).trace ∧
      (changeSenders 1 (List.replicate 3 (blankChange 1 2))).card < 2 * 1 + 1 := by
  refine ⟨?_, ?_, by decide⟩ <;> decide +kernel

theorem enterView_on_quorum_three :
    2 * 1 + 1 ≤ (changeSenders 1 [blankChange 1 0, blankChange 1 2, blankChange 1 3]).card := by
  have h : History Env.plain Eq (fun s orders a => s.offers a ∧ s.HearsOnce orders a)
      (Server.new Env.plain 1 1 0 (ids 4) ()) (changesTo1 [3, 2, 0]) _ :=
    history_reacts _ _ (by decide +kernel)
  have hv : Event.enterView 1 [blankChange 1 0, blankChange 1 2, blankChange 1 3] ∈
      ((Server.new Env.plain 1 1 0 (ids 4) ()).reacts Env.plain (changesTo1 [3, 2, 0])).trace := by
    decide +kernel
  exact (enterView_on_quorum h hv).1

end DistributedNotary.Pbft
