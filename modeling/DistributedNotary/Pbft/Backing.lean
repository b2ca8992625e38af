import DistributedNotary.Pbft.Orderings

/-! Which views have a quorum behind them. The leader of a view goes into it on
any view changes, be they all from one replica; everybody else goes by the new
view message, and so only after the view changes of a quorum, or by the votes for
a checkpoint, and so only after others. Hence a view in which messages of a
quorum come together is one that a quorum has asked for. -/
namespace DistributedNotary.Pbft

open Library Relation Server

variable {A : Type}

/-- What the messages of servers rest on: who may act in a view, which views have a quorum behind them, and which
view changes are real. -/
structure Grounds where
  mayAct : ℤ → ℤ → Prop
  backed : ℤ → Prop
  told : ViewChangeArgs → Prop

/-- The message has its grounds. -/
def Msg.Rests (G : Grounds) : Msg → Prop
  | .prepare p => G.mayAct p.rid p.view
  | .commit c => G.mayAct c.rid c.view
  | .checkPoint vote => G.backed vote.view
  | .viewChange vc => G.told vc
  | .newView nv => ∀ vc ∈ nv.v, G.told vc
  | _ => True

/-- All that the server keeps and has sent has its grounds. -/
structure Founded (G : Grounds) (s : Server A) : Prop where
  view : G.mayAct s.id s.view
  sent : ∀ msg, s.Sent msg → msg.Rests G
  background : ∀ ps ∈ s.background, ∀ p ∈ ps, G.mayAct p.rid p.view
  prepares : ∀ r < s.next, ∀ p ∈ (s.heap r).p, G.mayAct p.rid p.view
  marked : ∀ r < s.next, (s.heap r).sendCommit = true → G.backed (s.heap r).id.v
  stored : ∀ view v, s.vcs.lookup view = some v → ∀ vc ∈ v, G.told vc
  votes : ∀ n c, s.cps.lookup n = some c → ∀ vote ∈ c.proof, G.backed vote.view
  adopted : ∀ view, .adoptView view ∈ s.trace → G.backed view

section Inversion

variable {env : Env A} {K : Server A → Msg → Prop} {s s' : Server A}

/-- A move may add a prepare message that is handled to an entry, and mark it when it is prepared. -/
def Server.Grows (K : Server A → Msg → Prop) (s : Server A) (ent ent' : Entry) : Prop :=
  (ent'.p = ent.p ∨ ∃ args, K s (.prepare args) ∧ ent'.p = ent.p ++ [args]) ∧
    (ent'.sendCommit = ent.sendCommit ∨ s.prepared ent = true)

theorem Move.entry (hm : Move env K s s') {r : ℕ} (hr : r < s'.next) :
    (r = s.next ∧ (s'.heap r).p = [] ∧ (s'.heap r).sendCommit = false) ∨
      (r < s.next ∧ s.Grows K (s.heap r) (s'.heap r)) := by
  let Goal (ent' : Entry) : Prop :=
    (r = s.next ∧ ent'.p = [] ∧ ent'.sendCommit = false) ∨ (r < s.next ∧ s.Grows K (s.heap r) ent')
  have hsame (hlt : r < s.next) : Goal (s.heap r) := .inr ⟨hlt, .inl rfl, .inl rfl⟩
  have hupdate (r' : ℕ) (ent : Entry) (hlt : r < s.next) (hgrows : s.Grows K (s.heap r') ent) :
      Goal (Function.update s.heap r' ent r) := by
    rcases eq_or_ne r r' with rfl | hne
    · rw [Function.update_self]
      exact .inr ⟨hlt, hgrows⟩
    · rw [Function.update_of_ne hne]
      exact hsame hlt
  have hnew (ent : Entry) (hlt : r < s.next + 1) (hp : ent.p = []) (hsend : ent.sendCommit = false) :
      Goal (Function.update s.heap s.next ent r) := by
    rcases eq_or_ne r s.next with rfl | hne
    · rw [Function.update_self]
      exact .inl ⟨rfl, hp, hsend⟩
    · rw [Function.update_of_ne hne]
      exact hsame (by omega)
  change Goal (s'.heap r)
  cases hm with
  | newEntry | takeOne => exact hnew _ hr rfl rfl
  | addPrepare r' args hk hc hw hr' hm => exact hupdate r' _ hr ⟨.inr ⟨args, hk, rfl⟩, .inl rfl⟩
  | sendCommit r' pp as hc hw hr' hpp hsend hp has => exact hupdate r' _ hr ⟨.inl rfl, .inr hp⟩
  | accept | addCommit | enqueue | runTask | runTaskAndVote | answerTask => exact hupdate _ _ hr ⟨.inl rfl, .inl rfl⟩
  | _ => exact hsame hr

/-- A vote that is new with a checkpoint was handled, or is the own one. -/
theorem Move.counts_vote (hm : Move env K s s') {n : ℤ} {c : CheckPoint} (hc : s'.cps.lookup n = some c)
    {vote : CheckPointArgs} (h : vote ∈ c.proof) :
    (∃ n c, s.cps.lookup n = some c ∧ vote ∈ c.proof) ∨ K s (.checkPoint vote) ∨ s'.Sent (.checkPoint vote) := by
  have hslot {m : ℤ} (hvote : vote ∈ (s.slot m).proof) : ∃ n c, s.cps.lookup n = some c ∧ vote ∈ c.proof := by
    unfold slot at hvote
    cases hl : s.cps.lookup m with
    | none =>
      rw [hl] at hvote
      exact absurd hvote List.not_mem_nil
    | some c =>
      rw [hl] at hvote
      exact ⟨m, c, hl, hvote⟩
  have hsettle {m : ℤ} {cp : CheckPoint} {proof : CheckPointArgs} {s₀ : Server A} (hcps : s₀.cps = s.cps)
      (hcp : ∀ vote ∈ cp.proof, ∃ n c, s.cps.lookup n = some c ∧ vote ∈ c.proof)
      (hlookup : (s₀.settle m cp proof).cps.lookup n = some c) : ∃ n c, s.cps.lookup n = some c ∧ vote ∈ c.proof := by
    have h₀ := (RangeMap.lookup_of_lookup_filter hlookup).1
    rw [RangeMap.lookup_insert_eq, hcps] at h₀
    split at h₀
    · obtain rfl := Option.some.inj h₀
      exact hcp vote h
    · exact ⟨n, c, h₀, h⟩
  cases hm with
  | runTaskAndVote queue m pp as reply digest digest' hq hturn hpp has hreply hdiv hcan =>
    change (s.cps.insert m.pri _).lookup n = some c at hc
    rw [RangeMap.lookup_insert_eq] at hc
    split at hc
    · obtain rfl := Option.some.inj hc
      rcases List.mem_append.mp h with h | h
      · exact .inl (hslot h)
      · rw [List.mem_singleton.mp h]
        exact .inr (.inr (List.mem_cons_self ..))
    · exact .inl ⟨n, c, hc, h⟩
  | touch m digest hdiv hcan =>
    change (s.cps.insert m _).lookup n = some c at hc
    rw [RangeMap.lookup_insert_eq] at hc
    split at hc
    · obtain rfl := Option.some.inj hc
      exact .inl (hslot h)
    · exact .inl ⟨n, c, hc, h⟩
  | vote cp args hk hdiv hcp hs =>
    change (s.cps.insert args.seq _).lookup n = some c at hc
    rw [RangeMap.lookup_insert_eq] at hc
    split at hc
    · obtain rfl := Option.some.inj hc
      rcases List.mem_append.mp h with h | h
      · exact .inl ⟨_, cp, hcp, h⟩
      · rw [List.mem_singleton.mp h]
        exact .inr (.inl hk)
    · exact .inl ⟨n, c, hc, h⟩
  | stabilize m cp proof hdiv hcp hs hq hv => exact .inl (hsettle rfl (fun vote hvote => ⟨m, cp, hcp, hvote⟩) hc)
  | stabilizeAndResume m cp proof hdiv hcp hs hq hv =>
    exact .inl (hsettle rfl (fun vote hvote => ⟨m, cp, hcp, hvote⟩) hc)
  | catchUp nv scp cp2 mins maxs pps order henter hscp hlt hseq hcp2 =>
    exact .inl (hsettle rfl (fun vote hvote => absurd hvote List.not_mem_nil) hc)
  | _ => exact .inl ⟨n, c, hc, h⟩

end Inversion

namespace Founded

variable {env : Env A} {K : Server A → Msg → Prop} {G G' : Grounds} {s s' : Server A}

/-- Grounds that are left stay. -/
theorem mono (h : Founded G s) (hact : ∀ i view, G.mayAct i view → G'.mayAct i view)
    (hbacked : ∀ view, G.backed view → G'.backed view) (htold : ∀ vc, G.told vc → G'.told vc) : Founded G' s where
  view := hact _ _ h.view
  sent msg hmsg := by
    have hrests := h.sent msg hmsg
    cases msg with
    | prepare p => exact hact _ _ hrests
    | commit c => exact hact _ _ hrests
    | checkPoint vote => exact hbacked _ hrests
    | viewChange vc => exact htold _ hrests
    | newView nv => exact fun vc hvc => htold _ (hrests vc hvc)
    | _ => trivial
  background ps hps p hp := hact _ _ (h.background ps hps p hp)
  prepares r hr p hp := hact _ _ (h.prepares r hr p hp)
  marked r hr hsend := hbacked _ (h.marked r hr hsend)
  stored view v hv vc hvc := htold _ (h.stored view v hv vc hvc)
  votes n c hc vote hvote := hbacked _ (h.votes n c hc vote hvote)
  adopted view hview := hbacked _ (h.adopted view hview)

/-- An entry that is prepared has a quorum of prepare messages for its view. -/
theorem backed_of_prepared (h : Founded G s) (hs : s.WF)
    (hquorum : ∀ view (S : Finset ℤ), 2 * s.f < S.card → (∀ k ∈ S, G.mayAct k view) → G.backed view) {r : ℕ}
    (hr : r < s.next) (hp : s.prepared (s.heap r) = true) : G.backed (s.heap r).id.v := by
  rw [prepared_iff] at hp
  refine hquorum _ _ hp fun k hk => ?_
  unfold Entry.prepareSenders at hk
  cases hpp : (s.heap r).pp with
  | none =>
    rw [hpp] at hk
    exact absurd hk (Finset.notMem_empty k)
  | some pp =>
    rw [hpp, List.mem_toFinset, List.mem_map] at hk
    obtain ⟨p, hmem, rfl⟩ := hk
    have hmem := (List.mem_filter.mp hmem).1
    rw [hs.prepares r p hr hmem]
    exact h.prepares r hr p hmem

/-- One message more is sent. -/
theorem sent_note {msg' : Msg} (h : Founded G s) (ht : s'.trace = .send msg' :: s.trace) (hrests : msg'.Rests G)
    (msg : Msg) (hmsg : s'.Sent msg) : msg.Rests G := by
  unfold Sent at hmsg
  rw [ht] at hmsg
  rcases List.mem_cons.mp hmsg with heq | hmsg
  · obtain rfl := Event.send.inj heq
    exact hrests
  · exact h.sent msg hmsg

end Founded

/-- A move that gives nothing without grounds: a view is entered on the new view message of its leader or by votes,
and a vote is cast where there are grounds for it. -/
structure FoundedMove (env : Env A) (K : Server A → Msg → Prop) (G : Grounds) (s s' : Server A) : Prop where
  before : Founded G s
  wf : s.WF
  move : Move env K s s'
  takes : ∀ msg, K s msg → msg.Rests G
  quorum : ∀ view (S : Finset ℤ), 2 * s.f < S.card → (∀ k ∈ S, G.mayAct k view) → G.backed view
  acts : ∀ view, G.backed view → G.mayAct s.id view
  enters : ∀ nv mins maxs pps, MayEnter K s nv mins maxs pps → G.mayAct s.id nv.view
  casts : ∀ vote, s'.Sent (.checkPoint vote) → s.Sent (.checkPoint vote) ∨ G.backed vote.view
  tells : ∀ vc, s'.Sent (.viewChange vc) → s.Sent (.viewChange vc) ∨ G.told vc

namespace FoundedMove

variable {env : Env A} {K : Server A → Msg → Prop} {G : Grounds} {s s' : Server A} (h : FoundedMove env K G s s')

include h

theorem view : G.mayAct s'.id s'.view := by
  have hid := h.move.fixed.1
  rw [hid]
  cases h.move with
  | stabilizeAndResume n cp proof hdiv hcp hs hq hv =>
    exact h.acts _ (h.before.votes n cp hcp proof (quorumVote_spec hq).1)
  | enterView nv mins maxs pps he hmins => exact h.enters nv mins maxs pps he
  | _ => exact h.before.view

theorem prepare {p : PrepareArgs} (hmsg : s'.Sent (.prepare p)) : (Msg.prepare p).Rests G := by
  cases h.move with
  | accept r pp hk hc hw hr ha =>
    refine h.before.sent_note rfl ?_ _ hmsg
    change G.mayAct s.id pp.view
    rw [← (inWindow_iff.mp hw).1]
    exact h.before.view
  | sendBackground k p' ps hb =>
    have hrests : (Msg.prepare p').Rests G := h.before.background _ (List.mem_of_getElem? hb) p' (List.mem_cons_self ..)
    exact h.before.sent_note rfl hrests _ hmsg
  | _ => exact h.before.sent _ (by simpa [Sent] using hmsg)

theorem commit {c : CommitArgs} (hmsg : s'.Sent (.commit c)) : (Msg.commit c).Rests G := by
  cases h.move with
  | sendCommit r pp as hc hw hr hpp hsend hp has =>
    refine h.before.sent_note rfl ?_ _ hmsg
    change G.mayAct s.id pp.view
    rw [← (inWindow_iff.mp hw).1]
    exact h.before.view
  | _ => exact h.before.sent _ (by simpa [Sent] using hmsg)

theorem newView {nv : NewViewArgs} (hmsg : s'.Sent (.newView nv)) : (Msg.newView nv).Rests G := by
  cases h.move with
  | sendNewView nv' mins maxs hv hl hlen hvcs hnv =>
    have hrests : (Msg.newView nv').Rests G := h.before.stored _ _ hvcs
    exact h.before.sent_note rfl hrests _ hmsg
  | _ => exact h.before.sent _ (by simpa [Sent] using hmsg)

theorem sent (msg : Msg) (hmsg : s'.Sent msg) : msg.Rests G := by
  cases msg with
  | checkPoint vote => exact (h.casts vote hmsg).elim (h.before.sent _) id
  | viewChange vc => exact (h.tells vc hmsg).elim (h.before.sent _) id
  | prepare p => exact h.prepare hmsg
  | commit c => exact h.commit hmsg
  | newView nv => exact h.newView hmsg
  | _ => trivial

theorem background {ps : List PrepareArgs} (hps : ps ∈ s'.background) {p : PrepareArgs} (hp : p ∈ ps) :
    G.mayAct p.rid p.view := by
  cases h.move with
  | sendBackground k p' ps' hb =>
    rcases List.mem_or_eq_of_mem_set hps with hps | rfl
    · exact h.before.background ps hps p hp
    · exact h.before.background _ (List.mem_of_getElem? hb) p (List.mem_cons_of_mem _ hp)
  | enterView nv mins maxs pps he hmins =>
    rcases List.mem_append.mp hps with hps | hps
    · exact h.before.background ps hps p hp
    · rw [List.mem_singleton] at hps
      subst hps
      obtain ⟨pp, -, rfl⟩ := List.mem_map.mp hp
      exact h.enters nv mins maxs pps he
  | _ => exact h.before.background ps hps p hp

theorem prepares {r : ℕ} (hr : r < s'.next) {p : PrepareArgs} (hp : p ∈ (s'.heap r).p) : G.mayAct p.rid p.view := by
  rcases h.move.entry hr with ⟨-, hnil, -⟩ | ⟨hlt, hgrows, -⟩
  · rw [hnil] at hp
    exact absurd hp List.not_mem_nil
  · rcases hgrows with hsame | ⟨args, hk, hadd⟩
    · exact h.before.prepares r hlt p (hsame ▸ hp)
    · rw [hadd] at hp
      rcases List.mem_append.mp hp with hp | hp
      · exact h.before.prepares r hlt p hp
      · rw [List.mem_singleton.mp hp]
        exact h.takes _ hk

theorem marked {r : ℕ} (hr : r < s'.next) (hsend : (s'.heap r).sendCommit = true) : G.backed (s'.heap r).id.v := by
  rcases h.move.entry hr with ⟨-, -, hfalse⟩ | ⟨hlt, -, hmark⟩
  · exact absurd (hfalse.symm.trans hsend) Bool.false_ne_true
  · rw [((h.move.keeps h.wf).2 r hlt).id]
    rcases hmark with hsame | hprep
    · exact h.before.marked r hlt (hsame.symm.trans hsend)
    · exact h.before.backed_of_prepared h.wf h.quorum hlt hprep

theorem stored {view : ℤ} {v : List ViewChangeArgs} (hv : s'.vcs.lookup view = some v) {vc : ViewChangeArgs}
    (hvc : vc ∈ v) : G.told vc := by
  cases h.move with
  | storeViewChange vc' hk hcan =>
    change (s.vcs.insert vc'.view _).lookup view = some v at hv
    rw [RangeMap.lookup_insert_eq] at hv
    split at hv
    · obtain rfl := Option.some.inj hv
      rcases List.mem_append.mp hvc with hvc | hvc
      · cases hl : s.vcs.lookup vc'.view with
        | none =>
          rw [hl] at hvc
          exact absurd hvc List.not_mem_nil
        | some l =>
          rw [hl] at hvc
          exact h.before.stored _ l hl vc hvc
      · rw [List.mem_singleton.mp hvc]
        exact h.takes _ hk
    · exact h.before.stored view v hv vc hvc
  | enterView nv mins maxs pps he hmins =>
    exact h.before.stored view v (RangeMap.lookup_of_lookup_filter hv).1 vc hvc
  | _ => exact h.before.stored view v hv vc hvc

theorem votes {n : ℤ} {c : CheckPoint} (hc : s'.cps.lookup n = some c) {vote : CheckPointArgs}
    (hvote : vote ∈ c.proof) :
    G.backed vote.view := by
  rcases h.move.counts_vote hc hvote with ⟨n, c, hc, hvote⟩ | hk | hsent
  · exact h.before.votes n c hc vote hvote
  · exact h.takes _ hk
  · exact (h.casts vote hsent).elim (h.before.sent _) id

theorem adopted {view : ℤ} (hadopt : .adoptView view ∈ s'.trace) : G.backed view := by
  cases h.move with
  | stabilizeAndResume n cp proof hdiv hcp hs hq hv =>
    simp only [settle, resumeIn, note, List.mem_cons, Event.adoptView.injEq, reduceCtorEq, false_or] at hadopt
    rcases hadopt with rfl | hadopt
    · exact h.before.votes n cp hcp proof (quorumVote_spec hq).1
    · exact h.before.adopted view hadopt
  | _ => exact h.before.adopted view (by simpa using hadopt)

end FoundedMove

theorem FoundedMove.founded {env : Env A} {K : Server A → Msg → Prop} {G : Grounds} {s s' : Server A}
    (h : FoundedMove env K G s s') : Founded G s' where
  view := h.view
  sent := h.sent
  background _ hps _ hp := h.background hps hp
  prepares _ hr _ hp := h.prepares hr hp
  marked _ hr hsend := h.marked hr hsend
  stored _ _ hv _ hvc := h.stored hv hvc
  votes _ _ hc _ hvote := h.votes hc hvote
  adopted _ hadopt := h.adopted hadopt

section Servers

variable (n f : ℕ) (servers : ℤ → Server A)

/-- The view has been announced on the view changes of a quorum, unless it is the first one. -/
def Backed (view : ℤ) : Prop :=
  view = 0 ∨ ∃ nv, Declared servers nv ∧ nv.view = view ∧ 2 * f < (changeSenders view nv.v).card

/-- The leader may act in a view that it has announced, others only in one with a quorum behind it. -/
def MayAct (i view : ℤ) : Prop := i ∈ ids n ∧ (Backed f servers view ∨ (view.tmod n = i ∧ Started servers view))

/-- The replica has sent the view change, and it reports what has been prepared in earlier views. -/
def Told (vc : ViewChangeArgs) : Prop :=
  vc.rid ∈ ids n ∧ (servers vc.rid).Sent (.viewChange vc) ∧ ∀ pm ∈ vc.p, ∀ pp, pm.pp = some pp →
    Backed f servers pp.view ∧ pp.view < vc.view ∧ Issued servers pp.assignment

def grounds : Grounds := ⟨MayAct n f servers, Backed f servers, Told n f servers⟩

variable {n f servers} {servers' : ℤ → Server A}

theorem Started.mono (ht : ∀ j, (servers j).trace ⊆ (servers' j).trace) {view : ℤ} (h : Started servers view) :
    Started servers' view :=
  h.imp_right fun ⟨nv, hnv, hview⟩ => ⟨nv, hnv.mono ht, hview⟩

theorem Backed.mono (ht : ∀ j, (servers j).trace ⊆ (servers' j).trace) {view : ℤ} (h : Backed f servers view) :
    Backed f servers' view :=
  h.imp_right fun ⟨nv, hnv, hquorum⟩ => ⟨nv, hnv.mono ht, hquorum⟩

theorem Backed.started {view : ℤ} (h : Backed f servers view) : Started servers view :=
  h.imp_right fun ⟨nv, hnv, hview, _⟩ => ⟨nv, hnv, hview⟩

theorem MayAct.mono (ht : ∀ j, (servers j).trace ⊆ (servers' j).trace) {i view : ℤ} (h : MayAct n f servers i view) :
    MayAct n f servers' i view :=
  ⟨h.1, h.2.imp (Backed.mono ht) fun ⟨hl, hview⟩ => ⟨hl, hview.mono ht⟩⟩

theorem MayAct.started {i view : ℤ} (h : MayAct n f servers i view) : Started servers view :=
  h.2.elim Backed.started And.right

theorem Told.mono (ht : ∀ j, (servers j).trace ⊆ (servers' j).trace) {vc : ViewChangeArgs} (h : Told n f servers vc) :
    Told n f servers' vc :=
  ⟨h.1, ht _ h.2.1, fun pm hpm pp hpp =>
    have hreport := h.2.2 pm hpm pp hpp
    ⟨hreport.1.mono ht, hreport.2.1, hreport.2.2.mono ht⟩⟩

theorem Founded.update (ht : ∀ j, (servers j).trace ⊆ (servers' j).trace) {s : Server A}
    (h : Founded (grounds n f servers) s) : Founded (grounds n f servers') s :=
  h.mono (fun _ _ => MayAct.mono ht) (fun _ => Backed.mono ht) fun _ => Told.mono ht

/-- Two replicas only act in the same view if a quorum has asked for it. -/
theorem backed_of_two {i j view : ℤ} (hi : MayAct n f servers i view) (hj : MayAct n f servers j view) (hne : i ≠ j) :
    Backed f servers view := by
  rcases hi.2 with hbacked | ⟨hl, -⟩
  · exact hbacked
  · rcases hj.2 with hbacked | ⟨hl', -⟩
    · exact hbacked
    · exact absurd (hl.symm.trans hl') hne

theorem backed_of_quorum (ho : Openings n servers) {view : ℤ} {S : Finset ℤ} (hS : 2 * f < S.card)
    (hact : ∀ k ∈ S, MayAct n f servers k view) : Backed f servers view := by
  obtain ⟨i, hi⟩ : S.Nonempty := Finset.card_pos.mp (by omega)
  by_cases hall : ∀ k ∈ S, k = i
  · -- without faults the leader alone is a quorum, and so is any of its view changes
    have hone : S.card ≤ 1 := Finset.card_le_one.mpr fun k hk k' hk' => (hall k hk).trans (hall k' hk').symm
    rcases (hact i hi).started with hzero | ⟨nv, ⟨j, hj⟩, hview⟩
    · exact .inl hzero
    · obtain ⟨vc, hvc, hown⟩ := ho.own j nv hj
      have hmem : vc.rid ∈ changeSenders view nv.v := by
        rw [changeSenders, List.mem_toFinset]
        exact List.mem_map_of_mem (List.mem_filter.mpr ⟨hvc, decide_eq_true (hown.trans hview)⟩)
      have hpos := Finset.card_pos.mpr ⟨_, hmem⟩
      exact .inr ⟨nv, ⟨j, hj⟩, hview, by omega⟩
  · push Not at hall
    obtain ⟨k, hk, hne⟩ := hall
    exact backed_of_two (hact k hk) (hact i hi) hne

end Servers

section Moves

variable {env : Env A} {K : Server A → Msg → Prop} {s s' : Server A}

theorem Move.sent_viewChange (hm : Move env K s s') {vc : ViewChangeArgs} (h : s'.Sent (.viewChange vc)) :
    s.Sent (.viewChange vc) ∨ ∃ (orders : Orders) (cp : CheckPoint), vc = s.generateViewChange orders.log cp := by
  unfold Sent at h ⊢
  cases hm with
  | sendViewChange orders cp hc hcp =>
    rcases List.mem_cons.mp h with heq | h
    · exact .inr ⟨orders, cp, Msg.viewChange.inj (Event.send.inj heq)⟩
    · exact .inl h
  | _ => exact .inl (by simpa using h)

theorem Move.sent_checkPoint (hm : Move env K s s') {vote : CheckPointArgs} (h : s'.Sent (.checkPoint vote)) :
    s.Sent (.checkPoint vote) ∨ (vote.view = s.view ∧ s'.view = s.view) := by
  unfold Sent at h ⊢
  cases hm with
  | runTaskAndVote queue m pp as reply digest digest' hq hturn hpp has hreply hdiv hslot =>
    rcases List.mem_cons.mp h with heq | h
    · rw [Msg.checkPoint.inj (Event.send.inj heq)]
      exact .inr ⟨rfl, rfl⟩
    · exact .inl (by simpa using h)
  | _ => exact .inl (by simpa using h)

/-- A server that has entered no view is in the same view as before, or has taken its view over. -/
theorem Moves.view_eq_or (hm : Moves env K s s') (hentered : ∀ view v, .enterView view v ∈ s.trace → view ≤ s.view)
    (hno : ∀ view v, .enterView view v ∈ s'.trace → .enterView view v ∈ s.trace) :
    s'.view = s.view ∨ .adoptView s'.view ∈ s'.trace := by
  induction hm with
  | refl => exact .inl rfl
  | tail hm hn ih =>
    rcases hn.raises with hsame | ⟨nv, _, _, _, he, -, -, hev⟩ | ⟨-, hadopt⟩
    · rw [hsame]
      refine (ih fun view v hv => hno view v (hn.trace_suffix.subset hv)).imp_right fun hadopt => ?_
      exact hn.trace_suffix.subset hadopt
    · exact absurd ((hentered _ _ (hno _ _ hev)).trans (Moves.view_le hm)) (not_le.mpr he.1)
    · exact .inr hadopt

/-- What a view change of a server reports is prepared, in an earlier view. -/
theorem Founded.told {n f : ℕ} {servers : ℤ → Server A} {i : ℤ} (h : Founded (grounds n f servers) s) (hs : s.WF)
    (ho : Openings n servers) (hf : s.f = f) (hid : s.id = i) (hi : i ∈ ids n)
    (hheld : ∀ a ∈ s.assignments, Issued servers a) {order : Range EntryID} {cp : CheckPoint}
    (hsent : (servers i).Sent (.viewChange (s.generateViewChange order cp))) :
    Told n f servers (s.generateViewChange order cp) := by
  subst hid hf
  refine ⟨hi, hsent, fun pm hpm pp hpp => ?_⟩
  obtain ⟨⟨id, r⟩, hr, hreport⟩ := List.mem_filterMap.mp hpm
  simp only [] at hreport
  split_ifs at hreport with hin
  obtain rfl := Option.some.inj hreport
  have hlookup : s.log.lookup id = some r := RangeMap.mem_range.mp hr
  obtain ⟨hlt, hid⟩ := hs.refs id r hlookup
  have hpid := hs.pps r pp hlt hpp
  have hview : pp.view = (s.heap r).id.v := by rw [hpid]
  refine ⟨?_, ?_, hheld _ (mem_assignments.mpr (.inl ⟨r, pp, ⟨hlt, hpp⟩, rfl⟩))⟩
  · rw [hview]
    rcases hin.2.2 with hmarked | hprep
    · exact h.marked r hlt hmarked
    · exact h.backed_of_prepared hs (fun _ _ => backed_of_quorum ho) hlt hprep
  · have hle := hs.views id r hlookup
    rw [← hid, ← hview] at hle
    change pp.view < s.view + s.myViewChangeCount + 1
    omega

end Moves

/-- What holds of all servers in every run without malicious notaries. -/
structure Lawful (n f : ℕ) (servers : ℤ → Server A) : Prop where
  inViews : ∀ j, (servers j).InViews
  own : ∀ j, (servers j).id = j ∧ (servers j).SpeaksOwn
  ordered : Ordered n servers
  founded : ∀ j ∈ ids n, Founded (grounds n f servers) (servers j)

section Reached

variable {env : Env A} {C : (ℤ → Server A) → ℤ → Msg → Prop} {n f : ℕ} {initSeq : ℤ → ℕ} {as : ℤ → A}
  {ext : A → A → Prop} {ok : World A → Orders → Action → Prop} {servers : ℤ → Server A} {i : ℤ} {s' : Server A}

theorem not_declared_new {nv : NewViewArgs} : ¬ Declared (World.new env n f initSeq as).servers nv := by
  rintro ⟨j, hj⟩
  simp [World.new, Server.new, Sent] at hj

theorem not_issued_new {a : Assignment} : ¬ Issued (World.new env n f initSeq as).servers a := by
  rintro (⟨j, pp, hj, -⟩ | ⟨nv, hnv, -⟩)
  · simp [World.new, Server.new, Sent] at hj
  · exact not_declared_new hnv

theorem Lawful.new : Lawful n f (World.new env n f initSeq as).servers where
  inViews j := .new env j f (initSeq j) (ids n) (as j)
  own j := ⟨rfl, .new env j f (initSeq j) (ids n) (as j)⟩
  ordered :=
    { entered := fun j view v h => by simp [World.new, Server.new] at h
      positive := fun nv hnv => absurd hnv not_declared_new
      held := fun j a ha => by
        rcases mem_assignments.mp ha with ⟨r, pp, hpp, -⟩ | ⟨pp, hpp, -⟩ | he
        · exact absurd hpp.1 (Nat.not_lt_zero r)
        · exact absurd hpp List.not_mem_nil
        · exact absurd he List.not_mem_nil
      begun := fun a ha => absurd ha not_issued_new
      once := fun a a' ha => absurd ha not_issued_new
      given := fun a ha => absurd ha not_issued_new
      leader := fun nv hnv => absurd hnv not_declared_new }
  founded j hj :=
    { view := ⟨hj, .inl (.inl rfl)⟩
      sent := fun msg h => by simp [World.new, Server.new, Sent] at h
      background := fun ps hps => by simp [World.new, Server.new] at hps
      prepares := fun r hr => absurd hr (Nat.not_lt_zero r)
      marked := fun r hr => absurd hr (Nat.not_lt_zero r)
      stored := fun view v h => by simp [World.new, Server.new] at h
      votes := fun m c hc vote hvote => by
        have hmem := AList.mem_lookup_iff.mp hc
        simp only [World.new, Server.new, AList.singleton_entries, List.mem_singleton,
          Sigma.mk.injEq, heq_eq_eq] at hmem
        rw [hmem.2] at hvote
        exact absurd hvote List.not_mem_nil
      adopted := fun view h => by simp [World.new, Server.new] at h }

theorem Lawful.started (h : Lawful n f servers) (hi : i ∈ ids n) : Started servers (servers i).view :=
  MayAct.started (h.founded i hi).view

/-- What is taken into account has its grounds. -/
theorem Lawful.rests (h : Lawful n f servers) (hi : i ∈ ids n) {msg : Msg} (ht : Takes n ∅ servers C i msg) :
    msg.Rests (grounds n f servers) := by
  rcases sent_of_takes hi ht with hr | ⟨j, hj, hsent⟩
  · cases msg with
    | request args => trivial
    | _ => exact nomatch hr
  · exact (h.founded j hj).sent msg hsent

/-- What a move of server `i` rests on is still there after it. -/
theorem Lawful.foundedMove (h : Lawful n f servers) (ho : Openings n (Function.update servers i s')) (hi : i ∈ ids n)
    (hconf : Configured n f i (servers i)) (hm : Move env (fun _ => Takes n ∅ servers C i) (servers i) s')
    (hvote : ∀ vote, s'.Sent (.checkPoint vote) → (servers i).Sent (.checkPoint vote) ∨ Backed f servers vote.view) :
    FoundedMove env (fun _ => Takes n ∅ servers C i) (grounds n f (Function.update servers i s')) (servers i) s' := by
  have ht : ∀ j, (servers j).trace ⊆ (Function.update servers i s' j).trace := trace_subset_update hm.trace_suffix
  have hbase := (h.founded i hi).update ht
  refine ⟨hbase, hconf.wf, hm, ?takes, ?quorum, ?acts, ?enters, ?casts, ?tells⟩
  case takes =>
    intro msg hk
    have hrests := h.rests hi hk
    cases msg with
    | prepare p => exact MayAct.mono ht hrests
    | commit c => exact MayAct.mono ht hrests
    | checkPoint vote => exact Backed.mono ht hrests
    | viewChange vc => exact Told.mono ht hrests
    | newView nv => exact fun vc hvc => Told.mono ht (hrests vc hvc)
    | _ => trivial
  case quorum => exact fun view S hS hact => backed_of_quorum ho (hconf.f ▸ hS) hact
  case acts => exact fun view hview => ⟨hconf.id.symm ▸ hi, .inl hview⟩
  case enters =>
    intro nv mins maxs pps he
    have hdecl := (declared_of_mayEnter hi he).mono ht
    refine ⟨hconf.id.symm ▸ hi, ?_⟩
    rcases he.2.2 with ⟨hl, -⟩ | ⟨-, hcount⟩
    · rw [hconf.replicas, length_ids] at hl
      exact .inr ⟨hl, .inr ⟨nv, hdecl, rfl⟩⟩
    · refine .inl (.inr ⟨nv, hdecl, rfl, ?_⟩)
      rwa [changeSenders, List.card_toFinset, ← hconf.f]
  case casts => exact fun vote hsent => (hvote vote hsent).imp_right (Backed.mono ht)
  case tells =>
    intro vc hsent
    rcases hm.sent_viewChange hsent with hold | ⟨orders, cp, rfl⟩
    · exact .inl hold
    · refine .inr (hbase.told hconf.wf ho hconf.f hconf.id hi (fun a ha => ?_) ?_)
      · exact (h.ordered.held i a ha).mono ht
      · rwa [Function.update_self]

/-- A move of server `i` that casts a vote only in a view with a quorum behind it. -/
theorem Lawful.move (h : Lawful n f servers) (ho : Openings n (Function.update servers i s')) (hi : i ∈ ids n)
    (hconf : Configured n f i (servers i)) (hm : Move env (fun _ => Takes n ∅ servers C i) (servers i) s')
    (hvote : ∀ vote, s'.Sent (.checkPoint vote) → (servers i).Sent (.checkPoint vote) ∨ Backed f servers vote.view) :
    Lawful n f (Function.update servers i s') := by
  have hfounded := (h.foundedMove ho hi hconf hm hvote).founded
  have hordered := OrderlyMove.ordered ⟨h.ordered, ho, hi, hconf, h.inViews i, h.started hi, hm⟩
  have hown : ∀ j, (Function.update servers i s' j).id = j ∧ (Function.update servers i s' j).SpeaksOwn := by
    rw [Function.forall_update_iff servers fun j s => s.id = j ∧ s.SpeaksOwn]
    exact ⟨⟨hm.fixed.1.trans (h.own i).1, (h.own i).2.move hconf.wf hm⟩, fun j _ => h.own j⟩
  refine ⟨?_, hown, hordered, ?_⟩
  · rw [Function.forall_update_iff servers fun _ s => s.InViews]
    exact ⟨(h.inViews i).move hconf.wf hm, fun j _ => h.inViews j⟩
  · intro j hj
    rcases eq_or_ne j i with rfl | hne
    · rwa [Function.update_self]
    · rw [Function.update_of_ne hne]
      exact (h.founded j hj).update (trace_subset_update hm.trace_suffix)

theorem World.Reached.entered_le {w : World A} {byz : Finset ℤ} (h : World.Reached env byz n f initSeq as ok ext w)
    (j : ℤ) {view : ℤ} {v : List ViewChangeArgs} (hv : .enterView view v ∈ (w.servers j).trace) :
    view ≤ (w.servers j).view := by
  refine h.forall_servers (fun s => ∀ view v, .enterView view v ∈ s.trace → view ≤ s.view) ?_ ?_ ?_ j view v hv
  · intro j view v hv
    simp [Server.new] at hv
  · intro s s' _ hs hm view v hv
    rcases hm.entered hv with hv | ⟨_, _, _, _, -, -, -, hview⟩
    · exact (hs view v hv).trans hm.view_le
    · exact hview.ge
  · exact fun s as hs => hs

/-- A server that votes in its view has got a commit message of another one for that view. -/
theorem Lawful.backed_of_heard (h : Lawful n f servers) (hi : i ∈ ids n) {args : CommitArgs}
    (hheard : Heard n ∅ servers i (.commit args)) (hview : args.view = (servers i).view) :
    Backed f servers (servers i).view := by
  rcases hheard with ⟨j, hj, hsent, hne⟩ | ⟨j, hj, -⟩ | hr
  · have hact : MayAct n f servers args.rid args.view := (h.founded j hj.1).sent _ hsent
    have hrid : args.rid = (servers j).id := (h.own j).2.sent _ hsent
    rw [hrid, (h.own j).1, hview] at hact
    have hown : MayAct n f servers i (servers i).view := by
      have hview := (h.founded i hi).view
      rwa [(h.own i).1] at hview
    exact backed_of_two hown hact fun heq => nomatch hne heq.symm
  · exact absurd hj (Finset.notMem_empty j)
  · exact nomatch hr

theorem Lawful.react {w : World A} {a : Action} {orders : Orders} (h : Lawful n f w.servers) (hi : a.dst ∈ ids n)
    (hconf : Configured n f a.dst (w.servers a.dst))
    (ho : Openings n (Function.update w.servers a.dst (after ((w.servers a.dst).react env orders a.input))))
    (hentered : ∀ view v, .enterView view v ∈ (w.servers a.dst).trace → view ≤ (w.servers a.dst).view)
    (hheard : ∀ msg, a.input = .message msg → Heard n ∅ w.servers a.dst msg) :
    Lawful n f (Function.update w.servers a.dst (after ((w.servers a.dst).react env orders a.input))) := by
  have hmoves : Moves env (fun s => Takes n ∅ (Function.update w.servers a.dst s) (fun _ _ _ => True) a.dst)
      (w.servers a.dst) (after ((w.servers a.dst).react env orders a.input)) :=
    moves_of_react (fun _ _ _ _ _ _ => trivial) hconf fun msg hmsg => ⟨hheard msg hmsg, trivial⟩
  refine inv_of_moves_within (fun s₁ s₂ hm₁ ht₂ hinv₁ hm₂ => ?_) h hmoves List.suffix_rfl
  have hat : Function.update w.servers a.dst s₁ a.dst = s₁ := Function.update_self ..
  have ho₂ : Openings n (Function.update w.servers a.dst s₂) := by
    refine ho.before fun j => ?_
    rcases eq_or_ne j a.dst with rfl | hne
    · rw [Function.update_self, Function.update_self]
      exact ht₂.subset
    · rw [Function.update_of_ne hne, Function.update_of_ne hne]
      exact List.Subset.refl _
  have hidem : Function.update (Function.update w.servers a.dst s₁) a.dst s₂ = Function.update w.servers a.dst s₂ :=
    Function.update_idem ..
  rw [← hidem] at ho₂ ⊢
  refine hinv₁.move (C := fun _ _ _ => True) ho₂ hi ?_ (by rwa [hat]) fun vote hvote => ?_
  · rw [hat]
    exact hconf.moves hm₁
  · rw [hat]
    rcases (binds_react hconf.wf a.input).of_mem _ rfl (ht₂.subset hvote) with hold | hnew
    · exact .inl (hm₁.trace_suffix.subset hold)
    · cases hnew with
      | votes _ args ha hview =>
        refine (hm₂.sent_checkPoint hvote).imp_right fun hcast => ?_
        rw [hcast.1]
        have hno : ∀ view v, .enterView view v ∈ s₁.trace → .enterView view v ∈ (w.servers a.dst).trace := by
          intro view v hev
          have hev' := ht₂.subset (hm₂.trace_suffix.subset hev)
          rcases (binds_react hconf.wf a.input).of_mem _ rfl hev' with hold | hnew
          · exact hold
          · cases hnew with
            | enters _ _ hother => exact absurd ha (hother args)
        rcases hm₁.view_eq_or hentered hno with hsame | hadopt
        · rw [hsame]
          exact (h.backed_of_heard hi (hheard _ ha) hview).mono (trace_subset_update hm₁.trace_suffix)
        · have hadopted := (hinv₁.founded a.dst hi).adopted s₁.view
          rw [hat] at hadopted
          exact hadopted hadopt

theorem Ordered.external (h : Ordered n servers) (i : ℤ) (as : A) :
    Ordered n (Function.update servers i { servers i with as := as }) := by
  have htrace := trace_external_subset servers i as
  have hback : ∀ j, (servers j).trace ⊆ (Function.update servers i { servers i with as := as } j).trace :=
    trace_subset_update List.suffix_rfl
  have hview := update_external servers i as Server.view fun _ _ => rfl
  have htSeq := update_external servers i as Server.tSeq fun _ _ => rfl
  have hheld := update_external servers i as Server.assignments fun _ _ => rfl
  refine ⟨?_, ?_, ?_, ?_, ?_, ?_, ?_⟩
  · intro j view v hev
    obtain ⟨nv, hnv, heq⟩ := h.entered j view v (htrace j hev)
    exact ⟨nv, hnv.mono hback, heq⟩
  · exact fun nv hnv => h.positive nv (hnv.mono htrace)
  · intro j a ha
    rw [hheld] at ha
    exact (h.held j a ha).mono hback
  · intro a ha hpos
    obtain ⟨nv, hnv, hat, hcase⟩ := h.begun a (ha.mono htrace) hpos
    rw [hview]
    exact ⟨nv, hnv.mono hback, hat, hcase⟩
  · exact fun a a' ha ha' => h.once a a' (ha.mono htrace) (ha'.mono htrace)
  · intro a ha hin
    rw [hview] at hin
    rw [htSeq]
    exact h.given a (ha.mono htrace) hin
  · intro nv hnv hin
    rw [hview] at hin
    rw [htSeq]
    exact h.leader nv (hnv.mono htrace) hin

theorem Founded.external {G : Grounds} {s : Server A} (h : Founded G s) (as : A) :
    Founded G ({ s with as := as } : Server A) :=
  ⟨h.view, h.sent, h.background, h.prepares, h.marked, h.stored, h.votes, h.adopted⟩

theorem Lawful.external (h : Lawful n f servers) (i : ℤ) (as : A) :
    Lawful n f (Function.update servers i { servers i with as := as }) where
  inViews := by
    rw [Function.forall_update_iff servers fun _ s => s.InViews]
    exact ⟨(h.inViews i).external as, fun j _ => h.inViews j⟩
  own := by
    rw [Function.forall_update_iff servers fun j s => s.id = j ∧ s.SpeaksOwn]
    exact ⟨⟨(h.own i).1, (h.own i).2.external as⟩, fun j _ => h.own j⟩
  ordered := h.ordered.external i as
  founded := by
    have hback : ∀ j, (servers j).trace ⊆ (Function.update servers i { servers i with as := as } j).trace :=
      trace_subset_update List.suffix_rfl
    rw [Function.forall_update_iff servers fun j s => j ∈ ids n → Founded (grounds n f _) s]
    exact ⟨fun hi => ((h.founded i hi).external as).update hback, fun j _ hj => (h.founded j hj).update hback⟩

theorem World.Reached.lawful {w : World A} (h : World.Reached env ∅ n f initSeq as ok ext w) :
    Lawful n f w.servers := by
  refine (h.invariant_of_puts (fun w => Lawful n f w.servers) Lawful.new ?_ fun w i as hinv _ => hinv.external i as).2
  intro w orders a hreached hreached' hcorrect hconf _ hinv _ hheard
  have ho := (hreached'.opensOnce (P := fun _ => True) fun _ _ _ _ _ _ _ => trivial).openings
  rw [World.servers_put] at ho ⊢
  exact hinv.react hcorrect.1 (hconf a.dst) ho (fun view v => hreached.entered_le a.dst) hheard

/-- The server has executed an operation in the view, has voted for a checkpoint in it, or reports an operation of it
as prepared. -/
def Server.ActedIn (s : Server A) (view : ℤ) : Prop :=
  (∃ seq op auxiliary, .updateSeq view seq op auxiliary ∈ s.trace) ∨
    (∃ vote, s.Sent (.checkPoint vote) ∧ vote.view = view) ∨
    ∃ vc, s.Sent (.viewChange vc) ∧ ∃ pm ∈ vc.p, ∃ pp, pm.pp = some pp ∧ pp.view = view

theorem World.Reached.backed {w : World A} (h : World.Reached env ∅ n f initSeq as ok ext w) (hi : i ∈ ids n) {view : ℤ}
    (hacted : (w.servers i).ActedIn view) : Backed f w.servers view := by
  have hlawful := h.lawful
  have ho := (h.opensOnce (P := fun _ => True) fun _ _ _ _ _ _ _ => trivial).openings
  rcases hacted with ⟨seq, op, auxiliary, hop⟩ | ⟨vote, hvote, rfl⟩ | ⟨vc, hvc, pm, hpm, pp, hpp, rfl⟩
  · obtain ⟨r, pp, hpp, hcom, rfl, -, -⟩ := (h.saysOnce i).executed _ _ _ _ hop
    have hf : (w.servers i).f = f := h.forall_servers (fun s => s.f = f) (fun _ => rfl)
      (fun _ _ _ hs hm => hm.fixed.2.2.trans hs) (fun _ _ hs => hs) i
    rw [Server.committed_iff, hf] at hcom
    obtain ⟨hsub, hsent⟩ := commitSenders_spec h.authentic (Finset.empty_subset _) ⟨hi, Finset.notMem_empty i⟩ hpp
    refine backed_of_quorum ho hcom fun k hk => ?_
    obtain ⟨-, c, hc, hview, -⟩ := hsent k hk (Finset.notMem_empty k)
    have hact : MayAct n f w.servers c.rid c.view :=
      (hlawful.founded k (List.mem_toFinset.mp (hsub hk))).sent _ hc
    have hrid : c.rid = (w.servers k).id := (hlawful.own k).2.sent _ hc
    rwa [hrid, (hlawful.own k).1, hview] at hact
  · exact (hlawful.founded i hi).sent _ hvote
  · have htold : Told n f w.servers vc := (hlawful.founded i hi).sent _ hvc
    exact (htold.2.2 pm hpm pp hpp).1

/-- Without malicious notaries, an operation is executed or reported as prepared, and a checkpoint is voted for, only in
a view that a quorum of different notaries has asked for, though the leader of a view goes into it on any view changes:
it has announced the view on view changes of more than `2f` notaries, which have all sent theirs. -/
theorem acts_on_quorum {w : World A} (h : World.Reached env ∅ n f initSeq as ok ext w) (hi : i ∈ ids n) {view : ℤ}
    (hview : view ≠ 0) (hacted : (w.servers i).ActedIn view) :
    ∃ nv, (w.servers (view.tmod n)).Sent (.newView nv) ∧ nv.view = view ∧ 2 * f < (changeSenders view nv.v).card ∧
      ∀ vc ∈ nv.v, (w.servers vc.rid).Sent (.viewChange vc) := by
  obtain ⟨nv, hnv, rfl, hquorum⟩ := (h.backed hi hacted).resolve_left hview
  have ho := (h.opensOnce (P := fun _ => True) fun _ _ _ _ _ _ _ => trivial).openings
  have hsent := ho.sent hnv
  have hlead := ho.of_sent h.lawful.ordered (length_ids n ▸ List.length_pos_of_mem hi) hsent
  refine ⟨nv, hsent, rfl, hquorum, fun vc hvc => ?_⟩
  have htold : Told n f w.servers vc := (h.lawful.founded _ hlead).sent _ hsent vc hvc
  exact htold.2.1

end Reached

/-- Server 0 executes in view 2, which servers 2, 3 and 0 have asked for. -/
theorem acts_on_quorum_four : ∃ w : World Unit, .updateSeq 2 0 "a" "#a" ∈ (w.servers 0).trace ∧
    ∃ nv, (w.servers ((2 : ℤ).tmod (4 : ℕ))).Sent (.newView nv) ∧ nv.view = 2 ∧ 2 * 1 < (changeSenders 2 nv.v).card ∧
      ∀ vc ∈ nv.v, (w.servers vc.rid).Sent (.viewChange vc) := by
  have hrun : ((World.new Env.plain 4 1 (fun _ => 0) fun _ => ()).plays Env.plain ∅ (fun _ _ _ => True)
      (prepareFirst ++ prepareAgain ++ executeBoth)).map (fun w =>
        decide (.updateSeq 2 0 "a" "#a" ∈ (w.servers 0).trace)) = some true := by
    decide +kernel
  obtain ⟨w, hw, hmem⟩ := Option.map_eq_some_iff.mp hrun
  have hop := of_decide_eq_true hmem
  have hreached : World.Reached Env.plain ∅ 4 1 (fun _ => 0) (fun _ => ()) (fun _ _ _ => True) Eq w :=
    World.reached_plays (.init rfl) hw
  exact ⟨w, hop, acts_on_quorum hreached (i := 0) (by decide) (by decide) (.inl ⟨0, "a", "#a", hop⟩)⟩

end DistributedNotary.Pbft
