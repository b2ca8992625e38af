import DistributedNotary.Pbft.Worlds

/-! Where the operations of a server come from. `G seq op auxiliary` says that
the operation may stand at the number with this auxiliary. The preprepare
messages that reach a server, directly or in view changes, bring nothing else
into its entries, its messages and what it executes, as a new view keeps every
operation at its number and fills the gaps with the empty operation. -/
namespace DistributedNotary.Pbft

open Library Server

variable {A : Type}

def PrePrepareArgs.Keeps (G : ℤ → String → String → Prop) (pp : PrePrepareArgs) : Prop :=
  G pp.seq pp.message.op pp.digest

/-- The preprepare messages in a view change keep to `G`. -/
def ViewChangeArgs.Keeps (G : ℤ → String → String → Prop) (vc : ViewChangeArgs) : Prop :=
  ∀ pm ∈ vc.p, ∀ pp, pm.pp = some pp → pp.Keeps G

/-- What the message brings to those that go by it. -/
def Msg.Brings (G : ℤ → String → String → Prop) : Msg → Prop
  | .prePrepare pp => pp.Keeps G
  | .viewChange vc => vc.Keeps G
  | .newView nv => ∀ vc ∈ nv.v, vc.Keeps G
  | _ => True

def Event.Keeps (G : ℤ → String → String → Prop) : Event → Prop
  | .send msg => msg.Brings G
  | .updateSeq _ seq op auxiliary => G seq op auxiliary
  | .enterView _ v => ∀ vc ∈ v, vc.Keeps G
  | _ => True

/-- What the server keeps, has sent and has executed. -/
structure Carries (G : ℤ → String → String → Prop) (s : Server A) : Prop where
  entries : ∀ r pp, (s.heap r).pp = some pp → pp.Keeps G
  stored : ∀ view v, s.vcs.lookup view = some v → ∀ vc ∈ v, vc.Keeps G
  events : ∀ e ∈ s.trace, e.Keeps G

section NewView

variable {G : ℤ → String → String → Prop}

/-- An operation of a new view is empty, or comes from a preprepare message with the same number. -/
theorem of_mem_newViewOf {view mins maxs : ℤ} {v : List ViewChangeArgs} {pps : List PrePrepareArgs}
    (h : newViewOf view v = some (mins, maxs, pps)) {pp : PrePrepareArgs} (hpp : pp ∈ pps) :
    (pp.message = {} ∧ pp.digest = "") ∨
      ∃ vc ∈ v, ∃ pm ∈ vc.p, ∃ pp', pm.pp = some pp' ∧ pp'.seq = pp.seq ∧ pp'.message = pp.message ∧
        pp'.digest = pp.digest := by
  obtain ⟨⟨mins', maxs', pprepared⟩, hcalc, hr⟩ := Option.map_eq_some_iff.mp h
  simp only [Prod.mk.injEq] at hr
  obtain ⟨rfl, rfl, rfl⟩ := hr
  obtain ⟨j, -, rfl⟩ := List.mem_map.mp hpp
  unfold calcMinMaxspp at hcalc
  obtain ⟨cps, -, hcalc⟩ := Option.bind_eq_some_iff.mp hcalc
  obtain ⟨l, hl, hcalc⟩ := Option.bind_eq_some_iff.mp hcalc
  simp only [Option.pure_def, Option.some.injEq, Prod.mk.injEq] at hcalc
  obtain ⟨-, -, hmap⟩ := hcalc
  simp only []
  split
  · next pp' hlookup =>
    rw [← hmap, RangeMap.lookup_foldl_insert, AList.lookup_empty, Option.or_none] at hlookup
    have hmem := List.mem_reverse.mp (List.mem_of_find?_eq_some hlookup)
    have hfound := List.find?_some hlookup
    have hseq := of_decide_eq_true hfound
    obtain ⟨pm, hpm, hpp'⟩ := exists_of_mapM_eq_some hl hmem
    obtain ⟨vc, hvc, hpm⟩ := List.mem_flatMap.mp hpm
    exact .inr ⟨vc, hvc, pm, hpm, pp', hpp', hseq, rfl, rfl⟩
  · exact .inl ⟨rfl, rfl⟩

theorem keeps_newViewOf (hG : ∀ seq, G seq "" "") {view mins maxs : ℤ} {v : List ViewChangeArgs}
    {pps : List PrePrepareArgs} (hv : ∀ vc ∈ v, vc.Keeps G) (h : newViewOf view v = some (mins, maxs, pps))
    {pp : PrePrepareArgs} (hpp : pp ∈ pps) : pp.Keeps G := by
  rcases of_mem_newViewOf h hpp with ⟨hmessage, hdigest⟩ | ⟨vc, hvc, pm, hpm, pp', hpp', hseq, hmessage, hdigest⟩
  · unfold PrePrepareArgs.Keeps
    rw [hmessage, hdigest]
    exact hG pp.seq
  · have hkeeps := hv vc hvc pm hpm pp' hpp'
    unfold PrePrepareArgs.Keeps at hkeeps ⊢
    rwa [hseq, hmessage, hdigest] at hkeeps

end NewView

namespace Carries

variable {env : Env A} {K : Server A → Msg → Prop} {G G' : ℤ → String → String → Prop} {s s' : Server A}

theorem mono (h : Carries G s) (hG : ∀ seq op auxiliary, G seq op auxiliary → G' seq op auxiliary) : Carries G' s where
  entries r pp hr := hG _ _ _ (h.entries r pp hr)
  stored view v hv vc hvc pm hpm pp hpp := hG _ _ _ (h.stored view v hv vc hvc pm hpm pp hpp)
  events e he := by
    have hvcs {v : List ViewChangeArgs} (hv : ∀ vc ∈ v, vc.Keeps G) : ∀ vc ∈ v, vc.Keeps G' :=
      fun vc hvc pm hpm pp hpp => hG _ _ _ (hv vc hvc pm hpm pp hpp)
    have hkeeps := h.events e he
    cases e with
    | send msg =>
      cases msg with
      | prePrepare pp => exact hG _ _ _ hkeeps
      | viewChange vc => exact fun pm hpm pp hpp => hG _ _ _ (hkeeps pm hpm pp hpp)
      | newView nv => exact hvcs hkeeps
      | _ => trivial
    | updateSeq view seq op auxiliary => exact hG _ _ _ hkeeps
    | enterView view v => exact hvcs hkeeps
    | _ => trivial

theorem new (env : Env A) (rid : ℤ) (f : ℕ) (initSeq : ℤ) (nodes : List ℤ) (as : A) :
    Carries G (Server.new env rid f initSeq nodes as) where
  entries r pp hr := nomatch hr
  stored view v hv := by simp [Server.new] at hv
  events e he := by simp [Server.new] at he

/-- Nothing but one event is noted, and entries keep their preprepare messages. -/
theorem of_note (h : Carries G s) (hp : ∀ r pp, (s'.heap r).pp = some pp → pp.Keeps G) (hvcs : s'.vcs = s.vcs)
    {e : Event} (ht : s'.trace = e :: s.trace) (he : e.Keeps G) : Carries G s' where
  entries := hp
  stored := hvcs ▸ h.stored
  events e' he' := by
    rw [ht] at he'
    rcases List.mem_cons.mp he' with rfl | he'
    · exact he
    · exact h.events e' he'

theorem of_eq (h : Carries G s) (hp : ∀ r pp, (s'.heap r).pp = some pp → pp.Keeps G) (hvcs : s'.vcs = s.vcs)
    (ht : s'.trace = s.trace) : Carries G s' where
  entries := hp
  stored := hvcs ▸ h.stored
  events := ht ▸ h.events

theorem entries_update (h : Carries G s) (r : ℕ) {ent : Entry} (hent : ∀ pp, ent.pp = some pp → pp.Keeps G) :
    ∀ r' pp, (Function.update s.heap r ent r').pp = some pp → pp.Keeps G := by
  intro r' pp hpp
  by_cases e : r' = r
  · subst e
    rw [Function.update_self] at hpp
    exact hent pp hpp
  · rw [Function.update_of_ne e] at hpp
    exact h.entries r' pp hpp

theorem answered (h : Carries G s) (hs : s.WF) {queue : PriorityQueue PendingTask} {m : PQElem PendingTask}
    {pp : PrePrepareArgs} (hq : s.applyQueue.extractMin = (queue, some m)) (hpp : (s.heap m.c.ent).pp = some pp) :
    (Event.updateSeq m.c.args.view m.c.seq pp.message.op pp.digest).Keeps G := by
  obtain ⟨hlt, -, -, -, hid, -⟩ := hs.tasks m (by
    rw [PriorityQueue.content_of_extractMin hq]
    exact List.mem_cons_self ..)
  have hseq := hs.pps _ pp hlt hpp
  rw [hid] at hseq
  simp only [EntryID.mk.injEq] at hseq
  have hkeeps := h.entries _ pp hpp
  unfold PrePrepareArgs.Keeps at hkeeps
  rwa [← hseq.2] at hkeeps

theorem storeViewChange (h : Carries G s) {vc : ViewChangeArgs} (hvc : vc.Keeps G) :
    Carries G { s with vcs := s.vcs.insert vc.view ((s.vcs.lookup vc.view).getD [] ++ [vc]) } where
  entries := h.entries
  stored view v hv vc' hvc' := by
    simp only [RangeMap.lookup_insert_eq] at hv
    split at hv
    · obtain rfl := Option.some.inj hv
      exact RangeMap.forall_mem_append h.stored vc.view hvc vc' hvc'
    · exact h.stored view v hv vc' hvc'
  events := h.events

theorem generateViewChange (h : Carries G s) (order : Range EntryID) (cp : CheckPoint) :
    (s.generateViewChange order cp).Keeps G := by
  intro pm hpm pp hpp
  obtain ⟨kr, -, hpm⟩ := List.mem_filterMap.mp hpm
  simp only [] at hpm
  split_ifs at hpm
  obtain rfl := Option.some.inj hpm
  exact h.entries kr.2 pp hpp

theorem enterView (h : Carries G s) {nv : NewViewArgs} {mins maxs : ℤ} {ps : List PrepareArgs}
    (hv : ∀ vc ∈ nv.v, vc.Keeps G) : Carries G (s.startView nv.view mins maxs nv.v ps) where
  entries := h.entries
  stored view v hlookup := h.stored view v (RangeMap.lookup_of_lookup_filter hlookup).1
  events e he := by
    rcases List.mem_cons.mp he with rfl | he
    · exact hv
    · exact h.events e he

/-- A server that may enter a view knows nothing but such view changes. -/
theorem of_mayEnter (h : Carries G s) (hK : ∀ msg, K s msg → msg.Brings G) {nv : NewViewArgs} {mins maxs : ℤ}
    {pps : List PrePrepareArgs} (henter : MayEnter K s nv mins maxs pps) : ∀ vc ∈ nv.v, vc.Keeps G := by
  rcases henter.2.2 with ⟨-, -, hlookup, -⟩ | ⟨hk, -⟩
  · exact h.stored _ _ hlookup
  · exact hK _ hk

/-- A move keeps to `G` if what it goes by does, and what it proposes. -/
theorem move (h : Carries G s) (hs : s.WF) (hG : ∀ seq, G seq "" "") (hK : ∀ msg, K s msg → msg.Brings G)
    (hpropose : ∀ pp, s'.Sent (.prePrepare pp) → pp.Keeps G) (hm : Move env K s s') : Carries G s' := by
  cases hm with
  | newEntry n hnew => exact h.of_eq (h.entries_update s.next fun _ hpp => nomatch hpp) rfl rfl
  | relay args hk => exact h.of_note h.entries rfl rfl trivial
  | respond ref r hr => exact h.of_note h.entries rfl rfl trivial
  | propose args digest as seqmap hk hc hl hnew hH has =>
    exact h.of_note h.entries rfl rfl (hpropose _ (List.mem_cons_self ..))
  | repropose n r pp hc hl hr hpp => exact h.of_note h.entries rfl rfl (hpropose _ (List.mem_cons_self ..))
  | accept r pp hk hc hw hr ha =>
    exact h.of_note (h.entries_update r fun pp' hpp' => Option.some.inj hpp' ▸ hK _ hk) rfl rfl trivial
  | sendBackground k p ps hb => exact h.of_note h.entries rfl rfl trivial
  | addPrepare r args hk hc hw hr hm => exact h.of_eq (h.entries_update r (h.entries r)) rfl rfl
  | sendCommit r pp as hc hw hr hpp hs hp has => exact h.of_note (h.entries_update r (h.entries r)) rfl rfl trivial
  | addCommit r args hk hc hw hr hm => exact h.of_eq (h.entries_update r (h.entries r)) rfl rfl
  | enqueue r args queue hw hr hm hs hrep hcom hseq hq => exact h.of_eq (h.entries_update r (h.entries r)) rfl rfl
  | runTask queue m pp as hq hturn hpp has =>
    exact h.of_note (h.entries_update m.c.ent (h.entries m.c.ent)) rfl rfl (h.answered hs hq hpp)
  | runTaskAndVote queue m pp as reply digest digest' hq hturn hpp has hreply hdiv hslot =>
    have hrun : Carries G (s.runTask queue m pp as) :=
      h.of_note (h.entries_update m.c.ent (h.entries m.c.ent)) rfl rfl (h.answered hs hq hpp)
    have hsend : Carries G ((s.runTask queue m pp as).send (.response reply)) :=
      hrun.of_note hrun.entries rfl rfl trivial
    exact hsend.of_note hsend.entries rfl rfl trivial
  | answerTask queue m pp as cp key hq hcp hstable hle hpp has =>
    exact h.of_note (h.entries_update m.c.ent (h.entries m.c.ent)) rfl rfl (h.answered hs hq hpp)
  | stabilize n cp proof hdiv hcp hs hq hv => exact h.of_note h.entries rfl rfl trivial
  | stabilizeAndResume n cp proof hdiv hcp hs hq hv =>
    have hnote : Carries G (s.note (.stable proof cp.proof)) := h.of_note h.entries rfl rfl trivial
    exact hnote.of_note hnote.entries rfl rfl trivial
  | sendViewChange orders cp hc hcp => exact h.of_note h.entries rfl rfl (h.generateViewChange orders.log cp)
  | storeViewChange vc hk hv => exact h.storeViewChange (hK _ hk)
  | sendNewView nv mins maxs hv hl hlen hvcs hnv => exact h.of_note h.entries rfl rfl (h.stored _ _ hvcs)
  | enterView nv mins maxs pps henter => exact h.enterView (h.of_mayEnter hK henter)
  | takeOne v mins maxs pps pp henter hnv hpp hview hnew =>
    have hkeeps := keeps_newViewOf hG (h.events _ henter) hnv hpp
    exact h.of_eq (h.entries_update s.next fun pp' hpp' => Option.some.inj hpp' ▸ hkeeps) rfl rfl
  | idle | service | touch | vote | settled | startChange | catchUp => exact h.of_eq h.entries rfl rfl

end Carries

end DistributedNotary.Pbft
