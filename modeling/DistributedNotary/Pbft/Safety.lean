import DistributedNotary.Library.Succession
import DistributedNotary.Pbft.Reports
import DistributedNotary.Pbft.ViewEntry

/-! Agreement over all views, where no notary is malicious. A view starts with
what the view changes of a quorum report, and a quorum that has committed an
operation shares a replica with it. Two things are asked of the run that the code
does not see to: that a new view takes the newest of the operations that are
reported for a number, and not the last one it comes across, and that a replica
commits nothing in a view below one that it has announced already. -/
namespace DistributedNotary.Pbft

open Library Relation Server

variable {A : Type}

/-- The operation that the view changes keep for a number is one of the newest that are reported for it. -/
def KeepsNewest (v : List ViewChangeArgs) : Prop :=
  ∀ pp ∈ preprepared v, ∀ pp' ∈ lastPP v pp.seq,
    pp.view ≤ pp'.view ∨ (pp.message.op = pp'.message.op ∧ pp.digest = pp'.digest)

instance instDecidableKeepsNewest : DecidablePred KeepsNewest := fun v => by
  unfold KeepsNewest
  infer_instance

section Numbers

/-- The numbers of a new view lie between those of the checkpoints and those of the reports. -/
theorem calcMinMaxspp_bounds {v : List ViewChangeArgs} {mins maxs : ℤ} {pprepared : RangeMap ℤ PrePrepareArgs}
    (hcalc : calcMinMaxspp v = some (mins, maxs, pprepared)) :
    (∀ vc ∈ v, ∀ cp, vc.cp = some cp → cp.seq ≤ maxs) ∧ ∀ pp ∈ preprepared v, pp.seq ≤ maxs := by
  unfold calcMinMaxspp at hcalc
  obtain ⟨cps, hcps, hcalc⟩ := Option.bind_eq_some_iff.mp hcalc
  obtain ⟨pps, hpps, hcalc⟩ := Option.bind_eq_some_iff.mp hcalc
  simp only [Option.pure_def, Option.some.injEq, Prod.mk.injEq] at hcalc
  obtain ⟨-, rfl, -⟩ := hcalc
  obtain ⟨hcps, -⟩ := filterMap_of_mapM_eq_some hcps
  obtain ⟨rfl, -⟩ := filterMap_of_mapM_eq_some hpps
  have hle (l : List ℤ) (a b : ℤ) (hb : b ∈ l) : b ≤ l.foldl max a := by
    by_contra hlt
    exact absurd (((foldl_max_lt_iff l a b).mp (not_le.mp hlt)).2 b hb) (lt_irrefl b)
  constructor
  · intro vc hvc cp hcp
    have hmem : cp ∈ cps := hcps ▸ List.mem_filterMap.mpr ⟨vc, hvc, hcp⟩
    exact (hle _ (-1) _ (List.mem_map_of_mem hmem)).trans (le_max_right _ _)
  · exact fun pp hpp => (hle _ (-1) _ (List.mem_map_of_mem hpp)).trans (le_max_left _ _)

theorem mem_of_lastPP {v : List ViewChangeArgs} {n : ℤ} {pp : PrePrepareArgs} (h : pp ∈ lastPP v n) :
    ∃ vc ∈ v, ∃ pm ∈ vc.p, pm.pp = some pp ∧ pp.seq = n := by
  have hmem := List.mem_reverse.mp (List.mem_of_find?_eq_some h)
  obtain ⟨pm, hpm, hpp⟩ := List.mem_filterMap.mp hmem
  obtain ⟨vc, hvc, hpm⟩ := List.mem_flatMap.mp hpm
  exact ⟨vc, hvc, pm, hpm, hpp, of_decide_eq_true (List.find?_some (p := fun pp : PrePrepareArgs => pp.seq = n) h)⟩

/-- A number that a view change covers is given in the new view only if it is reported, and then as it is reported
last. -/
theorem ViewChangeArgs.Covers.given {vc : ViewChangeArgs} {c : CommitArgs} (h : vc.Covers c) {nv : NewViewArgs}
    {mins maxs : ℤ} (hmade : newViewOf nv.view nv.v = some (mins, maxs, nv.o)) (hvc : vc ∈ nv.v) {a : Assignment}
    (hseq : a.seq = c.seq) (hcase : (∃ pp ∈ nv.o, pp.assignment = a) ∨ maxs < c.seq) :
    ∃ pm ∈ vc.p, ∃ pp, pm.pp = some pp ∧ pp.view = c.view ∧ pp.seq = c.seq ∧
      ∃ pp' ∈ lastPP nv.v c.seq, pp'.message.op = a.op ∧ pp'.digest = a.auxiliary := by
  obtain ⟨⟨_, _, pprepared⟩, hcalc, heq⟩ := Option.map_eq_some_iff.mp hmade
  simp only [Prod.mk.injEq] at heq
  obtain ⟨rfl, rfl, ho⟩ := heq
  obtain ⟨hcps, hpps⟩ := calcMinMaxspp_bounds hcalc
  rcases h with ⟨cp, hcp, hle⟩ | ⟨pm, hpm, pp, hpp, hview, hppseq, -⟩
  · rcases hcase with ⟨pp, hpp, rfl⟩ | hlt
    · rw [← ho, mem_calcPPS_iff_fills hcalc] at hpp
      have hlt := hpp.1.2.1 vc hvc cp hcp
      exact absurd (hlt.trans_eq hseq) (not_lt.mpr hle)
    · exact absurd (hle.trans (hcps vc hvc cp hcp)) (not_le.mpr hlt)
  · have hmem : pp ∈ preprepared nv.v :=
      List.mem_filterMap.mpr ⟨pm, List.mem_flatMap.mpr ⟨vc, hvc, hpm⟩, hpp⟩
    refine ⟨pm, hpm, pp, hpp, hview, hppseq, ?_⟩
    rcases hcase with ⟨pp', hpp', rfl⟩ | hlt
    · rw [← ho, mem_calcPPS_iff_fills hcalc] at hpp'
      have hseq : pp'.seq = c.seq := hseq
      obtain ⟨last, hlast⟩ : ∃ last, lastPP nv.v c.seq = some last := by
        rw [← Option.isSome_iff_exists, lastPP, List.find?_isSome]
        exact ⟨pp, List.mem_reverse.mpr hmem, decide_eq_true hppseq⟩
      have hrenumber := hpp'.2
      rw [hseq, hlast] at hrenumber
      exact ⟨last, hlast, by rw [hrenumber]; rfl, by rw [hrenumber]; rfl⟩
    · exact absurd (hppseq ▸ hpps pp hmem) (not_le.mpr hlt)

end Numbers

section Changes

variable {env : Env A} {K : Server A → Msg → Prop} {s s' : Server A}

/-- The view changes that are kept for a view, and those of a new view message, are for that view. -/
structure Server.Sorts (s : Server A) : Prop where
  kept : ∀ view, ∀ vc ∈ s.changes view, vc.view = view
  sent : ∀ nv, s.Sent (.newView nv) → ∀ vc ∈ nv.v, vc.view = nv.view

theorem Server.Sorts.move (h : s.Sorts) (hm : Move env K s s') : s'.Sorts := by
  refine ⟨fun view vc hvc => ?_, fun nv hnv => ?_⟩
  · cases hm with
    | storeViewChange vc' hk hv =>
      change vc ∈ ({ s with vcs := s.vcs.insert vc'.view (s.changes vc'.view ++ [vc']) } : Server A).changes view at hvc
      rw [EntersOnQuorum.changes_insert] at hvc
      split at hvc
      · next heq =>
        subst heq
        rcases List.mem_append.mp hvc with hvc | hvc
        · exact h.kept _ vc hvc
        · rw [List.mem_singleton.mp hvc]
      · exact h.kept view vc hvc
    | enterView nv mins maxs pps he hmins =>
      unfold changes at hvc
      cases hl : (removeOldViewChange nv.view s.vcs).lookup view with
      | none =>
        change vc ∈ ((removeOldViewChange nv.view s.vcs).lookup view).getD [] at hvc
        rw [hl] at hvc
        exact absurd hvc List.not_mem_nil
      | some v =>
        change vc ∈ ((removeOldViewChange nv.view s.vcs).lookup view).getD [] at hvc
        rw [hl] at hvc
        refine h.kept view vc ?_
        rw [changes, (RangeMap.lookup_of_lookup_filter hl).1]
        exact hvc
    | _ => exact h.kept view vc hvc
  · unfold Sent at hnv
    cases hm with
    | sendNewView nv' mins maxs hv hl hlen hvcs hmade =>
      rcases List.mem_cons.mp hnv with heq | hnv
      · obtain rfl := Msg.newView.inj (Event.send.inj heq)
        intro vc hvc
        refine h.kept nv.view vc ?_
        rw [changes, hvcs]
        exact hvc
      · exact h.sent nv hnv
    | _ => exact h.sent nv (by simpa [Sent] using hnv)

end Changes

section Reached

variable {env : Env A} {n f : ℕ} {initSeq : ℤ → ℕ} {as : ℤ → A} {ext : A → A → Prop}
  {ok : World A → Orders → Action → Prop} {w : World A}

theorem World.Reached.sorts {byz : Finset ℤ} (h : World.Reached env byz n f initSeq as ok ext w) (i : ℤ) :
    (w.servers i).Sorts := by
  refine h.forall_servers Sorts (fun i => ⟨fun view vc hvc => ?_, fun nv hnv => ?_⟩) (fun _ _ _ hs hm => hs.move hm)
    (fun _ _ hs => ⟨hs.kept, hs.sent⟩) i
  · simp [Server.new, changes] at hvc
  · simp [Server.new, Sent] at hnv

/-- The replica has committed operation `x` as number `seq` of the view, where a quorum has asked for the view. -/
def Supports (f : ℕ) (servers : ℤ → Server A) (seq i : ℤ) (view : ℕ) (x : String × String) : Prop :=
  (Backed f servers view ∧ Issued servers ⟨view, seq, x.1, x.2⟩) ∧
    ∃ c, (servers i).Sent (.commit c) ∧ c.view = view ∧ c.seq = seq ∧ c.digest = x.2

/-- A number that replicas of a quorum may have committed before a view is given in it as one of them reports it. -/
theorem Lawful.inherits (h : Lawful n f w.servers) (ho : OpensOnce n KeepsNewest w)
    (hreported : ∀ i, (w.servers i).Reported)
    (hsorts : ∀ i, (w.servers i).Sorts) (hn : 0 < n) {seq : ℤ} {v u : ℕ} {y : String × String}
    (hlt : v < u) (hbacked : Backed f w.servers u) (hissued : Issued w.servers ⟨u, seq, y.1, y.2⟩) :
    ∃ Q : Finset ℤ, (Q ⊆ (ids n).toFinset ∧ 2 * f < Q.card) ∧ ∀ i ∈ Q, ∀ x, Supports f w.servers seq i v x →
      ∃ t : ℕ, v ≤ t ∧ t < u ∧ Backed f w.servers t ∧ Issued w.servers ⟨t, seq, y.1, y.2⟩ := by
  have hpos : 0 < (u : ℤ) := by omega
  obtain ⟨nv, hnv, hview, hquorum⟩ := hbacked.resolve_left hpos.ne'
  obtain ⟨nv', hnv', hview', hcase⟩ := h.ordered.begun _ hissued hpos
  obtain rfl := ho.openings.eq_of_view hnv hnv' (hview.trans hview'.symm)
  obtain ⟨j, hj⟩ := hnv
  have htold : ∀ vc ∈ nv.v, Told n f w.servers vc := (h.founded j (ho.openings.of_sent h.ordered hn hj)).sent _ hj
  obtain ⟨mins, maxs, hmade⟩ := ho.openings.made j nv hj
  refine ⟨changeSenders u nv.v, ⟨?_, hquorum⟩, ?_⟩
  · intro i hi
    rw [changeSenders, List.mem_toFinset] at hi
    obtain ⟨vc, hvc, rfl⟩ := List.mem_map.mp hi
    exact List.mem_toFinset.mpr (htold vc (List.mem_filter.mp hvc).1).1
  · rintro i hi x ⟨-, c, hc, hcview, hcseq, -⟩
    rw [changeSenders, List.mem_toFinset] at hi
    obtain ⟨vc, hvc, rfl⟩ := List.mem_map.mp hi
    obtain ⟨hvc, hvcview⟩ := List.mem_filter.mp hvc
    have hvcview := of_decide_eq_true hvcview
    -- the view change of the replica covers the number, and the view starts from it
    have hcovers : vc.Covers c := hreported vc.rid vc c (htold vc hvc).2.1 hc (by omega)
    have hcase' : (∃ pp ∈ nv.o, pp.assignment = ⟨u, seq, y.1, y.2⟩) ∨ maxs < c.seq := by
      refine hcase.imp_right fun hlater => ?_
      rw [hcseq]
      exact hlater.2 mins maxs nv.o hmade
    obtain ⟨pm, hpm, pp, hpp, hppview, hppseq, pp', hlast, hop, hdigest⟩ :=
      hcovers.given hmade hvc hcseq.symm hcase'
    have hmem : pp ∈ preprepared nv.v :=
      List.mem_filterMap.mpr ⟨pm, List.mem_flatMap.mpr ⟨vc, hvc, hpm⟩, hpp⟩
    obtain ⟨vc', hvc', pm', hpm', hpp', hseq'⟩ := mem_of_lastPP hlast
    have hreport := (htold vc hvc).2.2 pm hpm pp hpp
    have hreport' := (htold vc' hvc').2.2 pm' hpm' pp' hpp'
    rw [(hsorts j).sent nv hj vc' hvc', hview] at hreport'
    have hgives {q : PrePrepareArgs} (hseq : q.seq = seq) (hop : q.message.op = y.1) (hdigest : q.digest = y.2) :
        q.assignment = ⟨q.view, seq, y.1, y.2⟩ := by
      rw [← hseq, ← hop, ← hdigest]
      rfl
    have hkept := ho.sound j nv hj pp hmem pp'
    rw [hppseq] at hkept
    rcases hkept hlast with hle | ⟨hop', hdigest'⟩
    · have hnonneg : 0 ≤ pp'.view := by omega
      refine ⟨pp'.view.toNat, by omega, by omega, ?_⟩
      rw [Int.toNat_of_nonneg hnonneg, ← hgives (hseq'.trans hcseq) hop hdigest]
      exact ⟨hreport'.1, hreport'.2.2⟩
    · refine ⟨v, le_rfl, hlt, ?_⟩
      rw [← hcview, ← hppview, ← hgives (hppseq.trans hcseq) (hop'.trans hop) (hdigest'.trans hdigest)]
      exact ⟨hreport.1, hreport.2.2⟩

/-- What a quorum has committed as a number of a view is what every later view has for that number. -/
theorem Lawful.succession (h : Lawful n f w.servers) (ho : OpensOnce n KeepsNewest w)
    (hreported : ∀ i, (w.servers i).Reported)
    (hsorts : ∀ i, (w.servers i).Sorts) (hn : 0 < n) (hquorum : n ≤ 4 * f + 1) (seq : ℤ) :
    Succession (fun Q : Finset ℤ => Q ⊆ (ids n).toFinset ∧ 2 * f < Q.card) (Supports f w.servers seq)
      fun (v : ℕ) x => Backed f w.servers v ∧ Issued w.servers ⟨v, seq, x.1, x.2⟩ where
  meet Q Q' hQ hQ' := by
    have hcard : (ids n).toFinset.card + (∅ : Finset ℤ).card < Q.card + Q'.card := by
      have hle : (ids n).toFinset.card ≤ n := (List.toFinset_card_le _).trans (length_ids n).le
      have hempty : (∅ : Finset ℤ).card = 0 := Finset.card_empty
      omega
    obtain ⟨i, hi, hi', -⟩ := exists_mem_inter_notMem hQ.1 hQ'.1 hcard
    exact ⟨i, hi, hi'⟩
  once v x y hx hy := by
    have heq := h.ordered.once _ _ hx.2 hy.2 rfl rfl
    rw [Assignment.mk.injEq] at heq
    exact Prod.ext heq.2.2.1 heq.2.2.2
  real i v x hx := hx.1
  inherits v u y hlt hy := h.inherits ho hreported hsorts hn hlt hy.1 hy.2

/-- An operation that is executed has been committed by a quorum. -/
theorem World.Reached.chosen (h : World.Reached env ∅ n f initSeq as ok ext w) {i : ℤ} (hi : i ∈ ids n) {v seq : ℤ}
    {op auxiliary : String} (hop : .updateSeq v seq op auxiliary ∈ (w.servers i).trace) :
    0 ≤ v ∧ Chosen (fun Q : Finset ℤ => Q ⊆ (ids n).toFinset ∧ 2 * f < Q.card) (Supports f w.servers seq) v.toNat
      (op, auxiliary) := by
  have hv : 0 ≤ v := ((h.lawful.inViews i).executed _ _ _ _ hop).1
  have hissued := h.lawful.ordered.held i ⟨v, seq, op, auxiliary⟩ (mem_assignments.mpr (.inr (.inr hop)))
  have hbacked := h.backed hi (.inl ⟨seq, op, auxiliary, hop⟩)
  have hf : (w.servers i).f = f := h.forall_servers (fun s => s.f = f) (fun _ => rfl)
    (fun _ _ _ hs hm => hm.fixed.2.2.trans hs) (fun _ _ hs => hs) i
  obtain ⟨r, pp, hpp, hcom, rfl, rfl, rfl⟩ := (h.saysOnce i).executed _ _ _ _ hop
  rw [Server.committed_iff, hf] at hcom
  obtain ⟨hsub, hsent⟩ := commitSenders_spec h.authentic (Finset.empty_subset _) ⟨hi, Finset.notMem_empty i⟩ hpp
  refine ⟨hv, _, ⟨hsub, hcom⟩, fun k hk => ?_⟩
  unfold Supports
  rw [Int.toNat_of_nonneg hv]
  exact ⟨⟨hbacked, hissued⟩, (hsent k hk (Finset.notMem_empty k)).2⟩

/-- In every run of notaries that are not malicious two servers that keep, propose or execute a number of one view do
so with the same operation and auxiliary, whatever happens to the messages and to the views. -/
theorem agreement_in_views (h : World.Reached env ∅ n f initSeq as ok ext w) {i j : ℤ} {a a' : Assignment}
    (ha : a ∈ (w.servers i).assignments) (ha' : a' ∈ (w.servers j).assignments) (hview : a.view = a'.view)
    (hseq : a.seq = a'.seq) : a = a' :=
  h.lawful.ordered.once a a' (h.lawful.ordered.held i a ha) (h.lawful.ordered.held j a' ha') hview hseq

/-- Two servers that execute a number execute the same operation: the views from the earlier one to the later one
inherit it from each other. -/
theorem World.Reached.agree (hn : 0 < n) (hquorum : n ≤ 4 * f + 1)
    (h : World.Reached env ∅ n f initSeq as (fun w orders a => a.Collects w orders KeepsNewest ∧ a.StaysOut w) ext w)
    {i j : ℤ} (hi : i ∈ ids n) (hj : j ∈ ids n) {v v' seq : ℤ} {op op' auxiliary auxiliary' : String}
    (hop : .updateSeq v seq op auxiliary ∈ (w.servers i).trace)
    (hop' : .updateSeq v' seq op' auxiliary' ∈ (w.servers j).trace) : op = op' ∧ auxiliary = auxiliary' := by
  have hreported : ∀ i, (w.servers i).Reported := fun i => h.reported i fun _ _ _ hok _ => hok.2
  have hsuccession := h.lawful.succession (h.opensOnce fun _ _ _ hok => hok.1) hreported h.sorts hn hquorum seq
  have heq := hsuccession.agree (h.chosen hi hop).2 (h.chosen hj hop').2
  exact ⟨congrArg Prod.fst heq, congrArg Prod.snd heq⟩

/-- In every run of notaries that are not malicious, whatever happens to their messages and however often the view
changes, two servers that execute a number execute the same operation with the same auxiliary, in whichever views. Two
quorums have to share a notary, every view is announced on view changes of which the newest reports survive, and a
server that has announced a view does not take part in an earlier one. -/
theorem agreement (ext : A → A → Prop) (hn : 0 < n) (hquorum : n ≤ 4 * faults n + 1)
    (h : World.Reached env ∅ n (faults n) initSeq as
      (fun w orders a => a.Collects w orders KeepsNewest ∧ a.StaysOut w) ext w) {i j : ℤ} (hi : i ∈ ids n)
    (hj : j ∈ ids n) {v v' seq : ℤ} {op op' auxiliary auxiliary' : String}
    (hop : .updateSeq v seq op auxiliary ∈ (w.servers i).trace)
    (hop' : .updateSeq v' seq op' auxiliary' ∈ (w.servers j).trace) : op = op' ∧ auxiliary = auxiliary' :=
  h.agree hn hquorum hi hj hop hop'

/-- With `3f+1` servers two quorums always share one, so that no number is executed twice over. -/
theorem no_duplicate (ext : A → A → Prop) (hn : n = 3 * f + 1)
    (h : World.Reached env ∅ n (faults n) initSeq as
      (fun w orders a => a.Collects w orders KeepsNewest ∧ a.StaysOut w) ext w) {i j : ℤ} (hi : i ∈ ids n)
    (hj : j ∈ ids n) {v v' seq : ℤ} {op op' auxiliary auxiliary' : String}
    (hop : .updateSeq v seq op auxiliary ∈ (w.servers i).trace)
    (hop' : .updateSeq v' seq op' auxiliary' ∈ (w.servers j).trace) : op = op' ∧ auxiliary = auxiliary' := by
  have hf : faults n = f := by
    rw [faults]
    omega
  exact h.agree (by omega) (by omega) hi hj hop hop'

end Reached

/-- Prepare messages for an operation, each from one server to another. -/
def prepareAll (view seq : ℤ) (op : String) (hear : List (ℤ × ℤ)) : List Action :=
  hear.map fun ij => .deliver ij.1 ij.2 (.prepare (plainPrepare view seq op ij.1))

/-- Three servers hear each other. -/
def hearing (i j k : ℤ) : List (ℤ × ℤ) := [(j, i), (k, i), (i, j), (k, j), (i, k), (j, k)]

def commitAll (view seq : ℤ) (op : String) (srcs : List ℤ) (dst : ℤ) : List Action :=
  srcs.map fun i => .deliver i dst (.commit (plainCommit view seq op i))

/-- Servers 0, 1 and 2 prepare `a` as number 0 of view 0, and server 0 executes it. -/
def executeFirst : List Action :=
  [.ask 0 "a"] ++ [1, 2].map (.deliver 0 · (.prePrepare (plainPP 0 0 "a"))) ++ prepareAll 0 0 "a" (hearing 0 1 2) ++
    commitAll 0 0 "a" [1, 2] 0

def changeWithA (senders : List ℤ) (rid : ℤ) : ViewChangeArgs :=
  plainChange 1 [{ pp := some (plainPP 0 0 "a"), p := senders.map (plainPrepare 0 0 "a") }] rid

def newViewWithA : NewViewArgs where
  view := 1
  v := [changeWithA [1, 0, 2] 1, changeWithA [2, 0, 1] 2, plainChange 1 [] 3]
  o := [plainPP 1 0 "a"]

/-- The others go into view 1, where server 2 executes `a`. -/
def executeAfterChange : List Action :=
  [1, 2, 3].map (.ask · "b") ++ [1, 2, 3].map .fire ++
    [.deliver 2 1 (.viewChange (changeWithA [2, 0, 1] 2)), .deliver 3 1 (.viewChange (plainChange 1 [] 3))] ++
    [2, 3].map (.deliver 1 · (.newView newViewWithA)) ++ [1, 2, 3].map (.proceed · 0) ++
    prepareAll 1 0 "a" (hearing 1 2 3) ++ commitAll 1 0 "a" [1, 3] 2

/-- Servers 2 and 3 execute `a` in view 1. -/
theorem agreement_in_views_four :
    ∃ w : World Unit, ⟨1, 0, "a", "#a"⟩ ∈ (w.servers 2).assignments ∧ ⟨1, 0, "a", "#a"⟩ ∈ (w.servers 3).assignments ∧
      (⟨1, 0, "a", "#a"⟩ : Assignment) = ⟨1, 0, "a", "#a"⟩ := by
  have hrun : ((World.new Env.plain 4 1 (fun _ => 0) fun _ => ()).plays Env.plain ∅ (fun _ _ _ => True)
      (executeFirst ++ executeAfterChange ++ commitAll 1 0 "a" [1, 2] 3)).map (fun w =>
        decide (.updateSeq 1 0 "a" "#a" ∈ (w.servers 2).trace ∧ .updateSeq 1 0 "a" "#a" ∈ (w.servers 3).trace)) =
      some true := by
    decide +kernel
  obtain ⟨w, hw, hmem⟩ := Option.map_eq_some_iff.mp hrun
  obtain ⟨h₂, h₃⟩ := of_decide_eq_true hmem
  have h₂ : (⟨1, 0, "a", "#a"⟩ : Assignment) ∈ (w.servers 2).assignments := mem_assignments.mpr (.inr (.inr h₂))
  have h₃ : (⟨1, 0, "a", "#a"⟩ : Assignment) ∈ (w.servers 3).assignments := mem_assignments.mpr (.inr (.inr h₃))
  have hreached : World.Reached Env.plain ∅ 4 1 (fun _ => 0) (fun _ => ()) (fun _ _ _ => True) Eq w :=
    World.reached_plays (.init rfl) hw
  exact ⟨w, h₂, h₃, agreement_in_views hreached h₂ h₃ rfl rfl⟩

/-- Server 0 executes `a` in view 0 and server 2 in view 1. -/
theorem executes_across_views :
    ∃ w : World Unit, World.Reached Env.plain ∅ 4 (faults 4) (fun _ => 0) (fun _ => ())
        (fun w orders a => a.Collects w orders KeepsNewest ∧ a.StaysOut w) Eq w ∧
      .updateSeq 0 0 "a" "#a" ∈ (w.servers 0).trace ∧ .updateSeq 1 0 "a" "#a" ∈ (w.servers 2).trace := by
  have hrun : ((World.new Env.plain 4 (faults 4) (fun _ => 0) fun _ => ()).plays Env.plain ∅
      (fun w orders a => a.Collects w orders KeepsNewest ∧ a.StaysOut w) (executeFirst ++ executeAfterChange)).map
        (fun w => decide (.updateSeq 0 0 "a" "#a" ∈ (w.servers 0).trace ∧
          .updateSeq 1 0 "a" "#a" ∈ (w.servers 2).trace)) = some true := by
    decide +kernel
  obtain ⟨w, hw, hmem⟩ := Option.map_eq_some_iff.mp hrun
  exact ⟨w, World.reached_plays (.init rfl) hw, of_decide_eq_true hmem⟩

theorem agreement_four :
    ∃ w : World Unit, .updateSeq 0 0 "a" "#a" ∈ (w.servers 0).trace ∧ .updateSeq 1 0 "a" "#a" ∈ (w.servers 2).trace ∧
      "a" = "a" ∧ "#a" = "#a" := by
  obtain ⟨w, hw, h₀, h₂⟩ := executes_across_views
  exact ⟨w, h₀, h₂, agreement Eq (by decide) (by decide) hw (i := 0) (j := 2) (by decide) (by decide) h₀ h₂⟩

theorem no_duplicate_four :
    ∃ w : World Unit, 4 = 3 * 1 + 1 ∧ .updateSeq 0 0 "a" "#a" ∈ (w.servers 0).trace ∧
      .updateSeq 1 0 "a" "#a" ∈ (w.servers 2).trace ∧ "a" = "a" ∧ "#a" = "#a" := by
  obtain ⟨w, hw, h₀, h₂⟩ := executes_across_views
  exact ⟨w, rfl, h₀, h₂, no_duplicate Eq (f := 1) rfl hw (i := 0) (j := 2) (by decide) (by decide) h₀ h₂⟩

/-- Servers 1, 2 and 3 prepare `b` as number 0 of view 1, and server 1 executes it. -/
def executeB : List Action :=
  [.ask 1 "b"] ++ [2, 3].map (.deliver 1 · (.prePrepare (plainPP 1 0 "b"))) ++ prepareAll 1 0 "b" (hearing 1 2 3) ++
    commitAll 1 0 "b" [2, 3] 1

/-- All go into view 1 on the view changes of servers that have not prepared anything. -/
def goToView1 : List Action :=
  [1, 2, 3].map (.ask · "b") ++ [1, 2, 3].map .fire ++
    [2, 3].map (fun i => .deliver i 1 (.viewChange (plainChange 1 [] i))) ++
    [2, 3, 0].map (.deliver 1 · (.newView newView1))

def changeWithBTo2 (senders : List ℤ) (rid : ℤ) : ViewChangeArgs :=
  plainChange 2 [{ pp := some (plainPP 1 0 "b"), p := senders.map (plainPrepare 1 0 "b") }] rid

/-- The report of view 0 comes last. -/
def newViewOlder : NewViewArgs where
  view := 2
  v := [changeWithBTo2 [2, 1, 3] 2, changeWithBTo2 [3, 1, 2] 3, changeTo2 0 0 [0, 1, 2] 0]
  o := [plainPP 2 0 "a"]

/-- Servers 0, 2 and 3 go into view 2 with the older of two operations, and server 0 executes it. -/
def executeOlder : List Action :=
  [0, 2, 3].map (.ask · "c") ++ [0, 2, 3].map .fire ++
    [.deliver 3 2 (.viewChange (changeWithBTo2 [3, 1, 2] 3)),
      .deliver 0 2 (.viewChange (changeTo2 0 0 [0, 1, 2] 0))] ++
    [0, 3].map (.deliver 2 · (.newView newViewOlder)) ++ [0, 2, 3, 0, 2, 3].map (.proceed · 1) ++
    prepareAll 2 0 "a" (hearing 0 2 3) ++ commitAll 2 0 "a" [2, 3] 0

/-- Servers 1, 2 and 3 announce views 1 and 2, and go into view 1. -/
def announceBoth : List Action :=
  [1, 2, 3].map (.ask · "b") ++ [1, 2, 3, 1, 2, 3].map .fire ++
    [2, 3].map (fun i => .deliver i 1 (.viewChange (plainChange 1 [] i))) ++
    [2, 3].map (.deliver 1 · (.newView newView1))

/-- Server 2 opens view 2 on what was announced before view 1, and server 0 executes `c` there. -/
def executeStale : List Action :=
  [1, 3].map (fun i => .deliver i 2 (.viewChange (plainChange 2 [] i))) ++
    [0, 3].map (.deliver 2 · (.newView { view := 2, v := [2, 1, 3].map (plainChange 2 []), o := [] })) ++
    [.ask 2 "c"] ++ [0, 3].map (.deliver 2 · (.prePrepare (plainPP 2 0 "c"))) ++
    prepareAll 2 0 "c" (hearing 2 0 3) ++ commitAll 2 0 "c" [2, 3] 0

/-- Without either of the two conditions two of four correct servers execute different operations as number 0. -/
theorem disagreement_across_views :
    (∃ w : World Unit, World.Reached Env.plain ∅ 4 (faults 4) (fun _ => 0) (fun _ => ())
      (fun w _ a => a.StaysOut w) Eq w ∧
      .updateSeq 1 0 "b" "#b" ∈ (w.servers 1).trace ∧ .updateSeq 2 0 "a" "#a" ∈ (w.servers 0).trace) ∧
    (∃ w : World Unit, World.Reached Env.plain ∅ 4 (faults 4) (fun _ => 0) (fun _ => ())
        (fun w orders a => a.Collects w orders KeepsNewest) Eq w ∧
      .updateSeq 1 0 "b" "#b" ∈ (w.servers 1).trace ∧ .updateSeq 2 0 "c" "#c" ∈ (w.servers 0).trace) := by
  constructor
  · have hrun : ((World.new Env.plain 4 (faults 4) (fun _ => 0) fun _ => ()).plays Env.plain ∅
        (fun w _ a => a.StaysOut w) (prepareFirst ++ goToView1 ++ executeB ++ executeOlder)).map (fun w =>
          decide (.updateSeq 1 0 "b" "#b" ∈ (w.servers 1).trace ∧ .updateSeq 2 0 "a" "#a" ∈ (w.servers 0).trace)) =
        some true := by
      decide +kernel
    obtain ⟨w, hw, hmem⟩ := Option.map_eq_some_iff.mp hrun
    exact ⟨w, World.reached_plays (.init rfl) hw, of_decide_eq_true hmem⟩
  · have hrun : ((World.new Env.plain 4 (faults 4) (fun _ => 0) fun _ => ()).plays Env.plain ∅
        (fun w orders a => a.Collects w orders KeepsNewest) (announceBoth ++ executeB ++ executeStale)).map (fun w =>
          decide (.updateSeq 1 0 "b" "#b" ∈ (w.servers 1).trace ∧ .updateSeq 2 0 "c" "#c" ∈ (w.servers 0).trace)) =
        some true := by
      decide +kernel
    obtain ⟨w, hw, hmem⟩ := Option.map_eq_some_iff.mp hrun
    exact ⟨w, World.reached_plays (.init rfl) hw, of_decide_eq_true hmem⟩

end DistributedNotary.Pbft
