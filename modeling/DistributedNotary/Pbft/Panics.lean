import DistributedNotary.Pbft.Delivery
import DistributedNotary.Pbft.Numbering

/-! Where the servers of a network without malicious notaries panic. A number
that is committed out of order waits in the queue of a server; entries belong
to a number of one view, but the queue to all views, so that the same number
committed again in a later view finds its place taken. Nothing else goes wrong:
the stable checkpoint is always there, no request is overdue, and the messages
of view changes are whole. -/
namespace DistributedNotary.Pbft

open Library Server

variable {A : Type}

/-- The view change has its checkpoint and all its preprepare messages. -/
structure ViewChangeArgs.Whole (vc : ViewChangeArgs) : Prop where
  cp : vc.cp.isSome = true
  pps : ∀ pm ∈ vc.p, pm.pp.isSome = true

/-- The new view comes with the preprepare messages that follow from its view changes. -/
def Msg.Whole : Msg → Prop
  | .viewChange vc => vc.Whole
  | .newView nv => ∃ mins maxs, newViewOf nv.view nv.v = some (mins, maxs, nv.o)
  | _ => True

def Event.Whole : Event → Prop
  | .send msg => msg.Whole
  | _ => True

namespace Server

/-- A server has only whole messages, and its checkpoints are in order. -/
structure Intact (s : Server A) : Prop where
  settled : s.Settled
  stored : ∀ view v, s.vcs.lookup view = some v → ∀ vc ∈ v, vc.Whole
  events : ∀ e ∈ s.trace, e.Whole

theorem generateViewChange_whole (s : Server A) (order : Range EntryID) (cp : CheckPoint) :
    (s.generateViewChange order cp).Whole := by
  refine ⟨rfl, fun pm hpm => ?_⟩
  obtain ⟨kr, -, hpm⟩ := List.mem_filterMap.mp hpm
  simp only [] at hpm
  split_ifs at hpm with hc
  obtain rfl := Option.some.inj hpm
  exact hc.2.1

/-- With whole view changes there is something that a new view starts after. -/
theorem minsOf_isSome {v : List ViewChangeArgs} (h : ∀ vc ∈ v, vc.Whole) : minsOf v ≠ none := by
  obtain ⟨cps, hcps⟩ := exists_mapM_eq_some fun vc hvc => (h vc hvc).cp
  have hpps : ∀ pm ∈ v.flatMap ViewChangeArgs.p, pm.pp.isSome = true := by
    intro pm hpm
    obtain ⟨vc, hvc, hpm⟩ := List.mem_flatMap.mp hpm
    exact (h vc hvc).pps pm hpm
  obtain ⟨pps, hpps⟩ := exists_mapM_eq_some hpps
  simp [minsOf, calcMinMaxspp, hcps, hpps]

theorem sameO_self (o : List PrePrepareArgs) : sameO o o = some true := by
  induction o with
  | nil => rfl
  | cons pp o ih =>
    unfold sameO
    simpa using ih

namespace Intact

variable {env : Env A} {K : Server A → Msg → Prop} {s s' : Server A}

theorem sent (h : s.Intact) {msg : Msg} (hm : s.Sent msg) : msg.Whole := h.events _ hm

theorem of_eq (h : s.Intact) (hsettled : s'.Settled) (hvcs : s'.vcs = s.vcs) (ht : s'.trace = s.trace) : s'.Intact where
  settled := hsettled
  stored := hvcs ▸ h.stored
  events := ht ▸ h.events

/-- The view changes stay, and one more message that is whole is sent. -/
theorem of_note (h : s.Intact) (hsettled : s'.Settled) (hvcs : s'.vcs = s.vcs) {e : Event}
    (ht : s'.trace = e :: s.trace)
    (he : e.Whole) : s'.Intact where
  settled := hsettled
  stored := hvcs ▸ h.stored
  events e' he' := by
    rw [ht] at he'
    rcases List.mem_cons.mp he' with rfl | he'
    · exact he
    · exact h.events e' he'

theorem collected (h : s.Intact) {vc : ViewChangeArgs} (hvc : vc.Whole) : ∀ vc' ∈ s.collected vc, vc'.Whole :=
  RangeMap.forall_mem_append h.stored vc.view hvc

theorem move (h : s.Intact) (hK : ∀ msg, K s msg → msg.Whole) (hm : Move env K s s') : s'.Intact := by
  have hsettled := h.settled.move hm
  cases hm with
  | storeViewChange vc hk hv =>
    refine ⟨hsettled, fun view v hl => ?_, h.events⟩
    rw [RangeMap.lookup_insert_eq] at hl
    split at hl
    · obtain rfl := Option.some.inj hl
      exact h.collected (hK _ hk)
    · exact h.stored view v hl
  | sendViewChange orders cp hc hcp => exact h.of_note hsettled rfl rfl (generateViewChange_whole ..)
  | sendNewView nv mins maxs hv hl hlen hvcs hnv => exact h.of_note hsettled rfl rfl ⟨mins, maxs, hnv⟩
  | enterView nv mins maxs pps henter =>
    refine ⟨hsettled, fun view v hl => h.stored view v (RangeMap.lookup_of_lookup_filter hl).1, ?_⟩
    exact List.forall_mem_cons.mpr ⟨trivial, h.events⟩
  | runTaskAndVote queue m pp as reply digest digest' hq hturn hpp has hreply hdiv hslot =>
    refine ⟨hsettled, h.stored, ?_⟩
    exact List.forall_mem_cons.mpr ⟨trivial, List.forall_mem_cons.mpr ⟨trivial,
      List.forall_mem_cons.mpr ⟨trivial, h.events⟩⟩⟩
  | stabilizeAndResume n cp proof hdiv hcp hs hq hv =>
    refine ⟨hsettled, h.stored, ?_⟩
    exact List.forall_mem_cons.mpr ⟨trivial, List.forall_mem_cons.mpr ⟨trivial, h.events⟩⟩
  | relay | respond | propose | repropose | accept | sendBackground | sendCommit | runTask | answerTask | stabilize =>
    exact h.of_note hsettled rfl rfl trivial
  | idle | service | newEntry | addPrepare | addCommit | enqueue | touch | vote | settled | startChange | catchUp
  | takeOne => exact h.of_eq hsettled rfl rfl

theorem new (env : Env A) (rid : ℤ) (f : ℕ) (initSeq : ℕ) (nodes : List ℤ) (as : A) :
    (Server.new env rid f initSeq nodes as).Intact where
  settled := Settled.new env rid f nodes as (Int.natCast_nonneg initSeq)
  stored view v hl := by simp [Server.new] at hl
  events e he := by simp [Server.new] at he

/-- Among whole messages only a commit message can trip the server. -/
theorem trips_of_whole (h : s.Intact) {orders : Orders} {a : Input} (ha : ∀ msg, a = .message msg → msg.Whole)
    (hoffers : s.offers a) (ht : s.trips orders a = true) :
    ∃ args, a = .message (.commit args) ∧ s.collides args = true := by
  cases a with
  | message msg =>
    have hwhole := ha msg rfl
    cases msg with
    | commit args => exact ⟨args, rfl, ht⟩
    | viewChange vc =>
      simp only [trips, decide_eq_true_eq] at ht
      exact absurd ht.2 (minsOf_isSome (h.collected hwhole))
    | newView nv =>
      obtain ⟨mins, maxs, hnv⟩ := hwhole
      simp [trips, agrees, hnv, sameO_self] at ht
    | response r => exact absurd hoffers Bool.false_ne_true
    | request | prePrepare | prepare | checkPoint => exact absurd ht Bool.false_ne_true
  | timer =>
    obtain ⟨key, stable, hsettled⟩ := h.settled
    obtain ⟨cp, hcp⟩ := hsettled.exists_getStableCheckPoint orders.cps
    simp only [trips, hcp, Option.any_some, decide_eq_true_eq] at ht
    exact absurd ht.2 (minsOf_isSome (h.collected (generateViewChange_whole ..)))
  | background k => exact absurd ht Bool.false_ne_true

end Intact

end Server

/-- The message does not commit a number that still waits. -/
def NoCollision (servers : ℤ → Server A) (i : ℤ) : Msg → Prop
  | .commit args => (servers i).collides args = false
  | _ => True

instance instDecidableNoCollision (servers : ℤ → Server A) (i : ℤ) (msg : Msg) :
    Decidable (NoCollision servers i msg) := by
  unfold NoCollision
  split <;> infer_instance

section Runs

variable {env : Env A} {n f : ℕ} {initSeq : ℤ → ℕ} {as : ℤ → A} {ext : A → A → Prop}
  {ok : World A → Orders → Action → Prop}

/-- What a server hears where there is no malicious notary is whole. -/
theorem whole_of_takes {servers : ℤ → Server A} {i : ℤ} {C : (ℤ → Server A) → ℤ → Msg → Prop}
    (h : ∀ j ∈ ids n, (servers j).Intact) (hi : i ∈ ids n) {msg : Msg} (ht : Takes n ∅ servers C i msg) :
    msg.Whole := by
  rcases ht with ⟨-, hs⟩ | ⟨⟨j, hj, hs, -⟩ | ⟨j, hj, -⟩ | hr, -⟩
  · exact (h i hi).sent hs
  · exact (h j hj.1).sent hs
  · exact absurd hj (Finset.notMem_empty j)
  · cases msg <;> trivial

theorem intact_reached {w : World A} (h : World.Reached env ∅ n f initSeq as ok ext w) :
    (∀ i, Configured n f i (w.servers i)) ∧ ∀ i ∈ ids n, (w.servers i).Intact := by
  refine World.Reached.invariant_of_moves (fun servers => ∀ i ∈ ids n, (servers i).Intact) (C := fun _ _ _ => True)
    (fun _ _ _ _ _ _ => trivial) (fun _ _ _ _ _ _ => trivial) (fun _ _ => Intact.new ..) ?_ ?_ h
  · intro servers i s' hi hconf hinv hm j hj
    by_cases e : j = i
    · subst e
      rw [Function.update_self]
      exact (hinv j hj).move (fun msg hk => whole_of_takes hinv hj hk) hm
    · rw [Function.update_of_ne e]
      exact hinv j hj
  · intro servers i as hinv hext j hj
    by_cases e : j = i
    · subst e
      obtain ⟨key, cp, hs⟩ := (hinv j hj).settled
      rw [Function.update_self]
      exact (hinv j hj).of_eq ⟨key, cp, hs.frame rfl le_rfl rfl rfl⟩ rfl rfl
    · rw [Function.update_of_ne e]
      exact hinv j hj

/-- In every run without malicious notaries in which no commit message completes a number that still waits,
no server panics, unless its service does. -/
theorem no_panic (hcalm : ¬ env.as.Panics)
    (h : World.Reached env ∅ n f initSeq as (fun w _ a => a.Meets NoCollision w.servers) ext w) (i : ℤ) :
    w.down i = false := by
  refine (@Reachable.invariant _ _ _ (fun w : World A => ∀ i, (w.servers i).Ahead ∧ w.down i = false) ?_ ?_ w h i).2
  · rintro w rfl i
    exact ⟨⟨.nil, fun e he => nomatch he⟩, rfl⟩
  · rintro w w' hreached hinv hstep j
    obtain ⟨hconf, hintact⟩ := intact_reached hreached
    cases hstep with
    | act orders a hok hexec =>
      unfold World.exec at hexec
      split_ifs at hexec with hcan
      obtain rfl := Option.some.inj hexec
      obtain ⟨hcorrect, -, hoffers, hallowed⟩ := hcan
      rw [World.correct_iff fun j => (hconf j).replicas] at hcorrect
      have hdst := hintact a.dst hcorrect.1
      have hends := react_ends env ⟨(hconf a.dst).wf, hdst.settled⟩ (hinv a.dst).1 orders a.input
      cases hreact : (w.servers a.dst).react env orders a.input with
      | ok s' =>
        have hahead : s'.Ahead := by
          rcases hends.of_ok hreact with h | h | ⟨q, -, h⟩
          · exact (hinv a.dst).1.of_same h
          · exact h.isAhead
          · exact (hinv a.dst).1.advance h
        refine ⟨?_, (hinv j).2⟩
        change (Function.update w.servers a.dst s' j).Ahead
        by_cases e : j = a.dst
        · subst e
          rwa [Function.update_self]
        · rw [Function.update_of_ne e]
          exact (hinv j).1
      | error s' =>
        rcases hends.of_error hreact with hpanic | htrips
        · exact absurd hpanic hcalm
        · have hwhole : ∀ msg, a.input = .message msg → msg.Whole := fun msg hmsg =>
            whole_of_takes (C := fun _ _ _ => True) hintact hcorrect.1
              (.inr ⟨World.heard_of_allowed (fun j => (hconf j).replicas) hallowed hmsg, trivial⟩)
          obtain ⟨args, hinput, hcollides⟩ := hdst.trips_of_whole hwhole hoffers htrips
          have hno : (w.servers a.dst).collides args = false := hok (.commit args) (by rw [hinput]; rfl)
          exact absurd (hno.symm.trans hcollides) Bool.false_ne_true
    | external k as hext =>
      refine ⟨?_, (hinv j).2⟩
      change (Function.update w.servers k { w.servers k with as := as } j).Ahead
      by_cases e : j = k
      · subst e
        rw [Function.update_self]
        exact (hinv j).1.of_same ⟨rfl, rfl⟩
      · rw [Function.update_of_ne e]
        exact (hinv j).1

end Runs

/-- The servers 0, 1 and 2 prepare `b` as number 1 of view 0, and server 2 commits it before number 0. -/
def commitEarly : List Action :=
  [.ask 0 "a", .ask 0 "b"] ++ [1, 2].map (.deliver 0 · (.prePrepare (plainPP 0 1 "b"))) ++
    [(1, 0), (2, 0), (0, 1), (2, 1), (0, 2), (1, 2)].map (fun ij : ℤ × ℤ =>
      .deliver ij.1 ij.2 (.prepare (plainPrepare 0 1 "b" ij.1))) ++
    [0, 1].map fun i => .deliver i 2 (.commit (plainCommit 0 1 "b" i))

/-- The view change to view 1 of a server that prepared `b`. -/
def changeWithB (senders : List ℤ) (rid : ℤ) : ViewChangeArgs :=
  plainChange 1 [{ pp := some (plainPP 0 1 "b"), p := senders.map (plainPrepare 0 1 "b") }] rid

def newViewWithB : NewViewArgs where
  view := 1
  v := [changeWithB [1, 0, 2] 1, changeWithB [2, 0, 1] 2, plainChange 1 [] 3]
  o := [{ view := 1, seq := 0, digest := "" }, plainPP 1 1 "b"]

/-- The servers 1, 2 and 3 go into view 1, where number 1 is committed again. -/
def commitAgain : List Action :=
  [1, 2, 3].map (.ask · "c") ++ [1, 2, 3].map .fire ++
    [.deliver 2 1 (.viewChange (changeWithB [2, 0, 1] 2)), .deliver 3 1 (.viewChange (plainChange 1 [] 3))] ++
    [2, 3].map (.deliver 1 · (.newView newViewWithB)) ++ [1, 2, 3, 1, 2, 3].map (.proceed · 0) ++
    [(2, 1), (3, 1), (1, 2), (3, 2), (1, 3), (2, 3)].map (fun ij : ℤ × ℤ =>
      .deliver ij.1 ij.2 (.prepare (plainPrepare 1 1 "b" ij.1))) ++
    [1, 3].map fun i => .deliver i 2 (.commit (plainCommit 1 1 "b" i))

theorem Env.plain_calm : ¬ Env.plain.as.Panics := by
  rintro (⟨_, _, _, _, _, h⟩ | ⟨_, _, _, _, _, h⟩ | ⟨_, _, _, _, _, _, _, h⟩ | ⟨_, _, _, _, _, _, _, h⟩) <;>
    simp [Env.plain, PBFTAuxiliary.absent] at h

/-- Four servers that run the protocol, of which one panics. -/
theorem insert_panics :
    ¬ Env.plain.as.Panics ∧ ∃ w : World Unit,
      World.Reached Env.plain ∅ 4 1 (fun _ => 0) (fun _ => ()) (fun _ _ _ => True) Eq w ∧ w.down 2 = true := by
  have hrun : ((World.new Env.plain 4 1 (fun _ => 0) fun _ => ()).plays Env.plain ∅ (fun _ _ _ => True)
      (commitEarly ++ commitAgain)).map (fun w => w.down 2) = some true := by
    decide +kernel
  obtain ⟨w, hw, hdown⟩ := Option.map_eq_some_iff.mp hrun
  exact ⟨Env.plain_calm, w, World.reached_plays (.init rfl) hw, hdown⟩

theorem no_panic_two : ∃ w : World Unit, .updateSeq 0 0 "a" "#a" ∈ (w.servers 1).trace ∧ w.down 1 = false := by
  have hrun : ((World.new Env.plain 2 0 (fun _ => 0) fun _ => ()).plays Env.plain ∅
      (fun w _ a => a.Meets NoCollision w.servers) executeInBoth).map (fun w =>
        decide (.updateSeq 0 0 "a" "#a" ∈ (w.servers 1).trace)) = some true := by
    decide +kernel
  obtain ⟨w, hw, hmem⟩ := Option.map_eq_some_iff.mp hrun
  have hreached : World.Reached Env.plain ∅ 2 0 (fun _ => 0) (fun _ => ())
      (fun w _ a => a.Meets NoCollision w.servers) Eq w := World.reached_plays (.init rfl) hw
  exact ⟨w, of_decide_eq_true hmem, no_panic Env.plain_calm hreached 1⟩

end DistributedNotary.Pbft
