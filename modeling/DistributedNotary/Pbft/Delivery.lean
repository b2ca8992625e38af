import DistributedNotary.Pbft.Checkpoints
import DistributedNotary.Pbft.Turns

/-! The order in which operations are delivered. The numbers that are passed to
`UpdateSeq` rise over the whole run. A committed request whose turn has come is
executed at once when the number before it was executed; when that number was
skipped because a checkpoint after it has become stable, the request is left in
the queue until another commit message arrives. -/
namespace DistributedNotary.Pbft

open Library Server

variable {A : Type}

namespace Server

/-- The numbers that were executed, latest first. -/
def delivered (s : Server A) : List ℤ := s.trace.filterMap Event.executes

/-- What is executed lies behind what waits, and was executed in order. -/
structure Delivered (s : Server A) : Prop where
  sorted : s.applyQueue.content.Pairwise fun a b => a.pri < b.pri
  behind : ∀ n ∈ s.delivered, n ≤ s.apply
  before : ∀ n ∈ s.delivered, ∀ e ∈ s.applyQueue.content, n < e.pri
  order : s.delivered.Pairwise fun a b => b < a

namespace Delivered

variable {env : Env A} {K : Server A → Msg → Prop} {s s' : Server A}

theorem new (env : Env A) (rid : ℤ) (f : ℕ) (initSeq : ℤ) (nodes : List ℤ) (as : A) :
    (Server.new env rid f initSeq nodes as).Delivered where
  sorted := .nil
  behind _ hn := nomatch hn
  before _ hn := nomatch hn
  order := .nil

/-- Nothing is executed, and nothing new waits. -/
theorem frame (h : s.Delivered) (ht : s'.delivered = s.delivered) (happly : s.apply ≤ s'.apply)
    (hq : s'.applyQueue.content.Sublist s.applyQueue.content) : s'.Delivered where
  sorted := h.sorted.sublist hq
  behind n hn := (h.behind n (ht ▸ hn)).trans happly
  before n hn e he := h.before n (ht ▸ hn) e (hq.subset he)
  order := ht ▸ h.order

/-- The first of the waiting requests is executed, when `apply` has reached its number. -/
theorem execute (h : s.Delivered) {m : PQElem PendingTask} {queue : PriorityQueue PendingTask}
    (hq : s.applyQueue.content = m :: queue.content) (ht : s'.delivered = m.pri :: s.delivered)
    (hq' : s'.applyQueue = queue) (happly : s.apply ≤ s'.apply) (hle : m.pri ≤ s'.apply) : s'.Delivered := by
  have hsorted := h.sorted
  rw [hq] at hsorted
  obtain ⟨hlater, htail⟩ := List.pairwise_cons.mp hsorted
  refine ⟨hq' ▸ htail, ?_, ?_, ?_⟩
  · intro n hn
    rw [ht] at hn
    rcases List.mem_cons.mp hn with rfl | hn
    · exact hle
    · exact (h.behind n hn).trans happly
  · intro n hn e he
    rw [ht] at hn
    rw [hq'] at he
    rcases List.mem_cons.mp hn with rfl | hn
    · exact hlater e he
    · exact h.before n hn e (hq ▸ List.mem_cons_of_mem _ he)
  · rw [ht]
    exact List.pairwise_cons.mpr ⟨fun n hn => h.before n hn m (hq ▸ List.mem_cons_self ..), h.order⟩

theorem enqueue (h : s.Delivered) {e : PQElem PendingTask} {queue : PriorityQueue PendingTask}
    (hq : s.applyQueue.insert e = (queue, true)) (hlt : s.apply < e.pri) (ht : s'.delivered = s.delivered)
    (happly : s'.apply = s.apply) (hq' : s'.applyQueue = queue) : s'.Delivered := by
  refine ⟨hq' ▸ PriorityQueue.pairwise_of_insert hq h.sorted, ?_, ?_, ht ▸ h.order⟩
  · rw [ht, happly]
    exact h.behind
  · intro n hn x hx
    rw [ht] at hn
    rw [hq'] at hx
    rcases (PriorityQueue.mem_of_insert hq).mp hx with rfl | hx
    · exact (h.behind n hn).trans_lt hlt
    · exact h.before n hn x hx

theorem le_apply_settle (n : ℤ) {cp : CheckPoint} {proof : CheckPointArgs} (h : proof.seq = cp.seq) :
    s.apply ≤ (s.settle n cp proof).apply := by
  change s.apply ≤ if s.apply < proof.seq then cp.seq else s.apply
  split_ifs <;> omega

theorem move (h : s.Delivered) (hs : s.WF) (hsettled : s.Settled) (hm : Move env K s s') : s'.Delivered := by
  have hpri : ∀ {queue m}, s.applyQueue.extractMin = (queue, some m) → m.c.seq = m.pri := fun {_ m} hq =>
    ((hs.tasks m (by rw [PriorityQueue.content_of_extractMin hq]; exact List.mem_cons_self ..)).2.1).symm
  cases hm with
  | enqueue r args queue hw hr hm hs hrep hcom hseq hq => exact h.enqueue hq hseq rfl rfl rfl
  | runTask queue m pp as hq hturn hpp has =>
    refine h.execute (PriorityQueue.content_of_extractMin hq) ?_ rfl (Int.le_add_one le_rfl) hturn.ge
    simp [delivered, Event.executes, hpri hq]
  | runTaskAndVote queue m pp as reply digest digest' hq hturn hpp has hreply hdiv hslot =>
    refine h.execute (PriorityQueue.content_of_extractMin hq) ?_ rfl (Int.le_add_one le_rfl) hturn.ge
    simp [delivered, List.filterMap_cons, Event.executes, hpri hq]
  | answerTask queue m pp as cp key hq hcp hstable hle hpp has =>
    obtain ⟨key', cp', hat⟩ := hsettled
    have hpassed : cp.seq ≤ s.apply := by
      rw [hat.keys key cp hcp, hat.only key cp hcp hstable]
      exact hat.passed
    refine h.execute (PriorityQueue.content_of_extractMin hq) ?_ rfl le_rfl (hle.trans hpassed)
    simp [delivered, Event.executes, hpri hq]
  | stabilize n cp proof hdiv hcp hs hq hv =>
    refine h.frame (by simp [delivered, List.filterMap_cons, Event.executes]) ?_ (List.Sublist.refl _)
    exact le_apply_settle n (hsettled.proof_seq hcp hq)
  | stabilizeAndResume n cp proof hdiv hcp hs hq hv =>
    refine h.frame (by simp [delivered, List.filterMap_cons, Event.executes]) ?_ (List.Sublist.refl _)
    exact le_apply_settle (s := (s.note (.stable proof cp.proof)).resumeIn proof.view) n (hsettled.proof_seq hcp hq)
  | catchUp nv scp cp2 mins maxs pps order henter hscp hlt hseq hcp2 =>
    exact h.frame (by simp [delivered]) (le_apply_settle mins rfl) (List.Sublist.refl _)
  | idle | service | newEntry | relay | respond | propose | repropose | accept | sendBackground | addPrepare
  | sendCommit | addCommit | touch | vote | settled | startChange | sendViewChange | storeViewChange
  | sendNewView | enterView | takeOne =>
    exact h.frame (by simp [delivered, List.filterMap_cons, Event.executes]) le_rfl (List.Sublist.refl _)

end Delivered

/-- The input makes the server take over no checkpoint beyond `apply` while the number after it waits. -/
def keepsUp (s : Server A) (orders : Orders) (a : Input) : Bool :=
  (s.takesOver orders a).all fun q => q ≤ s.apply ∨ ¬ s.waits (q + 1)

/-- The server gets through the input without a panic. -/
def returns (env : Env A) (s : Server A) (orders : Orders) (a : Input) : Bool :=
  match s.react env orders a with
  | .ok _ => true
  | .error _ => false

theorem InOrder.react {env : Env A} {s s' : Server A} (hs : s.Steady) (ho : s.InOrder) {orders : Orders} {a : Input}
    (hk : s.keepsUp orders a = true) (h : s.react env orders a = .ok s') : s'.InOrder := by
  rcases (react_ends env hs ho.isAhead orders a).of_ok h with h | h | ⟨q, hq, ha⟩
  · exact ho.of_same h
  · exact h
  · refine ho.advance ha fun hlt e he heq => ?_
    simp only [keepsUp, hq, Option.all_some, decide_eq_true_eq] at hk
    rcases hk with hle | hwaits
    · omega
    · exact hwaits (List.any_eq_true.mpr ⟨e, he, by simpa using heq⟩)

end Server

section Runs

variable {env : Env A} {ext : A → A → Prop} {allowed : Server A → Orders → Input → Prop} {rid initSeq : ℤ} {f : ℕ}
  {nodes : List ℤ} {as : A}

theorem steady_history (h0 : 0 ≤ initSeq) {l : List Input} {s : Server A}
    (h : History env ext allowed (Server.new env rid f initSeq nodes as) l s) : s.Steady := by
  have hinv := h.invariant_of_moves Settled (WF.new ..) (Settled.new env rid f nodes as h0)
    (fun _ _ _ hi hm => hi.move hm) fun s as ⟨key, cp, hi⟩ => ⟨key, cp, hi.frame rfl le_rfl rfl rfl⟩
  exact ⟨hinv.1, hinv.2⟩

/-- Whatever a server has gone through, the numbers that it has delivered rise. -/
theorem delivered_rising (h0 : 0 ≤ initSeq) {l : List Input} {s : Server A}
    (h : History env ext allowed (Server.new env rid f initSeq nodes as) l s) : s.Delivered := by
  have hinv := h.invariant_of_moves (fun s => s.Settled ∧ s.Delivered) (WF.new ..)
    ⟨Settled.new env rid f nodes as h0, Delivered.new ..⟩
    (fun _ _ hwf hi hm => ⟨hi.1.move hm, hi.2.move hwf hi.1 hm⟩) ?_
  · exact hinv.2.2
  · rintro s as ⟨⟨key, cp, hi⟩, hd⟩
    exact ⟨⟨key, cp, hi.frame rfl le_rfl rfl rfl⟩, hd.frame rfl le_rfl (List.Sublist.refl _)⟩

/-- Where a server never takes over a checkpoint whose next number waits, every handler executes all that
has its turn. -/
theorem in_order_delivery (h0 : 0 ≤ initSeq) {l : List Input} {s : Server A}
    (h : History env ext (fun s orders a => s.returns env orders a = true ∧ s.keepsUp orders a = true)
      (Server.new env rid f initSeq nodes as) l s) :
    s.delivered.Pairwise (fun a b => b < a) ∧ ∀ e ∈ s.applyQueue.content, s.apply + 1 < e.pri := by
  refine ⟨(delivered_rising h0 h).order, ?_⟩
  have hinv : s.InOrder := by
    induction h with
    | start => exact ⟨.nil, fun e he => nomatch he⟩
    | react orders a h ha ih =>
      obtain ⟨hreturns, hkeeps⟩ := ha
      unfold returns at hreturns
      split at hreturns
      · next s' hreact =>
        rw [hreact]
        exact ih.react (steady_history h0 h) hkeeps hreact
      · nomatch hreturns
    | external as h hext ih => exact ⟨ih.sorted, ih.drained⟩
  exact hinv.drained

end Runs

/-- A replica commits number 101, and then learns that the others have executed 100, which it has missed. -/
def missesOne : List Input :=
  votesFor 100 "d" [3, 2, 0] ++
    [0, 2].map (fun i => .message (.commit (plainCommit 0 101 "b" i))) ++
    [0, 2].map (fun i => .message (.prepare (plainPrepare 0 101 "b" i))) ++
    [.message (.prePrepare (plainPP 0 101 "b"))]

/-- Number 101 has its turn, but is left in the queue. -/
theorem left_waiting :
    ∃ s : Server Unit, History Env.plain Eq
      (fun s orders a => s.offers a ∧ s.returns Env.plain orders a = true) (Server.new Env.plain 1 1 100 (ids 4) ())
        missesOne s ∧ ∃ e ∈ s.applyQueue.content, e.pri = s.apply + 1 := by
  refine ⟨_, history_reacts _ _ (by decide +kernel), ?_⟩
  have hwaits : (((Server.new Env.plain 1 1 100 (ids 4) ()).reacts Env.plain missesOne).applyQueue.content.any fun e =>
      e.pri = ((Server.new Env.plain 1 1 100 (ids 4) ()).reacts Env.plain missesOne).apply + 1) = true := by
    decide +kernel
  obtain ⟨e, he, hpri⟩ := List.any_eq_true.mp hwaits
  exact ⟨e, he, of_decide_eq_true hpri⟩

/-- A replica commits number 101 before number 100, and executes both. -/
def committedLate : List Input :=
  [100, 101].flatMap fun seq =>
    [0, 2].map (fun i => .message (.commit (plainCommit 0 seq "b" i))) ++
      [0, 2].map (fun i => .message (.prepare (plainPrepare 0 seq "b" i))) ++
      [.message (.prePrepare (plainPP 0 seq "b"))]

theorem in_order_delivery_two :
    ((Server.new Env.plain 1 1 100 (ids 4) ()).reacts Env.plain committedLate).delivered = [101, 100] ∧
      [(101 : ℤ), 100].Pairwise (fun a b => b < a) := by
  have h : History Env.plain Eq
      (fun s orders a => s.returns Env.plain orders a = true ∧ s.keepsUp orders a = true)
      (Server.new Env.plain 1 1 100 (ids 4) ()) committedLate _ := history_reacts _ _ (by decide +kernel)
  have hd : ((Server.new Env.plain 1 1 100 (ids 4) ()).reacts Env.plain committedLate).delivered = [101, 100] := by
    decide +kernel
  have horder := (in_order_delivery (by decide) h).1
  rw [hd] at horder
  exact ⟨hd, horder⟩

end DistributedNotary.Pbft
