import DistributedNotary.Pbft.Network
import Mathlib.Logic.Relation

/-! What a server does to its state, one small move at a time. Every handler is
a sequence of moves, whatever it was called with, so that an invariant is
proved once for each move and then holds after every handler, also where the
handler panics on its way. `K s msg` stands for what is known of a message that
is handled in state `s`. -/
namespace DistributedNotary.Pbft

open Library

variable {A : Type}

/-- The state of the service after one call. -/
inductive PBFTAuxiliary.Called (as : PBFTAuxiliary A) (a : A) : A → Prop
  | updateSeq {a' : A} (seq : ℤ) (op auxiliary : String)
    (h : as.updateSeq a seq op auxiliary = .ok a' ∨ as.updateSeq a seq op auxiliary = .error a') : Called as a a'
  | getOpAuxiliary (op : String) (view : ℤ) : Called as a (as.getOpAuxiliary a op view).1
  | prepareSeq (view seq : ℤ) (op auxiliary : String) : Called as a (as.prepareSeq a view seq op auxiliary).1
  | commitSeq (view seq : ℤ) (op auxiliary : String) : Called as a (as.commitSeq a view seq op auxiliary).1

namespace Server

/-- The own prepare message for a preprepare message. -/
def prepareFor (s : Server A) (pp : PrePrepareArgs) : PrepareArgs :=
  { view := pp.view, seq := pp.seq, digest := pp.digest, rid := s.id }

def commitFor (s : Server A) (pp : PrePrepareArgs) : CommitArgs :=
  { view := pp.view, seq := pp.seq, digest := pp.digest, rid := s.id }

/-- The checkpoint `n` as it is or as it is created, which only happens where no later one is stable. -/
def slot (s : Server A) (n : ℤ) : CheckPoint := (s.cps.lookup n).getD { seq := n }

def hasSlot (s : Server A) (n : ℤ) : Bool := (s.cps.lookup n).isSome || !s.hasLaterStable n

/-- The own vote for the checkpoint `n`. -/
def castVote (s : Server A) (n : ℤ) (digest digest' : String) : Server A :=
  let cpArgs : CheckPointArgs := { seq := n, digest := digest, rid := s.id, view := s.view }
  (s.setCheckPoint n
    { s.slot n with seq := n, stable := false, digest := digest', proof := (s.slot n).proof ++ [cpArgs] }).send
    (.checkPoint cpArgs)

/-- The answer to a task, after which the service is in state `as`. -/
def answered (s : Server A) (pt : PendingTask) (pp : PrePrepareArgs) (as : A) : Server A :=
  { s.answer pt pp with as := as }

/-- The task `m` has its turn and is answered. -/
def runTask (s : Server A) (queue : PriorityQueue PendingTask) (m : PQElem PendingTask) (pp : PrePrepareArgs)
    (as : A) : Server A :=
  (s.takeTurn queue m).answered m.c pp as

/-- What a view change needs to be made into a new view. -/
def newViewOf (view : ℤ) (v : List ViewChangeArgs) : Option (ℤ × ℤ × List PrePrepareArgs) :=
  (calcMinMaxspp v).map fun r => (r.1, r.2.1, calcPPS view r.1 r.2.1 r.2.2)

/-- The state of a server that starts view `view`. -/
def startView (s : Server A) (view mins maxs : ℤ) (v : List ViewChangeArgs) (ps : List PrepareArgs) : Server A :=
  { s with tSeq := maxs + 1 }.enterView view mins v ps

/-- The new entry for a preprepare message that a new view starts with. -/
def takeOne (s : Server A) (pp : PrePrepareArgs) : Server A :=
  { s with seqmap := AList.insert pp.message.op pp.seq s.seqmap }.alloc ⟨pp.view, pp.seq⟩
    { id := ⟨pp.view, pp.seq⟩, pp := some pp }

/-- The own prepare messages for the preprepare messages of a new view. -/
def preparesOf (s : Server A) (view : ℤ) (pps : List PrePrepareArgs) : List PrepareArgs :=
  pps.map fun pp => { view := view, seq := pp.seq, digest := pp.digest, rid := s.id }

/-- The server may start the view: as its leader, which has announced it, or because of its message. -/
def MayEnter (K : Server A → Msg → Prop) (s : Server A) (nv : NewViewArgs) (mins maxs : ℤ)
    (pps : List PrePrepareArgs) : Prop :=
  s.view < nv.view ∧ newViewOf nv.view nv.v = some (mins, maxs, pps) ∧
  ((nv.view.tmod s.replicas.length = s.id ∧ 2 * s.f + 1 ≤ nv.v.length ∧
      s.vcs.lookup nv.view = some nv.v ∧ s.Sent (.newView nv)) ∨
    (K s (.newView nv) ∧
      2 * s.f < ((nv.v.filter fun vc => vc.view = nv.view).map ViewChangeArgs.rid).dedup.length))

/-- A stable checkpoint of the server is not older than `n`. -/
def Reaches (s : Server A) (n : ℤ) : Prop :=
  ∃ key cp, s.cps.lookup key = some cp ∧ cp.stable = true ∧ n ≤ cp.seq

end Server

open Server

/-- One move of a server. -/
inductive Move (env : Env A) (K : Server A → Msg → Prop) : Server A → Server A → Prop
  | idle (s : Server A) (monitor change : Bool) (count armed : ℕ) (state : List PbftHistory)
    (seqmap : RangeMap String ℤ) :
    Move env K s
      { s with
        monitor := monitor, change := change, myViewChangeCount := count, armed := armed, state := state
        seqmap := seqmap }
  | service (s : Server A) (as : A) (h : env.as.Called s.as as) : Move env K s { s with as := as }
  | newEntry (s : Server A) (n : ℤ) (hnew : s.log.lookup ⟨s.view, n⟩ = none) :
    Move env K s (s.alloc ⟨s.view, n⟩ { id := ⟨s.view, n⟩ })
  | relay (s : Server A) (args : RequestArgs) (hk : K s (.request args)) : Move env K s (s.send (.request args))
  | respond (s : Server A) (ref : ℕ) (r : ResponseArgs) (hr : (s.heap ref).r = some r) :
    Move env K s (s.send (.response r))
  | propose (s : Server A) (args : RequestArgs) (digest : String) (as : A) (seqmap : RangeMap String ℤ)
    (hk : K s (.request args)) (hc : s.changing = false) (hl : s.isLeader = true)
    (hnew : s.seqmap.lookup args.op = none) (hH : s.tSeq < s.H)
    (has : env.as.getOpAuxiliary s.as args.op s.id = (as, .ok digest)) :
    Move env K s
      ({ s with as := as, seqmap := seqmap, tSeq := s.tSeq + 1 }.send
        (.prePrepare { view := s.view, seq := s.tSeq, digest := digest, message := args }))
  | repropose (s : Server A) (n : ℤ) (r : ℕ) (pp : PrePrepareArgs) (hc : s.changing = false)
    (hl : s.isLeader = true) (hr : s.log.lookup ⟨s.view, n⟩ = some r) (hpp : (s.heap r).pp = some pp) :
    Move env K s (s.send (.prePrepare pp))
  | accept (s : Server A) (r : ℕ) (pp : PrePrepareArgs) (hk : K s (.prePrepare pp)) (hc : s.changing = false)
    (hw : s.inWindow pp.view pp.seq = true) (hr : s.log.lookup ⟨pp.view, pp.seq⟩ = some r)
    (ha : accepts (s.heap r) pp = true) :
    Move env K s
      ((s.setEntry r { s.heap r with pp := some pp }).send
        (.prepare (s.prepareFor pp)))
  | sendBackground (s : Server A) (k : ℕ) (p : PrepareArgs) (ps : List PrepareArgs)
    (h : s.background[k]? = some (p :: ps)) :
    Move env K s ({ s with background := s.background.set k ps }.send (.prepare p))
  | addPrepare (s : Server A) (r : ℕ) (args : PrepareArgs) (hk : K s (.prepare args)) (hc : s.changing = false)
    (hw : s.inWindow args.view args.seq = true) (hr : s.log.lookup ⟨args.view, args.seq⟩ = some r)
    (hm : matchesPP (s.heap r) args.digest = true) :
    Move env K s (s.setEntry r { s.heap r with p := (s.heap r).p ++ [args] })
  | sendCommit (s : Server A) (r : ℕ) (pp : PrePrepareArgs) (as : A) (hc : s.changing = false)
    (hw : s.inWindow pp.view pp.seq = true) (hr : s.log.lookup ⟨pp.view, pp.seq⟩ = some r)
    (hpp : (s.heap r).pp = some pp) (hs : (s.heap r).sendCommit = false) (hp : s.prepared (s.heap r) = true)
    (has : env.as.commitSeq s.as s.view pp.seq pp.message.op pp.digest = (as, .ok ())) :
    Move env K s
      (({ s with as := as }.setEntry r
        { s.heap r with
          sendCommit := true
          c := (s.heap r).c ++ [s.commitFor pp] }).send (.commit (s.commitFor pp)))
  | addCommit (s : Server A) (r : ℕ) (args : CommitArgs) (hk : K s (.commit args)) (hc : s.changing = false)
    (hw : s.inWindow args.view args.seq = true) (hr : s.log.lookup ⟨args.view, args.seq⟩ = some r)
    (hm : matchesPP (s.heap r) args.digest = true) :
    Move env K s (s.setEntry r { s.heap r with c := (s.heap r).c ++ [args] })
  | enqueue (s : Server A) (r : ℕ) (args : CommitArgs) (queue : PriorityQueue PendingTask)
    (hw : s.inWindow args.view args.seq = true) (hr : s.log.lookup ⟨args.view, args.seq⟩ = some r)
    (hm : matchesPP (s.heap r) args.digest = true) (hs : (s.heap r).sendCommit = true)
    (hrep : (s.heap r).sendReply = false) (hcom : s.committed (s.heap r) = true) (hseq : s.apply < args.seq)
    (hq : s.applyQueue.insert
      { pri := args.seq, c := { seq := args.seq, dgt := args.digest, ent := r, args := args } } = (queue, true)) :
    Move env K s ({ s with applyQueue := queue }.setEntry r { s.heap r with sendReply := true })
  | runTask (s : Server A) (queue : PriorityQueue PendingTask) (m : PQElem PendingTask) (pp : PrePrepareArgs) (as : A)
    (hq : s.applyQueue.extractMin = (queue, some m)) (hturn : s.apply + 1 = m.pri)
    (hpp : (s.heap m.c.ent).pp = some pp) (has : env.as.Called s.as as) :
    Move env K s (s.runTask queue m pp as)
  | runTaskAndVote (s : Server A) (queue : PriorityQueue PendingTask) (m : PQElem PendingTask) (pp : PrePrepareArgs)
    (as : A) (reply : ResponseArgs) (digest digest' : String) (hq : s.applyQueue.extractMin = (queue, some m))
    (hturn : s.apply + 1 = m.pri) (hpp : (s.heap m.c.ent).pp = some pp) (has : env.as.Called s.as as)
    (hreply : ((s.runTask queue m pp as).heap m.c.ent).r = some reply) (hdiv : m.pri.tmod checkpointDiv = 0)
    (hslot : s.hasSlot m.pri = true) :
    Move env K s (((s.runTask queue m pp as).send (.response reply)).castVote m.pri digest digest')
  | answerTask (s : Server A) (queue : PriorityQueue PendingTask) (m : PQElem PendingTask) (pp : PrePrepareArgs)
    (as : A) (cp : CheckPoint) (key : ℤ) (hq : s.applyQueue.extractMin = (queue, some m))
    (hcp : s.cps.lookup key = some cp) (hstable : cp.stable = true) (hle : m.pri ≤ cp.seq)
    (hpp : (s.heap m.c.ent).pp = some pp) (has : env.as.Called s.as as) :
    Move env K s ({ s with applyQueue := queue }.answered m.c pp as)
  | touch (s : Server A) (n : ℤ) (digest : String) (hdiv : n.tmod checkpointDiv = 0) (hslot : s.hasSlot n = true) :
    Move env K s (s.setCheckPoint n { s.slot n with digest := digest })
  | vote (s : Server A) (cp : CheckPoint) (args : CheckPointArgs) (hk : K s (.checkPoint args))
    (hdiv : args.seq.tmod checkpointDiv = 0) (hcp : s.cps.lookup args.seq = some cp) (hs : cp.stable = false) :
    Move env K s (s.setCheckPoint args.seq { cp with proof := cp.proof ++ [args] })
  | stabilize (s : Server A) (n : ℤ) (cp : CheckPoint) (proof : CheckPointArgs)
    (hdiv : n.tmod checkpointDiv = 0) (hcp : s.cps.lookup n = some cp) (hs : cp.stable = false)
    (hq : quorumVote s.f [] cp.proof = some proof) (hv : proof.view ≤ s.view) :
    Move env K s ((s.note (.stable proof cp.proof)).settle n cp proof)
  | stabilizeAndResume (s : Server A) (n : ℤ) (cp : CheckPoint) (proof : CheckPointArgs)
    (hdiv : n.tmod checkpointDiv = 0) (hcp : s.cps.lookup n = some cp) (hs : cp.stable = false)
    (hq : quorumVote s.f [] cp.proof = some proof) (hv : s.view < proof.view) :
    Move env K s (((s.note (.stable proof cp.proof)).resumeIn proof.view).settle n cp proof)
  | settled (s : Server A) (cp : CheckPoint) (key : ℤ) (hcp : s.cps.lookup key = some cp)
    (hstable : cp.stable = true) : Move env K s { s with lastcp := cp.seq }
  | startChange (s : Server A) : Move env K s { s with changing := true }
  | sendViewChange (s : Server A) (orders : Orders) (cp : CheckPoint) (hc : s.changing = true)
    (hcp : s.getStableCheckPoint orders.cps = some cp) :
    Move env K s ({ s with myViewChangeCount := s.myViewChangeCount + 1 }.send
      (.viewChange (s.generateViewChange orders.log cp)))
  | storeViewChange (s : Server A) (vc : ViewChangeArgs) (hk : K s (.viewChange vc)) (hv : s.view < vc.view) :
    Move env K s { s with vcs := s.vcs.insert vc.view ((s.vcs.lookup vc.view).getD [] ++ [vc]) }
  | sendNewView (s : Server A) (nv : NewViewArgs) (mins maxs : ℤ) (hv : s.view < nv.view)
    (hl : nv.view.tmod s.replicas.length = s.id) (hlen : 2 * s.f + 1 ≤ nv.v.length)
    (hvcs : s.vcs.lookup nv.view = some nv.v) (hnv : newViewOf nv.view nv.v = some (mins, maxs, nv.o)) :
    Move env K s (s.send (.newView nv))
  | catchUp (s : Server A) (nv : NewViewArgs) (scp : CheckPoint) (cp2 : CheckPointArgs) (mins maxs : ℤ)
    (pps : List PrePrepareArgs) (order : Range ℤ) (henter : MayEnter K s nv mins maxs pps)
    (hscp : s.getStableCheckPoint order = some scp) (hlt : scp.seq < mins) (hseq : cp2.seq = mins)
    (hcp2 : ∃ vc ∈ nv.v, vc.cp = some cp2) :
    Move env K s
      (s.settle mins { seq := mins, stable := true, digest := cp2.digest, view := cp2.view }
        { seq := mins, rid := s.id, digest := cp2.digest, view := s.view })
  | enterView (s : Server A) (nv : NewViewArgs) (mins maxs : ℤ) (pps : List PrePrepareArgs)
    (henter : MayEnter K s nv mins maxs pps) (hmins : s.Reaches mins) :
    Move env K s (s.startView nv.view mins maxs nv.v (s.preparesOf nv.view pps))
  | takeOne (s : Server A) (v : List ViewChangeArgs) (mins maxs : ℤ) (pps : List PrePrepareArgs) (pp : PrePrepareArgs)
    (henter : .enterView s.view v ∈ s.trace) (hnv : newViewOf s.view v = some (mins, maxs, pps)) (hpp : pp ∈ pps)
    (hview : pp.view = s.view) (hnew : s.log.lookup ⟨pp.view, pp.seq⟩ = none) :
    Move env K s (s.takeOne pp)

namespace Server

/-- How references, entries and waiting tasks of a server hang together. -/
structure WF (s : Server A) : Prop where
  refs : ∀ id r, s.log.lookup id = some r → r < s.next ∧ (s.heap r).id = id
  views : ∀ id r, s.log.lookup id = some r → id.v ≤ s.view
  pps : ∀ r pp, r < s.next → (s.heap r).pp = some pp → (s.heap r).id = ⟨pp.view, pp.seq⟩
  prepares : ∀ r p, r < s.next → p ∈ (s.heap r).p → (s.heap r).id = ⟨p.view, p.seq⟩
  votes : ∀ r c, r < s.next → c ∈ (s.heap r).c → (s.heap r).id = ⟨c.view, c.seq⟩
  commits : ∀ r, r < s.next → (s.heap r).sendCommit = true → (s.heap r).pp.isSome = true
  tasks : ∀ e ∈ s.applyQueue.content, e.c.ent < s.next ∧ e.pri = e.c.seq ∧ e.c.args.seq = e.c.seq ∧
    e.c.args.digest = e.c.dgt ∧ (s.heap e.c.ent).id = ⟨e.c.args.view, e.c.seq⟩ ∧
    matchesPP (s.heap e.c.ent) e.c.dgt = true ∧ (s.heap e.c.ent).sendCommit = true ∧
    s.committed (s.heap e.c.ent) = true

end Server

attribute [simp] alloc send note setEntry setCheckPoint castVote Server.runTask takeTurn answer answered
  settle resumeIn stopTimer startView Server.enterView Server.takeOne

section Frame

variable {env : Env A} {K : Server A → Msg → Prop} {s s' : Server A}

theorem Move.fixed (h : Move env K s s') : s'.id = s.id ∧ s'.replicas = s.replicas ∧ s'.f = s.f := by
  cases h <;> simp

theorem Move.trace_suffix (h : Move env K s s') : s.trace <:+ s'.trace := by
  cases h <;> simp [List.suffix_cons_iff]

theorem Move.view_le (h : Move env K s s') : s.view ≤ s'.view := by
  cases h with
  | stabilizeAndResume n cp proof hdiv hcp hs hq hv => exact hv.le
  | enterView nv mins maxs pps henter => exact henter.1.le
  | _ => exact le_rfl

theorem Move.sent (h : Move env K s s') {msg : Msg} (hm : s.Sent msg) : s'.Sent msg :=
  h.trace_suffix.subset hm

/-- What a move does to the service is one call of it. -/
theorem Move.called (h : Move env K s s') : s'.as = s.as ∨ env.as.Called s.as s'.as := by
  cases h with
  | service as h => exact .inr h
  | propose args digest as seqmap hk hc hl hnew hH has =>
    have hcalled : env.as.Called s.as _ := .getOpAuxiliary args.op s.id
    rw [has] at hcalled
    exact .inr hcalled
  | sendCommit r pp as hc hw hr hpp hs hp has =>
    have hcalled : env.as.Called s.as _ := .commitSeq s.view pp.seq pp.message.op pp.digest
    rw [has] at hcalled
    exact .inr hcalled
  | runTask queue m pp as hq hturn hpp has => exact .inr has
  | runTaskAndVote queue m pp as reply digest digest' hq hturn hpp has hreply hdiv hslot => exact .inr has
  | answerTask queue m pp as cp key hq hcp hstable hle hpp has => exact .inr has
  | _ => exact .inl rfl

end Frame

/-! ### Well-formed servers -/

/-- An entry that keeps what its waiting task relies on. -/
structure Entry.Keeps (e e' : Entry) : Prop where
  id : e'.id = e.id
  pp : ∀ pp, e.pp = some pp → ∃ pp', e'.pp = some pp' ∧ pp'.view = pp.view ∧ pp'.seq = pp.seq ∧ pp'.digest = pp.digest
  commit : e.sendCommit = true → e'.sendCommit = true
  votes : e.c <+: e'.c

namespace Server

theorem committed_keeps {s s' : Server A} {e e' : Entry} (h : e.Keeps e') (hf : s'.f = s.f)
    (hc : s.committed e = true) : s'.committed e' = true := by
  unfold committed at hc ⊢
  cases hpp : e.pp with
  | none => simp [hpp] at hc
  | some pp =>
    obtain ⟨pp', hpp', hv, hn, hd⟩ := h.pp pp hpp
    obtain ⟨cs, hcs⟩ := h.votes
    rw [hpp] at hc
    rw [hpp', hf, ← hcs]
    simp only [hv, hn, hd, List.filter_append, List.map_append, decide_eq_true_eq, List.length_append] at hc ⊢
    refine ⟨by omega, hc.2.trans_le ?_⟩
    exact (List.Nodup.subperm (List.nodup_dedup _) fun x hx => by
      rw [List.mem_dedup] at hx ⊢
      exact List.mem_append_left _ hx).length_le

theorem matchesPP_keeps {e e' : Entry} {d : String} (h : e.Keeps e') (hpp : e.pp.isSome = true)
    (hm : matchesPP e d = true) : matchesPP e' d = true := by
  obtain ⟨pp, hpp⟩ := Option.isSome_iff_exists.mp hpp
  obtain ⟨pp', hpp', -, -, hd⟩ := h.pp pp hpp
  unfold matchesPP at hm ⊢
  rw [hpp] at hm
  rw [hpp']
  simpa [hd] using hm

namespace WF

variable {s s' : Server A}

/-- Nothing is added but entries may be dropped, waiting tasks taken and the view raised. -/
theorem mono (h : s.WF) (hlog : ∀ id r, s'.log.lookup id = some r → s.log.lookup id = some r)
    (hview : s.view ≤ s'.view) (hheap : s'.heap = s.heap) (hnext : s'.next = s.next) (hf : s'.f = s.f)
    (hq : ∀ e ∈ s'.applyQueue.content, e ∈ s.applyQueue.content) : s'.WF where
  refs id r hr := by
    rw [hheap, hnext]
    exact h.refs id r (hlog id r hr)
  views id r hr := (h.views id r (hlog id r hr)).trans hview
  pps r pp := by
    rw [hheap, hnext]
    exact h.pps r pp
  prepares r p := by
    rw [hheap, hnext]
    exact h.prepares r p
  votes r c := by
    rw [hheap, hnext]
    exact h.votes r c
  commits r := by
    rw [hheap, hnext]
    exact h.commits r
  tasks e he := by
    unfold committed
    rw [hheap, hnext, hf]
    exact h.tasks e (hq e he)

theorem setEntry (h : s.WF) {r : ℕ} {ent : Entry} (hr : r < s.next) (hk : (s.heap r).Keeps ent)
    (hpp : ∀ pp, ent.pp = some pp → ent.id = ⟨pp.view, pp.seq⟩) (hp : ∀ p ∈ ent.p, ent.id = ⟨p.view, p.seq⟩)
    (hc : ∀ c ∈ ent.c, ent.id = ⟨c.view, c.seq⟩) (hs : ent.sendCommit = true → ent.pp.isSome = true) :
    (s.setEntry r ent).WF where
  refs id r' hr' := by
    obtain ⟨h1, h2⟩ := h.refs id r' hr'
    refine ⟨h1, ?_⟩
    by_cases e : r' = r
    · subst e
      simp [hk.id, h2]
    · simp [e, h2]
  views := h.views
  pps r' pp hr' := by
    by_cases e : r' = r
    · subst e
      simpa using hpp pp
    · simpa [e] using h.pps r' pp hr'
  prepares r' p hr' := by
    by_cases e : r' = r
    · subst e
      simpa using hp p
    · simpa [e] using h.prepares r' p hr'
  votes r' c hr' := by
    by_cases e : r' = r
    · subst e
      simpa using hc c
    · simpa [e] using h.votes r' c hr'
  commits r' hr' := by
    by_cases e : r' = r
    · subst e
      simpa using hs
    · simpa [e] using h.commits r' hr'
  tasks e he := by
    obtain ⟨h1, h2, h3, h4, h5, h6, h7, h8⟩ := h.tasks e he
    by_cases e' : e.c.ent = r
    · subst e'
      refine ⟨h1, h2, h3, h4, ?_, ?_, ?_, ?_⟩
      · simp [hk.id, h5]
      · simpa using matchesPP_keeps hk (h.commits _ h1 h7) h6
      · simpa using hk.commit h7
      · have hc : (s.setEntry e.c.ent ent).committed ent = true := committed_keeps hk rfl h8
        simpa using hc
    · refine ⟨h1, h2, h3, h4, ?_, ?_, ?_, ?_⟩
      · simpa [e'] using h5
      · simpa [e'] using h6
      · simpa [e'] using h7
      · simpa [e', committed] using h8

theorem alloc (h : s.WF) {id : EntryID} (ent : Entry) (hid : id.v ≤ s.view) (hent : ent.id = id)
    (hpp : ∀ pp, ent.pp = some pp → id = ⟨pp.view, pp.seq⟩) (hp : ent.p = []) (hc : ent.c = [])
    (hs : ent.sendCommit = false) : (s.alloc id ent).WF where
  refs id' r hr := by
    simp only [Server.alloc, RangeMap.lookup_insert_eq] at hr
    split at hr
    · next e =>
      obtain rfl := Option.some.inj hr
      simp [hent, e]
    · obtain ⟨h1, h2⟩ := h.refs id' r hr
      refine ⟨Nat.lt_succ_of_lt h1, ?_⟩
      simpa [h1.ne] using h2
  views id' r hr := by
    simp only [Server.alloc, RangeMap.lookup_insert_eq] at hr
    split at hr
    · next e => exact e ▸ hid
    · exact h.views id' r hr
  pps r pp hr := by
    rcases Nat.lt_succ_iff_lt_or_eq.mp hr with hlt | rfl
    · simpa [hlt.ne] using h.pps r pp hlt
    · simpa [hent] using hpp pp
  prepares r p hr := by
    rcases Nat.lt_succ_iff_lt_or_eq.mp hr with hlt | rfl
    · simpa [hlt.ne] using h.prepares r p hlt
    · simp [hp]
  votes r c hr := by
    rcases Nat.lt_succ_iff_lt_or_eq.mp hr with hlt | rfl
    · simpa [hlt.ne] using h.votes r c hlt
    · simp [hc]
  commits r hr := by
    rcases Nat.lt_succ_iff_lt_or_eq.mp hr with hlt | rfl
    · simpa [hlt.ne] using h.commits r hlt
    · simp [hs]
  tasks e he := by
    have ht := h.tasks e he
    refine ⟨Nat.lt_succ_of_lt ht.1, ?_⟩
    simpa [ht.1.ne, committed] using ht.2

theorem new (env : Env A) (rid : ℤ) (f : ℕ) (initSeq : ℤ) (nodes : List ℤ) (as : A) :
    (Server.new env rid f initSeq nodes as).WF where
  refs id r hr := by simp [Server.new] at hr
  views id r hr := by simp [Server.new] at hr
  pps r pp hr := by simp [Server.new] at hr
  prepares r p hr := by simp [Server.new] at hr
  votes r c hr := by simp [Server.new] at hr
  commits r hr := by simp [Server.new] at hr
  tasks e he := by simp [Server.new] at he

/-- Only the heads of the queue of waiting tasks are taken. -/
theorem tail (h : s.WF) {queue : PriorityQueue PendingTask} {m : PQElem PendingTask}
    (hq : s.applyQueue.extractMin = (queue, some m)) : { s with applyQueue := queue }.WF :=
  h.mono (fun _ _ hr => hr) le_rfl rfl rfl rfl fun e he => by
    rw [PriorityQueue.content_of_extractMin hq]
    exact List.mem_cons_of_mem _ he

/-- An entry changes in what waiting tasks do not look at. -/
theorem setReply (h : s.WF) {r : ℕ} (hr : r < s.next) (reply : Option ResponseArgs) (sendReply : Bool) :
    (s.setEntry r { s.heap r with r := reply, sendReply := sendReply }).WF :=
  h.setEntry hr ⟨rfl, fun pp hpp => ⟨pp, hpp, rfl, rfl, rfl⟩, fun h => h, List.prefix_rfl⟩ (fun pp => h.pps r pp hr)
    (fun p => h.prepares r p hr) (fun c => h.votes r c hr) (h.commits r hr)

theorem answered (h : s.WF) {m : PendingTask} (hm : m.ent < s.next) (pp : PrePrepareArgs) (as : A) :
    (s.answered m pp as).WF :=
  (h.setReply hm _ (s.heap m.ent).sendReply).mono (fun _ _ hr => hr) le_rfl rfl rfl rfl fun _ he => he

theorem runTask (h : s.WF) {queue : PriorityQueue PendingTask} {m : PQElem PendingTask} {pp : PrePrepareArgs} {as : A}
    (hq : s.applyQueue.extractMin = (queue, some m)) : (s.runTask queue m pp as).WF := by
  have hm : m.c.ent < s.next := (h.tasks m (by
    rw [PriorityQueue.content_of_extractMin hq]
    exact List.mem_cons_self ..)).1
  have ht : (s.takeTurn queue m).WF :=
    (h.tail hq).mono (fun _ _ hr => hr) le_rfl rfl rfl rfl fun _ he => he
  exact ht.answered hm pp as

/-- The preprepare message of an entry may be sent again with the same digest. -/
theorem accept (h : s.WF) {r : ℕ} {pp : PrePrepareArgs} (hr : s.log.lookup ⟨pp.view, pp.seq⟩ = some r)
    (ha : accepts (s.heap r) pp = true) : (s.setEntry r { s.heap r with pp := some pp }).WF := by
  obtain ⟨hlt, hid⟩ := h.refs _ _ hr
  refine h.setEntry hlt ⟨rfl, ?_, fun h => h, List.prefix_rfl⟩ ?_ (fun p => h.prepares r p hlt)
    (fun c => h.votes r c hlt)
    fun _ => rfl
  · intro pp' hpp'
    have hid' := h.pps r pp' hlt hpp'
    simp only [accepts, hpp', decide_eq_true_eq] at ha
    rw [hid] at hid'
    simp only [EntryID.mk.injEq] at hid'
    exact ⟨pp, rfl, hid'.1, hid'.2, ha.1.symm⟩
  · rintro _ ⟨⟩
    exact hid

theorem addPrepare (h : s.WF) {r : ℕ} {args : PrepareArgs} (hr : s.log.lookup ⟨args.view, args.seq⟩ = some r) :
    (s.setEntry r { s.heap r with p := (s.heap r).p ++ [args] }).WF := by
  obtain ⟨hlt, hid⟩ := h.refs _ _ hr
  refine h.setEntry hlt ⟨rfl, fun pp hpp => ⟨pp, hpp, rfl, rfl, rfl⟩, fun h => h, List.prefix_rfl⟩
    (fun pp => h.pps r pp hlt) ?_
    (fun c => h.votes r c hlt) (h.commits r hlt)
  intro p hp
  rcases List.mem_append.mp hp with hp | hp
  · exact h.prepares r p hlt hp
  · rw [List.mem_singleton] at hp
    exact hp ▸ hid

theorem addCommit (h : s.WF) {r : ℕ} (args : CommitArgs) (sendCommit : Bool)
    (hr : s.log.lookup ⟨args.view, args.seq⟩ = some r) (hle : (s.heap r).sendCommit = true → sendCommit = true)
    (hpp : sendCommit = true → (s.heap r).pp.isSome = true) :
    (s.setEntry r { s.heap r with sendCommit := sendCommit, c := (s.heap r).c ++ [args] }).WF := by
  obtain ⟨hlt, hid⟩ := h.refs _ _ hr
  refine h.setEntry hlt ⟨rfl, fun pp hpp => ⟨pp, hpp, rfl, rfl, rfl⟩, hle, List.prefix_append _ _⟩
    (fun pp => h.pps r pp hlt) (fun p => h.prepares r p hlt) ?_ hpp
  intro c hc
  rcases List.mem_append.mp hc with hc | hc
  · exact h.votes r c hlt hc
  · rw [List.mem_singleton] at hc
    exact hc ▸ hid

theorem enqueue (h : s.WF) {r : ℕ} {args : CommitArgs} {queue : PriorityQueue PendingTask}
    (hr : s.log.lookup ⟨args.view, args.seq⟩ = some r) (hm : matchesPP (s.heap r) args.digest = true)
    (hs : (s.heap r).sendCommit = true) (hcom : s.committed (s.heap r) = true)
    (hq : s.applyQueue.insert
      { pri := args.seq, c := { seq := args.seq, dgt := args.digest, ent := r, args := args } } = (queue, true)) :
    { s with applyQueue := queue }.WF where
  refs := h.refs
  views := h.views
  pps := h.pps
  prepares := h.prepares
  votes := h.votes
  commits := h.commits
  tasks e he := by
    rcases (PriorityQueue.mem_of_insert hq).mp he with rfl | he
    · obtain ⟨hlt, hid⟩ := h.refs _ _ hr
      exact ⟨hlt, rfl, rfl, rfl, hid, hm, hs, hcom⟩
    · exact h.tasks e he

theorem settle (h : s.WF) (key : ℤ) (cp : CheckPoint) (proof : CheckPointArgs) : (s.settle key cp proof).WF :=
  h.mono (fun _ _ hr => (RangeMap.lookup_of_lookup_filter hr).1) le_rfl rfl rfl rfl fun _ he => he

end WF

theorem WF.of_eq {s s' : Server A} (h : s.WF) (hlog : s'.log = s.log) (hview : s'.view = s.view)
    (hheap : s'.heap = s.heap) (hnext : s'.next = s.next) (hf : s'.f = s.f) (hq : s'.applyQueue = s.applyQueue) :
    s'.WF :=
  h.mono (fun _ _ hr => hlog ▸ hr) hview.ge hheap hnext hf fun _ he => hq ▸ he

theorem getStableCheckPoint_stable {s : Server A} {order : Range ℤ} {cp : CheckPoint}
    (h : s.getStableCheckPoint order = some cp) : cp.stable = true := List.find?_some h

end Server

theorem Move.wf {env : Env A} {K : Server A → Msg → Prop} {s s' : Server A} (hm : Move env K s s') (h : s.WF) :
    s'.WF := by
  cases hm with
  | newEntry n hnew => exact h.alloc _ le_rfl rfl (fun _ hpp => nomatch hpp) rfl rfl rfl
  | accept r pp hk hc hw hr ha => exact (h.accept hr ha).of_eq rfl rfl rfl rfl rfl rfl
  | addPrepare r args hk hc hw hr hm => exact h.addPrepare hr
  | sendCommit r pp as hc hw hr hpp hs hp has =>
    have hcom := h.addCommit (s.commitFor pp) true hr (fun _ => rfl) fun _ => by simp [hpp]
    exact hcom.of_eq rfl rfl rfl rfl rfl rfl
  | addCommit r args hk hc hw hr hm =>
    have hlt := (h.refs _ _ hr).1
    exact h.addCommit args (s.heap r).sendCommit hr id (h.commits r hlt)
  | enqueue r args queue hw hr hm hs hrep hcom hseq hq =>
    exact (h.enqueue hr hm hs hcom hq).setReply (h.refs _ _ hr).1 (s.heap r).r true
  | runTask queue m pp as hq hturn hpp has => exact h.runTask hq
  | runTaskAndVote queue m pp as reply digest digest' hq hturn hpp has hreply hdiv hslot =>
    have hrun : (s.runTask queue m pp as).WF := h.runTask hq
    exact hrun.of_eq rfl rfl rfl rfl rfl rfl
  | answerTask queue m pp as cp key hq hcp hstable hle hpp has =>
    have hlt : m.c.ent < s.next := (h.tasks m (by
      rw [PriorityQueue.content_of_extractMin hq]
      exact List.mem_cons_self ..)).1
    exact (h.tail hq).answered hlt pp as
  | stabilize n cp proof hdiv hcp hs hq hv =>
    have hnote : (s.note (.stable proof cp.proof)).WF := h.of_eq rfl rfl rfl rfl rfl rfl
    exact hnote.settle n cp proof
  | stabilizeAndResume n cp proof hdiv hcp hs hq hv =>
    have hresume : ((s.note (.stable proof cp.proof)).resumeIn proof.view).WF :=
      h.mono (fun _ _ hr => hr) hv.le rfl rfl rfl fun _ he => he
    exact hresume.settle n cp proof
  | catchUp => exact h.settle _ _ _
  | enterView nv mins maxs pps henter =>
    exact h.mono (fun _ _ hr => (RangeMap.lookup_of_lookup_filter hr).1) henter.1.le rfl rfl rfl fun _ he => he
  | takeOne v mins maxs pps pp henter hnv hpp hview hnew =>
    have hmap : { s with seqmap := AList.insert pp.message.op pp.seq s.seqmap }.WF := h.of_eq rfl rfl rfl rfl rfl rfl
    have ha := hmap.alloc { id := ⟨pp.view, pp.seq⟩, pp := some pp } (le_of_eq hview) rfl
      (by rintro _ ⟨⟩; rfl) rfl rfl rfl
    exact ha
  | idle | service | relay | respond | propose | repropose | sendBackground | touch | vote | settled | startChange
  | sendViewChange | storeViewChange | sendNewView => exact h.of_eq rfl rfl rfl rfl rfl rfl

end DistributedNotary.Pbft
