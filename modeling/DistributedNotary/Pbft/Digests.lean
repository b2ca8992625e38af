import DistributedNotary.Pbft.Turns
import DistributedNotary.Pbft.Worlds
import Mathlib.Data.List.TakeWhile

/-! The digest of a checkpoint. A replica computes it from its history, which
begins with a record of the checkpoint that was last made stable, and goes on
with the operations that were executed since; an operation without a request
leaves no record. When the number `q` is executed before the checkpoint before
it has become stable, the digest is made from the operation with that number
instead of the digest of the checkpoint, so replicas that are not equally far
vote for different digests. -/
namespace DistributedNotary.Pbft

open Library Relation Server

variable {A B : Type}

/-! ### Histories -/

section Histories

variable (env : Env A) (initSeq : ℕ) (ops : ℕ → String × String)

/-- The record of the operation number `j` after `initSeq`, given by its digest and its text. -/
def record (j : ℕ) : Option PbftHistory :=
  if (ops j).1 ≠ "" then some { seq := initSeq + j, digest := (ops j).2, isCheckPoint := false } else none

/-- The records of the first `k` operations. -/
def records (k : ℕ) : List PbftHistory := (List.range k).filterMap (record initSeq ops)

/-- The digest that the first record gives to the number before the checkpoint `q`, if it is about that checkpoint. -/
def basisOf (state : List PbftHistory) (q : ℤ) : Option String :=
  state.head?.bind fun r => if r.seq = q - checkpointDiv then some r.digest else none

/-- The digest of the checkpoint `q` when `basis` is that of the checkpoint before it, if that is stable already. -/
def expectedDigest (q : ℤ) (basis : Option String) : String :=
  let done := records initSeq ops (q - initSeq + 1).toNat
  let digestOf (seq : ℤ) := ((done.find? fun x => x.seq = seq).getD (invalidState env)).digest
  let block := done.filter fun x => q - checkpointDiv < x.seq
  if q = 0 then env.digest2 (invalidState env).digest (digestOf 0)
  else
    env.digest2 (basis.getD (digestOf (q - checkpointDiv)))
      (env.digestStates (if block.length ≤ 1 then [] else block.take checkpointDiv.toNat))

/-- The history of a replica that has executed `k` operations, and whose stable checkpoint is `p`. -/
def Recorded (k : ℕ) (p : ℤ) (state : List PbftHistory) : Prop :=
  ∃ r rest, state = r :: rest ++ (records initSeq ops k).filter (fun x => p < x.seq) ∧ r.seq = p ∧
    (∀ x ∈ rest, x.seq ≤ p) ∧ (p = -1 → r = invalidState env ∧ rest = [])

variable {env initSeq ops} {s : Server A} {k : ℕ} {p : ℤ} {state : List PbftHistory}

theorem records_succ (k : ℕ) :
    records initSeq ops (k + 1) = records initSeq ops k ++ (record initSeq ops k).toList := by
  unfold records
  rw [List.range_succ, List.filterMap_append]
  cases h : record initSeq ops k <;> simp [h]

theorem seq_of_record {j : ℕ} {x : PbftHistory} (h : record initSeq ops j = some x) : x.seq = initSeq + j := by
  unfold record at h
  split_ifs at h
  obtain rfl := Option.some.inj h
  rfl

theorem seq_of_mem_records {x : PbftHistory} (hx : x ∈ records initSeq ops k) :
    (initSeq : ℤ) ≤ x.seq ∧ x.seq < initSeq + k := by
  obtain ⟨j, hj, hr⟩ := List.mem_filterMap.mp hx
  rw [List.mem_range] at hj
  rw [seq_of_record hr]
  omega

theorem pairwise_records (k : ℕ) : (records initSeq ops k).Pairwise fun x y => x.seq < y.seq := by
  induction k with
  | zero => exact .nil
  | succ k ih =>
    rw [records_succ]
    refine List.pairwise_append.mpr ⟨ih, ?_, fun x hx y hy => ?_⟩
    · cases record initSeq ops k <;> simp
    · rw [Option.mem_toList] at hy
      rw [seq_of_record hy]
      exact (seq_of_mem_records hx).2

theorem removeOldState_eq (n : ℤ) (l : List PbftHistory) :
    removeOldState n l =
      match l.dropWhile fun x => x.seq < n with
      | [] => l
      | x :: rest => if x.seq = n then rest else l := by
  have hdrop := drop_findIdx l fun x : PbftHistory => decide (n ≤ x.seq)
  have hnot : (fun x : PbftHistory => !decide (n ≤ x.seq)) = fun x => decide (x.seq < n) := by
    funext x
    rw [← decide_not]
    exact decide_eq_decide.mpr not_le
  rw [hnot] at hdrop
  unfold removeOldState
  simp only []
  generalize l.findIdx (fun x => decide (n ≤ x.seq)) = i at *
  have hget : l[i]? = (l.dropWhile fun x => decide (x.seq < n)).head? := by rw [← hdrop, List.head?_drop]
  rw [hget, ← List.tail_drop, hdrop]
  cases l.dropWhile fun x => decide (x.seq < n) with
  | nil => rfl
  | cons x rest => rfl

/-- The records from a number on. -/
theorem dropWhile_records (k : ℕ) {p n : ℤ} (hp : p < n) :
    (((records initSeq ops k).filter fun x => p < x.seq).dropWhile fun x => x.seq < n) =
      (records initSeq ops k).filter fun x => n ≤ x.seq := by
  have hsorted : ((records initSeq ops k).filter fun x => p < x.seq).Pairwise fun x y => x.seq < y.seq :=
    (pairwise_records k).filter _
  have hlt : (fun x : PbftHistory => decide (x.seq < n)) = fun x => decide (x.seq ≤ n - 1) := by
    funext x
    exact decide_eq_decide.mpr Int.le_sub_one_iff.symm
  rw [hlt, dropWhile_le_eq_filter hsorted, List.filter_filter]
  refine List.filter_congr fun x _ => ?_
  simp only [← Bool.decide_and, decide_eq_decide]
  omega

namespace Recorded

theorem start : Recorded env initSeq ops 0 (-1) [invalidState env] :=
  ⟨invalidState env, [], rfl, rfl, fun _ hx => absurd hx List.not_mem_nil, fun _ => ⟨rfl, rfl⟩⟩

theorem execute (h : Recorded env initSeq ops k p state) (hp : p < initSeq + k) :
    Recorded env initSeq ops (k + 1) p (state ++ (record initSeq ops k).toList) := by
  obtain ⟨r, rest, rfl, hr, hrest, hinitial⟩ := h
  refine ⟨r, rest, ?_, hr, hrest, hinitial⟩
  have hnew : ((record initSeq ops k).toList).filter (fun x => p < x.seq) = (record initSeq ops k).toList := by
    refine List.filter_eq_self.mpr fun x hx => ?_
    rw [Option.mem_toList] at hx
    rw [seq_of_record hx]
    simpa using hp
  rw [records_succ, List.filter_append, hnew, List.append_assoc]

/-- The checkpoint `n` becomes the stable one, early or late. -/
theorem settle (h : Recorded env initSeq ops k p state) {n : ℤ} (hn : p < n) (hne : n ≠ -1) (digest : String) :
    Recorded env initSeq ops k n ({ seq := n, digest := digest, isCheckPoint := true } :: removeOldState n state) := by
  obtain ⟨r, rest, rfl, hr, hrest, -⟩ := h
  have hold : ∀ x ∈ r :: rest, x.seq ≤ p := List.forall_mem_cons.mpr ⟨hr.le, hrest⟩
  have hfront : ((r :: rest ++ (records initSeq ops k).filter fun x => p < x.seq).dropWhile fun x => x.seq < n) =
      (records initSeq ops k).filter fun x => n ≤ x.seq := by
    rw [List.dropWhile_append_of_pos, dropWhile_records k hn]
    exact fun x hx => by simpa using (hold x hx).trans_lt hn
  rw [removeOldState_eq, hfront]
  have hsplit : ((records initSeq ops k).filter fun x => p < x.seq) =
      (((records initSeq ops k).filter fun x => p < x.seq).takeWhile fun x => x.seq < n) ++
        (records initSeq ops k).filter fun x => n ≤ x.seq := by
    rw [← dropWhile_records k hn, List.takeWhile_append_dropWhile]
  -- where the operation left no record, everything older stays behind the record of the checkpoint
  have hkept : ((records initSeq ops k).filter fun x => n ≤ x.seq) =
        ((records initSeq ops k).filter fun x => n < x.seq) →
      Recorded env initSeq ops k n ({ seq := n, digest := digest, isCheckPoint := true } ::
        (r :: rest ++ (records initSeq ops k).filter fun x => p < x.seq)) := by
    intro hsame
    refine ⟨{ seq := n, digest := digest, isCheckPoint := true },
      r :: rest ++ ((records initSeq ops k).filter fun x => p < x.seq).takeWhile (fun x => x.seq < n), ?_, rfl,
      fun x hx => ?_, fun h => absurd h hne⟩
    · rw [← hsame]
      simp only [List.cons_append, List.append_assoc]
      rw [← hsplit]
    · rcases List.mem_append.mp hx with hx | hx
      · exact (hold x hx).trans hn.le
      · have hlt := List.mem_takeWhile_imp hx
        rw [decide_eq_true_eq] at hlt
        exact hlt.le
  cases hfilter : (records initSeq ops k).filter fun x => n ≤ x.seq with
  | nil =>
    refine hkept (hfilter.trans (List.filter_eq_nil_iff.mpr fun x hx => ?_).symm)
    have := List.filter_eq_nil_iff.mp hfilter x hx
    simp only [decide_eq_true_eq] at this ⊢
    omega
  | cons x rest' =>
    have hlater := filter_lt_eq (pairwise_records k) hfilter
    simp only []
    split_ifs at hlater ⊢ with heq
    · exact ⟨{ seq := n, digest := digest, isCheckPoint := true }, [], by rw [hlater]; rfl, rfl,
        fun _ hx => absurd hx List.not_mem_nil, fun h => absurd h hne⟩
    · exact hkept (hfilter.trans hlater.symm)

theorem basisOf_append {new : List PbftHistory} (h : Recorded env initSeq ops k p state) (q : ℤ) :
    basisOf (state ++ new) q = basisOf state q := by
  obtain ⟨r, rest, rfl, -⟩ := h
  rfl

/-- The state of a number after the stable checkpoint is that of its operation. -/
theorem getState (h : Recorded env initSeq ops k p s.state) {seq : ℤ} (hp : p < seq) :
    s.getState env seq = ((records initSeq ops k).find? fun x => x.seq = seq).getD (invalidState env) := by
  obtain ⟨r, rest, hstate, hr, hrest, -⟩ := h
  have hnone : (r :: rest).find? (fun x => x.seq = seq) = none := by
    rw [List.find?_eq_none]
    have hold : ∀ x ∈ r :: rest, x.seq ≤ p := List.forall_mem_cons.mpr ⟨hr.le, hrest⟩
    exact fun x hx => by simpa using ((hold x hx).trans_lt hp).ne
  unfold Server.getState
  rw [hstate, List.find?_append, hnone, Option.none_or, List.find?_filter]
  congr 2
  funext x
  simp only [decide_eq_true_eq, decide_eq_decide]
  constructor <;> omega

theorem getState_of_stable (h : Recorded env initSeq ops k p s.state) :
    ∃ r, s.getState env p = r ∧ s.state.head? = some r ∧ r.seq = p := by
  obtain ⟨r, rest, hstate, hr, -⟩ := h
  refine ⟨r, ?_, ?_, hr⟩
  · unfold Server.getState
    rw [hstate, List.cons_append, List.find?_cons_of_pos (by simpa using hr), Option.getD_some]
  · rw [hstate]
    rfl

/-- The histories of the numbers after the checkpoint before `q`. -/
theorem getStateRange (h : Recorded env initSeq ops k p s.state) {q : ℤ} (hp : p ≤ q - checkpointDiv)
    (hk : (initSeq : ℤ) + k ≤ q + 1) :
    s.getStateRange (q - checkpointDiv + 1) (q + 1) =
      let block := (records initSeq ops k).filter fun x => q - checkpointDiv < x.seq
      if block.length ≤ 1 then [] else block.take checkpointDiv.toNat := by
  obtain ⟨r, rest, hstate, hr, hrest, -⟩ := h
  have hold : ∀ x ∈ r :: rest, x.seq ≤ p := List.forall_mem_cons.mpr ⟨hr.le, hrest⟩
  have hdrop := drop_findIdx s.state fun x : PbftHistory =>
    decide (q - checkpointDiv + 1 ≤ x.seq ∧ x.seq < q + 1)
  have hblock : (s.state.dropWhile fun x : PbftHistory =>
      !decide (q - checkpointDiv + 1 ≤ x.seq ∧ x.seq < q + 1)) =
      (records initSeq ops k).filter fun x => q - checkpointDiv < x.seq := by
    have hnew : ∀ x ∈ (records initSeq ops k).filter (fun x => p < x.seq),
        (!decide (q - checkpointDiv + 1 ≤ x.seq ∧ x.seq < q + 1)) = decide (x.seq < q - checkpointDiv + 1) := by
      intro x hx
      have := seq_of_mem_records (List.mem_filter.mp hx).1
      rw [← decide_not, decide_eq_decide]
      omega
    rw [hstate, List.dropWhile_append_of_pos fun x hx => ?_, dropWhile_congr hnew, dropWhile_records k (by omega)]
    · refine List.filter_congr fun x _ => ?_
      rw [decide_eq_decide]
      omega
    · have := hold x hx
      rw [← decide_not, decide_eq_true_eq]
      omega
  rw [hblock] at hdrop
  unfold Server.getStateRange
  simp only []
  rw [hdrop]
  have hlength := congrArg List.length hdrop
  rw [List.length_drop] at hlength
  have htake : q + 1 - (q - checkpointDiv + 1) = checkpointDiv := by omega
  rw [htake]
  congr 1
  rw [eq_iff_iff]
  omega

/-- What is voted for the checkpoint `q` once its number is executed. -/
theorem checkPointDigest (h : Recorded env initSeq ops (k + 1) p s.state) {q : ℤ} (hq : q = initSeq + k)
    (hlt : p < q) (hlower : -1 ≤ p) (hp : p = -1 ∨ p.tmod checkpointDiv = 0) (hdiv : q.tmod checkpointDiv = 0)
    (digest : String) :
    s.checkPointDigest env q digest = some (expectedDigest env initSeq ops q (basisOf s.state q)) := by
  have hcount : (q - initSeq + 1).toNat = k + 1 := by omega
  unfold Server.checkPointDigest expectedDigest
  simp only [hcount]
  rw [if_neg (by omega)]
  by_cases hzero : q = 0
  · obtain rfl : p = -1 := by omega
    obtain ⟨r, hr, hhead, -⟩ := h.getState_of_stable
    have hinitial : r = invalidState env := by
      obtain ⟨r', rest, hstate, -, -, hinitial⟩ := h
      rw [hstate] at hhead
      obtain rfl := Option.some.inj hhead
      exact (hinitial rfl).1
    subst hzero
    rw [if_pos rfl, if_pos rfl, show (0 : ℤ) - 1 = -1 from rfl, hr, hinitial, h.getState (by omega)]
  · have hfar : checkpointDiv ≤ q ∧ p ≤ q - checkpointDiv := by
      rw [Int.tmod_eq_emod_of_nonneg (by omega)] at hdiv
      unfold checkpointDiv at *
      rcases hp with rfl | hp
      · omega
      · by_cases hneg : p = -1
        · omega
        · rw [Int.tmod_eq_emod_of_nonneg (by omega)] at hp
          omega
    rw [if_neg hzero, if_neg hzero, if_pos ⟨hfar.1, hdiv⟩, h.getStateRange hfar.2 (by omega)]
    rcases hfar.2.eq_or_lt with rfl | hbefore
    · obtain ⟨r, hr, hhead, hseq⟩ := h.getState_of_stable
      simp only [basisOf, hhead, Option.bind_some, hseq, if_pos, Option.getD_some, hr]
    · have hnone : basisOf s.state q = none := by
        obtain ⟨r, -, hhead, hseq⟩ := h.getState_of_stable
        simp only [basisOf, hhead, Option.bind_some, hseq, if_neg hbefore.ne]
      rw [hnone, h.getState hbefore, Option.getD_none]

end Recorded

end Histories

/-! ### Executions and checkpoints of one replica -/

namespace Server

/-- The operation of a waiting task. -/
def operation (s : Server A) (pt : PendingTask) : String := ((s.heap pt.ent).pp.map fun pp => pp.message.op).getD ""

/-- Whatever else a server does: it executes nothing, and what it knows of checkpoints stays. -/
structure Elsewhere (s s' : Server A) : Prop where
  state : s'.state = s.state
  cps : s'.cps = s.cps
  apply : s'.apply = s.apply
  h : s'.h = s.h
  H : s'.H = s.H
  votes : ∀ vote, s'.Sent (.checkPoint vote) → s.Sent (.checkPoint vote)

end Server

/-- A replica that has executed the first `k` of the operations `ops` one by one, and in between has got checkpoint
messages, which have made no number count as executed that was not. It was `ok` whenever it executed one. -/
inductive Local (env : Env A) (initSeq : ℕ) (ops : ℕ → String × String) (ok : Server A → Prop) (s₀ : Server A) :
    ℕ → Server A → Prop
  | start : Local env initSeq ops ok s₀ 0 s₀
  | turn {k : ℕ} {s s' : Server A} {queue : PriorityQueue PendingTask} {m : PQElem PendingTask}
    (h : Local env initSeq ops ok s₀ k s) (hq : s.applyQueue.extractMin = (queue, some m))
    (hturn : s.apply + 1 = m.pri) (hop : ops k = (m.c.dgt, s.operation m.c)) (hok : ok s)
    (hrun : applyLoop env 1 s = .ok s') : Local env initSeq ops ok s₀ (k + 1) s'
  | checkPoint {k : ℕ} {s s' : Server A} (args : CheckPointArgs) (h : Local env initSeq ops ok s₀ k s)
    (hrun : s.checkPoint env args = .ok s') (happly : s'.apply = s.apply) : Local env initSeq ops ok s₀ k s'
  | other {k : ℕ} {s s' : Server A} (h : Local env initSeq ops ok s₀ k s)
    (hmoves : Moves env (fun _ _ => True) s s') (hs' : s.Elsewhere s') : Local env initSeq ops ok s₀ k s'

/-- The checkpoint before the one that is executed next, where it is stable, has the digest given by `basis`, and
otherwise `basis` gives none. -/
def Agrees (basis : ℤ → Option String) (s : Server A) : Prop :=
  (s.apply + 1).tmod checkpointDiv = 0 → basisOf s.state (s.apply + 1) = basis (s.apply + 1)

section Effects

variable {env : Env A} {s s' : Server A} {key n : ℤ} {cp c : CheckPoint}

/-- The stable checkpoint stays, with all that was executed. -/
structure Kept (key : ℤ) (s s' : Server A) : Prop where
  settled : ∃ c, s'.SettledAt key c
  state : s'.state = s.state
  apply : s'.apply = s.apply
  votes : ∀ vote, s'.Sent (.checkPoint vote) → s.Sent (.checkPoint vote)

/-- The checkpoint `n` takes the place of the stable one. -/
structure Renewed (key n : ℤ) (s s' : Server A) : Prop where
  later : key < n
  div : n.tmod checkpointDiv = 0
  settled : ∃ c, s'.SettledAt n c
  state : ∃ digest, s'.state = { seq := n, digest := digest, isCheckPoint := true } :: removeOldState n s.state
  apply : s'.apply = max s.apply n
  votes : ∀ vote, s'.Sent (.checkPoint vote) → s.Sent (.checkPoint vote)

theorem countVotes_effect (h : s.SettledAt key cp) (hdiv : n.tmod checkpointDiv = 0) (hc : s.cps.lookup n = some c)
    (hs : c.stable = false) (hrun : s.countVotes env n c = .ok s') : s' = s ∨ Renewed key n s s' := by
  unfold countVotes at hrun
  split at hrun
  · exact .inl (Except.ok.inj hrun).symm
  · next proof hq =>
    split_ifs at hq with hlen
    have hn := h.lt_of_not_stable hc hs
    have hseq := h.keys n c hc
    have hproof := h.votes n c hc proof (quorumVote_spec hq).1
    have hadopt : ((s.note (.stable proof c.proof)).adoptView proof).SettledAt key cp ∧
        ((s.note (.stable proof c.proof)).adoptView proof).state = s.state ∧
        ((s.note (.stable proof c.proof)).adoptView proof).apply = s.apply ∧
        ∀ vote, ((s.note (.stable proof c.proof)).adoptView proof).Sent (.checkPoint vote) →
          s.Sent (.checkPoint vote) := by
      unfold adoptView
      split_ifs
      · exact ⟨h.frame rfl le_rfl rfl rfl, rfl, rfl, fun vote hm => by simpa [Sent] using hm⟩
      · exact ⟨h.frame rfl le_rfl rfl rfl, rfl, rfl, fun vote hm => by simpa [Sent] using hm⟩
    obtain ⟨hat, hstate, happly, hvotes⟩ := hadopt
    obtain ⟨s₁, hreply, hs₁⟩ := bind_eq_ok.mp hrun
    obtain rfl := Except.ok.inj hs₁
    obtain ⟨as, heap, queue, trace, rfl, hsent⟩ := replyUpTo_frame hreply
    have hsettle := hat.settle hn hseq hproof (h.votes n c hc)
    refine .inr ⟨hn, hdiv, ⟨_, hsettle.frame rfl le_rfl rfl rfl⟩, ⟨proof.digest, ?_⟩, ?_, fun vote hm => ?_⟩
    · change ({ seq := proof.seq, digest := proof.digest, isCheckPoint := true } : PbftHistory) ::
        removeOldState c.seq ((s.note (.stable proof c.proof)).adoptView proof).state = _
      rw [hproof, hseq, hstate]
    · change (if ((s.note (.stable proof c.proof)).adoptView proof).apply < proof.seq then c.seq
        else ((s.note (.stable proof c.proof)).adoptView proof).apply) = _
      rw [happly]
      split_ifs <;> omega
    · exact hvotes vote (hsent vote hm)

theorem checkPoint_effect (h : s.SettledAt key cp) {args : CheckPointArgs} (hrun : s.checkPoint env args = .ok s') :
    Kept key s s' ∨ Renewed key args.seq s s' := by
  have hkept : Kept key s s := ⟨⟨cp, h⟩, rfl, rfl, fun _ hm => hm⟩
  unfold checkPoint at hrun
  split_ifs at hrun with hdiv
  · obtain rfl := Except.ok.inj hrun
    exact .inl hkept
  · rw [not_not] at hdiv
    rcases getCheckPoint_cases env s hdiv with ⟨-, hg⟩ | ⟨hslot, digest, -, hg⟩
    · rw [hg] at hrun
      obtain rfl := Except.ok.inj hrun
      exact .inl hkept
    · rw [hg] at hrun
      obtain ⟨c, htouch⟩ := h.touch hslot digest
      change (if _ then _ else _) = _ at hrun
      split_ifs at hrun with hstable
      · obtain rfl := Except.ok.inj hrun
        exact .inl ⟨⟨c, htouch⟩, rfl, rfl, fun _ hm => hm⟩
      · rw [Bool.not_eq_true] at hstable
        have hn := htouch.lt_of_not_stable (AList.lookup_insert _) hstable
        let vote : CheckPoint := { s.slot args.seq with digest := digest, proof := (s.slot args.seq).proof ++ [args] }
        have hseq : vote.seq = args.seq := (SettledAt.slot_votes (n := args.seq) h).1
        have hvote := htouch.setCheckPoint hn hseq hstable fun v hv => by
          rcases List.mem_append.mp hv with hv | hv
          · exact (SettledAt.slot_votes (n := args.seq) h).2 v hv
          · rw [List.mem_singleton.mp hv]
        rcases countVotes_effect hvote hdiv (AList.lookup_insert _) hstable hrun with rfl | hnew
        · exact .inl ⟨⟨c, hvote⟩, rfl, rfl, fun _ hm => hm⟩
        · exact .inr ⟨hnew.later, hnew.div, hnew.settled, hnew.state, hnew.apply, hnew.votes⟩

theorem Server.Elsewhere.kept (h : s.SettledAt key cp) (hs' : s.Elsewhere s') : Kept key s s' :=
  ⟨⟨cp, h.frame hs'.cps hs'.apply.ge hs'.h hs'.H⟩, hs'.state, hs'.apply, hs'.votes⟩

/-- One round of the loop of `execute`: the operation is recorded, and where its number is that of a checkpoint
the server votes for it. -/
theorem turn_effect (hs : s.WF) (h : s.SettledAt key cp) {queue : PriorityQueue PendingTask} {m : PQElem PendingTask}
    (hq : s.applyQueue.extractMin = (queue, some m)) (hturn : s.apply + 1 = m.pri)
    (hrun : applyLoop env 1 s = .ok s') :
    ∃ s₁ : Server A, s₁.state = (if m.c.dgt ≠ "" then
        s.state ++ [{ seq := m.pri, digest := s.operation m.c, isCheckPoint := false }] else s.state) ∧
      s₁.apply = m.pri ∧
      (∀ vote, s₁.Sent (.checkPoint vote) → s.Sent (.checkPoint vote) ∨
        (m.pri.tmod checkpointDiv = 0 ∧ vote.seq = m.pri ∧
          ∃ digest, s₁.checkPointDigest env m.pri digest = some vote.digest)) ∧
      (Kept key s₁ s' ∨ Renewed key m.pri s₁ s') := by
  have htask : m.pri = m.c.seq := (hs.tasks m (by
    rw [PriorityQueue.content_of_extractMin hq]
    exact List.mem_cons_self ..)).2.1
  obtain ⟨pp, hpp⟩ := hs.task_pp hq
  have hn : key < m.pri := by
    have := h.passed
    omega
  unfold applyLoop at hrun
  rw [hq] at hrun
  simp only [] at hrun
  rw [if_pos hturn] at hrun
  obtain ⟨as, -, ⟨-, hr⟩ | ⟨r, -, hok⟩⟩ := replyByPendingTask_cases env (s.takeTurn queue m) hpp
  · rw [hr] at hrun
    cases hrun
  · rw [hok] at hrun
    let t : Server A := (s.runTask queue m pp as).send (.response r)
    have ht : t.SettledAt key cp := h.frame rfl (Int.le_add_one le_rfl) rfl rfl
    have hstate : t.state = (if m.c.dgt ≠ "" then
        s.state ++ [{ seq := m.pri, digest := s.operation m.c, isCheckPoint := false }] else s.state) := by
      rw [htask]
      rfl
    have hsent : ∀ vote, t.Sent (.checkPoint vote) → s.Sent (.checkPoint vote) := fun vote hm => by
      simpa [Sent, t] using hm
    have hkept : Kept key t t := ⟨⟨cp, ht⟩, rfl, rfl, fun _ hm => hm⟩
    change (if (s.apply + 1).tmod checkpointDiv = 0 then t.startCheckPoint env (s.apply + 1) >>= applyLoop env 0
      else applyLoop env 0 t) = _ at hrun
    split_ifs at hrun with hdiv
    · obtain ⟨s₂, hstart, hs₂⟩ := bind_eq_ok.mp hrun
      obtain rfl := Except.ok.inj hs₂
      rcases startCheckPoint_cases env t hdiv with hnone | ⟨hslot, digest, digest', c, hd, hc, hs, hcount⟩
      · rw [hnone] at hstart
        obtain rfl := Except.ok.inj hstart
        exact ⟨t, hstate, hturn, fun vote hm => .inl (hsent vote hm), .inl hkept⟩
      · rw [hcount] at hstart
        rw [hturn] at hdiv hd hc hstart
        have hvote : (t.castVote m.pri digest digest').SettledAt key cp := by
          refine (ht.setCheckPoint hn rfl rfl fun vote hvote => ?_).frame rfl le_rfl rfl rfl
          rcases List.mem_append.mp hvote with hvote | hvote
          · exact (ht.slot_later hn).2 vote hvote
          · rw [List.mem_singleton.mp hvote]
        refine ⟨t.castVote m.pri digest digest', hstate, hturn, fun vote hm => ?_, ?_⟩
        · rcases List.mem_cons.mp hm with heq | hm
          · obtain rfl := Msg.checkPoint.inj (Event.send.inj heq)
            exact .inr ⟨hdiv, rfl, _, hd⟩
          · exact .inl (hsent vote hm)
        · rcases countVotes_effect hvote hdiv hc hs hstart with rfl | hnew
          · exact .inl ⟨⟨cp, hvote⟩, rfl, rfl, fun _ hm => hm⟩
          · exact .inr hnew
    · obtain rfl := Except.ok.inj hrun
      exact ⟨t, hstate, hturn, fun vote hm => .inl (hsent vote hm), .inl hkept⟩

end Effects

/-! ### Agreement -/

section Agreement

variable {env : Env A} {initSeq k : ℕ} {ops : ℕ → String × String} {basis : ℤ → Option String} {s₀ s s' : Server A}
  {p n : ℤ}

/-- A replica that has executed `k` operations has them in its history, and has voted for what they amount to. -/
structure Traced (env : Env A) (initSeq : ℕ) (ops : ℕ → String × String) (basis : ℤ → Option String) (k : ℕ) (p : ℤ)
    (s : Server A) : Prop where
  apply : s.apply = initSeq + k - 1
  div : p = -1 ∨ p.tmod checkpointDiv = 0
  state : Recorded env initSeq ops k p s.state
  votes : ∀ vote, s.Sent (.checkPoint vote) → vote.digest = expectedDigest env initSeq ops vote.seq (basis vote.seq)

namespace Traced

theorem kept (h : Traced env initSeq ops basis k p s) (hs' : Kept p s s') : Traced env initSeq ops basis k p s' :=
  ⟨hs'.apply.trans h.apply, h.div, hs'.state ▸ h.state, fun vote hm => h.votes vote (hs'.votes vote hm)⟩

theorem renewed (h : Traced env initSeq ops basis k p s) (hp : -1 ≤ p) (hs' : Renewed p n s s')
    (happly : s'.apply = s.apply) : Traced env initSeq ops basis k n s' := by
  obtain ⟨digest, hstate⟩ := hs'.state
  have hne : n ≠ -1 := (hp.trans_lt hs'.later).ne'
  exact ⟨happly.trans h.apply, .inr hs'.div, hstate ▸ h.state.settle hs'.later hne digest,
    fun vote hm => h.votes vote (hs'.votes vote hm)⟩

/-- The next operation is recorded, and the vote for its number has the expected digest. -/
theorem execute (h : Traced env initSeq ops basis k p s) {s₁ : Server A} {q : ℤ} {dgt op : String} (hlower : -1 ≤ p)
    (hp : p ≤ s.apply) (hq : s.apply + 1 = q) (hop : ops k = (dgt, op)) (hok : Agrees basis s)
    (hstate : s₁.state = (if dgt ≠ "" then s.state ++ [{ seq := q, digest := op, isCheckPoint := false }]
      else s.state)) (happly : s₁.apply = q)
    (hvotes : ∀ vote, s₁.Sent (.checkPoint vote) → s.Sent (.checkPoint vote) ∨
      (q.tmod checkpointDiv = 0 ∧ vote.seq = q ∧ ∃ digest, s₁.checkPointDigest env q digest = some vote.digest)) :
    Traced env initSeq ops basis (k + 1) p s₁ := by
  have happlyEq := h.apply
  have hnumber : q = initSeq + k := by omega
  have hstate' : s₁.state = s.state ++ (record initSeq ops k).toList := by
    rw [hstate]
    unfold record
    rw [hop, ← hnumber]
    split_ifs
    · rfl
    · exact (List.append_nil _).symm
  have hrec := h.state.execute (by omega)
  rw [← hstate'] at hrec
  refine ⟨by omega, h.div, hrec, fun vote hm => ?_⟩
  rcases hvotes vote hm with hm | ⟨hdiv, hseq, digest, hdigest⟩
  · exact h.votes vote hm
  · have hbasis : basisOf s₁.state q = basis q := by
      rw [hstate', h.state.basisOf_append, ← hq]
      exact hok (hq ▸ hdiv)
    rw [hrec.checkPointDigest hnumber (by omega) hlower h.div hdiv digest, hbasis] at hdigest
    rw [hseq]
    exact (Option.some.inj hdigest).symm

end Traced

theorem Local.wf {ok : Server A → Prop} (h : Local env initSeq ops ok s₀ k s) (hs₀ : s₀.WF) : s.WF := by
  induction h with
  | start => exact hs₀
  | turn h hq hturn hop hok hrun ih =>
    have hmoves : Moves env (fun _ _ => True) _ (after (applyLoop env 1 _)) := moves_applyLoop 1 ih
    rw [hrun] at hmoves
    exact hmoves.wf ih
  | checkPoint args h hrun happly ih =>
    have hmoves : Moves env (fun _ _ => True) _ (after (Server.checkPoint env _ args)) :=
      moves_checkPoint ih fun _ _ => trivial
    rw [hrun] at hmoves
    exact hmoves.wf ih
  | other h hmoves hs' ih => exact hmoves.wf ih

theorem Local.traced (h : Local env initSeq ops (Agrees basis) s₀ k s) (hwf : s₀.WF)
    (hs₀ : ∃ cp, s₀.SettledAt (-1) cp) (ht : Traced env initSeq ops basis 0 (-1) s₀) :
    ∃ p, (∃ cp, s.SettledAt p cp) ∧ Traced env initSeq ops basis k p s := by
  induction h with
  | start => exact ⟨-1, hs₀, ht⟩
  | turn h hq hturn hop hok hrun ih =>
    obtain ⟨p, ⟨cp, hsettled⟩, ht⟩ := ih
    obtain ⟨s₁, hstate, happly, hvotes, hs'⟩ := turn_effect (h.wf hwf) hsettled hq hturn hrun
    have ht₁ := ht.execute hsettled.lower hsettled.passed hturn hop hok hstate happly hvotes
    rcases hs' with hs' | hs'
    · exact ⟨p, hs'.settled, ht₁.kept hs'⟩
    · exact ⟨_, hs'.settled, ht₁.renewed hsettled.lower hs' (hs'.apply.trans (by rw [happly, max_self]))⟩
  | checkPoint args h hrun happly ih =>
    obtain ⟨p, ⟨cp, hsettled⟩, ht⟩ := ih
    rcases checkPoint_effect hsettled hrun with hs' | hs'
    · exact ⟨p, hs'.settled, ht.kept hs'⟩
    · exact ⟨_, hs'.settled, ht.renewed hsettled.lower hs' happly⟩
  | other h hmoves hs' ih =>
    obtain ⟨p, ⟨cp, hsettled⟩, ht⟩ := ih
    have hkept := hs'.kept hsettled
    exact ⟨p, hkept.settled, ht.kept hkept⟩

/-- What a replica votes for depends on the operations and on the digests of the stable checkpoints alone. -/
theorem Local.digest_of_vote {rid : ℤ} {f : ℕ} {nodes : List ℤ} {as : A}
    (h : Local env initSeq ops (Agrees basis) (Server.new env rid f initSeq nodes as) k s) {vote : CheckPointArgs}
    (hv : s.Sent (.checkPoint vote)) : vote.digest = expectedDigest env initSeq ops vote.seq (basis vote.seq) := by
  obtain ⟨p, -, ht⟩ := h.traced (WF.new ..) (SettledAt.new env rid f nodes as (Int.natCast_nonneg initSeq))
    ⟨by simp [Server.new], .inl rfl, Recorded.start, fun vote hm => absurd hm List.not_mem_nil⟩
  exact ht.votes vote hv

/-- Two replicas that execute the same operations from the same number on vote for the same digests, where at
each checkpoint that they execute the one before it is stable with the same digest at both, or at neither. -/
theorem checkpoint_digests_agree {rid rid' : ℤ} {f f' k' : ℕ} {nodes nodes' : List ℤ} {as as' : A}
    (h : Local env initSeq ops (Agrees basis) (Server.new env rid f initSeq nodes as) k s)
    (h' : Local env initSeq ops (Agrees basis) (Server.new env rid' f' initSeq nodes' as') k' s')
    {vote vote' : CheckPointArgs} (hv : s.Sent (.checkPoint vote)) (hv' : s'.Sent (.checkPoint vote'))
    (hseq : vote.seq = vote'.seq) : vote.digest = vote'.digest := by
  rw [h.digest_of_vote hv, h'.digest_of_vote hv', hseq]

end Agreement

/-! ### A replica before and after it learns of the checkpoint before -/

/-- The messages of view 0 that prepare the operation `op` with number 200 at replica 1. -/
def preparing (op : String) : List Input :=
  .message (.commit (plainCommit 0 200 op 0)) :: [0, 2].map (fun i => .message (.prepare (plainPrepare 0 200 op i))) ++
    [.message (.prePrepare (plainPP 0 200 op))]

/-- The task of the operation `op` with number 200. -/
def taskOf (op : String) : PendingTask :=
  { seq := 200, dgt := (plainCommit 0 200 op 2).digest, ent := 0, args := plainCommit 0 200 op 2 }

/-- The last commit message of the operation `op` has come to `s`. -/
def Server.lastCommit (op : String) (s : Server Unit) : Server Unit :=
  s.setEntry 0 { s.heap 0 with c := (s.heap 0).c ++ [plainCommit 0 200 op 2] }

/-- The operation `op` waits for its turn. -/
def Server.queued (op : String) (s : Server Unit) : Server Unit :=
  { s with applyQueue := (s.applyQueue.insert { pri := 200, c := taskOf op }).1 }.setEntry 0
    { s.heap 0 with sendReply := true }

/-- Whether the entry of number 200 may take the commit message, and be queued after it. -/
def Server.takesCommit (op : String) (s : Server Unit) : Bool :=
  s.changing = false ∧ s.inWindow 0 200 ∧ s.log.lookup ⟨0, 200⟩ = some 0 ∧ matchesPP (s.heap 0) ("#" ++ op) ∧
    (s.heap 0).sendCommit ∧ (s.heap 0).sendReply = false ∧ s.apply < 200 ∧
    (s.lastCommit op).committed ((s.lastCommit op).heap 0) ∧ (s.applyQueue.insert { pri := 200, c := taskOf op }).2

theorem moves_queued {op : String} {s : Server Unit} (h : s.takesCommit op = true) :
    Moves Env.plain (fun _ _ => True) s ((s.lastCommit op).queued op) := by
  simp only [takesCommit, decide_eq_true_eq] at h
  obtain ⟨hc, hw, hr, hm, hsent, hreply, happly, hcom, hq⟩ := h
  have hcommit : Move Env.plain (fun _ _ => True) s (s.lastCommit op) :=
    .addCommit s 0 (plainCommit 0 200 op 2) trivial hc hw hr hm
  refine (ReflTransGen.single hcommit).tail ?_
  exact .enqueue (s.lastCommit op) 0 (plainCommit 0 200 op 2) _ hw hr hm hsent hreply hcom happly (Prod.ext rfl hq)

theorem moves_reacts {env : Env A} {s : Server A} (hs : s.WF) (l : List Input) :
    Moves env (fun _ _ => True) s (s.reacts env l) := by
  induction l with
  | nil => exact .refl
  | cons a l ih =>
    exact ih.trans (moves_react ⟨fun _ _ _ => trivial, fun _ _ _ => trivial⟩ (ih.wf hs) (fun _ _ _ _ => trivial)
      fun _ _ _ _ _ _ _ _ _ => trivial)

deriving instance DecidableEq for CheckPoint

/-- The vote for a checkpoint that an event sends. -/
def Event.vote : Event → Option CheckPointArgs
  | .send (.checkPoint args) => some args
  | _ => none

theorem mem_votes {s : Server A} {vote : CheckPointArgs} :
    vote ∈ s.trace.filterMap Event.vote ↔ s.Sent (.checkPoint vote) := by
  rw [List.mem_filterMap]
  refine ⟨?_, fun h => ⟨_, h, rfl⟩⟩
  rintro ⟨e, he, hvote⟩
  unfold Event.vote at hvote
  split at hvote
  · obtain rfl := Option.some.inj hvote
    exact he
  · nomatch hvote

/-- The operation `op` gets prepared and committed by `s`, and waits for its turn. -/
def Server.committing (op : String) (s : Server Unit) : Server Unit :=
  ((s.reacts Env.plain (preparing op)).lastCommit op).queued op

/-- The operation `op` is executed then. -/
def Server.executing (op : String) (s : Server Unit) : Server Unit := after (applyLoop Env.plain 1 (s.committing op))

/-- Whether `s` has votes that make it take the commit messages for the operation `op`, and execute it. -/
def Server.mayExecute (op : String) (s : Server Unit) : Bool :=
  let s' := s.committing op
  (s.reacts Env.plain (preparing op)).takesCommit op ∧ s'.state = s.state ∧ s'.cps.entries = s.cps.entries ∧
    s'.apply = s.apply ∧ s'.h = s.h ∧ s'.H = s.H ∧
    s'.trace.filterMap Event.vote = s.trace.filterMap Event.vote ∧ s'.apply = 199 ∧
    (s'.applyQueue.extractMin.2.map fun m => (m.pri, m.c.dgt, s'.operation m.c)) = some (200, "#" ++ op, op) ∧
    (applyLoop Env.plain 1 s').toBool

/-- Whether the vote for a checkpoint makes no number count as executed. -/
def Server.counts (s : Server Unit) (args : CheckPointArgs) : Bool :=
  match s.checkPoint Env.plain args with
  | .ok s' => s'.apply = s.apply
  | .error _ => false

section Example

variable {ok : Server Unit → Prop} {s₀ s : Server Unit} {k : ℕ} {ops : ℕ → String × String}

theorem eq_ok_after {r : Run A (Server A)} (h : r.toBool = true) : r = .ok (after r) := by
  cases r with
  | ok s => rfl
  | error s => exact absurd h Bool.false_ne_true

theorem Local.executing (op : String) (h : Local Env.plain 200 (fun _ => ("#" ++ op, op)) ok s₀ 0 s) (hwf : s₀.WF)
    (hop : s.mayExecute op = true) (hok : ok (s.committing op)) :
    Local Env.plain 200 (fun _ => ("#" ++ op, op)) ok s₀ 1 (s.executing op) := by
  simp only [mayExecute, decide_eq_true_eq] at hop
  obtain ⟨htakes, hstate, hcps, happly, hh, hH, hvotes, happly', hmin, hrun⟩ := hop
  have hmoves := (moves_reacts (h.wf hwf) (preparing op)).trans (moves_queued htakes)
  have hother := h.other hmoves ⟨hstate, AList.ext hcps, happly, hh, hH, fun vote hm => by
    rw [← mem_votes] at hm ⊢
    rwa [← hvotes]⟩
  cases hq : (s.committing op).applyQueue.extractMin with
  | mk queue m =>
    rw [hq] at hmin
    obtain ⟨m, rfl, heq⟩ := Option.map_eq_some_iff.mp hmin
    obtain ⟨hpri, hdgt, htext⟩ := Prod.mk.inj heq |>.imp_right Prod.mk.inj
    exact hother.turn hq (by rw [hpri]; exact happly' ▸ rfl) (Prod.ext hdgt.symm htext.symm) hok (eq_ok_after hrun)

theorem Local.counting (h : Local Env.plain 200 ops ok s₀ k s) {args : CheckPointArgs} (hs : s.counts args = true) :
    Local Env.plain 200 ops ok s₀ k (after (s.checkPoint Env.plain args)) := by
  unfold counts at hs
  split at hs
  · next s' hrun =>
    rw [hrun]
    exact h.checkPoint args hrun (of_decide_eq_true hs)
  · exact absurd hs Bool.false_ne_true

/-- A vote of view 0 for the checkpoint 100. -/
def voteOf (rid : ℤ) : CheckPointArgs := { seq := 100, digest := "d", rid := rid, view := 0 }

/-- The replica `rid` that starts at number 200. -/
def fresh (rid : ℤ) : Server Unit := Server.new Env.plain rid 1 200 (ids 4) ()

/-- The replica `rid` has got votes for the checkpoint 100 from other replicas, the latest first. -/
def informed (rid : ℤ) : List ℤ → Server Unit
  | [] => fresh rid
  | i :: l => after ((informed rid l).checkPoint Env.plain (voteOf i))

def counted (rid : ℤ) : List ℤ → Bool
  | [] => true
  | i :: l => counted rid l && (informed rid l).counts (voteOf i)

theorem Local.informed {rid : ℤ} {l : List ℤ} (hl : counted rid l = true) :
    Local Env.plain 200 ops ok (fresh rid) 0 (informed rid l) := by
  induction l with
  | nil => exact .start
  | cons i l ih =>
    obtain ⟨hl, hi⟩ := Bool.and_eq_true_iff.mp hl
    exact (ih hl).counting hi

end Example

instance instDecidableAgrees (basis : ℤ → Option String) (s : Server A) : Decidable (Agrees basis s) :=
  inferInstanceAs (Decidable (_ → _))

/-- The votes that a replica has sent. -/
def Server.sentVotes (s : Server Unit) : List CheckPointArgs := s.trace.filterMap Event.vote

/-- Of two replicas that execute the same operation with number 200 one has learned of the checkpoint 100 before. -/
theorem checkpoint_digests_differ :
    ∃ s s' : Server Unit, ∃ vote vote' : CheckPointArgs,
      Local Env.plain 200 (fun _ => ("#" ++ "a", "a")) (fun _ => True) (fresh 1) 1 s ∧
        Local Env.plain 200 (fun _ => ("#" ++ "a", "a")) (fun _ => True) (fresh 3) 1 s' ∧
        s.Sent (.checkPoint vote) ∧ s'.Sent (.checkPoint vote') ∧ vote.seq = vote'.seq ∧
        vote.digest ≠ vote'.digest := by
  have hinformed :
      Local Env.plain 200 (fun _ => ("#" ++ "a", "a")) (fun _ => True) (fresh 3) 0 (informed 3 [2, 1, 0]) :=
    Local.informed (by decide +kernel)
  have h : Local Env.plain 200 (fun _ => ("#" ++ "a", "a")) (fun _ => True) (fresh 1) 1 ((fresh 1).executing "a") :=
    Local.executing "a" .start (WF.new ..) (by decide +kernel) trivial
  have h' := Local.executing "a" hinformed (WF.new ..) (by decide +kernel) trivial
  have hv : ((fresh 1).executing "a").sentVotes = [{ seq := 200, digest := "##", rid := 1, view := 0 }] := by
    decide +kernel
  have hv' : ((informed 3 [2, 1, 0]).executing "a").sentVotes =
      [{ seq := 200, digest := "d#", rid := 3, view := 0 }] := by
    decide +kernel
  have hs := mem_votes.mp (hv.symm ▸ List.mem_cons_self ..)
  have hs' := mem_votes.mp (hv'.symm ▸ List.mem_cons_self ..)
  exact ⟨_, _, _, _, h, h', hs, hs', rfl, by decide⟩

/-- Both have learned of it before, from different replicas. -/
theorem checkpoint_digests_agree_200 :
    ∃ vote vote' : CheckPointArgs, ((informed 1 [3, 2, 0]).executing "a").Sent (.checkPoint vote) ∧
      ((informed 3 [0, 1, 2]).executing "a").Sent (.checkPoint vote') ∧ vote.digest = vote'.digest := by
  let basis (q : ℤ) : Option String := if q = 200 then some "d" else none
  have hinformed : Local Env.plain 200 (fun _ => ("#" ++ "a", "a")) (Agrees basis) (fresh 1) 0 (informed 1 [3, 2, 0]) :=
    Local.informed (by decide +kernel)
  have hinformed' :
      Local Env.plain 200 (fun _ => ("#" ++ "a", "a")) (Agrees basis) (fresh 3) 0 (informed 3 [0, 1, 2]) :=
    Local.informed (by decide +kernel)
  have h := Local.executing "a" hinformed (WF.new ..) (by decide +kernel) (by decide +kernel)
  have h' := Local.executing "a" hinformed' (WF.new ..) (by decide +kernel) (by decide +kernel)
  have hv : ((informed 1 [3, 2, 0]).executing "a").sentVotes =
      [{ seq := 200, digest := "d#", rid := 1, view := 0 }] := by
    decide +kernel
  have hv' : ((informed 3 [0, 1, 2]).executing "a").sentVotes =
      [{ seq := 200, digest := "d#", rid := 3, view := 0 }] := by
    decide +kernel
  have hs := mem_votes.mp (hv.symm ▸ List.mem_cons_self ..)
  have hs' := mem_votes.mp (hv'.symm ▸ List.mem_cons_self ..)
  exact ⟨_, _, hs, hs', checkpoint_digests_agree h h' hs hs' rfl⟩

end DistributedNotary.Pbft
