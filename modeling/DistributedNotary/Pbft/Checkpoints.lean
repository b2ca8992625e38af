import DistributedNotary.Pbft.Turns
import DistributedNotary.Pbft.Worlds

/-! What stands behind a stable checkpoint. A replica votes for a checkpoint
when it has executed its number, once and under its own name. `CheckPoint`
counts the votes it gets and not their senders, so a sender that is counted
twice can make a quorum of votes without a quorum of replicas. View change
messages, and the new views made of them, only claim a checkpoint, and
`enteringNewView` takes it over without a vote. -/
namespace DistributedNotary.Pbft

open Library Server

variable {A : Type}

/-- The number of the operation that is executed. -/
def Event.executes : Event → Option ℤ
  | .updateSeq _ seq _ _ => some seq
  | _ => none

/-- The server has executed the operation with number `seq`. -/
def Server.Executed (s : Server A) (seq : ℤ) : Prop := ∃ e ∈ s.trace, e.executes = some seq

instance instDecidableExecuted (s : Server A) (seq : ℤ) : Decidable (s.Executed seq) :=
  inferInstanceAs (Decidable (∃ _ ∈ _, _))

/-- The senders of the votes that satisfy `q`. -/
def senders (q : CheckPointArgs → Bool) (votes : List CheckPointArgs) : Finset ℤ :=
  ((votes.filter q).map CheckPointArgs.rid).toFinset

section Votes

variable (n : ℕ) (byz : Finset ℤ) (servers : ℤ → Server A)

/-- The vote comes from a malicious notary, or the correct server with its id has sent it. -/
def Cast (vote : CheckPointArgs) : Prop :=
  vote.rid ∈ byz ∨ (Correct n byz vote.rid ∧ (servers vote.rid).Sent (.checkPoint vote))

/-- No correct server has sent the message. -/
def Forged (msg : Msg) : Prop := ∀ j ∈ ids n, j ∉ byz → ¬ (servers j).Sent msg

/-- There is nothing before `seq`, or a correct server has executed it. -/
def Rooted (seq : ℤ) : Prop := seq = -1 ∨ ∃ j ∈ ids n, j ∉ byz ∧ (servers j).Executed seq

/-- A vote that is counted is the first of its sender. A forged view change that the leader of its view keeps, and
a forged new view that the server goes into, start after a number that a correct server has executed. -/
def Grounded (servers : ℤ → Server A) (i : ℤ) : Msg → Prop
  | .checkPoint args => args.seq.tmod checkpointDiv = 0 → ((servers i).slot args.seq).stable = false →
      ∀ vote ∈ ((servers i).slot args.seq).proof, vote.rid ≠ args.rid
  | .viewChange vc => Forged n byz servers (.viewChange vc) → (servers i).view < vc.view → vc.view.tmod n = i →
      ∀ cp ∈ vc.cp, Rooted n byz servers cp.seq
  | .newView nv => Forged n byz servers (.newView nv) → (servers i).backed nv = true →
      ∀ mins ∈ minsOf nv.v, Rooted n byz servers mins
  | _ => True

instance instDecidableForged (msg : Msg) : Decidable (Forged n byz servers msg) :=
  inferInstanceAs (Decidable (∀ _ ∈ _, _))

instance instDecidableRooted (seq : ℤ) : Decidable (Rooted n byz servers seq) :=
  inferInstanceAs (Decidable (_ ∨ ∃ _ ∈ _, _))

instance instDecidableGrounded (i : ℤ) (msg : Msg) : Decidable (Grounded n byz servers i msg) := by
  unfold Grounded
  split <;> infer_instance

/-- A correct server has made the checkpoint `seq` stable on votes, or `seq` has a root anyway. -/
def Reaches (seq : ℤ) : Prop :=
  (∃ j, Correct n byz j ∧ ∃ proof votes, .stable proof votes ∈ (servers j).trace ∧ proof.seq = seq) ∨
    Rooted n byz servers seq

/-- The votes that server `i` keeps for the checkpoint `cp` under `key`; it has not cast its own before `apply`
has come to the number. -/
structure Ballot (i apply key : ℤ) (cp : CheckPoint) : Prop where
  seq : cp.seq = key
  votes : ∀ vote ∈ cp.proof, vote.seq = key ∧ Cast n byz servers vote
  once : (cp.proof.map CheckPointArgs.rid).Nodup
  own : ∀ vote ∈ cp.proof, vote.rid = i → key ≤ apply
  stable : cp.stable = true → Reaches n byz servers key

/-- The votes at which a checkpoint became stable. -/
structure Quorum (f : ℕ) (proof : CheckPointArgs) (votes : List CheckPointArgs) : Prop where
  cast : ∀ vote ∈ votes, vote.seq = proof.seq ∧ Cast n byz servers vote
  digest : 2 * f + 1 ≤ (senders (fun vote => vote.digest = proof.digest) votes).card
  view : 2 * f + 1 ≤ (senders (fun vote => vote.view = proof.view) votes).card

/-- The entry is in the log, or has a number before one that was reached. -/
def Logged (s : Server A) (r : ℕ) : Prop :=
  (s.log.lookup (s.heap r).id).isSome = true ∨ ∃ seq, (s.heap r).id.n < seq ∧ Reaches n byz servers seq

/-- Why the event has happened, as far as checkpoints are concerned. -/
def Event.Backed (i : ℤ) (s : Server A) : Event → Prop
  | .send (.checkPoint vote) => vote.rid = i ∧ s.Executed vote.seq
  | .send (.viewChange vc) => ∀ cp ∈ vc.cp, Reaches n byz servers cp.seq
  | .send (.newView nv) => ∀ mins ∈ minsOf nv.v, Reaches n byz servers mins
  | .stable proof votes => Quorum n byz servers s.f proof votes
  | .adoptView view => ∃ proof votes, .stable proof votes ∈ s.trace ∧ proof.view = view
  | _ => True

/-- What server `i`, with first number `start`, says about checkpoints, and how it has come to its bounds; an
entry that it has dropped has a number before such a bound. The view changes that it keeps as a leader claim no
other checkpoints. -/
structure Voting (start : ℤ) (i : ℤ) (s : Server A) : Prop where
  ballots : ∀ key cp, s.cps.lookup key = some cp → Ballot n byz servers i s.apply key cp
  events : ∀ e ∈ s.trace, e.Backed n byz servers i s
  apply : s.apply = start - 1 ∨ s.Executed s.apply ∨ Reaches n byz servers s.apply
  h : s.h = start ∨ Reaches n byz servers s.h
  log : ∀ r < s.next, Logged n byz servers s r
  vcs : ∀ view l, view.tmod n = i → s.vcs.lookup view = some l →
    ∀ vc ∈ l, ∀ cp ∈ vc.cp, Reaches n byz servers cp.seq

end Votes

section Lemmas

variable {env : Env A} {n f : ℕ} {byz : Finset ℤ} {servers servers' : ℤ → Server A} {i start : ℤ} {s s' : Server A}

theorem executed_mono (ht : s.trace <:+ s'.trace) {seq : ℤ} (h : s.Executed seq) : s'.Executed seq := by
  obtain ⟨e, he, hseq⟩ := h
  exact ⟨e, ht.subset he, hseq⟩

theorem Rooted.update (ht : (servers i).trace <:+ s'.trace) {seq : ℤ} (h : Rooted n byz servers seq) :
    Rooted n byz (Function.update servers i s') seq := by
  refine h.imp_right fun ⟨j, hj, hno, hexec⟩ => ⟨j, hj, hno, ?_⟩
  by_cases e : j = i
  · subst e
    rw [Function.update_self]
    exact executed_mono ht hexec
  · rwa [Function.update_of_ne e]

theorem Forged.of_update (ht : (servers i).trace <:+ s'.trace) {msg : Msg}
    (h : Forged n byz (Function.update servers i s') msg) : Forged n byz servers msg :=
  fun j hj hno hs => h j hj hno (update_sent ht hs)

theorem Grounded.lasting : Lasting (Grounded (A := A) n byz) := by
  intro servers i s' msg h hb
  cases msg with
  | checkPoint args =>
    obtain ⟨-, -, hproof, hstable⟩ := hb
    simp only [Grounded, Function.update_self, hproof, hstable]
    exact h
  | viewChange vc =>
    obtain rfl : s' = servers i := hb
    rwa [Function.update_eq_self]
  | newView nv =>
    obtain ⟨-, ht, hview, hf⟩ := hb
    have hbacked : s'.backed nv = (servers i).backed nv := by simp [backed, hview, hf]
    simp only [Grounded, Function.update_self, hbacked]
    exact fun hforged hback mins hmins => (h (hforged.of_update ht) hback mins hmins).update ht
  | _ => trivial

/-- Votes of different senders count as many senders as votes. -/
theorem card_senders {votes : List CheckPointArgs} (h : (votes.map CheckPointArgs.rid).Nodup)
    (q : CheckPointArgs → Bool) : (senders q votes).card = votes.countP q := by
  have hq : ((votes.filter q).map CheckPointArgs.rid).Nodup := h.sublist (List.filter_sublist.map _)
  rw [senders, List.card_toFinset, hq.dedup, List.length_map, List.countP_eq_length_filter]

theorem Ballot.quorum {apply key : ℤ} {cp : CheckPoint} {proof : CheckPointArgs}
    (h : Ballot n byz servers i apply key cp) (hq : quorumVote f [] cp.proof = some proof) :
    proof.seq = key ∧ Quorum n byz servers f proof cp.proof := by
  obtain ⟨hmem, hdigest, hview⟩ := quorumVote_spec hq
  have hseq := (h.votes proof hmem).1
  refine ⟨hseq, fun vote hvote => ⟨?_, (h.votes vote hvote).2⟩, ?_, ?_⟩
  · rw [hseq, (h.votes vote hvote).1]
  · rw [card_senders h.once]
    exact hdigest
  · rw [card_senders h.once]
    exact hview

/-- Among enough senders there is a correct one, which has executed the number. -/
theorem Quorum.executed {proof : CheckPointArgs} {votes : List CheckPointArgs} (h : Quorum n byz servers f proof votes)
    (hbyz : byz.card ≤ f) (hsent : ∀ j, Correct n byz j → ∀ vote, (servers j).Sent (.checkPoint vote) →
      (servers j).Executed vote.seq) : ∃ j, Correct n byz j ∧ (servers j).Executed proof.seq := by
  obtain ⟨j, hj, hno⟩ : ∃ j ∈ senders (fun vote => vote.digest = proof.digest) votes, j ∉ byz := by
    refine Finset.exists_mem_notMem_of_card_lt_card ?_
    have := h.digest
    omega
  obtain ⟨vote, hvote, rfl⟩ := List.mem_map.mp (List.mem_toFinset.mp hj)
  obtain ⟨hseq, hcast⟩ := h.cast vote (List.mem_filter.mp hvote).1
  obtain ⟨hcorrect, hs⟩ := hcast.resolve_left hno
  exact ⟨vote.rid, hcorrect, hseq ▸ hsent vote.rid hcorrect vote hs⟩

/-! ### Evidence that only grows -/

theorem Cast.update (ht : (servers i).trace <:+ s'.trace) {vote : CheckPointArgs} (h : Cast n byz servers vote) :
    Cast n byz (Function.update servers i s') vote :=
  h.imp_right fun h => ⟨h.1, update_sent ht h.2⟩

theorem Reaches.update (ht : (servers i).trace <:+ s'.trace) {seq : ℤ} (h : Reaches n byz servers seq) :
    Reaches n byz (Function.update servers i s') seq := by
  refine h.imp (fun ⟨j, hj, proof, votes, he, hseq⟩ => ⟨j, hj, proof, votes, ?_, hseq⟩) (Rooted.update ht)
  by_cases e : j = i
  · subst e
    rw [Function.update_self]
    exact ht.subset he
  · rwa [Function.update_of_ne e]

/-- The number that a new view starts after is that of a checkpoint of its view changes. -/
theorem reaches_minsOf {v : List ViewChangeArgs} (h : ∀ vc ∈ v, ∀ cp ∈ vc.cp, Reaches n byz servers cp.seq) {mins : ℤ}
    (hmins : mins ∈ minsOf v) : Reaches n byz servers mins := by
  obtain ⟨⟨mins, maxs, pprepared⟩, hcalc, rfl⟩ := Option.map_eq_some_iff.mp hmins
  rcases mem_of_calcMinMaxspp hcalc with heq | ⟨vc, hvc, cp, hcp, hseq⟩
  · exact .inr (.inl heq)
  · rw [← hseq]
    exact h vc hvc cp hcp

theorem mem_minsOf {view mins maxs : ℤ} {v : List ViewChangeArgs} {pps : List PrePrepareArgs}
    (h : newViewOf view v = some (mins, maxs, pps)) : mins ∈ minsOf v := by
  obtain ⟨r, hcalc, hr⟩ := Option.map_eq_some_iff.mp h
  exact Option.map_eq_some_iff.mpr ⟨r, hcalc, (Prod.mk.inj hr).1⟩

theorem Event.Backed.mono (ht : s.trace <:+ s'.trace) (hf : s'.f = s.f) {e : Event} (h : e.Backed n byz servers i s) :
    e.Backed n byz servers i s' := by
  cases e with
  | send msg =>
    cases msg with
    | checkPoint vote => exact ⟨h.1, executed_mono ht h.2⟩
    | viewChange vc => exact h
    | newView nv => exact h
    | _ => trivial
  | stable proof votes =>
    unfold Event.Backed at h ⊢
    rwa [hf]
  | adoptView view =>
    obtain ⟨proof, votes, he, hview⟩ := h
    exact ⟨proof, votes, ht.subset he, hview⟩
  | _ => trivial

theorem Event.Backed.update (ht : (servers i).trace <:+ s'.trace) {j : ℤ} {e : Event} (h : e.Backed n byz servers j s) :
    e.Backed n byz (Function.update servers i s') j s := by
  cases e with
  | stable proof votes => exact ⟨fun vote hvote => (h.cast vote hvote).imp_right (Cast.update ht), h.digest, h.view⟩
  | send msg =>
    cases msg with
    | viewChange vc => exact fun cp hcp => (h cp hcp).update ht
    | newView nv => exact fun mins hmins => (h mins hmins).update ht
    | _ => exact h
  | _ => exact h

theorem Voting.update (ht : (servers i).trace <:+ s'.trace) {j : ℤ} (h : Voting n byz servers start j s) :
    Voting n byz (Function.update servers i s') start j s := by
  refine ⟨?_, fun e he => (h.events e he).update ht, ?_, h.h.imp_right (Reaches.update ht), ?_, ?_⟩
  · intro key cp hcp
    have hb := h.ballots key cp hcp
    exact ⟨hb.seq, fun vote hvote => (hb.votes vote hvote).imp_right (Cast.update ht), hb.once, hb.own,
      fun hstable => (hb.stable hstable).update ht⟩
  · exact h.apply.imp_right fun h => h.imp_right (Reaches.update ht)
  · exact fun r hr => (h.log r hr).imp_right fun ⟨seq, hlt, hs⟩ => ⟨seq, hlt, hs.update ht⟩
  · exact fun view l hl hlookup vc hvc cp hcp => (h.vcs view l hl hlookup vc hvc cp hcp).update ht

/-! ### Entries that are still there -/

theorem Logged.frame {r : ℕ} (hlog : s'.log = s.log) (hid : (s'.heap r).id = (s.heap r).id)
    (h : Logged n byz servers s r) : Logged n byz servers s' r := by
  unfold Logged
  rw [hlog, hid]
  exact h

theorem logged_alloc (h : ∀ r < s.next, Logged n byz servers s r) {id : EntryID} {ent : Entry} (hent : ent.id = id) :
    ∀ r < (s.alloc id ent).next, Logged n byz servers (s.alloc id ent) r := by
  intro r hr
  unfold Logged
  rcases Nat.lt_succ_iff_lt_or_eq.mp hr with hlt | rfl
  · have hheap : (s.alloc id ent).heap r = s.heap r := Function.update_of_ne hlt.ne _ _
    have hlookup : (s.alloc id ent).log.lookup (s.heap r).id =
        if (s.heap r).id = id then some s.next else s.log.lookup (s.heap r).id := RangeMap.lookup_insert_eq ..
    rw [hheap, hlookup]
    refine (h r hlt).imp (fun hsome => ?_) fun hseq => hseq
    split
    · rfl
    · exact hsome
  · have hid : ((s.alloc id ent).heap s.next).id = id := by simp [hent]
    have hlookup : (s.alloc id ent).log.lookup id = some s.next := AList.lookup_insert _
    rw [hid, hlookup]
    exact .inl rfl

/-- Entries are dropped before a number that the server has reached. -/
theorem logged_filter {seq : ℤ} (h : ∀ r < s.next, Logged n byz servers s r) (hlog : s'.log = removeOldLog seq s.log)
    (hheap : s'.heap = s.heap) (hnext : s'.next = s.next) (hseq : Reaches n byz servers seq) :
    ∀ r < s'.next, Logged n byz servers s' r := by
  intro r hr
  unfold Logged
  rw [hheap, hlog]
  rw [hnext] at hr
  rcases h r hr with hsome | ⟨seq', hlt, hs⟩
  · by_cases hlt : (s.heap r).id.n < seq
    · exact .inr ⟨seq, hlt, hseq⟩
    · refine .inl ?_
      obtain ⟨r', hr'⟩ := Option.isSome_iff_exists.mp hsome
      rw [removeOldLog, RangeMap.lookup_filter, hr']
      simpa [Option.filter] using hlt
  · exact .inr ⟨seq', hlt, hs⟩

end Lemmas

namespace Voting

variable {env : Env A} {K : Server A → Msg → Prop} {n : ℕ} {byz : Finset ℤ} {servers : ℤ → Server A} {i start : ℤ}
  {s s' : Server A}

theorem ballot_mono {apply apply' key : ℤ} {cp : CheckPoint} (h : Ballot n byz servers i apply key cp)
    (hle : apply ≤ apply') : Ballot n byz servers i apply' key cp :=
  ⟨h.seq, h.votes, h.once, fun vote hvote hown => (h.own vote hvote hown).trans hle, h.stable⟩

/-- At most one event happens, for which there is a reason, and the checkpoints and bounds stay. -/
theorem frame (h : Voting n byz servers start i s) (ht : s.trace <:+ s'.trace) (hf : s'.f = s.f) (hcps : s'.cps = s.cps)
    (happly : s'.apply = s.apply) (hh : s'.h = s.h) (hvcs : s'.vcs = s.vcs)
    (he : s'.trace = s.trace ∨ ∃ e, s'.trace = e :: s.trace ∧ e.Backed n byz servers i s')
    (hlog : ∀ r < s'.next, Logged n byz servers s' r) : Voting n byz servers start i s' where
  ballots key cp hcp := by
    rw [happly]
    exact h.ballots key cp (hcps ▸ hcp)
  events e hmem := by
    rcases he with he | ⟨e', he, hback⟩ <;> rw [he] at hmem
    · exact (h.events e hmem).mono ht hf
    · rcases List.mem_cons.mp hmem with rfl | hmem
      · exact hback
      · exact (h.events e hmem).mono ht hf
  apply := by
    rw [happly]
    exact h.apply.imp_right (Or.imp_left (executed_mono ht))
  h := hh ▸ h.h
  log := hlog
  vcs := hvcs ▸ h.vcs

/-- Entries change, but not where they belong. -/
theorem logged_update (h : Voting n byz servers start i s) (hlog : s'.log = s.log)
    (hnext : s'.next = s.next) {r : ℕ} {ent : Entry} (hheap : s'.heap = Function.update s.heap r ent)
    (hid : ent.id = (s.heap r).id) : ∀ r < s'.next, Logged n byz servers s' r := by
  intro r' hr
  rw [hnext] at hr
  refine (h.log r' hr).frame hlog ?_
  rw [hheap]
  by_cases e : r' = r
  · subst e
    rw [Function.update_self, hid]
  · rw [Function.update_of_ne e]

theorem logged_same (h : Voting n byz servers start i s) (hlog : s'.log = s.log)
    (hnext : s'.next = s.next) (hheap : s'.heap = s.heap) : ∀ r < s'.next, Logged n byz servers s' r := by
  intro r hr
  rw [hnext] at hr
  exact (h.log r hr).frame hlog (by rw [hheap])

/-- The checkpoint under `key` changes. -/
theorem setCheckPoint (h : Voting n byz servers start i s) {key : ℤ} {cp : CheckPoint}
    (hcp : Ballot n byz servers i s.apply key cp) : Voting n byz servers start i (s.setCheckPoint key cp) where
  ballots key' cp' hcp' := by
    simp only [Server.setCheckPoint, RangeMap.lookup_insert_eq] at hcp'
    split at hcp'
    · next heq =>
      obtain rfl := Option.some.inj hcp'
      exact heq ▸ hcp
    · exact h.ballots key' cp' hcp'
  events := h.events
  apply := h.apply
  h := h.h
  log := h.log
  vcs := h.vcs

theorem ballot_empty {apply key : ℤ} {cp : CheckPoint} (hseq : cp.seq = key) (hproof : cp.proof = [])
    (hstable : cp.stable = true → Reaches n byz servers key) : Ballot n byz servers i apply key cp where
  seq := hseq
  votes vote hvote := by simp [hproof] at hvote
  once := by simp [hproof]
  own vote hvote := by simp [hproof] at hvote
  stable := hstable

theorem ballot_slot (h : Voting n byz servers start i s) (key : ℤ) :
    Ballot n byz servers i s.apply key (s.slot key) := by
  unfold slot
  cases hcp : s.cps.lookup key with
  | none => exact ballot_empty rfl rfl fun hstable => nomatch hstable
  | some cp => exact h.ballots key cp hcp

/-- One more vote, of a sender who has not voted yet. -/
theorem ballot_vote {apply key : ℤ} {cp : CheckPoint} {vote : CheckPointArgs} (h : Ballot n byz servers i apply key cp)
    (hseq : vote.seq = key) (hcast : Cast n byz servers vote) (hfresh : ∀ v ∈ cp.proof, v.rid ≠ vote.rid)
    (hown : vote.rid = i → key ≤ apply) : Ballot n byz servers i apply key { cp with proof := cp.proof ++ [vote] } where
  seq := h.seq
  votes v hv := by
    rcases List.mem_append.mp hv with hv | hv
    · exact h.votes v hv
    · obtain rfl := List.mem_singleton.mp hv
      exact ⟨hseq, hcast⟩
  once := by
    rw [List.map_append, List.nodup_append]
    refine ⟨h.once, List.nodup_singleton _, ?_⟩
    rintro a ha b hb rfl
    obtain ⟨v, hv, hrid⟩ := List.mem_map.mp ha
    rw [List.map_singleton, List.mem_singleton] at hb
    exact hfresh v hv (hrid.trans hb)
  own v hv hrid := by
    rcases List.mem_append.mp hv with hv | hv
    · exact h.own v hv hrid
    · exact hown (List.mem_singleton.mp hv ▸ hrid)
  stable := h.stable

theorem runTask (h : Voting n byz servers start i s) (hs : s.WF) {queue : PriorityQueue PendingTask}
    {m : PQElem PendingTask} {pp : PrePrepareArgs} {as : A} (hq : s.applyQueue.extractMin = (queue, some m))
    (hturn : s.apply + 1 = m.pri) :
    (s.runTask queue m pp as).Executed m.pri ∧ Voting n byz servers start i (s.runTask queue m pp as) := by
  have hpri : m.pri = m.c.seq := (hs.tasks m (by
    rw [PriorityQueue.content_of_extractMin hq]
    exact List.mem_cons_self ..)).2.1
  have ht : s.trace <:+ (s.runTask queue m pp as).trace := List.suffix_cons _ _
  have hexec : (s.runTask queue m pp as).Executed m.pri :=
    ⟨_, List.mem_cons_self .., by rw [hpri]; rfl⟩
  refine ⟨hexec, ?_, ?_, ?_, h.h, ?_, h.vcs⟩
  · intro key cp hcp
    exact ballot_mono (h.ballots key cp hcp) (le_of_lt (lt_add_one s.apply))
  · intro e he
    rcases List.mem_cons.mp he with rfl | he
    · trivial
    · exact (h.events e he).mono ht rfl
  · have happly : (s.runTask queue m pp as).apply = m.pri := hturn
    rw [happly]
    exact .inr (.inl hexec)
  · exact h.logged_update rfl rfl rfl rfl

theorem castVote (h : Voting n byz servers start i s) {key : ℤ} {digest digest' : String} (hid : s.id = i)
    (hcorrect : Correct n byz i) (hat : servers i = s.castVote key digest digest') (hexec : s.Executed key)
    (happly : key ≤ s.apply) (hno : ∀ vote ∈ (s.slot key).proof, vote.rid ≠ i) :
    Voting n byz servers start i (s.castVote key digest digest') := by
  have ht : s.trace <:+ (s.castVote key digest digest').trace := List.suffix_cons _ _
  let vote : CheckPointArgs := { seq := key, digest := digest, rid := s.id, view := s.view }
  have hcast : Cast n byz servers vote := by
    refine .inr ⟨by simp only [vote, hid]; exact hcorrect, ?_⟩
    simp only [vote, hid, hat]
    rw [← hid]
    exact List.mem_cons_self ..
  have hballot : Ballot n byz servers i s.apply key { s.slot key with proof := (s.slot key).proof ++ [vote] } :=
    ballot_vote (h.ballot_slot key) rfl hcast (by simp only [vote, hid]; exact hno) fun _ => happly
  have hset : Voting n byz servers start i (s.setCheckPoint key
      { s.slot key with seq := key, stable := false, digest := digest', proof := (s.slot key).proof ++ [vote] }) :=
    h.setCheckPoint ⟨rfl, hballot.votes, hballot.once, hballot.own, fun hstable => nomatch hstable⟩
  refine ⟨hset.ballots, ?_, ?_, h.h, h.logged_same rfl rfl rfl, h.vcs⟩
  · intro e he
    rcases List.mem_cons.mp he with rfl | he
    · exact ⟨hid, executed_mono ht hexec⟩
    · exact (hset.events e he).mono ht rfl
  · exact h.apply.imp_right (Or.imp_left (executed_mono ht))

theorem settle (h : Voting n byz servers start i s) {key : ℤ} {cp : CheckPoint} {proof : CheckPointArgs}
    (hcp : Ballot n byz servers i s.apply key cp) (hproof : proof.seq = key) (hreach : Reaches n byz servers key) :
    Voting n byz servers start i (s.settle key cp proof) := by
  have hle : s.apply ≤ (s.settle key cp proof).apply := by
    simp only [Server.settle]
    split_ifs with hlt
    · rw [hcp.seq, ← hproof]
      exact hlt.le
    · exact le_rfl
  refine ⟨?_, h.events, ?_, ?_, ?_, h.vcs⟩
  · intro key' cp' hcp'
    obtain ⟨hcp', -⟩ := RangeMap.lookup_of_lookup_filter hcp'
    rw [RangeMap.lookup_insert_eq] at hcp'
    split at hcp'
    · next heq =>
      obtain rfl := Option.some.inj hcp'
      subst heq
      exact ⟨hcp.seq, hcp.votes, hcp.once, fun vote hvote hown => (hcp.own vote hvote hown).trans hle, fun _ => hreach⟩
    · exact ballot_mono (h.ballots key' cp' hcp') hle
  · simp only [Server.settle]
    split_ifs with hlt
    · rw [hcp.seq]
      exact .inr (.inr hreach)
    · exact h.apply
  · refine .inr ?_
    simp only [Server.settle, hcp.seq]
    exact hreach
  · exact logged_filter h.log rfl rfl rfl (by rw [hcp.seq]; exact hreach)

/-- One more event, for which there is a reason. -/
theorem note (h : Voting n byz servers start i s) (e : Event) (he : e.Backed n byz servers i (s.note e)) :
    Voting n byz servers start i (s.note e) := by
  have ht : s.trace <:+ (s.note e).trace := List.suffix_cons _ _
  refine ⟨h.ballots, fun e' he' => ?_, h.apply.imp_right (Or.imp_left (executed_mono ht)), h.h,
    h.logged_same rfl rfl rfl, h.vcs⟩
  rcases List.mem_cons.mp he' with rfl | he'
  · exact he
  · exact (h.events e' he').mono ht rfl

theorem noteStable (h : Voting n byz servers start i s) {key : ℤ} {cp : CheckPoint} {proof : CheckPointArgs}
    (hcp : Ballot n byz servers i s.apply key cp) (hq : quorumVote s.f [] cp.proof = some proof) :
    Voting n byz servers start i (s.note (.stable proof cp.proof)) := h.note _ (hcp.quorum hq).2

theorem resumeIn (h : Voting n byz servers start i s) {proof : CheckPointArgs} {votes : List CheckPointArgs}
    (he : .stable proof votes ∈ s.trace) : Voting n byz servers start i (s.resumeIn proof.view) := by
  have hnote := h.note (.adoptView proof.view) ⟨proof, votes, List.mem_cons_of_mem _ he, rfl⟩
  exact ⟨hnote.ballots, hnote.events, hnote.apply, hnote.h, hnote.log, hnote.vcs⟩

/-- A view that the server may go into starts after a number that was reached. -/
theorem reaches_of_mayEnter (h : Voting n byz servers start i s) (hid : s.id = i) (hn : s.replicas.length = n)
    (hnv : ∀ nv, K s (.newView nv) → s.backed nv = true → ∀ mins ∈ minsOf nv.v, Reaches n byz servers mins)
    {nv : NewViewArgs} {mins maxs : ℤ} {pps : List PrePrepareArgs} (henter : MayEnter K s nv mins maxs pps) :
    Reaches n byz servers mins := by
  obtain ⟨hlt, hcalc, ⟨hleader, -, hlookup, -⟩ | ⟨hk, hcount⟩⟩ := henter
  · rw [hn, hid] at hleader
    exact reaches_minsOf (h.vcs _ _ hleader hlookup) (mem_minsOf hcalc)
  · exact hnv nv hk (decide_eq_true ⟨hlt, hcount⟩) mins (mem_minsOf hcalc)

/-- A view change claims the stable checkpoint. -/
theorem reaches_of_generate (h : Voting n byz servers start i s) {orders : Orders} {cp : CheckPoint}
    (hcp : s.getStableCheckPoint orders.cps = some cp) :
    ∀ c ∈ (s.generateViewChange orders.log cp).cp, Reaches n byz servers c.seq := by
  rintro c hc
  obtain rfl := Option.some.inj hc
  obtain ⟨⟨key, cp⟩, hmem, rfl⟩ := List.mem_map.mp (List.mem_of_find?_eq_some hcp)
  have hb := h.ballots key cp (RangeMap.mem_range.mp hmem)
  change Reaches n byz servers cp.seq
  rw [hb.seq]
  exact hb.stable (getStableCheckPoint_stable hcp)

/-- A view change more, which claims a checkpoint that was reached. -/
theorem storeViewChange (h : Voting n byz servers start i s) {vc : ViewChangeArgs}
    (hvc : vc.view.tmod n = i → ∀ cp ∈ vc.cp, Reaches n byz servers cp.seq) :
    Voting n byz servers start i
      { s with vcs := s.vcs.insert vc.view ((s.vcs.lookup vc.view).getD [] ++ [vc]) } := by
  refine ⟨h.ballots, h.events, h.apply, h.h, h.logged_same rfl rfl rfl, fun view l hl hlookup vc' hmem => ?_⟩
  rw [RangeMap.lookup_insert_eq] at hlookup
  split at hlookup
  · next heq =>
    subst heq
    obtain rfl := Option.some.inj hlookup
    rcases List.mem_append.mp hmem with hmem | hmem
    · cases hold : s.vcs.lookup vc.view with
      | none => simp [hold] at hmem
      | some l => exact h.vcs _ l hl hold vc' (by simpa [hold] using hmem)
    · obtain rfl := List.mem_singleton.mp hmem
      exact hvc hl
  · exact h.vcs view l hl hlookup vc' hmem

/-- The server goes into a view that starts after a number that was reached. -/
theorem startView (h : Voting n byz servers start i s) {view mins maxs : ℤ} {v : List ViewChangeArgs}
    {ps : List PrepareArgs} (hmins : Reaches n byz servers mins) :
    Voting n byz servers start i (s.startView view mins maxs v ps) := by
  have hnote := h.note (.enterView view v) trivial
  refine ⟨hnote.ballots, hnote.events, hnote.apply, hnote.h, logged_filter h.log rfl rfl rfl hmins, ?_⟩
  intro view' l hl hlookup
  exact h.vcs view' l hl (RangeMap.lookup_of_lookup_filter hlookup).1

/-- No move of a correct server destroys what it says, if it counts nobody twice and takes no checkpoint over that
was not reached. -/
theorem move (h : Voting n byz servers start i s) (hs : s.WF) (hid : s.id = i) (hn : s.replicas.length = n)
    (hcorrect : Correct n byz i) (hat : servers i = s')
    (hvote : ∀ vote, K s (.checkPoint vote) → vote.rid ≠ i ∧ Cast n byz servers vote ∧
      (vote.seq.tmod checkpointDiv = 0 → (s.slot vote.seq).stable = false →
        ∀ v ∈ (s.slot vote.seq).proof, v.rid ≠ vote.rid))
    (hvc : ∀ vc, K s (.viewChange vc) → s.view < vc.view → vc.view.tmod n = i →
      ∀ cp ∈ vc.cp, Reaches n byz servers cp.seq)
    (hnv : ∀ nv, K s (.newView nv) → s.backed nv = true → ∀ mins ∈ minsOf nv.v, Reaches n byz servers mins)
    (hm : Move env K s s') : Voting n byz servers start i s' := by
  have ht := hm.trace_suffix
  have hreach : ∀ {proof votes}, .stable proof votes ∈ s'.trace → Reaches n byz servers proof.seq :=
    fun {proof votes} he => .inl ⟨i, hcorrect, proof, votes, hat ▸ he, rfl⟩
  cases hm with
  | newEntry m hnew => exact h.frame ht rfl rfl rfl rfl rfl (.inl rfl) (logged_alloc h.log rfl)
  | accept r pp hk hc hw hr ha =>
    exact h.frame ht rfl rfl rfl rfl rfl (.inr ⟨_, rfl, trivial⟩) (h.logged_update rfl rfl rfl rfl)
  | sendCommit r pp as hc hw hr hpp hs hp has =>
    exact h.frame ht rfl rfl rfl rfl rfl (.inr ⟨_, rfl, trivial⟩) (h.logged_update rfl rfl rfl rfl)
  | answerTask queue m pp as cp key hq hcp hstable hle hpp has =>
    exact h.frame ht rfl rfl rfl rfl rfl (.inr ⟨_, rfl, trivial⟩) (h.logged_update rfl rfl rfl rfl)
  | addPrepare | addCommit | enqueue =>
    exact h.frame ht rfl rfl rfl rfl rfl (.inl rfl) (h.logged_update rfl rfl rfl rfl)
  | runTask queue m pp as hq hturn hpp has => exact (h.runTask hs hq hturn).2
  | runTaskAndVote queue m pp as reply digest digest' hq hturn hpp has hreply hdiv hslot =>
    obtain ⟨hexec, hrun⟩ : (s.runTask queue m pp as).Executed m.pri ∧
      Voting n byz servers start i (s.runTask queue m pp as) := h.runTask hs hq hturn
    have hsend : Voting n byz servers start i ((s.runTask queue m pp as).send (.response reply)) :=
      hrun.frame (List.suffix_cons _ _) rfl rfl rfl rfl rfl (.inr ⟨_, rfl, trivial⟩) (hrun.logged_same rfl rfl rfl)
    refine hsend.castVote hid hcorrect hat (executed_mono (List.suffix_cons _ _) hexec) hturn.ge ?_
    -- the number was not executed yet, so the own vote is not there either
    intro vote hvote hown
    have hle := (h.ballot_slot m.pri).own vote hvote hown
    omega
  | touch m digest hdiv hslot =>
    have hb := h.ballot_slot m
    exact h.setCheckPoint ⟨hb.seq, hb.votes, hb.once, hb.own, hb.stable⟩
  | vote cp args hk hdiv hcp hstable =>
    obtain ⟨hne, hcast, hfresh⟩ := hvote args hk
    have hslot : s.slot args.seq = cp := by simp [slot, hcp]
    rw [hslot] at hfresh
    exact h.setCheckPoint (ballot_vote (h.ballots _ cp hcp) rfl hcast (hfresh hdiv hstable) fun hown => absurd hown hne)
  | stabilize m cp proof hdiv hcp hstable hq hv =>
    have hb := h.ballots m cp hcp
    have hseq := (hb.quorum hq).1
    exact (h.noteStable hb hq).settle hb hseq (hseq ▸ hreach (List.mem_cons_self ..))
  | stabilizeAndResume m cp proof hdiv hcp hstable hq hv =>
    have hb := h.ballots m cp hcp
    have hseq := (hb.quorum hq).1
    have hresume : Voting n byz servers start i ((s.note (.stable proof cp.proof)).resumeIn proof.view) :=
      (h.noteStable hb hq).resumeIn (List.mem_cons_self ..)
    exact hresume.settle hb hseq (hseq ▸ hreach (List.mem_cons_of_mem _ (List.mem_cons_self ..)))
  | catchUp nv scp cp2 mins maxs pps order henter hscp hlt hseq hcp2 =>
    have hmins := h.reaches_of_mayEnter hid hn hnv henter
    exact h.settle (ballot_empty rfl rfl fun _ => hmins) rfl hmins
  | enterView nv mins maxs pps henter => exact h.startView (h.reaches_of_mayEnter hid hn hnv henter)
  | takeOne v mins maxs pps pp henter hnv hpp hview hnew =>
    exact h.frame ht rfl rfl rfl rfl rfl (.inl rfl) (logged_alloc (s := { s with seqmap := _ }) h.log rfl)
  | sendViewChange orders cp hc hcp =>
    exact h.frame ht rfl rfl rfl rfl rfl (.inr ⟨_, rfl, h.reaches_of_generate hcp⟩) (h.logged_same rfl rfl rfl)
  | storeViewChange vc hk hlt => exact h.storeViewChange (hvc vc hk hlt)
  | sendNewView nv mins maxs hv hl hlen hvcs hcalc =>
    rw [hn, hid] at hl
    have hback : ∀ mins ∈ minsOf nv.v, Reaches n byz servers mins := fun _ => reaches_minsOf (h.vcs _ _ hl hvcs)
    exact h.frame ht rfl rfl rfl rfl rfl (.inr ⟨_, rfl, hback⟩) (h.logged_same rfl rfl rfl)
  | relay | respond | propose | repropose | sendBackground =>
    exact h.frame ht rfl rfl rfl rfl rfl (.inr ⟨_, rfl, trivial⟩) (h.logged_same rfl rfl rfl)
  | idle | service | settled | startChange =>
    exact h.frame ht rfl rfl rfl rfl rfl (.inl rfl) (h.logged_same rfl rfl rfl)

theorem new (env : Env A) (f : ℕ) (initSeq : ℤ) (nodes : List ℤ) (as : A) :
    Voting n byz servers initSeq i (Server.new env i f initSeq nodes as) where
  ballots key cp hcp := by
    have hcps : (Server.new env i f initSeq nodes as).cps.lookup key =
        if key = -1 then some { seq := -1, stable := true, digest := (invalidState env).digest } else none :=
      RangeMap.lookup_insert_eq ∅ (-1) key _
    rw [hcps] at hcp
    split at hcp
    · next heq =>
      obtain rfl := Option.some.inj hcp
      exact ballot_empty heq.symm rfl fun _ => .inr (.inl heq)
    · nomatch hcp
  events e he := nomatch he
  apply := .inl rfl
  h := .inl rfl
  log r hr := absurd hr (Nat.not_lt_zero r)
  vcs view l _ hlookup := by simp [Server.new] at hlookup

end Voting

section Runs

variable {env : Env A} {n f : ℕ} {byz : Finset ℤ} {servers : ℤ → Server A} {i : ℤ} {s' : Server A} {initSeq : ℤ → ℕ}
  {as : ℤ → A}

/-- A vote that a server counts is that of another replica, which has not voted before. -/
theorem vote_of_takes (hi : Correct n byz i) (h : ∀ j, Correct n byz j → Voting n byz servers (initSeq j) j (servers j))
    {vote : CheckPointArgs} (ht : Takes n byz servers (Grounded n byz) i (.checkPoint vote)) :
    vote.rid ≠ i ∧ Cast n byz servers vote ∧ Grounded n byz servers i (.checkPoint vote) := by
  rcases ht with ⟨hown, -⟩ | ⟨⟨j, hj, hs, hself⟩ | ⟨j, hj, hcheck⟩ | hreq, hfresh⟩
  · nomatch hown
  · have hrid : vote.rid = j := ((h j hj).events _ hs).1
    refine ⟨fun heq => ?_, .inr ?_, hfresh⟩
    · nomatch hself (hrid.symm.trans heq)
    · rw [hrid]
      exact ⟨hj, hs⟩
  · have hrid : vote.rid = j := by simpa [Msg.checkMessageSender] using hcheck
    exact ⟨fun heq => hi.2 (heq ▸ hrid ▸ hj), .inl (hrid ▸ hj), hfresh⟩
  · nomatch hreq

/-- A message is forged, or a correct server has sent it and had a reason. -/
theorem forged_or_backed (h : ∀ j, Correct n byz j → Voting n byz servers (initSeq j) j (servers j)) (msg : Msg) :
    Forged n byz servers msg ∨ ∃ j, Correct n byz j ∧ (Event.send msg).Backed n byz servers j (servers j) := by
  by_cases hsent : ∃ j, Correct n byz j ∧ (servers j).Sent msg
  · obtain ⟨j, hj, hs⟩ := hsent
    exact .inr ⟨j, hj, (h j hj).events _ hs⟩
  · exact .inl fun j hj hno hs => hsent ⟨j, ⟨hj, hno⟩, hs⟩

theorem viewChange_of_takes (hi : Correct n byz i)
    (h : ∀ j, Correct n byz j → Voting n byz servers (initSeq j) j (servers j)) {vc : ViewChangeArgs}
    (ht : Takes n byz servers (Grounded n byz) i (.viewChange vc)) (hlt : (servers i).view < vc.view)
    (hl : vc.view.tmod n = i) : ∀ cp ∈ vc.cp, Reaches n byz servers cp.seq := by
  intro cp hcp
  rcases ht with ⟨-, hs⟩ | ⟨-, hgrounded⟩
  · exact (h i hi).events _ hs cp hcp
  · rcases forged_or_backed h (.viewChange vc) with hforged | ⟨j, hj, hback⟩
    · exact .inr (hgrounded hforged hlt hl cp hcp)
    · exact hback cp hcp

theorem newView_of_takes (h : ∀ j, Correct n byz j → Voting n byz servers (initSeq j) j (servers j)) {nv : NewViewArgs}
    (ht : Takes n byz servers (Grounded n byz) i (.newView nv)) (hbacked : (servers i).backed nv = true) :
    ∀ mins ∈ minsOf nv.v, Reaches n byz servers mins := by
  intro mins hmins
  rcases ht with ⟨hown, -⟩ | ⟨-, hgrounded⟩
  · nomatch hown
  · rcases forged_or_backed h (.newView nv) with hforged | ⟨j, hj, hback⟩
    · exact .inr (hgrounded hforged hbacked mins hmins)
    · exact hback mins hmins

theorem voting_update (h : ∀ j, Correct n byz j → Voting n byz servers (initSeq j) j (servers j)) (hi : Correct n byz i)
    (hconf : Configured n f i (servers i))
    (hm : Move env (fun _ => Takes n byz servers (Grounded n byz) i) (servers i) s') :
    ∀ j, Correct n byz j →
      Voting n byz (Function.update servers i s') (initSeq j) j (Function.update servers i s' j) := by
  intro j hj
  have ht := hm.trace_suffix
  have hold : Voting n byz (Function.update servers i s') (initSeq j) j (servers j) := (h j hj).update ht
  by_cases e : j = i
  · subst e
    have hn : (servers j).replicas.length = n := by simp [hconf.replicas, ids]
    rw [Function.update_self]
    refine hold.move hconf.wf hconf.id hn hj (Function.update_self ..) (fun vote hk => ?_)
      (fun vc hk hlt hl cp hcp => ?_)
      (fun nv hk hbacked mins hmins => ?_) hm
    · obtain ⟨hne, hcast, hfresh⟩ := vote_of_takes hj h hk
      exact ⟨hne, hcast.update ht, hfresh⟩
    · exact (viewChange_of_takes hj h hk hlt hl cp hcp).update ht
    · exact (newView_of_takes h hk hbacked mins hmins).update ht
  · rwa [Function.update_of_ne e]

/-- There is nothing before the number, or a correct server has executed it. -/
def Earned (n : ℕ) (byz : Finset ℤ) (servers : ℤ → Server A) (seq : ℤ) : Prop :=
  seq = -1 ∨ ∃ j, Correct n byz j ∧ (servers j).Executed seq

/-- With at most `f` malicious notaries, if no replica is counted twice for a checkpoint and no forged message
starts a view after a number that nobody has executed, every checkpoint that a correct server makes stable has
votes of `2f + 1` replicas for its digest and of `2f + 1` replicas for its view behind it, and was executed by a
correct server. Views are adopted with such a checkpoint only, and the server has come to its bounds, and has
dropped entries, at numbers that a correct server has executed. -/
theorem stable_on_quorum (ext : A → A → Prop) {w : World A} (hbyz : byz.card ≤ f)
    (h : World.Reached env byz n f initSeq as (fun w _ a => a.Meets (Grounded n byz) w.servers) ext w)
    (hi : Correct n byz i) :
    (∀ proof votes, .stable proof votes ∈ (w.servers i).trace →
      Quorum n byz w.servers f proof votes ∧ ∃ j, Correct n byz j ∧ (w.servers j).Executed proof.seq) ∧
    (∀ view, .adoptView view ∈ (w.servers i).trace →
      ∃ proof votes, .stable proof votes ∈ (w.servers i).trace ∧ proof.view = view) ∧
    ((w.servers i).apply = initSeq i - 1 ∨ Earned n byz w.servers (w.servers i).apply) ∧
    ((w.servers i).h = initSeq i ∨ Earned n byz w.servers (w.servers i).h) ∧
    ∀ r < (w.servers i).next, ((w.servers i).log.lookup ((w.servers i).heap r).id).isSome = true ∨
      ∃ seq, ((w.servers i).heap r).id.n < seq ∧ Earned n byz w.servers seq := by
  obtain ⟨hconf, hinv⟩ := World.Reached.invariant_of_moves
    (fun servers => ∀ j, Correct n byz j → Voting n byz servers (initSeq j) j (servers j)) Grounded.lasting
    (fun _ _ _ hok => hok) (fun j _ => Voting.new ..) (fun _ _ _ hi hs hinv hm => voting_update hinv hi hs hm)
    (fun servers k as hinv _ j hj => by
      have ht : (servers k).trace <:+ ({ servers k with as := as } : Server A).trace := List.suffix_rfl
      have hold := (hinv j hj).update ht
      by_cases e : j = k
      · subst e
        rw [Function.update_self]
        exact hold.frame List.suffix_rfl rfl rfl rfl rfl rfl (.inl rfl) (hold.logged_same rfl rfl rfl)
      · rwa [Function.update_of_ne e]) h
  have hexec : ∀ j, Correct n byz j → ∀ proof votes, .stable proof votes ∈ (w.servers j).trace →
      Quorum n byz w.servers f proof votes ∧ ∃ k, Correct n byz k ∧ (w.servers k).Executed proof.seq := by
    intro j hj proof votes he
    have hq : Quorum n byz w.servers (w.servers j).f proof votes := (hinv j hj).events _ he
    rw [(hconf j).f] at hq
    exact ⟨hq, hq.executed hbyz fun k hk vote hs => ((hinv k hk).events _ hs).2⟩
  have hearned : ∀ seq, Reaches n byz w.servers seq → Earned n byz w.servers seq := by
    rintro seq (⟨j, hj, proof, votes, he, rfl⟩ | hstart | ⟨j, hj, hno, hs⟩)
    · exact .inr (hexec j hj proof votes he).2
    · exact .inl hstart
    · exact .inr ⟨j, ⟨hj, hno⟩, hs⟩
  refine ⟨hexec i hi, fun view he => (hinv i hi).events _ he, ?_, (hinv i hi).h.imp_right (hearned _), ?_⟩
  · exact (hinv i hi).apply.imp_right fun happly => happly.elim (fun he => .inr ⟨i, hi, he⟩) (hearned _)
  · exact fun r hr => ((hinv i hi).log r hr).imp_right fun ⟨seq, hlt, hs⟩ => ⟨seq, hlt, hearned seq hs⟩

end Runs

/-- A vote of notary 3 for checkpoint 0 in a view that nobody is in. -/
def forgedVote : CheckPointArgs := { seq := 0, digest := "x", rid := 3, view := 7 }

/-- The new view of notary 3 with view changes that nobody has sent, after a checkpoint that nobody has voted for. -/
def forgedNewView : NewViewArgs where
  view := 3
  v := [0, 1, 2].map fun i =>
    { view := 3, cp := some { seq := 5000, digest := "x", rid := i, view := 0 }, p := [], rid := i }
  o := []

/-- One malicious notary of four makes a checkpoint stable that no correct server has executed, by saying the same
three times, or has it taken over with a new view without any vote. -/
theorem stable_on_one_sender :
    ((((World.new Env.plain 4 1 (fun _ => 0) fun _ => ()).play Env.plain {3}
      (List.replicate 3 ⟨.forger 3, 0, .message (.checkPoint forgedVote)⟩)).map fun w =>
        decide (.stable forgedVote [forgedVote, forgedVote, forgedVote] ∈ (w.servers 0).trace ∧
          (w.servers 0).view = 7 ∧ (w.servers 0).apply = 0 ∧
          ∀ j ∈ ids 3, ¬ (w.servers j).Executed 0)) = some true ∧
      (senders (fun vote => vote.digest = "x") [forgedVote, forgedVote, forgedVote]).card < 2 * 1 + 1) ∧
    ((World.new Env.plain 4 1 (fun _ => 0) fun _ => ()).play Env.plain {3}
      [⟨.forger 3, 0, .message (.newView forgedNewView)⟩]).map (fun w =>
        decide ((w.servers 0).view = 3 ∧ (w.servers 0).apply = 5000 ∧ (w.servers 0).h = 5000 ∧
          ∀ j ∈ ids 3, ¬ (w.servers j).Executed 5000)) = some true := by
  refine ⟨⟨?_, ?_⟩, ?_⟩ <;> decide +kernel

/-- The vote of a server that has executed `a` as number 0. -/
def voteAfterA (rid : ℤ) : CheckPointArgs := { seq := 0, digest := "#a", rid := rid, view := 0 }

/-- Servers 0, 1 and 2 of four execute `a`, and server 0 gets the votes of the other two. -/
def voteForFirst : List Action :=
  let pairs : List (ℤ × ℤ) := [(0, 1), (0, 2), (1, 0), (1, 2), (2, 0), (2, 1)]
  .ask 0 "a" :: [1, 2].map (.deliver 0 · (.prePrepare (plainPP 0 0 "a"))) ++
    pairs.map (fun ij => .deliver ij.1 ij.2 (.prepare (plainPrepare 0 0 "a" ij.1))) ++
    pairs.map (fun ij => .deliver ij.1 ij.2 (.commit (plainCommit 0 0 "a" ij.1))) ++
    [1, 2].map fun i => .deliver i 0 (.checkPoint (voteAfterA i))

theorem stable_on_quorum_three :
    ∃ w : World Unit, .stable (voteAfterA 2) ([0, 1, 2].map voteAfterA) ∈ (w.servers 0).trace ∧
      Quorum 4 {3} w.servers 1 (voteAfterA 2) ([0, 1, 2].map voteAfterA) := by
  have hrun : ((World.new Env.plain 4 1 (fun _ => 0) fun _ => ()).plays Env.plain {3}
      (fun w _ a => a.Meets (Grounded 4 {3}) w.servers) voteForFirst).map (fun w =>
        decide (.stable (voteAfterA 2) ([0, 1, 2].map voteAfterA) ∈ (w.servers 0).trace)) = some true := by
    decide +kernel
  obtain ⟨w, hw, hmem⟩ := Option.map_eq_some_iff.mp hrun
  have hmem := of_decide_eq_true hmem
  have hi : Correct 4 {3} 0 := ⟨by decide, by decide⟩
  exact ⟨w, hmem, ((stable_on_quorum Eq (by decide) (World.reached_plays (.init rfl) hw) hi).1 _ _ hmem).1⟩

end DistributedNotary.Pbft
