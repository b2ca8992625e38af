import DistributedNotary.Pbft.Answers

/-! The bookkeeping of a client. A request that is pending is in the log and in
one of two queues. An operation that is started twice is reported as failed, and
the report deletes the entry of the request that is pending, whose responses
then find nothing. A request that still waits in the backup queue makes the
client panic when it is answered, since it is looked for among those that were
sent out. -/
namespace DistributedNotary.Pbft

open Library

namespace Client

/-- The requests in the log are those that are queued, each once, and there is a bound on those that are sent out. -/
structure Booked (c : Client) : Prop where
  keys : ∀ op, (c.log.lookup op).isSome ↔ op ∈ c.reqQueue.q ++ c.backupQueue.q
  once : (c.reqQueue.q ++ c.backupQueue.q).Nodup
  bound : c.reqQueue.length ≤ outstanding + 1

/-- The response makes more than `f` replicas agree on the number of its operation, which is pending. -/
def Finishes (c : Client) (args : ResponseArgs) : Prop :=
  ∃ r ∈ c.log.lookup args.res, c.f < (responders ((c.heap r).res ++ [args]) fun a => a.seq = args.seq).card

instance instDecidableFinishes (c : Client) (args : ResponseArgs) : Decidable (c.Finishes args) :=
  inferInstanceAs (Decidable (∃ r ∈ c.log.lookup args.res, _))

/-- No operation is started while it is pending, and none is completed before it was sent out. -/
def Orderly (c : Client) : ClientInput → Prop
  | .start cmd _ _ => c.log.lookup cmd = none
  | .response args => args.res ∈ c.backupQueue.q → ¬ c.Finishes args
  | _ => True

/-- An entry is that of a request for its operation which is not complete yet. -/
structure Pending (c : Client) (op : String) (r : ℕ) : Prop where
  ref : r < c.next
  apply : (c.heap r).apply = false
  req : ∃ req, (c.heap r).req = some req ∧ req.op = op
  res : ∀ a ∈ (c.heap r).res, a.res = op
  unfinished : reached c.f [] (c.heap r).res = false

/-- The log and the queues hang together. -/
structure Tidy (c : Client) : Prop where
  booked : c.Booked
  req : c.reqQueue.Keyed
  backup : c.backupQueue.Keyed
  backed : ∀ op r, c.backupQueue.m.lookup op = some r → c.log.lookup op = some r
  entries : ∀ op r, c.log.lookup op = some r → c.Pending op r

variable {c c' : Client} {op : String} {r : ℕ}

theorem Pending.mono (h : c.Pending op r) (hnext : c.next ≤ c'.next) (hf : c'.f = c.f)
    (happly : (c'.heap r).apply = (c.heap r).apply) (hreq : (c'.heap r).req = (c.heap r).req)
    (hres : (c'.heap r).res = (c.heap r).res) : c'.Pending op r where
  ref := h.ref.trans_le hnext
  apply := happly.trans h.apply
  req := hreq ▸ h.req
  res := hres ▸ h.res
  unfinished := by rw [hf, hres, h.unfinished]

/-- Entries are about different operations. -/
theorem Tidy.unshared (h : c.Tidy) {op' : String} (hr : c.log.lookup op = some r) (hr' : c.log.lookup op' = some r) :
    op = op' := by
  obtain ⟨req, hreq, rfl⟩ := (h.entries op r hr).req
  obtain ⟨req', hreq', rfl⟩ := (h.entries op' r hr').req
  rw [hreq] at hreq'
  rw [Option.some.inj hreq']

namespace Tidy

theorem not_mem_of_lookup (h : c.Tidy) (hop : c.log.lookup op = none) : op ∉ c.reqQueue.q ∧ op ∉ c.backupQueue.q := by
  have := (h.booked.keys op).not
  rw [hop, List.mem_append, not_or] at this
  exact this.mp Bool.false_ne_true

/-- The log and the queues stay, and what counts of the entries in the log. -/
theorem frame (h : c.Tidy) (hlog : ∀ op, c'.log.lookup op = c.log.lookup op) (hreq : c'.reqQueue = c.reqQueue)
    (hbackup : c'.backupQueue = c.backupQueue)
    (hpending : ∀ op r, c.log.lookup op = some r → c.Pending op r → c'.Pending op r) : c'.Tidy where
  booked := {
    keys op := by
      rw [hlog, hreq, hbackup]
      exact h.booked.keys op
    once := by
      rw [hreq, hbackup]
      exact h.booked.once
    bound := by
      rw [hreq]
      exact h.booked.bound }
  req := hreq ▸ h.req
  backup := hbackup ▸ h.backup
  backed op r hr := by
    rw [hbackup] at hr
    rw [hlog]
    exact h.backed op r hr
  entries op r hr := by
    rw [hlog] at hr
    exact hpending op r hr (h.entries op r hr)

theorem setEntry (h : c.Tidy) (r : ℕ) (ent : CEntry) (happly : ent.apply = (c.heap r).apply)
    (hreq : ent.req = (c.heap r).req) (hres : ent.res = (c.heap r).res) : (c.setEntry r ent).Tidy := by
  refine h.frame (fun _ => rfl) rfl rfl fun op r' _ hp => ?_
  have hentry : ((c.setEntry r ent).heap r').apply = (c.heap r').apply ∧
      ((c.setEntry r ent).heap r').req = (c.heap r').req ∧ ((c.setEntry r ent).heap r').res = (c.heap r').res := by
    unfold Client.setEntry
    by_cases e : r' = r
    · subst e
      simp [happly, hreq, hres]
    · simp [e]
  exact hp.mono le_rfl rfl hentry.1 hentry.2.1 hentry.2.2

/-- A new request is logged and put in one of the queues. -/
theorem enqueue (h : c.Tidy) (hop : c.log.lookup op = none) (hlog : c'.log = c.log.insert op r)
    (hnew : c'.Pending op r) (hpending : ∀ op r, c.log.lookup op = some r → c.Pending op r → c'.Pending op r)
    (hqueue : c.reqQueue.length ≤ outstanding ∧ c'.reqQueue = (c.reqQueue.insert op r).1 ∧
        c'.backupQueue = c.backupQueue ∨
      c'.reqQueue = c.reqQueue ∧ c'.backupQueue = (c.backupQueue.insert op r).1) : c'.Tidy := by
  obtain ⟨hreq, hbackup⟩ := h.not_mem_of_lookup hop
  have hlookup : ∀ op', c'.log.lookup op' = if op' = op then some r else c.log.lookup op' := by
    intro op'
    rw [hlog, RangeMap.lookup_insert_eq]
  have hlookup' : ∀ op' r', c.log.lookup op' = some r' → c'.log.lookup op' = some r' := by
    intro op' r' hr'
    rw [hlookup, if_neg, hr']
    rintro rfl
    exact nomatch hop.symm.trans hr'
  have hentries : ∀ op' r', c'.log.lookup op' = some r' → c'.Pending op' r' := by
    intro op' r' hr'
    rw [hlookup] at hr'
    split at hr'
    · next heq =>
      obtain rfl := Option.some.inj hr'
      exact heq ▸ hnew
    · exact hpending op' r' hr' (h.entries op' r' hr')
  have hkeys : ∀ op', (c'.log.lookup op').isSome ↔ op' = op ∨ op' ∈ c.reqQueue.q ++ c.backupQueue.q := by
    intro op'
    rw [hlookup, ← h.booked.keys op']
    split
    · next heq => simp [heq]
    · next heq => simp [heq]
  have honce : (op :: (c.reqQueue.q ++ c.backupQueue.q)).Nodup :=
    List.nodup_cons.mpr ⟨fun hmem => (List.mem_append.mp hmem).elim hreq hbackup, h.booked.once⟩
  rcases hqueue with ⟨hroom, hreq', hbackup'⟩ | ⟨hreq', hbackup'⟩
  · have hq : c'.reqQueue.q = c.reqQueue.q ++ [op] := by rw [hreq', h.req.insert_eq hreq]
    have hperm : (c'.reqQueue.q ++ c'.backupQueue.q).Perm (op :: (c.reqQueue.q ++ c.backupQueue.q)) := by
      rw [hq, hbackup', List.append_assoc]
      exact List.perm_middle
    refine ⟨⟨fun op' => ?_, hperm.nodup_iff.mpr honce, ?_⟩,
      hreq' ▸ h.req.insert hreq r, hbackup' ▸ h.backup, ?_, hentries⟩
    · rw [hkeys, hperm.mem_iff, List.mem_cons]
    · unfold StringQueue.length at hroom ⊢
      rw [hq, List.length_append, List.length_singleton]
      omega
    · intro op' r' hr'
      rw [hbackup'] at hr'
      exact hlookup' op' r' (h.backed op' r' hr')
  · have hq : c'.backupQueue.q = c.backupQueue.q ++ [op] := by rw [hbackup', h.backup.insert_eq hbackup]
    have hperm : (c'.reqQueue.q ++ c'.backupQueue.q).Perm (op :: (c.reqQueue.q ++ c.backupQueue.q)) := by
      rw [hq, hreq', ← List.append_assoc]
      exact List.perm_append_singleton _ _
    refine ⟨⟨fun op' => ?_, hperm.nodup_iff.mpr honce, ?_⟩,
      hreq' ▸ h.req, hbackup' ▸ h.backup.insert hbackup r, ?_, hentries⟩
    · rw [hkeys, hperm.mem_iff, List.mem_cons]
    · rw [hreq']
      exact h.booked.bound
    · intro op' r' hr'
      rw [hbackup', h.backup.insert_eq hbackup, RangeMap.lookup_insert_eq] at hr'
      rw [hlookup]
      split_ifs at hr' ⊢
      · exact hr'
      · exact h.backed op' r' hr'

/-- The first request of the backup queue is sent out. -/
theorem moveOne (h : c.Tidy) {rest : List String} (hq : c.backupQueue.q = op :: rest) (r : ℕ)
    (hroom : c.reqQueue.length ≤ outstanding) (retry : List ℕ) :
    ({ c with
      backupQueue := { q := c.backupQueue.q.erase op, m := c.backupQueue.m.erase op }
      reqQueue := (c.reqQueue.insert op r).1
      retry := retry } : Client).Tidy := by
  have honce := h.booked.once
  rw [hq, List.nodup_append] at honce
  have hreq : op ∉ c.reqQueue.q := fun hmem => honce.2.2 op hmem op (List.mem_cons_self ..) rfl
  have hperm : ((c.reqQueue.q ++ [op]) ++ c.backupQueue.q.erase op).Perm (c.reqQueue.q ++ c.backupQueue.q) := by
    rw [hq, List.erase_cons_head, List.append_assoc, List.singleton_append]
  have hinsert := h.req.insert_eq hreq r
  refine ⟨⟨fun op' => ?_, ?_, ?_⟩, h.req.insert hreq r, h.backup.erase op, fun op' r' hr' => ?_, fun op' r' hr' => ?_⟩
  · change (c.log.lookup op').isSome ↔ op' ∈ (c.reqQueue.insert op r).1.q ++ c.backupQueue.q.erase op
    rw [hinsert, hperm.mem_iff]
    exact h.booked.keys op'
  · change ((c.reqQueue.insert op r).1.q ++ c.backupQueue.q.erase op).Nodup
    rw [hinsert]
    exact hperm.nodup_iff.mpr h.booked.once
  · change (c.reqQueue.insert op r).1.q.length ≤ outstanding + 1
    rw [hinsert, List.length_append, List.length_singleton]
    exact Nat.succ_le_succ hroom
  · exact h.backed op' r' (Kept.lookup_erase hr')
  · exact (h.entries op' r' hr').mono le_rfl rfl rfl rfl rfl

/-- A request that was sent out leaves the queue and the log. -/
theorem finish (h : c.Tidy) (hr : c.log.lookup op = some r) (hop : op ∈ c.reqQueue.q) {heap : ℕ → CEntry}
    (hheap : ∀ r', r' ≠ r → heap r' = c.heap r') (apply : List OpResult) :
    ({ c with
      log := c.log.erase op
      heap := heap
      reqQueue := { q := c.reqQueue.q.erase op, m := c.reqQueue.m.erase op }
      apply := apply } : Client).Tidy := by
  have hbackup : op ∉ c.backupQueue.q := fun hmem => (List.nodup_append.mp h.booked.once).2.2 op hop op hmem rfl
  have herase : c.reqQueue.q.erase op ++ c.backupQueue.q = (c.reqQueue.q ++ c.backupQueue.q).erase op :=
    (List.erase_append_left _ hop).symm
  refine ⟨⟨fun op' => ?_, ?_, ?_⟩, h.req.erase op, h.backup, fun op' r' hr' => ?_, fun op' r' hr' => ?_⟩
  · change ((AList.erase op c.log).lookup op').isSome ↔ op' ∈ c.reqQueue.q.erase op ++ c.backupQueue.q
    rw [herase, h.booked.once.mem_erase_iff, ← h.booked.keys]
    by_cases heq : op' = op
    · subst heq
      simp
    · rw [AList.lookup_erase_ne heq]
      simp [heq]
  · change (c.reqQueue.q.erase op ++ c.backupQueue.q).Nodup
    rw [herase]
    exact h.booked.once.erase op
  · exact (List.length_erase_le ..).trans h.booked.bound
  · have hne : op' ≠ op := by
      rintro rfl
      exact hbackup ((h.backup.keys op').mp (Option.isSome_iff_exists.mpr ⟨r', hr'⟩))
    change (AList.erase op c.log).lookup op' = some r'
    rw [AList.lookup_erase_ne hne]
    exact h.backed op' r' hr'
  · have hold := Kept.lookup_erase hr'
    have hne : r' ≠ r := by
      rintro rfl
      obtain rfl := h.unshared hold hr
      change (AList.erase op' c.log).lookup op' = some r' at hr'
      rw [AList.lookup_erase] at hr'
      nomatch hr'
    have hsame := hheap r' hne
    exact (h.entries op' r' hold).mono le_rfl rfl (congrArg CEntry.apply hsame) (congrArg CEntry.req hsame)
      (congrArg CEntry.res hsame)

/-- Requests are sent out while there is room, without a panic. -/
theorem updateQueue (h : c.Tidy) (k : ℕ) :
    ∃ c', Client.updateQueue k c = .ok c' ∧ c'.Tidy ∧ c'.log = c.log ∧ c'.apply = c.apply := by
  induction k generalizing c with
  | zero => exact ⟨c, rfl, h, rfl, rfl⟩
  | succ k ih =>
    unfold Client.updateQueue
    cases hq : c.backupQueue.q with
    | nil =>
      have hmin : c.backupQueue.getMin = none := by rw [StringQueue.getMin, hq, List.head?_nil, Option.map_none]
      rw [hmin]
      exact ⟨c, rfl, h, rfl, rfl⟩
    | cons op rest =>
      obtain ⟨r, -, hmin, hextract⟩ := h.backup.getMin hq
      rw [hmin, hextract]
      simp only []
      split_ifs with hroom
      · exact ih (h.moveOne hq r hroom (c.retry ++ [r]))
      · exact ⟨c, rfl, h, rfl, rfl⟩

end Tidy

/-- The result may as well go out before the queues are updated. -/
theorem updateQueue_notifyResult {k : ℕ} {cmd auxiliary : String} {seq : ℤ} {err : Option String}
    (h : updateQueue k (c.notifyResult cmd auxiliary seq err) = .ok c') :
    ∃ c'', updateQueue k c = .ok c'' ∧ c''.notifyResult cmd auxiliary seq err = c' := by
  induction k generalizing c with
  | zero => exact ⟨c, rfl, Except.ok.inj h⟩
  | succ k ih =>
    have hbackup : (c.notifyResult cmd auxiliary seq err).backupQueue = c.backupQueue := rfl
    unfold updateQueue at h ⊢
    rw [hbackup] at h
    cases hmin : c.backupQueue.getMin with
    | none =>
      rw [hmin] at h
      exact ⟨c, rfl, Except.ok.inj h⟩
    | some e =>
      obtain ⟨op, elem⟩ := e
      rw [hmin] at h
      change (if c.reqQueue.length ≤ outstanding then _ else _) = _ at h
      simp only []
      split_ifs at h ⊢ with hroom
      · cases elem with
        | none => cases h
        | some r =>
          let moved : Client := { c with
            backupQueue := c.backupQueue.extractMin.1, reqQueue := (c.reqQueue.insert op r).1, retry := c.retry ++ [r] }
          exact @ih moved h
      · exact ⟨c, rfl, Except.ok.inj h⟩

/-! ### Steps -/

/-- Whether the responses complete a request depends on those that agree with the last one. -/
theorem Pending.reached_iff {args : ResponseArgs} (h : c.Pending args.res r) :
    reached c.f [] ((c.heap r).res ++ [args]) = true ↔
      c.f < (responders ((c.heap r).res ++ [args]) fun a => a.seq = args.seq).card := by
  refine ⟨fun hr => lt_card_of_reached h.res rfl h.unfinished hr, fun hcard => ?_⟩
  by_contra hr
  rw [Bool.not_eq_true] at hr
  refine absurd (card_le_of_not_reached hr (by simp) args (by simp)) (not_le.mpr (hcard.trans_le ?_))
  refine Finset.card_le_card fun i hi => ?_
  obtain ⟨a, ha, hseq, rfl⟩ := mem_responders.mp hi
  rw [decide_eq_true_eq] at hseq
  have hop : a.res = args.res := by
    rcases List.mem_append.mp ha with ha | ha
    · exact h.res a ha
    · rw [List.mem_singleton.mp ha]
  exact mem_responders.mpr ⟨a, ha, decide_eq_true ((key_eq_iff hop).mpr hseq), rfl⟩

theorem finishes_iff {args : ResponseArgs} (hr : c.log.lookup args.res = some r) (h : c.Pending args.res r) :
    c.Finishes args ↔ reached c.f [] ((c.heap r).res ++ [args]) = true := by
  rw [h.reached_iff, Finishes, hr]
  simp

theorem complete_eq {args : ResponseArgs} (req : RequestArgs) (hreq : (c.heap r).req = some req)
    (hop : req.op ∈ c.reqQueue.q) :
    c.complete r args =
      (updateQueue c.backupQueue.length
        { c.setEntry r { c.heap r with apply := true } with
          reqQueue := { q := c.reqQueue.q.erase req.op, m := c.reqQueue.m.erase req.op } } >>= fun c =>
        .ok (c.notifyResult args.res args.auxiliary args.seq none)) := by
  have hent : ((c.setEntry r { c.heap r with apply := true }).heap r).req = some req := by
    simp [Client.setEntry, hreq]
  have hremove : (c.setEntry r { c.heap r with apply := true }).reqQueue.remove req.op =
      ({ q := c.reqQueue.q.erase req.op, m := c.reqQueue.m.erase req.op }, true) := StringQueue.remove_of_mem hop
  unfold complete
  simp only [hent, hremove]
  rfl

/-- A request that was sent out is completed, with the values of the last response. -/
theorem Tidy.complete (h : c.Tidy) {args : ResponseArgs} (hr : c.log.lookup args.res = some r)
    (hop : args.res ∈ c.reqQueue.q) (ent : CEntry) (hreq : ent.req = (c.heap r).req) :
    ∃ c', (c.setEntry r ent).complete r args = .ok c' ∧ c'.Tidy ∧ c'.log.lookup args.res = none ∧
      c'.apply = (c.notifyResult args.res args.auxiliary args.seq none).apply := by
  obtain ⟨req, hreq', hreqop⟩ := (h.entries _ r hr).req
  have hent : (c.setEntry r ent).heap r = ent := Function.update_self ..
  let sent : Client := { (c.setEntry r ent).setEntry r { ent with apply := true } with
    reqQueue := { q := c.reqQueue.q.erase args.res, m := c.reqQueue.m.erase args.res } }
  have hheap : ∀ r', r' ≠ r → sent.heap r' = c.heap r' := by
    intro r' hne
    simp [sent, Client.setEntry, hne]
  have htidy : (sent.notifyResult args.res args.auxiliary args.seq none).Tidy := h.finish hr hop hheap _
  obtain ⟨c', hqueue, htidy', hlog, happly⟩ := htidy.updateQueue c.backupQueue.length
  obtain ⟨c'', hqueue', rfl⟩ := updateQueue_notifyResult hqueue
  refine ⟨_, ?_, htidy', ?_, happly⟩
  · rw [complete_eq req (by rw [hent, hreq, hreq']) (by rw [hreqop]; exact hop), hent, hreqop]
    change (Client.updateQueue c.backupQueue.length sent >>= _) = _
    rw [hqueue']
    rfl
  · rw [hlog]
    exact AList.lookup_erase ..

theorem Tidy.addResponse (h : c.Tidy) {args : ResponseArgs} (hr : c.log.lookup args.res = some r)
    (hopen : reached c.f [] ((c.heap r).res ++ [args]) = false) :
    (c.setEntry r { c.heap r with res := (c.heap r).res ++ [args] }).Tidy := by
  refine h.frame (fun _ => rfl) rfl rfl fun op r' hr' hp => ?_
  by_cases e : r' = r
  · subst e
    obtain rfl := h.unshared hr' hr
    have hent : (c.setEntry r' { c.heap r' with res := (c.heap r').res ++ [args] }).heap r' =
        { c.heap r' with res := (c.heap r').res ++ [args] } := Function.update_self ..
    refine ⟨hp.ref, (congrArg CEntry.apply hent).trans hp.apply, ?_, ?_, ?_⟩
    · rw [hent]
      exact hp.req
    · rw [hent]
      intro a ha
      rcases List.mem_append.mp ha with ha | ha
      · exact hp.res a ha
      · rw [List.mem_singleton.mp ha]
    · rw [hent]
      exact hopen
  · have hsame : (c.setEntry r { c.heap r with res := (c.heap r).res ++ [args] }).heap r' = c.heap r' :=
      Function.update_of_ne e ..
    exact hp.mono le_rfl rfl (congrArg CEntry.apply hsame) (congrArg CEntry.req hsame) (congrArg CEntry.res hsame)

/-- What `Response` does with a request in the log. -/
theorem Tidy.response_eq (h : c.Tidy) {args : ResponseArgs} (hr : c.log.lookup args.res = some r) :
    c.response args =
      let c₀ : Client := { c with view := max args.view c.view }.setEntry r { c.heap r with t := false }
      let ent : CEntry := { c.heap r with t := false, res := (c.heap r).res ++ [args] }
      if c.Finishes args then (c₀.setEntry r ent).complete r args else .ok (c₀.setEntry r ent) := by
  have hp := h.entries _ r hr
  let c₀ : Client := { c with view := max args.view c.view }.setEntry r { c.heap r with t := false }
  have hent : c₀.heap r = { c.heap r with t := false } := Function.update_self ..
  unfold response
  rw [hr]
  change c₀.countResponse r args = _
  have hopen : ¬ (c₀.heap r).apply = true := by
    rw [hent]
    exact ne_of_eq_of_ne hp.apply Bool.false_ne_true
  unfold countResponse
  rw [if_neg hopen, hent]
  refine if_congr ?_ rfl rfl
  rw [finishes_iff hr hp]
  exact ⟨fun hdone => hdone.2, fun hdone => ⟨lt_length_of_reached hdone, hdone⟩⟩

theorem Tidy.stop (h : c.Tidy) (args : ResponseArgs) (r : ℕ) :
    ({ c with view := max args.view c.view }.setEntry r { c.heap r with t := false } : Client).Tidy := by
  have hview : ({ c with view := max args.view c.view } : Client).Tidy :=
    h.frame (fun _ => rfl) rfl rfl fun _ _ _ hp => hp.mono le_rfl rfl rfl rfl rfl
  exact hview.setEntry r { c.heap r with t := false } rfl rfl rfl

/-- A request that was sent out is still to be resolved: the response that makes enough replicas agree on its
number completes it. -/
theorem Tidy.resolve (h : c.Tidy) {args : ResponseArgs} (hop : args.res ∈ c.reqQueue.q) (hf : c.Finishes args) :
    ∃ c', c.response args = .ok c' ∧ c'.Tidy ∧ c'.log.lookup args.res = none ∧
      c'.apply = (c.notifyResult args.res args.auxiliary args.seq none).apply := by
  have ⟨r, hr, _⟩ := hf
  rw [h.response_eq hr]
  simp only []
  rw [if_pos hf]
  have hreq : (({ c with view := max args.view c.view } : Client).setEntry r { c.heap r with t := false }).heap r =
      { c.heap r with t := false } := Function.update_self ..
  exact (h.stop args r).complete hr hop _ (congrArg CEntry.req hreq).symm

theorem Tidy.response (h : c.Tidy) {args : ResponseArgs} (ha : c.Orderly (.response args)) :
    ∃ c', c.response args = .ok c' ∧ c'.Tidy := by
  cases hr : c.log.lookup args.res with
  | none =>
    refine ⟨c, ?_, h⟩
    rw [Client.response, hr]
  | some r =>
    by_cases hf : c.Finishes args
    · have hqueued := (h.booked.keys args.res).mp (hr ▸ rfl)
      have hop := (List.mem_append.mp hqueued).resolve_right fun hmem => ha hmem hf
      obtain ⟨c', hc', htidy, -⟩ := h.resolve hop hf
      exact ⟨c', hc', htidy⟩
    · rw [h.response_eq hr]
      simp only []
      rw [if_neg hf]
      refine ⟨_, rfl, ?_⟩
      have hopen := (finishes_iff hr (h.entries _ r hr)).not.mp hf
      rw [Bool.not_eq_true] at hopen
      have hent : (({ c with view := max args.view c.view } : Client).setEntry r { c.heap r with t := false }).heap r =
          { c.heap r with t := false } := Function.update_self ..
      have hadd := (h.stop args r).addResponse hr (by rw [hent]; exact hopen)
      rw [hent] at hadd
      exact hadd

/-- A response that completes a request that was not sent out makes the client panic. -/
theorem Tidy.response_error (h : c.Tidy) {args : ResponseArgs} (hop : args.res ∈ c.backupQueue.q)
    (hf : c.Finishes args) : ∃ c', c.response args = .error c' := by
  have ⟨r, hr, _⟩ := hf
  obtain ⟨req, hreq, hreqop⟩ := (h.entries _ r hr).req
  have hout : args.res ∉ c.reqQueue.q := fun hmem => (List.nodup_append.mp h.booked.once).2.2 _ hmem _ hop rfl
  rw [h.response_eq hr]
  simp only []
  rw [if_pos hf]
  unfold Client.complete StringQueue.remove
  simp [Client.setEntry, hreq, hreqop, hout]

/-- The client with a new entry for `cmd`. -/
def withEntry (c : Client) (cmd : String) (ent : CEntry) : Client :=
  { c with log := c.log.insert cmd c.next, heap := Function.update c.heap c.next ent, next := c.next + 1 }

theorem Pending.withEntry (h : c.Pending op r) (cmd : String) (ent : CEntry) : (c.withEntry cmd ent).Pending op r := by
  have hsame : (c.withEntry cmd ent).heap r = c.heap r := Function.update_of_ne h.ref.ne ..
  exact h.mono (Nat.le_succ _) rfl (congrArg CEntry.apply hsame) (congrArg CEntry.req hsame) (congrArg CEntry.res hsame)

theorem Pending.new (c : Client) (req : RequestArgs) :
    (c.withEntry req.op { req := some req }).Pending req.op c.next := by
  have hent : (c.withEntry req.op { req := some req }).heap c.next = { req := some req } := Function.update_self ..
  refine ⟨Nat.lt_succ_self _, by rw [hent], ⟨req, by rw [hent], rfl⟩, ?_, ?_⟩
  · rw [hent]
    exact fun a ha => absurd ha List.not_mem_nil
  · rw [hent]
    rfl

/-- What `Start` does with an operation that is not pending. -/
theorem start_eq {cmd : String} (timestamp : ℤ) (canOpSuccess : Option String) (hop : c.log.lookup cmd = none) :
    c.step (.start cmd timestamp canOpSuccess) =
      let entered := c.withEntry cmd { req := some { op := cmd, id := c.id, timestamp := timestamp } }
      match canOpSuccess with
      | some err => .ok ((c.withEntry cmd {}).notifyResult cmd "" (-1) (some err))
      | none =>
        if c.reqQueue.length ≤ outstanding then
          .ok { entered with reqQueue := (c.reqQueue.insert cmd c.next).1, retry := c.retry ++ [c.next] }
        else .ok { entered with backupQueue := (c.backupQueue.insert cmd c.next).1 } := by
  unfold step startInternal newCEntry
  simp only [hop]
  cases canOpSuccess with
  | some err => rfl
  | none =>
    have hheap : ∀ ent, Function.update (Function.update c.heap c.next {}) c.next ent =
        Function.update c.heap c.next ent :=
      fun ent => Function.update_idem ..
    simp only [Client.setEntry, Function.update_self, hheap, Bool.false_eq_true, if_false]
    split_ifs <;> rfl

theorem Tidy.start (h : c.Tidy) {cmd : String} (timestamp : ℤ) (canOpSuccess : Option String)
    (hop : c.log.lookup cmd = none) : ∃ c', c.step (.start cmd timestamp canOpSuccess) = .ok c' ∧ c'.Tidy := by
  rw [start_eq timestamp canOpSuccess hop]
  let req : RequestArgs := { op := cmd, id := c.id, timestamp := timestamp }
  cases canOpSuccess with
  | some err =>
    refine ⟨_, rfl, h.frame (fun op => ?_) rfl rfl fun op r _ hp => (hp.withEntry cmd {}).mono le_rfl rfl rfl rfl rfl⟩
    change (AList.erase cmd (c.log.insert cmd c.next)).lookup op = c.log.lookup op
    by_cases heq : op = cmd
    · subst heq
      rw [AList.lookup_erase, hop]
    · rw [AList.lookup_erase_ne heq, RangeMap.lookup_insert_eq, if_neg heq]
  | none =>
    have hnew := Pending.new c req
    simp only []
    split_ifs with hroom
    · refine ⟨_, rfl, h.enqueue hop rfl (hnew.mono le_rfl rfl rfl rfl rfl) (fun op r _ hp => ?_)
        (.inl ⟨hroom, rfl, rfl⟩)⟩
      exact (hp.withEntry cmd { req := some req }).mono le_rfl rfl rfl rfl rfl
    · refine ⟨_, rfl, h.enqueue hop rfl (hnew.mono le_rfl rfl rfl rfl rfl) (fun op r _ hp => ?_) (.inr ⟨rfl, rfl⟩)⟩
      exact (hp.withEntry cmd { req := some req }).mono le_rfl rfl rfl rfl rfl

/-- An operation that is started while it is pending stays queued, but its entry is deleted. -/
theorem start_pending {cmd : String} (timestamp : ℤ) (canOpSuccess : Option String) (hr : c.log.lookup cmd = some r) :
    c.step (.start cmd timestamp canOpSuccess) = .ok (c.notifyResult cmd "" (-1) (some "cmd duplicate")) := by
  unfold step startInternal newCEntry
  simp only [hr]
  rfl

theorem Tidy.sendRequest (h : c.Tidy) (r : ℕ) : (c.sendRequest r).Tidy := by
  unfold Client.sendRequest
  simp only []
  split_ifs
  · exact h.setEntry r _ rfl rfl rfl
  · exact (h.setEntry r { c.heap r with t := true, ft := false } rfl rfl rfl).frame (fun _ => rfl) rfl rfl
      fun _ _ _ hp => hp.mono le_rfl rfl rfl rfl rfl
  · exact (h.setEntry r { c.heap r with t := true, ft := false } rfl rfl rfl).frame (fun _ => rfl) rfl rfl
      fun _ _ _ hp => hp.mono le_rfl rfl rfl rfl rfl

/-- An orderly step goes through, and keeps the log and the queues together. -/
theorem Tidy.step (h : c.Tidy) {a : ClientInput} (ha : c.Orderly a) : ∃ c', c.step a = .ok c' ∧ c'.Tidy := by
  cases a with
  | start cmd timestamp canOpSuccess => exact h.start timestamp canOpSuccess ha
  | response args => exact h.response ha
  | retry k =>
    unfold Client.step
    simp only []
    split
    · next r hr =>
      have htaken : ({ c with retry := c.retry.eraseIdx k } : Client).Tidy :=
        h.frame (fun _ => rfl) rfl rfl fun _ _ _ hp => hp.mono le_rfl rfl rfl rfl rfl
      exact ⟨_, rfl, htaken.sendRequest r⟩
    · exact ⟨c, rfl, h⟩
  | timeout r =>
    unfold Client.step
    simp only []
    split_ifs
    · exact ⟨_, rfl, (h.setEntry r { c.heap r with t := false } rfl rfl rfl).frame (fun _ => rfl) rfl rfl
        fun _ _ _ hp => hp.mono le_rfl rfl rfl rfl rfl⟩
    · exact ⟨c, rfl, h⟩
  | take => exact ⟨_, rfl, h.frame (fun _ => rfl) rfl rfl fun _ _ _ hp => hp.mono le_rfl rfl rfl rfl rfl⟩

theorem Tidy.new (cid : ℤ) (f : ℕ) (nodes : List ℤ) : (Client.new cid f nodes).Tidy where
  booked := ⟨by simp [Client.new], List.nodup_nil, Nat.zero_le _⟩
  req := .empty
  backup := .empty
  backed op r hr := by simp [Client.new] at hr
  entries op r hr := by simp [Client.new] at hr

/-- Only an orderly step goes through and keeps the books. -/
theorem Tidy.step_iff (h : c.Tidy) (a : ClientInput) : (∃ c', c.step a = .ok c' ∧ c'.Booked) ↔ c.Orderly a := by
  constructor
  · rintro ⟨c', hc', hbooked⟩
    cases a with
    | start cmd timestamp canOpSuccess =>
      by_contra hop
      obtain ⟨r, hr⟩ := Option.ne_none_iff_exists'.mp hop
      rw [start_pending timestamp canOpSuccess hr] at hc'
      obtain rfl := Except.ok.inj hc'
      have hlost := (hbooked.keys cmd).mpr ((h.booked.keys cmd).mp (hr ▸ rfl))
      change ((AList.erase cmd c.log).lookup cmd).isSome = true at hlost
      rw [AList.lookup_erase] at hlost
      cases hlost
    | response args =>
      intro hop hf
      obtain ⟨c'', herror⟩ := h.response_error hop hf
      rw [Client.step, herror] at hc'
      cases hc'
    | retry => trivial
    | timeout => trivial
    | take => trivial
  · intro ha
    obtain ⟨c', hc', htidy⟩ := h.step ha
    exact ⟨c', hc', htidy.booked⟩

/-- In every run in which no operation is started while it is pending, and none is completed before it was sent
out, the requests in the log are those that are queued, each request that was sent out is resolved by the
responses that make enough replicas agree, and a step keeps the books without a panic just if it is such a one. -/
theorem client_bookkeeping {cid : ℤ} {f : ℕ} {nodes : List ℤ} {l : List ClientInput} {c : Client}
    (h : Runs (fun c a c' => c.Orderly a ∧ c.step a = .ok c') (Client.new cid f nodes) l c) :
    c.Booked ∧
      (∀ args : ResponseArgs, args.res ∈ c.reqQueue.q → c.Finishes args →
        ∃ c', c.step (.response args) = .ok c' ∧ c'.log.lookup args.res = none ∧
          c'.apply = (c.notifyResult args.res args.auxiliary args.seq none).apply) ∧
      ∀ a, (∃ c', c.step a = .ok c' ∧ c'.Booked) ↔ c.Orderly a := by
  have htidy : c.Tidy := by
    refine Runs.invariant (fun _ c => c.Tidy) (Tidy.new ..) ?_ h
    intro l c a c' hc hs
    obtain ⟨c'', hc'', htidy⟩ := hc.step hs.1
    obtain rfl := Except.ok.inj (hc''.symm.trans hs.2)
    exact htidy
  refine ⟨htidy.booked, fun args hop hf => ?_, htidy.step_iff⟩
  obtain ⟨c', hc', -, hlog, happly⟩ := htidy.resolve hop hf
  exact ⟨c', hc', hlog, happly⟩

instance instDecidableOrderly (c : Client) : (a : ClientInput) → Decidable (c.Orderly a)
  | .start cmd _ _ => (inferInstance : DecidableEq (Option ℕ)) (c.log.lookup cmd) none
  | .response args => inferInstanceAs (Decidable (args.res ∈ c.backupQueue.q → ¬ c.Finishes args))
  | .retry _ => .isTrue trivial
  | .timeout _ => .isTrue trivial
  | .take => .isTrue trivial

/-- A client of four replicas, one of which may be malicious. -/
def ofFour : Client := Client.new 0 1 ((List.range 4).map Int.ofNat)

def startTwice : List ClientInput := [.start "a" 1 none, .start "a" 0 none]

/-- More requests than are sent out at once; the one for `a` is the last, and one replica answers it. -/
def startMany : List ClientInput :=
  answerOf 1 "x" :: .start "a" 0 none ::
    ["b", "c", "d", "e", "f", "g", "h", "i", "j", "k", "l"].map fun op => .start op 0 none

theorem startMany_panics : ∃ c, Runs (fun c a c' => True ∧ c.step a = .ok c') ofFour startMany c ∧
    ∃ c', c.step (answerOf 2 "x") = .error c' := by
  have hplay : (ofFour.plays (fun _ _ => True) startMany).map
      (fun c => (c.step (answerOf 2 "x")).toBool) = some false := by decide +kernel
  obtain ⟨c, hc, hpanic⟩ := Option.map_eq_some_iff.mp hplay
  refine ⟨c, runs_of_plays hc, ?_⟩
  cases hs : c.step (answerOf 2 "x") with
  | ok c' => simp [hs, Except.toBool] at hpanic
  | error c' => exact ⟨c', rfl⟩

/-- A request that was started twice is queued without an entry in the log, and one that is completed while it
waits makes the client panic. -/
theorem bookkeeping_fails :
    (∃ c, Runs (fun c a c' => True ∧ c.step a = .ok c') ofFour startTwice c ∧ "a" ∈ c.reqQueue.q ∧
      c.log.lookup "a" = none) ∧
    ∃ c, Runs (fun c a c' => True ∧ c.step a = .ok c') ofFour startMany c ∧
      ∃ c', c.step (answerOf 2 "x") = .error c' := by
  constructor
  · have hplay : (ofFour.plays (fun _ _ => True) startTwice).map
        (fun c => decide ("a" ∈ c.reqQueue.q ∧ c.log.lookup "a" = none)) = some true := by decide +kernel
    obtain ⟨c, hc, hlost⟩ := Option.map_eq_some_iff.mp hplay
    exact ⟨c, runs_of_plays hc, of_decide_eq_true hlost⟩
  · exact startMany_panics

theorem client_bookkeeping_two :
    ∃ c, Runs (fun c a c' => c.Orderly a ∧ c.step a = .ok c') ofFour
        [answerOf 1 "x", .start "b" 1 none, .start "a" 0 none] c ∧
      c.Booked ∧ c.Orderly (answerOf 2 "x") ∧ ¬ c.Orderly (.start "b" 2 none) ∧
        ∃ c', c.step (answerOf 2 "x") = .ok c' ∧ c'.Booked := by
  have hplay : (ofFour.plays Orderly [answerOf 1 "x", .start "b" 1 none, .start "a" 0 none]).map
      (fun c => decide (c.Orderly (answerOf 2 "x") ∧ ¬ c.Orderly (.start "b" 2 none))) = some true := by decide +kernel
  obtain ⟨c, hc, horderly⟩ := Option.map_eq_some_iff.mp hplay
  obtain ⟨hanswer, htwice⟩ := of_decide_eq_true horderly
  obtain ⟨hbooked, -, hiff⟩ := client_bookkeeping (runs_of_plays hc)
  exact ⟨c, runs_of_plays hc, hbooked, hanswer, htwice, (hiff _).mpr hanswer⟩

end Client

end DistributedNotary.Pbft
