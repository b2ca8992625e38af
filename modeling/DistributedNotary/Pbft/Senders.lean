import DistributedNotary.Pbft.Client
import DistributedNotary.Pbft.Handlers
import DistributedNotary.Pbft.Quorums

/-! Under whose name the messages of a replica and of a client go out, and which
of them the receiver takes for the sender's own. The check compares the view of
a preprepare message or a new view message with the sender, and not the leader
of that view. -/
namespace DistributedNotary.Pbft

open Library Server

variable {A : Type}

/-- The message speaks for replica `i` of `n`, a relayed request apart. -/
def Msg.SpeaksFor (n : ℕ) (i : ℤ) : Msg → Prop
  | .request _ => True
  | .prePrepare arg => 0 ≤ arg.view ∧ arg.view.tmod n = i
  | .prepare arg => arg.rid = i
  | .commit arg => arg.rid = i
  | .checkPoint arg => arg.rid = i
  | .viewChange arg => arg.rid = i
  | .newView arg => 0 ≤ arg.view ∧ arg.view.tmod n = i
  | .response arg => arg.rid = i

/-- What a server has sent, or may still send, speaks for it. -/
structure Server.SpeaksOwn (s : Server A) : Prop where
  view : 0 ≤ s.view
  responses : ∀ r resp, (s.heap r).r = some resp → resp.rid = s.id
  background : ∀ ps ∈ s.background, ∀ p ∈ ps, p.rid = s.id
  sent : ∀ msg, s.Sent msg → msg.SpeaksFor s.replicas.length s.id

namespace Server.SpeaksOwn

variable {env : Env A} {K : Server A → Msg → Prop} {s s' : Server A}

theorem new (env : Env A) (rid : ℤ) (f : ℕ) (initSeq : ℤ) (nodes : List ℤ) (as : A) :
    (Server.new env rid f initSeq nodes as).SpeaksOwn where
  view := le_rfl
  responses r resp hr := by simp [Server.new] at hr
  background ps hps := by simp [Server.new] at hps
  sent msg hm := by simp [Server.Sent, Server.new] at hm

/-- Nothing but one message is sent. -/
theorem of_sent (h : s.SpeaksOwn) (hid : s'.id = s.id) (hreplicas : s'.replicas = s.replicas)
    (hview : s.view ≤ s'.view) (hr : ∀ r resp, (s'.heap r).r = some resp → resp.rid = s.id)
    (hb : ∀ ps ∈ s'.background, ∀ p ∈ ps, p.rid = s.id)
    (hm : ∀ msg, s'.Sent msg → s.Sent msg ∨ msg.SpeaksFor s.replicas.length s.id) : s'.SpeaksOwn where
  view := h.view.trans hview
  responses r resp hresp := hid ▸ hr r resp hresp
  background ps hps p hp := hid ▸ hb ps hps p hp
  sent msg hmsg := by
    rw [hid, hreplicas]
    exact (hm msg hmsg).elim (h.sent msg) fun h => h

theorem leads_iff {s : Server A} : s.isLeader = true ↔ s.view.tmod s.replicas.length = s.id := by
  simp [isLeader]

theorem of_note {e : Event} (htrace : s'.trace = e :: s.trace)
    (he : ∀ msg, e = .send msg → msg.SpeaksFor s.replicas.length s.id) {msg : Msg} (hm : s'.Sent msg) :
    s.Sent msg ∨ msg.SpeaksFor s.replicas.length s.id := by
  unfold Sent at hm
  rw [htrace] at hm
  exact (List.mem_cons.mp hm).symm.imp_right fun heq => he msg heq.symm

theorem responses_update (h : s.SpeaksOwn) (r : ℕ) {ent : Entry} (hent : ∀ resp, ent.r = some resp → resp.rid = s.id) :
    ∀ r' resp, (Function.update s.heap r ent r').r = some resp → resp.rid = s.id := by
  intro r' resp hresp
  by_cases e : r' = r
  · subst e
    rw [Function.update_self] at hresp
    exact hent resp hresp
  · rw [Function.update_of_ne e] at hresp
    exact h.responses r' resp hresp

/-- The answer that is kept in an entry is the server's own. -/
theorem responses_answered (h : s.SpeaksOwn) (pt : PendingTask) (pp : PrePrepareArgs) (as : A) :
    ∀ r' resp, ((s.answered pt pp as).heap r').r = some resp → resp.rid = s.id := by
  refine h.responses_update pt.ent ?_
  rintro resp hresp
  obtain rfl := Option.some.inj hresp
  cases hr : (s.heap pt.ent).r with
  | none => rfl
  | some resp => exact h.responses pt.ent resp hr

theorem move (h : s.SpeaksOwn) (hs : s.WF) (hm : Move env K s s') : s'.SpeaksOwn := by
  obtain ⟨hid, hreplicas, -⟩ := hm.fixed
  cases hm with
  | newEntry n hnew =>
    exact h.of_sent hid hreplicas le_rfl (h.responses_update s.next fun _ hr => nomatch hr) h.background
      fun _ hm => .inl hm
  | relay args hk =>
    exact h.of_sent hid hreplicas le_rfl h.responses h.background fun _ => of_note rfl (by rintro _ ⟨⟩; trivial)
  | respond ref r hr =>
    exact h.of_sent hid hreplicas le_rfl h.responses h.background
      fun _ => of_note rfl (by rintro _ ⟨⟩; exact h.responses ref r hr)
  | propose args digest as seqmap hk hc hl hnew hH has =>
    exact h.of_sent hid hreplicas le_rfl h.responses h.background
      fun _ => of_note rfl (by rintro _ ⟨⟩; exact ⟨h.view, leads_iff.mp hl⟩)
  | repropose n r pp hc hl hr hpp =>
    obtain ⟨hlt, hent⟩ := hs.refs _ _ hr
    have hview := hs.pps r pp hlt hpp
    rw [hent] at hview
    simp only [EntryID.mk.injEq] at hview
    have hspeaks : (Msg.prePrepare pp).SpeaksFor s.replicas.length s.id := by
      refine ⟨?_, ?_⟩ <;> rw [← hview.1]
      · exact h.view
      · exact leads_iff.mp hl
    exact h.of_sent hid hreplicas le_rfl h.responses h.background
      fun _ => of_note rfl (by rintro _ ⟨⟩; exact hspeaks)
  | accept r pp hk hc hw hr ha =>
    exact h.of_sent hid hreplicas le_rfl (h.responses_update r (h.responses r)) h.background
      fun _ => of_note rfl (by rintro _ ⟨⟩; rfl)
  | sendBackground k p ps hb =>
    have hmem : p :: ps ∈ s.background := List.mem_of_getElem? hb
    refine h.of_sent hid hreplicas le_rfl h.responses ?_
      fun _ => of_note rfl (by rintro _ ⟨⟩; exact h.background _ hmem p (List.mem_cons_self ..))
    intro ps' hps' p' hp'
    rcases List.mem_or_eq_of_mem_set hps' with hps' | rfl
    · exact h.background ps' hps' p' hp'
    · exact h.background _ hmem p' (List.mem_cons_of_mem _ hp')
  | addPrepare r args hk hc hw hr hm =>
    exact h.of_sent hid hreplicas le_rfl (h.responses_update r (h.responses r)) h.background fun _ hm => .inl hm
  | sendCommit r pp as hc hw hr hpp hs hp has =>
    exact h.of_sent hid hreplicas le_rfl (h.responses_update r (h.responses r)) h.background
      fun _ => of_note rfl (by rintro _ ⟨⟩; rfl)
  | addCommit r args hk hc hw hr hm =>
    exact h.of_sent hid hreplicas le_rfl (h.responses_update r (h.responses r)) h.background fun _ hm => .inl hm
  | enqueue r args queue hw hr hm hs hrep hcom hseq hq =>
    exact h.of_sent hid hreplicas le_rfl (h.responses_update r (h.responses r)) h.background fun _ hm => .inl hm
  | runTask queue m pp as hq hturn hpp has =>
    exact h.of_sent hid hreplicas le_rfl (h.responses_answered m.c pp as) h.background
      fun _ => of_note rfl (by rintro _ ⟨⟩)
  | runTaskAndVote queue m pp as reply digest digest' hq hturn hpp has hreply hdiv hslot =>
    have hrun : (s.runTask queue m pp as).SpeaksOwn :=
      h.of_sent rfl rfl le_rfl (h.responses_answered m.c pp as) h.background fun _ => of_note rfl (by rintro _ ⟨⟩)
    have hsend : ((s.runTask queue m pp as).send (.response reply)).SpeaksOwn :=
      hrun.of_sent rfl rfl le_rfl hrun.responses hrun.background
        fun _ => of_note rfl (by rintro _ ⟨⟩; exact hrun.responses _ _ hreply)
    exact hsend.of_sent rfl rfl le_rfl hsend.responses hsend.background fun _ => of_note rfl (by rintro _ ⟨⟩; rfl)
  | answerTask queue m pp as cp key hq hcp hstable hle hpp has =>
    exact h.of_sent hid hreplicas le_rfl (h.responses_answered m.c pp as) h.background
      fun _ => of_note rfl (by rintro _ ⟨⟩)
  | stabilize n cp proof hdiv hcp hs hq hv =>
    exact h.of_sent hid hreplicas le_rfl h.responses h.background fun _ => of_note rfl (by rintro _ ⟨⟩)
  | stabilizeAndResume n cp proof hdiv hcp hs hq hv =>
    have hnote : (s.note (.stable proof cp.proof)).SpeaksOwn :=
      h.of_sent rfl rfl le_rfl h.responses h.background fun _ => of_note rfl (by rintro _ ⟨⟩)
    exact hnote.of_sent rfl rfl hv.le hnote.responses hnote.background fun _ => of_note rfl (by rintro _ ⟨⟩)
  | sendViewChange orders cp hc hcp =>
    exact h.of_sent hid hreplicas le_rfl h.responses h.background fun _ => of_note rfl (by rintro _ ⟨⟩; rfl)
  | sendNewView nv mins maxs hv hl hlen hvcs hnv =>
    exact h.of_sent hid hreplicas le_rfl h.responses h.background
      fun _ => of_note rfl (by rintro _ ⟨⟩; exact ⟨h.view.trans hv.le, hl⟩)
  | enterView nv mins maxs pps henter =>
    refine h.of_sent hid hreplicas henter.1.le h.responses ?_ fun _ => of_note rfl (by rintro _ ⟨⟩)
    intro ps hps p hp
    rcases List.mem_append.mp hps with hps | hps
    · exact h.background ps hps p hp
    · obtain rfl := List.mem_singleton.mp hps
      obtain ⟨pp, -, rfl⟩ := List.mem_map.mp hp
      rfl
  | takeOne v mins maxs pps pp henter hnv hpp hview hnew =>
    exact h.of_sent hid hreplicas le_rfl (h.responses_update s.next fun _ hr => nomatch hr) h.background
      fun _ hm => .inl hm
  | idle | service | touch | vote | settled | startChange | storeViewChange | catchUp =>
    exact h.of_sent hid hreplicas le_rfl h.responses h.background fun _ hm => .inl hm

end Server.SpeaksOwn

/-- What client `i` has sent, and what it keeps to send, is under its id. -/
structure Client.SpeaksOwn (i : ℤ) (c : Client) : Prop where
  id : c.id = i
  entries : ∀ r req, (c.heap r).req = some req → req.id = i
  sent : ∀ req target, (req, target) ∈ c.sent → req.id = i

namespace Client.SpeaksOwn

variable {i : ℤ} {c c' : Client}

theorem of_eq (h : SpeaksOwn i c) (hid : c'.id = c.id) (hreq : ∀ r, (c'.heap r).req = (c.heap r).req)
    (hsent : c'.sent = c.sent) : SpeaksOwn i c' where
  id := hid.trans h.id
  entries r req hr := h.entries r req (hreq r ▸ hr)
  sent req target hr := h.sent req target (hsent ▸ hr)

theorem setEntry (h : SpeaksOwn i c) (r : ℕ) (ent : CEntry) (hent : ∀ req, ent.req = some req → req.id = i) :
    SpeaksOwn i (c.setEntry r ent) where
  id := h.id
  entries r' req hreq := by
    by_cases e : r' = r
    · subst e
      simp only [Client.setEntry, Function.update_self] at hreq
      exact hent req hreq
    · simp only [Client.setEntry, Function.update_of_ne e] at hreq
      exact h.entries r' req hreq
  sent := h.sent

theorem complete (h : SpeaksOwn i c) {r : ℕ} {args : ResponseArgs} (hc : c.complete r args = .ok c') :
    SpeaksOwn i c' := by
  obtain ⟨reqQueue, backupQueue, retry, rfl⟩ := Client.complete_frame hc
  have hentry : SpeaksOwn i (c.setEntry r { c.heap r with apply := true }) := h.setEntry _ _ fun req => h.entries r req
  exact hentry.of_eq rfl (fun _ => rfl) rfl

theorem countResponse (h : SpeaksOwn i c) {r : ℕ} {args : ResponseArgs} (hc : c.countResponse r args = .ok c') :
    SpeaksOwn i c' := by
  have hres := h.setEntry r { c.heap r with res := (c.heap r).res ++ [args] } fun req => h.entries r req
  unfold Client.countResponse at hc
  split_ifs at hc
  · obtain rfl := Except.ok.inj hc
    exact h
  · simp only [] at hc
    split_ifs at hc
    · exact hres.complete hc
    · obtain rfl := Except.ok.inj hc
      exact hres

theorem start (h : SpeaksOwn i c) {cmd : String} {timestamp : ℤ} {canOpSuccess : Option String}
    (hs : c.step (.start cmd timestamp canOpSuccess) = .ok c') : SpeaksOwn i c' := by
  unfold Client.step Client.startInternal Client.newCEntry at hs
  simp only [] at hs
  cases hl : c.log.lookup cmd with
  | some r =>
    simp only [hl, if_true] at hs
    obtain rfl := Except.ok.inj hs
    exact h.of_eq rfl (fun _ => rfl) rfl
  | none =>
    have hnew : SpeaksOwn i (c.setEntry c.next {}) := h.setEntry _ _ fun _ hr => nomatch hr
    simp only [hl, Bool.false_eq_true, if_false] at hs
    cases canOpSuccess with
    | some err =>
      obtain rfl := Except.ok.inj hs
      exact hnew.of_eq rfl (fun _ => rfl) rfl
    | none =>
      have hreq := hnew.setEntry c.next
        { Function.update c.heap c.next {} c.next with
          req := some { op := cmd, id := c.id, timestamp := timestamp } } (by rintro _ ⟨⟩; exact h.id)
      simp only [] at hs
      split_ifs at hs
      · obtain rfl := Except.ok.inj hs
        exact hreq.of_eq rfl (fun _ => rfl) rfl
      · obtain rfl := Except.ok.inj hs
        exact hreq.of_eq rfl (fun _ => rfl) rfl

theorem sendRequest (h : SpeaksOwn i c) (r : ℕ) : SpeaksOwn i (c.sendRequest r) := by
  have hentry (ent : CEntry) (he : ent.req = (c.heap r).req) : SpeaksOwn i (c.setEntry r ent) :=
    h.setEntry _ _ fun req hr => h.entries r req (he ▸ hr)
  unfold Client.sendRequest
  simp only []
  by_cases happly : (c.heap r).apply = true
  · rw [if_pos happly]
    exact hentry _ rfl
  · rw [if_neg happly]
    refine ⟨h.id, (hentry { c.heap r with t := true, ft := false } rfl).entries, fun req target hm => ?_⟩
    rcases List.mem_append.mp hm with hm | hm
    · obtain ⟨req', hreq', hm⟩ := List.mem_flatMap.mp hm
      obtain ⟨_, _, hpair⟩ := List.mem_map.mp hm
      obtain ⟨rfl, -⟩ := Prod.mk.inj hpair
      exact h.entries r _ (Option.mem_toList.mp hreq')
    · exact h.sent req target hm

theorem step (h : SpeaksOwn i c) {a : ClientInput} (hs : c.step a = .ok c') : SpeaksOwn i c' := by
  cases a with
  | start cmd timestamp canOpSuccess => exact h.start hs
  | response args =>
    unfold Client.step Client.response at hs
    simp only [] at hs
    split at hs
    · obtain rfl := Except.ok.inj hs
      exact h
    · next r hr =>
      have hview : SpeaksOwn i { c with view := max args.view c.view } := h.of_eq rfl (fun _ => rfl) rfl
      have hstop := hview.setEntry r { c.heap r with t := false } fun req => h.entries r req
      exact hstop.countResponse hs
  | retry k =>
    unfold Client.step at hs
    simp only [] at hs
    split at hs
    · next r hr =>
      obtain rfl := Except.ok.inj hs
      have htaken : SpeaksOwn i { c with retry := c.retry.eraseIdx k } := h.of_eq rfl (fun _ => rfl) rfl
      exact htaken.sendRequest r
    · obtain rfl := Except.ok.inj hs
      exact h
  | timeout r =>
    unfold Client.step at hs
    simp only [] at hs
    split_ifs at hs
    · obtain rfl := Except.ok.inj hs
      have hstop := h.setEntry r { c.heap r with t := false } fun req => h.entries r req
      exact hstop.of_eq rfl (fun _ => rfl) rfl
    · obtain rfl := Except.ok.inj hs
      exact h
  | take =>
    obtain rfl := Except.ok.inj hs
    exact h.of_eq rfl (fun _ => rfl) rfl

theorem new (cid : ℤ) (f : ℕ) (nodes : List ℤ) : SpeaksOwn cid (Client.new cid f nodes) where
  id := rfl
  entries r req hr := by simp [Client.new] at hr
  sent req target hr := by simp [Client.new] at hr

end Client.SpeaksOwn

/-- Whether the receiver takes a message of replica `i` of `n` for its own: the view must be below `n`, and
a relayed request its own. -/
def Msg.Credible (n : ℕ) (i : ℤ) : Msg → Prop
  | .request arg => arg.id = i
  | .prePrepare arg => arg.view < n
  | .newView arg => arg.view < n
  | _ => True

/-- The leader of the view that a preprepare or new view message starts from is `i`. -/
def Msg.LedBy (n : ℕ) (i : ℤ) : Msg → Prop
  | .prePrepare arg => arg.view.tmod n = i
  | .newView arg => arg.view.tmod n = i
  | _ => True

theorem mem_ids {n : ℕ} {i : ℤ} : i ∈ ids n ↔ 0 ≤ i ∧ i < n := by
  unfold ids
  rw [List.mem_map]
  constructor
  · rintro ⟨j, hj, rfl⟩
    rw [List.mem_range] at hj
    exact ⟨Int.natCast_nonneg j, Int.ofNat_lt.mpr hj⟩
  · rintro ⟨h0, hn⟩
    refine ⟨i.toNat, List.mem_range.mpr (by omega), ?_⟩
    exact Int.toNat_of_nonneg h0

theorem length_ids (n : ℕ) : (ids n).length = n := by simp [ids]

/-- A view is led by the replica with its number exactly if it is one of the first. -/
theorem view_eq_iff {n : ℕ} {view i : ℤ} (hi : i ∈ ids n) (hview : 0 ≤ view) (hl : view.tmod n = i) :
    view = i ↔ view < n := by
  rw [mem_ids] at hi
  constructor
  · intro h
    omega
  · intro h
    rw [Int.tmod_eq_of_lt hview h] at hl
    exact hl

theorem Msg.SpeaksFor.checks_iff {n : ℕ} {i : ℤ} (hi : i ∈ ids n) {msg : Msg} (h : msg.SpeaksFor n i) :
    msg.checkMessageSender i = true ↔ msg.Credible n i := by
  cases msg with
  | request arg => simp [Msg.checkMessageSender, Msg.Credible]
  | prePrepare arg => simpa [Msg.checkMessageSender, Msg.Credible] using view_eq_iff hi h.1 h.2
  | newView arg => simpa [Msg.checkMessageSender, Msg.Credible] using view_eq_iff hi h.1 h.2
  | prepare arg => simpa [Msg.checkMessageSender, Msg.Credible, Msg.SpeaksFor] using h
  | commit arg => simpa [Msg.checkMessageSender, Msg.Credible, Msg.SpeaksFor] using h
  | checkPoint arg => simpa [Msg.checkMessageSender, Msg.Credible, Msg.SpeaksFor] using h
  | viewChange arg => simpa [Msg.checkMessageSender, Msg.Credible, Msg.SpeaksFor] using h
  | response arg => simpa [Msg.checkMessageSender, Msg.Credible, Msg.SpeaksFor] using h

/-- Of the messages that a replica sends, whatever it has received, the check lets through exactly the credible
ones; it lets through all requests of a client; and whoever gets a preprepare or a new view message through
the check leads its view. -/
theorem checkMessageSender_iff (env : Env A) (ext : A → A → Prop) (n : ℕ) (i : ℤ) (hi : i ∈ ids n) :
    (∀ (f : ℕ) (initSeq : ℤ) (as : A) (l : List Input) (s : Server A),
      History env ext (fun s _ a => s.offers a) (Server.new env i f initSeq (ids n) as) l s →
        ∀ msg, s.Sent msg → (msg.checkMessageSender i = true ↔ msg.Credible n i)) ∧
    (∀ (f : ℕ) (l : List ClientInput) (c : Client),
      Runs (fun c a c' => c.step a = .ok c') (Client.new i f (ids n)) l c →
        ∀ req target, (req, target) ∈ c.sent → (Msg.request req).checkMessageSender i = true) ∧
    ∀ msg : Msg, msg.checkMessageSender i = true → msg.LedBy n i := by
  refine ⟨?_, ?_, ?_⟩
  · intro f initSeq as l s h msg hm
    have hinv : s.WF ∧ s.id = i ∧ s.replicas = ids n ∧ s.SpeaksOwn := by
      refine h.invariant_of_moves (fun s => s.id = i ∧ s.replicas = ids n ∧ s.SpeaksOwn) (WF.new ..)
        ⟨rfl, rfl, .new ..⟩ ?_ ?_
      · rintro s s' hs ⟨hid, hreplicas, hown⟩ hmove
        exact ⟨hmove.fixed.1.trans hid, hmove.fixed.2.1.trans hreplicas, hown.move hs hmove⟩
      · rintro s as ⟨hid, hreplicas, hown⟩
        exact ⟨hid, hreplicas, hown.of_sent rfl rfl le_rfl hown.responses hown.background fun _ hm => .inl hm⟩
    obtain ⟨-, hid, hreplicas, hown⟩ := hinv
    have hspeaks := hown.sent msg hm
    rw [hid, hreplicas, length_ids] at hspeaks
    exact hspeaks.checks_iff hi
  · intro f l c h req target hm
    have hown : Client.SpeaksOwn i c := by
      refine Runs.invariant (fun _ => Client.SpeaksOwn i) (Client.SpeaksOwn.new ..) ?_ h
      intro l c a c' hc hs
      exact hc.step hs
    simpa [Msg.checkMessageSender] using hown.sent req target hm
  · intro msg hcheck
    have hled : i.tmod n = i := Int.tmod_eq_of_lt (mem_ids.mp hi).1 (mem_ids.mp hi).2
    cases msg with
    | prePrepare arg =>
      have hview : arg.view = i := by simpa [Msg.checkMessageSender] using hcheck
      rw [← hview] at hled
      exact hled.trans hview
    | newView arg =>
      have hview : arg.view = i := by simpa [Msg.checkMessageSender] using hcheck
      rw [← hview] at hled
      exact hled.trans hview
    | _ => trivial

/-- The request of client 1 as it reaches server `dst`. -/
def requestTo (dst : ℤ) : Action := ⟨.client, dst, .message (.request { op := "a", id := 1 })⟩

/-- The view change of a replica that has waited four times for view 0. -/
def changeTo4 (i : ℤ) : ViewChangeArgs where
  view := 4
  cp := some { seq := -1, digest := "#", rid := i, view := 0 }
  p := []
  rid := i

def newView4 : NewViewArgs := { view := 4, v := [1, 2, 3].map changeTo4, o := [] }

/-- A client asks three followers, each of which waits for four timers, and server 0 hears of it. -/
def waitForView4 : List Action :=
  [1, 2, 3].map requestTo ++ [1, 1, 1, 1, 2, 2, 2, 2, 3, 3, 3, 3].map (fun i => ⟨.server i, i, .timer⟩) ++
    [1, 2, 3].map fun i => ⟨.server i, 0, .message (.viewChange (changeTo4 i))⟩

/-- With four replicas that all run the server, the leader of view 4 announces it in a message that does not pass,
and the request that server 2 relays does not pass either. -/
theorem newView4_rejected :
    (((World.new Env.plain 4 1 (fun _ => 0) fun _ => ()).play Env.plain ∅ waitForView4).map fun w =>
      decide ((w.servers 0).Sent (.newView newView4)) &&
        decide ((w.servers 2).Sent (.request { op := "a", id := 1 }))) = some true ∧
      (Msg.newView newView4).checkMessageSender 0 = false ∧
      (Msg.request { op := "a", id := 1 }).checkMessageSender 2 = false := by
  refine ⟨?_, ?_, ?_⟩ <;> decide +kernel

theorem checkMessageSender_iff_newView4 :
    (Msg.newView newView4).checkMessageSender 0 = true ↔ (Msg.newView newView4).Credible 4 0 := by
  have h : History Env.plain Eq (fun s _ a => s.offers a) (Server.new Env.plain 0 1 0 (ids 4) ())
      ([3, 2, 1].map fun i => .message (.viewChange (changeTo4 i))) _ :=
    history_reacts _ _ (by decide +kernel)
  exact (checkMessageSender_iff Env.plain Eq 4 0 (by decide)).1 1 0 () _ _ h _ (by decide +kernel)

end DistributedNotary.Pbft
