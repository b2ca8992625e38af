import DistributedNotary.Pbft.Quorums
import DistributedNotary.Service.Proposals

/-! A preprepare message that comes again, as the leader sends it to those whose
answer was lost. The protocol recognizes it by its number and its digest and sends
its prepare message once more, which adds nothing to the votes; but before that
the service has to agree again, and what it agrees to once it may refuse the
second time. -/
namespace DistributedNotary.Service

open Library Btc Pbft Server PBFTService

section Again

variable {A : Type}

/-- A follower has accepted the message in its view as the entry `r`, and it is still inside the window. -/
structure Accepted (s : Server A) (p : PrePrepareArgs) (r : ℕ) : Prop where
  follower : s.isLeader = false
  window : s.inWindow p.view p.seq = true
  entry : s.log.lookup ⟨p.view, p.seq⟩ = some r
  pp : ∃ pp, (s.heap r).pp = some pp ∧ pp.Agrees p
  vote : s.prepareFor p ∈ (s.heap r).p

/-- No prepare message can make the entry send its commit message: it has done so, or it is not prepared. -/
def Quiet (s : Server A) (r : ℕ) : Prop := (s.heap r).sendCommit = true ∨ s.prepared (s.heap r) = false

/-- The message comes `k` times. -/
def repeated (env : Env A) (p : PrePrepareArgs) : ℕ → Server A → Run A (Server A)
  | 0, s => .ok s
  | k + 1, s => s.prePrepare env p >>= repeated env p k

/-- What `k` more messages do: the prepare message is sent each time, and the votes of the entry and the tables of
the service are the same. -/
structure Resends (s s' : Server A) (p : PrePrepareArgs) (r k : ℕ) : Prop where
  id : s'.id = s.id
  trace : s'.trace = List.replicate k (.send (.prepare (s.prepareFor p))) ++ s.trace
  entry : s'.log.lookup ⟨p.view, p.seq⟩ = some r
  p : ∀ vote, vote ∈ (s'.heap r).p ↔ vote ∈ (s.heap r).p
  c : ∀ vote, vote ∈ (s'.heap r).c ↔ vote ∈ (s.heap r).c
  as : s'.as = s.as

def Idempotent (env : Env A) (s : Server A) (p : PrePrepareArgs) (r : ℕ) : Prop :=
  ∀ k, ∃ s', repeated env p k s = .ok s' ∧ Resends s s' p r k

/-- The server after the message has come again. -/
def again (s : Server A) (p : PrePrepareArgs) (r : ℕ) : Server A :=
  (s.stopTimer.setEntry r { s.heap r with pp := some p, p := (s.heap r).p ++ [s.prepareFor p] }).send
    (.prepare (s.prepareFor p))

variable {env : Env A} {s : Server A} {p : PrePrepareArgs} {r : ℕ} {as : A}

@[simp] theorem again_heap : (again s p r).heap r =
    { s.heap r with pp := some p, p := (s.heap r).p ++ [s.prepareFor p] } := by
  simp [again]

theorem Accepted.of_as (h : Accepted s p r) (as : A) : Accepted { s with as := as } p r :=
  ⟨h.follower, h.window, h.entry, h.pp, h.vote⟩

theorem Accepted.again (h : Accepted s p r) : Accepted (again s p r) p r where
  follower := h.follower
  window := h.window
  entry := h.entry
  pp := ⟨p, by rw [again_heap], rfl, rfl, rfl⟩
  vote := by
    rw [again_heap]
    exact List.mem_append_left _ h.vote

/-- The own vote that is there already completes nothing. -/
theorem prepared_again (h : Accepted s p r) :
    (again s p r).prepared ((again s p r).heap r) = s.prepared (s.heap r) := by
  obtain ⟨pp, hpp, hview, hseq, hdigest⟩ := h.pp
  have hsenders : ((again s p r).heap r).prepareSenders = (s.heap r).prepareSenders := by
    rw [again_heap]
    simp only [Entry.prepareSenders, hpp, hview, hseq, hdigest]
    ext rid
    simp only [List.mem_toFinset, List.mem_map, List.mem_filter, List.mem_append, List.mem_singleton]
    constructor
    · rintro ⟨vote, ⟨hvote | rfl, hmatch⟩, rfl⟩
      · exact ⟨vote, ⟨hvote, hmatch⟩, rfl⟩
      · exact ⟨_, ⟨h.vote, hmatch⟩, rfl⟩
    · rintro ⟨vote, ⟨hvote, hmatch⟩, rfl⟩
      exact ⟨vote, ⟨.inl hvote, hmatch⟩, rfl⟩
  rw [Bool.eq_iff_iff, Server.prepared_iff, Server.prepared_iff, hsenders]
  rfl

theorem Quiet.again (h : Accepted s p r) (hq : Quiet s r) : Quiet (again s p r) r := by
  unfold Quiet
  rw [prepared_again h, again_heap]
  exact hq

theorem resends_again (h : Accepted s p r) : Resends s (again s p r) p r 1 where
  id := rfl
  trace := rfl
  entry := h.entry
  p vote := by
    rw [again_heap]
    refine ⟨fun hv => ?_, fun hv => List.mem_append_left _ hv⟩
    rcases List.mem_append.mp hv with hv | hv
    · exact hv
    · exact List.mem_singleton.mp hv ▸ h.vote
  c vote := by rw [again_heap]
  as := rfl

/-- What the protocol does once the service has agreed again. -/
theorem acceptPrePrepare_again (h : Accepted s p r) (hc : s.changing = false) :
    s.acceptPrePrepare env p =
      if ¬ (s.heap r).sendCommit ∧ s.prepared (s.heap r) then (again s p r).sendCommit env (s.prepareFor p) r p
      else .ok (again s p r) := by
  obtain ⟨pp, hpp, hview, hseq, hdigest⟩ := h.pp
  let ent : Entry := { s.heap r with pp := some p }
  let s₁ := (s.stopTimer.setEntry r ent).send (.prepare (s.prepareFor p))
  have hentry : ∀ s' : Server A, s'.log = s.log → s'.getEntry ⟨p.view, p.seq⟩ = (s', r) := by
    intro s' hlog
    unfold getEntry
    rw [hlog, h.entry]
  have haccepts : accepts (s.stopTimer.heap r) p = true := by
    change accepts (s.heap r) p = true
    simp [accepts, hpp, hdigest, hseq]
  have hwindow : ∀ s' : Server A, s'.view = s.view → s'.h = s.h → s'.H = s.H → s'.inWindow p.view p.seq = true := by
    intro s' h1 h2 h3
    rw [inWindow, h1, h2, h3]
    exact h.window
  have hprepare : s.acceptPrePrepare env p = s₁.prepare env (s.prepareFor p) := by
    unfold acceptPrePrepare
    simp only [if_pos (hwindow s.stopTimer rfl rfl rfl), hentry s.stopTimer rfl, prePrepareEntry, if_pos haccepts]
    rfl
  have hprepareEntry : s₁.prepare env (s.prepareFor p) = s₁.stopTimer.prepareEntry env (s.prepareFor p) r := by
    unfold prepare
    rw [if_neg (by simp [s₁, hc])]
    simp only [prepareFor, if_pos (hwindow s₁.stopTimer rfl rfl rfl), hentry s₁.stopTimer rfl]
  have hheap : s₁.stopTimer.heap r = ent := by simp [s₁]
  have hset : s₁.stopTimer.setEntry r { ent with p := ent.p ++ [s.prepareFor p] } = again s p r := by
    simp [s₁, ent, again]
  rw [hprepare, hprepareEntry, prepareEntry, hheap]
  have hmatches : matchesPP ent (s.prepareFor p).digest = true := by simp [matchesPP, ent, prepareFor]
  rw [if_pos hmatches]
  simp only [hset]
  have hprepared := prepared_again h
  rw [again_heap] at hprepared
  simp only [ent, hprepared]

theorem Accepted.view (h : Accepted s p r) : s.view = p.view := by
  have hwindow := h.window
  rw [inWindow, decide_eq_true_eq] at hwindow
  exact hwindow.1

/-- A commit message that the service lets out is sent at once. -/
theorem sendCommit_trace (h : Accepted s p r) (hc : s.changing = false) (hpp : (s.heap r).pp = some p)
    (hsend : (s.heap r).sendCommit = false)
    (hcommit : env.as.commitSeq s.as p.view p.seq p.message.op p.digest = (as, .ok ())) :
    ∃ s', s.sendCommit env (s.prepareFor p) r p = .ok s' ∧ s'.trace = .send (.commit (s.commitFor p)) :: s.trace := by
  let s₁ := { s with as := as, seqmap := AList.insert p.message.op p.seq s.seqmap }.send (.commit (s.commitFor p))
  have hown : s₁.commit env (s.commitFor p) = .ok (s₁.stopTimer.setEntry r
      { s.heap r with c := (s.heap r).c ++ [s.commitFor p] }) := by
    refine commit_of_not_sendCommit (s := s₁) hc h.window h.entry ?_ hsend
    change matchesPP (s.heap r) p.digest = true
    simp [matchesPP, hpp]
  refine ⟨(s₁.stopTimer.setEntry r { s.heap r with c := (s.heap r).c ++ [s.commitFor p] }).setEntry r
    { s.heap r with c := (s.heap r).c ++ [s.commitFor p], sendCommit := true }, ?_, rfl⟩
  rw [← h.view] at hcommit
  unfold sendCommit
  rw [hcommit]
  change (s₁.commit env (s.commitFor p) >>= fun s => _) = _
  rw [hown]
  simp [Bind.bind, Except.bind]

theorem prePrepare_of_ok (hc : s.changing = false)
    (hprepare : env.as.prepareSeq s.as p.view p.seq p.message.op p.digest = (as, .ok ())) :
    s.prePrepare env p = { s with as := as }.acceptPrePrepare env p := by
  rw [prePrepare, if_neg (by simp [hc]), hprepare]

theorem not_quiet_iff : ¬ Quiet s r ↔ ¬ (s.heap r).sendCommit = true ∧ s.prepared (s.heap r) = true := by
  simp [Quiet, not_or]

/-- One message more, where nothing is left to be committed. -/
theorem prePrepare_of_quiet (h : Accepted s p r) (hc : s.changing = false) (hq : Quiet s r)
    (hprepare : env.as.prepareSeq s.as p.view p.seq p.message.op p.digest = (as, .ok ())) :
    s.prePrepare env p = .ok (again { s with as := as } p r) := by
  rw [prePrepare_of_ok hc hprepare, acceptPrePrepare_again (h.of_as as) hc]
  exact if_neg fun hloud => not_quiet_iff.mpr hloud hq

/-- One message more, where the prepared entry has not sent its commit message. -/
theorem prePrepare_of_not_quiet (h : Accepted s p r) (hc : s.changing = false) (hq : ¬ Quiet s r)
    (hprepare : env.as.prepareSeq s.as p.view p.seq p.message.op p.digest = (as, .ok ())) :
    s.prePrepare env p = (again { s with as := as } p r).sendCommit env (s.prepareFor p) r p := by
  rw [prePrepare_of_ok hc hprepare, acceptPrePrepare_again (h.of_as as) hc]
  exact if_pos (not_quiet_iff.mp hq)

theorem Resends.trans {s₁ s₂ : Server A} {k : ℕ} (h₁ : Resends s s₁ p r 1) (h₂ : Resends s₁ s₂ p r k) :
    Resends s s₂ p r (k + 1) where
  id := h₂.id.trans h₁.id
  trace := by
    have hown : s₁.prepareFor p = s.prepareFor p := by rw [prepareFor, h₁.id, prepareFor]
    rw [h₂.trace, h₁.trace, hown, ← List.append_assoc, List.replicate_append_replicate]
  entry := h₂.entry
  p vote := (h₂.p vote).trans (h₁.p vote)
  c vote := (h₂.c vote).trans (h₁.c vote)
  as := h₂.as.trans h₁.as

/-- What one message keeps up, any number of them does. -/
theorem idempotent_of_step (I : Server A → Prop) (hentry : ∀ s, I s → s.log.lookup ⟨p.view, p.seq⟩ = some r)
    (hstep : ∀ s, I s → ∃ s', s.prePrepare env p = .ok s' ∧ I s' ∧ Resends s s' p r 1) (hs : I s) :
    Idempotent env s p r := by
  intro k
  induction k generalizing s with
  | zero => exact ⟨s, rfl, rfl, rfl, hentry s hs, fun _ => Iff.rfl, fun _ => Iff.rfl, rfl⟩
  | succ k ih =>
    obtain ⟨s₁, hrun, hs₁, hresends⟩ := hstep s hs
    obtain ⟨s₂, hrun', hresends'⟩ := ih hs₁
    refine ⟨s₂, ?_, hresends.trans hresends'⟩
    rw [repeated, hrun]
    exact hrun'

/-- Where the service agrees without a change, and there is nothing to commit. -/
theorem idempotent_of_quiet (h : Accepted s p r) (hc : s.changing = false) (hq : Quiet s r)
    (hprepare : env.as.prepareSeq s.as p.view p.seq p.message.op p.digest = (s.as, .ok ())) : Idempotent env s p r := by
  refine idempotent_of_step (fun s' => Accepted s' p r ∧ s'.changing = false ∧ Quiet s' r ∧ s'.as = s.as)
    (fun s' hs' => hs'.1.entry) ?_ ⟨h, hc, hq, rfl⟩
  rintro s' ⟨h', hc', hq', has⟩
  rw [← has] at hprepare
  exact ⟨Service.again s' p r, prePrepare_of_quiet h' hc' hq' hprepare, ⟨h'.again, hc', hq'.again h', has⟩,
    resends_again h'⟩

/-- What the first repetition shows. -/
theorem Idempotent.once (h : Idempotent env s p r) : ∃ s', s.prePrepare env p = .ok s' ∧ Resends s s' p r 1 := by
  obtain ⟨s', hrun, hresends⟩ := h 1
  obtain ⟨s₁, hs₁, hrun⟩ := bind_eq_ok.mp hrun
  obtain rfl := Except.ok.inj hrun
  exact ⟨s₁, hs₁, hresends⟩

theorem Idempotent.not_changing (h : Idempotent env s p r) : s.changing = false := by
  by_contra hc
  rw [Bool.not_eq_false] at hc
  obtain ⟨s', hs', hresends⟩ := h.once
  rw [prePrepare, if_pos hc] at hs'
  obtain rfl := Except.ok.inj hs'
  simpa using hresends.trace

/-- The service does not refuse. -/
theorem Idempotent.not_error (h : Idempotent env s p r) (text : String) :
    env.as.prepareSeq s.as p.view p.seq p.message.op p.digest ≠ (as, .error (.error text)) := by
  intro hprepare
  obtain ⟨s', hs', hresends⟩ := h.once
  rw [prePrepare, if_neg (by simp [h.not_changing]), hprepare] at hs'
  obtain rfl := Except.ok.inj hs'
  simpa using hresends.trace

/-- If there is something to commit the service does not let it out. -/
theorem Idempotent.quiet (h : Idempotent env s p r) (ha : Accepted s p r) {as' : A}
    (hprepare : env.as.prepareSeq s.as p.view p.seq p.message.op p.digest = (as, .ok ()))
    (hcommit : env.as.commitSeq as p.view p.seq p.message.op p.digest = (as', .ok ())) : Quiet s r ∧ as = s.as := by
  have hc := h.not_changing
  obtain ⟨s', hs', hresends⟩ := h.once
  by_cases hq : Quiet s r
  · rw [prePrepare_of_quiet ha hc hq hprepare] at hs'
    obtain rfl := Except.ok.inj hs'
    exact ⟨hq, hresends.as⟩
  · rw [prePrepare_of_not_quiet ha hc hq hprepare] at hs'
    have hagain : Accepted (again { s with as := as } p r) p r := (ha.of_as as).again
    have hsend : ((again { s with as := as } p r).heap r).sendCommit = false := by
      rw [again_heap]
      simpa using (not_quiet_iff.mp hq).1
    obtain ⟨s₂, hs₂, htrace⟩ := sendCommit_trace hagain hc (by rw [again_heap]) hsend hcommit
    obtain rfl := Except.ok.inj (hs₂.symm.trans hs')
    have hlen := congrArg List.length (htrace.symm.trans hresends.trace)
    simp [again] at hlen

/-- Where the service agrees without a change and then refuses to commit. -/
theorem idempotent_of_refused (h : Accepted s p r) (hc : s.changing = false) (hq : ¬ Quiet s r) {text : String}
    (hprepare : env.as.prepareSeq s.as p.view p.seq p.message.op p.digest = (s.as, .ok ()))
    (hcommit : env.as.commitSeq s.as p.view p.seq p.message.op p.digest = (s.as, .error (.error text))) :
    Idempotent env s p r := by
  refine idempotent_of_step (fun s' => Accepted s' p r ∧ s'.changing = false ∧ ¬ Quiet s' r ∧ s'.as = s.as)
    (fun s' hs' => hs'.1.entry) ?_ ⟨h, hc, hq, rfl⟩
  rintro s' ⟨h', hc', hq', has⟩
  rw [← has] at hprepare hcommit
  have hagain := h'.again
  have hquiet : ¬ Quiet (Service.again s' p r) r := by
    unfold Quiet
    rw [prepared_again h', again_heap]
    exact hq'
  have hrun : s'.prePrepare env p = .ok (Service.again s' p r).arm := by
    rw [prePrepare_of_not_quiet h' hc' hq' hprepare]
    change (Service.again s' p r).sendCommit env (s'.prepareFor p) r p = _
    unfold sendCommit
    have hcall : env.as.commitSeq (Service.again s' p r).as (Service.again s' p r).view p.seq p.message.op p.digest =
        (s'.as, .error (.error text)) := hagain.view ▸ hcommit
    rw [hcall]
    rfl
  have hresends := resends_again h'
  exact ⟨(Service.again s' p r).arm, hrun,
    ⟨⟨hagain.follower, hagain.window, hagain.entry, hagain.pp, hagain.vote⟩, hc', hquiet, has⟩,
    ⟨hresends.id, hresends.trace, hresends.entry, hresends.p, hresends.c, hresends.as⟩⟩

end Again

section Tables

variable {ps : PBFTService} {asc : AmountAsc} {desc : AmountDesc} {env : Env AuxiliaryDB} {s : Server AuxiliaryDB}
  {p : PrePrepareArgs} {r : ℕ}

/-- An operation that has got its number keeps it. -/
theorem newNonceForOp_self {a : AuxiliaryDB} {view nonce : ℤ} {op : String}
    (h : a.opNonces.lookup (ps.opKey op view) = some nonce) : ps.newNonceForOp a view nonce op = (a, .ok ()) := by
  rw [newNonceForOp_of_some h]
  simp

theorem idempotent_ethereum_iff (h : Accepted s p r) :
    Idempotent { env with as := ps.ethereum } s p r ↔
      s.changing = false ∧ s.as.opNonces.lookup (ps.opKey p.message.op p.view) = some p.seq ∧ Quiet s r := by
  constructor
  · intro hid
    refine ⟨hid.not_changing, ?_⟩
    cases hlookup : s.as.opNonces.lookup (ps.opKey p.message.op p.view) with
    | none =>
      have hprepare : ps.ethereum.prepareSeq s.as p.view p.seq p.message.op p.digest = _ :=
        newNonceForOp_of_none hlookup
      have hsame := (hid.quiet h hprepare (newNonceForOp_self (AList.lookup_insert _))).2
      have hkey := congrArg (fun a => a.opNonces.lookup (ps.opKey p.message.op p.view)) hsame
      rw [hlookup] at hkey
      exact absurd ((AList.lookup_insert _).symm.trans hkey) (by simp)
    | some n =>
      by_cases hn : n = p.seq
      · subst hn
        exact ⟨rfl, (hid.quiet h (newNonceForOp_self hlookup) (newNonceForOp_self hlookup)).1⟩
      · have hprepare : ps.ethereum.prepareSeq s.as p.view p.seq p.message.op p.digest = _ :=
          newNonceForOp_of_some hlookup
        rw [if_pos hn] at hprepare
        exact absurd hprepare (hid.not_error _)
  · rintro ⟨hc, hlookup, hq⟩
    exact idempotent_of_quiet h hc hq (newNonceForOp_self hlookup)

theorem idempotent_bitcoin_iff (h : Accepted s p r) :
    Idempotent { env with as := ps.bitcoin asc desc } s p r ↔
      s.changing = false ∧
      (ps.selfID = p.view ∨
        (outputsOf p.digest ≠ [] ∧ ∀ tx ∈ outputsOf p.digest, Inert s.as.outpoints p.view tx)) ∧
      (Quiet s r ∨ p.digest = "") := by
  have hcommit : ∀ a, p.digest ≠ "" → ∃ a', (ps.bitcoin asc desc).commitSeq a p.view p.seq p.message.op p.digest =
      (a', .ok ()) := fun a hne => ⟨_, if_neg hne⟩
  constructor
  · intro hid
    refine ⟨hid.not_changing, ?_⟩
    by_cases hself : ps.selfID = p.view
    · refine ⟨.inl hself, ?_⟩
      by_cases hempty : p.digest = ""
      · exact .inr hempty
      · obtain ⟨a', ha'⟩ := hcommit s.as hempty
        exact .inl (hid.quiet h (btcPrepareSeq_self p.digest hself) ha').1
    · by_cases hnil : outputsOf p.digest = []
      · obtain ⟨text, hprepare⟩ := btcPrepareSeq_of_nil (a := s.as) hself hnil
        exact absurd hprepare (hid.not_error text)
      · have hempty : p.digest ≠ "" := by
          intro hempty
          rw [hempty] at hnil
          exact hnil outputsOf_empty
        have hprepare : (ps.bitcoin asc desc).prepareSeq s.as p.view p.seq p.message.op p.digest = _ :=
          btcPrepareSeq_of_ne_nil hself hnil
        cases hres : (reserve s.as.outpoints p.view (outputsOf p.digest)).2 with
        | error err =>
          rw [hres] at hprepare
          exact absurd hprepare (hid.not_error _)
        | ok =>
          rw [hres] at hprepare
          obtain ⟨a', ha'⟩ := hcommit
            { s.as with outpoints := (reserve s.as.outpoints p.view (outputsOf p.digest)).1 } hempty
          obtain ⟨hq, hsame⟩ := hid.quiet h hprepare ha'
          refine ⟨.inr ⟨hnil, ?_⟩, .inl hq⟩
          by_contra hinert
          obtain ⟨err, herr⟩ := reserve_error_of_untouched
            (reserve_eq_self_iff.mp (outpoints_eq_self_iff.mp hsame)) hinert
          rw [herr] at hres
          cases hres
  · rintro ⟨hc, hmarks, hq⟩
    have hprepare : (ps.bitcoin asc desc).prepareSeq s.as p.view p.seq p.message.op p.digest = (s.as, .ok ()) := by
      by_cases hself : ps.selfID = p.view
      · exact btcPrepareSeq_self p.digest hself
      · obtain ⟨hne, hinert⟩ := hmarks.resolve_left hself
        refine (btcPrepareSeq_of_ne_nil hself hne).trans ?_
        rw [reserve_of_inert hinert]
        rfl
    by_cases hquiet : Quiet s r
    · exact idempotent_of_quiet h hc hquiet hprepare
    · have hempty := hq.resolve_left hquiet
      have hrefused : (ps.bitcoin asc desc).commitSeq s.as p.view p.seq p.message.op p.digest =
          (s.as, .error (.error "auxiliary is empty")) := if_pos hempty
      exact idempotent_of_refused h hc hquiet hprepare hrefused

/-- An accepted message may come any number of times exactly under these conditions: the server does not wait for a
new view; the number of its operation is recorded, or for Bitcoin the notary has proposed it itself or no mark of its
outputs is written again; and the entry has nothing to commit. -/
theorem retransmission_idempotent_iff (env : Env AuxiliaryDB) (ps : PBFTService) (asc : AmountAsc) (desc : AmountDesc)
    (h : Accepted s p r) :
    (Idempotent { env with as := ps.ethereum } s p r ↔
      s.changing = false ∧ s.as.opNonces.lookup (ps.opKey p.message.op p.view) = some p.seq ∧ Quiet s r) ∧
    (Idempotent { env with as := ps.bitcoin asc desc } s p r ↔
      s.changing = false ∧
      (ps.selfID = p.view ∨
        (outputsOf p.digest ≠ [] ∧ ∀ tx ∈ outputsOf p.digest, Inert s.as.outpoints p.view tx)) ∧
      (Quiet s r ∨ p.digest = "")) :=
  ⟨idempotent_ethereum_iff h, idempotent_bitcoin_iff h⟩

/-- The message of the leader of view 0, which notary 2 accepts with the mark of an output. -/
def first2 : PrePrepareArgs := { view := 0, seq := 0, digest := "d-1", message := { op := "bitcoin-a-1" } }

def accepted2 : Server AuxiliaryDB :=
  after ((Server.new env2 2 1 0 [0, 1, 2, 3] tables1).prePrepare
    { env2 with as := service2.bitcoin .stable .stable } first2)

theorem accepted2_accepted : Accepted accepted2 first2 0 where
  follower := by decide +kernel
  window := by decide +kernel
  entry := by decide +kernel
  pp := ⟨first2, by decide +kernel, rfl, rfl, rfl⟩
  vote := by decide +kernel

theorem retransmission_idempotent_iff_first2 :
    Idempotent { env2 with as := service2.ethereum } accepted2 first2 0 ↔ accepted2.changing = false ∧
      accepted2.as.opNonces.lookup (service2.opKey first2.message.op first2.view) = some first2.seq ∧
        Quiet accepted2 0 :=
  (retransmission_idempotent_iff env2 service2 .stable .stable accepted2_accepted).1

/-- The output is marked already, and the second message is not answered. -/
theorem retransmission_not_idempotent :
    Accepted accepted2 first2 0 ∧
      ¬ Idempotent { env2 with as := service2.bitcoin .stable .stable } accepted2 first2 0 := by
  refine ⟨accepted2_accepted, fun hid => ?_⟩
  obtain ⟨s', hs', hresends⟩ := hid.once
  have hrun : (accepted2.prePrepare { env2 with as := service2.bitcoin .stable .stable } first2).toOption.map
      (fun s => s.trace.length) = some 1 := by decide +kernel
  rw [hs'] at hrun
  have hlen : s'.trace.length = 1 := Option.some.inj hrun
  rw [hresends.trace] at hlen
  exact absurd hlen (by decide +kernel)

end Tables

end DistributedNotary.Service
