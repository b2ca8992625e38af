import DistributedNotary.Service.Gaps

/-! A preprepare message between the protocol and the service. The service is asked
before the protocol looks at the view, the bounds and the entry of the message, so
that a message which the protocol rejects may have left its trace in the tables;
and a service that refuses to mark an output twice keeps the protocol from
answering a message that comes again. -/
namespace DistributedNotary.Service

open Library Btc Pbft Server PBFTService

section Marks

variable {db : OutpointTable} {view : ℤ} {txs : List String}

theorem reserve_of_inert (h : ∀ tx ∈ txs, Inert db view tx) : reserve db view txs = (db, .ok ()) := by
  induction txs with
  | nil => rfl
  | cons tx txs ih =>
    obtain ⟨⟨rfl, o, ho, hstatus, hview⟩, hrest⟩ := List.forall_mem_cons.mp h
    have hav : o.availableTo 0 = true := by simp [BTCOutpoint.availableTo, hstatus, hview]
    unfold PBFTService.reserve
    rw [OutpointTable.preSelectUTXO_of_available 0 ho hav]
    simp only [mark_inert (OutpointTable.mem_of_getBTCOutpoint ho) hstatus]
    exact ih hrest

theorem reserve_eq_self_iff : (reserve db view txs).1 = db ↔ Untouched db view txs := by
  refine ⟨fun h => sameAvailability_reserve_iff.mp ?_, reserve_of_untouched⟩
  rw [h]
  exact fun _ _ => rfl

/-- Where nothing is written, and not because the marks change nothing, an output is refused. -/
theorem reserve_error_of_untouched (h : Untouched db view txs) (hinert : ¬ ∀ tx ∈ txs, Inert db view tx) :
    ∃ err, (reserve db view txs).2 = .error err := by
  induction txs with
  | nil => exact absurd (by simp) hinert
  | cons tx txs ih =>
    unfold PBFTService.reserve
    cases hpre : db.preSelectUTXO tx view with
    | error err => exact ⟨err, rfl⟩
    | ok db' =>
      obtain ⟨o, ho, hav, rfl⟩ := OutpointTable.preSelectUTXO_ok hpre
      rcases h with hr | ⟨htx, hrest⟩
      · simp [hr o ho] at hav
      · have hmark : db.mark o.txHashStr view .preSelect "" = db := by
          obtain ⟨rfl, o', ho', hstatus, -⟩ := htx
          obtain rfl : o' = o := Option.some.inj (ho'.symm.trans ho)
          exact mark_inert (OutpointTable.mem_of_getBTCOutpoint ho) hstatus
        simp only [hmark]
        exact ih hrest fun hall => hinert (List.forall_mem_cons.mpr ⟨htx, hall⟩)

end Marks

section Rejection

variable {A : Type}

/-- The message is about another view, beyond the bounds, or against the one that was accepted for its number. -/
def Rejected (s : Server A) (args : PrePrepareArgs) : Prop :=
  args.view ≠ s.view ∨ ¬ (s.h ≤ args.seq ∧ args.seq < s.H) ∨
    ∃ r pp, s.log.lookup ⟨args.view, args.seq⟩ = some r ∧ (s.heap r).pp = some pp ∧ pp.digest ≠ args.digest

/-- The message leaves the timer and the monitor, the log and the service as they were. -/
def Unaffected (env : Env A) (s : Server A) (args : PrePrepareArgs) : Prop :=
  ∃ s', s.prePrepare env args = .ok s' ∧ (s'.change = s.change ∧ s'.armed = s.armed) ∧
    (s'.monitor = s.monitor ∧ s'.myViewChangeCount = s.myViewChangeCount) ∧ (s'.log = s.log ∧ s'.heap = s.heap) ∧
    s'.as = s.as

/-- There is no timer to stop. -/
def Idle (s : Server A) : Prop := s.change = false ∧ s.monitor = false ∧ s.myViewChangeCount = 0

variable {env : Env A} {s : Server A} {args : PrePrepareArgs} {as : A}

/-- Once the service has agreed the protocol stops its timer, and rejects the message. -/
theorem acceptPrePrepare_rejected (h : Rejected s args) : s.acceptPrePrepare env args = .ok s.stopTimer := by
  unfold acceptPrePrepare
  by_cases hwindow : s.inWindow args.view args.seq = true
  · have hstop : s.stopTimer.inWindow args.view args.seq = true := hwindow
    rw [inWindow, decide_eq_true_eq] at hwindow
    obtain ⟨r, pp, hr, hpp, hdigest⟩ : ∃ r pp, s.log.lookup ⟨args.view, args.seq⟩ = some r ∧
        (s.heap r).pp = some pp ∧ pp.digest ≠ args.digest := by
      rcases h with h | h | h
      · exact absurd hwindow.1.symm h
      · exact absurd hwindow.2 h
      · exact h
    have hentry : s.stopTimer.getEntry ⟨args.view, args.seq⟩ = (s.stopTimer, r) := by
      have hr' : s.stopTimer.log.lookup ⟨args.view, args.seq⟩ = some r := hr
      simp only [getEntry, hr']
    have haccepts : accepts (s.stopTimer.heap r) args = false := by
      change accepts (s.heap r) args = false
      simp [accepts, hpp, hdigest]
    simp only [if_pos hstop, hentry, prePrepareEntry, haccepts]
    rfl
  · have hstop : ¬ s.stopTimer.inWindow args.view args.seq = true := hwindow
    simp only [if_neg hstop]

theorem unaffected_of_changing (h : s.changing = true) : Unaffected env s args := by
  refine ⟨s, ?_, ⟨rfl, rfl⟩, ⟨rfl, rfl⟩, ⟨rfl, rfl⟩, rfl⟩
  rw [prePrepare, if_pos h]

/-- The service refuses the message. -/
theorem unaffected_iff_of_error (hchanging : s.changing = false) {text : String}
    (hprepare : env.as.prepareSeq s.as args.view args.seq args.message.op args.digest = (as, .error (.error text))) :
    Unaffected env s args ↔ as = s.as := by
  have hresult : s.prePrepare env args = .ok { s with as := as } := by
    rw [prePrepare, if_neg (by simp [hchanging]), hprepare]
  unfold Unaffected
  rw [hresult]
  simp

/-- The service agrees to a message that the protocol rejects. -/
theorem unaffected_iff_of_ok (h : Rejected s args) (hchanging : s.changing = false)
    (hprepare : env.as.prepareSeq s.as args.view args.seq args.message.op args.digest = (as, .ok ())) :
    Unaffected env s args ↔ as = s.as ∧ Idle s := by
  have hresult : s.prePrepare env args = .ok { s with as := as }.stopTimer := by
    rw [prePrepare, if_neg (by simp [hchanging]), hprepare]
    exact acceptPrePrepare_rejected h
  constructor
  · rintro ⟨s', hs', ⟨hchange, -⟩, ⟨hmonitor, hcount⟩, -, has⟩
    obtain rfl := Except.ok.inj (hresult.symm.trans hs')
    exact ⟨has, hchange.symm, hmonitor.symm, hcount.symm⟩
  · rintro ⟨has, hchange, hmonitor, hcount⟩
    exact ⟨_, hresult, ⟨hchange.symm, rfl⟩, ⟨hmonitor.symm, hcount.symm⟩, ⟨rfl, rfl⟩, has⟩

end Rejection

section Tables

variable {ps : PBFTService} {asc : AmountAsc} {desc : AmountDesc} {env : Env AuxiliaryDB} {s : Server AuxiliaryDB}
  {args : PrePrepareArgs}

theorem unaffected_ethereum_iff (h : Rejected s args) :
    Unaffected { env with as := ps.ethereum } s args ↔ s.changing = true ∨
      ∃ n, s.as.opNonces.lookup (ps.opKey args.message.op args.view) = some n ∧ (n ≠ args.seq ∨ Idle s) := by
  by_cases hchanging : s.changing = true
  · exact iff_of_true (unaffected_of_changing hchanging) (.inl hchanging)
  rw [or_iff_right hchanging]
  rw [Bool.not_eq_true] at hchanging
  cases hlookup : s.as.opNonces.lookup (ps.opKey args.message.op args.view) with
  | none =>
    have hprepare : ps.ethereum.prepareSeq s.as args.view args.seq args.message.op args.digest = _ :=
      newNonceForOp_of_none hlookup
    rw [unaffected_iff_of_ok h hchanging hprepare]
    refine ⟨fun hsame => ?_, fun ⟨n, hn, _⟩ => by cases hn⟩
    have hkey := congrArg (fun a => a.opNonces.lookup (ps.opKey args.message.op args.view)) hsame.1
    rw [hlookup] at hkey
    exact absurd ((AList.lookup_insert _).symm.trans hkey) (by simp)
  | some n =>
    have hprepare : ps.newNonceForOp s.as args.view args.seq args.message.op = _ := newNonceForOp_of_some hlookup
    by_cases hn : n = args.seq
    · rw [if_neg (not_not_intro hn)] at hprepare
      rw [unaffected_iff_of_ok h hchanging hprepare]
      simp [hn]
    · rw [if_pos hn] at hprepare
      rw [unaffected_iff_of_error hchanging hprepare]
      simp [hn]

theorem outputsOf_empty : outputsOf "" = [] := by decide

theorem btcPrepareSeq_self {a : AuxiliaryDB} {view : ℤ} (auxiliary : String) (h : ps.selfID = view) :
    ps.btcPrepareSeq a view auxiliary = (a, .ok ()) := by
  rw [btcPrepareSeq, if_pos h]

theorem btcPrepareSeq_of_nil {a : AuxiliaryDB} {view : ℤ} {auxiliary : String} (h : ps.selfID ≠ view)
    (hnil : outputsOf auxiliary = []) : ∃ text, ps.btcPrepareSeq a view auxiliary = (a, .error (.error text)) := by
  rw [btcPrepareSeq, if_neg h]
  by_cases hempty : auxiliary = ""
  · exact ⟨_, if_pos hempty⟩
  · exact ⟨_, (if_neg hempty).trans (if_pos hnil)⟩

theorem btcPrepareSeq_of_ne_nil {a : AuxiliaryDB} {view : ℤ} {auxiliary : String} (h : ps.selfID ≠ view)
    (hne : outputsOf auxiliary ≠ []) :
    ps.btcPrepareSeq a view auxiliary =
      ({ a with outpoints := (reserve a.outpoints view (outputsOf auxiliary)).1 },
        liftError (reserve a.outpoints view (outputsOf auxiliary)).2) := by
  have hempty : auxiliary ≠ "" := by
    rintro rfl
    exact hne outputsOf_empty
  rw [btcPrepareSeq, if_neg h, if_neg hempty, if_neg hne]

/-- The outpoints are all that the service writes. -/
theorem outpoints_eq_self_iff {a : AuxiliaryDB} {db : OutpointTable} :
    { a with outpoints := db } = a ↔ db = a.outpoints := by
  constructor
  · intro h
    exact congrArg AuxiliaryDB.outpoints h
  · rintro rfl
    rfl

theorem unaffected_bitcoin_iff (h : Rejected s args) :
    Unaffected { env with as := ps.bitcoin asc desc } s args ↔ s.changing = true ∨
      if ps.selfID = args.view then Idle s
      else Untouched s.as.outpoints args.view (outputsOf args.digest) ∧
        (outputsOf args.digest = [] ∨ (∃ tx ∈ outputsOf args.digest, ¬ Inert s.as.outpoints args.view tx) ∨
          Idle s) := by
  by_cases hchanging : s.changing = true
  · exact iff_of_true (unaffected_of_changing hchanging) (.inl hchanging)
  rw [or_iff_right hchanging]
  rw [Bool.not_eq_true] at hchanging
  by_cases hself : ps.selfID = args.view
  · rw [if_pos hself, unaffected_iff_of_ok h hchanging (btcPrepareSeq_self args.digest hself)]
    exact and_iff_right rfl
  rw [if_neg hself]
  by_cases hnil : outputsOf args.digest = []
  · obtain ⟨text, hprepare⟩ := btcPrepareSeq_of_nil (a := s.as) hself hnil
    rw [unaffected_iff_of_error hchanging hprepare, hnil]
    exact iff_of_true rfl ⟨trivial, .inl rfl⟩
  have hprepare : (ps.bitcoin asc desc).prepareSeq s.as args.view args.seq args.message.op args.digest = _ :=
    btcPrepareSeq_of_ne_nil hself hnil
  rw [or_iff_right hnil]
  cases hres : (reserve s.as.outpoints args.view (outputsOf args.digest)).2 with
  | error err =>
    rw [hres] at hprepare
    rw [unaffected_iff_of_error hchanging hprepare, outpoints_eq_self_iff, reserve_eq_self_iff]
    refine ⟨fun hu => ⟨hu, .inl ?_⟩, fun hu => hu.1⟩
    by_contra hall
    push Not at hall
    rw [reserve_of_inert hall] at hres
    cases hres
  | ok =>
    rw [hres] at hprepare
    rw [unaffected_iff_of_ok h hchanging hprepare, outpoints_eq_self_iff, reserve_eq_self_iff]
    refine and_congr_right fun hu => (or_iff_right ?_).symm
    rintro ⟨tx, htx, hnot⟩
    obtain ⟨err, herr⟩ := reserve_error_of_untouched hu fun hall => hnot (hall tx htx)
    rw [herr] at hres
    cases hres

/-- A rejected message leaves nothing behind exactly in the following cases. A server that waits for a new view
drops it. With the service of an account with nonces, the operation has a number in the view, either another one,
which stops the message, or the same one while there is no timer to stop. With the service of a Bitcoin account, the
message is the own one and there is no timer to stop; or no output gets a mark, and an output was refused, or there is
none, or no timer to stop. -/
theorem rejected_unaffected_iff (env : Env AuxiliaryDB) (ps : PBFTService) (asc : AmountAsc) (desc : AmountDesc)
    (s : Server AuxiliaryDB) (args : PrePrepareArgs) (h : Rejected s args) :
    (Unaffected { env with as := ps.ethereum } s args ↔ s.changing = true ∨
      ∃ n, s.as.opNonces.lookup (ps.opKey args.message.op args.view) = some n ∧ (n ≠ args.seq ∨ Idle s)) ∧
    (Unaffected { env with as := ps.bitcoin asc desc } s args ↔ s.changing = true ∨
      if ps.selfID = args.view then Idle s
      else Untouched s.as.outpoints args.view (outputsOf args.digest) ∧
        (outputsOf args.digest = [] ∨ (∃ tx ∈ outputsOf args.digest, ¬ Inert s.as.outpoints args.view tx) ∨ Idle s)) :=
  ⟨unaffected_ethereum_iff h, unaffected_bitcoin_iff h⟩

/-- Notary 2 of four, which has relayed a request and watches the leader of view 0. -/
def env2 : Env AuxiliaryDB where
  as := service1.ethereum
  digest op := op
  digestStates _ := ""
  digest2 d1 d2 := d1 ++ d2

def service2 : PBFTService := { service1 with selfID := 2 }

def server2 : Server AuxiliaryDB :=
  (Server.new env2 2 1 0 [0, 1, 2, 3] tables1).handleRequestFollower { op := "bitcoin-a-1" }

/-- A message of the leader of view 1. -/
def early2 : PrePrepareArgs := { view := 1, seq := 0, digest := "d-1", message := { op := "bitcoin-a-1" } }

theorem early2_rejected : Rejected server2 early2 := .inl (by decide)

/-- The number of the operation is recorded in the one table, and the output is marked in the other. -/
theorem rejected_affected :
    Rejected server2 early2 ∧ ¬ Unaffected { env2 with as := service2.ethereum } server2 early2 ∧
      ¬ Unaffected { env2 with as := service2.bitcoin .stable .stable } server2 early2 := by
  refine ⟨early2_rejected, ?_, ?_⟩
  · rintro ⟨s', hs', -, -, -, has⟩
    have hrun : (server2.prePrepare { env2 with as := service2.ethereum } early2).toOption.map
        (fun s => s.as.opNonces.lookup "bitcoin-a-1bitcoin1") = some (some 0) := by decide +kernel
    rw [hs'] at hrun
    have hkey : server2.as.opNonces.lookup "bitcoin-a-1bitcoin1" = some 0 := has ▸ Option.some.inj hrun
    exact absurd hkey (by decide +kernel)
  · rintro ⟨s', hs', -, -, -, has⟩
    have hrun : (server2.prePrepare { env2 with as := service2.bitcoin .stable .stable } early2).toOption.map
        (fun s => (s.as.outpoints.lookup "1").map BTCOutpoint.view) = some (some 1) := by decide +kernel
    rw [hs'] at hrun
    have hview : (server2.as.outpoints.lookup "1").map BTCOutpoint.view = some 1 := has ▸ Option.some.inj hrun
    exact absurd hview (by decide +kernel)

theorem rejected_unaffected_iff_early2 :
    Unaffected { env2 with as := service2.ethereum } server2 early2 ↔ server2.changing = true ∨
      ∃ n, server2.as.opNonces.lookup (service2.opKey early2.message.op early2.view) = some n ∧
        (n ≠ early2.seq ∨ Idle server2) :=
  (rejected_unaffected_iff env2 service2 .stable .stable server2 early2 early2_rejected).1

end Tables

end DistributedNotary.Service
