import DistributedNotary.Contracts.LockedEthereum
import DistributedNotary.Library.Lifecycle
import DistributedNotary.Library.Totals

/-! The locks of the main chain contract over whole histories: every account's
lockins and lockouts are prepared and resolved in turns, and the ether of the
contract follows what was paid in and out. It covers what the contract owes as
long as the owner announces only lockouts that free ether covers. -/
namespace DistributedNotary.Contracts.LockedEthereum

open Library

/-- The state after the constructor. -/
def deployed (owner : Address) : LockedEthereum := { owner := owner }

/-- How a lock ends, with the transfer that the contract makes. -/
inductive Resolution where
  | unlock (secret : Bytes32) (blockNumber : UInt256) (paid : Option (Address × UInt256))
  | cancel (blockNumber : UInt256) (paid : Option (Address × UInt256))

/-- The transfer that the contract makes in a transaction. -/
def payment (c : LockedEthereum) (tx : Msg × Call) : Option (Address × UInt256) :=
  (execTx c tx).bind fun r => (r.1.paid.take (r.1.paid.length - c.paid.length)).head?

/-- A transaction with the state in which it runs. -/
abbrev Entry := LockedEthereum × Msg × Call

/-- The transactions that do not revert, each with the state it finds. -/
def history : LockedEthereum → List (Msg × Call) → List Entry
  | _, [] => []
  | c, tx :: txs =>
    match execTx c tx with
    | some (c', _) => (c, tx) :: history c' txs
    | none => history c txs

/-- What an entry does to the lockin of an account. -/
def lockinOp (account : Address) : Entry → Option (LockOp Htlc Resolution)
  | (_, msg, .prepareLockin secretHash expiration) =>
    if msg.sender = account then
      some (.prepare { secretHash := secretHash, expiration := expiration, value := msg.value })
    else none
  | (c, msg, .lockin a secret) =>
    if a = account then some (.resolve (.unlock secret msg.blockNumber (payment c (msg, .lockin a secret)))) else none
  | (c, msg, .cancelLockin a) =>
    if a = account then some (.resolve (.cancel msg.blockNumber (payment c (msg, .cancelLockin a)))) else none
  | _ => none

/-- What an entry does to the lockout of an account. -/
def lockoutOp (account : Address) : Entry → Option (LockOp Htlc Resolution)
  | (_, _, .prepareLockoutHTLC a secretHash expiration value) =>
    if a = account then some (.prepare { secretHash := secretHash, expiration := expiration, value := value })
    else none
  | (c, msg, .lockout a secret) =>
    if a = account then some (.resolve (.unlock secret msg.blockNumber (payment c (msg, .lockout a secret)))) else none
  | (c, msg, .cancleLockOut a) =>
    if a = account then some (.resolve (.cancel msg.blockNumber (payment c (msg, .cancleLockOut a)))) else none
  | _ => none

/-- A lockin is absorbed with the preimage strictly before its expiration, or refunded to its
depositor strictly after. -/
def lockinResolves (account : Address) (li : Htlc) : Resolution → Prop
  | .unlock secret blockNumber paid =>
    li.secretHash = sha256 secret ∧ blockNumber < li.expiration ∧ paid = none
  | .cancel blockNumber paid => li.expiration < blockNumber ∧ paid = some (account, li.value)

/-- A lockout is paid to its account with the preimage strictly before its expiration, or cancelled
strictly after. -/
def lockoutResolves (account : Address) (li : Htlc) : Resolution → Prop
  | .unlock secret blockNumber paid =>
    li.secretHash = sha256 secret ∧ blockNumber < li.expiration ∧ paid = some (account, li.value)
  | .cancel blockNumber paid => li.expiration < blockNumber ∧ paid = none

/-- The lock that an account has pending. -/
def pendingLock (li : Htlc) : Option Htlc := if li.value = 0 then none else some li

/-- Ether that an entry brings in. -/
def deposited : Entry → ℕ
  | (_, msg, .prepareLockin _ _) => msg.value.toNat
  | _ => 0

/-- Ether that an entry returns to a depositor. -/
def refunded : Entry → ℕ
  | (c, _, .cancelLockin account) => (c.lockinHtlc account).value.toNat
  | _ => 0

/-- Ether that an entry pays for a lockout. -/
def paidOut : Entry → ℕ
  | (c, _, .lockout account _) => (c.lockoutHtlc account).value.toNat
  | _ => 0

section Step

variable {c c' : LockedEthereum} {msg : Msg} {es : List Event} {account : Address}

theorem prepareLockin_ok {secretHash : Bytes32} {expiration : UInt256}
    (h : c.prepareLockin msg secretHash expiration = some (c', es)) :
    (c.lockinHtlc msg.sender).value = 0 ∧ msg.value ≠ 0 ∧
    c' = { c with
      balance := c.balance + msg.value.toNat
      lockinHtlc := Function.update c.lockinHtlc msg.sender
        { secretHash := secretHash, expiration := expiration, value := msg.value } } := by
  simp only [prepareLockin, Option.bind_eq_bind, Option.bind_eq_some_iff, Option.pure_def, Option.some.injEq,
    Prod.mk.injEq, Option.guard_eq_some'] at h
  obtain ⟨_, hzero, _, hpos, rfl, _⟩ := h
  exact ⟨hzero, by rintro h0; simp [h0] at hpos, rfl⟩

theorem lockin_ok {secret : Bytes32} (h : c.lockin msg account secret = some (c', es)) :
    (c.lockinHtlc account).value ≠ 0 ∧ (c.lockinHtlc account).secretHash = sha256 secret ∧
    msg.blockNumber < (c.lockinHtlc account).expiration ∧
    c' = { c with lockinHtlc := Function.update c.lockinHtlc account {} } := by
  simp only [lockin, Option.bind_eq_bind, Option.bind_eq_some_iff, Option.pure_def, Option.some.injEq,
    Prod.mk.injEq, Option.guard_eq_some'] at h
  obtain ⟨_, _, _, hpos, _, hsecret, _, hblock, rfl, _⟩ := h
  exact ⟨by rintro h0; simp [h0] at hpos, hsecret, hblock, rfl⟩

theorem cancelLockin_ok (h : c.cancelLockin msg account = some (c', es)) :
    (c.lockinHtlc account).value ≠ 0 ∧ (c.lockinHtlc account).expiration < msg.blockNumber ∧
    (c.lockinHtlc account).value.toNat ≤ c.balance ∧
    c' = { c with
      balance := c.balance - (c.lockinHtlc account).value.toNat
      paid := (account, (c.lockinHtlc account).value) :: c.paid
      lockinHtlc := Function.update c.lockinHtlc account {} } := by
  simp only [cancelLockin, transfer, Option.bind_eq_bind, Option.bind_eq_some_iff, Option.pure_def,
    Option.some.injEq, Prod.mk.injEq, Option.guard_eq_some'] at h
  obtain ⟨_, _, _, hpos, _, hblock, _, ⟨_, hle, _, _, rfl⟩, rfl, _⟩ := h
  exact ⟨by rintro h0; simp [h0] at hpos, hblock, hle, rfl⟩

theorem prepareLockoutHTLC_ok {secretHash : Bytes32} {expiration value : UInt256}
    (h : c.prepareLockoutHTLC msg account secretHash expiration value = some (c', es)) :
    msg.sender = c.owner ∧ (c.lockoutHtlc account).value = 0 ∧ value ≠ 0 ∧
    c' = { c with
      lockoutHtlc := Function.update c.lockoutHtlc account
        { secretHash := secretHash, expiration := expiration, value := value } } := by
  simp only [prepareLockoutHTLC, Owned.onlyOwner, Option.bind_eq_bind, Option.bind_eq_some_iff, Option.pure_def,
    Option.some.injEq, Prod.mk.injEq, Option.guard_eq_some'] at h
  obtain ⟨_, _, _, howner, _, _, _, hpos, _, hzero, _, _, rfl, _⟩ := h
  exact ⟨howner, hzero, by rintro h0; simp [h0] at hpos, rfl⟩

theorem lockout_ok {secret : Bytes32} (h : c.lockout msg account secret = some (c', es)) :
    (c.lockoutHtlc account).value ≠ 0 ∧ (c.lockoutHtlc account).secretHash = sha256 secret ∧
    msg.blockNumber < (c.lockoutHtlc account).expiration ∧
    (c.lockoutHtlc account).value.toNat ≤ c.balance ∧
    c' = { c with
      balance := c.balance - (c.lockoutHtlc account).value.toNat
      paid := (account, (c.lockoutHtlc account).value) :: c.paid
      lockoutHtlc := Function.update c.lockoutHtlc account {} } := by
  simp only [lockout, transfer, Option.bind_eq_bind, Option.bind_eq_some_iff, Option.pure_def,
    Option.some.injEq, Prod.mk.injEq, Option.guard_eq_some'] at h
  obtain ⟨_, _, _, hpos, _, hblock, _, hsecret, _, ⟨_, hle, _, _, rfl⟩, rfl, _⟩ := h
  exact ⟨by rintro h0; simp [h0] at hpos, hsecret, hblock, hle, rfl⟩

theorem cancleLockOut_ok (h : c.cancleLockOut msg account = some (c', es)) :
    (c.lockoutHtlc account).value ≠ 0 ∧ (c.lockoutHtlc account).expiration < msg.blockNumber ∧
    c' = { c with lockoutHtlc := Function.update c.lockoutHtlc account {} } := by
  simp only [cancleLockOut, Option.bind_eq_bind, Option.bind_eq_some_iff, Option.pure_def, Option.some.injEq,
    Prod.mk.injEq, Option.guard_eq_some'] at h
  obtain ⟨_, _, _, hpos, _, hblock, rfl, _⟩ := h
  exact ⟨by rintro h0; simp [h0] at hpos, hblock, rfl⟩

theorem changeOwner_ok {newOwner : Address} (h : c.changeOwner msg newOwner = some (c', es)) :
    ∃ owned, c' = { c with toOwned := owned } := by
  simp only [changeOwner, Option.bind_eq_bind, Option.bind_eq_some_iff, Option.pure_def, Option.some.injEq,
    Prod.mk.injEq] at h
  obtain ⟨_, _, owned, _, rfl, _⟩ := h
  exact ⟨owned, rfl⟩

theorem acceptOwnership_ok (h : c.acceptOwnership msg = some (c', es)) :
    ∃ owned, c' = { c with toOwned := owned } := by
  simp only [acceptOwnership, Option.bind_eq_bind, Option.bind_eq_some_iff, Option.pure_def, Option.some.injEq,
    Prod.mk.injEq] at h
  obtain ⟨_, _, owned, _, rfl, _⟩ := h
  exact ⟨owned, rfl⟩

end Step

theorem pendingLock_empty : pendingLock {} = none := rfl

theorem pendingLock_of_ne {li : Htlc} (h : li.value ≠ 0) : pendingLock li = some li := if_neg h

theorem pendingLock_of_eq {li : Htlc} (h : li.value = 0) : pendingLock li = none := if_pos h

section Lifecycle

variable {c c' : LockedEthereum} {msg : Msg} {call : Call} {es : List Event}

theorem payment_eq {l : List (Address × UInt256)} (h : call.exec c msg = some (c', es))
    (hpaid : c'.paid = l ++ c.paid) :
    payment c (msg, call) = l.head? := by
  simp [payment, execTx, h, hpaid]

theorem lockin_step (account : Address) (h : call.exec c msg = some (c', es)) :
    LockStep (lockinResolves account) (pendingLock (c.lockinHtlc account)) (lockinOp account (c, msg, call))
      (pendingLock (c'.lockinHtlc account)) := by
  cases call with
  | changeOwner newOwner =>
    obtain ⟨_, rfl⟩ := changeOwner_ok h
    exact .idle _
  | acceptOwnership =>
    obtain ⟨_, rfl⟩ := acceptOwnership_ok h
    exact .idle _
  | prepareLockin secretHash expiration =>
    obtain ⟨hzero, hne, rfl⟩ := prepareLockin_ok h
    by_cases ha : msg.sender = account
    · subst ha
      simp only [lockinOp, if_pos, Function.update_self]
      rw [pendingLock_of_eq hzero, pendingLock_of_ne hne]
      exact .prepare _
    · simp only [lockinOp, if_neg ha, Function.update_of_ne (Ne.symm ha)]
      exact .idle _
  | lockin a secret =>
    obtain ⟨hne, hsecret, hblock, rfl⟩ := lockin_ok h
    by_cases ha : a = account
    · subst ha
      simp only [lockinOp, if_pos, Function.update_self]
      rw [pendingLock_of_ne hne, pendingLock_empty]
      exact .resolve ⟨hsecret, hblock, payment_eq (l := []) h rfl⟩
    · simp only [lockinOp, if_neg ha, Function.update_of_ne (Ne.symm ha)]
      exact .idle _
  | cancelLockin a =>
    obtain ⟨hne, hblock, _, rfl⟩ := cancelLockin_ok h
    by_cases ha : a = account
    · subst ha
      simp only [lockinOp, if_pos, Function.update_self]
      rw [pendingLock_of_ne hne, pendingLock_empty]
      exact .resolve ⟨hblock, payment_eq (l := [(a, _)]) h rfl⟩
    · simp only [lockinOp, if_neg ha, Function.update_of_ne (Ne.symm ha)]
      exact .idle _
  | prepareLockoutHTLC a secretHash expiration value =>
    obtain ⟨_, _, _, rfl⟩ := prepareLockoutHTLC_ok h
    exact .idle _
  | lockout a secret =>
    obtain ⟨_, _, _, _, rfl⟩ := lockout_ok h
    exact .idle _
  | cancleLockOut a =>
    obtain ⟨_, _, rfl⟩ := cancleLockOut_ok h
    exact .idle _

theorem lockout_step (account : Address) (h : call.exec c msg = some (c', es)) :
    LockStep (lockoutResolves account) (pendingLock (c.lockoutHtlc account)) (lockoutOp account (c, msg, call))
      (pendingLock (c'.lockoutHtlc account)) := by
  cases call with
  | changeOwner newOwner =>
    obtain ⟨_, rfl⟩ := changeOwner_ok h
    exact .idle _
  | acceptOwnership =>
    obtain ⟨_, rfl⟩ := acceptOwnership_ok h
    exact .idle _
  | prepareLockin secretHash expiration =>
    obtain ⟨_, _, rfl⟩ := prepareLockin_ok h
    exact .idle _
  | lockin a secret =>
    obtain ⟨_, _, _, rfl⟩ := lockin_ok h
    exact .idle _
  | cancelLockin a =>
    obtain ⟨_, _, _, rfl⟩ := cancelLockin_ok h
    exact .idle _
  | prepareLockoutHTLC a secretHash expiration value =>
    obtain ⟨_, hzero, hne, rfl⟩ := prepareLockoutHTLC_ok h
    by_cases ha : a = account
    · subst ha
      simp only [lockoutOp, if_pos, Function.update_self]
      rw [pendingLock_of_eq hzero, pendingLock_of_ne hne]
      exact .prepare _
    · simp only [lockoutOp, if_neg ha, Function.update_of_ne (Ne.symm ha)]
      exact .idle _
  | lockout a secret =>
    obtain ⟨hne, hsecret, hblock, _, rfl⟩ := lockout_ok h
    by_cases ha : a = account
    · subst ha
      simp only [lockoutOp, if_pos, Function.update_self]
      rw [pendingLock_of_ne hne, pendingLock_empty]
      exact .resolve ⟨hsecret, hblock, payment_eq (l := [(a, _)]) h rfl⟩
    · simp only [lockoutOp, if_neg ha, Function.update_of_ne (Ne.symm ha)]
      exact .idle _
  | cancleLockOut a =>
    obtain ⟨hne, hblock, rfl⟩ := cancleLockOut_ok h
    by_cases ha : a = account
    · subst ha
      simp only [lockoutOp, if_pos, Function.update_self]
      rw [pendingLock_of_ne hne, pendingLock_empty]
      exact .resolve ⟨hblock, payment_eq (l := []) h rfl⟩
    · simp only [lockoutOp, if_neg ha, Function.update_of_ne (Ne.symm ha)]
      exact .idle _

/-- The balance moves by what the call brings in and pays. -/
theorem balance_step (h : call.exec c msg = some (c', es)) :
    c'.balance + refunded (c, msg, call) + paidOut (c, msg, call) = c.balance + deposited (c, msg, call) := by
  cases call with
  | changeOwner newOwner =>
    obtain ⟨_, rfl⟩ := changeOwner_ok h
    rfl
  | acceptOwnership =>
    obtain ⟨_, rfl⟩ := acceptOwnership_ok h
    rfl
  | prepareLockin secretHash expiration =>
    obtain ⟨_, _, rfl⟩ := prepareLockin_ok h
    rfl
  | lockin a secret =>
    obtain ⟨_, _, _, rfl⟩ := lockin_ok h
    rfl
  | cancelLockin a =>
    obtain ⟨_, _, hle, rfl⟩ := cancelLockin_ok h
    simp only [refunded, paidOut, deposited]
    omega
  | prepareLockoutHTLC a secretHash expiration value =>
    obtain ⟨_, _, _, rfl⟩ := prepareLockoutHTLC_ok h
    rfl
  | lockout a secret =>
    obtain ⟨_, _, _, hle, rfl⟩ := lockout_ok h
    simp only [refunded, paidOut, deposited]
    omega
  | cancleLockOut a =>
    obtain ⟨_, _, rfl⟩ := cancleLockOut_ok h
    rfl

end Lifecycle

/-- A machine whose calls each take one step of a lock goes through a lifecycle of it. -/
theorem history_lifecycle {ok : Htlc → Resolution → Prop} {op : Entry → Option (LockOp Htlc Resolution)}
    {lock : LockedEthereum → Option Htlc}
    (hstep : ∀ c c' msg call es, Call.exec c msg call = some (c', es) →
      LockStep ok (lock c) (op (c, msg, call)) (lock c'))
    (c : LockedEthereum) (txs : List (Msg × Call)) : Lifecycle ok (lock c) ((history c txs).filterMap op) := by
  induction txs generalizing c with
  | nil => exact .nil _
  | cons tx txs ih =>
    unfold history
    cases he : execTx c tx with
    | none => exact ih c
    | some r =>
      have h := Lifecycle.of_step (hstep c r.1 tx.1 tx.2 r.2 he) (ih r.1)
      cases hop : op (c, tx) with
      | none =>
        rw [hop] at h
        rwa [List.filterMap_cons_none hop]
      | some o =>
        rw [hop] at h
        rwa [List.filterMap_cons_some hop]

theorem foldl_balance (c : LockedEthereum) (txs : List (Msg × Call)) :
    (txs.foldl next c).balance + ((history c txs).map refunded).sum + ((history c txs).map paidOut).sum =
      c.balance + ((history c txs).map deposited).sum := by
  induction txs generalizing c with
  | nil => rfl
  | cons tx txs ih =>
    rw [List.foldl_cons]
    unfold history next Slots.afterCall
    cases he : execTx c tx with
    | none => exact ih c
    | some r =>
      have h1 : r.1.balance + refunded (c, tx) + paidOut (c, tx) = c.balance + deposited (c, tx) := balance_step he
      have h2 := ih r.1
      simp only [List.map_cons, List.sum_cons]
      change (txs.foldl next r.1).balance + _ + _ = _
      omega

/-- Every record is resolved at most once and in the way it allows, and not replaced before that. -/
structure ExactlyOnce (ok : Htlc → Resolution → Prop) (ops : List (LockOp Htlc Resolution)) : Prop where
  lifecycle : Lifecycle ok none ops
  once : ∀ w w', ¬ [.resolve w, .resolve w'] <:+: ops
  kept : ∀ r r', ¬ [.prepare r, .prepare r'] <:+: ops

theorem ExactlyOnce.of_lifecycle {ok : Htlc → Resolution → Prop} {ops : List (LockOp Htlc Resolution)}
    (h : Lifecycle ok none ops) : ExactlyOnce ok ops :=
  ⟨h, h.not_resolve_twice, h.not_prepare_twice⟩

/-- Over any history the lockins and the lockouts of every account are resolved exactly once, and the
ether is what was deposited less what was refunded and paid out. -/
theorem locks_exactly_once (owner : Address) (txs : List (Msg × Call)) (account : Address) :
    let hist := history (deployed owner) txs
    ExactlyOnce (lockinResolves account) (hist.filterMap (lockinOp account)) ∧
    ExactlyOnce (lockoutResolves account) (hist.filterMap (lockoutOp account)) ∧
    (txs.foldl next (deployed owner)).balance + (hist.map refunded).sum + (hist.map paidOut).sum =
      (hist.map deposited).sum := by
  refine ⟨.of_lifecycle ?_, .of_lifecycle ?_, ?_⟩
  · exact history_lifecycle (fun _ _ _ _ _ h => lockin_step account h) (deployed owner) txs
  · exact history_lifecycle (fun _ _ _ _ _ h => lockout_step account h) (deployed owner) txs
  · have h := foldl_balance (deployed owner) txs
    rw [show (deployed owner).balance = 0 from rfl, Nat.zero_add] at h
    exact h

/-- What the contract owes for the pending locks of one kind. -/
def owedFor (htlc : Address → Htlc) : ℕ := total fun account => (htlc account).value.toNat

/-- The ether of the contract covers all pending refunds and announced lockouts. -/
def Solvent (c : LockedEthereum) : Prop := owedFor c.lockinHtlc + owedFor c.lockoutHtlc ≤ c.balance

/-- The transaction announces no lockout beyond the ether that is not owed yet. -/
def Covered (c : LockedEthereum) (tx : Msg × Call) : Prop :=
  match tx.2 with
  | .prepareLockoutHTLC _ _ _ value =>
    execTx c tx = none ∨ owedFor c.lockinHtlc + owedFor c.lockoutHtlc + value.toNat ≤ c.balance
  | _ => True

theorem owedFor_update (htlc : Address → Htlc) (account : Address) (li : Htlc) :
    owedFor (Function.update htlc account li) + (htlc account).value.toNat = owedFor htlc + li.value.toNat :=
  total_comp_update (fun li : Htlc => li.value.toNat) htlc account li

theorem owedFor_prepare {htlc : Address → Htlc} {account : Address} (h : (htlc account).value = 0) (li : Htlc) :
    owedFor (Function.update htlc account li) = owedFor htlc + li.value.toNat := by
  have hu := owedFor_update htlc account li
  have h0 : (htlc account).value.toNat = 0 := by rw [h]; rfl
  omega

theorem owedFor_resolve (htlc : Address → Htlc) (account : Address) :
    owedFor (Function.update htlc account {}) + (htlc account).value.toNat = owedFor htlc := by
  have hu := owedFor_update htlc account {}
  have h0 : ({} : Htlc).value.toNat = 0 := rfl
  rw [hu, h0, Nat.add_zero]

/-- A deposit that the balance does not cover. -/
theorem not_solvent_of_lockin {c : LockedEthereum} (account : Address)
    (h : c.balance < (c.lockinHtlc account).value.toNat) : ¬ c.Solvent := by
  have hle : (c.lockinHtlc account).value.toNat ≤ owedFor c.lockinHtlc :=
    value_le_total (fun account => (c.lockinHtlc account).value.toNat) account
  unfold Solvent
  omega

section Solvency

variable {c c' : LockedEthereum} {msg : Msg} {call : Call} {es : List Event}

/-- A call keeps the contract solvent exactly if it announces only what free ether covers. -/
theorem solvent_exec_iff (h : call.exec c msg = some (c', es)) (hc : c.Solvent) :
    c'.Solvent ↔ Covered c (msg, call) := by
  unfold Solvent at hc ⊢
  cases call with
  | changeOwner newOwner =>
    obtain ⟨_, rfl⟩ := changeOwner_ok h
    simpa [Covered] using hc
  | acceptOwnership =>
    obtain ⟨_, rfl⟩ := acceptOwnership_ok h
    simpa [Covered] using hc
  | prepareLockin secretHash expiration =>
    obtain ⟨hzero, _, rfl⟩ := prepareLockin_ok h
    have hu := owedFor_prepare hzero { secretHash := secretHash, expiration := expiration, value := msg.value }
    simp only [Covered, iff_true]
    rw [hu]
    simp only
    omega
  | lockin a secret =>
    obtain ⟨_, _, _, rfl⟩ := lockin_ok h
    have hu := owedFor_resolve c.lockinHtlc a
    simp only [Covered, iff_true]
    omega
  | cancelLockin a =>
    obtain ⟨_, _, hle, rfl⟩ := cancelLockin_ok h
    have hu := owedFor_resolve c.lockinHtlc a
    simp only [Covered, iff_true]
    omega
  | prepareLockoutHTLC a secretHash expiration value =>
    have hsome : execTx c (msg, .prepareLockoutHTLC a secretHash expiration value) ≠ none := by
      rw [show execTx c (msg, .prepareLockoutHTLC a secretHash expiration value) = some (c', es) from h]
      exact Option.some_ne_none _
    obtain ⟨_, hzero, _, rfl⟩ := prepareLockoutHTLC_ok h
    have hu := owedFor_prepare hzero { secretHash := secretHash, expiration := expiration, value := value }
    simp only [Covered, hsome, false_or]
    rw [hu, ← Nat.add_assoc]
  | lockout a secret =>
    obtain ⟨_, _, _, hle, rfl⟩ := lockout_ok h
    have hu := owedFor_resolve c.lockoutHtlc a
    simp only [Covered, iff_true]
    omega
  | cancleLockOut a =>
    obtain ⟨_, _, rfl⟩ := cancleLockOut_ok h
    have hu := owedFor_resolve c.lockoutHtlc a
    simp only [Covered, iff_true]
    omega

end Solvency

theorem solvent_next_iff {c : LockedEthereum} (tx : Msg × Call) (hc : c.Solvent) :
    (next c tx).Solvent ↔ Covered c tx := by
  obtain ⟨msg, call⟩ := tx
  unfold next Slots.afterCall
  cases he : execTx c (msg, call) with
  | none =>
    have hcov : Covered c (msg, call) := by
      unfold Covered
      split
      · exact Or.inl he
      · trivial
    exact iff_of_true hc hcov
  | some r => exact solvent_exec_iff he hc

theorem deployed_solvent (owner : Address) : (deployed owner).Solvent := by
  simp [Solvent, deployed, owedFor, total_zero]

/-- Whether every lockout announced in the run is covered when it is announced. -/
def AllCovered : LockedEthereum → List (Msg × Call) → Prop
  | _, [] => True
  | c, tx :: txs => Covered c tx ∧ AllCovered (next c tx) txs

theorem solvent_run_iff {c : LockedEthereum} (hc : c.Solvent) (txs : List (Msg × Call)) :
    (∀ k, ((txs.take k).foldl next c).Solvent) ↔ AllCovered c txs := by
  induction txs generalizing c with
  | nil => simpa [AllCovered] using hc
  | cons tx txs ih =>
    rw [AllCovered, ← solvent_next_iff tx hc]
    constructor
    · intro h
      have h1 : (next c tx).Solvent := by simpa using h 1
      exact ⟨h1, (ih h1).mp fun k => by simpa using h (k + 1)⟩
    · rintro ⟨h1, h2⟩ k
      cases k with
      | zero => exact hc
      | succ k => simpa using (ih h1).mpr h2 k

/-- The contract stays solvent in every state of a run exactly if each lockout that the owner
announces in it is covered by ether that nobody is owed. -/
theorem solvent_iff_covered (owner : Address) (txs : List (Msg × Call)) :
    (∀ k, ((txs.take k).foldl next (deployed owner)).Solvent) ↔ AllCovered (deployed owner) txs :=
  solvent_run_iff (deployed_solvent owner) txs

/-- A user locks 5 wei, then the owner announces a lockout of 5 wei to another account, which claims it. -/
def overdrawn : List (Msg × Call) :=
  [({ sender := 2, value := 5, blockNumber := 0 }, .prepareLockin 0 10),
    ({ sender := 1, blockNumber := 0 }, .prepareLockoutHTLC 3 (sha256 7) 1000 5),
    ({ sender := 3, blockNumber := 1 }, .lockout 3 7)]

theorem overdrawn_state : overdrawn.foldl next (deployed 1) =
    { deployed 1 with
      paid := [(3, 5)]
      lockinHtlc := Function.update (deployed 1).lockinHtlc 2 { expiration := 10, value := 5 }
      lockoutHtlc := Function.update (Function.update (deployed 1).lockoutHtlc 3
        { secretHash := sha256 7, expiration := 1000, value := 5 }) 3 {} } := by
  simp [overdrawn, next, Slots.afterCall, execTx, Call.exec, prepareLockin, prepareLockoutHTLC, lockout, transfer,
    Msg.notPayable, Owned.onlyOwner, deployed, guard]

/-- Then the ether of the user is gone, and the refund fails after its expiration. -/
theorem overdrawn_insolvent :
    ¬ (overdrawn.foldl next (deployed 1)).Solvent ∧
    execTx (overdrawn.foldl next (deployed 1)) ({ sender := 2, blockNumber := 11 }, .cancelLockin 2) = none := by
  rw [overdrawn_state]
  constructor
  · apply not_solvent_of_lockin 2
    simp [deployed]
  · simp [execTx, Call.exec, cancelLockin, transfer, Msg.notPayable, deployed, guard]

end DistributedNotary.Contracts.LockedEthereum
