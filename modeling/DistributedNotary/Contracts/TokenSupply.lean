import DistributedNotary.Contracts.AtmosphereToken
import DistributedNotary.Library.Totals

/-! The supply of the token. Every unit but the first is on a balance or in a
pending lockout, as exact integers, so that nothing which a call stores wraps
around: balances and pending lockouts together stay below the supply. -/
namespace DistributedNotary.Contracts.AtmosphereToken

open Library

/-- The state after the constructor. -/
def deployed (owner : Address) : AtmosphereToken := { owner := owner }

/-- The tokens on all balances. -/
def held (balances : Address → UInt256) : ℕ := total fun account => (balances account).toNat

/-- The tokens of all pending locks. -/
def pending (htlc : Address → Htlc) : ℕ := total fun account => (htlc account).value.toNat

/-- `totalSupply` counts the unit of the constructor, the balances and the pending lockouts. -/
def Supplied (c : AtmosphereToken) : Prop :=
  c.totalSupply.toNat = 1 + held c.balances + pending c.lockoutHtlc

/-- Whether the function returns `false`; only the two transfers can. -/
def Call.returnsFalse (c : AtmosphereToken) (msg : Msg) : Call → Prop
  | .transfer dst value => ¬ (c.balances msg.sender ≥ value ∧ c.balances dst + value > c.balances dst)
  | .transferFrom src dst value =>
    ¬ (c.balances src ≥ value ∧ c.allowed src msg.sender ≥ value ∧ c.balances dst + value > c.balances dst)
  | _ => False

/-- The call neither reverts nor returns `false`. -/
def Commits (c : AtmosphereToken) (tx : Msg × Call) : Prop :=
  (execTx c tx).isSome ∧ ¬ tx.2.returnsFalse c tx.1

/-- The additions of a call, those of its checks included. -/
def Call.additions (c : AtmosphereToken) (msg : Msg) : Call → List (UInt256 × UInt256)
  | .transfer dst value =>
    let balances := Function.update c.balances msg.sender (c.balances msg.sender - value)
    [(c.balances dst, value), (balances dst, value)]
  | .transferFrom _ dst value => [(c.balances dst, value)]
  | .lockin account _ =>
    let value := (c.lockinHtlc account).value
    [(c.balances account, value), (c.totalSupply, value)]
  | .cancelLockOut account => [(c.balances account, (c.lockoutHtlc account).value)]
  | _ => []

def Call.subtractions (c : AtmosphereToken) (msg : Msg) : Call → List (UInt256 × UInt256)
  | .transfer _ value => [(c.balances msg.sender, value)]
  | .transferFrom src dst value =>
    let balances := Function.update c.balances dst (c.balances dst + value)
    [(balances src, value), (c.allowed src msg.sender, value)]
  | .prepareLockout _ _ value => [(c.balances msg.sender, value)]
  | .lockout src _ => [(c.totalSupply, (c.lockoutHtlc src).value)]
  | _ => []

/-- No addition and no subtraction of the call wraps around. -/
def Call.Exact (c : AtmosphereToken) (msg : Msg) (call : Call) : Prop :=
  (∀ p ∈ call.additions c msg, p.1.toNat + p.2.toNat < 2 ^ 256) ∧ ∀ p ∈ call.subtractions c msg, p.2 ≤ p.1

theorem held_update (balances : Address → UInt256) (account : Address) (value : UInt256) :
    held (Function.update balances account value) + (balances account).toNat = held balances + value.toNat :=
  total_comp_update BitVec.toNat balances account value

theorem pending_update (htlc : Address → Htlc) (account : Address) (li : Htlc) :
    pending (Function.update htlc account li) + (htlc account).value.toNat = pending htlc + li.value.toNat :=
  total_comp_update (fun li : Htlc => li.value.toNat) htlc account li

theorem pending_clear (htlc : Address → Htlc) (account : Address) :
    pending (Function.update htlc account {}) + (htlc account).value.toNat = pending htlc := by
  have h := pending_update htlc account {}
  have h0 : ({} : Htlc).value.toNat = 0 := rfl
  rw [h, h0, Nat.add_zero]

theorem balance_le_held (balances : Address → UInt256) (account : Address) : (balances account).toNat ≤ held balances :=
  value_le_total (fun account => (balances account).toNat) account

theorem value_le_pending (htlc : Address → Htlc) (account : Address) :
    (htlc account).value.toNat ≤ pending htlc :=
  value_le_total (fun account => (htlc account).value.toNat) account

section Words

variable {a b : UInt256}

/-- The wrap check `a + b > a` of the transfers. -/
theorem toNat_add_of_gt (h : a + b > a) : a.toNat + b.toNat < 2 ^ 256 := by
  bv_omega

theorem toNat_add_of_lt (h : a.toNat + b.toNat < 2 ^ 256) : (a + b).toNat = a.toNat + b.toNat := by
  bv_omega

theorem toNat_sub_of_le (h : b ≤ a) : (a - b).toNat = a.toNat - b.toNat := by
  bv_omega

/-- The wrap check `a + b >= b` of `lockin`. -/
theorem toNat_add_of_ge (h : a + b ≥ b) : a.toNat + b.toNat < 2 ^ 256 := by
  bv_omega

end Words

/-- Moving tokens between balances keeps what they hold, a self-transfer included. -/
theorem held_move {balances : Address → UInt256} {src dst : Address} {value : UInt256}
    (hle : value ≤ balances src) (hadd : (balances dst).toNat + value.toNat < 2 ^ 256) :
    held (move balances src dst value) = held balances := by
  have hsub := toNat_sub_of_le hle
  have hle' : value.toNat ≤ (balances src).toNat := hle
  have h1 := held_update balances src (balances src - value)
  set b := Function.update balances src (balances src - value) with hb
  have hb' : (b dst).toNat ≤ (balances dst).toNat := by
    by_cases hd : dst = src
    · subst hd
      rw [hb, Function.update_self]
      omega
    · rw [hb, Function.update_of_ne hd]
  have hsum := toNat_add_of_lt (show (b dst).toNat + value.toNat < 2 ^ 256 by omega)
  have h2 := held_update b dst (b dst + value)
  change held (Function.update b dst (b dst + value)) = held balances
  omega

/-- The same in the order of `transferFrom`, where the second balance is read after the addition. -/
theorem held_moveFrom {balances : Address → UInt256} {src dst : Address} {value : UInt256}
    (hle : value ≤ balances src) (hadd : (balances dst).toNat + value.toNat < 2 ^ 256) :
    let b := Function.update balances dst (balances dst + value)
    value ≤ b src ∧ held (Function.update b src (b src - value)) = held balances := by
  intro b
  have hsum := toNat_add_of_lt hadd
  have h1 : held b + (balances dst).toNat = held balances + (balances dst + value).toNat := held_update ..
  have hb : value ≤ b src := by
    by_cases hd : src = dst
    · subst hd
      simp only [b, Function.update_self]
      bv_omega
    · simpa only [b, Function.update_of_ne hd] using hle
  have hsub := toNat_sub_of_le hb
  have h2 := held_update b src (b src - value)
  have hle' : value.toNat ≤ (b src).toNat := hb
  exact ⟨hb, by omega⟩

section Step

variable {c c' : AtmosphereToken} {msg : Msg} {es : List Event}

theorem supplied_of_eq (hc : c.Supplied) (htotal : c'.totalSupply = c.totalSupply)
    (hheld : held c'.balances = held c.balances) (hpending : pending c'.lockoutHtlc = pending c.lockoutHtlc) :
    c'.Supplied := by
  unfold Supplied at hc ⊢
  rw [htotal, hheld, hpending, hc]

theorem transfer_supplied {dst : Address} {value : UInt256} (h : c.transfer msg dst value = some (c', es))
    (hc : c.Supplied) : c'.Supplied := by
  unfold transfer at h
  split at h
  · next hcond =>
    simp only [Option.bind_eq_bind, Option.bind_eq_some_iff, Option.pure_def, Option.some.injEq, Prod.mk.injEq] at h
    obtain ⟨_, _, rfl, _⟩ := h
    exact supplied_of_eq hc rfl (held_move hcond.1 (toNat_add_of_gt hcond.2)) rfl
  · simp only [Option.bind_eq_bind, Option.bind_eq_some_iff, Option.pure_def, Option.some.injEq, Prod.mk.injEq] at h
    obtain ⟨_, _, rfl, _⟩ := h
    exact hc

theorem transferFrom_supplied {src dst : Address} {value : UInt256}
    (h : c.transferFrom msg src dst value = some (c', es)) (hc : c.Supplied) : c'.Supplied := by
  unfold transferFrom at h
  split at h
  · next hcond =>
    simp only [Option.bind_eq_bind, Option.bind_eq_some_iff, Option.pure_def, Option.some.injEq, Prod.mk.injEq] at h
    obtain ⟨_, _, rfl, _⟩ := h
    exact supplied_of_eq hc rfl (held_moveFrom hcond.1 (toNat_add_of_gt hcond.2.2)).2 rfl
  · simp only [Option.bind_eq_bind, Option.bind_eq_some_iff, Option.pure_def, Option.some.injEq, Prod.mk.injEq] at h
    obtain ⟨_, _, rfl, _⟩ := h
    exact hc

/-- A lockin adds its value to one balance and to the supply, neither of which wraps. -/
theorem lockin_supplied {account : Address} {secret : Bytes32} (h : c.lockin msg account secret = some (c', es))
    (hc : c.Supplied) :
    c'.Supplied ∧ (c.balances account).toNat + (c.lockinHtlc account).value.toNat < 2 ^ 256 ∧
    c.totalSupply.toNat + (c.lockinHtlc account).value.toNat < 2 ^ 256 := by
  simp only [lockin, Option.bind_eq_bind, Option.bind_eq_some_iff, Option.pure_def, Option.some.injEq,
    Prod.mk.injEq, Option.guard_eq_some'] at h
  obtain ⟨_, _, _, _, _, _, _, _, _, hbal, _, htotal, rfl, _⟩ := h
  have hb := toNat_add_of_ge hbal
  have ht := toNat_add_of_ge (BitVec.le_of_lt htotal)
  refine ⟨?_, hb, ht⟩
  have h1 := held_update c.balances account (c.balances account + (c.lockinHtlc account).value)
  rw [toNat_add_of_lt hb] at h1
  simp only [Supplied, toNat_add_of_lt ht] at hc ⊢
  omega

theorem prepareLockout_supplied {secretHash : Bytes32} {expiration value : UInt256}
    (h : c.prepareLockout msg secretHash expiration value = some (c', es)) (hc : c.Supplied) :
    c'.Supplied ∧ value ≤ c.balances msg.sender := by
  simp only [prepareLockout, Option.bind_eq_bind, Option.bind_eq_some_iff, Option.pure_def, Option.some.injEq,
    Prod.mk.injEq, Option.guard_eq_some'] at h
  obtain ⟨_, _, _, _, _, hzero, _, hle, rfl, _⟩ := h
  refine ⟨?_, hle⟩
  have h1 := held_update c.balances msg.sender (c.balances msg.sender - value)
  have h2 := pending_update c.lockoutHtlc msg.sender
    { secretHash := secretHash, expiration := expiration, value := value }
  have hle' : value.toNat ≤ (c.balances msg.sender).toNat := hle
  rw [toNat_sub_of_le hle] at h1
  rw [hzero] at h2
  simp only [Supplied] at hc ⊢
  change _ + 0 = _ + value.toNat at h2
  omega

/-- A lockout burns what was pending, which the supply still counts. -/
theorem lockout_supplied {src : Address} {secret : Bytes32} (h : c.lockout msg src secret = some (c', es))
    (hc : c.Supplied) : c'.Supplied ∧ (c.lockoutHtlc src).value ≤ c.totalSupply := by
  simp only [lockout, Option.bind_eq_bind, Option.bind_eq_some_iff, Option.pure_def, Option.some.injEq,
    Prod.mk.injEq, Option.guard_eq_some'] at h
  obtain ⟨_, _, _, _, _, _, _, _, _, _, rfl, _⟩ := h
  have hv := value_le_pending c.lockoutHtlc src
  have hle : (c.lockoutHtlc src).value ≤ c.totalSupply := by
    unfold Supplied at hc
    bv_omega
  refine ⟨?_, hle⟩
  have h2 := pending_clear c.lockoutHtlc src
  simp only [Supplied, toNat_sub_of_le hle] at hc ⊢
  omega

theorem cancelLockOut_supplied {account : Address} (h : c.cancelLockOut msg account = some (c', es))
    (hc : c.Supplied) :
    c'.Supplied ∧ (c.balances account).toNat + (c.lockoutHtlc account).value.toNat < 2 ^ 256 := by
  simp only [cancelLockOut, Option.bind_eq_bind, Option.bind_eq_some_iff, Option.pure_def, Option.some.injEq,
    Prod.mk.injEq, Option.guard_eq_some'] at h
  obtain ⟨_, _, _, _, _, _, rfl, _⟩ := h
  have hb := balance_le_held c.balances account
  have hv := value_le_pending c.lockoutHtlc account
  have hlt : (c.balances account).toNat + (c.lockoutHtlc account).value.toNat < 2 ^ 256 := by
    unfold Supplied at hc
    omega
  refine ⟨?_, hlt⟩
  have h1 := held_update c.balances account (c.balances account + (c.lockoutHtlc account).value)
  have h2 := pending_clear c.lockoutHtlc account
  rw [toNat_add_of_lt hlt] at h1
  simp only [Supplied] at hc ⊢
  omega

end Step

theorem exec_supplied {c c' : AtmosphereToken} {msg : Msg} {call : Call} {es : List Event}
    (h : call.exec c msg = some (c', es)) (hc : c.Supplied) : c'.Supplied := by
  cases call with
  | transfer dst value => exact transfer_supplied h hc
  | transferFrom src dst value => exact transferFrom_supplied h hc
  | lockin account secret => exact (lockin_supplied h hc).1
  | prepareLockout secretHash expiration value => exact (prepareLockout_supplied h hc).1
  | lockout src secret => exact (lockout_supplied h hc).1
  | cancelLockOut account => exact (cancelLockOut_supplied h hc).1
  | changeOwner newOwner =>
    simp only [Call.exec, changeOwner, Option.bind_eq_bind, Option.bind_eq_some_iff, Option.pure_def,
      Option.some.injEq, Prod.mk.injEq] at h
    obtain ⟨_, _, _, _, rfl, _⟩ := h
    exact hc
  | acceptOwnership =>
    simp only [Call.exec, acceptOwnership, Option.bind_eq_bind, Option.bind_eq_some_iff, Option.pure_def,
      Option.some.injEq, Prod.mk.injEq] at h
    obtain ⟨_, _, _, _, rfl, _⟩ := h
    exact hc
  | approve spender value =>
    simp only [Call.exec, approve, Option.bind_eq_bind, Option.bind_eq_some_iff, Option.pure_def,
      Option.some.injEq, Prod.mk.injEq] at h
    obtain ⟨_, _, rfl, _⟩ := h
    exact hc
  | prepareLockin account secretHash expiration value =>
    simp only [Call.exec, prepareLockin, Option.bind_eq_bind, Option.bind_eq_some_iff, Option.pure_def,
      Option.some.injEq, Prod.mk.injEq] at h
    obtain ⟨_, _, _, _, _, _, _, _, rfl, _⟩ := h
    exact hc
  | cancelLockin account =>
    simp only [Call.exec, cancelLockin, Option.bind_eq_bind, Option.bind_eq_some_iff, Option.pure_def,
      Option.some.injEq, Prod.mk.injEq] at h
    obtain ⟨_, _, _, _, _, _, rfl, _⟩ := h
    exact hc

/-- A call that commits stores no wrapped sum or difference. -/
theorem exact_of_commits {c : AtmosphereToken} {tx : Msg × Call} (h : Commits c tx) (hc : c.Supplied) :
    tx.2.Exact c tx.1 := by
  obtain ⟨msg, call⟩ := tx
  obtain ⟨hsome, htrue⟩ := h
  obtain ⟨⟨c', es⟩, he⟩ := Option.isSome_iff_exists.mp hsome
  change call.exec c msg = some (c', es) at he
  unfold Call.Exact
  cases call with
  | transfer dst value =>
    simp only [Call.returnsFalse, not_not] at htrue
    have hadd := toNat_add_of_gt htrue.2
    have hle : value.toNat ≤ (c.balances msg.sender).toNat := htrue.1
    have hsub := toNat_sub_of_le htrue.1
    simp only [Call.additions, Call.subtractions, List.mem_cons, List.not_mem_nil, or_false, forall_eq_or_imp,
      forall_eq]
    refine ⟨⟨hadd, ?_⟩, htrue.1⟩
    by_cases hd : dst = msg.sender
    · subst hd
      rw [Function.update_self]
      omega
    · rwa [Function.update_of_ne hd]
  | transferFrom src dst value =>
    simp only [Call.returnsFalse, not_not] at htrue
    have hadd := toNat_add_of_gt htrue.2.2
    simp only [Call.additions, Call.subtractions, List.mem_cons, List.not_mem_nil, or_false, forall_eq_or_imp,
      forall_eq]
    exact ⟨hadd, (held_moveFrom htrue.1 hadd).1, htrue.2.1⟩
  | lockin account secret =>
    simpa [Call.additions, Call.subtractions] using (lockin_supplied he hc).2
  | prepareLockout secretHash expiration value =>
    simpa [Call.additions, Call.subtractions] using (prepareLockout_supplied he hc).2
  | lockout src secret =>
    simpa [Call.additions, Call.subtractions] using (lockout_supplied he hc).2
  | cancelLockOut account =>
    simpa [Call.additions, Call.subtractions] using (cancelLockOut_supplied he hc).2
  | changeOwner newOwner => simp [Call.additions, Call.subtractions]
  | acceptOwnership => simp [Call.additions, Call.subtractions]
  | approve spender value => simp [Call.additions, Call.subtractions]
  | prepareLockin account secretHash expiration value => simp [Call.additions, Call.subtractions]
  | cancelLockin account => simp [Call.additions, Call.subtractions]

theorem next_of_not_commits {c : AtmosphereToken} {tx : Msg × Call} (h : ¬ Commits c tx) : next c tx = c := by
  obtain ⟨msg, call⟩ := tx
  unfold next Slots.afterCall
  cases he : execTx c (msg, call) with
  | none => rfl
  | some r =>
    obtain ⟨c', es⟩ := r
    have hfalse : call.returnsFalse c msg := by
      by_contra hf
      exact h ⟨by rw [he]; rfl, hf⟩
    change call.exec c msg = some (c', es) at he
    change c' = c
    cases call <;> try exact absurd hfalse id
    case transfer dst value =>
      simp only [Call.exec, transfer, if_neg hfalse, Option.bind_eq_bind, Option.bind_eq_some_iff, Option.pure_def,
        Option.some.injEq, Prod.mk.injEq] at he
      obtain ⟨_, _, rfl, _⟩ := he
      rfl
    case transferFrom src dst value =>
      simp only [Call.exec, transferFrom, if_neg hfalse, Option.bind_eq_bind, Option.bind_eq_some_iff,
        Option.pure_def, Option.some.injEq, Prod.mk.injEq] at he
      obtain ⟨_, _, rfl, _⟩ := he
      rfl

theorem next_supplied {c : AtmosphereToken} (tx : Msg × Call) (hc : c.Supplied) : (next c tx).Supplied := by
  unfold next Slots.afterCall
  cases he : execTx c tx with
  | none => exact hc
  | some r => exact exec_supplied he hc

theorem deployed_supplied (owner : Address) : (deployed owner).Supplied := by
  simp [Supplied, deployed, held, pending, total_zero]

theorem foldl_supplied {c : AtmosphereToken} (hc : c.Supplied) (txs : List (Msg × Call)) :
    (txs.foldl next c).Supplied := by
  induction txs generalizing c with
  | nil => exact hc
  | cons tx txs ih => exact ih (next_supplied tx hc)

/-- After any transactions the supply is exact, and one more transaction either commits without
wrapping or changes nothing. -/
theorem supply_exact (owner : Address) (txs : List (Msg × Call)) (tx : Msg × Call) :
    let c := txs.foldl next (deployed owner)
    c.totalSupply.toNat = 1 + (∑ account, (c.balances account).toNat) + ∑ account, (c.lockoutHtlc account).value.toNat ∧
    ((Commits c tx ∧ tx.2.Exact c tx.1) ∨ (¬ Commits c tx ∧ next c tx = c)) := by
  intro c
  have hc : c.Supplied := foldl_supplied (deployed_supplied owner) txs
  refine ⟨hc, ?_⟩
  by_cases h : Commits c tx
  · exact Or.inl ⟨h, exact_of_commits h hc⟩
  · exact Or.inr ⟨h, next_of_not_commits h⟩

end DistributedNotary.Contracts.AtmosphereToken
