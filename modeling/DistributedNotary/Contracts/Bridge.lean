import DistributedNotary.Contracts.EtherLocks
import DistributedNotary.Contracts.TokenSupply
import DistributedNotary.Library.Legs
import DistributedNotary.Library.Transition

/-! Both contracts together. Users lock ether on the main chain and are answered
with a lock of tokens, or lock tokens and are answered with ether. Whatever
everybody else calls, the tokens in circulation and the deposits that can be
taken back stay covered by the ether of the main chain contract, as long as the
notaries answer a lock once and with no more than it holds, and a user takes a
lock back only when the answer to it cannot be redeemed any more. -/
namespace DistributedNotary.Contracts

open Library

namespace AtmosphereToken

section Inversion

variable {c c' : AtmosphereToken} {msg : Msg} {account : Address} {es : List Event}

theorem prepareLockin_ok {secretHash : Bytes32} {expiration value : UInt256}
    (h : c.prepareLockin msg account secretHash expiration value = some (c', es)) :
    msg.sender = c.owner ∧ (c.lockinHtlc account).value = 0 ∧
    c' = { c with
      lockinHtlc := Function.update c.lockinHtlc account
        { secretHash := secretHash, expiration := expiration, value := value } } := by
  simp only [prepareLockin, Owned.onlyOwner, Option.bind_eq_bind, Option.bind_eq_some_iff, Option.pure_def,
    Option.some.injEq, Prod.mk.injEq, Option.guard_eq_some'] at h
  obtain ⟨_, _, _, howner, _, _, _, hzero, rfl, _⟩ := h
  exact ⟨howner, hzero, rfl⟩

/-- The tokens of a lockin go to its account, which is the only change of what is held. -/
theorem lockin_ok {secret : Bytes32} (h : c.lockin msg account secret = some (c', es)) :
    msg.blockNumber < (c.lockinHtlc account).expiration ∧
    c'.lockinHtlc = Function.update c.lockinHtlc account {} ∧ c'.lockoutHtlc = c.lockoutHtlc ∧
    held c'.balances = held c.balances + (c.lockinHtlc account).value.toNat := by
  simp only [lockin, Option.bind_eq_bind, Option.bind_eq_some_iff, Option.pure_def, Option.some.injEq,
    Prod.mk.injEq, Option.guard_eq_some'] at h
  obtain ⟨_, _, _, _, _, _, _, hblock, _, hbal, _, _, rfl, _⟩ := h
  have hsum := held_update c.balances account (c.balances account + (c.lockinHtlc account).value)
  rw [toNat_add_of_lt (toNat_add_of_ge hbal)] at hsum
  refine ⟨hblock, rfl, rfl, ?_⟩
  simp only []
  omega

theorem cancelLockin_ok (h : c.cancelLockin msg account = some (c', es)) :
    c' = { c with lockinHtlc := Function.update c.lockinHtlc account {} } := by
  simp only [cancelLockin, Option.bind_eq_bind, Option.bind_eq_some_iff, Option.pure_def, Option.some.injEq,
    Prod.mk.injEq, Option.guard_eq_some'] at h
  obtain ⟨_, _, _, _, _, _, rfl, _⟩ := h
  rfl

theorem prepareLockout_ok {secretHash : Bytes32} {expiration value : UInt256}
    (h : c.prepareLockout msg secretHash expiration value = some (c', es)) :
    (c.lockoutHtlc msg.sender).value = 0 ∧ c'.lockinHtlc = c.lockinHtlc ∧
    c'.lockoutHtlc = Function.update c.lockoutHtlc msg.sender
      { secretHash := secretHash, expiration := expiration, value := value } ∧
    held c'.balances + value.toNat = held c.balances := by
  simp only [prepareLockout, Option.bind_eq_bind, Option.bind_eq_some_iff, Option.pure_def, Option.some.injEq,
    Prod.mk.injEq, Option.guard_eq_some'] at h
  obtain ⟨_, _, _, _, _, hzero, _, hle, rfl, _⟩ := h
  have hsum := held_update c.balances msg.sender (c.balances msg.sender - value)
  rw [toNat_sub_of_le hle] at hsum
  have hle' : value.toNat ≤ (c.balances msg.sender).toNat := hle
  refine ⟨hzero, rfl, rfl, ?_⟩
  simp only []
  omega

theorem lockout_ok {secret : Bytes32} (h : c.lockout msg account secret = some (c', es)) :
    c'.lockinHtlc = c.lockinHtlc ∧ c'.lockoutHtlc = Function.update c.lockoutHtlc account {} ∧
    c'.balances = c.balances := by
  simp only [lockout, Option.bind_eq_bind, Option.bind_eq_some_iff, Option.pure_def, Option.some.injEq,
    Prod.mk.injEq, Option.guard_eq_some'] at h
  obtain ⟨_, _, _, _, _, _, _, _, _, _, rfl, _⟩ := h
  exact ⟨rfl, rfl, rfl⟩

theorem cancelLockOut_ok (hc : c.Supplied) (h : c.cancelLockOut msg account = some (c', es)) :
    c'.lockinHtlc = c.lockinHtlc ∧ c'.lockoutHtlc = Function.update c.lockoutHtlc account {} ∧
    held c'.balances = held c.balances + (c.lockoutHtlc account).value.toNat := by
  have hlt := (cancelLockOut_supplied h hc).2
  simp only [cancelLockOut, Option.bind_eq_bind, Option.bind_eq_some_iff, Option.pure_def, Option.some.injEq,
    Prod.mk.injEq, Option.guard_eq_some'] at h
  obtain ⟨_, _, _, _, _, _, rfl, _⟩ := h
  have hsum := held_update c.balances account (c.balances account + (c.lockoutHtlc account).value)
  rw [toNat_add_of_lt hlt] at hsum
  refine ⟨rfl, rfl, ?_⟩
  simp only []
  omega

/-- A call that writes no lock and keeps the supply moves tokens between balances only. -/
theorem held_of_supplied (hc : c.Supplied) (hc' : c'.Supplied) (htotal : c'.totalSupply = c.totalSupply)
    (hlockout : c'.lockoutHtlc = c.lockoutHtlc) : held c'.balances = held c.balances := by
  unfold Supplied at hc hc'
  rw [htotal, hlockout] at hc'
  omega

theorem transfer_supply {dst : Address} {value : UInt256} (h : c.transfer msg dst value = some (c', es)) :
    c'.totalSupply = c.totalSupply := by
  unfold transfer at h
  split at h <;>
    simp only [Option.bind_eq_bind, Option.bind_eq_some_iff, Option.pure_def, Option.some.injEq, Prod.mk.injEq] at h <;>
    obtain ⟨_, _, rfl, _⟩ := h <;>
    rfl

theorem transferFrom_supply {src dst : Address} {value : UInt256}
    (h : c.transferFrom msg src dst value = some (c', es)) : c'.totalSupply = c.totalSupply := by
  unfold transferFrom at h
  split at h <;>
    simp only [Option.bind_eq_bind, Option.bind_eq_some_iff, Option.pure_def, Option.some.injEq, Prod.mk.injEq] at h <;>
    obtain ⟨_, _, rfl, _⟩ := h <;>
    rfl

end Inversion

end AtmosphereToken

/-- Both contracts with the last blocks that they have seen, and what the locks of the notaries answer. -/
structure Bridge where
  mc : LockedEthereum
  sc : AtmosphereToken
  mcBlock : UInt256 := 0
  scBlock : UInt256 := 0
  lockins : Legs Address := {}
  lockouts : Legs Address := {}

namespace Bridge

def new (mcOwner scOwner : Address) : Bridge where
  mc := LockedEthereum.deployed mcOwner
  sc := AtmosphereToken.deployed scOwner

/-- A transaction on one of the chains; `user` has the lock that a lock of the notaries answers. -/
inductive Tx where
  | main (msg : Msg) (call : LockedEthereum.Call) (user : Address := 0)
  | side (msg : Msg) (call : AtmosphereToken.Call) (user : Address := 0)

section Next

variable (L : Legs Address) (msg : Msg) (user : Address)

def mainLockins : LockedEthereum.Call → Legs Address
  | .prepareLockin _ _ => L.putUp msg.sender
  | .lockin account _ => L.leave account .claimed
  | .cancelLockin account => L.leave account .void
  | _ => L

def mainLockouts : LockedEthereum.Call → Legs Address
  | .prepareLockoutHTLC account _ _ _ => L.answer account user
  | .lockout account _ => L.redeem account
  | .cancleLockOut account => L.drop account
  | _ => L

/-- The token contract accepts locks of nothing, which answer nothing. -/
def sideLockins : AtmosphereToken.Call → Legs Address
  | .prepareLockin account _ _ value => if value = 0 then L.drop account else L.answer account user
  | .lockin account _ => L.redeem account
  | .cancelLockin account => L.drop account
  | _ => L

def sideLockouts : AtmosphereToken.Call → Legs Address
  | .prepareLockout _ _ _ => L.putUp msg.sender
  | .lockout src _ => L.leave src .claimed
  | .cancelLockOut account => L.leave account .void
  | _ => L

end Next

def execMain (b : Bridge) (msg : Msg) (call : LockedEthereum.Call) (user : Address) : Bridge :=
  match call.exec b.mc msg with
  | none => b
  | some (mc, _) =>
    { b with mc := mc, lockins := mainLockins b.lockins msg call, lockouts := mainLockouts b.lockouts user call }

def execSide (b : Bridge) (msg : Msg) (call : AtmosphereToken.Call) (user : Address) : Bridge :=
  match call.exec b.sc msg with
  | none => b
  | some (sc, _) =>
    { b with sc := sc, lockins := sideLockins b.lockins user call, lockouts := sideLockouts b.lockouts msg call }

/-- The state after a transaction, which a revert leaves as it was but for the block. -/
def next (b : Bridge) : Tx → Bridge
  | .main msg call user => { b with mcBlock := msg.blockNumber }.execMain msg call user
  | .side msg call user => { b with scBlock := msg.blockNumber }.execSide msg call user

/-- The amounts of the locks of a contract. -/
def amounts (htlc : Address → Htlc) (account : Address) : ℕ := (htlc account).value.toNat

/-- The lock can still be redeemed. -/
def Alive (htlc : Address → Htlc) (block : UInt256) (account : Address) : Prop := block < (htlc account).expiration

/-- The lock of the user is answered for the first time, and by no more than it holds. -/
def Answers (L : Legs Address) (htlc : Address → Htlc) (user : Address) (value : UInt256) : Prop :=
  value.toNat ≤ amounts htlc user ∧ L.given user = false ∧ ¬ L.Answered user

/-- No answer to the lock of the user has been redeemed, or can be. -/
def Free (L : Legs Address) (htlc : Address → Htlc) (block : UInt256) (account : Address) : Prop :=
  L.given account = false ∧ ∀ n, L.stand n = .on account → ¬ Alive htlc block n

/-- What notaries and users have to see to when their calls succeed. -/
def OrderlyMain (b : Bridge) (user : Address) : LockedEthereum.Call → Prop
  | .prepareLockoutHTLC _ _ _ value => Answers b.lockouts b.sc.lockoutHtlc user value
  | .cancelLockin account => Free b.lockins b.sc.lockinHtlc b.scBlock account
  | _ => True

def OrderlySide (b : Bridge) (user : Address) : AtmosphereToken.Call → Prop
  | .prepareLockin _ _ _ value => value ≠ 0 → Answers b.lockins b.mc.lockinHtlc user value
  | .cancelLockOut account => Free b.lockouts b.mc.lockoutHtlc b.mcBlock account
  | _ => True

/-- Blocks come in order, and a transaction that succeeds is in order. -/
def Orderly (b : Bridge) : Tx → Prop
  | .main msg call user => b.mcBlock ≤ msg.blockNumber ∧ ((call.exec b.mc msg).isSome → b.OrderlyMain user call)
  | .side msg call user => b.scBlock ≤ msg.blockNumber ∧ ((call.exec b.sc msg).isSome → b.OrderlySide user call)

/-- The deposits on the main chain for which no tokens have been minted. -/
def deposits (b : Bridge) : ℕ := Legs.kept (amounts b.mc.lockinHtlc) b.lockins

/-- The tokens that can be minted for ether that the notaries have claimed. -/
def mintable (b : Bridge) : ℕ := Legs.promised (amounts b.sc.lockinHtlc) b.lockins

/-- The tokens locked for lockouts whose ether has not been paid. -/
def lockedTokens (b : Bridge) : ℕ := Legs.kept (amounts b.sc.lockoutHtlc) b.lockouts

/-- The ether that can be paid for tokens that have been burned. -/
def payable (b : Bridge) : ℕ := Legs.promised (amounts b.mc.lockoutHtlc) b.lockouts

/-- All that the ether of the main chain contract has to cover. -/
def claims (b : Bridge) : ℕ :=
  b.deposits + b.mintable + AtmosphereToken.held b.sc.balances + b.lockedTokens + b.payable

structure Sound (b : Bridge) : Prop where
  supplied : b.sc.Supplied
  lockins : Legs.Fits (amounts b.mc.lockinHtlc) (amounts b.sc.lockinHtlc) (Alive b.sc.lockinHtlc b.scBlock) b.lockins
  lockouts : Legs.Fits (amounts b.sc.lockoutHtlc) (amounts b.mc.lockoutHtlc) (Alive b.mc.lockoutHtlc b.mcBlock)
    b.lockouts
  covered : b.claims ≤ b.mc.balance

theorem amounts_update (htlc : Address → Htlc) (account : Address) (li : Htlc) :
    amounts (Function.update htlc account li) = Function.update (amounts htlc) account li.value.toNat := by
  funext k
  by_cases hk : k = account
  · subst hk
    simp [amounts]
  · simp [amounts, Function.update_of_ne hk]

theorem amounts_clear (htlc : Address → Htlc) (account : Address) :
    amounts (Function.update htlc account {}) = Function.update (amounts htlc) account 0 :=
  amounts_update htlc account {}

theorem alive_of_update {htlc : Address → Htlc} {block : UInt256} {account k : Address} {li : Htlc} (hk : k ≠ account)
    (h : Alive (Function.update htlc account li) block k) : Alive htlc block k := by
  rwa [Alive, Function.update_of_ne hk] at h

theorem Sound.raise_main {b : Bridge} (h : b.Sound) {block : UInt256} (hle : b.mcBlock ≤ block) :
    Sound { b with mcBlock := block } :=
  ⟨h.supplied, h.lockins, h.lockouts.mono fun k hk => show b.mcBlock < _ by unfold Alive at hk; bv_omega, h.covered⟩

theorem Sound.raise_side {b : Bridge} (h : b.Sound) {block : UInt256} (hle : b.scBlock ≤ block) :
    Sound { b with scBlock := block } :=
  ⟨h.supplied, h.lockins.mono fun k hk => show b.scBlock < _ by unfold Alive at hk; bv_omega, h.lockouts, h.covered⟩

section Main

variable {b : Bridge} {msg : Msg} {user account : Address} {mc : LockedEthereum} {es : List LockedEthereum.Event}

open LockedEthereum

theorem Sound.main_prepareLockin (h : b.Sound) {secretHash : Bytes32} {expiration : UInt256}
    (hexec : b.mc.prepareLockin msg secretHash expiration = some (mc, es)) :
    Sound { b with mc := mc, lockins := b.lockins.putUp msg.sender } := by
  obtain ⟨hzero, -, rfl⟩ := prepareLockin_ok hexec
  have hm : amounts b.mc.lockinHtlc msg.sender = 0 := by simp [amounts, hzero]
  have hkept := Legs.kept_putUp (L := b.lockins) (x := msg.value.toNat) hm
  have hcovered := h.covered
  refine ⟨h.supplied, ?_, h.lockouts, ?_⟩
  · simp only [amounts_update]
    exact h.lockins.putUp hm
  · simp only [claims, deposits, mintable, lockedTokens, payable, amounts_update, Legs.promised_putUp] at hcovered ⊢
    omega

theorem Sound.main_lockin (h : b.Sound) {secret : Bytes32} (hexec : b.mc.lockin msg account secret = some (mc, es)) :
    Sound { b with mc := mc, lockins := b.lockins.leave account .claimed } := by
  obtain ⟨-, -, -, rfl⟩ := lockin_ok hexec
  have hkept := Legs.kept_leave (a := amounts b.mc.lockinHtlc) (L := b.lockins) (m := account) (s := .claimed)
  have hpromised := h.lockins.promised_claim (m := account)
  have hcovered := h.covered
  refine ⟨h.supplied, ?_, h.lockouts, ?_⟩
  · simp only [amounts_clear]
    exact h.lockins.leave (.inl rfl)
  · simp only [claims, deposits, mintable, lockedTokens, payable, amounts_clear] at hcovered ⊢
    omega

theorem Sound.main_cancelLockin (h : b.Sound) (hfree : Free b.lockins b.sc.lockinHtlc b.scBlock account)
    (hexec : b.mc.cancelLockin msg account = some (mc, es)) :
    Sound { b with mc := mc, lockins := b.lockins.leave account .void } := by
  obtain ⟨-, -, hle, rfl⟩ := cancelLockin_ok hexec
  have hkept := Legs.kept_leave (a := amounts b.mc.lockinHtlc) (L := b.lockins) (m := account) (s := .void)
  have hcovered := h.covered
  refine ⟨h.supplied, ?_, h.lockouts, ?_⟩
  · simp only [amounts_clear]
    exact h.lockins.leave (.inr ⟨rfl, hfree.2⟩)
  · have hvalue : amounts b.mc.lockinHtlc account = (b.mc.lockinHtlc account).value.toNat := rfl
    simp only [claims, deposits, mintable, lockedTokens, payable, amounts_clear, Legs.promised_void] at hcovered ⊢
    simp only [hfree.1, Bool.false_eq_true, if_false] at hkept
    omega

theorem Sound.main_prepareLockout (h : b.Sound) {secretHash : Bytes32} {expiration value : UInt256}
    (hanswers : Answers b.lockouts b.sc.lockoutHtlc user value)
    (hexec : b.mc.prepareLockoutHTLC msg account secretHash expiration value = some (mc, es)) :
    Sound { b with mc := mc, lockouts := b.lockouts.answer account user } := by
  obtain ⟨-, -, hne, rfl⟩ := prepareLockoutHTLC_ok hexec
  have hpromised := Legs.promised_answer_le (v := amounts b.mc.lockoutHtlc) (L := b.lockouts) (n := account)
    (m := user) (x := value.toNat)
  have hcovered := h.covered
  refine ⟨h.supplied, h.lockins, ?_, ?_⟩
  · simp only [amounts_update]
    refine h.lockouts.answer (fun k hk => alive_of_update hk) ?_ hanswers.1 hanswers.2.1 hanswers.2.2
    rintro hzero
    exact hne (BitVec.eq_of_toNat_eq hzero)
  · simp only [claims, deposits, mintable, lockedTokens, payable, amounts_update] at hcovered ⊢
    have hkept : Legs.kept (amounts b.sc.lockoutHtlc) (b.lockouts.answer account user) =
      Legs.kept (amounts b.sc.lockoutHtlc) b.lockouts := rfl
    omega

theorem Sound.main_lockout (h : b.Sound) {secret : Bytes32} (hblock : b.mcBlock = msg.blockNumber)
    (hexec : b.mc.lockout msg account secret = some (mc, es)) :
    Sound { b with mc := mc, lockouts := b.lockouts.redeem account } := by
  obtain ⟨-, -, hlt, hle, rfl⟩ := lockout_ok hexec
  have halive : Alive b.mc.lockoutHtlc b.mcBlock account := hblock ▸ hlt
  have hredeem := h.lockouts.redeem_le halive
  have hcovered := h.covered
  refine ⟨h.supplied, h.lockins, ?_, ?_⟩
  · simp only [amounts_clear]
    exact h.lockouts.redeem fun k hk => alive_of_update hk
  · have hvalue : amounts b.mc.lockoutHtlc account = (b.mc.lockoutHtlc account).value.toNat := rfl
    simp only [claims, deposits, mintable, lockedTokens, payable, amounts_clear] at hcovered ⊢
    omega

theorem Sound.main_cancleLockOut (h : b.Sound) (hexec : b.mc.cancleLockOut msg account = some (mc, es)) :
    Sound { b with mc := mc, lockouts := b.lockouts.drop account } := by
  obtain ⟨-, -, rfl⟩ := cancleLockOut_ok hexec
  have hpromised := Legs.promised_drop_le (v := amounts b.mc.lockoutHtlc) (L := b.lockouts) (n := account) (x := 0)
  have hcovered := h.covered
  refine ⟨h.supplied, h.lockins, ?_, ?_⟩
  · simp only [amounts_clear]
    exact h.lockouts.drop fun k hk => alive_of_update hk
  · simp only [claims, deposits, mintable, lockedTokens, payable, amounts_clear] at hcovered ⊢
    have hkept : Legs.kept (amounts b.sc.lockoutHtlc) (b.lockouts.drop account) =
      Legs.kept (amounts b.sc.lockoutHtlc) b.lockouts := rfl
    omega

theorem Sound.execMain (h : b.Sound) (hblock : b.mcBlock = msg.blockNumber) (call : LockedEthereum.Call)
    (hord : (call.exec b.mc msg).isSome → b.OrderlyMain user call) : (b.execMain msg call user).Sound := by
  unfold Bridge.execMain
  cases hexec : call.exec b.mc msg with
  | none => exact h
  | some r =>
    obtain ⟨mc, es⟩ := r
    have hord := hord (by rw [hexec]; rfl)
    cases call with
    | changeOwner newOwner =>
      obtain ⟨_, rfl⟩ := changeOwner_ok hexec
      exact ⟨h.supplied, h.lockins, h.lockouts, h.covered⟩
    | acceptOwnership =>
      obtain ⟨_, rfl⟩ := acceptOwnership_ok hexec
      exact ⟨h.supplied, h.lockins, h.lockouts, h.covered⟩
    | prepareLockin secretHash expiration => exact h.main_prepareLockin hexec
    | lockin account secret => exact h.main_lockin hexec
    | cancelLockin account => exact h.main_cancelLockin hord hexec
    | prepareLockoutHTLC account secretHash expiration value => exact h.main_prepareLockout hord hexec
    | lockout account secret => exact h.main_lockout hblock hexec
    | cancleLockOut account => exact h.main_cancleLockOut hexec

end Main

section Side

variable {b : Bridge} {msg : Msg} {user account : Address} {sc : AtmosphereToken} {es : List AtmosphereToken.Event}

open AtmosphereToken

/-- A call that only moves tokens between balances. -/
theorem Sound.of_quiet (h : b.Sound) (hsupplied : sc.Supplied) (hlockin : sc.lockinHtlc = b.sc.lockinHtlc)
    (hlockout : sc.lockoutHtlc = b.sc.lockoutHtlc) (htotal : sc.totalSupply = b.sc.totalSupply) :
    Sound { b with sc := sc } := by
  have hheld := held_of_supplied h.supplied hsupplied htotal hlockout
  have hcovered := h.covered
  refine ⟨hsupplied, ?_, ?_, ?_⟩
  · simp only [hlockin]
    exact h.lockins
  · simp only [hlockout]
    exact h.lockouts
  · simp only [claims, deposits, mintable, lockedTokens, payable, hlockin, hlockout] at hcovered ⊢
    omega

theorem Sound.side_prepareLockin (h : b.Sound) {secretHash : Bytes32} {expiration value : UInt256}
    (hanswers : value ≠ 0 → Answers b.lockins b.mc.lockinHtlc user value)
    (hexec : b.sc.prepareLockin msg account secretHash expiration value = some (sc, es)) :
    Sound { b with
      sc := sc
      lockins := if value = 0 then b.lockins.drop account else b.lockins.answer account user } := by
  have hcall : (Call.prepareLockin account secretHash expiration value).exec b.sc msg = some (sc, es) := hexec
  have hsupplied := exec_supplied hcall h.supplied
  obtain ⟨-, -, rfl⟩ := prepareLockin_ok hexec
  have hcovered := h.covered
  by_cases hvalue : value = 0
  · subst hvalue
    have hpromised := Legs.promised_drop_le (v := amounts b.sc.lockinHtlc) (L := b.lockins) (n := account)
      (x := (0 : UInt256).toNat)
    simp only [if_true]
    refine ⟨hsupplied, ?_, h.lockouts, ?_⟩
    · simp only [amounts_update]
      exact h.lockins.drop fun k hk => alive_of_update hk
    · have hkept : Legs.kept (amounts b.mc.lockinHtlc) (b.lockins.drop account) =
        Legs.kept (amounts b.mc.lockinHtlc) b.lockins := rfl
      simp only [claims, deposits, mintable, lockedTokens, payable, amounts_update] at hcovered ⊢
      omega
  · obtain ⟨hle, hgiven, hfree⟩ := hanswers hvalue
    have hpromised := Legs.promised_answer_le (v := amounts b.sc.lockinHtlc) (L := b.lockins) (n := account)
      (m := user) (x := value.toNat)
    simp only [hvalue, if_false]
    refine ⟨hsupplied, ?_, h.lockouts, ?_⟩
    · simp only [amounts_update]
      refine h.lockins.answer (fun k hk => alive_of_update hk) ?_ hle hgiven hfree
      exact fun hzero => hvalue (BitVec.eq_of_toNat_eq hzero)
    · have hkept : Legs.kept (amounts b.mc.lockinHtlc) (b.lockins.answer account user) =
        Legs.kept (amounts b.mc.lockinHtlc) b.lockins := rfl
      simp only [claims, deposits, mintable, lockedTokens, payable, amounts_update] at hcovered ⊢
      omega

theorem Sound.side_lockin (h : b.Sound) {secret : Bytes32} (hblock : b.scBlock = msg.blockNumber)
    (hexec : b.sc.lockin msg account secret = some (sc, es)) :
    Sound { b with sc := sc, lockins := b.lockins.redeem account } := by
  have hsupplied := (lockin_supplied hexec h.supplied).1
  obtain ⟨hlt, hlockin, hlockout, hheld⟩ := lockin_ok hexec
  have halive : Alive b.sc.lockinHtlc b.scBlock account := hblock ▸ hlt
  have hredeem := h.lockins.redeem_le halive
  have hcovered := h.covered
  refine ⟨hsupplied, ?_, ?_, ?_⟩
  · simp only [hlockin, amounts_clear]
    exact h.lockins.redeem fun k hk => alive_of_update hk
  · simp only [hlockout]
    exact h.lockouts
  · have hvalue : amounts b.sc.lockinHtlc account = (b.sc.lockinHtlc account).value.toNat := rfl
    simp only [claims, deposits, mintable, lockedTokens, payable, hlockin, hlockout, amounts_clear] at hcovered ⊢
    omega

theorem Sound.side_cancelLockin (h : b.Sound) (hexec : b.sc.cancelLockin msg account = some (sc, es)) :
    Sound { b with sc := sc, lockins := b.lockins.drop account } := by
  have hcall : (Call.cancelLockin account).exec b.sc msg = some (sc, es) := hexec
  have hsupplied := exec_supplied hcall h.supplied
  obtain rfl := cancelLockin_ok hexec
  have hpromised := Legs.promised_drop_le (v := amounts b.sc.lockinHtlc) (L := b.lockins) (n := account) (x := 0)
  have hcovered := h.covered
  refine ⟨hsupplied, ?_, h.lockouts, ?_⟩
  · simp only [amounts_clear]
    exact h.lockins.drop fun k hk => alive_of_update hk
  · have hkept : Legs.kept (amounts b.mc.lockinHtlc) (b.lockins.drop account) =
      Legs.kept (amounts b.mc.lockinHtlc) b.lockins := rfl
    simp only [claims, deposits, mintable, lockedTokens, payable, amounts_clear] at hcovered ⊢
    omega

theorem Sound.side_prepareLockout (h : b.Sound) {secretHash : Bytes32} {expiration value : UInt256}
    (hexec : b.sc.prepareLockout msg secretHash expiration value = some (sc, es)) :
    Sound { b with sc := sc, lockouts := b.lockouts.putUp msg.sender } := by
  have hsupplied := (prepareLockout_supplied hexec h.supplied).1
  obtain ⟨hzero, hlockin, hlockout, hheld⟩ := prepareLockout_ok hexec
  have hm : amounts b.sc.lockoutHtlc msg.sender = 0 := by simp [amounts, hzero]
  have hkept := Legs.kept_putUp (L := b.lockouts) (x := value.toNat) hm
  have hcovered := h.covered
  refine ⟨hsupplied, ?_, ?_, ?_⟩
  · simp only [hlockin]
    exact h.lockins
  · simp only [hlockout, amounts_update]
    exact h.lockouts.putUp hm
  · simp only [claims, deposits, mintable, lockedTokens, payable, hlockin, hlockout, amounts_update,
      Legs.promised_putUp] at hcovered ⊢
    omega

theorem Sound.side_lockout (h : b.Sound) {secret : Bytes32} (hexec : b.sc.lockout msg account secret = some (sc, es)) :
    Sound { b with sc := sc, lockouts := b.lockouts.leave account .claimed } := by
  have hsupplied := (lockout_supplied hexec h.supplied).1
  obtain ⟨hlockin, hlockout, hbalances⟩ := lockout_ok hexec
  have hkept := Legs.kept_leave (a := amounts b.sc.lockoutHtlc) (L := b.lockouts) (m := account) (s := .claimed)
  have hpromised := h.lockouts.promised_claim (m := account)
  have hcovered := h.covered
  refine ⟨hsupplied, ?_, ?_, ?_⟩
  · simp only [hlockin]
    exact h.lockins
  · simp only [hlockout, amounts_clear]
    exact h.lockouts.leave (.inl rfl)
  · simp only [claims, deposits, mintable, lockedTokens, payable, hlockin, hlockout, hbalances, amounts_clear]
      at hcovered ⊢
    omega

theorem Sound.side_cancelLockOut (h : b.Sound) (hfree : Free b.lockouts b.mc.lockoutHtlc b.mcBlock account)
    (hexec : b.sc.cancelLockOut msg account = some (sc, es)) :
    Sound { b with sc := sc, lockouts := b.lockouts.leave account .void } := by
  have hsupplied := (cancelLockOut_supplied hexec h.supplied).1
  obtain ⟨hlockin, hlockout, hheld⟩ := cancelLockOut_ok h.supplied hexec
  have hkept := Legs.kept_leave (a := amounts b.sc.lockoutHtlc) (L := b.lockouts) (m := account) (s := .void)
  have hcovered := h.covered
  refine ⟨hsupplied, ?_, ?_, ?_⟩
  · simp only [hlockin]
    exact h.lockins
  · simp only [hlockout, amounts_clear]
    exact h.lockouts.leave (.inr ⟨rfl, hfree.2⟩)
  · have hvalue : amounts b.sc.lockoutHtlc account = (b.sc.lockoutHtlc account).value.toNat := rfl
    simp only [claims, deposits, mintable, lockedTokens, payable, hlockin, hlockout, amounts_clear, Legs.promised_void]
      at hcovered ⊢
    simp only [hfree.1, Bool.false_eq_true, if_false] at hkept
    omega

theorem Sound.execSide (h : b.Sound) (hblock : b.scBlock = msg.blockNumber) (call : AtmosphereToken.Call)
    (hord : (call.exec b.sc msg).isSome → b.OrderlySide user call) : (b.execSide msg call user).Sound := by
  unfold Bridge.execSide
  cases hexec : call.exec b.sc msg with
  | none => exact h
  | some r =>
    obtain ⟨sc, es⟩ := r
    have hord := hord (by rw [hexec]; rfl)
    have hsupplied := exec_supplied hexec h.supplied
    have hwrites := exec_writes hexec
    cases call with
    | changeOwner newOwner =>
      simp only [Call.exec, changeOwner, Option.bind_eq_bind, Option.bind_eq_some_iff, Option.pure_def,
        Option.some.injEq, Prod.mk.injEq] at hexec
      obtain ⟨_, _, _, _, rfl, _⟩ := hexec
      exact h.of_quiet hsupplied rfl rfl rfl
    | acceptOwnership =>
      simp only [Call.exec, acceptOwnership, Option.bind_eq_bind, Option.bind_eq_some_iff, Option.pure_def,
        Option.some.injEq, Prod.mk.injEq] at hexec
      obtain ⟨_, _, _, _, rfl, _⟩ := hexec
      exact h.of_quiet hsupplied rfl rfl rfl
    | approve spender value =>
      simp only [Call.exec, approve, Option.bind_eq_bind, Option.bind_eq_some_iff, Option.pure_def,
        Option.some.injEq, Prod.mk.injEq] at hexec
      obtain ⟨_, _, rfl, _⟩ := hexec
      exact h.of_quiet hsupplied rfl rfl rfl
    | transfer dst value => exact h.of_quiet hsupplied hwrites.1 hwrites.2 (transfer_supply hexec)
    | transferFrom src dst value => exact h.of_quiet hsupplied hwrites.1 hwrites.2 (transferFrom_supply hexec)
    | prepareLockin account secretHash expiration value => exact h.side_prepareLockin hord hexec
    | lockin account secret => exact h.side_lockin hblock hexec
    | cancelLockin account => exact h.side_cancelLockin hexec
    | prepareLockout secretHash expiration value => exact h.side_prepareLockout hexec
    | lockout src secret => exact h.side_lockout hexec
    | cancelLockOut account => exact h.side_cancelLockOut hord hexec

end Side

theorem Sound.next {b : Bridge} (h : b.Sound) {tx : Tx} (hord : b.Orderly tx) : (b.next tx).Sound := by
  cases tx with
  | main msg call user => exact (h.raise_main hord.1).execMain rfl call hord.2
  | side msg call user => exact (h.raise_side hord.1).execSide rfl call hord.2

theorem Sound.new (mcOwner scOwner : Address) : (new mcOwner scOwner).Sound where
  supplied := AtmosphereToken.deployed_supplied scOwner
  lockins := Legs.Fits.new
  lockouts := Legs.Fits.new
  covered := by
    simp [claims, deposits, mintable, lockedTokens, payable, Legs.kept, Legs.promised, amounts, Bridge.new,
      LockedEthereum.deployed, AtmosphereToken.deployed, AtmosphereToken.held, Stand.owes, total_zero]

theorem Sound.foldl {b : Bridge} (h : b.Sound) {txs : List Tx} (hord : Along Bridge.next Orderly b txs) :
    (txs.foldl Bridge.next b).Sound := by
  induction txs generalizing b with
  | nil => exact h
  | cons tx txs ih => exact ih (h.next hord.1) hord.2

/-- A lockout that can be redeemed is covered, as the user's tokens are locked for it or burned. -/
theorem Sound.lockout_le {b : Bridge} (h : b.Sound) {account : Address}
    (halive : Alive b.mc.lockoutHtlc b.mcBlock account) : amounts b.mc.lockoutHtlc account ≤ b.mc.balance := by
  have hredeem := h.lockouts.redeem_le halive
  have hcovered := h.covered
  simp only [claims, lockedTokens, payable] at hcovered
  omega

theorem Sound.deposit_le {b : Bridge} (h : b.Sound) {account : Address} (hgiven : b.lockins.given account = false) :
    amounts b.mc.lockinHtlc account ≤ b.mc.balance := by
  have hle := value_le_total (fun m => if b.lockins.given m = true then 0 else amounts b.mc.lockinHtlc m) account
  simp only [hgiven, Bool.false_eq_true, if_false] at hle
  have hcovered := h.covered
  simp only [claims, deposits, Legs.kept] at hcovered
  omega

/-- Over any transactions on both chains that are in order, the ether of the main chain contract covers the deposits
that can be taken back, all tokens in circulation and all that is still promised to users; so no redemption of a
lockout fails for want of ether, and no refund of a deposit for which no tokens were minted. -/
theorem collateralized (mcOwner scOwner : Address) {txs : List Tx}
    (hord : Along next Orderly (new mcOwner scOwner) txs) :
    let b := txs.foldl next (new mcOwner scOwner)
    b.claims ≤ b.mc.balance ∧
      (∀ account, Alive b.mc.lockoutHtlc b.mcBlock account → (b.mc.lockoutHtlc account).value.toNat ≤ b.mc.balance) ∧
        ∀ account, b.lockins.given account = false → (b.mc.lockinHtlc account).value.toNat ≤ b.mc.balance := by
  intro b
  have h : b.Sound := Sound.foldl (.new mcOwner scOwner) hord
  exact ⟨h.covered, fun _ => h.lockout_le, fun _ => h.deposit_le⟩

/-- A user locks 10 wei, gets 8 tokens and locks 5 of them, for which 4 wei are paid. -/
def lockinAndOut : List Tx :=
  [.main { sender := 2, value := 10, blockNumber := 1 } (.prepareLockin (sha256 7) 1000),
    .side { sender := 1, blockNumber := 1 } (.prepareLockin 3 (sha256 7) 500 8) 2,
    .side { sender := 3, blockNumber := 2 } (.lockin 3 7),
    .main { sender := 1, blockNumber := 2 } (.lockin 2 7),
    .side { sender := 3, blockNumber := 3 } (.prepareLockout (sha256 9) 1000 5),
    .main { sender := 1, blockNumber := 3 } (.prepareLockoutHTLC 2 (sha256 9) 500 4) 3,
    .main { sender := 2, blockNumber := 4 } (.lockout 2 9),
    .side { sender := 1, blockNumber := 4 } (.lockout 3 9)]

theorem collateralized_lockinAndOut :
    let b := lockinAndOut.foldl next (new 1 1)
    b.claims ≤ b.mc.balance ∧
      (∀ account, Alive b.mc.lockoutHtlc b.mcBlock account → (b.mc.lockoutHtlc account).value.toNat ≤ b.mc.balance) ∧
        ∀ account, b.lockins.given account = false → (b.mc.lockinHtlc account).value.toNat ≤ b.mc.balance := by
  have hord : Along next Orderly (new 1 1) lockinAndOut := by
    simp [lockinAndOut, Along, Orderly, next, execMain, execSide, OrderlyMain, OrderlySide, new,
      LockedEthereum.deployed, AtmosphereToken.deployed, LockedEthereum.Call.exec, AtmosphereToken.Call.exec,
      LockedEthereum.prepareLockin, LockedEthereum.lockin, LockedEthereum.prepareLockoutHTLC,
      LockedEthereum.lockout, LockedEthereum.transfer, AtmosphereToken.prepareLockin, AtmosphereToken.lockin,
      AtmosphereToken.prepareLockout, AtmosphereToken.lockout, Msg.notPayable, Owned.onlyOwner, guard, Answers,
      amounts, Legs.Answered, mainLockins, mainLockouts, sideLockins, sideLockouts, Legs.putUp, Legs.answer,
      Legs.redeem, Legs.leave, Stand.leave, Stand.give]
  exact collateralized 1 1 hord

/-- The tokens are minted, and the deposit is taken back before the notaries claim it. -/
def takenBack : List Tx :=
  [.main { sender := 2, value := 10, blockNumber := 1 } (.prepareLockin (sha256 7) 10),
    .side { sender := 1, blockNumber := 1 } (.prepareLockin 3 (sha256 7) 500 8) 2,
    .side { sender := 3, blockNumber := 2 } (.lockin 3 7),
    .main { sender := 2, blockNumber := 11 } (.cancelLockin 2)]

theorem balance_le_claims (b : Bridge) (account : Address) : (b.sc.balances account).toNat ≤ b.claims := by
  have hle := AtmosphereToken.balance_le_held b.sc.balances account
  unfold claims
  omega

/-- Then the tokens are not covered any more. -/
theorem takenBack_uncovered :
    ¬ (takenBack.foldl next (new 1 1)).claims ≤ (takenBack.foldl next (new 1 1)).mc.balance := by
  have hbalance : (takenBack.foldl next (new 1 1)).mc.balance = 0 := by
    simp [takenBack, next, execMain, execSide, new, LockedEthereum.deployed, AtmosphereToken.deployed,
      LockedEthereum.Call.exec, AtmosphereToken.Call.exec, LockedEthereum.prepareLockin, LockedEthereum.cancelLockin,
      LockedEthereum.transfer, AtmosphereToken.prepareLockin, AtmosphereToken.lockin, Msg.notPayable, Owned.onlyOwner,
      guard]
  have htokens : (takenBack.foldl next (new 1 1)).sc.balances 3 = 8 := by
    simp [takenBack, next, execMain, execSide, new, LockedEthereum.deployed, AtmosphereToken.deployed,
      LockedEthereum.Call.exec, AtmosphereToken.Call.exec, LockedEthereum.prepareLockin, LockedEthereum.cancelLockin,
      LockedEthereum.transfer, AtmosphereToken.prepareLockin, AtmosphereToken.lockin, Msg.notPayable, Owned.onlyOwner,
      guard]
  have hle := balance_le_claims (takenBack.foldl next (new 1 1)) 3
  rw [htokens] at hle
  rw [hbalance]
  intro hcovered
  exact absurd (hle.trans hcovered) (by decide)

end Bridge

end DistributedNotary.Contracts
