import DistributedNotary.Contracts.Solidity
import DistributedNotary.Library.Slots

/-! The side chain contract: an ERC20 token that the notaries mint through
lockins and that users burn through lockouts, each under a hash time lock.
Arithmetic is that of `uint256`. -/
namespace DistributedNotary.Contracts

open Library

structure AtmosphereToken extends Owned where
  totalSupply : UInt256 := 1
  balances : Address → UInt256 := fun _ => 0
  allowed : Address → Address → UInt256 := fun _ _ => 0
  lockinHtlc : Address → Htlc := fun _ => {}
  lockoutHtlc : Address → Htlc := fun _ => {}

namespace AtmosphereToken

inductive Event where
  | ownerUpdate (prevOwner newOwner : Address)
  | transfer (src dst : Address) (value : UInt256)
  | approval (owner spender : Address) (value : UInt256)
  | prepareLockin (account : Address) (value : UInt256)
  | lockinSecret (account : Address) (secret : Bytes32)
  | prepareLockout (account : Address) (value : UInt256)
  | lockout (account : Address) (secretHash : Bytes32)
  | cancelLockin (account : Address) (secretHash : Bytes32)
  | cancelLockout (account : Address) (secretHash : Bytes32)
  deriving DecidableEq

abbrev Result := Option (AtmosphereToken × List Event)

def changeOwner (c : AtmosphereToken) (msg : Msg) (newOwner : Address) : Result := do
  msg.notPayable
  let owned ← c.toOwned.changeOwner msg newOwner
  return ({ c with toOwned := owned }, [])

def acceptOwnership (c : AtmosphereToken) (msg : Msg) : Result := do
  msg.notPayable
  let owned ← c.toOwned.acceptOwnership msg
  return ({ c with toOwned := owned }, [.ownerUpdate c.owner c.newOwner])

/-- Moves `value` between two balances, the sender's first. -/
def move (balances : Address → UInt256) (src dst : Address) (value : UInt256) : Address → UInt256 :=
  let balances := Function.update balances src (balances src - value)
  Function.update balances dst (balances dst + value)

/-- `transfer`; the call succeeds without an effect where the source returns `false`. -/
def transfer (c : AtmosphereToken) (msg : Msg) (dst : Address) (value : UInt256) : Result := do
  msg.notPayable
  if c.balances msg.sender ≥ value ∧ c.balances dst + value > c.balances dst then
    return ({ c with balances := move c.balances msg.sender dst value }, [.transfer msg.sender dst value])
  else
    return (c, [])

/-- `transferFrom`, which adds before it subtracts. -/
def transferFrom (c : AtmosphereToken) (msg : Msg) (src dst : Address) (value : UInt256) : Result := do
  msg.notPayable
  if c.balances src ≥ value ∧ c.allowed src msg.sender ≥ value ∧ c.balances dst + value > c.balances dst then
    let balances := Function.update c.balances dst (c.balances dst + value)
    let balances := Function.update balances src (balances src - value)
    let allowed := Function.update c.allowed src
      (Function.update (c.allowed src) msg.sender (c.allowed src msg.sender - value))
    return ({ c with balances := balances, allowed := allowed }, [.transfer src dst value])
  else
    return (c, [])

def approve (c : AtmosphereToken) (msg : Msg) (spender : Address) (value : UInt256) : Result := do
  msg.notPayable
  let allowed := Function.update c.allowed msg.sender (Function.update (c.allowed msg.sender) spender value)
  return ({ c with allowed := allowed }, [.approval msg.sender spender value])

def prepareLockin (c : AtmosphereToken) (msg : Msg) (account : Address) (secretHash : Bytes32)
    (expiration value : UInt256) : Result := do
  msg.notPayable
  c.onlyOwner msg
  guard (account ≠ 0)
  guard ((c.lockinHtlc account).value = 0)
  let li : Htlc := { secretHash := secretHash, expiration := expiration, value := value }
  return ({ c with lockinHtlc := Function.update c.lockinHtlc account li }, [.prepareLockin account value])

def lockin (c : AtmosphereToken) (msg : Msg) (account : Address) (secret : Bytes32) : Result := do
  msg.notPayable
  let li := c.lockinHtlc account
  guard (li.value > 0)
  guard (li.secretHash = sha256 secret)
  guard (li.expiration > msg.blockNumber)
  let oldValue := c.balances account
  guard (oldValue + li.value ≥ li.value)
  let totalSupply := c.totalSupply + li.value
  guard (totalSupply > li.value)
  return ({ c with
      balances := Function.update c.balances account (oldValue + li.value)
      totalSupply := totalSupply
      lockinHtlc := Function.update c.lockinHtlc account {} },
    [.lockinSecret account secret])

def cancelLockin (c : AtmosphereToken) (msg : Msg) (account : Address) : Result := do
  msg.notPayable
  let li := c.lockinHtlc account
  guard (li.value > 0)
  guard (msg.blockNumber > li.expiration)
  return ({ c with lockinHtlc := Function.update c.lockinHtlc account {} }, [.cancelLockin account li.secretHash])

def prepareLockout (c : AtmosphereToken) (msg : Msg) (secretHash : Bytes32) (expiration value : UInt256) :
    Result := do
  msg.notPayable
  guard (value > 0)
  guard ((c.lockoutHtlc msg.sender).value = 0)
  guard (c.balances msg.sender ≥ value)
  let li : Htlc := { secretHash := secretHash, expiration := expiration, value := value }
  return ({ c with
      lockoutHtlc := Function.update c.lockoutHtlc msg.sender li
      balances := Function.update c.balances msg.sender (c.balances msg.sender - value) },
    [.prepareLockout msg.sender value])

def lockout (c : AtmosphereToken) (msg : Msg) (src : Address) (secret : Bytes32) : Result := do
  msg.notPayable
  let li := c.lockoutHtlc src
  guard (li.value > 0)
  guard (li.expiration > msg.blockNumber)
  guard (li.secretHash = sha256 secret)
  let totalSupply := c.totalSupply - li.value
  guard (totalSupply ≥ 1)
  return ({ c with
      lockoutHtlc := Function.update c.lockoutHtlc src {}
      totalSupply := totalSupply },
    [.lockout src li.secretHash])

def cancelLockOut (c : AtmosphereToken) (msg : Msg) (account : Address) : Result := do
  msg.notPayable
  let li := c.lockoutHtlc account
  guard (li.value > 0)
  guard (msg.blockNumber > li.expiration)
  return ({ c with
      lockoutHtlc := Function.update c.lockoutHtlc account {}
      balances := Function.update c.balances account (c.balances account + li.value) },
    [.cancelLockout account li.secretHash])

def queryLockin (c : AtmosphereToken) (account : Address) : Htlc := c.lockinHtlc account

def queryLockout (c : AtmosphereToken) (account : Address) : Htlc := c.lockoutHtlc account

inductive Call where
  | changeOwner (newOwner : Address)
  | acceptOwnership
  | transfer (dst : Address) (value : UInt256)
  | transferFrom (src dst : Address) (value : UInt256)
  | approve (spender : Address) (value : UInt256)
  | prepareLockin (account : Address) (secretHash : Bytes32) (expiration value : UInt256)
  | lockin (account : Address) (secret : Bytes32)
  | cancelLockin (account : Address)
  | prepareLockout (secretHash : Bytes32) (expiration value : UInt256)
  | lockout (src : Address) (secret : Bytes32)
  | cancelLockOut (account : Address)

def Call.exec (c : AtmosphereToken) (msg : Msg) : Call → Result
  | .changeOwner newOwner => c.changeOwner msg newOwner
  | .acceptOwnership => c.acceptOwnership msg
  | .transfer dst value => c.transfer msg dst value
  | .transferFrom src dst value => c.transferFrom msg src dst value
  | .approve spender value => c.approve msg spender value
  | .prepareLockin account secretHash expiration value => c.prepareLockin msg account secretHash expiration value
  | .lockin account secret => c.lockin msg account secret
  | .cancelLockin account => c.cancelLockin msg account
  | .prepareLockout secretHash expiration value => c.prepareLockout msg secretHash expiration value
  | .lockout src secret => c.lockout msg src secret
  | .cancelLockOut account => c.cancelLockOut msg account

/-- The call of a transaction. -/
def execTx (c : AtmosphereToken) (tx : Msg × Call) : Result := tx.2.exec c tx.1

/-- The state after a transaction, which a revert leaves as it was. -/
def next : AtmosphereToken → Msg × Call → AtmosphereToken := Slots.afterCall execTx

/-- The slot that a call overwrites when it succeeds. -/
def Call.lockinWrite : Call → Option (Address × Htlc)
  | .prepareLockin account secretHash expiration value =>
    some (account, { secretHash := secretHash, expiration := expiration, value := value })
  | .lockin account _ => some (account, {})
  | .cancelLockin account => some (account, {})
  | _ => none

def Call.lockoutWrite (msg : Msg) : Call → Option (Address × Htlc)
  | .prepareLockout secretHash expiration value =>
    some (msg.sender, { secretHash := secretHash, expiration := expiration, value := value })
  | .lockout src _ => some (src, {})
  | .cancelLockOut account => some (account, {})
  | _ => none

theorem exec_writes {c c' : AtmosphereToken} {msg : Msg} {call : Call} {es : List Event}
    (h : call.exec c msg = some (c', es)) :
    c'.lockinHtlc = overwrite c.lockinHtlc call.lockinWrite ∧
    c'.lockoutHtlc = overwrite c.lockoutHtlc (call.lockoutWrite msg) := by
  cases call <;>
    simp only [Call.exec, changeOwner, acceptOwnership, transfer, transferFrom, approve, prepareLockin, lockin,
      cancelLockin, prepareLockout, lockout, cancelLockOut, Option.bind_eq_bind, Option.bind_eq_some_iff,
      Option.pure_def, Option.some.injEq, Prod.mk.injEq] at h
  all_goals
    simp only [Call.lockinWrite, Call.lockoutWrite, overwrite]
    grind

/-- The slots that `queryLockin` reads. -/
def lockinSlots : Slots AtmosphereToken (Msg × Call) Address Htlc :=
  Slots.ofExec execTx queryLockin (fun tx => tx.2.lockinWrite) fun _ _ _ _ h => (exec_writes h).1

/-- The slots that `queryLockout` reads. -/
def lockoutSlots : Slots AtmosphereToken (Msg × Call) Address Htlc :=
  Slots.ofExec execTx queryLockout (fun tx => tx.2.lockoutWrite tx.1) fun _ _ _ _ h => (exec_writes h).2

section History

variable {c c1 : AtmosphereToken} {msg : Msg} {call : Call} {es : List Event} {account : Address} {d : Htlc}

theorem queryLockin_foldl (hc : call.exec c msg = some (c1, es)) (hw : call.lockinWrite = some (account, d))
    (post : List (Msg × Call)) :
    (post.foldl next c1).queryLockin account = (lockinSlots.lastWrite account c1 post).getD d :=
  Slots.slot_run_ofExec execTx queryLockin (fun tx : Msg × Call => tx.2.lockinWrite) (t := (msg, call)) hc hw
    post

theorem queryLockout_foldl (hc : call.exec c msg = some (c1, es)) (hw : call.lockoutWrite msg = some (account, d))
    (post : List (Msg × Call)) :
    (post.foldl next c1).queryLockout account = (lockoutSlots.lastWrite account c1 post).getD d :=
  Slots.slot_run_ofExec execTx queryLockout (fun tx : Msg × Call => tx.2.lockoutWrite tx.1) (t := (msg, call)) hc hw
    post

end History

end AtmosphereToken

end DistributedNotary.Contracts
