import DistributedNotary.Contracts.Solidity
import DistributedNotary.Library.Slots

/-! The main chain contract: the user locks ether for a lockin and the notaries
lock ether for a lockout, each under the hash of a secret until a block. -/
namespace DistributedNotary.Contracts

open Library

structure LockedEthereum extends Owned where
  /-- The ether of the contract. -/
  balance : ℕ := 0
  /-- The transfers that the contract has made, the latest first. -/
  paid : List (Address × UInt256) := []
  lockinHtlc : Address → Htlc := fun _ => {}
  lockoutHtlc : Address → Htlc := fun _ => {}

namespace LockedEthereum

inductive Event where
  | ownerUpdate (prevOwner newOwner : Address)
  | prepareLockin (account : Address) (value : UInt256)
  | lockoutSecret (account : Address) (secret : Bytes32)
  | prepareLockout (account : Address) (value : UInt256)
  | lockin (account : Address) (secretHash : Bytes32)
  | cancelLockin (account : Address) (secretHash : Bytes32)
  | cancelLockout (account : Address) (secretHash : Bytes32)
  deriving DecidableEq

abbrev Result := Option (LockedEthereum × List Event)

/-- `account.transfer(value)`. -/
def transfer (c : LockedEthereum) (msg : Msg) (account : Address) (value : UInt256) : Option LockedEthereum := do
  guard (value.toNat ≤ c.balance)
  guard (msg.takes = true)
  return { c with balance := c.balance - value.toNat, paid := (account, value) :: c.paid }

def changeOwner (c : LockedEthereum) (msg : Msg) (newOwner : Address) : Result := do
  msg.notPayable
  let owned ← c.toOwned.changeOwner msg newOwner
  return ({ c with toOwned := owned }, [])

def acceptOwnership (c : LockedEthereum) (msg : Msg) : Result := do
  msg.notPayable
  let owned ← c.toOwned.acceptOwnership msg
  return ({ c with toOwned := owned }, [.ownerUpdate c.owner c.newOwner])

def prepareLockin (c : LockedEthereum) (msg : Msg) (secretHash : Bytes32) (expiration : UInt256) : Result := do
  guard ((c.lockinHtlc msg.sender).value = 0)
  guard (msg.value > 0)
  let li : Htlc := { secretHash := secretHash, expiration := expiration, value := msg.value }
  return ({ c with
      balance := c.balance + msg.value.toNat
      lockinHtlc := Function.update c.lockinHtlc msg.sender li },
    [.prepareLockin msg.sender msg.value])

def lockin (c : LockedEthereum) (msg : Msg) (account : Address) (secret : Bytes32) : Result := do
  msg.notPayable
  let li := c.lockinHtlc account
  guard (li.value > 0)
  guard (li.secretHash = sha256 secret)
  guard (li.expiration > msg.blockNumber)
  return ({ c with lockinHtlc := Function.update c.lockinHtlc account {} }, [.lockin account li.secretHash])

def cancelLockin (c : LockedEthereum) (msg : Msg) (account : Address) : Result := do
  msg.notPayable
  let li := c.lockinHtlc account
  guard (li.value > 0)
  guard (msg.blockNumber > li.expiration)
  let c ← { c with lockinHtlc := Function.update c.lockinHtlc account {} }.transfer msg account li.value
  return (c, [.cancelLockin account li.secretHash])

def prepareLockoutHTLC (c : LockedEthereum) (msg : Msg) (account : Address) (secretHash : Bytes32)
    (expiration value : UInt256) : Result := do
  msg.notPayable
  c.onlyOwner msg
  guard (account ≠ 0)
  guard (value > 0)
  guard ((c.lockoutHtlc account).value = 0)
  guard (expiration > msg.blockNumber + 300)
  let li : Htlc := { secretHash := secretHash, expiration := expiration, value := value }
  return ({ c with lockoutHtlc := Function.update c.lockoutHtlc account li }, [.prepareLockout account value])

def lockout (c : LockedEthereum) (msg : Msg) (account : Address) (secret : Bytes32) : Result := do
  msg.notPayable
  let li := c.lockoutHtlc account
  guard (li.value > 0)
  guard (li.expiration > msg.blockNumber)
  guard (li.secretHash = sha256 secret)
  let c ← { c with lockoutHtlc := Function.update c.lockoutHtlc account {} }.transfer msg account li.value
  return (c, [.lockoutSecret account secret])

def cancleLockOut (c : LockedEthereum) (msg : Msg) (account : Address) : Result := do
  msg.notPayable
  let li := c.lockoutHtlc account
  guard (li.value > 0)
  guard (msg.blockNumber > li.expiration)
  return ({ c with lockoutHtlc := Function.update c.lockoutHtlc account {} }, [.cancelLockout account li.secretHash])

def queryLockin (c : LockedEthereum) (account : Address) : Htlc := c.lockinHtlc account

def queryLockout (c : LockedEthereum) (account : Address) : Htlc := c.lockoutHtlc account

inductive Call where
  | changeOwner (newOwner : Address)
  | acceptOwnership
  | prepareLockin (secretHash : Bytes32) (expiration : UInt256)
  | lockin (account : Address) (secret : Bytes32)
  | cancelLockin (account : Address)
  | prepareLockoutHTLC (account : Address) (secretHash : Bytes32) (expiration value : UInt256)
  | lockout (account : Address) (secret : Bytes32)
  | cancleLockOut (account : Address)

def Call.exec (c : LockedEthereum) (msg : Msg) : Call → Result
  | .changeOwner newOwner => c.changeOwner msg newOwner
  | .acceptOwnership => c.acceptOwnership msg
  | .prepareLockin secretHash expiration => c.prepareLockin msg secretHash expiration
  | .lockin account secret => c.lockin msg account secret
  | .cancelLockin account => c.cancelLockin msg account
  | .prepareLockoutHTLC account secretHash expiration value =>
    c.prepareLockoutHTLC msg account secretHash expiration value
  | .lockout account secret => c.lockout msg account secret
  | .cancleLockOut account => c.cancleLockOut msg account

/-- The call of a transaction. -/
def execTx (c : LockedEthereum) (tx : Msg × Call) : Result := tx.2.exec c tx.1

/-- The state after a transaction, which a revert leaves as it was. -/
def next : LockedEthereum → Msg × Call → LockedEthereum := Slots.afterCall execTx

/-- The slot that a call overwrites when it succeeds. -/
def Call.lockinWrite (msg : Msg) : Call → Option (Address × Htlc)
  | .prepareLockin secretHash expiration =>
    some (msg.sender, { secretHash := secretHash, expiration := expiration, value := msg.value })
  | .lockin account _ => some (account, {})
  | .cancelLockin account => some (account, {})
  | _ => none

def Call.lockoutWrite : Call → Option (Address × Htlc)
  | .prepareLockoutHTLC account secretHash expiration value =>
    some (account, { secretHash := secretHash, expiration := expiration, value := value })
  | .lockout account _ => some (account, {})
  | .cancleLockOut account => some (account, {})
  | _ => none

theorem exec_writes {c c' : LockedEthereum} {msg : Msg} {call : Call} {es : List Event}
    (h : call.exec c msg = some (c', es)) :
    c'.lockinHtlc = overwrite c.lockinHtlc (call.lockinWrite msg) ∧
    c'.lockoutHtlc = overwrite c.lockoutHtlc call.lockoutWrite := by
  cases call <;>
    simp only [Call.exec, changeOwner, acceptOwnership, prepareLockin, lockin, cancelLockin, prepareLockoutHTLC,
      lockout, cancleLockOut, transfer, Option.bind_eq_bind, Option.bind_eq_some_iff, Option.pure_def,
      Option.some.injEq, Prod.mk.injEq] at h
  all_goals
    simp only [Call.lockinWrite, Call.lockoutWrite, overwrite]
    grind

/-- The slots that `queryLockin` reads. -/
def lockinSlots : Slots LockedEthereum (Msg × Call) Address Htlc :=
  Slots.ofExec execTx queryLockin (fun tx => tx.2.lockinWrite tx.1) fun _ _ _ _ h => (exec_writes h).1

/-- The slots that `queryLockout` reads. -/
def lockoutSlots : Slots LockedEthereum (Msg × Call) Address Htlc :=
  Slots.ofExec execTx queryLockout (fun tx => tx.2.lockoutWrite) fun _ _ _ _ h => (exec_writes h).2

section History

variable {c c1 : LockedEthereum} {msg : Msg} {call : Call} {es : List Event} {account : Address} {d : Htlc}

theorem queryLockin_foldl (hc : call.exec c msg = some (c1, es)) (hw : call.lockinWrite msg = some (account, d))
    (post : List (Msg × Call)) :
    (post.foldl next c1).queryLockin account = (lockinSlots.lastWrite account c1 post).getD d :=
  Slots.slot_run_ofExec execTx queryLockin (fun tx : Msg × Call => tx.2.lockinWrite tx.1) (t := (msg, call)) hc hw
    post

theorem queryLockout_foldl (hc : call.exec c msg = some (c1, es)) (hw : call.lockoutWrite = some (account, d))
    (post : List (Msg × Call)) :
    (post.foldl next c1).queryLockout account = (lockoutSlots.lastWrite account c1 post).getD d :=
  Slots.slot_run_ofExec execTx queryLockout (fun tx : Msg × Call => tx.2.lockoutWrite) (t := (msg, call)) hc hw
    post

end History

end LockedEthereum

end DistributedNotary.Contracts
