import DistributedNotary.Library.Sha256
import Mathlib.Data.Option.Basic
import Mathlib.Logic.Function.Basic

/-! What the two contracts share: words, addresses, messages, the `Owned` base
contract and the slot of a hash time lock. A call that reverts is `none`, and a
call that succeeds gives the new state with the events it emits. A mapping is a
function whose default is zero. -/
namespace DistributedNotary.Contracts

open Library

abbrev Address := BitVec 160

abbrev UInt256 := BitVec 256

abbrev Bytes32 := BitVec 256

/-- `sha256(abi.encodePacked(secret))`, which is also `ShaSecret` of the notaries. -/
def sha256 (secret : Bytes32) : Bytes32 :=
  BitVec.ofNat 256 (Sha256.digest ((List.range 32).map fun i => secret.toNat / 256 ^ (31 - i) % 256))

/-- The message of a call with the number of its block; `takes` is whether the account that the
call pays takes the transfer. -/
structure Msg where
  sender : Address
  value : UInt256 := 0
  blockNumber : UInt256
  takes : Bool := true

/-- `LockinInfo` and `LockoutInfo` of both contracts. -/
structure Htlc where
  secretHash : Bytes32 := 0
  expiration : UInt256 := 0
  value : UInt256 := 0
  deriving DecidableEq

structure Owned where
  owner : Address
  newOwner : Address := 0

/-- The check of a function that is not payable. -/
def Msg.notPayable (msg : Msg) : Option Unit := guard (msg.value = 0)

def Owned.onlyOwner (c : Owned) (msg : Msg) : Option Unit := guard (msg.sender = c.owner)

def Owned.changeOwner (c : Owned) (msg : Msg) (newOwner : Address) : Option Owned := do
  c.onlyOwner msg
  guard (newOwner ≠ c.owner)
  return { c with newOwner := newOwner }

def Owned.acceptOwnership (c : Owned) (msg : Msg) : Option Owned := do
  guard (msg.sender = c.newOwner)
  return { owner := c.newOwner, newOwner := 0 }

end DistributedNotary.Contracts
