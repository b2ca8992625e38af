import DistributedNotary.Service.LockinEvents

/-! The later events of a lockout, and the service that handles the events of
lockins and of lockouts one after the other. The user's lock of a lockout is the
one on the side chain. -/
namespace DistributedNotary.Service

open Library Contracts

namespace LockoutHandler

variable (lh : LockoutHandler)

/-- A block of the main chain, in which locks of the notaries end, which are then to be cancelled. -/
def onMCNewBlockEvent (mcNewBlockNumber : UInt64) (order : List Bytes32) :
    LockoutHandler × Except Failure (List LockoutInfo) :=
  if lh.dealingMapLock then (lh, .error .blocked)
  else Handler.expireAll (fun lockout =>
    if lockout.mcLockStatus = .lock ∧ lockout.mcExpiration ≤ mcNewBlockNumber then
      some { lockout with mcLockStatus := .expiration }
    else none) lh order

/-- A block of the side chain, in which locks of users end. -/
def onSCNewBlockEvent (scNewBlockNumber : UInt64) (order : List Bytes32) :
    LockoutHandler × Except Failure (List LockoutInfo) :=
  if lh.dealingMapLock then (lh, .error .blocked)
  else Handler.expireAll (fun lockout =>
    if lockout.scLockStatus = .lock ∧ lockout.scExpiration ≤ scNewBlockNumber then
      some { lockout with scLockStatus := .expiration }
    else none) lh order

end LockoutHandler

/-- `PrepareLockoutEvent` of Bitcoin, with the part of it that goes into the record. -/
structure BtcPrepareLockoutEvent where
  secretHash : Bytes32
  userAddressHex : UserAddressHex
  mcExpiration : UInt64
  txHashHex : String
  lockOutpointIndex : ℤ
  txOutLockScriptHex : String

/-- The events of both chains that are about lockouts, with what the contract answers when they are
processed. -/
inductive LockoutEvent where
  | scPrepareLockout (scTokenProxy : Except String AtmosphereToken) (event : PrepareEvent)
  | mcPrepareLockout4Ethereum (mcProxy : Except String LockedEthereum) (event : PrepareEvent)
  | mcPrepareLockout4Bitcoin (event : BtcPrepareLockoutEvent)
  | mcLockoutSecret4Ethereum (secret : Bytes32)
  | mcLockoutSecret4Bitcoin (secret : Bytes32)
  | scLockout (account : Address) (secretHash : Bytes32) (time : ℤ) (blockNumber : UInt64)
  | mcCancelLockout4Ethereum (account : Address) (secretHash : Bytes32) (time : ℤ)
  | mcCancelLockout4Bitcoin (secretHash : Bytes32) (time : ℤ)
  | scCancelLockout (account : Address) (secretHash : Bytes32) (time : ℤ) (blockNumber : UInt64)
  | mcNewBlock (blockNumber : UInt64) (order : List Bytes32)
  | scNewBlock (blockNumber : UInt64) (order : List Bytes32)

namespace CrossChainService

variable (cs : CrossChainService)

/-- What the handlers of the later events of a lockout share. -/
def amendLockout (secretHash : Bytes32) (change : LockoutInfo → Except Failure LockoutInfo) :
    CrossChainService × Except Failure LockoutInfo :=
  match wrap "lockoutHandler.getLockout err = " (cs.lockoutHandler.getLockout secretHash) with
  | .error e => (cs, .error e)
  | .ok lockoutInfo =>
    match change lockoutInfo with
    | .error e => (cs, .error e)
    | .ok lockoutInfo =>
      let r := cs.lockoutHandler.updateLockout lockoutInfo
      ({ cs with lockoutHandler := r.1 },
        (wrap "lockoutHandler.updateLockout err = " r.2).map fun _ => lockoutInfo)

/-- The record before the notaries have answered it. -/
def Unanswered (lockoutInfo : LockoutInfo) : Prop :=
  lockoutInfo.mcLockStatus = .none ∧ lockoutInfo.scLockStatus = .lock ∧ lockoutInfo.secret = emptyHash

instance (lockoutInfo : LockoutInfo) : Decidable (Unanswered lockoutInfo) := inferInstanceAs (Decidable (_ ∧ _))

/-- `onMCPrepareLockout4Ethereum` is of that form. -/
theorem onMCPrepareLockout4Ethereum_eq (mcProxy : Except String LockedEthereum) (event : PrepareEvent) :
    cs.onMCPrepareLockout4Ethereum mcProxy event =
      match query "mcProxy.QueryLockout" mcProxy (·.queryLockout event.account) with
      | .error e => (cs, .error e)
      | .ok (secretHash, mcExpiration, _) =>
        cs.amendLockout secretHash fun lockoutInfo => do
          ensure (Unanswered lockoutInfo) (.error "local lockoutInfo status does't right,something must wrong")
          return { lockoutInfo with
            mcExpiration := mcExpiration, mcLockStatus := .lock, mcUserAddressHex := .account event.account } := by
  unfold onMCPrepareLockout4Ethereum amendLockout
  cases query "mcProxy.QueryLockout" mcProxy (·.queryLockout event.account) with
  | error e => rfl
  | ok q =>
    obtain ⟨secretHash, mcExpiration, value⟩ := q
    dsimp only
    cases wrap "lockoutHandler.getLockout err = " (cs.lockoutHandler.getLockout secretHash) with
    | error e => rfl
    | ok lockoutInfo =>
      dsimp only
      by_cases hu : Unanswered lockoutInfo
      · obtain ⟨h1, h2, h3⟩ := id hu
        simp [ensure, hu, h1, h2, h3, bind, Except.bind, pure, Except.pure]
      · have hu' : lockoutInfo.mcLockStatus ≠ .none ∨ lockoutInfo.scLockStatus ≠ .lock ∨
            lockoutInfo.secret ≠ emptyHash := by
          unfold Unanswered at hu
          tauto
        rw [if_pos hu']
        simp [ensure, hu, bind, Except.bind]

/-- The record's part of the event; the change and the spent outputs go to the table of outputs. -/
def onMCPrepareLockout4Bitcoin (event : BtcPrepareLockoutEvent) : CrossChainService × Except Failure LockoutInfo :=
  cs.amendLockout event.secretHash fun lockoutInfo => do
    ensure (Unanswered lockoutInfo) (.error "local lockoutInfo status does't right,something must wrong")
    return { lockoutInfo with
      mcExpiration := event.mcExpiration
      mcLockStatus := .lock
      mcUserAddressHex := event.userAddressHex
      btcPrepareLockoutTXHashHex := event.txHashHex
      btcPrepareLockoutVout := UInt32.ofInt event.lockOutpointIndex
      btcLockScriptHex := event.txOutLockScriptHex }

/-- The user took the notaries' lock with the secret. A status that does not fit makes an error that
the update overwrites. -/
def onMCLockoutSecret4Ethereum (secret : Bytes32) : CrossChainService × Except Failure LockoutInfo :=
  cs.amendLockout (sha256 secret) fun lockoutInfo => do
    ensure (lockoutInfo.secret = emptyHash) (.error "receive repeat MCLockoutSecret, ignore")
    return { lockoutInfo with secret := secret, mcLockStatus := .unlock }

def onMCLockoutSecret4Bitcoin (secret : Bytes32) : CrossChainService × Except Failure LockoutInfo :=
  cs.amendLockout (sha256 secret) fun lockoutInfo => do
    ensure (lockoutInfo.secret = emptyHash) (.error "receive repeat MCLockoutSecret, ignore")
    return { lockoutInfo with secret := secret, mcLockStatus := .unlock }

/-- The user's lock was taken with the secret. -/
def onSCLockout (account : Address) (secretHash : Bytes32) (time : ℤ) (blockNumber : UInt64) :
    CrossChainService × Except Failure LockoutInfo :=
  cs.amendLockout secretHash fun lockoutInfo => do
    ensure (lockoutInfo.scUserAddress = account) (.error "SCUserAddress does't match")
    return { lockoutInfo with scLockStatus := .unlock, endTime := time, endSCBlockNumber := blockNumber }

/-- The notaries took the main chain lock back. -/
def onMCCancelLockout4Ethereum (account : Address) (secretHash : Bytes32) (time : ℤ) :
    CrossChainService × Except Failure LockoutInfo :=
  cs.amendLockout secretHash fun lockoutInfo => do
    ensure (lockoutInfo.mcUserAddressHex = .account account) (.error "MCUserAddressHex does't match")
    return { lockoutInfo with mcLockStatus := .cancel, endTime := time }

def onMCCancelLockout4Bitcoin (secretHash : Bytes32) (time : ℤ) : CrossChainService × Except Failure LockoutInfo :=
  cs.amendLockout secretHash fun lockoutInfo => .ok { lockoutInfo with mcLockStatus := .cancel, endTime := time }

/-- The user took the side chain lock back. -/
def onSCCancelLockout (account : Address) (secretHash : Bytes32) (time : ℤ) (blockNumber : UInt64) :
    CrossChainService × Except Failure LockoutInfo :=
  cs.amendLockout secretHash fun lockoutInfo => do
    ensure (lockoutInfo.scUserAddress = account) (.error "SCUserAddress does't match")
    return { lockoutInfo with scLockStatus := .cancel, endTime := time, endSCBlockNumber := blockNumber }

/-- The part of `OnEvent` that is about lockouts. The height is set before, with the lockins' part of
a block. -/
def onLockoutEvent : LockoutEvent → CrossChainService
  | .scPrepareLockout scTokenProxy event => (cs.onSCPrepareLockout scTokenProxy event).1
  | .mcPrepareLockout4Ethereum mcProxy event => (cs.onMCPrepareLockout4Ethereum mcProxy event).1
  | .mcPrepareLockout4Bitcoin event => (cs.onMCPrepareLockout4Bitcoin event).1
  | .mcLockoutSecret4Ethereum secret => (cs.onMCLockoutSecret4Ethereum secret).1
  | .mcLockoutSecret4Bitcoin secret => (cs.onMCLockoutSecret4Bitcoin secret).1
  | .scLockout account secretHash time blockNumber => (cs.onSCLockout account secretHash time blockNumber).1
  | .mcCancelLockout4Ethereum account secretHash time => (cs.onMCCancelLockout4Ethereum account secretHash time).1
  | .mcCancelLockout4Bitcoin secretHash time => (cs.onMCCancelLockout4Bitcoin secretHash time).1
  | .scCancelLockout account secretHash time blockNumber =>
    (cs.onSCCancelLockout account secretHash time blockNumber).1
  | .mcNewBlock blockNumber order =>
    { cs with lockoutHandler := (cs.lockoutHandler.onMCNewBlockEvent blockNumber order).1 }
  | .scNewBlock blockNumber order =>
    { cs with lockoutHandler := (cs.lockoutHandler.onSCNewBlockEvent blockNumber order).1 }

end CrossChainService

/-- What `OnEvent` is given. A block comes in two parts, first for the lockins and then for the
lockouts, between which the goroutine of another event may run. -/
inductive SwapEvent where
  | lockin (e : LockinEvent)
  | lockout (e : LockoutEvent)

/-- One goroutine that `dispatchEvent` launched. -/
def CrossChainService.handle (cs : CrossChainService) : SwapEvent → CrossChainService
  | .lockin e => (cs.onEvent e).1
  | .lockout e => cs.onLockoutEvent e

end DistributedNotary.Service
