import DistributedNotary.Library.Checks
import DistributedNotary.Service.CrossChain

/-! The later events of a lockin. Each looks its record up, checks it and
changes it in memory and in the table; a new block lets the locks expire that
end in it. -/
namespace DistributedNotary.Service

open Library Contracts

namespace LockinHandler

/-- The loop of `onMCNewBlockEvent` and of `onSCNewBlockEvent` over the records in memory, in the
order in which the map hands out their hashes. The first failure of the database ends it. -/
def expireAll (expire : LockinInfo → Option LockinInfo) (lh : LockinHandler) :
    List Bytes32 → LockinHandler × Except Failure (List LockinInfo)
  | [] => (lh, .ok [])
  | secretHash :: rest =>
    match (lh.dealingMap.lookup secretHash).bind expire with
    | none => expireAll expire lh rest
    | some lockin =>
      let lh := lh.assign lockin
      match lh.dbUpdate lockin with
      | .error e => (lh, wrap "db.UpdateLockinInfo err = " (.error e))
      | .ok db =>
        let r := expireAll expire { lh with db := db } rest
        (r.1, r.2.map (lockin :: ·))

variable (lh : LockinHandler)

/-- A block of the main chain, in which locks of users end. -/
def onMCNewBlockEvent (mcNewBlockNumber : UInt64) (order : List Bytes32) :
    LockinHandler × Except Failure (List LockinInfo) :=
  if lh.dealingMapLock then (lh, .error .blocked)
  else expireAll (fun lockin =>
    if lockin.mcLockStatus = .lock ∧ lockin.mcExpiration ≤ mcNewBlockNumber then
      some { lockin with mcLockStatus := .expiration }
    else none) lh order

/-- A block of the side chain, in which locks of the notaries end, which are then to be cancelled. -/
def onSCNewBlockEvent (scNewBlockNumber : UInt64) (order : List Bytes32) :
    LockinHandler × Except Failure (List LockinInfo) :=
  if lh.dealingMapLock then (lh, .error .blocked)
  else expireAll (fun lockin =>
    if lockin.scLockStatus = .lock ∧ lockin.scExpiration ≤ scNewBlockNumber then
      some { lockin with scLockStatus := .expiration }
    else none) lh order

end LockinHandler

namespace Handler

variable {ρ : Type} {kind : RecordKind ρ}

/-- The loop over the records in memory that both handlers run on a new block. -/
def expireAll (expire : ρ → Option ρ) (lh : Handler kind) : List Bytes32 → Handler kind × Except Failure (List ρ)
  | [] => (lh, .ok [])
  | secretHash :: rest =>
    match (lh.dealingMap.lookup secretHash).bind expire with
    | none => expireAll expire lh rest
    | some info =>
      let lh := lh.assign info
      match lh.dbUpdate info with
      | .error e => (lh, wrap ("db.Update" ++ kind.name ++ " err = ") (.error e))
      | .ok db =>
        let r := expireAll expire { lh with db := db } rest
        (r.1, r.2.map (info :: ·))

/-- The loop over the lockins is that loop. -/
theorem lockin_expireAll (expire : LockinInfo → Option LockinInfo) (lh : LockinHandler) (order : List Bytes32) :
    LockinHandler.expireAll expire lh order = Handler.expireAll expire lh order := by
  induction order generalizing lh with
  | nil => rfl
  | cons secretHash rest ih =>
    unfold LockinHandler.expireAll Handler.expireAll
    cases (lh.dealingMap.lookup secretHash).bind expire with
    | none => exact ih lh
    | some info =>
      dsimp only
      cases (lh.assign info).dbUpdate info with
      | error e => rfl
      | ok db =>
        dsimp only
        rw [ih]

end Handler

/-- The events of both chains that are about lockins, with what the contract answers when they are
processed. -/
inductive LockinEvent where
  | mcPrepareLockin (mcProxy : Except String LockedEthereum) (event : PrepareEvent)
  | scPrepareLockin (scTokenProxy : Except String AtmosphereToken) (event : PrepareEvent)
  | scLockinSecret (secret : Bytes32)
  | mcLockin4Ethereum (account : Address) (secretHash : Bytes32) (time : ℤ) (blockNumber : UInt64)
  | mcLockin4Bitcoin (secretHash : Bytes32) (time : ℤ) (blockNumber : UInt64)
  | mcCancelLockin4Ethereum (account : Address) (secretHash : Bytes32) (time : ℤ) (blockNumber : UInt64)
  | mcCancelLockin4Bitcoin (secretHash : Bytes32) (time : ℤ) (blockNumber : UInt64)
  | scCancelLockin (account : Address) (secretHash : Bytes32) (time : ℤ)
  | mcNewBlock (blockNumber : UInt64) (order : List Bytes32)
  | scNewBlock (blockNumber : UInt64) (order : List Bytes32)

namespace CrossChainService

variable (cs : CrossChainService)

/-- What the handlers of the later events of a lockin share. -/
def amendLockin (updateErr : String) (secretHash : Bytes32) (change : LockinInfo → Except Failure LockinInfo) :
    CrossChainService × Except Failure LockinInfo :=
  match wrap "lockinHandler.getLockin err = " (cs.lockinHandler.getLockin secretHash) with
  | .error e => (cs, .error e)
  | .ok lockinInfo =>
    match change lockinInfo with
    | .error e => (cs, .error e)
    | .ok lockinInfo =>
      let r := cs.lockinHandler.updateLockin lockinInfo
      ({ cs with lockinHandler := r.1 }, (wrap updateErr r.2).map fun _ => lockinInfo)

/-- `onSCPrepareLockin` is of that form. -/
theorem onSCPrepareLockin_eq (scTokenProxy : Except String AtmosphereToken) (event : PrepareEvent) :
    cs.onSCPrepareLockin scTokenProxy event =
      match query "scTokenProxy.QueryLockin" scTokenProxy (·.queryLockin event.account) with
      | .error e => (cs, .error e)
      | .ok (secretHash, scExpiration, _) =>
        cs.amendLockin "lockinHandler.UpdateLockinInfo err = " secretHash fun lockinInfo => .ok { lockinInfo with
          scExpiration := scExpiration, scLockStatus := .lock, scUserAddress := event.account } := rfl

/-- The user took the notaries' lock with the secret. -/
def onSCLockinSecret (secret : Bytes32) : CrossChainService × Except Failure LockinInfo :=
  cs.amendLockin "lockinHandler.updateLockin err = " (sha256 secret) fun lockinInfo => do
    ensure (lockinInfo.secret = emptyHash) (.error "receive repeat SCLockinSecret, ignore")
    return { lockinInfo with secret := secret, scLockStatus := .unlock }

/-- The user's lock was taken with the secret. -/
def onMCLockin4Ethereum (account : Address) (secretHash : Bytes32) (time : ℤ) (blockNumber : UInt64) :
    CrossChainService × Except Failure LockinInfo :=
  cs.amendLockin "lockinHandler.UpdateLockinInfo err = " secretHash fun lockinInfo => do
    ensure (lockinInfo.mcUserAddressHex = .account account) (.error "MCUserAddressHex does't match")
    return { lockinInfo with mcLockStatus := .unlock, endTime := time, endMCBlockNumber := blockNumber }

/-- The record's part of the event; the outputs that it brings go to the table of outputs. -/
def onMCLockin4Bitcoin (secretHash : Bytes32) (time : ℤ) (blockNumber : UInt64) :
    CrossChainService × Except Failure LockinInfo :=
  cs.amendLockin "lockinHandler.UpdateLockinInfo err = " secretHash fun lockinInfo =>
    .ok { lockinInfo with mcLockStatus := .unlock, endTime := time, endMCBlockNumber := blockNumber }

/-- The user took the main chain lock back. -/
def onMCCancelLockin4Ethereum (account : Address) (secretHash : Bytes32) (time : ℤ) (blockNumber : UInt64) :
    CrossChainService × Except Failure LockinInfo :=
  cs.amendLockin "lockinHandler.updateLockin err = " secretHash fun lockinInfo => do
    ensure (lockinInfo.mcUserAddressHex = .account account) (.error "MCUserAddressHex does't match")
    return { lockinInfo with mcLockStatus := .cancel, endTime := time, endMCBlockNumber := blockNumber }

def onMCCancelLockin4Bitcoint (secretHash : Bytes32) (time : ℤ) (blockNumber : UInt64) :
    CrossChainService × Except Failure LockinInfo :=
  cs.amendLockin "lockinHandler.updateLockin err = " secretHash fun lockinInfo =>
    .ok { lockinInfo with mcLockStatus := .cancel, endTime := time, endMCBlockNumber := blockNumber }

/-- The notaries took the side chain lock back. -/
def onSCCancelLockin (account : Address) (secretHash : Bytes32) (time : ℤ) :
    CrossChainService × Except Failure LockinInfo :=
  cs.amendLockin "lockinHandler.updateLockin err = " secretHash fun lockinInfo => do
    ensure (lockinInfo.scUserAddress = account) (.error "SCUserAddress does't match")
    return { lockinInfo with scLockStatus := .cancel, endTime := time }

/-- The lockins' part of a new block of the main chain. -/
def onMCNewBlockEvent (blockNumber : UInt64) (order : List Bytes32) :
    CrossChainService × Except Failure (List LockinInfo) :=
  let r := cs.lockinHandler.onMCNewBlockEvent blockNumber order
  ({ cs with mcLastedBlockNumber := blockNumber, lockinHandler := r.1 }, r.2)

/-- The lockins' part of a new block of the side chain. -/
def onSCNewBlockEvent (blockNumber : UInt64) (order : List Bytes32) :
    CrossChainService × Except Failure (List LockinInfo) :=
  let r := cs.lockinHandler.onSCNewBlockEvent blockNumber order
  ({ cs with scLastedBlockNumber := blockNumber, lockinHandler := r.1 }, r.2)

/-- The record that one handler changed. -/
def single (r : CrossChainService × Except Failure LockinInfo) :
    CrossChainService × Except Failure (List LockinInfo) := (r.1, r.2.map fun l => [l])

/-- The part of `OnEvent` that is about lockins, with the records that the handler changed. -/
def onEvent : LockinEvent → CrossChainService × Except Failure (List LockinInfo)
  | .mcPrepareLockin mcProxy event => single (cs.onMCPrepareLockin4Ethereum mcProxy event)
  | .scPrepareLockin scTokenProxy event => single (cs.onSCPrepareLockin scTokenProxy event)
  | .scLockinSecret secret => single (cs.onSCLockinSecret secret)
  | .mcLockin4Ethereum account secretHash time blockNumber =>
    single (cs.onMCLockin4Ethereum account secretHash time blockNumber)
  | .mcLockin4Bitcoin secretHash time blockNumber => single (cs.onMCLockin4Bitcoin secretHash time blockNumber)
  | .mcCancelLockin4Ethereum account secretHash time blockNumber =>
    single (cs.onMCCancelLockin4Ethereum account secretHash time blockNumber)
  | .mcCancelLockin4Bitcoin secretHash time blockNumber =>
    single (cs.onMCCancelLockin4Bitcoint secretHash time blockNumber)
  | .scCancelLockin account secretHash time => single (cs.onSCCancelLockin account secretHash time)
  | .mcNewBlock blockNumber order => cs.onMCNewBlockEvent blockNumber order
  | .scNewBlock blockNumber order => cs.onSCNewBlockEvent blockNumber order

/-- The end of `onSCPrepareLockinRequest`, after the contract call. -/
def chargeLockin (secretHash : Bytes32) : CrossChainService × Except Failure LockinInfo :=
  cs.amendLockin "lockinHandler.updateLockin err = " secretHash fun lockinInfo =>
    .ok { lockinInfo with notaryIDInCharge := cs.selfNotaryID }

end CrossChainService

end DistributedNotary.Service
