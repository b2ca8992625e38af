import DistributedNotary.Contracts.AtmosphereToken
import DistributedNotary.Contracts.LockedEthereum
import DistributedNotary.Service.Config
import DistributedNotary.Service.Records

/-! The cross chain service of one token: its local heights and records, the
expirations it derives, and its handlers of the four events by which a lock
appears on a chain. The events carry the account and the value; the rest is read
from the state that the contract has when the event is processed. -/
namespace DistributedNotary.Service

open Contracts

/-- The part of the token's meta data, of the configuration and of the local state that the
handlers read. -/
structure CrossChainService where
  cfg : Cfg
  mcName : ChainName
  scToken : Address
  selfNotaryID : ℤ
  mcLastedBlockNumber : UInt64
  scLastedBlockNumber : UInt64
  lockinHandler : LockinHandler := {}
  lockoutHandler : LockoutHandler := {}

/-- `PrepareLockinEvent` and `PrepareLockoutEvent` of both chains. -/
structure PrepareEvent where
  account : Address
  amount : ℤ
  blockNumber : UInt64
  time : ℤ

/-- The triple that `QueryLockin` and `QueryLockout` return; the expiration is cut to 64 bits. -/
def queryResult (h : Htlc) : Bytes32 × UInt64 × ℤ :=
  (h.secretHash, UInt64.ofNat h.expiration.toNat, h.value.toNat)

/-- A query through the proxy `p` of the latest state of a contract, or the error of the node. -/
def query {σ : Type} (name : String) (p : Except String σ) (slot : σ → Htlc) :
    Except Failure (Bytes32 × UInt64 × ℤ) :=
  match p with
  | .ok c => .ok (queryResult (slot c))
  | .error e => .error (.error (name ++ " err = " ++ e))

namespace CrossChainService

variable (cs : CrossChainService)

/-- Half of the time that the main chain lock has left, in blocks of the side chain from now. -/
def calculateSCExpiration (mcExpiration : UInt64) : UInt64 :=
  let scCfg := cs.cfg.getCfgByChainName .spectrum
  let mcCfg := cs.cfg.getCfgByChainName cs.mcName
  let mcExpirationSecond := (mcExpiration - cs.mcLastedBlockNumber).toInt64 * mcCfg.blockPeriod
  let scExpirationSecond := mcExpirationSecond / 2
  let scExpirationBlocks := scExpirationSecond / scCfg.blockPeriod
  cs.scLastedBlockNumber + scExpirationBlocks.toUInt64

/-- Half of the time that the side chain lock has left, in blocks of the main chain from now. -/
def calculateMCExpiration (scExpiration : UInt64) : UInt64 :=
  let scCfg := cs.cfg.getCfgByChainName .spectrum
  let mcCfg := cs.cfg.getCfgByChainName cs.mcName
  let scExpirationSecond := (scExpiration - cs.scLastedBlockNumber).toInt64 * scCfg.blockPeriod
  let mcExpirationSecond := scExpirationSecond / 2
  let mcExpirationBlocks := mcExpirationSecond / mcCfg.blockPeriod
  cs.mcLastedBlockNumber + mcExpirationBlocks.toUInt64

/-- The user locked on the main chain. The record comes back with the state. -/
def onMCPrepareLockin4Ethereum (mcProxy : Except String LockedEthereum) (event : PrepareEvent) :
    CrossChainService × Except Failure LockinInfo :=
  match query "mcProxy.QueryLockin" mcProxy (·.queryLockin event.account) with
  | .error e => (cs, .error e)
  | .ok (secretHash, mcExpiration, amount) =>
    if mcExpiration ≤ cs.cfg.getMinExpirationBlock4User cs.mcName + event.blockNumber then
      (cs, .error (.error ("mcExpiration must bigger than " ++ toString (cs.cfg.getMinExpirationBlock4User cs.mcName))))
    else
      let lockinInfo : LockinInfo := {
        mcChainName := .ethereum
        secretHash := secretHash
        secret := emptyHash
        mcUserAddressHex := .account event.account
        scUserAddress := emptyAddress
        scTokenAddress := cs.scToken
        amount := amount
        mcExpiration := mcExpiration
        scExpiration := cs.calculateSCExpiration mcExpiration
        mcLockStatus := .lock
        scLockStatus := .none
        notaryIDInCharge := unknownNotaryIDInCharge
        startTime := event.time
        startMCBlockNumber := event.blockNumber
        crossFee := cs.cfg.calculateCrossFee cs.mcName amount }
      let r := cs.lockinHandler.registerLockin lockinInfo
      ({ cs with lockinHandler := r.1 },
        (wrap "lockinHandler.registerLockin err = " r.2).map fun _ => lockinInfo)

/-- The notaries locked on the side chain. A status that does not fit is only logged. -/
def onSCPrepareLockin (scTokenProxy : Except String AtmosphereToken) (event : PrepareEvent) :
    CrossChainService × Except Failure LockinInfo :=
  match query "scTokenProxy.QueryLockin" scTokenProxy (·.queryLockin event.account) with
  | .error e => (cs, .error e)
  | .ok (secretHash, scExpiration, _) =>
    match wrap "lockinHandler.getLockin err = " (cs.lockinHandler.getLockin secretHash) with
    | .error e => (cs, .error e)
    | .ok lockinInfo =>
      let lockinInfo := { lockinInfo with
        scExpiration := scExpiration, scLockStatus := .lock, scUserAddress := event.account }
      let r := cs.lockinHandler.updateLockin lockinInfo
      ({ cs with lockinHandler := r.1 },
        (wrap "lockinHandler.UpdateLockinInfo err = " r.2).map fun _ => lockinInfo)

/-- The user locked on the side chain. The difference of the heights is one of `uint64`. -/
def onSCPrepareLockout (scTokenProxy : Except String AtmosphereToken) (event : PrepareEvent) :
    CrossChainService × Except Failure LockoutInfo :=
  match query "scTokenProxy.QueryLockout" scTokenProxy (·.queryLockout event.account) with
  | .error e => (cs, .error e)
  | .ok (secretHash, scExpiration, amount) =>
    if scExpiration - event.blockNumber ≤ cs.cfg.getMinExpirationBlock4User .spectrum then
      (cs, .error (.error ("scExpiration must bigger than " ++ toString (cs.cfg.getMinExpirationBlock4User .spectrum))))
    else
      let lockoutInfo : LockoutInfo := {
        mcChainName := cs.mcName
        secretHash := secretHash
        secret := emptyHash
        mcUserAddressHex := .empty
        scUserAddress := event.account
        scTokenAddress := cs.scToken
        amount := amount
        mcExpiration := cs.calculateMCExpiration scExpiration
        scExpiration := scExpiration
        mcLockStatus := .none
        scLockStatus := .lock
        notaryIDInCharge := unknownNotaryIDInCharge
        startTime := event.time
        startSCBlockNumber := event.blockNumber
        crossFee := cs.cfg.calculateCrossFee cs.mcName amount }
      let r := cs.lockoutHandler.registerLockout lockoutInfo
      ({ cs with lockoutHandler := r.1 },
        (wrap "lockoutHandler.registerLockout err = " r.2).map fun _ => lockoutInfo)

/-- The notaries locked on the main chain. -/
def onMCPrepareLockout4Ethereum (mcProxy : Except String LockedEthereum) (event : PrepareEvent) :
    CrossChainService × Except Failure LockoutInfo :=
  match query "mcProxy.QueryLockout" mcProxy (·.queryLockout event.account) with
  | .error e => (cs, .error e)
  | .ok (secretHash, mcExpiration, _) =>
    match wrap "lockoutHandler.getLockout err = " (cs.lockoutHandler.getLockout secretHash) with
    | .error e => (cs, .error e)
    | .ok lockoutInfo =>
      if lockoutInfo.mcLockStatus ≠ .none ∨ lockoutInfo.scLockStatus ≠ .lock ∨ lockoutInfo.secret ≠ emptyHash then
        (cs, .error (.error "local lockoutInfo status does't right,something must wrong"))
      else
        let lockoutInfo := { lockoutInfo with
          mcExpiration := mcExpiration, mcLockStatus := .lock, mcUserAddressHex := .account event.account }
        let r := cs.lockoutHandler.updateLockout lockoutInfo
        ({ cs with lockoutHandler := r.1 },
          (wrap "lockoutHandler.updateLockout err = " r.2).map fun _ => lockoutInfo)

end CrossChainService

end DistributedNotary.Service
