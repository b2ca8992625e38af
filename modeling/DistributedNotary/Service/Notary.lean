import DistributedNotary.Service.Message

/-! One notary that is asked to sign: it finds the record that the message is
about in the service of the token, rebuilds the transaction and compares. The
tables of the database are shared by the services of all tokens. -/
namespace DistributedNotary.Service

open Library Btc Contracts

structure PrivateKeyInfo where
  address : Address
  pubKeyHash : PubKeyHash

/-- What the Bitcoin node reports about a deposit. -/
structure BTCPrepareLockinInfo where
  blockNumber : UInt64
  blockNumberTime : ℤ
  txHash : String
  index : UInt32

/-- The answers of the nodes while one message is checked. -/
structure Node where
  gas : GasOracle
  getPrepareLockinInfo : SCPrepareLockinRequest → Except String BTCPrepareLockinInfo

structure NotaryService where
  lockinDB : RecordMap lockinKind := {}
  lockoutDB : RecordMap lockoutKind := {}
  outpoints : OutpointTable := {}
  /-- `scToken2CrossChainServiceMap`, with the address of the contract on the main chain. -/
  services : RangeMap Address CrossChainService := ∅
  mcLockedContractAddress : Address → Address := fun _ => 0

/-- The record that a lockin request is about. A Bitcoin deposit is registered here. -/
def CrossChainService.getLockInInfoBySCPrepareLockInRequest (cs : CrossChainService) (x : Externals) (node : Node)
    (req : SCPrepareLockinRequest) : CrossChainService × Except Failure LockinInfo :=
  match cs.mcName with
  | .ethereum =>
    match cs.lockinHandler.getLockin req.secretHash with
    | .error e => (cs, .error e)
    | .ok lockinInfo =>
      if lockinInfo.mcUserAddressHex ≠ .account (x.bytesToAddress req.mcUserAddress) then
        (cs, .error (.error "MCUserAddress wrong"))
      else if lockinInfo.mcLockStatus ≠ .lock then (cs, .error (.error "MCLockStatus wrong"))
      else if lockinInfo.scLockStatus ≠ .none then (cs, .error (.error "SCLockStatus wrong"))
      else (cs, .ok lockinInfo)
  | .bitcoin =>
    match x.newAddressPubKeyHash req.mcUserAddress with
    | none => (cs, .error (.error "MCUserAddress wrong"))
    | some mcUserAddress =>
      match node.getPrepareLockinInfo req with
      | .error e => (cs, .error (.error e))
      | .ok btcPrepareLockinInfo =>
        if req.mcExpiration - btcPrepareLockinInfo.blockNumber ≤ cs.cfg.getMinExpirationBlock4User .bitcoin then
          (cs, .error (.error
            ("mcExpiration must bigger than " ++ toString (cs.cfg.getMinExpirationBlock4User .bitcoin))))
        else
          match getSignerETHAddress x req.signer with
          | .error e => (cs, .error e)
          | .ok scUserAddress =>
            let amount := req.mcLockedAmount.toInt
            let lockinInfo : LockinInfo := {
              mcChainName := cs.mcName
              secretHash := req.secretHash
              secret := emptyHash
              mcUserAddressHex := .bitcoin mcUserAddress
              scUserAddress := scUserAddress
              scTokenAddress := cs.scToken
              amount := amount
              mcExpiration := req.mcExpiration
              scExpiration := cs.calculateSCExpiration req.mcExpiration
              mcLockStatus := .lock
              scLockStatus := .none
              notaryIDInCharge := unknownNotaryIDInCharge
              startTime := btcPrepareLockinInfo.blockNumberTime
              startMCBlockNumber := btcPrepareLockinInfo.blockNumber
              btcPrepareLockinTXHashHex := btcPrepareLockinInfo.txHash
              btcPrepareLockinVout := btcPrepareLockinInfo.index
              crossFee := cs.cfg.calculateCrossFee cs.mcName amount }
            let r := cs.lockinHandler.registerLockin lockinInfo
            ({ cs with lockinHandler := r.1 },
              (wrap "lockinHandler.registerLockin err2 = " r.2).map fun _ => lockinInfo)
  | .spectrum => (cs, .error (.error "unknown chain : spectrum"))

namespace NotaryService

variable (ns : NotaryService)

/-- The service of a token over the shared tables. -/
def service (scToken : Address) : Option CrossChainService :=
  (ns.services.lookup scToken).map fun cs => { cs with
    lockinHandler := { cs.lockinHandler with db := ns.lockinDB }
    lockoutHandler := { cs.lockoutHandler with db := ns.lockoutDB } }

/-- The notary after a service worked on its records. -/
def put (scToken : Address) (cs : CrossChainService) : NotaryService :=
  { ns with
    lockinDB := cs.lockinHandler.db
    lockoutDB := cs.lockoutHandler.db
    services := ns.services.insert scToken cs }

/-- `f` run by the service of a token, if there is one. -/
def run {α : Type} (scToken : Address) (f : CrossChainService → CrossChainService × Except Failure α) :
    NotaryService × Except Failure α :=
  match ns.service scToken with
  | none => (ns, .error (.panic "never happen"))
  | some cs => (ns.put scToken (f cs).1, (f cs).2)

def getLockinInfo (scTokenAddress : Address) (secretHash : Bytes32) : Except Failure LockinInfo :=
  match ns.service scTokenAddress with
  | none => .error (.panic "never happen")
  | some cs => cs.lockinHandler.getLockin secretHash

def getLockoutInfo (scTokenAddress : Address) (secretHash : Bytes32) : Except Failure LockoutInfo :=
  match ns.service scTokenAddress with
  | none => .error (.panic "never happen")
  | some cs => cs.lockoutHandler.getLockout secretHash

def updateLockinInfoNotaryIDInChargeID (scTokenAddress : Address) (secretHash : Bytes32) (notaryID : ℤ) :
    NotaryService × Except Failure Unit :=
  ns.run scTokenAddress fun cs =>
    match cs.lockinHandler.getLockin secretHash with
    | .error e => (cs, .error e)
    | .ok lockinInfo =>
      let r := cs.lockinHandler.updateLockin { lockinInfo with notaryIDInCharge := notaryID }
      ({ cs with lockinHandler := r.1 }, r.2)

def updateLockoutInfoNotaryIDInChargeID (scTokenAddress : Address) (secretHash : Bytes32) (notaryID : ℤ) :
    NotaryService × Except Failure Unit :=
  ns.run scTokenAddress fun cs =>
    match cs.lockoutHandler.getLockout secretHash with
    | .error e => (cs, .error e)
    | .ok lockoutInfo =>
      let r := cs.lockoutHandler.updateLockout { lockoutInfo with notaryIDInCharge := notaryID }
      ({ cs with lockoutHandler := r.1 }, r.2)

/-- The assignments to the fields of a record that the service of the token found reach its memory. -/
def assignLockin (token : Address) (lockinInfo : LockinInfo) : NotaryService :=
  (ns.run token fun cs =>
    ({ cs with lockinHandler := cs.lockinHandler.assign lockinInfo }, (.ok () : Except Failure Unit))).1

def assignLockout (token : Address) (lockoutInfo : LockoutInfo) : NotaryService :=
  (ns.run token fun cs =>
    ({ cs with lockoutHandler := cs.lockoutHandler.assign lockoutInfo }, (.ok () : Except Failure Unit))).1

/-- `checkMsgToSign` for the answer to a lockin. -/
def checkSpectrumPrepareLockin (x : Externals) (node : Node) (privateKeyInfo : PrivateKeyInfo)
    (m : SpectrumPrepareLockinTxData) (senderID : ℤ) : NotaryService × Except Failure PrepareTx :=
  let token := m.userRequest.scTokenAddress
  match ns.run token fun cs => cs.getLockInInfoBySCPrepareLockInRequest x node m.userRequest with
  | (ns, .error e) => (ns, .error e)
  | (ns, .ok localLockinInfo) =>
    let v := m.verifySignData x node.gas localLockinInfo.scTokenAddress privateKeyInfo.address localLockinInfo
    -- the record is shared with the service that found it
    let ns := ns.assignLockin token v.1
    match v.2 with
    | .error e => (ns, .error e)
    | .ok tx =>
      let r := ns.updateLockinInfoNotaryIDInChargeID localLockinInfo.scTokenAddress localLockinInfo.secretHash senderID
      (r.1, r.2.map fun _ => tx)

/-- `checkMsgToSign` for the answer to a lockout on Ethereum. -/
def checkEthereumPrepareLockout (x : Externals) (node : Node) (privateKeyInfo : PrivateKeyInfo)
    (m : EthereumPrepareLockoutTxData) (senderID : ℤ) : NotaryService × Except Failure PrepareTx :=
  let token := m.userRequest.scTokenAddress
  match ns.getLockoutInfo token m.userRequest.secretHash with
  | .error e => (ns, .error e)
  | .ok localLockoutInfo =>
    let v := m.verifySignData x node.gas (ns.mcLockedContractAddress localLockoutInfo.scTokenAddress)
      privateKeyInfo.address localLockoutInfo
    let ns := ns.assignLockout token v.1
    match v.2 with
    | .error e => (ns, .error e)
    | .ok tx =>
      let r := ns.updateLockoutInfoNotaryIDInChargeID localLockoutInfo.scTokenAddress localLockoutInfo.secretHash
        senderID
      (r.1, r.2.map fun _ => tx)

/-- `checkMsgToSign` for the answer to a lockout on Bitcoin. The listening for the inputs that
follows does not decide. -/
def checkBitcoinPrepareLockout (x : Externals) (privateKeyInfo : PrivateKeyInfo) (m : BitcoinPrepareLockoutTXData) :
    NotaryService × Except Failure (MsgTx × LockoutScript) :=
  match ns.getLockoutInfo m.scTokenAddress m.secretHash with
  | .error e => (ns, .error e)
  | .ok localLockoutInfo =>
    -- the requester's expiration replaces the local one
    let localLockoutInfo := { localLockoutInfo with mcExpiration := m.mcExpiration }
    let ns := ns.assignLockout m.scTokenAddress localLockoutInfo
    (ns, m.verifySignData x localLockoutInfo privateKeyInfo.pubKeyHash ns.outpoints)

/-- `checkMsgToSign` for a lockin on Bitcoin. -/
def checkBitcoinLockin (x : Externals) (privateKeyInfo : PrivateKeyInfo) (m : BitcoinLockinTXData) :
    NotaryService × Except Failure MsgTx :=
  match ns.getLockinInfo m.scTokenAddress m.secretHash with
  | .error e => (ns, .error e)
  | .ok localLockinInfo => (ns, m.verifySignData x localLockinInfo privateKeyInfo.pubKeyHash)

end NotaryService

end DistributedNotary.Service
