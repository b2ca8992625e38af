import DistributedNotary.Btc.Outpoint
import DistributedNotary.Library.Checks
import DistributedNotary.Service.CrossChain

/-! The messages that notaries sign together and how one notary rebuilds them
from its own records. What lies outside the repository (key formats, the hashes
of transactions and scripts, the gas that a node proposes) is a parameter. -/
namespace DistributedNotary.Service

open Library Btc Contracts

abbrev Bytes := List UInt8

abbrev PublicKey := ℕ × ℕ

abbrev PubKeyHash := BitVec 160

structure Gas where
  price : ℕ
  limit : ℕ
  deriving DecidableEq

inductive Method where
  | prepareLockin
  | prepareLockoutHTLC
  deriving DecidableEq

/-- A transaction that calls a prepare function of a contract. -/
structure PrepareTx where
  caller : Address
  nonce : UInt64
  gas : Gas
  contract : Address
  method : Method
  account : Address
  secretHash : Bytes32
  expiration : UInt64
  amount : ℤ
  deriving DecidableEq

/-- The lock script of a lockout: the user with the secret, or the notaries after the expiration. -/
structure LockoutScript where
  secretHash : Bytes32
  user : PubKeyHash
  expiration : Int64
  notary : PubKeyHash
  deriving DecidableEq

inductive PkScript where
  | payToPubKeyHash (h : PubKeyHash)
  | payToScriptHash (h : BitVec 160)
  deriving DecidableEq

structure OutPoint where
  hash : String
  index : UInt32
  deriving DecidableEq

structure TxOut where
  value : Int64
  pkScript : PkScript
  deriving DecidableEq

structure MsgTx where
  txIn : List OutPoint
  txOut : List TxOut
  deriving DecidableEq

structure Externals where
  decompressPubkey : Bytes → Option PublicKey
  pubkeyToAddress : PublicKey → Address
  addressPubKeyHash : PublicKey → PubKeyHash
  /-- `common.BytesToAddress`. -/
  bytesToAddress : Bytes → Address
  /-- The string of a Bitcoin address; other byte strings are no address. -/
  newAddressPubKeyHash : Bytes → Option String
  decodeAddress : String → Option PubKeyHash
  /-- `signer.Hash(tx).Bytes()`. -/
  signerHash : PrepareTx → Bytes
  scriptHash : LockoutScript → BitVec 160
  txHash : MsgTx → Bytes
  calcSignatureHash : String → MsgTx → ℤ → Except String Bytes
  /-- The signature hash of a lockin transaction, whose input is spent through the lock script of
  the record. -/
  calcLockinSignatureHash : LockinInfo → PubKeyHash → MsgTx → Except String Bytes

/-- Short encodings in place of the real ones, to evaluate with. -/
def Externals.short : Externals where
  decompressPubkey b := some (b.length, 0)
  pubkeyToAddress k := k.1
  addressPubKeyHash k := k.1
  bytesToAddress b := b.length
  newAddressPubKeyHash b := some (String.ofList (b.map fun c => Char.ofNat c.toNat))
  decodeAddress s := some s.length
  signerHash tx := [tx.nonce.toUInt8, UInt8.ofNat tx.account.toNat, tx.expiration.toUInt8]
  scriptHash s := BitVec.ofInt 160 s.expiration.toInt
  txHash tx := tx.txOut.map fun o => o.value.toUInt64.toUInt8
  calcSignatureHash _ tx i := .ok (UInt8.ofNat i.toNat :: tx.txOut.map fun o => o.value.toUInt64.toUInt8)
  calcLockinSignatureHash _ _ tx := .ok (tx.txOut.map fun o => o.value.toUInt64.toUInt8)

/-- The signer of a user request; `nil` is the empty address. A key that does not decompress is
dereferenced. -/
def getSignerETHAddress (x : Externals) (signer : Option Bytes) : Except Failure Address :=
  match signer with
  | none => .ok emptyAddress
  | some b =>
    match x.decompressPubkey b with
    | some k => .ok (x.pubkeyToAddress k)
    | none => .error (.panic "nil pointer dereference")

def getSignerBTCPublicKey (x : Externals) (signer : Option Bytes) : Except Failure PubKeyHash :=
  match signer with
  | none => .error (.panic "nil pointer dereference")
  | some b =>
    match x.decompressPubkey b with
    | some k => .ok (x.addressPubKeyHash k)
    | none => .error (.panic "nil pointer dereference")

structure SCPrepareLockinRequest where
  scTokenAddress : Address
  signer : Option Bytes
  secretHash : Bytes32
  mcUserAddress : Bytes
  mcTXHash : Bytes := []
  mcExpiration : UInt64 := 0
  mcLockedAmount : Int64 := 0
  deriving DecidableEq

structure MCPrepareLockoutRequest where
  scTokenAddress : Address
  signer : Option Bytes
  secretHash : Bytes32
  scUserAddress : Address
  deriving DecidableEq

structure SpectrumPrepareLockinTxData where
  bytesToSign : Bytes
  nonce : UInt64
  userRequest : SCPrepareLockinRequest
  scExpiration : UInt64
  deriving DecidableEq

structure EthereumPrepareLockoutTxData where
  bytesToSign : Bytes
  nonce : UInt64
  userRequest : MCPrepareLockoutRequest
  mcExpiration : UInt64
  deriving DecidableEq

structure BitcoinPrepareLockoutTXData where
  scTokenAddress : Address
  secretHash : Bytes32
  userRequest : MCPrepareLockoutRequest
  fee : Int64
  utxoKeysStr : String
  txInID : ℤ
  mcExpiration : UInt64
  originTXHash : Bytes
  bytesToSign : Bytes

structure BitcoinLockinTXData where
  scTokenAddress : Address
  secretHash : Bytes32
  bytesToSign : Bytes
  fee : Int64

/-- `big.NewInt(int64(nonce))`, read back as a nonce. -/
def txNonce (nonce : UInt64) : UInt64 := if nonce.toInt64 < 0 then -nonce else nonce

/-- What the node answers about the gas of a call; the constructor panics when it refuses. -/
abbrev GasOracle := Address → Address → Bytes32 → UInt64 → ℤ → Except String Gas

/-- The contract call of `NewSpectrumPrepareLockinTxData` and `NewEthereumPrepareLockoutTxData`. -/
def newPrepareTx (gas : GasOracle) (method : Method) (contract callerAddress account : Address) (secretHash : Bytes32)
    (expiration : UInt64) (amount : ℤ) (nonce : UInt64) : Except Failure PrepareTx :=
  match gas callerAddress account secretHash expiration amount with
  | .error e => .error (.panic e)
  | .ok g => .ok {
      caller := callerAddress, nonce := txNonce nonce, gas := g, contract := contract, method := method
      account := account, secretHash := secretHash, expiration := expiration, amount := amount }

/-- The user that a lockin request names, as an account of the record's main chain. -/
def SCPrepareLockinRequest.mcUserAddressHex (req : SCPrepareLockinRequest) (x : Externals) (mcChainName : ChainName) :
    Option UserAddressHex :=
  if mcChainName = .bitcoin then (x.newAddressPubKeyHash req.mcUserAddress).map .bitcoin
  else some (.account (x.bytesToAddress req.mcUserAddress))

/-- `VerifySignData` of a lockin answer. The record comes back as the assignment left it, with the
transaction that is accepted. -/
def SpectrumPrepareLockinTxData.verifySignData (d : SpectrumPrepareLockinTxData) (x : Externals) (gas : GasOracle)
    (contract callerAddress : Address) (localLockinInfo : LockinInfo) : LockinInfo × Except Failure PrepareTx :=
  if d.userRequest.mcUserAddressHex x localLockinInfo.mcChainName ≠ some localLockinInfo.mcUserAddressHex then
    (localLockinInfo, .error (.error "MCUserAddress wrong"))
  else if localLockinInfo.mcLockStatus ≠ .lock then (localLockinInfo, .error (.error "MCLockStatus wrong"))
  else if localLockinInfo.scLockStatus ≠ .none then (localLockinInfo, .error (.error "SCLockStatus wrong"))
  else
    -- the requester's expiration replaces the local one
    let localLockinInfo := { localLockinInfo with scExpiration := d.scExpiration }
    (localLockinInfo, do
      let scUserAddress ← getSignerETHAddress x d.userRequest.signer
      let tx ← newPrepareTx gas .prepareLockin contract callerAddress scUserAddress localLockinInfo.secretHash
        localLockinInfo.scExpiration (localLockinInfo.amount - localLockinInfo.crossFee) d.nonce
      ensure (x.signerHash tx = d.bytesToSign)
        (.error "SpectrumPrepareLockinTxData.VerifySignBytes() fail,maybe attack")
      return tx)

/-- `VerifySignData` of a lockout answer on Ethereum. -/
def EthereumPrepareLockoutTxData.verifySignData (d : EthereumPrepareLockoutTxData) (x : Externals) (gas : GasOracle)
    (contract callerAddress : Address) (localLockoutInfo : LockoutInfo) : LockoutInfo × Except Failure PrepareTx :=
  if localLockoutInfo.scUserAddress ≠ d.userRequest.scUserAddress then
    (localLockoutInfo, .error (.error "SCUserAddress wrong"))
  else if localLockoutInfo.scLockStatus ≠ .lock then (localLockoutInfo, .error (.error "SCLockStatus wrong"))
  else if localLockoutInfo.mcLockStatus ≠ .none then (localLockoutInfo, .error (.error "MCLockStatus wrong"))
  else
    let localLockoutInfo := { localLockoutInfo with mcExpiration := d.mcExpiration }
    (localLockoutInfo, do
      let mcUserAddress ← getSignerETHAddress x d.userRequest.signer
      let tx ← newPrepareTx gas .prepareLockoutHTLC contract callerAddress mcUserAddress localLockoutInfo.secretHash
        localLockoutInfo.mcExpiration (localLockoutInfo.amount - localLockoutInfo.crossFee) d.nonce
      ensure (x.signerHash tx = d.bytesToSign)
        (.error "EthereumPrepareLockoutTxData.VerifySignBytes() fail,maybe attack")
      return tx)

def BTCOutpoint.getOutpoint (o : BTCOutpoint) : OutPoint := { hash := o.txHashStr, index := UInt32.ofInt o.index }

/-- The low 64 bits of an amount. -/
def toInt64 (a : ℤ) : Int64 := Int64.ofInt a

/-- The outputs of the list, which must be usable. -/
def selectedUTXOs (db : OutpointTable) : List String → Except Failure (List BTCOutpoint)
  | [] => .ok []
  | txHashStr :: rest =>
    match db.getBTCOutpoint txHashStr with
    | none => .error (.error "record not found")
    | some utxo =>
      if utxo.status ≠ .usable then .error (.error ("utxo " ++ txHashStr ++ " can not use"))
      else (selectedUTXOs db rest).map (utxo :: ·)

/-- The lock script of a lockout record for the user's key. -/
def lockoutScript (lockoutInfo : LockoutInfo) (user notary : PubKeyHash) : LockoutScript where
  secretHash := lockoutInfo.secretHash
  user := user
  expiration := lockoutInfo.mcExpiration.toInt64
  notary := notary

/-- What the lock output of a lockout is worth. -/
def lockAmount (lockoutInfo : LockoutInfo) : Int64 := toInt64 (lockoutInfo.amount - lockoutInfo.crossFee)

/-- What goes back to the notaries when it is positive. -/
def backAmount (lockoutInfo : LockoutInfo) (utxos : List BTCOutpoint) (fee : Int64) : Int64 :=
  utxos.foldl (fun total o => total + o.amount) 0 - lockAmount lockoutInfo - fee

/-- The transaction of `NewBitcoinPrepareLockoutTXData`. -/
def prepareLockoutTx (x : Externals) (lockoutInfo : LockoutInfo) (user notary : PubKeyHash)
    (utxos : List BTCOutpoint) (fee : Int64) : MsgTx where
  txIn := utxos.map BTCOutpoint.getOutpoint
  txOut :=
    (if backAmount lockoutInfo utxos fee > 0 then
      [{ value := backAmount lockoutInfo utxos fee, pkScript := .payToPubKeyHash notary }]
    else []) ++
    [{ value := lockAmount lockoutInfo
       pkScript := .payToScriptHash (x.scriptHash (lockoutScript lockoutInfo user notary)) }]

/-- What `NewBitcoinPrepareLockoutTXData` adds to its arguments. -/
structure LocalLockoutTX where
  originTx : MsgTx
  lockScript : LockoutScript
  bytesToSign : Bytes

/-- `utxos[i]`. -/
def utxoAt (utxos : List BTCOutpoint) (i : ℤ) : Except Failure BTCOutpoint :=
  match if 0 ≤ i then utxos[i.toNat]? else none with
  | some utxo => .ok utxo
  | none => .error (.panic "index out of range")

def newBitcoinPrepareLockoutTXData (x : Externals) (req : MCPrepareLockoutRequest) (lockoutInfo : LockoutInfo)
    (notary : PubKeyHash) (db : OutpointTable) (utxoKeysStr : String) (fee : Int64) (indexToSign : ℤ) :
    Except Failure LocalLockoutTX := do
  let utxos ← selectedUTXOs db (splitDash utxoKeysStr)
  let user ← getSignerBTCPublicKey x req.signer
  let tx := prepareLockoutTx x lockoutInfo user notary utxos fee
  let utxo ← utxoAt utxos indexToSign
  let bytesToSign ← (x.calcSignatureHash utxo.publicKeyHashStr tx indexToSign).mapError .error
  return { originTx := tx, lockScript := lockoutScript lockoutInfo user notary, bytesToSign := bytesToSign }

/-- `VerifySignData` of a lockout answer on Bitcoin, with the transaction and the lock script that
it accepts. -/
def BitcoinPrepareLockoutTXData.verifySignData (d : BitcoinPrepareLockoutTXData) (x : Externals)
    (localLockoutInfo : LockoutInfo) (notary : PubKeyHash) (db : OutpointTable) :
    Except Failure (MsgTx × LockoutScript) := do
  ensure (localLockoutInfo.scLockStatus = .lock) (.error "SCLockStatus wrong")
  ensure (localLockoutInfo.mcLockStatus = .none) (.error "MCLockStatus wrong")
  let l ← newBitcoinPrepareLockoutTXData x d.userRequest localLockoutInfo notary db d.utxoKeysStr d.fee d.txInID
  ensure (x.txHash l.originTx = d.originTXHash)
    (.error "BitcoinPrepareLockoutTXData verify OriginTXHash fail,maybe attack")
  ensure (l.bytesToSign = d.bytesToSign) (.error "BitcoinPrepareLockoutTXData verify SignBytes fail,maybe attack")
  return (l.originTx, l.lockScript)

/-- The transaction of `NewBitcoinLockinTXData`, which takes the user's deposit. -/
def lockinTx (lockinInfo : LockinInfo) (notary : PubKeyHash) (fee : Int64) : MsgTx where
  txIn := [{ hash := lockinInfo.btcPrepareLockinTXHashHex, index := lockinInfo.btcPrepareLockinVout }]
  txOut := [{ value := toInt64 lockinInfo.amount - fee, pkScript := .payToPubKeyHash notary }]

/-- The record's user decodes as an address of Bitcoin. -/
def UserAddressHex.decodes (x : Externals) : UserAddressHex → Bool
  | .bitcoin s => (x.decodeAddress s).isSome
  | _ => false

/-- `VerifySignData` of a lockin on Bitcoin, with the transaction that it accepts. -/
def BitcoinLockinTXData.verifySignData (d : BitcoinLockinTXData) (x : Externals) (localLockinInfo : LockinInfo)
    (notary : PubKeyHash) : Except Failure MsgTx := do
  ensure (localLockinInfo.scLockStatus = .unlock) (.error "SCLockStatus wrong")
  ensure (localLockinInfo.mcLockStatus = .lock) (.error "MCLockStatus wrong")
  ensure (localLockinInfo.mcUserAddressHex.decodes x) (.error "decode address")
  let tx := lockinTx localLockinInfo notary d.fee
  let bytesToSign ← (x.calcLockinSignatureHash localLockinInfo notary tx).mapError .error
  ensure (bytesToSign = d.bytesToSign) (.error "BitcoinLockinTXData.VerifySignBytes() fail,maybe attack")
  return tx

end DistributedNotary.Service
