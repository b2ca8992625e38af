import DistributedNotary.Service.Deposits

/-! Every request to sign, and what a refused one leaves in the records in
progress. The records that the handlers give out are shared with their memory,
and three of the verifications write the requester's expiration into them before
they compare. -/
namespace DistributedNotary.Service

open Library Btc Contracts

structure SpectrumContractDeployTXData where
  bytesToSign : Bytes
  nonce : UInt64
  deployChainName : String
  tokenName : String

structure EthereumCancelNonceTxData where
  bytesToSign : Bytes
  chainName : String
  account : String
  nonce : UInt64

structure BitcoinCancelPrepareLockoutTXData where
  scTokenAddress : Address
  secretHash : Bytes32
  bytesToSign : Bytes
  fee : Int64

/-- The transaction that takes a lockout's deposit back after its expiration. -/
structure CancelLockoutTx where
  lockTime : UInt32
  txIn : OutPoint
  sequence : UInt32
  txOut : TxOut

/-- What else the checks ask of the chains, of the key table and of the libraries. -/
structure SignNode extends Node where
  /-- `chainMap`. -/
  chainMap : String → Option ChainName
  /-- The signed bytes of a deployment; the constructor panics when the call fails. -/
  deployContract : ChainName → Address → UInt64 → List String → Except String Bytes
  hexToAddress : String → Address
  loadPrivateKeyInfoByAccountAddress : Address → Except String PrivateKeyInfo
  /-- The signed bytes of a transfer to itself, from the gas and the network that the node tells. -/
  selfTransfer : ChainName → Address → UInt64 → Except String Bytes
  newHashFromStr : String → Option String
  /-- `CalcSignatureHash` of a cancel transaction through a lock script. -/
  calcCancelSignatureHash : String → CancelLockoutTx → Except String Bytes
  loadTxFilter : OutPoint → Except String Unit

inductive MessageToSign where
  | spectrumContractDeploy (m : SpectrumContractDeployTXData)
  | spectrumPrepareLockin (m : SpectrumPrepareLockinTxData)
  | ethereumPrepareLockout (m : EthereumPrepareLockoutTxData)
  | ethereumCancelNonce (m : EthereumCancelNonceTxData)
  | bitcoinLockin (m : BitcoinLockinTXData)
  | bitcoinPrepareLockout (m : BitcoinPrepareLockoutTXData)
  | bitcoinCancelPrepareLockout (m : BitcoinCancelPrepareLockoutTXData)

namespace SignNode

variable (node : SignNode)

def getChainByName (chainName : String) : Except Failure ChainName :=
  match node.chainMap chainName with
  | some c => .ok c
  | none => .error (.error ("can not find chain " ++ chainName ++ ",something must wrong"))

end SignNode

def SpectrumContractDeployTXData.verifySignBytes (s : SpectrumContractDeployTXData) (node : SignNode) (c : ChainName)
    (callerAddress : Address) : Except Failure Unit := do
  let params := if c = .spectrum then [s.tokenName] else []
  let bytes ← (node.deployContract c callerAddress s.nonce params).mapError Failure.panic
  ensure (bytes = s.bytesToSign) (.error "SpectrumContractDeployTXData.VerifySignBytes() fail,maybe attack")

def EthereumCancelNonceTxData.verifySignData (d : EthereumCancelNonceTxData) (node : SignNode) (c : ChainName)
    (account : Address) : Except Failure Unit := do
  ensure (c ≠ .bitcoin) (.panic "call wrong chain")
  let bytes ← (node.selfTransfer c account d.nonce).mapError Failure.error
  ensure (bytes = d.bytesToSign) (.error "EthereumCancelNonceTxData.VerifySignBytes() fail,maybe attack")

/-- `NewBitcoinCancelPrepareLockoutTXData`; a hash that does not parse is dereferenced. -/
def newBitcoinCancelPrepareLockoutTXData (node : SignNode) (lockoutInfo : LockoutInfo) (notary : PubKeyHash)
    (fee : Int64) : Except Failure Bytes :=
  match node.newHashFromStr lockoutInfo.btcPrepareLockoutTXHashHex with
  | none => .error (.panic "nil pointer dereference")
  | some hash =>
    let tx : CancelLockoutTx := {
      lockTime := lockoutInfo.mcExpiration.toUInt32
      txIn := { hash := hash, index := lockoutInfo.btcPrepareLockoutVout }
      sequence := 0
      txOut := {
        value := toInt64 lockoutInfo.amount - toInt64 lockoutInfo.crossFee - fee
        pkScript := .payToPubKeyHash notary } }
    (node.calcCancelSignatureHash lockoutInfo.btcLockScriptHex tx).mapError Failure.panic

def BitcoinCancelPrepareLockoutTXData.verifySignData (d : BitcoinCancelPrepareLockoutTXData) (node : SignNode)
    (localLockoutInfo : LockoutInfo) (notary : PubKeyHash) : Except Failure Unit := do
  let bytes ← newBitcoinCancelPrepareLockoutTXData node localLockoutInfo notary d.fee
  ensure (bytes = d.bytesToSign) (.error "BitcoinCancelPrepareLockoutTXData.VerifySignBytes() fail,maybe attack")

namespace NotaryService

variable (ns : NotaryService)

/-- The outpoint of the input that is signed, which is watched from now on. -/
def watchedOutpoint (m : BitcoinPrepareLockoutTXData) (tx : MsgTx) : Except Failure OutPoint :=
  match if 0 ≤ m.txInID then tx.txIn[m.txInID.toNat]? else none with
  | some outpoint => .ok outpoint
  | none => .error (.panic "index out of range")

def checkMsgToSign (x : Externals) (node : SignNode) (privateKeyInfo : PrivateKeyInfo) (msg : MessageToSign)
    (senderID : ℤ) : NotaryService × Except Failure Unit :=
  match msg with
  | .spectrumContractDeploy m =>
    (ns, do
      let c ← node.getChainByName m.deployChainName
      m.verifySignBytes node c privateKeyInfo.address)
  | .spectrumPrepareLockin m =>
    let r := ns.checkSpectrumPrepareLockin x node.toNode privateKeyInfo m senderID
    (r.1, r.2.map fun _ => ())
  | .ethereumPrepareLockout m =>
    let r := ns.checkEthereumPrepareLockout x node.toNode privateKeyInfo m senderID
    (r.1, r.2.map fun _ => ())
  | .ethereumCancelNonce m =>
    (ns, do
      let c ← node.getChainByName m.chainName
      let account := node.hexToAddress m.account
      let _ ← (node.loadPrivateKeyInfoByAccountAddress account).mapError Failure.error
      m.verifySignData node c account)
  | .bitcoinLockin m =>
    let r := ns.checkBitcoinLockin x privateKeyInfo m
    (r.1, do
      let _ ← node.getChainByName "bitcoin"
      let _ ← r.2)
  | .bitcoinPrepareLockout m =>
    match node.getChainByName "bitcoin" with
    | .error e => (ns, .error e)
    | .ok _ =>
      let r := ns.checkBitcoinPrepareLockout x privateKeyInfo m
      (r.1, do
        let accepted ← r.2
        let outpointToListen ← watchedOutpoint m accepted.1
        (node.loadTxFilter outpointToListen).mapError Failure.error)
  | .bitcoinCancelPrepareLockout m =>
    (ns, do
      let localLockoutInfo ← ns.getLockoutInfo m.scTokenAddress m.secretHash
      m.verifySignData node localLockoutInfo privateKeyInfo.pubKeyHash)

/-- The lockin in progress that the handler of the token shares. -/
def lockin (token : Address) (h : Bytes32) : Option LockinInfo :=
  (ns.service token).bind fun cs => cs.lockinHandler.dealingMap.lookup h

/-- The lockout in progress that the handler of the token shares. -/
def lockout (token : Address) (h : Bytes32) : Option LockoutInfo :=
  (ns.service token).bind fun cs => cs.lockoutHandler.dealingMap.lookup h

/-- Every record in progress is there with the same fields. -/
structure Unchanged (ns ns' : NotaryService) : Prop where
  lockins : ∀ token h r, ns.lockin token h = some r → ns'.lockin token h = some r
  lockouts : ∀ token h r, ns.lockout token h = some r → ns'.lockout token h = some r

/-- The request carries another expiration than the record in progress that it is about, and the
checks made before the assignment are passed. -/
def Overwrites (x : Externals) (chainMap : String → Option ChainName) : MessageToSign → Prop
  | .spectrumPrepareLockin m => ∃ cs l, ns.service m.userRequest.scTokenAddress = some cs ∧ cs.mcName = .ethereum ∧
      cs.lockinHandler.dealingMap.lookup m.userRequest.secretHash = some l ∧
      l.mcUserAddressHex = .account (x.bytesToAddress m.userRequest.mcUserAddress) ∧
      m.userRequest.mcUserAddressHex x l.mcChainName = some l.mcUserAddressHex ∧
      l.mcLockStatus = .lock ∧ l.scLockStatus = .none ∧ l.scExpiration ≠ m.scExpiration
  | .ethereumPrepareLockout m => ∃ l, ns.lockout m.userRequest.scTokenAddress m.userRequest.secretHash = some l ∧
      l.scUserAddress = m.userRequest.scUserAddress ∧ l.scLockStatus = .lock ∧ l.mcLockStatus = .none ∧
      l.mcExpiration ≠ m.mcExpiration
  | .bitcoinPrepareLockout m => (chainMap "bitcoin").isSome = true ∧
      ∃ l, ns.lockout m.scTokenAddress m.secretHash = some l ∧ l.mcExpiration ≠ m.mcExpiration
  | _ => False

end NotaryService

section Memory

namespace NotaryService

variable {ns ns' : NotaryService} {token t : Address} {h : Bytes32} {cs : CrossChainService}

/-- What is read of a service beside its tables. -/
def Untabled {γ : Type} (q : CrossChainService → Option γ) : Prop :=
  ∀ (c : CrossChainService) db db', q { c with
    lockinHandler := { c.lockinHandler with db := db }
    lockoutHandler := { c.lockoutHandler with db := db' } } = q c

theorem bind_put {γ : Type} {q : CrossChainService → Option γ} (hq : Untabled q) :
    ((ns.put token cs).service t).bind q = if t = token then q cs else (ns.service t).bind q := by
  by_cases ht : t = token
  · subst ht
    rw [service_put_self, if_pos rfl]
    rfl
  · rw [service_put_ne ht, if_neg ht]
    cases ns.service t with
    | none => rfl
    | some c => exact hq c _ _

/-- A call that leaves it alone for the service of the token leaves it for all. -/
theorem bind_run_same {γ α : Type} {q : CrossChainService → Option γ}
    {g : CrossChainService → CrossChainService × Except Failure α} (hq : Untabled q) (hg : ∀ c, q (g c).1 = q c) :
    ((ns.run token g).1.service t).bind q = (ns.service t).bind q := by
  unfold run
  cases hs : ns.service token with
  | none => rfl
  | some cs =>
    dsimp only
    rw [bind_put hq]
    split_ifs with ht
    · subst ht
      rw [hs, Option.bind_some, hg]
    · rfl

/-- A call that assigns to a record in memory. -/
theorem bind_run_assign {ρ α : Type} {kind : RecordKind ρ} {f : CrossChainService → Handler kind}
    {g : CrossChainService → CrossChainService × Except Failure α} {info : ρ}
    (hq : Untabled fun c => (f c).dealingMap.lookup h) (hg : ∀ c, f (g c).1 = (f c).assign info) :
    ((ns.run token g).1.service t).bind (fun c => (f c).dealingMap.lookup h) =
      if t = token ∧ h = kind.secretHash info ∧
          ((ns.service t).bind fun c => (f c).dealingMap.lookup h).isSome = true then some info
      else (ns.service t).bind fun c => (f c).dealingMap.lookup h := by
  unfold run
  cases hs : ns.service token with
  | none =>
    by_cases ht : t = token
    · subst ht
      simp [hs]
    · simp [ht]
  | some cs =>
    dsimp only
    rw [bind_put hq]
    by_cases ht : t = token
    · subst ht
      simp only [if_true, true_and, hg, Handler.assign_dealing, hs, Option.bind_some]
    · simp [ht]

theorem lockin_put : (ns.put token cs).lockin t h =
    if t = token then cs.lockinHandler.dealingMap.lookup h else ns.lockin t h := bind_put fun _ _ _ => rfl

theorem lockout_put : (ns.put token cs).lockout t h =
    if t = token then cs.lockoutHandler.dealingMap.lookup h else ns.lockout t h := bind_put fun _ _ _ => rfl

/-- A service that leaves its records in memory alone leaves them all. -/
theorem same_put {c : CrossChainService} (hs : ns.service token = some c)
    (hin : cs.lockinHandler.dealingMap = c.lockinHandler.dealingMap)
    (hout : cs.lockoutHandler.dealingMap = c.lockoutHandler.dealingMap) :
    (ns.put token cs).lockin t h = ns.lockin t h ∧ (ns.put token cs).lockout t h = ns.lockout t h := by
  rw [lockin_put, lockout_put, hin, hout]
  by_cases ht : t = token
  · subst ht
    simp [lockin, lockout, hs]
  · simp [ht]

theorem lockin_assignLockin {info : LockinInfo} : (ns.assignLockin token info).lockin t h =
    if t = token ∧ h = info.secretHash ∧ (ns.lockin t h).isSome = true then some info else ns.lockin t h :=
  bind_run_assign (fun _ _ _ => rfl) fun _ => rfl

theorem lockout_assignLockin {info : LockinInfo} : (ns.assignLockin token info).lockout t h = ns.lockout t h :=
  bind_run_same (fun _ _ _ => rfl) fun _ => rfl

theorem lockout_assignLockout {info : LockoutInfo} : (ns.assignLockout token info).lockout t h =
    if t = token ∧ h = info.secretHash ∧ (ns.lockout t h).isSome = true then some info else ns.lockout t h :=
  bind_run_assign (fun _ _ _ => rfl) fun _ => rfl

theorem lockin_assignLockout {info : LockoutInfo} : (ns.assignLockout token info).lockin t h = ns.lockin t h :=
  bind_run_same (fun _ _ _ => rfl) fun _ => rfl

end NotaryService

end Memory

section Steps

namespace Handler

variable {ρ : Type} {kind : RecordKind ρ} {lh : Handler kind} {info : ρ}

/-- A registration that fails leaves the memory alone. -/
theorem register_dealing : (lh.register info).1.dealingMap =
    if (lh.register info).2 = .ok () then lh.dealingMap.put info else lh.dealingMap := by
  unfold register
  split
  · rfl
  · cases wrap ("db.New" ++ kind.name ++ " err = ") (lh.dbNew info) with
    | error e => rfl
    | ok db => cases hl : lh.dealingMapLock <;> rfl

/-- An update never returns an error: it succeeds, panics or waits for its own mutex. -/
theorem update_ne_error {e : String} : (lh.update info).2 ≠ .error (.error e) := by
  unfold update
  by_cases hlock : lh.dealingMapLock = true
  · simp [hlock]
  · cases lh.dealingMap.lookup (kind.secretHash info) with
    | none => simp [hlock]
    | some r =>
      cases lh.dbUpdate info with
      | error _ => simp [hlock]
      | ok db => simp [hlock]

/-- A record with a row stays in memory when another one is registered. -/
theorem register_lookup {h : Bytes32} {r : ρ} (hr : lh.dealingMap.lookup h = some r)
    (hrow : (lh.db.lookup h).isSome = true) : (lh.register info).1.dealingMap.lookup h = some r := by
  rw [register_dealing]
  split_ifs with hok
  · rw [RecordMap.lookup_put, if_neg, hr]
    rintro rfl
    rw [(register_ok hok).1] at hrow
    cases hrow
  · exact hr

end Handler

namespace NotaryService

variable {ns : NotaryService} {x : Externals} {node : Node} {pk : PrivateKeyInfo} {token t : Address} {h k : Bytes32}
  {i : ℤ} {e : String}

theorem same_updateLockin (herr : (ns.updateLockinInfoNotaryIDInChargeID token k i).2 = .error (.error e)) :
    (ns.updateLockinInfoNotaryIDInChargeID token k i).1.lockin t h = ns.lockin t h ∧
      (ns.updateLockinInfoNotaryIDInChargeID token k i).1.lockout t h = ns.lockout t h := by
  unfold updateLockinInfoNotaryIDInChargeID run at herr ⊢
  cases hs : ns.service token with
  | none => exact ⟨rfl, rfl⟩
  | some cs =>
    rw [hs] at herr
    dsimp only at herr ⊢
    cases hg : cs.lockinHandler.getLockin k with
    | error _ => exact same_put hs rfl rfl
    | ok l =>
      rw [hg] at herr
      exact absurd herr Handler.update_ne_error

theorem same_updateLockout (herr : (ns.updateLockoutInfoNotaryIDInChargeID token k i).2 = .error (.error e)) :
    (ns.updateLockoutInfoNotaryIDInChargeID token k i).1.lockin t h = ns.lockin t h ∧
      (ns.updateLockoutInfoNotaryIDInChargeID token k i).1.lockout t h = ns.lockout t h := by
  unfold updateLockoutInfoNotaryIDInChargeID run at herr ⊢
  cases hs : ns.service token with
  | none => exact ⟨rfl, rfl⟩
  | some cs =>
    rw [hs] at herr
    dsimp only at herr ⊢
    cases hg : cs.lockoutHandler.getLockout k with
    | error _ => exact same_put hs rfl rfl
    | ok l =>
      rw [hg] at herr
      exact absurd herr Handler.update_ne_error

/-- The search for a lockin leaves every record in progress that has its row. -/
theorem getLockInInfo_lookup {cs : CrossChainService} {req : SCPrepareLockinRequest} {r : LockinInfo}
    (hr : cs.lockinHandler.dealingMap.lookup h = some r) (hrow : (cs.lockinHandler.db.lookup h).isSome = true) :
    (cs.getLockInInfoBySCPrepareLockInRequest x node req).1.lockinHandler.dealingMap.lookup h = some r := by
  unfold CrossChainService.getLockInInfoBySCPrepareLockInRequest
  cases cs.mcName with
  | ethereum =>
    dsimp only
    split
    · exact hr
    · split_ifs <;> exact hr
  | bitcoin =>
    dsimp only
    split
    · exact hr
    split
    · exact hr
    split_ifs
    · exact hr
    split
    · exact hr
    · exact Handler.register_lookup hr hrow
  | spectrum => exact hr

theorem getLockInInfo_lockout {cs : CrossChainService} {req : SCPrepareLockinRequest} :
    (cs.getLockInInfoBySCPrepareLockInRequest x node req).1.lockoutHandler = cs.lockoutHandler := by
  unfold CrossChainService.getLockInInfoBySCPrepareLockInRequest
  cases cs.mcName with
  | ethereum =>
    dsimp only
    split
    · rfl
    · split_ifs <;> rfl
  | bitcoin =>
    dsimp only
    split
    · rfl
    split
    · rfl
    split_ifs
    · rfl
    split <;> rfl
  | spectrum => rfl

/-- A lockin in progress has its row in the table. -/
theorem Sound.stored {cs : CrossChainService} (hsound : ns.Sound) (hs : ns.service t = some cs) {r : LockinInfo}
    (hr : cs.lockinHandler.dealingMap.lookup h = some r) : (cs.lockinHandler.db.lookup h).isSome = true := by
  obtain ⟨row, hrow, -⟩ := hsound.backed t cs hs h r hr
  rw [hrow]
  rfl

theorem unchanged_foundLockin {req : SCPrepareLockinRequest} (hsound : ns.Sound) :
    Unchanged ns (ns.foundLockin x node req).1 := by
  unfold foundLockin run
  cases hs : ns.service req.scTokenAddress with
  | none => exact ⟨fun _ _ _ hr => hr, fun _ _ _ hr => hr⟩
  | some cs =>
    constructor
    · intro t h r hr
      dsimp only
      rw [lockin_put]
      split_ifs with ht
      · subst ht
        have hmem : cs.lockinHandler.dealingMap.lookup h = some r := by simpa [lockin, hs] using hr
        exact getLockInInfo_lookup hmem (hsound.stored hs hmem)
      · exact hr
    · intro t h r hr
      dsimp only
      rw [lockout_put, getLockInInfo_lockout]
      split_ifs with ht
      · subst ht
        simpa [lockout, hs] using hr
      · exact hr

/-- The lockin that is found was in progress before on Ethereum only. -/
theorem getLockInInfo_old {cs : CrossChainService} {req : SCPrepareLockinRequest} {l : LockinInfo}
    (hl : (cs.getLockInInfoBySCPrepareLockInRequest x node req).2 = .ok l)
    (hrow : (cs.lockinHandler.db.lookup l.secretHash).isSome = true) :
    cs.mcName = .ethereum ∧ l.secretHash = req.secretHash ∧
      l.mcUserAddressHex = .account (x.bytesToAddress req.mcUserAddress) := by
  unfold CrossChainService.getLockInInfoBySCPrepareLockInRequest at hl
  cases hmc : cs.mcName with
  | ethereum =>
    rw [hmc] at hl
    dsimp only at hl
    split at hl
    · cases hl
    · rename_i l' hget
      split_ifs at hl with h1 h2 h3
      cases hl
      exact ⟨rfl, Handler.secretHash_of_get hget, not_not.mp h1⟩
  | bitcoin =>
    rw [hmc] at hl
    dsimp only at hl
    repeat' split at hl
    all_goals first | cases hl | skip
    obtain ⟨u, hreg, rfl⟩ := map_eq_ok.mp hl
    have hnone : cs.lockinHandler.db.lookup req.secretHash = none := (Handler.register_ok (wrap_eq_ok.mp hreg)).1
    change (cs.lockinHandler.db.lookup req.secretHash).isSome = true at hrow
    rw [hnone] at hrow
    cases hrow
  | spectrum =>
    rw [hmc] at hl
    cases hl

/-- A lockin in progress that fits the request is found, unless the mutex is held. -/
theorem found_of_memory {req : SCPrepareLockinRequest} {cs : CrossChainService} {l : LockinInfo}
    (hs : ns.service req.scTokenAddress = some cs) (hmc : cs.mcName = .ethereum)
    (hl : cs.lockinHandler.dealingMap.lookup req.secretHash = some l)
    (huser : l.mcUserAddressHex = .account (x.bytesToAddress req.mcUserAddress)) (hmcLock : l.mcLockStatus = .lock)
    (hscNone : l.scLockStatus = .none) :
    (ns.foundLockin x node req).2 = .ok l ∨ (ns.foundLockin x node req).2 = .error .blocked := by
  unfold foundLockin run CrossChainService.getLockInInfoBySCPrepareLockInRequest
  rw [hs]
  simp only [hmc]
  cases hlock : cs.lockinHandler.dealingMapLock with
  | true =>
    have hget : cs.lockinHandler.getLockin req.secretHash = .error .blocked := if_pos hlock
    simp [hget]
  | false =>
    have hget : cs.lockinHandler.getLockin req.secretHash = .ok l := by
      simp [LockinHandler.getLockin, Handler.get, hlock, hl]
    simp [hget, huser, hmcLock, hscNone]

end NotaryService

end Steps

section Rejections

variable {ns : NotaryService} {x : Externals} {gas : GasOracle} {contract caller : Address} {pk : PrivateKeyInfo}
  {senderID : ℤ} {e : String}

/-- The record as the verification of a lockin answer leaves it. -/
theorem SpectrumPrepareLockinTxData.verifySignData_record (d : SpectrumPrepareLockinTxData) (l : LockinInfo) :
    (d.verifySignData x gas contract caller l).1 =
      if d.userRequest.mcUserAddressHex x l.mcChainName = some l.mcUserAddressHex ∧ l.mcLockStatus = .lock ∧
        l.scLockStatus = .none then { l with scExpiration := d.scExpiration } else l := by
  unfold verifySignData
  split_ifs <;> simp_all

/-- The record as the verification of a lockout answer on Ethereum leaves it. -/
theorem EthereumPrepareLockoutTxData.verifySignData_record (d : EthereumPrepareLockoutTxData) (l : LockoutInfo) :
    (d.verifySignData x gas contract caller l).1 =
      if l.scUserAddress = d.userRequest.scUserAddress ∧ l.scLockStatus = .lock ∧ l.mcLockStatus = .none then
        { l with mcExpiration := d.mcExpiration } else l := by
  unfold verifySignData
  split_ifs <;> simp_all

namespace NotaryService

/-- What a refused lockin answer leaves: the notary as the search left it, with what the verification
assigned to the record that was found. -/
theorem rejected_spectrum {node : Node} {m : SpectrumPrepareLockinTxData}
    (herr : (ns.checkSpectrumPrepareLockin x node pk m senderID).2 = .error (.error e)) (t : Address) (h : Bytes32) :
    (ns.checkSpectrumPrepareLockin x node pk m senderID).1.lockout t h =
        (ns.foundLockin x node m.userRequest).1.lockout t h ∧
      (ns.checkSpectrumPrepareLockin x node pk m senderID).1.lockin t h =
        match (ns.foundLockin x node m.userRequest).2 with
        | .error _ => (ns.foundLockin x node m.userRequest).1.lockin t h
        | .ok l => ((ns.foundLockin x node m.userRequest).1.assignLockin m.userRequest.scTokenAddress
            (m.verifySignData x node.gas l.scTokenAddress pk.address l).1).lockin t h := by
  unfold checkSpectrumPrepareLockin at herr ⊢
  cases hf : ns.foundLockin x node m.userRequest with
  | mk ns' r =>
    unfold foundLockin at hf
    cases r with
    | error _ => simp [hf]
    | ok l =>
      simp only [hf] at herr ⊢
      cases hv : (m.verifySignData x node.gas l.scTokenAddress pk.address l).2 with
      | error _ => exact ⟨lockout_assignLockin, rfl⟩
      | ok tx =>
        rw [hv] at herr
        dsimp only at herr ⊢
        have hsame := same_updateLockin (t := t) (h := h) (map_eq_error.mp herr)
        exact ⟨hsame.2.trans lockout_assignLockin, hsame.1⟩

theorem check_of_not_found {node : Node} {m : SpectrumPrepareLockinTxData} {f : Failure}
    (hf : (ns.foundLockin x node m.userRequest).2 = .error f) :
    (ns.checkSpectrumPrepareLockin x node pk m senderID).2 = .error f := by
  unfold foundLockin at hf
  unfold checkSpectrumPrepareLockin
  cases hr : ns.run m.userRequest.scTokenAddress
    fun cs => cs.getLockInInfoBySCPrepareLockInRequest x node m.userRequest with
  | mk ns' r =>
    rw [hr] at hf
    obtain rfl : r = .error f := hf
    simp only [hr]

theorem exists_of_lockin {t : Address} {h : Bytes32} {r : LockinInfo} (hr : ns.lockin t h = some r) :
    ∃ cs, ns.service t = some cs ∧ cs.lockinHandler.dealingMap.lookup h = some r :=
  Option.bind_eq_some_iff.mp hr

/-- A request that carries the expiration of the record it is about assigns what was there. -/
theorem assigned_eq {node : Node} {m : SpectrumPrepareLockinTxData} {l r : LockinInfo} {t : Address} {h : Bytes32}
    (hsound : ns.Sound) {chainMap : String → Option ChainName}
    (hno : ¬ ns.Overwrites x chainMap (.spectrumPrepareLockin m))
    (hl : (ns.foundLockin x node m.userRequest).2 = .ok l) (hr : ns.lockin t h = some r)
    (ht : t = m.userRequest.scTokenAddress) (hh : h = l.secretHash) :
    (m.verifySignData x gas contract caller l).1 = r := by
  subst ht hh
  obtain ⟨cs, hs, hmem⟩ := exists_of_lockin hr
  have hsame : Unchanged ns (ns.foundLockin x node m.userRequest).1 := unchanged_foundLockin hsound
  obtain ⟨cs', hs', hmem'⟩ := exists_of_lockin (hsame.lockins _ _ _ hr)
  have hrl : r = l := (found_of_foundLockin hsound (Prod.ext rfl hl)).entry cs' r hs' hmem'
  have hfun : (cs.getLockInInfoBySCPrepareLockInRequest x node m.userRequest).2 = .ok l := by
    simpa [foundLockin, run, hs] using hl
  obtain ⟨hmc, hkey, huser⟩ := getLockInInfo_old hfun (hsound.stored hs hmem)
  rw [m.verifySignData_record, hrl]
  split_ifs with hc
  · have heq : l.scExpiration = m.scExpiration := by
      by_contra hne
      exact hno ⟨cs, l, hs, hmc, hkey ▸ hrl ▸ hmem, huser, hc.1, hc.2.1, hc.2.2, hne⟩
    rw [← heq]
  · rfl

/-- A refused lockin answer has changed a record exactly when it carries another expiration. -/
theorem unchanged_spectrum_iff {chainMap : String → Option ChainName} {node : Node} {m : SpectrumPrepareLockinTxData}
    (hsound : ns.Sound) (herr : (ns.checkSpectrumPrepareLockin x node pk m senderID).2 = .error (.error e)) :
    Unchanged ns (ns.checkSpectrumPrepareLockin x node pk m senderID).1 ↔
      ¬ ns.Overwrites x chainMap (.spectrumPrepareLockin m) := by
  have hrej := fun t h => rejected_spectrum herr t h
  have hkeep : Unchanged ns (ns.foundLockin x node m.userRequest).1 := unchanged_foundLockin hsound
  constructor
  · rintro hun ⟨cs, l, hs, hmc, hl, huser, hverify, hmcLock, hscNone, hne⟩
    have hmem : ns.lockin m.userRequest.scTokenAddress m.userRequest.secretHash = some l := by simp [lockin, hs, hl]
    have hkey : l.secretHash = m.userRequest.secretHash := RecordMap.secretHash_of_lookup hl
    have hnew := (hrej m.userRequest.scTokenAddress m.userRequest.secretHash).2
    rw [hun.lockins _ _ _ hmem] at hnew
    have hfound : (ns.foundLockin x node m.userRequest).2 = .ok l ∨
        (ns.foundLockin x node m.userRequest).2 = .error .blocked :=
      found_of_memory hs hmc hl huser hmcLock hscNone
    rcases hfound with hfound | hblocked
    · rw [hfound] at hnew
      dsimp only at hnew
      rw [m.verifySignData_record, if_pos ⟨hverify, hmcLock, hscNone⟩, lockin_assignLockin,
        if_pos ⟨rfl, hkey.symm, by rw [hkeep.lockins _ _ _ hmem]; rfl⟩] at hnew
      exact hne (congrArg LockinInfo.scExpiration (Option.some.inj hnew))
    · rw [check_of_not_found hblocked] at herr
      cases herr
  · intro hno
    refine ⟨fun t h r hr => ?_, fun t h r hr => (hrej t h).1.trans (hkeep.lockouts t h r hr)⟩
    rw [(hrej t h).2]
    have hr' := hkeep.lockins t h r hr
    cases hfound : (ns.foundLockin x node m.userRequest).2 with
    | error _ => exact hr'
    | ok l =>
      dsimp only
      rw [lockin_assignLockin, hr']
      split_ifs with hc
      · have hh : h = l.secretHash := hc.2.1.trans follows_verifySignData.secretHash
        rw [assigned_eq hsound hno hfound hr hc.1 hh]
      · rfl

/-- An assignment leaves the records in progress exactly when it assigns what is there. -/
theorem unchanged_assignLockout_iff {ns' : NotaryService} {token : Address} {info : LockoutInfo}
    (hin : ∀ t h, ns'.lockin t h = ns.lockin t h)
    (hout : ∀ t h, ns'.lockout t h = (ns.assignLockout token info).lockout t h) :
    Unchanged ns ns' ↔ ∀ r, ns.lockout token info.secretHash = some r → r = info := by
  constructor
  · intro hun r hr
    have hnew := hun.lockouts _ _ r hr
    rw [hout, lockout_assignLockout, if_pos ⟨rfl, rfl, by rw [hr]; rfl⟩] at hnew
    exact (Option.some.inj hnew).symm
  · intro hsame
    refine ⟨fun t h r hr => (hin t h).trans hr, fun t h r hr => ?_⟩
    rw [hout, lockout_assignLockout]
    split_ifs with hc
    · obtain ⟨rfl, rfl, -⟩ := hc
      rw [hsame r hr]
    · exact hr

theorem unchanged_of_same {ns' : NotaryService} (hin : ∀ t h, ns'.lockin t h = ns.lockin t h)
    (hout : ∀ t h, ns'.lockout t h = ns.lockout t h) : Unchanged ns ns' :=
  ⟨fun t h _ hr => (hin t h).trans hr, fun t h _ hr => (hout t h).trans hr⟩

/-- A lockout in progress is the one that is given out. -/
theorem getLockoutInfo_memory {t : Address} {h : Bytes32} {r : LockoutInfo} (hr : ns.lockout t h = some r) :
    ns.getLockoutInfo t h = .ok r ∨ ns.getLockoutInfo t h = .error .blocked := by
  obtain ⟨cs, hs, hmem⟩ := Option.bind_eq_some_iff.mp hr
  unfold getLockoutInfo
  rw [hs]
  cases hlock : cs.lockoutHandler.dealingMapLock with
  | true => exact .inr (if_pos hlock)
  | false => exact .inl (by simp [LockoutHandler.getLockout, Handler.get, hlock, hmem])

theorem secretHash_of_getLockoutInfo {t : Address} {h : Bytes32} {l : LockoutInfo}
    (hl : ns.getLockoutInfo t h = .ok l) : l.secretHash = h := by
  unfold getLockoutInfo at hl
  cases hs : ns.service t with
  | none => simp [hs] at hl
  | some cs =>
    rw [hs] at hl
    exact Handler.secretHash_of_get hl

theorem eq_of_getLockoutInfo {t : Address} {h : Bytes32} {l r : LockoutInfo} (hl : ns.getLockoutInfo t h = .ok l)
    (hr : ns.lockout t h = some r) : r = l := by
  rcases getLockoutInfo_memory hr with hok | hblocked
  · exact Except.ok.inj (hok.symm.trans hl)
  · rw [hl] at hblocked
    cases hblocked

/-- What a refused lockout answer on Ethereum leaves. -/
theorem rejected_ethereum {node : Node} {m : EthereumPrepareLockoutTxData} {l : LockoutInfo}
    (hl : ns.getLockoutInfo m.userRequest.scTokenAddress m.userRequest.secretHash = .ok l)
    (herr : (ns.checkEthereumPrepareLockout x node pk m senderID).2 = .error (.error e)) (t : Address) (h : Bytes32) :
    (ns.checkEthereumPrepareLockout x node pk m senderID).1.lockin t h = ns.lockin t h ∧
      (ns.checkEthereumPrepareLockout x node pk m senderID).1.lockout t h =
        (ns.assignLockout m.userRequest.scTokenAddress (m.verifySignData x node.gas
          (ns.mcLockedContractAddress l.scTokenAddress) pk.address l).1).lockout t h := by
  unfold checkEthereumPrepareLockout at herr ⊢
  simp only [hl] at herr ⊢
  cases hv : (m.verifySignData x node.gas (ns.mcLockedContractAddress l.scTokenAddress) pk.address l).2 with
  | error _ => exact ⟨lockin_assignLockout, rfl⟩
  | ok tx =>
    rw [hv] at herr
    dsimp only at herr ⊢
    have hsame := same_updateLockout (t := t) (h := h) (map_eq_error.mp herr)
    exact ⟨hsame.1.trans lockin_assignLockout, hsame.2⟩

/-- A refused lockout answer on Ethereum has changed a record exactly when it carries another expiration. -/
theorem unchanged_ethereum_iff {chainMap : String → Option ChainName} {node : Node} {m : EthereumPrepareLockoutTxData}
    (herr : (ns.checkEthereumPrepareLockout x node pk m senderID).2 = .error (.error e)) :
    Unchanged ns (ns.checkEthereumPrepareLockout x node pk m senderID).1 ↔
      ¬ ns.Overwrites x chainMap (.ethereumPrepareLockout m) := by
  cases hl : ns.getLockoutInfo m.userRequest.scTokenAddress m.userRequest.secretHash with
  | error f =>
    have hcheck : ns.checkEthereumPrepareLockout x node pk m senderID = (ns, .error f) := by
      unfold checkEthereumPrepareLockout
      simp only [hl]
    rw [hcheck] at herr ⊢
    obtain rfl : f = .error e := Except.error.inj herr
    refine iff_of_true (unchanged_of_same (fun _ _ => rfl) fun _ _ => rfl) ?_
    rintro ⟨l, hmem, -⟩
    rcases getLockoutInfo_memory hmem with hok | hblocked
    · rw [hl] at hok
      cases hok
    · rw [hl] at hblocked
      cases hblocked
  | ok l =>
    have hrej := fun t h => rejected_ethereum hl herr t h
    have hkey := secretHash_of_getLockoutInfo hl
    rw [unchanged_assignLockout_iff (fun t h => (hrej t h).1) fun t h => (hrej t h).2, m.verifySignData_record]
    constructor
    · rintro hsame ⟨r, hmem, huser, hscLock, hmcNone, hne⟩
      obtain rfl := eq_of_getLockoutInfo hl hmem
      rw [if_pos ⟨huser, hscLock, hmcNone⟩] at hsame
      have hr := hsame r (by rw [hkey]; exact hmem)
      exact hne (congrArg LockoutInfo.mcExpiration hr)
    · intro hno r hr
      split_ifs at hr ⊢ with hc
      · have hmem : ns.lockout m.userRequest.scTokenAddress m.userRequest.secretHash = some r := by
          rw [← hkey]; exact hr
        obtain rfl := eq_of_getLockoutInfo hl hmem
        have heq : r.mcExpiration = m.mcExpiration := by
          by_contra hne
          exact hno ⟨r, hmem, hc.1, hc.2.1, hc.2.2, hne⟩
        rw [← heq]
      · exact eq_of_getLockoutInfo hl (by rw [← hkey]; exact hr)

/-- A lockout answer on Bitcoin has changed a record exactly when it carries another expiration, whatever its
verification says. -/
theorem unchanged_bitcoin_iff {chainMap : String → Option ChainName} {m : BitcoinPrepareLockoutTXData}
    (hchain : (chainMap "bitcoin").isSome = true) (hfree : (ns.checkBitcoinPrepareLockout x pk m).2 ≠ .error .blocked) :
    Unchanged ns (ns.checkBitcoinPrepareLockout x pk m).1 ↔
      ¬ ns.Overwrites x chainMap (.bitcoinPrepareLockout m) := by
  unfold checkBitcoinPrepareLockout at hfree ⊢
  cases hl : ns.getLockoutInfo m.scTokenAddress m.secretHash with
  | error f =>
    rw [hl] at hfree
    refine iff_of_true (unchanged_of_same (fun _ _ => rfl) fun _ _ => rfl) ?_
    rintro ⟨-, l, hmem, -⟩
    rcases getLockoutInfo_memory hmem with hok | hblocked
    · rw [hl] at hok
      cases hok
    · rw [hl] at hblocked
      exact hfree (congrArg Except.error (Except.error.inj hblocked))
  | ok l =>
    have hkey := secretHash_of_getLockoutInfo hl
    dsimp only
    rw [unchanged_assignLockout_iff (fun t h => lockin_assignLockout) fun t h => rfl]
    constructor
    · rintro hsame ⟨-, r, hmem, hne⟩
      obtain rfl := eq_of_getLockoutInfo hl hmem
      have hr := hsame r (by rw [← hkey] at hmem; exact hmem)
      exact hne (congrArg LockoutInfo.mcExpiration hr)
    · intro hno r hr
      have hmem : ns.lockout m.scTokenAddress m.secretHash = some r := by rw [← hkey]; exact hr
      obtain rfl := eq_of_getLockoutInfo hl hmem
      have heq : r.mcExpiration = m.mcExpiration := by
        by_contra hne
        exact hno ⟨hchain, r, hmem, hne⟩
      rw [← heq]

/-- A refused request leaves the records in progress as they were exactly when it does not carry another expiration
past the checks that come before the assignment. -/
theorem rejected_unchanged_iff (hsound : ns.Sound) {node : SignNode} {msg : MessageToSign}
    (herr : (ns.checkMsgToSign x node pk msg senderID).2 = .error (.error e)) :
    Unchanged ns (ns.checkMsgToSign x node pk msg senderID).1 ↔ ¬ ns.Overwrites x node.chainMap msg := by
  have hself : Unchanged ns ns := unchanged_of_same (fun _ _ => rfl) fun _ _ => rfl
  cases msg with
  | spectrumContractDeploy m => exact iff_of_true hself id
  | spectrumPrepareLockin m => exact unchanged_spectrum_iff hsound (map_eq_error.mp herr)
  | ethereumPrepareLockout m => exact unchanged_ethereum_iff (map_eq_error.mp herr)
  | ethereumCancelNonce m => exact iff_of_true hself id
  | bitcoinLockin m =>
    refine iff_of_true ?_ id
    simp only [checkMsgToSign, checkBitcoinLockin]
    cases ns.getLockinInfo m.scTokenAddress m.secretHash <;> exact hself
  | bitcoinPrepareLockout m =>
    unfold checkMsgToSign SignNode.getChainByName at herr ⊢
    cases hchain : node.chainMap "bitcoin" with
    | none =>
      simp only [hchain] at herr ⊢
      refine iff_of_true hself fun hover => ?_
      have hsome := hover.1
      rw [hchain] at hsome
      cases hsome
    | some c =>
      simp only [hchain] at herr ⊢
      refine unchanged_bitcoin_iff (by rw [hchain]; rfl) fun hblocked => ?_
      rw [hblocked] at herr
      cases herr
  | bitcoinCancelPrepareLockout m => exact iff_of_true hself id

/-- A node that knows the three chains and answers nothing else. -/
def signNode6 : SignNode where
  toNode := node6
  chainMap name :=
    if name = "spectrum" then some .spectrum else if name = "ethereum" then some .ethereum
    else if name = "bitcoin" then some .bitcoin else none
  deployContract _ _ _ _ := .ok []
  hexToAddress _ := 0
  loadPrivateKeyInfoByAccountAddress _ := .error "not found"
  selfTransfer _ _ _ := .ok []
  newHashFromStr s := some s
  calcCancelSignatureHash _ _ := .ok []
  loadTxFilter _ := .ok ()

/-- An answer for `lockinInfo5` that ends in block `scExpiration`, with bytes that fit nothing. -/
def forged5 (scExpiration : UInt64) : MessageToSign :=
  .spectrumPrepareLockin { bytesToSign := [], nonce := 0, userRequest := lockinRequest5, scExpiration := scExpiration }

theorem sound_start5 : CoSigner.start5.ns.Sound :=
  (CoSigner.inv_of_starts CoSigner.start5_starts).sound

/-- The forged answer is refused, and the record keeps its expiration of block 9. -/
theorem forged_overwrites :
    (CoSigner.start5.ns.checkMsgToSign .short signNode6 privateKeyInfo6 (forged5 9) 1).2 =
        .error (.error "SpectrumPrepareLockinTxData.VerifySignBytes() fail,maybe attack") ∧
      (CoSigner.start5.ns.lockin 3 5).map LockinInfo.scExpiration = some 2550 ∧
      ((CoSigner.start5.ns.checkMsgToSign .short signNode6 privateKeyInfo6 (forged5 9) 1).1.lockin 3 5).map
        LockinInfo.scExpiration = some 9 := by
  decide +kernel

/-- With the expiration of the record a refused answer leaves it as it was. -/
theorem forged_harmless : Unchanged CoSigner.start5.ns
    (CoSigner.start5.ns.checkMsgToSign .short signNode6 privateKeyInfo6 (forged5 2550) 1).1 := by
  have hrejected : (CoSigner.start5.ns.checkMsgToSign .short signNode6 privateKeyInfo6 (forged5 2550) 1).2 =
      .error (.error "SpectrumPrepareLockinTxData.VerifySignBytes() fail,maybe attack") := by decide +kernel
  refine (rejected_unchanged_iff sound_start5 hrejected).mpr ?_
  rintro ⟨cs, l, hs, -, hl, -, -, -, -, hne⟩
  obtain rfl := Option.some.inj hs
  obtain rfl := Option.some.inj hl
  exact hne rfl

end NotaryService

end Rejections

end DistributedNotary.Service
