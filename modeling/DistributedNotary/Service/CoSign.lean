import DistributedNotary.Service.Notary

/-! What a message has passed that a notary agrees to sign. Every check of the
notary comes down to facts about its own record, the request and the
transaction that it rebuilds, and it succeeds exactly when these hold. -/
namespace DistributedNotary.Service

open Library Btc Contracts

section Updates

variable {ρ : Type} {kind : RecordKind ρ}

/-- The record of `h` is in progress and in the table, so that it can be updated. -/
structure Handler.Held (lh : Handler kind) (h : Bytes32) : Prop where
  unlocked : lh.dealingMapLock = false
  dealing : (lh.dealingMap.lookup h).isSome
  stored : ∃ r, lh.dbGet h = .ok r

theorem RecordMap.lookup_put (m : RecordMap kind) (info : ρ) (h : Bytes32) :
    (m.put info).lookup h = if h = kind.secretHash info then some info else m.lookup h := by
  by_cases hk : h = kind.secretHash info
  · subst hk
    simp
  · rw [RecordMap.lookup_put_ne hk, if_neg hk]

theorem RecordMap.lookup_erase (m : RecordMap kind) (h h' : Bytes32) :
    (m.erase h).lookup h' = if h' = h then none else m.lookup h' := by
  by_cases hk : h' = h
  · subst hk
    simp [RecordMap.erase, RecordMap.lookup]
  · rw [if_neg hk]
    exact AList.lookup_erase_ne hk

namespace Handler

variable {lh : Handler kind} {info : ρ} {h : Bytes32}

@[simp] theorem assign_lock : (lh.assign info).dealingMapLock = lh.dealingMapLock := by
  unfold assign
  split <;> rfl

@[simp] theorem assign_db : (lh.assign info).db = lh.db := by
  unfold assign
  split <;> rfl

@[simp] theorem assign_dbFails : (lh.assign info).dbFails = lh.dbFails := by
  unfold assign
  split <;> rfl

@[simp] theorem assign_dbGet : (lh.assign info).dbGet h = lh.dbGet h := by
  simp [dbGet]

/-- An assignment reaches the record in memory under its own hash and no other. -/
theorem assign_dealing : (lh.assign info).dealingMap.lookup h =
    if h = kind.secretHash info ∧ (lh.dealingMap.lookup h).isSome then some info else lh.dealingMap.lookup h := by
  unfold assign
  cases hl : lh.dealingMap.lookup (kind.secretHash info) with
  | none =>
    by_cases hk : h = kind.secretHash info
    · subst hk
      simp [hl]
    · simp [hk]
  | some r =>
    simp only [RecordMap.lookup_put]
    by_cases hk : h = kind.secretHash info
    · subst hk
      simp [hl]
    · simp [hk]

theorem held_assign : (lh.assign info).Held h ↔ lh.Held h := by
  constructor
  · rintro ⟨h1, h2, h3⟩
    refine ⟨by simpa using h1, ?_, by simpa using h3⟩
    rw [assign_dealing] at h2
    split at h2
    · rename_i hc
      exact hc.2
    · exact h2
  · rintro ⟨h1, h2, h3⟩
    refine ⟨by simpa using h1, ?_, by simpa using h3⟩
    rw [assign_dealing]
    split
    · rfl
    · exact h2

/-- An update succeeds exactly when the record is held. -/
theorem update_ok_iff : (lh.update info).2 = .ok () ↔ lh.Held (kind.secretHash info) := by
  unfold update dbUpdate
  constructor
  · intro hu
    by_cases hlock : lh.dealingMapLock = true
    · simp [hlock] at hu
    cases hl : lh.dealingMap.lookup (kind.secretHash info) with
    | none => simp [hlock, hl] at hu
    | some r =>
      cases hg : lh.dbGet (kind.secretHash info) with
      | error e => simp [hlock, hl, hg] at hu
      | ok r' => exact ⟨by simpa using hlock, by simp [hl], r', hg⟩
  · rintro ⟨hlock, hdeal, r, hg⟩
    obtain ⟨r', hl⟩ := Option.isSome_iff_exists.mp hdeal
    simp [hlock, hl, hg]

theorem Held.get (hh : lh.Held h) : ∃ r, lh.get h = .ok r := by
  obtain ⟨r, hr⟩ := Option.isSome_iff_exists.mp hh.dealing
  exact ⟨r, by simp [Handler.get, hh.unlocked, hr]⟩

theorem not_held_of_get {e : Failure} (hg : lh.get h = .error e) : ¬ lh.Held h := by
  intro hh
  obtain ⟨r, hr⟩ := hh.get
  rw [hg] at hr
  cases hr

/-- The assignment before an update changes nothing in whether it succeeds. -/
theorem update_assign_ok_iff : ((lh.assign info).update info).2 = .ok () ↔ lh.Held (kind.secretHash info) :=
  update_ok_iff.trans held_assign

end Handler

namespace NotaryService

variable {ns : NotaryService} {token t : Address} {cs : CrossChainService}

theorem lockinDB_of_service (h : ns.service t = some cs) : cs.lockinHandler.db = ns.lockinDB := by
  obtain ⟨c, -, rfl⟩ := Option.map_eq_some_iff.mp h
  rfl

theorem lockoutDB_of_service (h : ns.service t = some cs) : cs.lockoutHandler.db = ns.lockoutDB := by
  obtain ⟨c, -, rfl⟩ := Option.map_eq_some_iff.mp h
  rfl

theorem service_put_self : (ns.put token cs).service token = some cs := by
  simp [service, put, AList.lookup_insert]

/-- The service of another token sees the tables that the worker left. -/
theorem service_put_ne (ht : t ≠ token) : (ns.put token cs).service t =
    (ns.service t).map fun c => { c with
      lockinHandler := { c.lockinHandler with db := cs.lockinHandler.db }
      lockoutHandler := { c.lockoutHandler with db := cs.lockoutHandler.db } } := by
  simp [service, put, AList.lookup_insert_ne ht, Function.comp_def]

/-- The lockin under `h` can be updated by the service of the token. -/
def LockinHeld (ns : NotaryService) (token : Address) (h : Bytes32) : Prop :=
  ∃ cs, ns.service token = some cs ∧ cs.lockinHandler.Held h

/-- The lockout under `h` can be updated by the service of the token. -/
def LockoutHeld (ns : NotaryService) (token : Address) (h : Bytes32) : Prop :=
  ∃ cs, ns.service token = some cs ∧ cs.lockoutHandler.Held h

theorem lockinHeld_assign {info : LockinInfo} {h : Bytes32} :
    (ns.assignLockin token info).LockinHeld t h ↔ ns.LockinHeld t h := by
  unfold assignLockin run LockinHeld
  cases hs : ns.service token with
  | none => rfl
  | some cs =>
    by_cases ht : t = token
    · subst ht
      simp only [service_put_self, hs, Option.some.injEq, exists_eq_left']
      exact Handler.held_assign
    · simp only [service_put_ne ht]
      cases hc : ns.service t with
      | none => simp
      | some c =>
        rw [Option.map_some, Handler.assign_db, lockinDB_of_service hs, ← lockinDB_of_service hc]
        simp

theorem lockoutHeld_assign {info : LockoutInfo} {h : Bytes32} :
    (ns.assignLockout token info).LockoutHeld t h ↔ ns.LockoutHeld t h := by
  unfold assignLockout run LockoutHeld
  cases hs : ns.service token with
  | none => rfl
  | some cs =>
    by_cases ht : t = token
    · subst ht
      simp only [service_put_self, hs, Option.some.injEq, exists_eq_left']
      exact Handler.held_assign
    · simp only [service_put_ne ht]
      cases hc : ns.service t with
      | none => simp
      | some c =>
        rw [Option.map_some, Handler.assign_db, lockoutDB_of_service hs, ← lockoutDB_of_service hc]
        simp

theorem updateLockinInfoNotaryIDInChargeID_ok_iff {h : Bytes32} {i : ℤ} :
    (ns.updateLockinInfoNotaryIDInChargeID token h i).2 = .ok () ↔ ns.LockinHeld token h := by
  unfold updateLockinInfoNotaryIDInChargeID run LockinHeld
  cases hs : ns.service token with
  | none => simp
  | some cs =>
    simp only [Option.some.injEq, exists_eq_left']
    cases hg : cs.lockinHandler.getLockin h with
    | error e => exact iff_of_false (fun hu => by cases hu) (Handler.not_held_of_get hg)
    | ok l =>
      have hl : l.secretHash = h := Handler.secretHash_of_get hg
      rw [← hl]
      exact Handler.update_assign_ok_iff

theorem updateLockoutInfoNotaryIDInChargeID_ok_iff {h : Bytes32} {i : ℤ} :
    (ns.updateLockoutInfoNotaryIDInChargeID token h i).2 = .ok () ↔ ns.LockoutHeld token h := by
  unfold updateLockoutInfoNotaryIDInChargeID run LockoutHeld
  cases hs : ns.service token with
  | none => simp
  | some cs =>
    simp only [Option.some.injEq, exists_eq_left']
    cases hg : cs.lockoutHandler.getLockout h with
    | error e => exact iff_of_false (fun hu => by cases hu) (Handler.not_held_of_get hg)
    | ok l =>
      have hl : l.secretHash = h := Handler.secretHash_of_get hg
      rw [← hl]
      exact Handler.update_assign_ok_iff

end NotaryService

end Updates

section Verify

variable {x : Externals} {gas : GasOracle} {contract caller : Address} {notary : PubKeyHash}

/-- What a lockin answer has passed that is accepted as `tx`. -/
structure SpectrumPrepareLockinTxData.Passes (d : SpectrumPrepareLockinTxData) (x : Externals) (gas : GasOracle)
    (contract caller : Address) (l : LockinInfo) (tx : PrepareTx) : Prop where
  user : d.userRequest.mcUserAddressHex x l.mcChainName = some l.mcUserAddressHex
  mcLock : l.mcLockStatus = .lock
  scNone : l.scLockStatus = .none
  rebuilt : ∃ a, getSignerETHAddress x d.userRequest.signer = .ok a ∧
    newPrepareTx gas .prepareLockin contract caller a l.secretHash d.scExpiration (l.amount - l.crossFee) d.nonce =
      .ok tx
  signed : x.signerHash tx = d.bytesToSign

/-- What a lockout answer on Ethereum has passed that is accepted as `tx`. -/
structure EthereumPrepareLockoutTxData.Passes (d : EthereumPrepareLockoutTxData) (x : Externals) (gas : GasOracle)
    (contract caller : Address) (l : LockoutInfo) (tx : PrepareTx) : Prop where
  user : l.scUserAddress = d.userRequest.scUserAddress
  scLock : l.scLockStatus = .lock
  mcNone : l.mcLockStatus = .none
  rebuilt : ∃ a, getSignerETHAddress x d.userRequest.signer = .ok a ∧
    newPrepareTx gas .prepareLockoutHTLC contract caller a l.secretHash d.mcExpiration (l.amount - l.crossFee) d.nonce =
      .ok tx
  signed : x.signerHash tx = d.bytesToSign

/-- What a lockout answer on Bitcoin has passed that spends `utxos` for the key `user`. -/
structure BitcoinPrepareLockoutTXData.Passes (d : BitcoinPrepareLockoutTXData) (x : Externals) (l : LockoutInfo)
    (notary : PubKeyHash) (db : OutpointTable) (utxos : List BTCOutpoint) (user : PubKeyHash) : Prop where
  scLock : l.scLockStatus = .lock
  mcNone : l.mcLockStatus = .none
  selected : selectedUTXOs db (splitDash d.utxoKeysStr) = .ok utxos
  signer : getSignerBTCPublicKey x d.userRequest.signer = .ok user
  input : ∃ utxo, utxoAt utxos d.txInID = .ok utxo ∧
    x.calcSignatureHash utxo.publicKeyHashStr (prepareLockoutTx x l user notary utxos d.fee) d.txInID =
      .ok d.bytesToSign
  origin : x.txHash (prepareLockoutTx x l user notary utxos d.fee) = d.originTXHash

/-- What the message has passed that takes a deposit on Bitcoin. -/
structure BitcoinLockinTXData.Passes (d : BitcoinLockinTXData) (x : Externals) (l : LockinInfo)
    (notary : PubKeyHash) : Prop where
  scUnlock : l.scLockStatus = .unlock
  mcLock : l.mcLockStatus = .lock
  user : l.mcUserAddressHex.decodes x = true
  signed : x.calcLockinSignatureHash l notary (lockinTx l notary d.fee) = .ok d.bytesToSign

/-- The rebuilt call has the arguments it was built from. -/
theorem newPrepareTx_ok {method : Method} {account : Address} {secretHash : Bytes32} {expiration nonce : UInt64}
    {amount : ℤ} {tx : PrepareTx}
    (h : newPrepareTx gas method contract caller account secretHash expiration amount nonce = .ok tx) :
    ∃ g, tx = {
      caller := caller, nonce := txNonce nonce, gas := g, contract := contract, method := method
      account := account, secretHash := secretHash, expiration := expiration, amount := amount } := by
  unfold newPrepareTx at h
  split at h
  · cases h
  · cases h
    exact ⟨_, rfl⟩

@[simp] theorem lockoutScript_expiration {l : LockoutInfo} {user : PubKeyHash} :
    (lockoutScript l user notary).expiration = l.mcExpiration.toInt64 := rfl

/-- The accepted call takes the contract, the hash and the amount from the record; the account, the
expiration and the nonce from the request. -/
theorem SpectrumPrepareLockinTxData.Passes.tx_eq {d : SpectrumPrepareLockinTxData} {l : LockinInfo} {tx : PrepareTx}
    (h : d.Passes x gas contract caller l tx) :
    ∃ a g, getSignerETHAddress x d.userRequest.signer = .ok a ∧ tx = {
      caller := caller, nonce := txNonce d.nonce, gas := g, contract := contract, method := .prepareLockin
      account := a, secretHash := l.secretHash, expiration := d.scExpiration, amount := l.amount - l.crossFee } := by
  obtain ⟨a, ha, htx⟩ := h.rebuilt
  obtain ⟨g, hg⟩ := newPrepareTx_ok htx
  exact ⟨a, g, ha, hg⟩

theorem EthereumPrepareLockoutTxData.Passes.tx_eq {d : EthereumPrepareLockoutTxData} {l : LockoutInfo}
    {tx : PrepareTx} (h : d.Passes x gas contract caller l tx) :
    ∃ a g, getSignerETHAddress x d.userRequest.signer = .ok a ∧ tx = {
      caller := caller, nonce := txNonce d.nonce, gas := g, contract := contract, method := .prepareLockoutHTLC
      account := a, secretHash := l.secretHash, expiration := d.mcExpiration, amount := l.amount - l.crossFee } := by
  obtain ⟨a, ha, htx⟩ := h.rebuilt
  obtain ⟨g, hg⟩ := newPrepareTx_ok htx
  exact ⟨a, g, ha, hg⟩

theorem SpectrumPrepareLockinTxData.verifySignData_ok_iff {d : SpectrumPrepareLockinTxData} {l : LockinInfo}
    {tx : PrepareTx} :
    (d.verifySignData x gas contract caller l).2 = .ok tx ↔ d.Passes x gas contract caller l tx := by
  unfold verifySignData
  constructor
  · intro h
    split_ifs at h with h1 h2 h3
    simp only [not_not] at h1 h2 h3
    simp only [bind_eq_ok, ensure_eq_ok, pure_eq_ok] at h
    obtain ⟨a, ha, tx', htx, -, hs, rfl⟩ := h
    exact ⟨h1, h2, h3, ⟨a, ha, htx⟩, hs⟩
  · rintro ⟨h1, h2, h3, ⟨a, ha, htx⟩, hs⟩
    simp only [h1, h2, h3, ne_eq, not_true_eq_false, if_false, bind_eq_ok, ensure_eq_ok, pure_eq_ok]
    exact ⟨a, ha, tx, htx, (), hs, rfl⟩

theorem EthereumPrepareLockoutTxData.verifySignData_ok_iff {d : EthereumPrepareLockoutTxData} {l : LockoutInfo}
    {tx : PrepareTx} :
    (d.verifySignData x gas contract caller l).2 = .ok tx ↔ d.Passes x gas contract caller l tx := by
  unfold verifySignData
  constructor
  · intro h
    split_ifs at h with h1 h2 h3
    simp only [not_not] at h1 h2 h3
    simp only [bind_eq_ok, ensure_eq_ok, pure_eq_ok] at h
    obtain ⟨a, ha, tx', htx, -, hs, rfl⟩ := h
    exact ⟨h1, h2, h3, ⟨a, ha, htx⟩, hs⟩
  · rintro ⟨h1, h2, h3, ⟨a, ha, htx⟩, hs⟩
    simp only [h1, h2, h3, ne_eq, not_true_eq_false, if_false, bind_eq_ok, ensure_eq_ok, pure_eq_ok]
    exact ⟨a, ha, tx, htx, (), hs, rfl⟩

/-- The transaction that a lockout answer on Bitcoin is accepted as is the rebuilt one. -/
theorem BitcoinPrepareLockoutTXData.verifySignData_ok_iff {d : BitcoinPrepareLockoutTXData} {l : LockoutInfo}
    {db : OutpointTable} {tx : MsgTx} {script : LockoutScript} :
    d.verifySignData x l notary db = .ok (tx, script) ↔ ∃ utxos user, d.Passes x l notary db utxos user ∧
      tx = prepareLockoutTx x l user notary utxos d.fee ∧ script = lockoutScript l user notary := by
  unfold verifySignData newBitcoinPrepareLockoutTXData
  simp only [bind_eq_ok, ensure_eq_ok, pure_eq_ok, mapError_eq_ok]
  constructor
  · rintro ⟨-, h1, -, h2, -, ⟨utxos, hsel, user, hsig, utxo, hget, b, hcalc, rfl⟩, -, horig, -, hb, heq⟩
    obtain ⟨rfl, rfl⟩ := Prod.mk.inj heq
    subst hb
    exact ⟨utxos, user, ⟨h1, h2, hsel, hsig, ⟨utxo, hget, hcalc⟩, horig⟩, rfl, rfl⟩
  · rintro ⟨utxos, user, ⟨h1, h2, hsel, hsig, ⟨utxo, hget, hcalc⟩, horig⟩, rfl, rfl⟩
    exact ⟨(), h1, (), h2, _, ⟨utxos, hsel, user, hsig, utxo, hget, _, hcalc, rfl⟩, (), horig, (), rfl, rfl⟩

theorem BitcoinLockinTXData.verifySignData_ok_iff {d : BitcoinLockinTXData} {l : LockinInfo} {tx : MsgTx} :
    d.verifySignData x l notary = .ok tx ↔ d.Passes x l notary ∧ tx = lockinTx l notary d.fee := by
  unfold verifySignData
  simp only [bind_eq_ok, ensure_eq_ok, pure_eq_ok, mapError_eq_ok]
  constructor
  · rintro ⟨-, h1, -, h2, -, h3, b, hcalc, -, rfl, rfl⟩
    exact ⟨⟨h1, h2, h3, hcalc⟩, rfl⟩
  · rintro ⟨⟨h1, h2, h3, hcalc⟩, rfl⟩
    exact ⟨(), h1, (), h2, (), h3, _, hcalc, (), rfl, rfl⟩

end Verify

section Check

variable {ns : NotaryService} {x : Externals} {node : Node} {pk : PrivateKeyInfo} {senderID : ℤ}

namespace NotaryService

/-- The record that a lockin answer is about, with the notary as the search for it leaves it. -/
def foundLockin (ns : NotaryService) (x : Externals) (node : Node) (req : SCPrepareLockinRequest) :
    NotaryService × Except Failure LockinInfo :=
  ns.run req.scTokenAddress fun cs => cs.getLockInInfoBySCPrepareLockInRequest x node req

theorem checkSpectrumPrepareLockin_ok_iff {m : SpectrumPrepareLockinTxData} {tx : PrepareTx} :
    (ns.checkSpectrumPrepareLockin x node pk m senderID).2 = .ok tx ↔
      ∃ l, (ns.foundLockin x node m.userRequest).2 = .ok l ∧
        m.Passes x node.gas l.scTokenAddress pk.address l tx ∧
        (ns.foundLockin x node m.userRequest).1.LockinHeld l.scTokenAddress l.secretHash := by
  unfold checkSpectrumPrepareLockin
  cases hf : ns.foundLockin x node m.userRequest with
  | mk ns' r =>
    unfold foundLockin at hf
    cases r with
    | error e => simp [hf]
    | ok l =>
      simp only [hf, Except.ok.injEq, exists_eq_left']
      rw [← SpectrumPrepareLockinTxData.verifySignData_ok_iff]
      cases hv : (m.verifySignData x node.gas l.scTokenAddress pk.address l).2 with
      | error e => simp
      | ok tx' =>
        simp only [map_eq_ok, Except.ok.injEq]
        rw [← lockinHeld_assign, ← updateLockinInfoNotaryIDInChargeID_ok_iff]
        constructor
        · rintro ⟨u, hu, rfl⟩
          exact ⟨rfl, hu⟩
        · rintro ⟨rfl, hu⟩
          exact ⟨(), hu, rfl⟩

theorem checkEthereumPrepareLockout_ok_iff {m : EthereumPrepareLockoutTxData} {tx : PrepareTx} :
    (ns.checkEthereumPrepareLockout x node pk m senderID).2 = .ok tx ↔
      ∃ l, ns.getLockoutInfo m.userRequest.scTokenAddress m.userRequest.secretHash = .ok l ∧
        m.Passes x node.gas (ns.mcLockedContractAddress l.scTokenAddress) pk.address l tx ∧
        ns.LockoutHeld l.scTokenAddress l.secretHash := by
  unfold checkEthereumPrepareLockout
  dsimp only
  cases hf : ns.getLockoutInfo m.userRequest.scTokenAddress m.userRequest.secretHash with
  | error e => simp
  | ok l =>
    simp only [Except.ok.injEq, exists_eq_left']
    rw [← EthereumPrepareLockoutTxData.verifySignData_ok_iff]
    cases hv : (m.verifySignData x node.gas (ns.mcLockedContractAddress l.scTokenAddress) pk.address l).2 with
    | error e => simp
    | ok tx' =>
      simp only [map_eq_ok, Except.ok.injEq]
      rw [← lockoutHeld_assign, ← updateLockoutInfoNotaryIDInChargeID_ok_iff]
      constructor
      · rintro ⟨u, hu, rfl⟩
        exact ⟨rfl, hu⟩
      · rintro ⟨rfl, hu⟩
        exact ⟨(), hu, rfl⟩

/-- An assignment to a record in memory leaves the table of outputs. -/
theorem assignLockout_outpoints {token : Address} {info : LockoutInfo} :
    (ns.assignLockout token info).outpoints = ns.outpoints := by
  unfold assignLockout run
  split <;> rfl

theorem checkBitcoinPrepareLockout_ok_iff {m : BitcoinPrepareLockoutTXData} {tx : MsgTx} {script : LockoutScript} :
    (ns.checkBitcoinPrepareLockout x pk m).2 = .ok (tx, script) ↔
      ∃ l utxos user, ns.getLockoutInfo m.scTokenAddress m.secretHash = .ok l ∧
        m.Passes x { l with mcExpiration := m.mcExpiration } pk.pubKeyHash ns.outpoints utxos user ∧
        tx = prepareLockoutTx x { l with mcExpiration := m.mcExpiration } user pk.pubKeyHash utxos m.fee ∧
        script = lockoutScript { l with mcExpiration := m.mcExpiration } user pk.pubKeyHash := by
  unfold checkBitcoinPrepareLockout
  cases hf : ns.getLockoutInfo m.scTokenAddress m.secretHash with
  | error e => simp
  | ok l =>
    dsimp only
    rw [assignLockout_outpoints, BitcoinPrepareLockoutTXData.verifySignData_ok_iff]
    simp

theorem checkBitcoinLockin_ok_iff {m : BitcoinLockinTXData} {tx : MsgTx} :
    (ns.checkBitcoinLockin x pk m).2 = .ok tx ↔
      ∃ l, ns.getLockinInfo m.scTokenAddress m.secretHash = .ok l ∧ m.Passes x l pk.pubKeyHash ∧
        tx = lockinTx l pk.pubKeyHash m.fee := by
  unfold checkBitcoinLockin
  cases hf : ns.getLockinInfo m.scTokenAddress m.secretHash with
  | error e => simp
  | ok l => simp [BitcoinLockinTXData.verifySignData_ok_iff]

end NotaryService

end Check

end DistributedNotary.Service
