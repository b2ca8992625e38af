import DistributedNotary.Btc.Spends
import DistributedNotary.Service.BtcSpending
import DistributedNotary.Service.SignRequests

/-! The transaction that prepares a lockout on Bitcoin, and the event that is read
off it. A node registers an input each time it agrees to sign it, in place of what
it registered before. The event repeats what was registered last about the first
input that is known, and where its lock stands is counted from the outputs. -/
namespace DistributedNotary.Service

open Library Btc Contracts
open Library.Script (hex addInt64)

/-- The encodings of Bitcoin that a registration uses. -/
structure Encodings where
  serializeCompressed : PrivateKeyInfo → Bytes
  addressString : PubKeyHash → String
  hash160 : Bytes → BitVec 160

def LockoutScript.getPKScript (s : LockoutScript) : Bytes :=
  PrepareLockOutScriptBuilder.getPKScript
    { userAddr := s.user, notaryAddr := s.notary, lockSecretHash := s.secretHash, expiration := s.expiration }

/-- An input that this node signs, for another notary or for a lockout that it calls itself. -/
inductive Signing where
  | request (ns : NotaryService) (privateKeyInfo : PrivateKeyInfo) (m : BitcoinPrepareLockoutTXData)
  | call (db : OutpointTable) (privateKeyInfo : PrivateKeyInfo) (req : MCPrepareLockoutRequest)
      (localLockoutInfo : LockoutInfo) (utxoKeysStr : String) (index : ℕ)

/-- What is known of an input when it is registered. -/
structure Signed where
  outpoint : OutPoint
  secretHash : Bytes32
  privateKeyInfo : PrivateKeyInfo
  user : PubKeyHash
  mcExpiration : UInt64
  lockScript : LockoutScript

/-- `tx.TxIn[index].PreviousOutPoint`. -/
def MsgTx.txInAt (tx : MsgTx) (index : ℕ) : Except Failure OutPoint :=
  match tx.txIn[index]? with
  | some outpoint => .ok outpoint
  | none => .error (.panic "index out of range")

/-- The input to register, if the request is accepted, or if the message for the call can be built. -/
def Signing.signed (x : Externals) : Signing → Except Failure Signed
  | .request ns privateKeyInfo m => do
    let (tx, lockScript) ← (ns.checkBitcoinPrepareLockout x privateKeyInfo m).2
    let outpoint ← NotaryService.watchedOutpoint m tx
    let user ← getSignerBTCPublicKey x m.userRequest.signer
    return { outpoint := outpoint, secretHash := m.secretHash, privateKeyInfo := privateKeyInfo, user := user
             mcExpiration := m.mcExpiration, lockScript := lockScript }
  | .call db privateKeyInfo req localLockoutInfo utxoKeysStr index => do
    let msgToSign ← newBitcoinPrepareLockoutTXData x req localLockoutInfo privateKeyInfo.pubKeyHash db utxoKeysStr
      minerFee index
    let outpoint ← msgToSign.originTx.txInAt index
    let user ← getSignerBTCPublicKey x req.signer
    return { outpoint := outpoint, secretHash := req.secretHash, privateKeyInfo := privateKeyInfo, user := user
             mcExpiration := localLockoutInfo.mcExpiration, lockScript := msgToSign.lockScript }

def Signed.relevantInfo (en : Encodings) (s : Signed) : BTCOutpointRelevantInfo where
  use := .toPrepareLockout
  secretHash := s.secretHash
  lockScriptHex := hex (en.serializeCompressed s.privateKeyInfo)
  isHex := ⟨_, rfl⟩
  data4PrepareLockout := some {
    userAddressPublicKeyHashHex := en.addressString s.user
    mcExpiration := s.mcExpiration
    txOutLockScriptHex := String.ofList (hex s.lockScript.getPKScript) }

/-- The registrations that a sequence of signings makes. -/
def signedInputs (x : Externals) (signings : List Signing) : List Signed :=
  signings.filterMap fun s => (s.signed x).toOption

/-- The node after it has signed. -/
def registerSigned (en : Encodings) (bs : BTCService) (inputs : List Signed) : BTCService :=
  inputs.foldl (fun bs s => bs.registerOutpoint s.outpoint (s.relevantInfo en)) bs

/-- What was registered last about an output. -/
def lastSigned (inputs : List Signed) (outpoint : OutPoint) : Option Signed :=
  inputs.reverse.find? fun s => getOutpointKey s.outpoint = getOutpointKey outpoint

/-- What was registered last about the first input that was registered at all. -/
def firstSigned (inputs : List Signed) (tx : MsgTx) : Option Signed := tx.txIn.findSome? (lastSigned inputs)

/-- The lock script that an event repeats. -/
def recordedScript (e : PrepareLockoutEvent) : Bytes := hex2Bytes e.txOutLockScriptHex.toList

/-- The event describes the transaction. -/
structure Describes (en : Encodings) (e : PrepareLockoutEvent) (tx : MsgTx) : Prop where
  lock : 0 ≤ e.lockOutpointIndex ∧
    tx.txOut[e.lockOutpointIndex.toNat]?.map TxOut.pkScript = some (.payToScriptHash (en.hash160 (recordedScript e)))
  expiration : ∃ secretHash user notary,
    recordedScript e = hashTimeLock secretHash user e.mcExpiration.toInt64 notary
  change : ∀ (i : ℕ) a, (e.changeOutPointIndex = i ∧ e.changeAmount = a) ↔
    ∃ h, tx.txOut[i]? = some { value := a, pkScript := .payToPubKeyHash h }
  noChange : e.changeOutPointIndex < 0 → e.changeOutPointIndex = -1 ∧ e.changeAmount = 0

section Registered

variable {x : Externals} {en : Encodings} {s : Signed}

/-- A lock script ends at the expiration that is registered with it. -/
theorem expiration_of_signed {signing : Signing} (h : signing.signed x = .ok s) :
    s.lockScript.expiration = s.mcExpiration.toInt64 := by
  cases signing with
  | request ns privateKeyInfo m =>
    simp only [Signing.signed, bind_eq_ok, pure_eq_ok] at h
    obtain ⟨⟨tx, script⟩, hcheck, o, -, user, -, rfl⟩ := h
    obtain ⟨l, utxos, signer, -, -, -, rfl⟩ := NotaryService.checkBitcoinPrepareLockout_ok_iff.mp hcheck
    rfl
  | call db privateKeyInfo req l utxoKeysStr index =>
    simp only [Signing.signed, newBitcoinPrepareLockoutTXData, bind_eq_ok, pure_eq_ok] at h
    obtain ⟨msg, ⟨utxos, -, user, -, utxo, -, b, -, rfl⟩, o, -, user', -, rfl⟩ := h
    rfl

theorem expiration_of_mem {signings : List Signing} (h : s ∈ signedInputs x signings) :
    s.lockScript.expiration = s.mcExpiration.toInt64 := by
  obtain ⟨signing, -, hs⟩ := List.mem_filterMap.mp h
  cases hsigned : signing.signed x with
  | error f =>
    rw [hsigned] at hs
    cases hs
  | ok s' =>
    rw [hsigned] at hs
    obtain rfl := Option.some.inj hs
    exact expiration_of_signed hsigned

theorem outpoint2VerifyHexMap_registerSigned (bs : BTCService) (inputs : List Signed) :
    (registerSigned en bs inputs).outpoint2VerifyHexMap =
      inputs.foldl (fun m s => m.insert (getOutpointKey s.outpoint) (s.relevantInfo en)) bs.outpoint2VerifyHexMap := by
  induction inputs generalizing bs with
  | nil => rfl
  | cons s inputs ih => exact ih _

/-- A node knows about an output what it registered last. -/
theorem lookup_registerSigned {bs : BTCService} {inputs : List Signed} {o : OutPoint}
    (hfresh : bs.outpoint2VerifyHexMap.lookup (getOutpointKey o) = none) :
    (registerSigned en bs inputs).outpoint2VerifyHexMap.lookup (getOutpointKey o) =
      (lastSigned inputs o).map (Signed.relevantInfo en) := by
  rw [outpoint2VerifyHexMap_registerSigned, RangeMap.lookup_foldl_insert_map, hfresh, Option.or_none]
  rfl

/-- The registration that the event is made from. -/
theorem firstRelevant_registerSigned {bs : BTCService} {inputs : List Signed} {t : Tx} {tx : MsgTx}
    (hin : t.txIn.map TxIn.previousOutPoint = tx.txIn)
    (hfresh : ∀ o ∈ tx.txIn, bs.outpoint2VerifyHexMap.lookup (getOutpointKey o) = none) :
    ((registerSigned en bs inputs).firstRelevant t).map Prod.snd =
      (firstSigned inputs tx).map (Signed.relevantInfo en) := by
  rw [← hin] at hfresh
  rw [firstSigned, ← hin, BTCService.firstRelevant]
  generalize t.txIn = ins at hfresh
  induction ins with
  | nil => rfl
  | cons txIn rest ih =>
    have hlook : (registerSigned en bs inputs).relevantInfo txIn =
        (lastSigned inputs txIn.previousOutPoint).map (Signed.relevantInfo en) :=
      lookup_registerSigned (hfresh _ List.mem_cons_self)
    have hrest := ih fun o ho => hfresh o (List.mem_cons_of_mem _ ho)
    rw [List.map_cons, List.findSome?_cons, List.findSome?_cons, hlook]
    cases lastSigned inputs txIn.previousOutPoint with
    | none => exact hrest
    | some s => rfl

end Registered

section Events

variable {x : Externals} {en : Encodings} {names : Script.OpcodeNames} {bs : BTCService} {blockNumber : Int32}
  {signings : List Signing} {t : Tx} {tx : MsgTx} {es : List SpendEvent} {e : PrepareLockoutEvent}

/-- What an input yields that was registered for a lockout: the event, if the script of the input shows the key. -/
theorem createEventsFromTx_toPrepareLockout {txIn : TxIn} {s : Signed}
    (hrel : bs.firstRelevant t = some (txIn, s.relevantInfo en)) :
    bs.createEventsFromTx names blockNumber t =
      if scriptContains names txIn (s.relevantInfo en).lockScriptHex then
        (createPrepareLockoutEvent blockNumber.toInt64.toUInt64 t (s.relevantInfo en)).map fun e => [.prepareLockout e]
      else some [] := by
  have huse : (s.relevantInfo en).use = .toPrepareLockout := rfl
  simp [BTCService.createEventsFromTx, hrel, isLockin, isCancelPrepareLockin, isPrepareLockout, isLockout,
    isCancelPrepareLockout, huse]

/-- An event of a lockout is made from a registration for one. -/
theorem event_of_relevantInfo {inputs : List Signed} (hin : t.txIn.map TxIn.previousOutPoint = tx.txIn)
    (hfresh : ∀ o ∈ tx.txIn, bs.outpoint2VerifyHexMap.lookup (getOutpointKey o) = none)
    (hes : (registerSigned en bs inputs).createEventsFromTx names blockNumber t = some es)
    (he : .prepareLockout e ∈ es) :
    ∃ s, firstSigned inputs tx = some s ∧
      createPrepareLockoutEvent blockNumber.toInt64.toUInt64 t (s.relevantInfo en) = some e := by
  have hfirst := @firstRelevant_registerSigned en bs inputs t tx hin hfresh
  cases hrel : (registerSigned en bs inputs).firstRelevant t with
  | none =>
    rw [BTCService.createEventsFromTx, hrel] at hes
    cases hes
    exact absurd he List.not_mem_nil
  | some r =>
    obtain ⟨txIn, info⟩ := r
    rw [hrel, Option.map_some] at hfirst
    obtain ⟨s, hs, hinfo⟩ := Option.map_eq_some_iff.mp hfirst.symm
    obtain rfl : s.relevantInfo en = info := hinfo
    refine ⟨s, hs, ?_⟩
    rw [createEventsFromTx_toPrepareLockout hrel] at hes
    split_ifs at hes
    · obtain ⟨e', he', rfl⟩ := Option.map_eq_some_iff.mp hes
      obtain rfl : e = e' := by simpa using he
      exact he'
    · cases hes
      exact absurd he List.not_mem_nil

variable {l : LockoutInfo} {user notary : PubKeyHash} {utxos : List BTCOutpoint} {fee : Int64}

theorem txOut_of_change (h : 0 < backAmount l utxos fee) : (prepareLockoutTx x l user notary utxos fee).txOut =
    [{ value := backAmount l utxos fee, pkScript := .payToPubKeyHash notary },
      { value := lockAmount l, pkScript := .payToScriptHash (x.scriptHash (lockoutScript l user notary)) }] := by
  simp [prepareLockoutTx, h]

theorem txOut_of_no_change (h : ¬ 0 < backAmount l utxos fee) : (prepareLockoutTx x l user notary utxos fee).txOut =
    [{ value := lockAmount l, pkScript := .payToScriptHash (x.scriptHash (lockoutScript l user notary)) }] := by
  simp [prepareLockoutTx, h]

/-- What is registered about the script and the expiration of a lockout fits together. -/
theorem recorded_of_signed {s : Signed} (hs : s ∈ signedInputs x signings) {blockNumber : UInt64}
    (he : createPrepareLockoutEvent blockNumber t (s.relevantInfo en) = some e) :
    recordedScript e = s.lockScript.getPKScript ∧ e.mcExpiration.toInt64 = s.lockScript.expiration := by
  obtain rfl := Option.some.inj he
  refine ⟨?_, (expiration_of_mem hs).symm⟩
  change hex2Bytes (String.ofList (hex s.lockScript.getPKScript)).toList = _
  rw [String.toList_ofList, hex2Bytes_hex]

/-- The change of an event is that of the transaction. -/
theorem change_of_event {s : Signed} {blockNumber : UInt64}
    (hout : t.txOut = (prepareLockoutTx x l user notary utxos fee).txOut)
    (he : createPrepareLockoutEvent blockNumber t (s.relevantInfo en) = some e) (i : ℕ) (a : Int64) :
    (e.changeOutPointIndex = i ∧ e.changeAmount = a) ↔
      ∃ h, (prepareLockoutTx x l user notary utxos fee).txOut[i]? =
        some { value := a, pkScript := .payToPubKeyHash h } := by
  obtain rfl := Option.some.inj he
  dsimp only
  rw [hout]
  by_cases hchange : 0 < backAmount l utxos fee
  · rw [txOut_of_change hchange]
    match i with
    | 0 => simp
    | 1 => simp
    | i + 2 => simp; omega
  · rw [txOut_of_no_change hchange]
    match i with
    | 0 => simp
    | i + 1 => simp; omega

theorem noChange_of_event {s : Signed} {blockNumber : UInt64}
    (he : createPrepareLockoutEvent blockNumber t (s.relevantInfo en) = some e) (hneg : e.changeOutPointIndex < 0) :
    e.changeOutPointIndex = -1 ∧ e.changeAmount = 0 := by
  obtain rfl := Option.some.inj he
  dsimp only at hneg ⊢
  split_ifs at hneg ⊢ with h1 h2
  · omega
  · exact ⟨rfl, rfl⟩
  · omega
  · omega

/-- The lock of an event is that of the transaction exactly if there is change and the script that was registered has
the hash that the lock pays to. -/
theorem lock_of_event_iff {s : Signed} {blockNumber : UInt64} (hhash : ∀ s, x.scriptHash s = en.hash160 s.getPKScript)
    (hs : s ∈ signedInputs x signings) (hout : t.txOut = (prepareLockoutTx x l user notary utxos fee).txOut)
    (he : createPrepareLockoutEvent blockNumber t (s.relevantInfo en) = some e) :
    (0 ≤ e.lockOutpointIndex ∧
      (prepareLockoutTx x l user notary utxos fee).txOut[e.lockOutpointIndex.toNat]?.map TxOut.pkScript =
        some (.payToScriptHash (en.hash160 (recordedScript e)))) ↔
      0 < backAmount l utxos fee ∧ x.scriptHash s.lockScript = x.scriptHash (lockoutScript l user notary) := by
  rw [(recorded_of_signed hs he).1, ← hhash]
  have hindex : e.lockOutpointIndex = 1 := by
    obtain rfl := Option.some.inj he
    dsimp only
    rw [hout, if_pos]
    by_cases hchange : 0 < backAmount l utxos fee
    · right
      rw [txOut_of_change hchange]
      rfl
    · left
      rw [txOut_of_no_change hchange]
      rfl
  rw [hindex]
  by_cases hchange : 0 < backAmount l utxos fee
  · rw [txOut_of_change hchange]
    simp [hchange, eq_comm]
  · rw [txOut_of_no_change hchange]
    simp [hchange]

/-- The event of a lockout describes its transaction exactly if the inputs leave change and the first input that was
registered was last signed for a lock script with the hash of this lock. -/
theorem describes_iff (hhash : ∀ s, x.scriptHash s = en.hash160 s.getPKScript)
    (hin : t.txIn.map TxIn.previousOutPoint = (prepareLockoutTx x l user notary utxos fee).txIn)
    (hout : t.txOut = (prepareLockoutTx x l user notary utxos fee).txOut)
    (hfresh : ∀ o ∈ (prepareLockoutTx x l user notary utxos fee).txIn,
      bs.outpoint2VerifyHexMap.lookup (getOutpointKey o) = none)
    (hes : (registerSigned en bs (signedInputs x signings)).createEventsFromTx names blockNumber t = some es)
    (he : .prepareLockout e ∈ es) :
    Describes en e (prepareLockoutTx x l user notary utxos fee) ↔
      0 < (totalAmount utxos - (l.amount - l.crossFee) - fee.toInt).bmod (2 ^ 64) ∧
        ∃ s, firstSigned (signedInputs x signings) (prepareLockoutTx x l user notary utxos fee) = some s ∧
          x.scriptHash s.lockScript = x.scriptHash (lockoutScript l user notary) := by
  obtain ⟨s, hs, hevent⟩ := event_of_relevantInfo hin hfresh hes he
  have hmem : s ∈ signedInputs x signings := by
    obtain ⟨o, -, ho⟩ := List.exists_of_findSome?_eq_some hs
    exact List.mem_reverse.mp (List.mem_of_find?_eq_some ho)
  have hlock := lock_of_event_iff hhash hmem hout hevent
  have hback : 0 < backAmount l utxos fee ↔
      0 < (totalAmount utxos - (l.amount - l.crossFee) - fee.toInt).bmod (2 ^ 64) := by
    rw [← backAmount_toInt, Int64.lt_iff_toInt_lt]
    rfl
  rw [hs, ← hback]
  constructor
  · intro h
    obtain ⟨hchange, hscript⟩ := hlock.mp h.lock
    exact ⟨hchange, s, rfl, hscript⟩
  · rintro ⟨hchange, s', hs', hscript⟩
    obtain rfl := Option.some.inj hs'
    obtain ⟨hrecorded, hexp⟩ := recorded_of_signed hmem hevent
    exact {
      lock := hlock.mpr ⟨hchange, hscript⟩
      expiration := ⟨s.lockScript.secretHash, s.lockScript.user, s.lockScript.notary, by rw [hrecorded, hexp]; rfl⟩
      change := change_of_event hout hevent
      noChange := noChange_of_event hevent }

end Events

section Examples

/-- Encodings to evaluate with. -/
def Encodings.short : Encodings where
  serializeCompressed pk := [2, UInt8.ofNat pk.pubKeyHash.toNat]
  addressString h := String.ofList [Char.ofNat h.toNat]
  hash160 b := BitVec.ofNat 160 (Script.ofBytes (Script.sha256 b))

def Externals.hashing : Externals :=
  { Externals.short with scriptHash := fun s => Encodings.short.hash160 s.getPKScript }

def outpoint6 (amount : Int64) : BTCOutpoint where
  publicKeyHashStr := "n"
  txHashStr := "aa"
  index := 0
  amount := amount
  status := .usable
  pbftStatus := .commit
  view := 0
  pbftReason := ""

theorem named_outpoint6 (amount : Int64) : ∀ o ∈ [outpoint6 amount], o.txHashStr ≠ "" := by
  simp [outpoint6]

/-- A notary whose only output has this value. -/
def notaryWith (amount : Int64) : NotaryService :=
  { notary7 with
    outpoints := {
      rows := [outpoint6 amount]
      primaryKey := List.nodup_singleton _
      named := named_outpoint6 amount } }

/-- The request to sign the only input of a transaction with the hash. -/
def prepareLockout6 (originTXHash : Bytes) : BitcoinPrepareLockoutTXData where
  scTokenAddress := 3
  secretHash := 6
  userRequest := lockoutRequest6
  fee := minerFee
  utxoKeysStr := "aa"
  txInID := 0
  mcExpiration := 2550
  originTXHash := originTXHash
  bytesToSign := 0 :: originTXHash

/-- The transaction that spends the only output. -/
def tx6 (amount : Int64) : MsgTx :=
  prepareLockoutTx .hashing { lockoutInfo6 .bitcoin 3 with mcExpiration := 2550 } 2 privateKeyInfo6.pubKeyHash
    [outpoint6 amount] minerFee

def input6 : TxIn where
  previousOutPoint := ⟨"aa", 0⟩
  signatureScript := Script.addData [0x30, 0x01] ++
    Script.addData (Encodings.short.serializeCompressed privateKeyInfo6)

/-- It is signed and confirmed. -/
def confirmed6 (amount : Int64) : Tx where
  hash := "tt"
  txIn := [input6]
  txOut := (tx6 amount).txOut

def signing6 (amount : Int64) (originTXHash : Bytes) : Signing :=
  .request (notaryWith amount) privateKeyInfo6 (prepareLockout6 originTXHash)

def signed6 : Signed where
  outpoint := ⟨"aa", 0⟩
  secretHash := 6
  privateKeyInfo := privateKeyInfo6
  user := 2
  mcExpiration := 2550
  lockScript := lockoutScript { lockoutInfo6 .bitcoin 3 with mcExpiration := 2550 } 2 privateKeyInfo6.pubKeyHash

/-- The request is accepted and its input registered. -/
theorem signedInputs_signing6 {amount : Int64} {originTXHash : Bytes}
    (h : (prepareLockout6 originTXHash).Passes .hashing { lockoutInfo6 .bitcoin 3 with mcExpiration := 2550 }
      privateKeyInfo6.pubKeyHash (notaryWith amount).outpoints [outpoint6 amount] 2) :
    signedInputs .hashing [signing6 amount originTXHash] = [signed6] := by
  have hcheck : ((notaryWith amount).checkBitcoinPrepareLockout .hashing privateKeyInfo6
      (prepareLockout6 originTXHash)).2 = .ok (tx6 amount, signed6.lockScript) :=
    NotaryService.checkBitcoinPrepareLockout_ok_iff.mpr ⟨_, _, _, rfl, h, rfl, rfl⟩
  have hsigned : (signing6 amount originTXHash).signed .hashing = .ok signed6 := by
    simp only [signing6, Signing.signed, hcheck]
    rfl
  simp [signedInputs, hsigned, Except.toOption]

/-- The event of the transaction. -/
def event6 (amount : Int64) : PrepareLockoutEvent :=
  (createPrepareLockoutEvent 700 (confirmed6 amount) (signed6.relevantInfo .short)).get rfl

theorem events_confirmed6 (amount : Int64) :
    (registerSigned .short ⟨∅⟩ [signed6]).createEventsFromTx pushNames 700 (confirmed6 amount) =
      some [.prepareLockout (event6 amount)] := by
  have hrel : (registerSigned .short ⟨∅⟩ [signed6]).firstRelevant (confirmed6 amount) =
      some (input6, signed6.relevantInfo .short) := rfl
  have hshown : scriptContains pushNames input6 (signed6.relevantInfo .short).lockScriptHex = true := by decide +kernel
  rw [createEventsFromTx_toPrepareLockout hrel, if_pos hshown]
  rfl

/-- An output of 10000 is spent for a lockout of 10000. Nothing is left to change, and the event names an output that
the transaction does not have. -/
theorem event_without_change :
    signedInputs .hashing [signing6 10000 [15]] = [signed6] ∧
      (registerSigned .short ⟨∅⟩ [signed6]).createEventsFromTx pushNames 700 (confirmed6 10000) =
        some [.prepareLockout (event6 10000)] ∧
      ¬ Describes .short (event6 10000) (tx6 10000) := by
  refine ⟨signedInputs_signing6 ⟨rfl, rfl, by decide +kernel, rfl, ⟨_, rfl, by decide +kernel⟩, by decide +kernel⟩,
    events_confirmed6 _, fun h => ?_⟩
  obtain ⟨-, hlock⟩ := h.lock
  have hnone : (tx6 10000).txOut[(event6 10000).lockOutpointIndex.toNat]? = none := by decide +kernel
  rw [hnone] at hlock
  cases hlock

/-- With an output of 20000 there is change, and the event describes the transaction. -/
theorem event_with_change : Describes .short (event6 20000) (tx6 20000) := by
  have hsigned : signedInputs .hashing [signing6 20000 [41, 15]] = [signed6] :=
    signedInputs_signing6 ⟨rfl, rfl, by decide +kernel, rfl, ⟨_, rfl, by decide +kernel⟩, by decide +kernel⟩
  refine (describes_iff (fun _ => rfl) rfl rfl (fun _ _ => rfl) (hsigned.symm ▸ events_confirmed6 20000)
    List.mem_cons_self).mpr ⟨by decide +kernel, signed6, ?_, rfl⟩
  rw [hsigned]
  rfl

end Examples

end DistributedNotary.Service
