import DistributedNotary.Btc.Reservation
import DistributedNotary.Service.BtcSpending

/-! The value that a lockout on Bitcoin moves. The outputs are selected for the whole
amount, the lock is worth the amount less the cross fee, and the change is what is left
over the lock and the miner fee, if anything is. All three are reckoned in 64 bits. -/
namespace DistributedNotary.Service

open Library Btc Contracts

def PkScript.isLock : PkScript → Bool
  | .payToScriptHash _ => true
  | .payToPubKeyHash _ => false

/-- What the outputs of a transaction are worth, in full. -/
def outValue (outs : List TxOut) : ℤ := (outs.map fun o => o.value.toInt).sum

def lockValue (tx : MsgTx) : ℤ := outValue (tx.txOut.filter fun o => o.pkScript.isLock)

def changeValue (tx : MsgTx) : ℤ := outValue (tx.txOut.filter fun o => !o.pkScript.isLock)

/-- What the miner gets of the inputs. -/
def minerValue (utxos : List BTCOutpoint) (tx : MsgTx) : ℤ := totalAmount utxos - outValue tx.txOut

/-- The inputs are shared out to the lock, the change and the miner. -/
structure Conserves (utxos : List BTCOutpoint) (tx : MsgTx) (amount crossFee fee : ℤ) : Prop where
  inputs : tx.txIn = utxos.map BTCOutpoint.getOutpoint
  sum : totalAmount utxos = lockValue tx + changeValue tx + minerValue utxos tx
  lock : lockValue tx = amount - crossFee
  lock_nonneg : 0 ≤ lockValue tx
  change_nonneg : 0 ≤ changeValue tx
  miner_nonneg : 0 ≤ minerValue utxos tx
  fee : (∃ o ∈ tx.txOut, o.pkScript.isLock = false) → minerValue utxos tx = fee

section Values

variable {x : Externals} {l : LockoutInfo} {user notary : PubKeyHash} {utxos : List BTCOutpoint} {fee : Int64}

theorem lockValue_prepareLockoutTx :
    lockValue (prepareLockoutTx x l user notary utxos fee) = (lockAmount l).toInt := by
  unfold prepareLockoutTx lockValue outValue
  split <;> simp [PkScript.isLock]

theorem changeValue_prepareLockoutTx :
    changeValue (prepareLockoutTx x l user notary utxos fee) =
      if backAmount l utxos fee > 0 then (backAmount l utxos fee).toInt else 0 := by
  unfold prepareLockoutTx changeValue outValue
  split <;> simp [PkScript.isLock]

theorem minerValue_prepareLockoutTx :
    minerValue utxos (prepareLockoutTx x l user notary utxos fee) = totalAmount utxos - (lockAmount l).toInt -
      if backAmount l utxos fee > 0 then (backAmount l utxos fee).toInt else 0 := by
  rw [minerValue, outValue, sum_txOut]
  omega

theorem exists_change_iff :
    (∃ o ∈ (prepareLockoutTx x l user notary utxos fee).txOut, o.pkScript.isLock = false) ↔
      backAmount l utxos fee > 0 := by
  unfold prepareLockoutTx
  split <;> simp [PkScript.isLock, *]

/-- The cross fee is a part of the amount. -/
theorem calculateCrossFee_le (cfg : Cfg) (chainName : ChainName) (amount : ℕ)
    (hrate : 0 ≤ cfg.getCrossFeeRate chainName) :
    0 ≤ cfg.calculateCrossFee chainName amount ∧ cfg.calculateCrossFee chainName amount ≤ amount := by
  have hr : 0 ≤ (cfg.getCrossFeeRate chainName).toInt := Int64.le_iff_toInt_le.mp hrate
  unfold Cfg.calculateCrossFee
  split_ifs
  · exact ⟨le_refl 0, Int.natCast_nonneg amount⟩
  · exact ⟨Int.ediv_nonneg (Int.natCast_nonneg amount) hr, Int.ediv_le_self _ (Int.natCast_nonneg amount)⟩

/-- What is selected for an amount is worth it, if its value fits into 64 bits. -/
theorem le_totalAmount_of_selected {db : OutpointTable} {asc : AmountAsc} {desc : AmountDesc} {view : ℤ}
    {amount : Int64}
    (hsel : db.getAvailableUTXO asc desc view amount = .ok utxos)
    (hfits : -2 ^ 63 ≤ totalAmount utxos ∧ totalAmount utxos < 2 ^ 63) : amount.toInt ≤ totalAmount utxos := by
  have hselects := OutpointTable.getAvailableUTXO_selects db asc desc view amount
  rw [hsel] at hselects
  have hsum := Int64.le_iff_toInt_le.mp hselects.2.1
  have hexact : (Int64.ofInt (OutpointTable.total utxos)).toInt = totalAmount utxos :=
    Int64.toInt_ofInt_of_le hfits.1 hfits.2
  rwa [OutpointTable.sum64_eq, hexact] at hsum

/-- A lock that the inputs cover leaves change exactly above the fee, and the change is the rest. -/
theorem backAmount_of_covered (hlock : 0 ≤ l.amount - l.crossFee) (hcover : l.amount - l.crossFee ≤ totalAmount utxos)
    (hfits : totalAmount utxos < 2 ^ 63) (hfee : 0 ≤ fee) :
    (backAmount l utxos fee).toInt = totalAmount utxos - (l.amount - l.crossFee) - fee.toInt := by
  have h0 : 0 ≤ fee.toInt := Int64.le_iff_toInt_le.mp hfee
  have h1 := fee.toInt_lt
  rw [backAmount_toInt]
  exact Int.bmod_eq_of_le (by omega) (by omega)

/-- The shares of a lock that the inputs cover. -/
theorem conserves_of_covered (hlock : 0 ≤ l.amount - l.crossFee)
    (hcover : l.amount - l.crossFee ≤ totalAmount utxos) (hfits : totalAmount utxos < 2 ^ 63) (hfee : 0 ≤ fee) :
    Conserves utxos (prepareLockoutTx x l user notary utxos fee) l.amount l.crossFee fee.toInt := by
  have hamount : (lockAmount l).toInt = l.amount - l.crossFee :=
    toInt_toInt64_eq_iff.mpr ⟨by omega, by omega⟩
  have hback := backAmount_of_covered hlock hcover hfits hfee
  have h0 : 0 ≤ fee.toInt := Int64.le_iff_toInt_le.mp hfee
  have hpos : backAmount l utxos fee > 0 ↔ 0 < (backAmount l utxos fee).toInt := Int64.lt_iff_toInt_lt
  constructor
  · rfl
  · rw [lockValue_prepareLockoutTx, changeValue_prepareLockoutTx, minerValue_prepareLockoutTx]
    omega
  · rw [lockValue_prepareLockoutTx, hamount]
  · rw [lockValue_prepareLockoutTx, hamount]
    exact hlock
  · rw [changeValue_prepareLockoutTx]
    split_ifs with h
    · exact (hpos.mp h).le
    · exact le_refl 0
  · rw [minerValue_prepareLockoutTx, hamount]
    split_ifs with h
    · omega
    · omega
  · intro h
    rw [minerValue_prepareLockoutTx, if_pos (exists_change_iff.mp h), hamount, hback]
    omega

end Values

/-- The outputs that are selected for a lockout are shared out to the lock, the change and the miner. -/
theorem lockout_conserves {x : Externals} {cfg : Cfg} {l : LockoutInfo} {user notary : PubKeyHash} {db : OutpointTable}
    {asc : AmountAsc} {desc : AmountDesc} {view : ℤ} {utxos : List BTCOutpoint} {amount : ℕ}
    (hamount : l.amount = amount) (hcross : l.crossFee = cfg.calculateCrossFee .bitcoin amount)
    (hsel : db.getAvailableUTXO asc desc view (toInt64 amount) = .ok utxos) (hlt : amount < 2 ^ 63)
    (hrate : 0 ≤ cfg.getCrossFeeRate .bitcoin)
    (hfits : -2 ^ 63 ≤ totalAmount utxos ∧ totalAmount utxos < 2 ^ 63) :
    Conserves utxos (prepareLockoutTx x l user notary utxos minerFee) amount l.crossFee minerFee.toInt := by
  obtain ⟨hfee0, hfee1⟩ := calculateCrossFee_le cfg .bitcoin amount hrate
  rw [← hcross] at hfee0 hfee1
  have hselected := le_totalAmount_of_selected hsel hfits
  have hexact : (toInt64 amount).toInt = amount := toInt_toInt64_eq_iff.mpr ⟨by omega, by omega⟩
  rw [hexact] at hselected
  have hconserves := @conserves_of_covered x l user notary utxos minerFee (by omega) (by omega) hfits.2 (by decide)
  rwa [hamount] at hconserves

section Limits

/-- An output that is free. -/
def freeOutput (txHashStr : String) (amount : Int64) : BTCOutpoint where
  publicKeyHashStr := "n"
  txHashStr := txHashStr
  index := 0
  amount := amount
  status := .usable
  pbftStatus := .notUsed
  view := 0
  pbftReason := ""

theorem named_freeOutput (amount : Int64) : ∀ o ∈ [freeOutput "aa" amount], o.txHashStr ≠ "" := by
  simp [freeOutput]

def singleOutput (amount : Int64) : OutpointTable where
  rows := [freeOutput "aa" amount]
  primaryKey := List.nodup_singleton _
  named := named_freeOutput amount

/-- The only output is selected for an amount that it covers. -/
theorem getAvailableUTXO_singleOutput {amount value : Int64} (h : amount ≤ value) :
    (singleOutput value).getAvailableUTXO AmountAsc.stable AmountDesc.stable 0 amount =
      .ok [freeOutput "aa" value] := by
  have hfilter : ((singleOutput value).rows.filter fun o => amount ≤ o.amount ∧ o.availableTo 0) =
      [freeOutput "aa" value] := by
    simp [singleOutput, freeOutput, BTCOutpoint.availableTo, h]
  rw [OutpointTable.getAvailableUTXO, hfilter, List.perm_singleton.mp (AmountAsc.stable.perm [freeOutput "aa" value])]
  rfl

def lockoutOf (amount crossFee : ℤ) : LockoutInfo :=
  { lockoutInfo6 .bitcoin 3 with amount := amount, crossFee := crossFee }

/-- The configuration with another fee on Bitcoin. -/
def withRate (rate : Int64) : Cfg :=
  { Cfg.dev with BTC := { Cfg.dev.BTC with crossFeeRate := rate } }

/-- A lockout of 10000 takes an output of 20000. -/
theorem lockout_conserves_20000 : Conserves [freeOutput "aa" 20000]
    (prepareLockoutTx .short (lockoutOf 10000 1) 2 9 [freeOutput "aa" 20000] minerFee) 10000 1 1000 :=
  @lockout_conserves .short (withRate 10000) (lockoutOf 10000 1) 2 9 (singleOutput 20000) .stable .stable 0 _ 10000
    rfl (by decide) (getAvailableUTXO_singleOutput (by decide)) (by decide) (by decide) (by decide)

/-- Nine outputs of which the first two are worth `2 ^ 63`. -/
def wrappingOutputs : OutpointTable where
  rows := freeOutput "a0" 6917529027641081855 :: freeOutput "a1" 2305843009213693953 ::
    (List.range 7).map fun i => freeOutput (toString i) 2305843009213693952
  primaryKey := by decide +kernel
  named := by decide +kernel

theorem getAvailableUTXO_wrappingOutputs :
    wrappingOutputs.getAvailableUTXO AmountAsc.stable AmountDesc.stable 0 6917529027641081856 =
      .ok wrappingOutputs.rows := by
  have hcover : (wrappingOutputs.rows.filter fun o => (6917529027641081856 : Int64) ≤ o.amount ∧ o.availableTo 0) =
      [] := by decide +kernel
  have hnil : AmountAsc.stable.sort [] = [] := List.perm_nil.mp (AmountAsc.stable.perm [])
  have hfilter : (wrappingOutputs.rows.filter fun o => o.availableTo 0) = wrappingOutputs.rows := by decide +kernel
  have hsort : AmountDesc.stable.sort wrappingOutputs.rows = wrappingOutputs.rows :=
    List.mergeSort_of_pairwise (by decide +kernel)
  have hcollect : OutpointTable.collectUTXO 6917529027641081856 0 (wrappingOutputs.rows.take 10) =
      some wrappingOutputs.rows := by decide +kernel
  rw [OutpointTable.getAvailableUTXO, hcover, hnil, hfilter, hsort]
  simp [hcollect]

/-- Past the limits the values do not add up: a rate below zero locks more than the inputs, an amount of `2 ^ 64 + 5000`
locks 5000, and inputs of more than `2 ^ 63` leave the miner more than the fee beside the change. -/
theorem lockout_not_conserves :
    ((singleOutput 5000).getAvailableUTXO AmountAsc.stable AmountDesc.stable 0 (toInt64 5000) =
        .ok [freeOutput "aa" 5000] ∧
      (withRate (-1)).calculateCrossFee .bitcoin 5000 = -5000 ∧
      ¬ Conserves [freeOutput "aa" 5000]
        (prepareLockoutTx .short (lockoutOf 5000 (-5000)) 2 9 [freeOutput "aa" 5000] minerFee) 5000 (-5000) 1000) ∧
    ((singleOutput 5000).getAvailableUTXO AmountAsc.stable AmountDesc.stable 0 (toInt64 (2 ^ 64 + 5000)) =
        .ok [freeOutput "aa" 5000] ∧
      (withRate 0).calculateCrossFee .bitcoin (2 ^ 64 + 5000) = 0 ∧
      ¬ Conserves [freeOutput "aa" 5000]
        (prepareLockoutTx .short (lockoutOf (2 ^ 64 + 5000) 0) 2 9 [freeOutput "aa" 5000] minerFee)
        (2 ^ 64 + 5000) 0 1000) ∧
    (wrappingOutputs.getAvailableUTXO AmountAsc.stable AmountDesc.stable 0 (toInt64 6917529027641081856) =
        .ok wrappingOutputs.rows ∧
      (withRate 1).calculateCrossFee .bitcoin 6917529027641081856 = 6917529027641081856 ∧
      ¬ Conserves wrappingOutputs.rows
        (prepareLockoutTx .short (lockoutOf 6917529027641081856 6917529027641081856) 2 9 wrappingOutputs.rows minerFee)
        6917529027641081856 6917529027641081856 1000) := by
  refine ⟨⟨getAvailableUTXO_singleOutput (by decide), by decide, fun h => ?_⟩,
    ⟨getAvailableUTXO_singleOutput (by decide), by decide, fun h => ?_⟩,
    getAvailableUTXO_wrappingOutputs, by decide, fun h => ?_⟩
  · exact absurd h.miner_nonneg (by decide +kernel)
  · exact absurd h.lock (by decide +kernel)
  · exact absurd (h.fee (by decide +kernel)) (by decide +kernel)

end Limits

end DistributedNotary.Service
