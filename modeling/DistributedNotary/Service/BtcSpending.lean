import Mathlib.Algebra.BigOperators.Group.List.Basic
import DistributedNotary.Service.Timelock

/-! The outputs of the notaries that a notary agrees to spend. A transaction is
safe when it takes what was agreed for its hash, pays the user's lock and
returns all the rest but the miner fee; the notary rebuilds it from the list of
outputs and the fee of the request. -/
namespace DistributedNotary.Service

open Library Btc Contracts

/-- What `callBTCLockin` and `callBitcoinPrepareLockout` leave to the miner. -/
def minerFee : Int64 := 1000

section Hex

def hexDigit (n : ℕ) : Char := if n < 10 then Char.ofNat (48 + n) else Char.ofNat (87 + n)

/-- `common.Hash.String`. -/
def hashString (h : Bytes32) : String :=
  String.ofList ('0' :: 'x' :: (List.range 64).map fun i => hexDigit (h.toNat / 16 ^ (63 - i) % 16))

end Hex

section Selection

variable {db : OutpointTable}

/-- The outputs that the agreement committed for a hash; the reason reads `chain-hash-amount`. -/
def committedFor (db : OutpointTable) (secretHash : Bytes32) : List BTCOutpoint :=
  db.rows.filter fun o => o.pbftStatus = .commit ∧ (splitDash o.pbftReason)[1]? = some (hashString secretHash)

theorem mem_of_selectedUTXOs {keys : List String} {utxos : List BTCOutpoint} (h : selectedUTXOs db keys = .ok utxos) :
    ∀ o ∈ utxos, o ∈ db.rows := by
  induction keys generalizing utxos with
  | nil =>
    cases h
    simp
  | cons key keys ih =>
    unfold selectedUTXOs at h
    split at h
    · cases h
    rename_i utxo hget
    split at h
    · cases h
    obtain ⟨rest, hrest, rfl⟩ := map_eq_ok.mp h
    intro o ho
    rcases List.mem_cons.mp ho with rfl | ho
    · exact OutpointTable.mem_of_getBTCOutpoint hget
    · exact ih hrest o ho

theorem mem_of_committedFor {secretHash : Bytes32} {o : BTCOutpoint} (h : o ∈ committedFor db secretHash) :
    o ∈ db.rows := List.mem_of_mem_filter h

/-- Rows are told apart by their outpoints. -/
theorem perm_of_perm_getOutpoint {l l' : List BTCOutpoint} (hl : ∀ o ∈ l, o ∈ db.rows) (hl' : ∀ o ∈ l', o ∈ db.rows)
    (h : (l.map BTCOutpoint.getOutpoint).Perm (l'.map BTCOutpoint.getOutpoint)) : l.Perm l' := by
  have hback : ∀ {l : List BTCOutpoint}, (∀ o ∈ l, o ∈ db.rows) →
      (l.map BTCOutpoint.getOutpoint).map (fun p => db.lookup p.hash) = l.map some := by
    intro l hl
    rw [List.map_map]
    exact List.map_congr_left fun o ho => OutpointTable.lookup_of_mem (hl o ho)
  have hperm := h.map fun p => db.lookup p.hash
  rw [hback hl, hback hl'] at hperm
  exact (List.map_perm_map_iff (Option.some_injective _)).mp hperm

end Selection

section Amounts

/-- The value of the outputs, in full. -/
def totalAmount (utxos : List BTCOutpoint) : ℤ := (utxos.map fun o => o.amount.toInt).sum

theorem foldl_amount (utxos : List BTCOutpoint) (a : ℤ) :
    utxos.foldl (fun total o => total + o.amount) (Int64.ofInt a) = Int64.ofInt (a + totalAmount utxos) := by
  induction utxos generalizing a with
  | nil => simp [totalAmount]
  | cons o utxos ih =>
    rw [List.foldl_cons, ← Int64.ofInt_toInt o.amount, ← Int64.ofInt_add, ih]
    simp [totalAmount, add_assoc]

/-- The change is the excess of the inputs over the lock less the fee, cut to 64 bits. -/
theorem backAmount_toInt (l : LockoutInfo) (utxos : List BTCOutpoint) (fee : Int64) :
    (backAmount l utxos fee).toInt =
      (totalAmount utxos - (l.amount - l.crossFee) - fee.toInt).bmod (2 ^ 64) := by
  unfold backAmount lockAmount toInt64
  have hsum : utxos.foldl (fun total o => total + o.amount) 0 = Int64.ofInt (totalAmount utxos) :=
    (foldl_amount utxos 0).trans (by rw [zero_add])
  have hfee : Int64.ofInt fee.toInt = fee := Int64.ofInt_toInt fee
  rw [hsum, ← hfee, ← Int64.ofInt_sub, ← Int64.ofInt_sub, Int64.toInt_ofInt, hfee]
  rfl

/-- What goes to the miner is the miner fee exactly when it is stated and covered, or when
nothing but it is left over. -/
theorem leftover_eq_minerFee_iff {excess : ℤ} {back fee : Int64}
    (hback : back.toInt = (excess - fee.toInt).bmod (2 ^ 64)) :
    excess - (if back > 0 then back.toInt else 0) = minerFee.toInt ↔
      (fee = minerFee ∧ minerFee.toInt < excess ∧ excess < minerFee.toInt + 2 ^ 63) ∨
        (excess = minerFee.toInt ∧ minerFee - fee ≤ 0) := by
  have hm : minerFee.toInt = 1000 := by decide
  have hf1 := fee.le_toInt
  have hf2 := fee.toInt_lt
  have hb1 := back.le_toInt
  have hb2 := back.toInt_lt
  have hmod : back.toInt % 2 ^ 64 = (excess - fee.toInt) % 2 ^ 64 := by
    rw [hback]
    exact Int.bmod_emod
  have hpos : back > 0 ↔ 0 < back.toInt := Int64.lt_iff_toInt_lt
  have hfee : fee = minerFee ↔ fee.toInt = 1000 := by rw [← hm, Int64.toInt_inj]
  have hrest : minerFee - fee ≤ 0 ↔ (1000 - fee.toInt).bmod (2 ^ 64) ≤ 0 := by
    rw [Int64.le_iff_toInt_le, Int64.toInt_sub, hm]
    rfl
  rw [hm, hfee, hrest]
  split
  · rename_i h
    have h0 := hpos.mp h
    constructor
    · intro hex
      left
      omega
    · rintro (⟨h1, h2, h3⟩ | ⟨h1, h2⟩)
      · omega
      · rw [hback, h1] at h0
        omega
  · rename_i h
    have h0 : back.toInt ≤ 0 := by
      by_contra hlt
      exact h (hpos.mpr (by omega))
    constructor
    · intro hex
      right
      refine ⟨by omega, ?_⟩
      have h1 : excess = 1000 := by omega
      rwa [hback, h1] at h0
    · rintro (⟨h1, h2, h3⟩ | ⟨h1, h2⟩)
      · omega
      · omega

end Amounts

section Safe

variable {x : Externals} {db : OutpointTable} {l : LockoutInfo} {user user' notary : PubKeyHash} {fee : Int64}

/-- A lockout transaction takes exactly the outputs agreed for its hash, pays the amount less the
cross fee to the user's lock script and, but for the miner fee, returns the rest. -/
structure SafeLockout (x : Externals) (db : OutpointTable) (l : LockoutInfo) (user notary : PubKeyHash)
    (tx : MsgTx) : Prop where
  inputs : tx.txIn.Perm ((committedFor db l.secretHash).map BTCOutpoint.getOutpoint)
  outputs : ∃ change lock, tx.txOut = change ++ [lock] ∧ (∀ o ∈ change, o.pkScript = .payToPubKeyHash notary) ∧
    lock.pkScript = .payToScriptHash (x.scriptHash (lockoutScript l user notary)) ∧
    lock.value.toInt = l.amount - l.crossFee
  fee : totalAmount (committedFor db l.secretHash) - (tx.txOut.map fun o => o.value.toInt).sum = minerFee.toInt

/-- A lockin transaction takes the user's deposit to the notaries, but for the miner fee. -/
structure SafeLockin (l : LockinInfo) (notary : PubKeyHash) (tx : MsgTx) : Prop where
  input : tx.txIn = [{ hash := l.btcPrepareLockinTXHashHex, index := l.btcPrepareLockinVout }]
  outputs : ∀ o ∈ tx.txOut, o.pkScript = .payToPubKeyHash notary
  fee : l.amount - (tx.txOut.map fun o => o.value.toInt).sum = minerFee.toInt

/-- The request selects what was agreed for the hash, has the key of the user, and states the miner
fee that the selected outputs cover or leaves nothing but it. -/
structure SpendsAgreed (x : Externals) (db : OutpointTable) (l : LockoutInfo) (user notary : PubKeyHash)
    (fee : Int64) (utxos : List BTCOutpoint) (signer : PubKeyHash) : Prop where
  inputs : utxos.Perm (committedFor db l.secretHash)
  payee : x.scriptHash (lockoutScript l signer notary) = x.scriptHash (lockoutScript l user notary)
  amount : -2 ^ 63 ≤ l.amount - l.crossFee ∧ l.amount - l.crossFee < 2 ^ 63
  fee : let excess := totalAmount utxos - (l.amount - l.crossFee)
    (fee = minerFee ∧ minerFee.toInt < excess ∧ excess < minerFee.toInt + 2 ^ 63) ∨
      (excess = minerFee.toInt ∧ minerFee - fee ≤ 0)

theorem toInt_toInt64_eq_iff {a : ℤ} : (toInt64 a).toInt = a ↔ -2 ^ 63 ≤ a ∧ a < 2 ^ 63 := by
  constructor
  · intro h
    have h1 := (toInt64 a).le_toInt
    have h2 := (toInt64 a).toInt_lt
    omega
  · rintro ⟨h1, h2⟩
    exact Int64.toInt_ofInt_of_le h1 h2

/-- What the rebuilt transaction pays, in full. -/
theorem sum_txOut {utxos : List BTCOutpoint} :
    ((prepareLockoutTx x l user notary utxos fee).txOut.map fun o => o.value.toInt).sum =
      (if backAmount l utxos fee > 0 then (backAmount l utxos fee).toInt else 0) + (lockAmount l).toInt := by
  unfold prepareLockoutTx
  split <;> simp

/-- The rebuilt transaction is safe exactly when the request spends what was agreed. -/
theorem safeLockout_iff {utxos : List BTCOutpoint} (hrows : ∀ o ∈ utxos, o ∈ db.rows) :
    SafeLockout x db l user notary (prepareLockoutTx x l user' notary utxos fee) ↔
      SpendsAgreed x db l user notary fee utxos user' := by
  have hin : (prepareLockoutTx x l user' notary utxos fee).txIn.Perm
      ((committedFor db l.secretHash).map BTCOutpoint.getOutpoint) ↔ utxos.Perm (committedFor db l.secretHash) :=
    ⟨perm_of_perm_getOutpoint hrows fun o => mem_of_committedFor, fun h => h.map _⟩
  have hsum : utxos.Perm (committedFor db l.secretHash) →
      totalAmount (committedFor db l.secretHash) = totalAmount utxos :=
    fun h => ((h.map fun o : BTCOutpoint => o.amount.toInt).sum_eq).symm
  have hlock : (lockAmount l).toInt = l.amount - l.crossFee ↔
      -2 ^ 63 ≤ l.amount - l.crossFee ∧ l.amount - l.crossFee < 2 ^ 63 := toInt_toInt64_eq_iff
  have hfee := leftover_eq_minerFee_iff (backAmount_toInt l utxos fee)
  constructor
  · rintro ⟨h1, ⟨change, lock, hout, -, hscript, hvalue⟩, h3⟩
    have hperm := hin.mp h1
    obtain rfl := (List.cons.inj (List.append_inj' hout rfl).2).1
    have hamount : (lockAmount l).toInt = l.amount - l.crossFee := hvalue
    refine ⟨hperm, PkScript.payToScriptHash.inj hscript, hlock.mp hamount, hfee.mp ?_⟩
    rw [sum_txOut, hsum hperm, hamount] at h3
    omega
  · rintro ⟨hperm, hpayee, hrange, h3⟩
    have hamount := hlock.mpr hrange
    refine ⟨hin.mpr hperm, ⟨_, _, rfl, ?_, ?_, hamount⟩, ?_⟩
    · intro o ho
      split at ho
      · rw [List.mem_singleton.mp ho]
      · cases ho
    · rw [← hpayee]
    · rw [sum_txOut, hsum hperm, hamount]
      have := hfee.mpr h3
      omega

/-- The rebuilt lockin is safe exactly when the stated fee is the miner fee. -/
theorem safeLockin_iff {l : LockinInfo} : SafeLockin l notary (lockinTx l notary fee) ↔
    fee = minerFee ∧ -2 ^ 63 ≤ l.amount - minerFee.toInt ∧ l.amount - minerFee.toInt < 2 ^ 63 := by
  have hm : minerFee.toInt = 1000 := by decide
  have hv1 := (toInt64 l.amount - fee).le_toInt
  have hv2 := (toInt64 l.amount - fee).toInt_lt
  have hf1 := fee.le_toInt
  have hf2 := fee.toInt_lt
  have hvalue : (toInt64 l.amount - fee).toInt % 2 ^ 64 = (l.amount - fee.toInt) % 2 ^ 64 := by
    have hfee : Int64.ofInt fee.toInt = fee := Int64.ofInt_toInt fee
    rw [toInt64, ← hfee, ← Int64.ofInt_sub, Int64.toInt_ofInt, hfee]
    exact Int.bmod_emod
  have hfee : fee = minerFee ↔ fee.toInt = 1000 := by rw [← hm, Int64.toInt_inj]
  have hsum : ((lockinTx l notary fee).txOut.map fun o => o.value.toInt).sum = (toInt64 l.amount - fee).toInt := by
    simp [lockinTx]
  rw [hm, hfee]
  constructor
  · rintro ⟨-, -, h⟩
    rw [hsum, hm] at h
    omega
  · rintro ⟨h1, h2, h3⟩
    refine ⟨rfl, by simp [lockinTx], ?_⟩
    rw [hsum, hm]
    omega

end Safe

section Accepted

variable (ns : NotaryService) (x : Externals) (pk : PrivateKeyInfo)

/-- For every state of a notary, every key of the user and every request: what is accepted is
safe exactly when the request spends what was agreed, or another check refuses it. -/
theorem accepted_safe_iff :
    (∀ (m : BitcoinPrepareLockoutTXData) (user : PubKeyHash),
      (∀ l tx script, ns.getLockoutInfo m.scTokenAddress m.secretHash = .ok l →
        (ns.checkBitcoinPrepareLockout x pk m).2 = .ok (tx, script) →
          SafeLockout x ns.outpoints { l with mcExpiration := m.mcExpiration } user pk.pubKeyHash tx) ↔
      ∀ l utxos signer, ns.getLockoutInfo m.scTokenAddress m.secretHash = .ok l →
        m.Passes x { l with mcExpiration := m.mcExpiration } pk.pubKeyHash ns.outpoints utxos signer →
          SpendsAgreed x ns.outpoints { l with mcExpiration := m.mcExpiration } user pk.pubKeyHash m.fee utxos
            signer) ∧
    (∀ m : BitcoinLockinTXData,
      (∀ l tx, ns.getLockinInfo m.scTokenAddress m.secretHash = .ok l →
        (ns.checkBitcoinLockin x pk m).2 = .ok tx → SafeLockin l pk.pubKeyHash tx) ↔
      ∀ l, ns.getLockinInfo m.scTokenAddress m.secretHash = .ok l → m.Passes x l pk.pubKeyHash →
        m.fee = minerFee ∧ -2 ^ 63 ≤ l.amount - minerFee.toInt ∧ l.amount - minerFee.toInt < 2 ^ 63) := by
  refine ⟨fun m user => ?_, fun m => ?_⟩
  · constructor
    · intro h l utxos signer hl hp
      apply (safeLockout_iff (mem_of_selectedUTXOs hp.selected)).mp
      exact h l _ _ hl
        (NotaryService.checkBitcoinPrepareLockout_ok_iff.mpr ⟨l, utxos, signer, hl, hp, rfl, rfl⟩)
    · intro h l tx script hl hok
      obtain ⟨l', utxos, signer, hl', hp, rfl, -⟩ := NotaryService.checkBitcoinPrepareLockout_ok_iff.mp hok
      obtain rfl := Except.ok.inj (hl.symm.trans hl')
      exact (safeLockout_iff (mem_of_selectedUTXOs hp.selected)).mpr (h l utxos signer hl hp)
  · constructor
    · intro h l hl hp
      exact safeLockin_iff.mp (h l _ hl (NotaryService.checkBitcoinLockin_ok_iff.mpr ⟨l, hl, hp, rfl⟩))
    · intro h l tx hl hok
      obtain ⟨l', hl', hp, rfl⟩ := NotaryService.checkBitcoinLockin_ok_iff.mp hok
      obtain rfl := Except.ok.inj (hl.symm.trans hl')
      exact safeLockin_iff.mpr (h l hl hp)

/-- The only output of the notaries is committed for the lockout of hash `7`. -/
def outpoints7 : OutpointTable where
  rows := [{ publicKeyHashStr := "n", txHashStr := "aa", index := 0, amount := 20000, status := .usable
             pbftStatus := .commit, view := 0, pbftReason := "bitcoin-" ++ hashString 7 ++ "-19000" }]
  named := by simp

/-- A deposit on Bitcoin whose secret is known. -/
def lockinInfo8 : LockinInfo where
  mcChainName := .bitcoin
  secretHash := 8
  secret := 1
  mcUserAddressHex := .bitcoin "u"
  scUserAddress := 1
  scTokenAddress := 3
  amount := 10000
  mcExpiration := 5000
  scExpiration := 2550
  mcLockStatus := .lock
  scLockStatus := .unlock
  notaryIDInCharge := 0
  startTime := 0
  startMCBlockNumber := 100
  btcPrepareLockinTXHashHex := "bb"
  crossFee := 1

def notary7 : NotaryService :=
  { notary6 .bitcoin with
    outpoints := outpoints7
    services := (∅ : RangeMap Address CrossChainService).insert 3
      { service6 .bitcoin 3 with lockinHandler := { dealingMap := ({} : RecordMap lockinKind).put lockinInfo8 } } }

/-- The lockout of hash `6` spends the output of hash `7` and leaves `10001` to the miner. -/
def burnLockout6 : BitcoinPrepareLockoutTXData where
  scTokenAddress := 3
  secretHash := 6
  userRequest := lockoutRequest6
  fee := 10001
  utxoKeysStr := "aa"
  txInID := 0
  mcExpiration := 2550
  originTXHash := [15]
  bytesToSign := [0, 15]

/-- The lockin of hash `8` leaves `9000` to the miner. -/
def burnLockin8 : BitcoinLockinTXData where
  scTokenAddress := 3
  secretHash := 8
  bytesToSign := [232]
  fee := 9000

/-- Both requests are accepted. -/
theorem accepted_unsafe :
    (∃ tx script, (notary7.checkBitcoinPrepareLockout .short privateKeyInfo6 burnLockout6).2 = .ok (tx, script) ∧
      tx.txIn = (committedFor outpoints7 7).map BTCOutpoint.getOutpoint ∧
      totalAmount outpoints7.rows - (tx.txOut.map fun o => o.value.toInt).sum = 10001 ∧
      ∀ user, ¬ SafeLockout .short outpoints7 (lockoutInfo6 .bitcoin 3) user 9 tx) ∧
    ∃ tx, (notary7.checkBitcoinLockin .short privateKeyInfo6 burnLockin8).2 = .ok tx ∧
      lockinInfo8.amount - (tx.txOut.map fun o => o.value.toInt).sum = 9000 ∧ ¬ SafeLockin lockinInfo8 9 tx := by
  have hp : burnLockout6.Passes .short { lockoutInfo6 .bitcoin 3 with mcExpiration := 2550 } 9 outpoints7
      outpoints7.rows 2 :=
    ⟨rfl, rfl, by decide +kernel, rfl, ⟨_, rfl, by decide +kernel⟩, by decide +kernel⟩
  have hnone : committedFor outpoints7 6 = [] := by decide +kernel
  refine ⟨⟨_, _, NotaryService.checkBitcoinPrepareLockout_ok_iff.mpr ⟨_, _, _, rfl, hp, rfl, rfl⟩,
    by decide +kernel, by decide +kernel, ?_⟩, _,
    NotaryService.checkBitcoinLockin_ok_iff.mpr ⟨lockinInfo8, rfl, ⟨rfl, rfl, rfl, by decide +kernel⟩, rfl⟩,
    by decide +kernel, ?_⟩
  · intro user h
    have hperm := ((safeLockout_iff fun o ho => ho).mp h).inputs
    rw [show committedFor outpoints7 (lockoutInfo6 .bitcoin 3).secretHash = [] from hnone] at hperm
    exact List.cons_ne_nil _ _ hperm.eq_nil
  · intro h
    exact absurd (safeLockin_iff.mp h).1 (by decide)

end Accepted

end DistributedNotary.Service
