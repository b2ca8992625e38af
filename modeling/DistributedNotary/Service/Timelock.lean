import DistributedNotary.Service.CoSign
import DistributedNotary.Service.CrossChain

/-! The margin between the two legs of a swap. What a notary computes from its
heights ends within half of the time that the user's leg has left; what it
agrees to sign ends where the request says. -/
namespace DistributedNotary.Service

open Library Btc Contracts

/-- One leg of a swap: the block in which its lock ends, the height that the notary sees and the
time between two blocks. -/
structure Leg where
  expiration : ℤ
  height : ℤ
  period : ℤ

namespace Leg

def remaining (g : Leg) : ℤ := (g.expiration - g.height) * g.period

/-- The leg of the notaries ends within half of the time that the leg of the user has left, up to
`skew` blocks. -/
def WithinHalf (skew : ℕ) (user notary : Leg) : Prop := 2 * (notary.remaining - skew * notary.period) ≤ user.remaining

instance (skew : ℕ) (user notary : Leg) : Decidable (WithinHalf skew user notary) :=
  inferInstanceAs (Decidable (_ ≤ _))

/-- A later notary or a shorter lock keeps the bound up to the blocks in between. -/
theorem WithinHalf.mono {skew skew' : ℕ} {user notary : Leg} (h : WithinHalf skew user notary)
    (hp : 0 ≤ notary.period) {e : ℤ} (he : e - notary.expiration ≤ skew' - skew) :
    WithinHalf skew' user { notary with expiration := e } := by
  unfold WithinHalf remaining at *
  have hmul : (e - notary.expiration) * notary.period ≤ (skew' - skew) * notary.period :=
    mul_le_mul_of_nonneg_right he hp
  linarith

end Leg

namespace CrossChainService

variable (cs : CrossChainService)

def mcLeg (expiration : ℤ) : Leg where
  expiration := expiration
  height := cs.mcLastedBlockNumber.toNat
  period := (cs.cfg.getCfgByChainName cs.mcName).blockPeriod.toInt

def scLeg (expiration : ℤ) : Leg where
  expiration := expiration
  height := cs.scLastedBlockNumber.toNat
  period := (cs.cfg.getCfgByChainName .spectrum).blockPeriod.toInt

end CrossChainService

section Margin

theorem toInt_toInt64 {a : UInt64} (ha : a.toNat < 2 ^ 63) : a.toInt64.toInt = a.toNat := by
  have h : a.toInt64.toInt = a.toBitVec.toInt := rfl
  rw [h, BitVec.toInt_eq_toNat_of_lt (by simpa using by omega)]
  rfl

theorem toInt_mul_of_lt {a b : Int64} (h0 : 0 ≤ a.toInt * b.toInt) (h : a.toInt * b.toInt < 2 ^ 63) :
    (a * b).toInt = a.toInt * b.toInt := by
  rw [Int64.toInt_mul]
  apply Int.bmod_eq_of_le <;> omega

theorem toInt_div_of_pos {a b : Int64} (ha : 0 ≤ a.toInt) (hb : 0 < b.toInt) : (a / b).toInt = a.toInt / b.toInt := by
  rw [Int64.toInt_div_of_ne_right _ _ (by rintro rfl; exact absurd hb (by decide)), Int.tdiv_eq_ediv_of_nonneg ha]

theorem toNat_toUInt64 {a : Int64} (ha : 0 ≤ a.toInt) : (a.toUInt64.toNat : ℤ) = a.toInt := by
  rw [Int64.toNat_toUInt64_of_le (Int64.le_iff_toInt_le.mpr (by simpa using ha))]
  exact Int.toNat_of_nonneg ha

/-- The blocks that are left are a number that the signed type holds, as the time that they take is. -/
theorem toNat_left {e h : UInt64} {p : ℤ} (hp : 0 < p) (hle : h ≤ e) (hov : ((e.toNat : ℤ) - h.toNat) * p < 2 ^ 63) :
    ((e - h).toNat : ℤ) = (e.toNat : ℤ) - h.toNat ∧ (e - h).toInt64.toInt = (e - h).toNat := by
  have hle' : h.toNat ≤ e.toNat := UInt64.le_iff_toNat_le.mp hle
  have hsub : ((e - h).toNat : ℤ) = (e.toNat : ℤ) - h.toNat := by
    rw [UInt64.toNat_sub_of_le _ _ hle]
    omega
  have hlt : (e - h).toNat < 2 ^ 63 := by
    have : ((e - h).toNat : ℤ) < 2 ^ 63 := by nlinarith
    exact_mod_cast this
  exact ⟨hsub, toInt_toInt64 hlt⟩

/-- The blocks that both calculations add: half of the time that is left, in blocks of the other chain. -/
theorem half_blocks {e h : UInt64} {p q : Int64} (hp : 0 < p) (hq : 0 < q) (hle : h ≤ e)
    (hov : ((e.toNat : ℤ) - h.toNat) * p.toInt < 2 ^ 63) :
    (((e - h).toInt64 * p / 2 / q).toUInt64.toNat : ℤ) = ((e.toNat : ℤ) - h.toNat) * p.toInt / 2 / q.toInt := by
  have hp' : 0 < p.toInt := by simpa using Int64.lt_iff_toInt_lt.mp hp
  have hq' : 0 < q.toInt := by simpa using Int64.lt_iff_toInt_lt.mp hq
  have hle' : h.toNat ≤ e.toNat := UInt64.le_iff_toNat_le.mp hle
  obtain ⟨hsub, hduration⟩ := toNat_left hp' hle hov
  have hrem : (e - h).toInt64.toInt = (e.toNat : ℤ) - h.toNat := hduration.trans hsub
  have hnn : 0 ≤ ((e.toNat : ℤ) - h.toNat) * p.toInt := mul_nonneg (by omega) hp'.le
  have hmul : ((e - h).toInt64 * p).toInt = ((e.toNat : ℤ) - h.toNat) * p.toInt := by
    rw [toInt_mul_of_lt (by rwa [hrem]) (by rwa [hrem]), hrem]
  have hdiv : ((e - h).toInt64 * p / 2).toInt = ((e.toNat : ℤ) - h.toNat) * p.toInt / 2 := by
    rw [toInt_div_of_pos (by rwa [hmul]) (by decide), hmul]
    rfl
  have hdiv' : ((e - h).toInt64 * p / 2 / q).toInt = ((e.toNat : ℤ) - h.toNat) * p.toInt / 2 / q.toInt := by
    rw [toInt_div_of_pos (by rw [hdiv]; positivity) hq', hdiv]
  rw [toNat_toUInt64 (by rw [hdiv']; positivity), hdiv']

/-- Both calculations stay within half. -/
theorem withinHalf_half_blocks {e h cur : UInt64} {p q : Int64} (hp : 0 < p) (hq : 0 < q) (hle : h ≤ e)
    (hov : ((e.toNat : ℤ) - h.toNat) * p.toInt < 2 ^ 63)
    (hend : (cur.toNat : ℤ) + ((e.toNat : ℤ) - h.toNat) * p.toInt / 2 / q.toInt < 2 ^ 64) :
    Leg.WithinHalf 0 { expiration := e.toNat, height := h.toNat, period := p.toInt }
      { expiration := (cur + ((e - h).toInt64 * p / 2 / q).toUInt64).toNat, height := cur.toNat
        period := q.toInt } := by
  have hp' : 0 < p.toInt := by simpa using Int64.lt_iff_toInt_lt.mp hp
  have hq' : 0 < q.toInt := by simpa using Int64.lt_iff_toInt_lt.mp hq
  have hle' : h.toNat ≤ e.toNat := UInt64.le_iff_toNat_le.mp hle
  have hblocks := half_blocks hp hq hle hov
  have hnn : 0 ≤ ((e.toNat : ℤ) - h.toNat) * p.toInt := mul_nonneg (by omega) hp'.le
  unfold Leg.WithinHalf Leg.remaining
  dsimp only
  generalize ((e - h).toInt64 * p / 2 / q).toUInt64 = b at hblocks ⊢
  generalize ((e.toNat : ℤ) - h.toNat) * p.toInt = r at hblocks hnn hov hend ⊢
  have hmul : r / 2 / q.toInt * q.toInt ≤ r / 2 := Int.ediv_mul_le _ hq'.ne'
  have hadd : (cur + b).toNat = cur.toNat + b.toNat := by
    rw [UInt64.toNat_add, Nat.mod_eq_of_lt]
    omega
  have hdiff : ((cur + b).toNat : ℤ) - cur.toNat = r / 2 / q.toInt := by
    rw [← hblocks, hadd]
    omega
  rw [hdiff]
  omega

variable {cs : CrossChainService} {e : UInt64}

/-- The end that a notary computes for its lock on the side chain. -/
theorem calculateSCExpiration_withinHalf (hle : cs.mcLastedBlockNumber ≤ e)
    (hov : (cs.mcLeg e.toNat).remaining < 2 ^ 63)
    (hend : (cs.scLastedBlockNumber.toNat : ℤ) + (cs.mcLeg e.toNat).remaining / 2 /
      (cs.cfg.getCfgByChainName .spectrum).blockPeriod.toInt < 2 ^ 64) :
    Leg.WithinHalf 0 (cs.mcLeg e.toNat) (cs.scLeg (cs.calculateSCExpiration e).toNat) :=
  withinHalf_half_blocks (ChainCfg.blockPeriod_pos _) (ChainCfg.blockPeriod_pos _) hle hov hend

/-- The end that a notary computes for its lock on the main chain. -/
theorem calculateMCExpiration_withinHalf (hle : cs.scLastedBlockNumber ≤ e)
    (hov : (cs.scLeg e.toNat).remaining < 2 ^ 63)
    (hend : (cs.mcLastedBlockNumber.toNat : ℤ) + (cs.scLeg e.toNat).remaining / 2 /
      (cs.cfg.getCfgByChainName cs.mcName).blockPeriod.toInt < 2 ^ 64) :
    Leg.WithinHalf 0 (cs.scLeg e.toNat) (cs.mcLeg (cs.calculateMCExpiration e).toNat) :=
  withinHalf_half_blocks (ChainCfg.blockPeriod_pos _) (ChainCfg.blockPeriod_pos _) hle hov hend

end Margin

section Accepted

variable (ns : NotaryService) (x : Externals) (node : Node) (pk : PrivateKeyInfo) (senderID : ℤ)

/-- For every state of a notary and every request, what is accepted is within half of the user's
leg exactly when the expiration that the request states is, or another check refuses. -/
theorem accepted_withinHalf_iff (skew : ℕ) :
    (∀ m : SpectrumPrepareLockinTxData,
      (∀ cs l tx, ns.service m.userRequest.scTokenAddress = some cs →
        (ns.foundLockin x node m.userRequest).2 = .ok l →
        (ns.checkSpectrumPrepareLockin x node pk m senderID).2 = .ok tx →
          Leg.WithinHalf skew (cs.mcLeg l.mcExpiration.toNat) (cs.scLeg tx.expiration.toNat)) ↔
      ∀ cs l tx, ns.service m.userRequest.scTokenAddress = some cs →
        (ns.foundLockin x node m.userRequest).2 = .ok l →
        m.Passes x node.gas l.scTokenAddress pk.address l tx →
        (ns.foundLockin x node m.userRequest).1.LockinHeld l.scTokenAddress l.secretHash →
          Leg.WithinHalf skew (cs.mcLeg l.mcExpiration.toNat) (cs.scLeg m.scExpiration.toNat)) ∧
    (∀ m : EthereumPrepareLockoutTxData,
      (∀ cs l tx, ns.service m.userRequest.scTokenAddress = some cs →
        ns.getLockoutInfo m.userRequest.scTokenAddress m.userRequest.secretHash = .ok l →
        (ns.checkEthereumPrepareLockout x node pk m senderID).2 = .ok tx →
          Leg.WithinHalf skew (cs.scLeg l.scExpiration.toNat) (cs.mcLeg tx.expiration.toNat)) ↔
      ∀ cs l tx, ns.service m.userRequest.scTokenAddress = some cs →
        ns.getLockoutInfo m.userRequest.scTokenAddress m.userRequest.secretHash = .ok l →
        m.Passes x node.gas (ns.mcLockedContractAddress l.scTokenAddress) pk.address l tx →
        ns.LockoutHeld l.scTokenAddress l.secretHash →
          Leg.WithinHalf skew (cs.scLeg l.scExpiration.toNat) (cs.mcLeg m.mcExpiration.toNat)) ∧
    (∀ m : BitcoinPrepareLockoutTXData,
      (∀ cs l tx script, ns.service m.scTokenAddress = some cs →
        ns.getLockoutInfo m.scTokenAddress m.secretHash = .ok l →
        (ns.checkBitcoinPrepareLockout x pk m).2 = .ok (tx, script) →
          Leg.WithinHalf skew (cs.scLeg l.scExpiration.toNat) (cs.mcLeg script.expiration.toInt)) ↔
      ∀ cs l utxos user, ns.service m.scTokenAddress = some cs →
        ns.getLockoutInfo m.scTokenAddress m.secretHash = .ok l →
        m.Passes x { l with mcExpiration := m.mcExpiration } pk.pubKeyHash ns.outpoints utxos user →
          Leg.WithinHalf skew (cs.scLeg l.scExpiration.toNat) (cs.mcLeg m.mcExpiration.toInt64.toInt)) := by
  refine ⟨fun m => ?_, fun m => ?_, fun m => ?_⟩
  · constructor
    · intro h cs l tx hcs hl hp hheld
      obtain ⟨a, g, -, htx⟩ := hp.tx_eq
      have hbound := h cs l tx hcs hl (NotaryService.checkSpectrumPrepareLockin_ok_iff.mpr ⟨l, hl, hp, hheld⟩)
      rwa [htx] at hbound
    · intro h cs l tx hcs hl hok
      obtain ⟨l', hl', hp, hheld⟩ := NotaryService.checkSpectrumPrepareLockin_ok_iff.mp hok
      obtain rfl := Except.ok.inj (hl.symm.trans hl')
      obtain ⟨a, g, -, htx⟩ := hp.tx_eq
      rw [htx]
      exact h cs l tx hcs hl hp hheld
  · constructor
    · intro h cs l tx hcs hl hp hheld
      obtain ⟨a, g, -, htx⟩ := hp.tx_eq
      have hbound := h cs l tx hcs hl (NotaryService.checkEthereumPrepareLockout_ok_iff.mpr ⟨l, hl, hp, hheld⟩)
      rwa [htx] at hbound
    · intro h cs l tx hcs hl hok
      obtain ⟨l', hl', hp, hheld⟩ := NotaryService.checkEthereumPrepareLockout_ok_iff.mp hok
      obtain rfl := Except.ok.inj (hl.symm.trans hl')
      obtain ⟨a, g, -, htx⟩ := hp.tx_eq
      rw [htx]
      exact h cs l tx hcs hl hp hheld
  · constructor
    · intro h cs l utxos user hcs hl hp
      have hbound := h cs l _ _ hcs hl
        (NotaryService.checkBitcoinPrepareLockout_ok_iff.mpr ⟨l, utxos, user, hl, hp, rfl, rfl⟩)
      rwa [lockoutScript_expiration] at hbound
    · intro h cs l tx script hcs hl hok
      obtain ⟨l', utxos, user, hl', hp, -, rfl⟩ := NotaryService.checkBitcoinPrepareLockout_ok_iff.mp hok
      obtain rfl := Except.ok.inj (hl.symm.trans hl')
      rw [lockoutScript_expiration]
      exact h cs l utxos user hcs hl hp

/-- A lockin of `10000` by account `1` that ends at `5000`. -/
def lockinInfo5 : LockinInfo where
  mcChainName := .ethereum
  secretHash := 5
  secret := emptyHash
  mcUserAddressHex := .account 1
  scUserAddress := 0
  scTokenAddress := 3
  amount := 10000
  mcExpiration := 5000
  scExpiration := 2550
  mcLockStatus := .lock
  scLockStatus := .none
  notaryIDInCharge := unknownNotaryIDInCharge
  startTime := 0
  startMCBlockNumber := 100
  crossFee := 1

/-- A lockout of `10000` to the main chain `mcChainName` by account `1` that ends at `5000`. -/
def lockoutInfo6 (mcChainName : ChainName) (scTokenAddress : Address) : LockoutInfo where
  mcChainName := mcChainName
  secretHash := 6
  secret := emptyHash
  mcUserAddressHex := .empty
  scUserAddress := 1
  scTokenAddress := scTokenAddress
  amount := 10000
  mcExpiration := 2550
  scExpiration := 5000
  mcLockStatus := .none
  scLockStatus := .lock
  notaryIDInCharge := unknownNotaryIDInCharge
  startTime := 0
  startSCBlockNumber := 100
  crossFee := 1

/-- A notary at height `100` of all chains with one lockin and one lockout in progress. -/
def service6 (mcName : ChainName) (scToken : Address) : CrossChainService where
  cfg := .dev
  mcName := mcName
  scToken := scToken
  selfNotaryID := 0
  mcLastedBlockNumber := 100
  scLastedBlockNumber := 100
  lockinHandler := { dealingMap := ({} : RecordMap lockinKind).put lockinInfo5 }
  lockoutHandler := { dealingMap := ({} : RecordMap lockoutKind).put (lockoutInfo6 mcName scToken) }

def notary6 (mcName : ChainName) : NotaryService where
  lockinDB := ({} : RecordMap lockinKind).put lockinInfo5
  lockoutDB := ({} : RecordMap lockoutKind).put (lockoutInfo6 mcName 3)
  outpoints := {
    rows := [{ publicKeyHashStr := "n", txHashStr := "aa", index := 0, amount := 20000, status := .usable,
               pbftStatus := .notUsed, view := 0, pbftReason := "" }]
    named := by simp }
  services := (∅ : RangeMap Address CrossChainService).insert 3 (service6 mcName 3)

def node6 : Node where
  gas _ _ _ _ _ := .ok { price := 1, limit := 1 }
  getPrepareLockinInfo _ := .error "not found"

def privateKeyInfo6 : PrivateKeyInfo where
  address := 9
  pubKeyHash := 9

/-- Requests of the users of `lockinInfo5` and `lockoutInfo6`. -/
def lockinRequest5 : SCPrepareLockinRequest where
  scTokenAddress := 3
  signer := some [0, 0]
  secretHash := 5
  mcUserAddress := [0]

def lockoutRequest6 : MCPrepareLockoutRequest where
  scTokenAddress := 3
  signer := some [0, 0]
  secretHash := 6
  scUserAddress := 1

/-- The user's leg has 4900 blocks left, and a notary accepts a leg of its own that ends in block
`2 ^ 63 - 1`, which no skew below `2 ^ 62` explains. -/
theorem accepted_beyond_half :
    ((∃ tx, ((notary6 .ethereum).checkSpectrumPrepareLockin .short node6 privateKeyInfo6
        { bytesToSign := [0, 2, 255], nonce := 0, userRequest := lockinRequest5,
          scExpiration := 9223372036854775807 } 1).2 =
          .ok tx ∧ tx.expiration.toNat = 2 ^ 63 - 1) ∧
      ∀ skew < 2 ^ 62, ¬ Leg.WithinHalf skew ((service6 .ethereum 3).mcLeg lockinInfo5.mcExpiration.toNat)
        ((service6 .ethereum 3).scLeg (2 ^ 63 - 1))) ∧
    ((∃ tx, ((notary6 .ethereum).checkEthereumPrepareLockout .short node6 privateKeyInfo6
        { bytesToSign := [0, 2, 255], nonce := 0, userRequest := lockoutRequest6,
          mcExpiration := 9223372036854775807 } 1).2 =
          .ok tx ∧ tx.expiration.toNat = 2 ^ 63 - 1) ∧
      ∀ skew < 2 ^ 62, ¬ Leg.WithinHalf skew
        ((service6 .ethereum 3).scLeg (lockoutInfo6 .ethereum 3).scExpiration.toNat)
        ((service6 .ethereum 3).mcLeg (2 ^ 63 - 1))) ∧
    (∃ tx script, ((notary6 .bitcoin).checkBitcoinPrepareLockout .short privateKeyInfo6
        { scTokenAddress := 3, secretHash := 6, userRequest := lockoutRequest6, fee := 1000, utxoKeysStr := "aa"
          txInID := 0, mcExpiration := 9223372036854775807, originTXHash := [41, 15], bytesToSign := [0, 41, 15] }).2 =
          .ok (tx, script) ∧ script.expiration.toInt = 2 ^ 63 - 1) ∧
      ∀ skew < 2 ^ 62, ¬ Leg.WithinHalf skew
        ((service6 .bitcoin 3).scLeg (lockoutInfo6 .bitcoin 3).scExpiration.toNat)
        ((service6 .bitcoin 3).mcLeg (2 ^ 63 - 1)) := by
  have hfar : ∀ skew < 2 ^ 62, ∀ user notary : Leg, user.remaining = 4900 * 1000000000 → notary.height = 100 →
      notary.period = 1000000000 → notary.expiration = 2 ^ 63 - 1 → ¬ Leg.WithinHalf skew user notary := by
    intro skew hs user notary hu hh hp he
    unfold Leg.WithinHalf
    rw [hu, Leg.remaining, hh, hp, he]
    omega
  have hbtc : BitcoinPrepareLockoutTXData.Passes
      { scTokenAddress := 3, secretHash := 6, userRequest := lockoutRequest6, fee := 1000, utxoKeysStr := "aa"
        txInID := 0, mcExpiration := 9223372036854775807, originTXHash := [41, 15], bytesToSign := [0, 41, 15] } .short
      { lockoutInfo6 .bitcoin 3 with mcExpiration := 9223372036854775807 } 9 (notary6 .bitcoin).outpoints
      (notary6 .bitcoin).outpoints.rows 2 :=
    ⟨rfl, rfl, by decide +kernel, rfl, ⟨_, rfl, by decide +kernel⟩, by decide +kernel⟩
  refine ⟨⟨⟨_, rfl, rfl⟩, ?_⟩, ⟨⟨_, rfl, rfl⟩, ?_⟩, ⟨_, _,
    NotaryService.checkBitcoinPrepareLockout_ok_iff.mpr ⟨_, _, _, rfl, hbtc, rfl, rfl⟩, rfl⟩, ?_⟩
  all_goals exact fun skew hs => hfar skew hs _ _ (by decide +kernel) (by decide +kernel) (by decide +kernel) rfl

end Accepted

end DistributedNotary.Service
