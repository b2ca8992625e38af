import DistributedNotary.Contracts.LockedEthereum
import DistributedNotary.Service.Expirations

/-! The transactions with which a notary cancels the locks that have run out. A
new block hands over the records whose lock by the notaries it ends; for those
the notary is in charge of it calls a contract through one of the two proxies of
the token. -/
namespace DistributedNotary.Service

open Library Contracts

/-- A call of one of the contracts of a token, at its address. -/
inductive Transaction where
  | atmosphereToken (contract : Address) (call : AtmosphereToken.Call)
  | lockedEthereum (contract : Address) (call : LockedEthereum.Call)

/-- The proxies of the two contracts, with the methods that cancel. -/
inductive ContractProxy where
  | sideChainErc20Token (contract : Address)
  | lockedEthereum (contract : Address)

namespace ContractProxy

def cancelLockin (account : Address) : ContractProxy → Transaction
  | sideChainErc20Token contract => .atmosphereToken contract (.cancelLockin account)
  | lockedEthereum contract => .lockedEthereum contract (.cancelLockin account)

def cancelLockout (account : Address) : ContractProxy → Transaction
  | sideChainErc20Token contract => .atmosphereToken contract (.cancelLockOut account)
  | lockedEthereum contract => .lockedEthereum contract (.cancleLockOut account)

end ContractProxy

/-- `HexToAddress`; `hexToAddress` is what it makes of an address of Bitcoin. -/
def UserAddressHex.toAddress (hexToAddress : String → Address) : UserAddressHex → Address
  | .empty => emptyAddress
  | .account a => a
  | .bitcoin s => hexToAddress s

namespace CrossChainService

/-- The contract with the locks on the main chain, and how the address of a user is read. -/
structure MainChain where
  mcLockedContractAddress : Address
  hexToAddress : String → Address

variable (mc : MainChain) (cs : CrossChainService)

def scTokenProxy : ContractProxy := .sideChainErc20Token cs.scToken

def callSCCancelLockin (userAddress : Address) : Transaction := cs.scTokenProxy.cancelLockin userAddress

/-- The call goes through the proxy of the token on the side chain. -/
def callEthereumCancelLockout (userAddressHex : UserAddressHex) : Transaction :=
  cs.scTokenProxy.cancelLockout (userAddressHex.toAddress mc.hexToAddress)

def callMCCancelLockout (userAddressHex : UserAddressHex) : Except String Transaction :=
  if cs.mcName = .ethereum then .ok (cs.callEthereumCancelLockout mc userAddressHex)
  else .error "unknown chain"

/-- The loop over the lockins whose locks have run out. The error of a call is logged, and the loop goes on. -/
def cancelLockins (lockinListNeedCancel : List LockinInfo) : List Transaction :=
  lockinListNeedCancel.flatMap fun lockin =>
    if lockin.notaryIDInCharge = cs.selfNotaryID then [cs.callSCCancelLockin lockin.scUserAddress] else []

/-- The loop over the lockouts. On Bitcoin the transaction that cancels was sent with the lock. -/
def cancelLockouts (lockoutListNeedCancel : List LockoutInfo) : List Transaction :=
  lockoutListNeedCancel.flatMap fun lockout =>
    if lockout.notaryIDInCharge = cs.selfNotaryID then
      if cs.mcName = .ethereum then (cs.callMCCancelLockout mc lockout.mcUserAddressHex).toOption.toList else []
    else []

/-- The transactions that a new block makes the notary send. -/
def cancellations (b : NewBlock) : List Transaction :=
  let r := cs.onNewBlock b
  r.1.cancelLockins r.2.1 ++ r.1.cancelLockouts mc r.2.2

/-- Of the records that the block hands over, each that the notary is in charge of is cancelled on the contract
that holds its lock, with its account, and nothing else is. -/
def CancelsHolders (b : NewBlock) : Prop :=
  cs.cancellations mc b =
    ((cs.onNewBlock b).2.1.filter fun l => l.notaryIDInCharge = cs.selfNotaryID).map
        (fun l => .atmosphereToken cs.scToken (.cancelLockin l.scUserAddress)) ++
      ((cs.onNewBlock b).2.2.filter fun l => l.notaryIDInCharge = cs.selfNotaryID).map
        fun l => .lockedEthereum mc.mcLockedContractAddress
          (.cancleLockOut (l.mcUserAddressHex.toAddress mc.hexToAddress))

end CrossChainService

namespace Handler

variable {ρ : Type} {kind : RecordKind ρ} {expire : ρ → Option ρ} {order : List Bytes32} {lh : Handler kind}

/-- A scan that succeeds hands over the records that expire, marked, in the order in which it meets them. -/
theorem expireAll_eq_ok {rs : List ρ} (hexp : Expiry kind expire) (hr : lh.Ready) (hnodup : order.Nodup)
    (h : (expireAll expire lh order).2 = .ok rs) :
    rs = order.filterMap fun k => (lh.dealingMap.lookup k).bind expire := by
  induction order generalizing lh rs with
  | nil => exact (Except.ok.inj h).symm
  | cons k order ih =>
    obtain ⟨hk, hrest⟩ := List.nodup_cons.mp hnodup
    cases hi : (lh.dealingMap.lookup k).bind expire with
    | none =>
      rw [expireAll_pass hi] at h
      simp only [List.filterMap_cons, hi]
      exact ih hr hrest h
    | some info =>
      obtain ⟨r, hd, he⟩ := Option.bind_eq_some_iff.mp hi
      have hkey : kind.secretHash info = k := (hexp r info he).1.trans (RecordMap.secretHash_of_lookup hd)
      obtain ⟨row, hrow⟩ := Option.isSome_iff_exists.mp (hr.stored k r hd)
      simp only [List.filterMap_cons, hi]
      by_cases hf : lh.dbFails k = true
      · obtain ⟨text, hrun⟩ := expireAll_refused hi hkey hf
        rw [hrun] at h
        nomatch h
      · rw [expireAll_saved hi hkey (by simpa using hf) hrow] at h
        obtain ⟨rest, hrun, rfl⟩ := map_eq_ok.mp h
        subst hkey
        rw [ih hr.saved hrest hrun]
        refine congrArg (info :: ·) (List.filterMap_congr fun x hx => ?_)
        have hne : x ≠ kind.secretHash info := fun heq => hk (heq ▸ hx)
        dsimp only
        rw [assign_dealing, if_neg (fun hc => hne hc.1)]

end Handler

namespace CrossChainService

variable (mc : MainChain) {cs : CrossChainService} {b : NewBlock} {bs : List NewBlock} {n : UInt64}

theorem onNewBlock_same (cs : CrossChainService) (b : NewBlock) : (cs.onNewBlock b).1.mcName = cs.mcName ∧
    (cs.onNewBlock b).1.selfNotaryID = cs.selfNotaryID ∧ (cs.onNewBlock b).1.scToken = cs.scToken := by
  unfold onNewBlock onMCNewBlock onSCNewBlock
  cases b.event with
  | mc n =>
    dsimp only
    split
    · exact ⟨rfl, rfl, rfl⟩
    · split <;> exact ⟨rfl, rfl, rfl⟩
  | sc n =>
    dsimp only
    split <;> exact ⟨rfl, rfl, rfl⟩

/-- The lockouts that a block hands over: none on the side chain, and none when a scan fails. -/
theorem handedLockouts_mc (hr : cs.Loaded) (hb : b.event = .mc n) : (cs.onNewBlock b).2.2 =
    match (cs.scanLockins b).2, (cs.scanLockouts b).2 with
    | .ok _, .ok rs => rs
    | _, _ => [] := by
  have hins := newBlock_lockins (b := b) hr
  have houts := newBlock_lockouts (b := b) hr
  rw [hb, ← LockinHandler.onMCNewBlockEvent_eq] at hins
  rw [hb, ← LockoutHandler.onMCNewBlockEvent_eq] at houts
  unfold onNewBlock
  rw [hb]
  dsimp only
  unfold onMCNewBlock onMCNewBlockEvent
  dsimp only
  rw [hins]
  cases (cs.scanLockins b).2 with
  | error e => rfl
  | ok rs =>
    dsimp only
    rw [houts]
    cases (cs.scanLockouts b).2 with
    | error e => rfl
    | ok rs => rfl

theorem handedLockouts_sc (hb : b.event = .sc n) : (cs.onNewBlock b).2.2 = [] := by
  unfold onNewBlock
  rw [hb]

/-- No lockout that the notary is in charge of runs out, or one of the two scans fails before it is handed over. -/
def NoLockoutToCancel (cs : CrossChainService) (b : NewBlock) : Prop :=
  ∀ n, b.event = .mc n → lockinMCLeg.Saves (cs.during b).lockinHandler n →
    lockoutMCLeg.Saves (cs.during b).lockoutHandler n → ∀ h l, cs.lockoutHandler.dealingMap.lookup h = some l →
      l.mcLockStatus = .lock → l.mcExpiration ≤ n → l.notaryIDInCharge ≠ cs.selfNotaryID

theorem cancelLockins_eq (cs : CrossChainService) (l : List LockinInfo) : cs.cancelLockins l =
    (l.filter fun l => l.notaryIDInCharge = cs.selfNotaryID).map fun l =>
      .atmosphereToken cs.scToken (.cancelLockin l.scUserAddress) := by
  induction l with
  | nil => rfl
  | cons lockin l ih =>
    unfold cancelLockins at ih ⊢
    rw [List.flatMap_cons, ih]
    by_cases hin : lockin.notaryIDInCharge = cs.selfNotaryID
    · simp [hin, callSCCancelLockin, scTokenProxy, ContractProxy.cancelLockin]
    · simp [hin]

/-- Lockouts are cancelled on the side chain. -/
theorem cancelLockouts_eq (heth : cs.mcName = .ethereum) (l : List LockoutInfo) : cs.cancelLockouts mc l =
    (l.filter fun l => l.notaryIDInCharge = cs.selfNotaryID).map fun l =>
      .atmosphereToken cs.scToken (.cancelLockOut (l.mcUserAddressHex.toAddress mc.hexToAddress)) := by
  induction l with
  | nil => rfl
  | cons lockout l ih =>
    unfold cancelLockouts at ih ⊢
    rw [List.flatMap_cons, ih]
    by_cases hin : lockout.notaryIDInCharge = cs.selfNotaryID
    · simp [hin, heth, callMCCancelLockout, callEthereumCancelLockout, scTokenProxy, ContractProxy.cancelLockout,
        Except.toOption]
    · simp [hin]

/-- The transactions are those that they should be just when the notary is in charge of no lockout that is handed
over. -/
theorem cancelsHolders_iff_handed (heth : cs.mcName = .ethereum) : cs.CancelsHolders mc b ↔
    ∀ l ∈ (cs.onNewBlock b).2.2, l.notaryIDInCharge ≠ cs.selfNotaryID := by
  obtain ⟨hname, hself, htoken⟩ := onNewBlock_same cs b
  unfold CancelsHolders cancellations
  dsimp only
  rw [cancelLockins_eq, cancelLockouts_eq mc (hname.trans heth), hself, htoken, List.append_cancel_left_eq]
  constructor
  · intro h l hl hin
    have hmem : l ∈ (cs.onNewBlock b).2.2.filter fun l => l.notaryIDInCharge = cs.selfNotaryID :=
      List.mem_filter.mpr ⟨hl, decide_eq_true hin⟩
    obtain ⟨x, rest, hrest⟩ := List.exists_cons_of_ne_nil (List.ne_nil_of_mem hmem)
    rw [hrest] at h
    simp at h
  · intro h
    have hnil : ((cs.onNewBlock b).2.2.filter fun l => l.notaryIDInCharge = cs.selfNotaryID) = [] :=
      List.filter_eq_nil_iff.mpr fun l hl => by simpa using h l hl
    rw [hnil]
    rfl

theorem cancelsHolders_iff (hr : cs.Loaded) (heth : cs.mcName = .ethereum) :
    cs.CancelsHolders mc b ↔ cs.NoLockoutToCancel b := by
  rw [cancelsHolders_iff_handed mc heth]
  cases hb : b.event with
  | sc n =>
    rw [handedLockouts_sc hb]
    refine iff_of_true (fun l hl => absurd hl List.not_mem_nil) fun m hm => ?_
    rw [hb] at hm
    nomatch hm
  | mc n =>
    rw [handedLockouts_mc hr hb]
    cases hins : (cs.scanLockins b).2 with
    | error e =>
      refine iff_of_true (fun l hl => absurd hl List.not_mem_nil) fun m hm hs => ?_
      obtain ⟨rs, hok⟩ := (scanLockins_ok_mc hr hm).mpr hs
      rw [hins] at hok
      nomatch hok
    | ok ins =>
      cases houts : (cs.scanLockouts b).2 with
      | error e =>
        refine iff_of_true (fun l hl => absurd hl List.not_mem_nil) fun m hm _ hs => ?_
        obtain ⟨rs, hok⟩ := (scanLockouts_ok_mc hr hm).mpr hs
        rw [houts] at hok
        nomatch hok
      | ok outs =>
        have hinsSaved := (scanLockins_ok_mc hr hb).mp ⟨ins, hins⟩
        have houtsSaved := (scanLockouts_ok_mc hr hb).mp ⟨outs, houts⟩
        rw [Handler.expireAll_eq_ok (lockoutStore.expiry b.event) hr.during.lockouts
          (LockLeg.nodup_order perm_lockouts) houts]
        dsimp only
        rw [hb]
        constructor
        · intro h m hm _ _ k l hl hlock hle
          obtain rfl : n = m := BlockEvent.mc.inj (hb.symm.trans hm)
          refine h { l with mcLockStatus := .expiration } (List.mem_filterMap.mpr ⟨k, ?_, ?_⟩)
          · exact LockLeg.mem_order perm_lockouts hl
          · exact Option.bind_eq_some_iff.mpr ⟨l, hl, if_pos ⟨hlock, hle⟩⟩
        · intro h l' hl'
          obtain ⟨k, -, hk⟩ := List.mem_filterMap.mp hl'
          obtain ⟨l, hl, hexpire⟩ := Option.bind_eq_some_iff.mp hk
          obtain ⟨⟨hlock, hle⟩, hmark⟩ := Option.ite_none_right_eq_some.mp hexpire
          rw [← Option.some.inj hmark]
          exact h n hb hinsSaved houtsSaved k l hl hlock hle

theorem mcName_history : ∀ p ∈ cs.history bs, p.1.mcName = cs.mcName := by
  induction bs generalizing cs with
  | nil => exact fun p hp => absurd hp List.not_mem_nil
  | cons b bs ih =>
    intro p hp
    rcases List.mem_cons.mp hp with rfl | hp
    · rfl
    · exact (ih p hp).trans (onNewBlock_same cs b).1

/-- In a run of blocks from any tables, a notary of a token of Ethereum cancels what it is to cancel on the contracts
that hold the locks precisely in the blocks that hand over no lockout that it is in charge of. -/
theorem cancellations_iff (cs : CrossChainService) (heth : cs.mcName = .ethereum) (lockins : RecordMap lockinKind)
    (lockouts : RecordMap lockoutKind) (bs : List NewBlock) :
    ∀ p ∈ (cs.started lockins lockouts).history bs, p.1.CancelsHolders mc p.2 ↔ p.1.NoLockoutToCancel p.2 := by
  intro p hp
  exact cancelsHolders_iff mc (loaded_history loaded_started p hp) ((mcName_history p hp).trans heth)

/-- The contract with the locks of the token of `service6` on the main chain. -/
def mainChain9 : MainChain where
  mcLockedContractAddress := 9
  hexToAddress _ := emptyAddress

/-- Lockins that run out are cancelled on the side chain, which holds their locks. -/
theorem cancellations_lockins :
    ((service6 .ethereum 7).started lockins12 {}).CancelsHolders mainChain9 (accepted (.sc 20)) := by
  have h := cancellations_iff mainChain9 (service6 .ethereum 7) rfl lockins12 {} [accepted (.sc 20)] _ (.head _)
  exact h.mpr fun n hn => nomatch hn

/-- A lockout that runs out is cancelled on the side chain, while the main chain holds its lock. -/
theorem cancellation_misses :
    ¬ ((service6 .ethereum 7).started {} lockouts12).CancelsHolders mainChain9 (accepted (.mc 20)) := by
  rw [cancelsHolders_iff mainChain9 loaded_started rfl]
  intro h
  exact h 20 rfl (fun _ _ _ _ _ _ => rfl) (fun _ _ _ _ _ _ => rfl) 1 { lockout1 with mcLockStatus := .lock } rfl rfl
    (by decide) rfl

end CrossChainService

end DistributedNotary.Service
