import DistributedNotary.Service.Store

/-! Each event that the service handles is one operation of the store of its
lockins or of its lockouts, or leaves the store as it was. -/
namespace DistributedNotary.Service

open Library Contracts Store

/-- An operation without effect. -/
theorem Store.perform_idle {ρ : Type} {kind : RecordKind ρ} {store : Store kind} {token : Address} (lh : Handler kind) :
    (perform lh (.newBlock (.mc 0) [] : Op store token)).1 = lh := by
  unfold perform Handler.newBlock
  split_ifs <;> rfl

theorem LockinHandler.onMCNewBlockEvent_eq (lh : LockinHandler) (n : UInt64) (order : List Bytes32) :
    lh.onMCNewBlockEvent n order = Handler.newBlock lh (lockinStore.expire (.mc n)) order := by
  unfold onMCNewBlockEvent Handler.newBlock
  rw [Handler.lockin_expireAll]
  rfl

theorem LockinHandler.onSCNewBlockEvent_eq (lh : LockinHandler) (n : UInt64) (order : List Bytes32) :
    lh.onSCNewBlockEvent n order = Handler.newBlock lh (lockinStore.expire (.sc n)) order := by
  unfold onSCNewBlockEvent Handler.newBlock
  rw [Handler.lockin_expireAll]
  rfl

theorem LockoutHandler.onMCNewBlockEvent_eq (lh : LockoutHandler) (n : UInt64) (order : List Bytes32) :
    lh.onMCNewBlockEvent n order = Handler.newBlock lh (lockoutStore.expire (.mc n)) order := rfl

theorem LockoutHandler.onSCNewBlockEvent_eq (lh : LockoutHandler) (n : UInt64) (order : List Bytes32) :
    lh.onSCNewBlockEvent n order = Handler.newBlock lh (lockoutStore.expire (.sc n)) order := rfl

namespace CrossChainService

variable {cs : CrossChainService}

theorem amendLockin_handler (updateErr : String) (secretHash : Bytes32)
    (change : LockinInfo → Except Failure LockinInfo) :
    (cs.amendLockin updateErr secretHash change).1.lockinHandler =
      (Handler.amend cs.lockinHandler secretHash change).1 := by
  unfold amendLockin Handler.amend LockinHandler.getLockin
  cases Handler.get cs.lockinHandler secretHash with
  | error e => cases e <;> rfl
  | ok info =>
    dsimp only [wrap]
    cases change info <;> rfl

theorem amendLockout_handler (secretHash : Bytes32) (change : LockoutInfo → Except Failure LockoutInfo) :
    (cs.amendLockout secretHash change).1.lockoutHandler =
      (Handler.amend cs.lockoutHandler secretHash change).1 := by
  unfold amendLockout Handler.amend LockoutHandler.getLockout
  cases Handler.get cs.lockoutHandler secretHash with
  | error e => cases e <;> rfl
  | ok info =>
    dsimp only [wrap]
    cases change info <;> rfl

theorem amendLockin_performs {updateErr : String} {secretHash : Bytes32} {f : LockinInfo → LockinInfo}
    (hkey : ∀ r, (f r).secretHash = r.secretHash) (htoken : ∀ r, (f r).scTokenAddress = r.scTokenAddress) :
    ∃ op : Op lockinStore cs.scToken, (cs.amendLockin updateErr secretHash fun r => .ok (f r)).1.lockinHandler =
      (perform cs.lockinHandler op).1 :=
  ⟨.update secretHash (.plain f hkey htoken), amendLockin_handler _ _ _⟩

theorem amendLockin_guarded_performs {updateErr text : String} {secretHash : Bytes32} {p : LockinInfo → Prop}
    [DecidablePred p] {f : LockinInfo → LockinInfo} (hkey : ∀ r, (f r).secretHash = r.secretHash)
    (htoken : ∀ r, (f r).scTokenAddress = r.scTokenAddress) :
    ∃ op : Op lockinStore cs.scToken, (cs.amendLockin updateErr secretHash fun r => do
      ensure (p r) (.error text)
      return f r).1.lockinHandler = (perform cs.lockinHandler op).1 :=
  ⟨.update secretHash (.guarded p text f hkey htoken), amendLockin_handler _ _ _⟩

theorem amendLockout_performs {secretHash : Bytes32} {f : LockoutInfo → LockoutInfo}
    (hkey : ∀ r, (f r).secretHash = r.secretHash) (htoken : ∀ r, (f r).scTokenAddress = r.scTokenAddress) :
    ∃ op : Op lockoutStore cs.scToken, (cs.amendLockout secretHash fun r => .ok (f r)).1.lockoutHandler =
      (perform cs.lockoutHandler op).1 :=
  ⟨.update secretHash (.plain f hkey htoken), amendLockout_handler _ _⟩

theorem amendLockout_guarded_performs {text : String} {secretHash : Bytes32} {p : LockoutInfo → Prop}
    [DecidablePred p] {f : LockoutInfo → LockoutInfo} (hkey : ∀ r, (f r).secretHash = r.secretHash)
    (htoken : ∀ r, (f r).scTokenAddress = r.scTokenAddress) :
    ∃ op : Op lockoutStore cs.scToken, (cs.amendLockout secretHash fun r => do
      ensure (p r) (.error text)
      return f r).1.lockoutHandler = (perform cs.lockoutHandler op).1 :=
  ⟨.update secretHash (.guarded p text f hkey htoken), amendLockout_handler _ _⟩

theorem onMCPrepareLockin4Ethereum_performs (mcProxy : Except String LockedEthereum) (event : PrepareEvent) :
    ∃ op : Op lockinStore cs.scToken,
      (cs.onMCPrepareLockin4Ethereum mcProxy event).1.lockinHandler = (perform cs.lockinHandler op).1 := by
  unfold onMCPrepareLockin4Ethereum
  cases query "mcProxy.QueryLockin" mcProxy (·.queryLockin event.account) with
  | error e => exact ⟨_, (perform_idle _).symm⟩
  | ok q =>
    obtain ⟨secretHash, mcExpiration, amount⟩ := q
    dsimp only
    split_ifs
    · exact ⟨_, (perform_idle _).symm⟩
    · exact ⟨.register _ rfl, rfl⟩

theorem onSCPrepareLockin_performs (scTokenProxy : Except String AtmosphereToken) (event : PrepareEvent) :
    ∃ op : Op lockinStore cs.scToken,
      (cs.onSCPrepareLockin scTokenProxy event).1.lockinHandler = (perform cs.lockinHandler op).1 := by
  rw [onSCPrepareLockin_eq]
  cases query "scTokenProxy.QueryLockin" scTokenProxy (·.queryLockin event.account) with
  | error e => exact ⟨_, (perform_idle _).symm⟩
  | ok q => exact amendLockin_performs (fun _ => rfl) fun _ => rfl

theorem onSCPrepareLockout_performs (scTokenProxy : Except String AtmosphereToken) (event : PrepareEvent) :
    ∃ op : Op lockoutStore cs.scToken,
      (cs.onSCPrepareLockout scTokenProxy event).1.lockoutHandler = (perform cs.lockoutHandler op).1 := by
  unfold onSCPrepareLockout
  cases query "scTokenProxy.QueryLockout" scTokenProxy (·.queryLockout event.account) with
  | error e => exact ⟨_, (perform_idle _).symm⟩
  | ok q =>
    obtain ⟨secretHash, scExpiration, amount⟩ := q
    dsimp only
    split_ifs
    · exact ⟨_, (perform_idle _).symm⟩
    · exact ⟨.register _ rfl, rfl⟩

theorem onMCPrepareLockout4Ethereum_performs (mcProxy : Except String LockedEthereum) (event : PrepareEvent) :
    ∃ op : Op lockoutStore cs.scToken,
      (cs.onMCPrepareLockout4Ethereum mcProxy event).1.lockoutHandler = (perform cs.lockoutHandler op).1 := by
  rw [onMCPrepareLockout4Ethereum_eq]
  cases query "mcProxy.QueryLockout" mcProxy (·.queryLockout event.account) with
  | error e => exact ⟨_, (perform_idle _).symm⟩
  | ok q => exact amendLockout_guarded_performs (fun _ => rfl) fun _ => rfl

/-- Each event of a lockin is an operation of its store. -/
theorem onEvent_performs (e : LockinEvent) :
    ∃ op : Op lockinStore cs.scToken, (cs.onEvent e).1.lockinHandler = (perform cs.lockinHandler op).1 := by
  cases e with
  | mcPrepareLockin mcProxy event => exact onMCPrepareLockin4Ethereum_performs mcProxy event
  | scPrepareLockin scTokenProxy event => exact onSCPrepareLockin_performs scTokenProxy event
  | scLockinSecret secret => exact amendLockin_guarded_performs (fun _ => rfl) fun _ => rfl
  | mcLockin4Ethereum account secretHash time blockNumber =>
    exact amendLockin_guarded_performs (fun _ => rfl) fun _ => rfl
  | mcLockin4Bitcoin secretHash time blockNumber =>
    exact amendLockin_performs (fun _ => rfl) fun _ => rfl
  | mcCancelLockin4Ethereum account secretHash time blockNumber =>
    exact amendLockin_guarded_performs (fun _ => rfl) fun _ => rfl
  | mcCancelLockin4Bitcoin secretHash time blockNumber =>
    exact amendLockin_performs (fun _ => rfl) fun _ => rfl
  | scCancelLockin account secretHash time =>
    exact amendLockin_guarded_performs (fun _ => rfl) fun _ => rfl
  | mcNewBlock blockNumber order =>
    refine ⟨.newBlock (.mc blockNumber) order, ?_⟩
    exact congrArg Prod.fst (LockinHandler.onMCNewBlockEvent_eq cs.lockinHandler blockNumber order)
  | scNewBlock blockNumber order =>
    refine ⟨.newBlock (.sc blockNumber) order, ?_⟩
    exact congrArg Prod.fst (LockinHandler.onSCNewBlockEvent_eq cs.lockinHandler blockNumber order)

/-- Each event of a lockout is an operation of its store. -/
theorem onLockoutEvent_performs (e : LockoutEvent) :
    ∃ op : Op lockoutStore cs.scToken, (cs.onLockoutEvent e).lockoutHandler = (perform cs.lockoutHandler op).1 := by
  cases e with
  | scPrepareLockout scTokenProxy event => exact onSCPrepareLockout_performs scTokenProxy event
  | mcPrepareLockout4Ethereum mcProxy event => exact onMCPrepareLockout4Ethereum_performs mcProxy event
  | mcPrepareLockout4Bitcoin event =>
    exact amendLockout_guarded_performs (fun _ => rfl) fun _ => rfl
  | mcLockoutSecret4Ethereum secret =>
    exact amendLockout_guarded_performs (fun _ => rfl) fun _ => rfl
  | mcLockoutSecret4Bitcoin secret =>
    exact amendLockout_guarded_performs (fun _ => rfl) fun _ => rfl
  | scLockout account secretHash time blockNumber =>
    exact amendLockout_guarded_performs (fun _ => rfl) fun _ => rfl
  | mcCancelLockout4Ethereum account secretHash time =>
    exact amendLockout_guarded_performs (fun _ => rfl) fun _ => rfl
  | mcCancelLockout4Bitcoin secretHash time =>
    exact amendLockout_performs (fun _ => rfl) fun _ => rfl
  | scCancelLockout account secretHash time blockNumber =>
    exact amendLockout_guarded_performs (fun _ => rfl) fun _ => rfl
  | mcNewBlock blockNumber order => exact ⟨.newBlock (.mc blockNumber) order, rfl⟩
  | scNewBlock blockNumber order => exact ⟨.newBlock (.sc blockNumber) order, rfl⟩

end CrossChainService

end DistributedNotary.Service
