import DistributedNotary.Library.Orders
import DistributedNotary.Service.Fidelity
import DistributedNotary.Service.LockoutEvents
import DistributedNotary.Service.Upkeep

/-! The events of a swap in another order than that of the chains. A handler
changes the record as the chains did when its event is handled in its turn: the
record is there and in progress, the lock that it begins or ends is ready for
it, and the contract still answers what it answered at the event. Two orders in
which every event has its turn leave the same record. -/
namespace DistributedNotary.Service

open Library Contracts

/-- The secret hash and the expiration that the contracts stored with the locks, of which the
events name the account only. -/
structure Mined where
  mcPrepareLockin : PrepareEvent → Bytes32 × UInt64
  scPrepareLockin : PrepareEvent → Bytes32 × UInt64
  scPrepareLockout : PrepareEvent → Bytes32 × UInt64
  mcPrepareLockout : PrepareEvent → Bytes32 × UInt64

/-- The contract answers what it stored with the event. -/
def Answers {σ : Type} (p : Except String σ) (slot : σ → Htlc) (lock : Bytes32 × UInt64) : Prop :=
  match p with
  | .ok c => ((queryResult (slot c)).1, (queryResult (slot c)).2.1) = lock
  | .error _ => False

instance Answers.decidable {σ : Type} (p : Except String σ) (slot : σ → Htlc) (lock : Bytes32 × UInt64) :
    Decidable (Answers p slot lock) :=
  match p with
  | .ok c => inferInstanceAs (Decidable (((queryResult (slot c)).1, (queryResult (slot c)).2.1) = lock))
  | .error _ => isFalse id

theorem Answers.query {σ : Type} {p : Except String σ} {slot : σ → Htlc} {lock : Bytes32 × UInt64}
    (h : Answers p slot lock) (name : String) : ∃ amount, query name p slot = .ok (lock.1, lock.2, amount) := by
  cases p with
  | error e => exact h.elim
  | ok c =>
    obtain rfl := h
    exact ⟨_, rfl⟩

/-- The record under the hash is in progress and satisfies `P`. -/
def Handler.Has {ρ : Type} {kind : RecordKind ρ} (lh : Handler kind) (h : Bytes32) (P : ρ → Prop) : Prop :=
  ∃ r ∈ lh.dealingMap.lookup h, P r

instance {ρ : Type} {kind : RecordKind ρ} (lh : Handler kind) (h : Bytes32) (P : ρ → Prop) [DecidablePred P] :
    Decidable (lh.Has h P) := inferInstanceAs (Decidable (∃ r ∈ lh.dealingMap.lookup h, P r))

/-- No record was ever kept under the hash. -/
def Handler.Unknown {ρ : Type} {kind : RecordKind ρ} (lh : Handler kind) (h : Bytes32) : Prop :=
  h ≠ emptyHash ∧ lh.db.lookup h = none

instance {ρ : Type} {kind : RecordKind ρ} (lh : Handler kind) (h : Bytes32) : Decidable (lh.Unknown h) :=
  inferInstanceAs (Decidable (h ≠ emptyHash ∧ lh.db.lookup h = none))

/-- The lock has begun and not ended. -/
def LockStatus.Standing (s : LockStatus) : Prop := s = .lock ∨ s = .expiration

instance (s : LockStatus) : Decidable s.Standing := inferInstanceAs (Decidable (_ ∨ _))

theorem standing_ofStatus {s : LockStatus} {e : UInt64} : (Hold.ofStatus s e).Standing ↔ s.Standing := by
  unfold Hold.Standing
  rw [Hold.status_ofStatus]
  rfl

/-- The blocks that were handled come before the block in which the lock ends. -/
def Before (blocks : List UInt64) (e : UInt64) : Prop := ∀ n ∈ blocks, n < e

instance (blocks : List UInt64) (e : UInt64) : Decidable (Before blocks e) :=
  List.decidableBAll (· < e) blocks

/-- A loop over the records in memory visits all of them. -/
def Handler.Visits {ρ : Type} {kind : RecordKind ρ} (lh : Handler kind) (order : List Bytes32) : Prop :=
  ∀ k ∈ lh.dealingMap.entries.keys, k ∈ order

instance {ρ : Type} {kind : RecordKind ρ} (lh : Handler kind) (order : List Bytes32) : Decidable (lh.Visits order) :=
  List.decidableBAll (· ∈ order) lh.dealingMap.entries.keys

section Lockins

namespace LockinEvent

/-- The event as it happened on its chain, without what a node answers when it is processed and
the order of a loop. -/
def onChain : LockinEvent → LockinEvent
  | .mcPrepareLockin _ event => .mcPrepareLockin (.error "") event
  | .scPrepareLockin _ event => .scPrepareLockin (.error "") event
  | .mcNewBlock blockNumber _ => .mcNewBlock blockNumber []
  | .scNewBlock blockNumber _ => .scNewBlock blockNumber []
  | e => e

/-- The number of a block of the user's chain or of the notaries'. -/
def block : Side → LockinEvent → Option UInt64
  | .user, .mcNewBlock blockNumber _ => some blockNumber
  | .notary, .scNewBlock blockNumber _ => some blockNumber
  | _, _ => none

end LockinEvent

namespace CrossChainService

/-- The expiration of the user's lock that is refused, whenever the event is handled. -/
def LockinTooShort (cs : CrossChainService) (event : PrepareEvent) (mcExpiration : UInt64) : Prop :=
  mcExpiration ≤ cs.cfg.getMinExpirationBlock4User cs.mcName + event.blockNumber

instance (cs : CrossChainService) (event : PrepareEvent) (mcExpiration : UInt64) :
    Decidable (cs.LockinTooShort event mcExpiration) := inferInstanceAs (Decidable (_ ≤ _))

/-- What an event does on its chain to the swap of a secret hash. -/
def lockinEffect (cs : CrossChainService) (m : Mined) (h : Bytes32) : LockinEvent → Option Effect
  | .mcPrepareLockin _ event =>
    if cs.LockinTooShort event (m.mcPrepareLockin event).2 then none
    else if (m.mcPrepareLockin event).1 = h then some (.lock .user (m.mcPrepareLockin event).2)
    else none
  | .scPrepareLockin _ event =>
    if (m.scPrepareLockin event).1 = h then some (.lock .notary (m.scPrepareLockin event).2) else none
  | .scLockinSecret secret => if sha256 secret = h then some (.reveal secret) else none
  | .mcLockin4Ethereum _ secretHash _ _ => if secretHash = h then some .collect else none
  | .mcLockin4Bitcoin secretHash _ _ => if secretHash = h then some .collect else none
  | .mcCancelLockin4Ethereum _ secretHash _ _ => if secretHash = h then some (.cancel .user) else none
  | .mcCancelLockin4Bitcoin secretHash _ _ => if secretHash = h then some (.cancel .user) else none
  | .scCancelLockin _ secretHash _ => if secretHash = h then some (.cancel .notary) else none
  | .mcNewBlock blockNumber _ => some (.block .user blockNumber)
  | .scNewBlock blockNumber _ => some (.block .notary blockNumber)

/-- The event is handled in its turn. -/
def LockinTurn (m : Mined) (past : List LockinEvent) (cs : CrossChainService) : LockinEvent → Prop
  | .mcPrepareLockin mcProxy event =>
    Answers mcProxy (·.queryLockin event.account) (m.mcPrepareLockin event) ∧
      (cs.LockinTooShort event (m.mcPrepareLockin event).2 ∨
        cs.lockinHandler.Unknown (m.mcPrepareLockin event).1 ∧
          Before (past.filterMap (LockinEvent.block .user)) (m.mcPrepareLockin event).2)
  | .scPrepareLockin scTokenProxy event =>
    Answers scTokenProxy (·.queryLockin event.account) (m.scPrepareLockin event) ∧
      cs.lockinHandler.Has (m.scPrepareLockin event).1 (fun l => l.scLockStatus = .none) ∧
      Before (past.filterMap (LockinEvent.block .notary)) (m.scPrepareLockin event).2
  | .scLockinSecret secret =>
    cs.lockinHandler.Has (sha256 secret) fun l => l.secret = emptyHash ∧ l.scLockStatus.Standing
  | .mcLockin4Ethereum account secretHash _ _ =>
    cs.lockinHandler.Has secretHash fun l => l.mcUserAddressHex = .account account ∧ l.mcLockStatus.Standing
  | .mcLockin4Bitcoin secretHash _ _ => cs.lockinHandler.Has secretHash fun l => l.mcLockStatus.Standing
  | .mcCancelLockin4Ethereum account secretHash _ _ =>
    cs.lockinHandler.Has secretHash fun l => l.mcUserAddressHex = .account account ∧ l.mcLockStatus.Standing
  | .mcCancelLockin4Bitcoin secretHash _ _ => cs.lockinHandler.Has secretHash fun l => l.mcLockStatus.Standing
  | .scCancelLockin account secretHash _ =>
    cs.lockinHandler.Has secretHash fun l => l.scUserAddress = account ∧ l.scLockStatus.Standing
  | .mcNewBlock _ order => cs.lockinHandler.Visits order
  | .scNewBlock _ order => cs.lockinHandler.Visits order

instance LockinTurn.decidable (m : Mined) (past : List LockinEvent) (cs : CrossChainService) (e : LockinEvent) :
    Decidable (LockinTurn m past cs e) := by
  cases e <;> unfold LockinTurn <;> infer_instance

variable {cs base : CrossChainService} {m : Mined} {h k : Bytes32} {past : List LockinEvent} {effects : List Effect}

/-- The heights that a swap has heard are those of the blocks that were handled. -/
theorem lockin_block_mem {side : Side} {n : UInt64}
    (hn : .block n ∈ Swap.reports side (past.filterMap (base.lockinEffect m h))) :
    n ∈ past.filterMap (LockinEvent.block side) := by
  obtain ⟨x, hx, hrep⟩ := Swap.mem_reports.mp hn
  obtain rfl := Swap.report_eq_block.mp hrep
  obtain ⟨e, he, heff⟩ := List.mem_filterMap.mp hx
  refine List.mem_filterMap.mpr ⟨e, he, ?_⟩
  cases e with
  | mcPrepareLockin mcProxy event =>
    simp only [lockinEffect] at heff
    split_ifs at heff
    cases heff
  | mcNewBlock blockNumber order =>
    cases heff
    rfl
  | scNewBlock blockNumber order =>
    cases heff
    rfl
  | _ =>
    simp only [lockinEffect] at heff
    split_ifs at heff
    cases heff

/-- A handler that changes the record in its turn has its effect on the swap of the record. -/
theorem amendLockin_moves {updateErr : String} {change : LockinInfo → Except Failure LockinInfo} {l l' : LockinInfo}
    {x : Effect} (hs : cs.lockinHandler.Sound) (hl : cs.lockinHandler.Live lockinView h)
    (hd : cs.lockinHandler.dealingMap.lookup k = some l) (hc : change l = .ok l') (hk : l'.secretHash = l.secretHash)
    (hx : lockinView.swap l' = (lockinView.swap l).apply x)
    (hu : (lockinView.swap l).user ≠ .none → (lockinView.swap l').user ≠ .none)
    (hdue : (lockinView.swap l).Due effects x) :
    Handler.Moves lockinView effects cs.lockinHandler (cs.amendLockin updateErr k change).1.lockinHandler h
      (if k = h then some x else none) := by
  have hkey : lockinKind.secretHash l' = k := hk.trans (RecordMap.secretHash_of_lookup hd)
  have hr : (cs.amendLockin updateErr k change).1.lockinHandler = (cs.lockinHandler.updateLockin l').1 := by
    have hg : cs.lockinHandler.getLockin k = .ok l := hs.get hd
    unfold amendLockin
    rw [hg]
    simp only [wrap, hc]
  rw [hr, ← hkey]
  exact Handler.update_moves hs hl (hkey ▸ hd) hx hu hdue

/-- The record of a lockin that its user begins. -/
theorem onMCPrepareLockin4Ethereum_moves {mcProxy : Except String LockedEthereum} {event : PrepareEvent}
    (hs : cs.lockinHandler.Sound) (hl : cs.lockinHandler.Live lockinView h)
    (ht : LockinTurn m past cs (.mcPrepareLockin mcProxy event)) :
    Handler.Moves lockinView (past.filterMap (base.lockinEffect m h)) cs.lockinHandler
      (cs.onMCPrepareLockin4Ethereum mcProxy event).1.lockinHandler h
      (cs.lockinEffect m h (.mcPrepareLockin mcProxy event)) := by
  obtain ⟨hq, ht⟩ := ht
  obtain ⟨amount, hq⟩ := hq.query "mcProxy.QueryLockin"
  unfold onMCPrepareLockin4Ethereum lockinEffect
  rw [hq]
  dsimp only
  by_cases hshort : cs.LockinTooShort event (m.mcPrepareLockin event).2
  · rw [if_pos (show _ ≤ _ from hshort), if_pos hshort]
    exact .refl hs hl
  · rw [if_neg (show ¬ _ ≤ _ from hshort), if_neg hshort]
    obtain ⟨hu, hb⟩ := ht.resolve_left hshort
    exact Handler.register_moves hs hl rfl hu.1 hu.2 rfl rfl (by simp [lockinView])
      (Swap.due_lock rfl fun n hn => hb n (lockin_block_mem hn))

/-- The notaries' answer to a lockin. -/
theorem onSCPrepareLockin_moves {scTokenProxy : Except String AtmosphereToken} {event : PrepareEvent}
    (hs : cs.lockinHandler.Sound) (hl : cs.lockinHandler.Live lockinView h)
    (ht : LockinTurn m past cs (.scPrepareLockin scTokenProxy event)) :
    Handler.Moves lockinView (past.filterMap (base.lockinEffect m h)) cs.lockinHandler
      (cs.onSCPrepareLockin scTokenProxy event).1.lockinHandler h
      (cs.lockinEffect m h (.scPrepareLockin scTokenProxy event)) := by
  obtain ⟨hq, ⟨l, hd, hnone⟩, hb⟩ := ht
  obtain ⟨amount, hq⟩ := hq.query "scTokenProxy.QueryLockin"
  rw [onSCPrepareLockin_eq, hq]
  refine amendLockin_moves hs hl hd rfl rfl rfl id (Swap.due_lock ?_ fun n hn => hb n (lockin_block_mem hn))
  simpa [lockinView, Swap.hold] using hnone

/-- A block of the main chain is heard by the users' locks of the lockins. -/
theorem lockin_mcNewBlock_moves {n : UInt64} {order : List Bytes32} (hs : cs.lockinHandler.Sound)
    (hl : cs.lockinHandler.Live lockinView h) (hv : cs.lockinHandler.Visits order) :
    Handler.Moves lockinView effects cs.lockinHandler (cs.onMCNewBlockEvent n order).1.lockinHandler h
      (some (.block .user n)) := by
  unfold onMCNewBlockEvent LockinHandler.onMCNewBlockEvent
  dsimp only
  rw [if_neg (by simp [hs.free]), Handler.lockin_expireAll]
  refine Handler.expireAll_moves hs hl hv (fun _ => rfl) (by simp) fun r => ?_
  rw [Swap.apply_block_user]
  simp only [lockinView, Hold.hear_block_ofStatus]
  split_ifs <;> rfl

/-- A block of the side chain is heard by the notaries' locks of the lockins. -/
theorem lockin_scNewBlock_moves {n : UInt64} {order : List Bytes32} (hs : cs.lockinHandler.Sound)
    (hl : cs.lockinHandler.Live lockinView h) (hv : cs.lockinHandler.Visits order) :
    Handler.Moves lockinView effects cs.lockinHandler (cs.onSCNewBlockEvent n order).1.lockinHandler h
      (some (.block .notary n)) := by
  unfold onSCNewBlockEvent LockinHandler.onSCNewBlockEvent
  dsimp only
  rw [if_neg (by simp [hs.free]), Handler.lockin_expireAll]
  refine Handler.expireAll_moves hs hl hv (fun _ => rfl) (by simp) fun r => ?_
  rw [Swap.apply_block_notary]
  simp only [lockinView, Hold.hear_block_ofStatus]
  split_ifs <;> rfl

/-- An event that is handled in its turn has on every swap the effect that it had on its chain. -/
theorem lockin_moves {e : LockinEvent} (hs : cs.lockinHandler.Sound) (hl : cs.lockinHandler.Live lockinView h)
    (ht : LockinTurn m past cs e) :
    Handler.Moves lockinView (past.filterMap (base.lockinEffect m h)) cs.lockinHandler (cs.onEvent e).1.lockinHandler h
      (cs.lockinEffect m h e) := by
  cases e with
  | mcPrepareLockin mcProxy event => exact onMCPrepareLockin4Ethereum_moves hs hl ht
  | scPrepareLockin scTokenProxy event => exact onSCPrepareLockin_moves hs hl ht
  | scLockinSecret secret =>
    obtain ⟨l, hd, hempty, hstand⟩ := ht
    exact amendLockin_moves hs hl hd (ensure_then hempty) rfl rfl id (Swap.due_reveal (standing_ofStatus.mpr hstand))
  | mcLockin4Ethereum account secretHash time blockNumber =>
    obtain ⟨l, hd, haccount, hstand⟩ := ht
    exact amendLockin_moves hs hl hd (ensure_then haccount) rfl rfl (fun _ => by simp [lockinView])
      (Swap.due_collect (standing_ofStatus.mpr hstand))
  | mcLockin4Bitcoin secretHash time blockNumber =>
    obtain ⟨l, hd, hstand⟩ := ht
    exact amendLockin_moves hs hl hd rfl rfl rfl (fun _ => by simp [lockinView])
      (Swap.due_collect (standing_ofStatus.mpr hstand))
  | mcCancelLockin4Ethereum account secretHash time blockNumber =>
    obtain ⟨l, hd, haccount, hstand⟩ := ht
    exact amendLockin_moves hs hl hd (ensure_then haccount) rfl rfl (fun _ => by simp [lockinView])
      (Swap.due_cancel (standing_ofStatus.mpr hstand))
  | mcCancelLockin4Bitcoin secretHash time blockNumber =>
    obtain ⟨l, hd, hstand⟩ := ht
    exact amendLockin_moves hs hl hd rfl rfl rfl (fun _ => by simp [lockinView])
      (Swap.due_cancel (standing_ofStatus.mpr hstand))
  | scCancelLockin account secretHash time =>
    obtain ⟨l, hd, haccount, hstand⟩ := ht
    exact amendLockin_moves hs hl hd (ensure_then haccount) rfl rfl id (Swap.due_cancel (standing_ofStatus.mpr hstand))
  | mcNewBlock blockNumber order => exact lockin_mcNewBlock_moves hs hl ht
  | scNewBlock blockNumber order => exact lockin_scNewBlock_moves hs hl ht

end CrossChainService

end Lockins

section Lockouts

namespace LockoutEvent

/-- The event as it happened on its chain. -/
def onChain : LockoutEvent → LockoutEvent
  | .scPrepareLockout _ event => .scPrepareLockout (.error "") event
  | .mcPrepareLockout4Ethereum _ event => .mcPrepareLockout4Ethereum (.error "") event
  | .mcNewBlock blockNumber _ => .mcNewBlock blockNumber []
  | .scNewBlock blockNumber _ => .scNewBlock blockNumber []
  | e => e

def block : Side → LockoutEvent → Option UInt64
  | .user, .scNewBlock blockNumber _ => some blockNumber
  | .notary, .mcNewBlock blockNumber _ => some blockNumber
  | _, _ => none

end LockoutEvent

namespace CrossChainService

/-- The expiration of the user's lock that is refused, whenever the event is handled. -/
def LockoutTooShort (cs : CrossChainService) (event : PrepareEvent) (scExpiration : UInt64) : Prop :=
  scExpiration - event.blockNumber ≤ cs.cfg.getMinExpirationBlock4User .spectrum

instance (cs : CrossChainService) (event : PrepareEvent) (scExpiration : UInt64) :
    Decidable (cs.LockoutTooShort event scExpiration) := inferInstanceAs (Decidable (_ ≤ _))

def lockoutEffect (cs : CrossChainService) (m : Mined) (h : Bytes32) : LockoutEvent → Option Effect
  | .scPrepareLockout _ event =>
    if cs.LockoutTooShort event (m.scPrepareLockout event).2 then none
    else if (m.scPrepareLockout event).1 = h then some (.lock .user (m.scPrepareLockout event).2)
    else none
  | .mcPrepareLockout4Ethereum _ event =>
    if (m.mcPrepareLockout event).1 = h then some (.lock .notary (m.mcPrepareLockout event).2) else none
  | .mcPrepareLockout4Bitcoin event => if event.secretHash = h then some (.lock .notary event.mcExpiration) else none
  | .mcLockoutSecret4Ethereum secret => if sha256 secret = h then some (.reveal secret) else none
  | .mcLockoutSecret4Bitcoin secret => if sha256 secret = h then some (.reveal secret) else none
  | .scLockout _ secretHash _ _ => if secretHash = h then some .collect else none
  | .mcCancelLockout4Ethereum _ secretHash _ => if secretHash = h then some (.cancel .notary) else none
  | .mcCancelLockout4Bitcoin secretHash _ => if secretHash = h then some (.cancel .notary) else none
  | .scCancelLockout _ secretHash _ _ => if secretHash = h then some (.cancel .user) else none
  | .mcNewBlock blockNumber _ => some (.block .notary blockNumber)
  | .scNewBlock blockNumber _ => some (.block .user blockNumber)

/-- The event is handled in its turn. -/
def LockoutTurn (m : Mined) (past : List LockoutEvent) (cs : CrossChainService) : LockoutEvent → Prop
  | .scPrepareLockout scTokenProxy event =>
    Answers scTokenProxy (·.queryLockout event.account) (m.scPrepareLockout event) ∧
      (cs.LockoutTooShort event (m.scPrepareLockout event).2 ∨
        cs.lockoutHandler.Unknown (m.scPrepareLockout event).1 ∧
          Before (past.filterMap (LockoutEvent.block .user)) (m.scPrepareLockout event).2)
  | .mcPrepareLockout4Ethereum mcProxy event =>
    Answers mcProxy (·.queryLockout event.account) (m.mcPrepareLockout event) ∧
      cs.lockoutHandler.Has (m.mcPrepareLockout event).1 Unanswered ∧
      Before (past.filterMap (LockoutEvent.block .notary)) (m.mcPrepareLockout event).2
  | .mcPrepareLockout4Bitcoin event =>
    cs.lockoutHandler.Has event.secretHash Unanswered ∧
      Before (past.filterMap (LockoutEvent.block .notary)) event.mcExpiration
  | .mcLockoutSecret4Ethereum secret =>
    cs.lockoutHandler.Has (sha256 secret) fun l => l.secret = emptyHash ∧ l.mcLockStatus.Standing
  | .mcLockoutSecret4Bitcoin secret =>
    cs.lockoutHandler.Has (sha256 secret) fun l => l.secret = emptyHash ∧ l.mcLockStatus.Standing
  | .scLockout account secretHash _ _ =>
    cs.lockoutHandler.Has secretHash fun l => l.scUserAddress = account ∧ l.scLockStatus.Standing
  | .mcCancelLockout4Ethereum account secretHash _ =>
    cs.lockoutHandler.Has secretHash fun l => l.mcUserAddressHex = .account account ∧ l.mcLockStatus.Standing
  | .mcCancelLockout4Bitcoin secretHash _ => cs.lockoutHandler.Has secretHash fun l => l.mcLockStatus.Standing
  | .scCancelLockout account secretHash _ _ =>
    cs.lockoutHandler.Has secretHash fun l => l.scUserAddress = account ∧ l.scLockStatus.Standing
  | .mcNewBlock _ order => cs.lockoutHandler.Visits order
  | .scNewBlock _ order => cs.lockoutHandler.Visits order

instance LockoutTurn.decidable (m : Mined) (past : List LockoutEvent) (cs : CrossChainService) (e : LockoutEvent) :
    Decidable (LockoutTurn m past cs e) := by
  cases e <;> unfold LockoutTurn <;> infer_instance

variable {cs base : CrossChainService} {m : Mined} {h k : Bytes32} {past : List LockoutEvent} {effects : List Effect}

theorem lockout_block_mem {side : Side} {n : UInt64}
    (hn : .block n ∈ Swap.reports side (past.filterMap (base.lockoutEffect m h))) :
    n ∈ past.filterMap (LockoutEvent.block side) := by
  obtain ⟨x, hx, hrep⟩ := Swap.mem_reports.mp hn
  obtain rfl := Swap.report_eq_block.mp hrep
  obtain ⟨e, he, heff⟩ := List.mem_filterMap.mp hx
  refine List.mem_filterMap.mpr ⟨e, he, ?_⟩
  cases e with
  | scPrepareLockout scTokenProxy event =>
    simp only [lockoutEffect] at heff
    split_ifs at heff
    cases heff
  | mcNewBlock blockNumber order =>
    cases heff
    rfl
  | scNewBlock blockNumber order =>
    cases heff
    rfl
  | _ =>
    simp only [lockoutEffect] at heff
    split_ifs at heff
    cases heff

theorem amendLockout_moves {change : LockoutInfo → Except Failure LockoutInfo} {l l' : LockoutInfo} {x : Effect}
    (hs : cs.lockoutHandler.Sound) (hl : cs.lockoutHandler.Live lockoutView h)
    (hd : cs.lockoutHandler.dealingMap.lookup k = some l) (hc : change l = .ok l') (hk : l'.secretHash = l.secretHash)
    (hx : lockoutView.swap l' = (lockoutView.swap l).apply x)
    (hu : (lockoutView.swap l).user ≠ .none → (lockoutView.swap l').user ≠ .none)
    (hdue : (lockoutView.swap l).Due effects x) :
    Handler.Moves lockoutView effects cs.lockoutHandler (cs.amendLockout k change).1.lockoutHandler h
      (if k = h then some x else none) := by
  have hkey : lockoutKind.secretHash l' = k := hk.trans (RecordMap.secretHash_of_lookup hd)
  have hr : (cs.amendLockout k change).1.lockoutHandler = (cs.lockoutHandler.updateLockout l').1 := by
    have hg : cs.lockoutHandler.getLockout k = .ok l := hs.get hd
    unfold amendLockout
    rw [hg]
    simp only [wrap, hc]
  rw [hr, ← hkey]
  exact Handler.update_moves hs hl (hkey ▸ hd) hx hu hdue

/-- The record of a lockout that its user begins. -/
theorem onSCPrepareLockout_moves {scTokenProxy : Except String AtmosphereToken} {event : PrepareEvent}
    (hs : cs.lockoutHandler.Sound) (hl : cs.lockoutHandler.Live lockoutView h)
    (ht : LockoutTurn m past cs (.scPrepareLockout scTokenProxy event)) :
    Handler.Moves lockoutView (past.filterMap (base.lockoutEffect m h)) cs.lockoutHandler
      (cs.onSCPrepareLockout scTokenProxy event).1.lockoutHandler h
      (cs.lockoutEffect m h (.scPrepareLockout scTokenProxy event)) := by
  obtain ⟨hq, ht⟩ := ht
  obtain ⟨amount, hq⟩ := hq.query "scTokenProxy.QueryLockout"
  unfold onSCPrepareLockout lockoutEffect
  rw [hq]
  dsimp only
  by_cases hshort : cs.LockoutTooShort event (m.scPrepareLockout event).2
  · rw [if_pos (show _ ≤ _ from hshort), if_pos hshort]
    exact .refl hs hl
  · rw [if_neg (show ¬ _ ≤ _ from hshort), if_neg hshort]
    obtain ⟨hu, hb⟩ := ht.resolve_left hshort
    exact Handler.register_moves hs hl rfl hu.1 hu.2 rfl rfl (by simp [lockoutView])
      (Swap.due_lock rfl fun n hn => hb n (lockout_block_mem hn))

/-- The notaries' answer to a lockout on Ethereum. -/
theorem onMCPrepareLockout4Ethereum_moves {mcProxy : Except String LockedEthereum} {event : PrepareEvent}
    (hs : cs.lockoutHandler.Sound) (hl : cs.lockoutHandler.Live lockoutView h)
    (ht : LockoutTurn m past cs (.mcPrepareLockout4Ethereum mcProxy event)) :
    Handler.Moves lockoutView (past.filterMap (base.lockoutEffect m h)) cs.lockoutHandler
      (cs.onMCPrepareLockout4Ethereum mcProxy event).1.lockoutHandler h
      (cs.lockoutEffect m h (.mcPrepareLockout4Ethereum mcProxy event)) := by
  obtain ⟨hq, ⟨l, hd, hun⟩, hb⟩ := ht
  obtain ⟨amount, hq⟩ := hq.query "mcProxy.QueryLockout"
  rw [onMCPrepareLockout4Ethereum_eq, hq]
  refine amendLockout_moves hs hl hd (ensure_then hun) rfl rfl id
    (Swap.due_lock ?_ fun n hn => hb n (lockout_block_mem hn))
  simpa [lockoutView, Swap.hold] using hun.1

theorem lockout_mcNewBlock_moves {n : UInt64} {order : List Bytes32} (hs : cs.lockoutHandler.Sound)
    (hl : cs.lockoutHandler.Live lockoutView h) (hv : cs.lockoutHandler.Visits order) :
    Handler.Moves lockoutView effects cs.lockoutHandler (cs.lockoutHandler.onMCNewBlockEvent n order).1 h
      (some (.block .notary n)) := by
  unfold LockoutHandler.onMCNewBlockEvent
  rw [if_neg (by simp [hs.free])]
  refine Handler.expireAll_moves hs hl hv (fun _ => rfl) (by simp) fun r => ?_
  rw [Swap.apply_block_notary]
  simp only [lockoutView, Hold.hear_block_ofStatus]
  split_ifs <;> rfl

theorem lockout_scNewBlock_moves {n : UInt64} {order : List Bytes32} (hs : cs.lockoutHandler.Sound)
    (hl : cs.lockoutHandler.Live lockoutView h) (hv : cs.lockoutHandler.Visits order) :
    Handler.Moves lockoutView effects cs.lockoutHandler (cs.lockoutHandler.onSCNewBlockEvent n order).1 h
      (some (.block .user n)) := by
  unfold LockoutHandler.onSCNewBlockEvent
  rw [if_neg (by simp [hs.free])]
  refine Handler.expireAll_moves hs hl hv (fun _ => rfl) (by simp) fun r => ?_
  rw [Swap.apply_block_user]
  simp only [lockoutView, Hold.hear_block_ofStatus]
  split_ifs <;> rfl

theorem lockout_moves {e : LockoutEvent} (hs : cs.lockoutHandler.Sound) (hl : cs.lockoutHandler.Live lockoutView h)
    (ht : LockoutTurn m past cs e) :
    Handler.Moves lockoutView (past.filterMap (base.lockoutEffect m h)) cs.lockoutHandler
      (cs.onLockoutEvent e).lockoutHandler h (cs.lockoutEffect m h e) := by
  cases e with
  | scPrepareLockout scTokenProxy event => exact onSCPrepareLockout_moves hs hl ht
  | mcPrepareLockout4Ethereum mcProxy event => exact onMCPrepareLockout4Ethereum_moves hs hl ht
  | mcPrepareLockout4Bitcoin event =>
    obtain ⟨⟨l, hd, hun⟩, hb⟩ := ht
    refine amendLockout_moves hs hl hd (ensure_then hun) rfl rfl id
      (Swap.due_lock ?_ fun n hn => hb n (lockout_block_mem hn))
    simpa [lockoutView, Swap.hold] using hun.1
  | mcLockoutSecret4Ethereum secret =>
    obtain ⟨l, hd, hempty, hstand⟩ := ht
    exact amendLockout_moves hs hl hd (ensure_then hempty) rfl rfl id (Swap.due_reveal (standing_ofStatus.mpr hstand))
  | mcLockoutSecret4Bitcoin secret =>
    obtain ⟨l, hd, hempty, hstand⟩ := ht
    exact amendLockout_moves hs hl hd (ensure_then hempty) rfl rfl id (Swap.due_reveal (standing_ofStatus.mpr hstand))
  | scLockout account secretHash time blockNumber =>
    obtain ⟨l, hd, haccount, hstand⟩ := ht
    exact amendLockout_moves hs hl hd (ensure_then haccount) rfl rfl (fun _ => by simp [lockoutView])
      (Swap.due_collect (standing_ofStatus.mpr hstand))
  | mcCancelLockout4Ethereum account secretHash time =>
    obtain ⟨l, hd, haccount, hstand⟩ := ht
    exact amendLockout_moves hs hl hd (ensure_then haccount) rfl rfl id
      (Swap.due_cancel (standing_ofStatus.mpr hstand))
  | mcCancelLockout4Bitcoin secretHash time =>
    obtain ⟨l, hd, hstand⟩ := ht
    exact amendLockout_moves hs hl hd rfl rfl rfl id (Swap.due_cancel (standing_ofStatus.mpr hstand))
  | scCancelLockout account secretHash time blockNumber =>
    obtain ⟨l, hd, haccount, hstand⟩ := ht
    exact amendLockout_moves hs hl hd (ensure_then haccount) rfl rfl (fun _ => by simp [lockoutView])
      (Swap.due_cancel (standing_ofStatus.mpr hstand))
  | mcNewBlock blockNumber order => exact lockout_mcNewBlock_moves hs hl ht
  | scNewBlock blockNumber order => exact lockout_scNewBlock_moves hs hl ht

end CrossChainService

end Lockouts

section Orders

namespace SwapEvent

def onChain : SwapEvent → SwapEvent
  | .lockin e => .lockin e.onChain
  | .lockout e => .lockout e.onChain

def asLockin : SwapEvent → Option LockinEvent
  | .lockin e => some e
  | .lockout _ => none

def asLockout : SwapEvent → Option LockoutEvent
  | .lockin _ => none
  | .lockout e => some e

end SwapEvent

namespace CrossChainService

variable (base cs : CrossChainService) (m : Mined) (h : Bytes32)

/-- What the events did on their chains to the lockin of a secret hash. -/
def lockinEffects (l : List SwapEvent) : List Effect :=
  (l.filterMap SwapEvent.asLockin).filterMap (base.lockinEffect m h)

def lockoutEffects (l : List SwapEvent) : List Effect :=
  (l.filterMap SwapEvent.asLockout).filterMap (base.lockoutEffect m h)

/-- The event is handled in its turn. -/
def Turn (past : List SwapEvent) (cs : CrossChainService) : SwapEvent → Prop
  | .lockin e => LockinTurn m (past.filterMap SwapEvent.asLockin) cs e
  | .lockout e => LockoutTurn m (past.filterMap SwapEvent.asLockout) cs e

instance Turn.decidable (past : List SwapEvent) (cs : CrossChainService) (e : SwapEvent) :
    Decidable (Turn m past cs e) :=
  match e with
  | .lockin e => inferInstanceAs (Decidable (LockinTurn m (past.filterMap SwapEvent.asLockin) cs e))
  | .lockout e => inferInstanceAs (Decidable (LockoutTurn m (past.filterMap SwapEvent.asLockout) cs e))

/-- The service after the events, the latest first. -/
def handled (l : List SwapEvent) : CrossChainService := after handle cs l

/-- Every event was handled in its turn. -/
def AllInTurn (l : List SwapEvent) : Prop := InTurn handle (Turn m) cs l

instance (l : List SwapEvent) : Decidable (cs.AllInTurn m l) :=
  @InTurn.decidable _ _ handle (Turn m) cs (fun past cs e => Turn.decidable m past cs e) l

/-- The main chain status, the side chain status and the secret of a lockin. -/
def lockinOutcome : Option (LockStatus × LockStatus × Bytes32) :=
  (cs.lockinHandler.db.lookup h).map fun l => (l.mcLockStatus, l.scLockStatus, l.secret)

def lockoutOutcome : Option (LockStatus × LockStatus × Bytes32) :=
  (cs.lockoutHandler.db.lookup h).map fun l => (l.mcLockStatus, l.scLockStatus, l.secret)

/-- The handlers of the service work, and keep the records of the hash in memory. -/
structure Ready : Prop where
  lockins : cs.lockinHandler.Sound
  lockouts : cs.lockoutHandler.Sound
  lockin : cs.lockinHandler.Live lockinView h
  lockout : cs.lockoutHandler.Live lockoutView h

/-- The records of the hash have come to what the events did on their chains. -/
structure Follows (past : List SwapEvent) (cs : CrossChainService) : Prop where
  cfg : cs.cfg = base.cfg
  mcName : cs.mcName = base.mcName
  ready : cs.Ready h
  lockin : Swap.Tracks (base.lockinHandler.swap lockinView h) (base.lockinEffects m h past)
    (cs.lockinHandler.swap lockinView h)
  lockout : Swap.Tracks (base.lockoutHandler.swap lockoutView h) (base.lockoutEffects m h past)
    (cs.lockoutHandler.swap lockoutView h)

/-- The part of the service that no event changes, and the other handler. -/
structure Keeps (cs cs' : CrossChainService) : Prop where
  cfg : cs'.cfg = cs.cfg
  mcName : cs'.mcName = cs.mcName

variable {base cs m h}

theorem amendLockin_keeps {updateErr : String} {k : Bytes32} {change : LockinInfo → Except Failure LockinInfo} :
    Keeps cs (cs.amendLockin updateErr k change).1 ∧
      (cs.amendLockin updateErr k change).1.lockoutHandler = cs.lockoutHandler := by
  unfold amendLockin
  split
  · exact ⟨⟨rfl, rfl⟩, rfl⟩
  · split <;> exact ⟨⟨rfl, rfl⟩, rfl⟩

theorem amendLockout_keeps {k : Bytes32} {change : LockoutInfo → Except Failure LockoutInfo} :
    Keeps cs (cs.amendLockout k change).1 ∧ (cs.amendLockout k change).1.lockinHandler = cs.lockinHandler := by
  unfold amendLockout
  split
  · exact ⟨⟨rfl, rfl⟩, rfl⟩
  · split <;> exact ⟨⟨rfl, rfl⟩, rfl⟩

/-- The events of lockins leave the lockouts. -/
theorem onEvent_keeps (e : LockinEvent) :
    Keeps cs (cs.onEvent e).1 ∧ (cs.onEvent e).1.lockoutHandler = cs.lockoutHandler := by
  cases e with
  | mcPrepareLockin mcProxy event =>
    unfold onEvent single onMCPrepareLockin4Ethereum
    dsimp only
    split
    · exact ⟨⟨rfl, rfl⟩, rfl⟩
    · split_ifs <;> exact ⟨⟨rfl, rfl⟩, rfl⟩
  | scPrepareLockin scTokenProxy event =>
    change Keeps cs (cs.onSCPrepareLockin scTokenProxy event).1 ∧
      (cs.onSCPrepareLockin scTokenProxy event).1.lockoutHandler = cs.lockoutHandler
    rw [onSCPrepareLockin_eq]
    split
    · exact ⟨⟨rfl, rfl⟩, rfl⟩
    · exact amendLockin_keeps
  | mcNewBlock blockNumber order => exact ⟨⟨rfl, rfl⟩, rfl⟩
  | scNewBlock blockNumber order => exact ⟨⟨rfl, rfl⟩, rfl⟩
  | _ => exact amendLockin_keeps

/-- The events of lockouts leave the lockins. -/
theorem onLockoutEvent_keeps (e : LockoutEvent) :
    Keeps cs (cs.onLockoutEvent e) ∧ (cs.onLockoutEvent e).lockinHandler = cs.lockinHandler := by
  cases e with
  | scPrepareLockout scTokenProxy event =>
    unfold onLockoutEvent onSCPrepareLockout
    dsimp only
    split
    · exact ⟨⟨rfl, rfl⟩, rfl⟩
    · split_ifs <;> exact ⟨⟨rfl, rfl⟩, rfl⟩
  | mcPrepareLockout4Ethereum mcProxy event =>
    change Keeps cs (cs.onMCPrepareLockout4Ethereum mcProxy event).1 ∧
      (cs.onMCPrepareLockout4Ethereum mcProxy event).1.lockinHandler = cs.lockinHandler
    rw [onMCPrepareLockout4Ethereum_eq]
    split
    · exact ⟨⟨rfl, rfl⟩, rfl⟩
    · exact amendLockout_keeps
  | mcNewBlock blockNumber order => exact ⟨⟨rfl, rfl⟩, rfl⟩
  | scNewBlock blockNumber order => exact ⟨⟨rfl, rfl⟩, rfl⟩
  | _ => exact amendLockout_keeps

/-- The effects are read off the configuration alone. -/
theorem lockinEffect_congr {cs' : CrossChainService} (hk : Keeps cs cs') :
    cs'.lockinEffect m h = cs.lockinEffect m h := by
  funext e
  cases e with
  | mcPrepareLockin mcProxy event =>
    have hshort : ∀ e, cs'.LockinTooShort event e ↔ cs.LockinTooShort event e := by
      intro e
      unfold LockinTooShort
      rw [hk.cfg, hk.mcName]
    simp only [lockinEffect, hshort]
  | _ => rfl

theorem lockoutEffect_congr {cs' : CrossChainService} (hk : Keeps cs cs') :
    cs'.lockoutEffect m h = cs.lockoutEffect m h := by
  funext e
  cases e with
  | scPrepareLockout scTokenProxy event =>
    have hshort : ∀ e, cs'.LockoutTooShort event e ↔ cs.LockoutTooShort event e := by
      intro e
      unfold LockoutTooShort
      rw [hk.cfg]
    simp only [lockoutEffect, hshort]
  | _ => rfl

theorem Follows.keeps {past : List SwapEvent} (hf : Follows base m h past cs) : Keeps base cs := ⟨hf.cfg, hf.mcName⟩

theorem Keeps.trans {cs' cs'' : CrossChainService} (h₁ : Keeps cs cs') (h₂ : Keeps cs' cs'') : Keeps cs cs'' :=
  ⟨h₂.cfg.trans h₁.cfg, h₂.mcName.trans h₁.mcName⟩

theorem cons_lockinEffects {e : LockinEvent} {past : List SwapEvent} :
    base.lockinEffects m h (.lockin e :: past) = (base.lockinEffect m h e).toList ++ base.lockinEffects m h past := by
  change (e :: past.filterMap SwapEvent.asLockin).filterMap (base.lockinEffect m h) = _
  rw [List.filterMap_cons]
  cases base.lockinEffect m h e <;> rfl

theorem cons_lockoutEffects {e : LockoutEvent} {past : List SwapEvent} :
    base.lockoutEffects m h (.lockout e :: past) =
      (base.lockoutEffect m h e).toList ++ base.lockoutEffects m h past := by
  change (e :: past.filterMap SwapEvent.asLockout).filterMap (base.lockoutEffect m h) = _
  rw [List.filterMap_cons]
  cases base.lockoutEffect m h e <;> rfl

/-- The step lemma: an event in its turn. -/
theorem Follows.handle {past : List SwapEvent} {e : SwapEvent} (hf : Follows base m h past cs) (ht : Turn m past cs e) :
    Follows base m h (e :: past) (cs.handle e) := by
  obtain ⟨hs, hs', hl, hl'⟩ := hf.ready
  cases e with
  | lockin e =>
    obtain ⟨hk, hother⟩ : Keeps cs (cs.onEvent e).1 ∧ _ := onEvent_keeps e
    have hm : Handler.Moves lockinView (base.lockinEffects m h past) _ _ h _ := lockin_moves hs hl ht
    have htracks := hm.tracks hf.lockin
    rw [lockinEffect_congr hf.keeps] at htracks
    have hkeeps := hf.keeps.trans hk
    have hsame : (cs.handle (.lockin e)).lockoutHandler = cs.lockoutHandler := hother
    refine ⟨hkeeps.cfg, hkeeps.mcName, ⟨hm.sound, ?_, hm.live, ?_⟩, ?_, ?_⟩
    · rw [hsame]
      exact hs'
    · rw [hsame]
      exact hl'
    · rw [cons_lockinEffects]
      exact htracks
    · rw [hsame]
      exact hf.lockout
  | lockout e =>
    obtain ⟨hk, hother⟩ : Keeps cs (cs.onLockoutEvent e) ∧ _ := onLockoutEvent_keeps e
    have hm : Handler.Moves lockoutView (base.lockoutEffects m h past) _ _ h _ := lockout_moves hs' hl' ht
    have htracks := hm.tracks hf.lockout
    rw [lockoutEffect_congr hf.keeps] at htracks
    have hkeeps := hf.keeps.trans hk
    have hsame : (cs.handle (.lockout e)).lockinHandler = cs.lockinHandler := hother
    refine ⟨hkeeps.cfg, hkeeps.mcName, ⟨?_, hm.sound, ?_, hm.live⟩, ?_, ?_⟩
    · rw [hsame]
      exact hs
    · rw [hsame]
      exact hl
    · rw [hsame]
      exact hf.lockin
    · rw [cons_lockoutEffects]
      exact htracks

/-- The run lemma: the records follow the chains as long as every event has its turn. -/
theorem follows_of_inTurn {l : List SwapEvent} (hready : cs.Ready h) (hl : cs.AllInTurn m l) :
    Follows cs m h l (cs.handled l) :=
  InTurn.invariant (Follows cs m h) ⟨rfl, rfl, hready, .start _, .start _⟩ (fun _ _ _ hf ht => hf.handle ht) hl

theorem lockinEffect_onChain (e : LockinEvent) : base.lockinEffect m h e.onChain = base.lockinEffect m h e := by
  cases e <;> simp only [LockinEvent.onChain, lockinEffect]

theorem lockoutEffect_onChain (e : LockoutEvent) : base.lockoutEffect m h e.onChain = base.lockoutEffect m h e := by
  cases e <;> simp only [LockoutEvent.onChain, lockoutEffect]

theorem lockinEffects_onChain (l : List SwapEvent) :
    base.lockinEffects m h (l.map SwapEvent.onChain) = base.lockinEffects m h l := by
  induction l with
  | nil => rfl
  | cons e l ih =>
    cases e with
    | lockin e =>
      rw [List.map_cons, SwapEvent.onChain, cons_lockinEffects, cons_lockinEffects, ih, lockinEffect_onChain]
    | lockout e => exact ih

theorem lockoutEffects_onChain (l : List SwapEvent) :
    base.lockoutEffects m h (l.map SwapEvent.onChain) = base.lockoutEffects m h l := by
  induction l with
  | nil => rfl
  | cons e l ih =>
    cases e with
    | lockin e => exact ih
    | lockout e =>
      rw [List.map_cons, SwapEvent.onChain, cons_lockoutEffects, cons_lockoutEffects, ih, lockoutEffect_onChain]

/-- The same events have the same effects, in the order in which they are handled. -/
theorem lockinEffects_perm {l l' : List SwapEvent}
    (hp : (l.map SwapEvent.onChain).Perm (l'.map SwapEvent.onChain)) :
    (base.lockinEffects m h l).Perm (base.lockinEffects m h l') := by
  rw [← lockinEffects_onChain l, ← lockinEffects_onChain l']
  exact (hp.filterMap _).filterMap _

theorem lockoutEffects_perm {l l' : List SwapEvent}
    (hp : (l.map SwapEvent.onChain).Perm (l'.map SwapEvent.onChain)) :
    (base.lockoutEffects m h l).Perm (base.lockoutEffects m h l') := by
  rw [← lockoutEffects_onChain l, ← lockoutEffects_onChain l']
  exact (hp.filterMap _).filterMap _

/-- The statuses and the secret of a record are those of its swap. -/
theorem lockinOutcome_congr {cs' : CrossChainService} (hl : cs.lockinHandler.Live lockinView h)
    (hl' : cs'.lockinHandler.Live lockinView h)
    (hw : cs'.lockinHandler.swap lockinView h = cs.lockinHandler.swap lockinView h) :
    cs'.lockinOutcome h = cs.lockinOutcome h := by
  unfold lockinOutcome
  rcases hl.lookup_of_swap hl' hw with ⟨hr, hr'⟩ | ⟨r, r', hr, hr', hswap⟩
  · rw [hr, hr']
  · have huser := congrArg (fun w => w.user.status) hswap
    have hnotary := congrArg (fun w => w.notary.status) hswap
    have hsecret := congrArg Swap.secret hswap
    simp only [lockinView, Hold.status_ofStatus] at huser hnotary hsecret
    rw [hr, hr', Option.map_some, Option.map_some, huser, hnotary, hsecret]

theorem lockoutOutcome_congr {cs' : CrossChainService} (hl : cs.lockoutHandler.Live lockoutView h)
    (hl' : cs'.lockoutHandler.Live lockoutView h)
    (hw : cs'.lockoutHandler.swap lockoutView h = cs.lockoutHandler.swap lockoutView h) :
    cs'.lockoutOutcome h = cs.lockoutOutcome h := by
  unfold lockoutOutcome
  rcases hl.lookup_of_swap hl' hw with ⟨hr, hr'⟩ | ⟨r, r', hr, hr', hswap⟩
  · rw [hr, hr']
  · have huser := congrArg (fun w => w.user.status) hswap
    have hnotary := congrArg (fun w => w.notary.status) hswap
    have hsecret := congrArg Swap.secret hswap
    simp only [lockoutView, Hold.status_ofStatus] at huser hnotary hsecret
    rw [hr, hr', Option.map_some, Option.map_some, huser, hnotary, hsecret]

/-- An order of the same events in which each has its turn leaves the records that the order of the
chains leaves; every event can be seen in them, and a lock that has ended stays as it ended. -/
theorem events_confluent (cs : CrossChainService) (m : Mined) (h : Bytes32) (l l' : List SwapEvent)
    (hready : cs.Ready h) (hl : cs.AllInTurn m l) (hl' : cs.AllInTurn m l')
    (hp : (l.map SwapEvent.onChain).Perm (l'.map SwapEvent.onChain)) :
    (cs.handled l').lockinOutcome h = (cs.handled l).lockinOutcome h ∧
    (cs.handled l').lockoutOutcome h = (cs.handled l).lockoutOutcome h ∧
    (∀ x ∈ cs.lockinEffects m h l, ((cs.handled l').lockinHandler.swap lockinView h).Shows x) ∧
    (∀ x ∈ cs.lockoutEffects m h l, ((cs.handled l').lockoutHandler.swap lockoutView h).Shows x) ∧
    ∀ post past, l' = post ++ past → ∀ side,
      (((cs.handled past).lockinHandler.swap lockinView h).Ended side →
        ((cs.handled l').lockinHandler.swap lockinView h).hold side =
          ((cs.handled past).lockinHandler.swap lockinView h).hold side) ∧
      (((cs.handled past).lockoutHandler.swap lockoutView h).Ended side →
        ((cs.handled l').lockoutHandler.swap lockoutView h).hold side =
          ((cs.handled past).lockoutHandler.swap lockoutView h).hold side) := by
  have hf := follows_of_inTurn hready hl
  have hf' := follows_of_inTurn hready hl'
  have hin := hf.lockin.of_perm (lockinEffects_perm hp)
  have hout := hf.lockout.of_perm (lockoutEffects_perm hp)
  refine ⟨?_, ?_, fun x hx => ?_, fun x hx => ?_, ?_⟩
  · exact lockinOutcome_congr hf.ready.lockin hf'.ready.lockin (hf'.lockin.unique hin)
  · exact lockoutOutcome_congr hf.ready.lockout hf'.ready.lockout (hf'.lockout.unique hout)
  · exact hf'.lockin.shows ((lockinEffects_perm hp).mem_iff.mp hx)
  · exact hf'.lockout.shows ((lockoutEffects_perm hp).mem_iff.mp hx)
  · rintro post past rfl side
    have hpast := follows_of_inTurn hready (InTurn.of_append hl')
    refine ⟨fun hend => ?_, fun hend => ?_⟩
    · have happ : cs.lockinEffects m h (post ++ past) = cs.lockinEffects m h post ++ cs.lockinEffects m h past := by
        simp [lockinEffects]
      have htracks := hf'.lockin
      rw [happ] at htracks
      exact hpast.lockin.ended htracks hend
    · have happ : cs.lockoutEffects m h (post ++ past) =
          cs.lockoutEffects m h post ++ cs.lockoutEffects m h past := by
        simp [lockoutEffects]
      have htracks := hf'.lockout
      rw [happ] at htracks
      exact hpast.lockout.ended htracks hend

/-- Locks of account `7` under a hash: the user's, the notaries' answer as a contract shows it, and
the end of the answer with a secret or without. -/
def mined7 (h : Bytes32) : Mined where
  mcPrepareLockin _ := (h, 5000)
  scPrepareLockin _ := (h, 2550)
  scPrepareLockout _ := (h, 5000)
  mcPrepareLockout _ := (h, 2550)

def locked7 (h : Bytes32) : AtmosphereToken := token7.next (owner9, .prepareLockin 7 h 2550 9999)

def late9 : Msg := { sender := 9, blockNumber := 2551 }

def began7 (h : Bytes32) : SwapEvent :=
  .lockin (.mcPrepareLockin (.ok (ether7.next (user7 10000 100, .prepareLockin h 5000))) (event7 10000))

def answered7 (c : AtmosphereToken) : SwapEvent := .lockin (.scPrepareLockin (.ok c) (event7 9999))

def cancelled7 (h : Bytes32) : SwapEvent := .lockin (.scCancelLockin 7 h 2551)

theorem service7_ready (h : Bytes32) : service7.Ready h where
  lockins := ⟨rfl, fun h r hr => hr, fun _ => rfl⟩
  lockouts := ⟨rfl, fun h r hr => hr, fun _ => rfl⟩
  lockin r hr := absurd hr (by simp [service7, RecordMap.lookup])
  lockout r hr := absurd hr (by simp [service7, RecordMap.lookup])

/-- The secret before the answer: the lock that the user has taken is locked again. The end of the
notaries' lock before its begin: both are lost, the one because the record does not know the account
yet, the other because the contract has forgotten the lock. -/
theorem order_changes_record :
    ((AtmosphereToken.Call.lockin 7 5).exec (locked7 (sha256 5)) owner9).map Prod.snd = some [.lockinSecret 7 5] ∧
    ((AtmosphereToken.Call.cancelLockin 7).exec (locked7 6) late9).map Prod.snd = some [.cancelLockin 7 6] ∧
    (let revealed : SwapEvent := .lockin (.scLockinSecret 5)
    let answered := answered7 (locked7 (sha256 5))
    let began := began7 (sha256 5)
    service7.AllInTurn (mined7 (sha256 5)) [revealed, answered, began] ∧
      (service7.handled [revealed, answered, began]).lockinOutcome (sha256 5) = some (.lock, .unlock, 5) ∧
      (service7.handled [revealed, began]).lockinOutcome (sha256 5) = some (.lock, .unlock, 5) ∧
      (service7.handled [answered, revealed, began]).lockinOutcome (sha256 5) = some (.lock, .lock, 5)) ∧
    service7.AllInTurn (mined7 6) [cancelled7 6, answered7 (locked7 6), began7 6] ∧
    (service7.handled [cancelled7 6, answered7 (locked7 6), began7 6]).lockinOutcome 6 = some (.lock, .cancel, 0) ∧
    (service7.handled [answered7 ((locked7 6).next (late9, .cancelLockin 7)), cancelled7 6, began7 6]).lockinOutcome 6 =
      some (.lock, .none, 0) := by
  decide +kernel

/-- Blocks and events of both chains in two orders. -/
theorem events_confluent_7 :
    (service7.handled [.lockin (.scNewBlock 2600 [6]), .lockin (.mcNewBlock 2600 [6]), answered7 (locked7 6),
        began7 6]).lockinOutcome 6 =
      (service7.handled [.lockin (.mcNewBlock 2600 [6]), .lockin (.scNewBlock 2600 [6]), answered7 (locked7 6),
        began7 6]).lockinOutcome 6 :=
  (events_confluent service7 (mined7 6) 6
    [.lockin (.mcNewBlock 2600 [6]), .lockin (.scNewBlock 2600 [6]), answered7 (locked7 6), began7 6]
    [.lockin (.scNewBlock 2600 [6]), .lockin (.mcNewBlock 2600 [6]), answered7 (locked7 6), began7 6]
    (service7_ready 6) (by decide +kernel) (by decide +kernel) (List.Perm.swap ..)).1

end CrossChainService

end Orders

end DistributedNotary.Service
