import DistributedNotary.Library.Checks
import DistributedNotary.Service.CrossChain

/-! From the log of a lock to the record. A handler sees the account's slot as
the last transaction left it, so its record is of the call that emitted the log
exactly when the last write to the slot up to then put the same data there. -/
namespace DistributedNotary.Service

open Library Contracts

/-- The data of a lock, in a contract or in a record. -/
structure Lock where
  secretHash : Bytes32
  expiration : ℕ
  amount : ℤ
  deriving DecidableEq

/-- The lock that a contract call made. -/
def lockOf (p : Htlc) : Lock :=
  { secretHash := p.secretHash, expiration := p.expiration.toNat, amount := p.value.toNat }

/-- The user's lock on the main chain. -/
def LockinInfo.mcLock (l : LockinInfo) : Lock :=
  { secretHash := l.secretHash, expiration := l.mcExpiration.toNat, amount := l.amount }

/-- The notaries' lock on the side chain, which is less by the cross fee. -/
def LockinInfo.scLock (l : LockinInfo) : Lock :=
  { secretHash := l.secretHash, expiration := l.scExpiration.toNat, amount := l.amount - l.crossFee }

/-- The user's lock on the side chain. -/
def LockoutInfo.scLock (l : LockoutInfo) : Lock :=
  { secretHash := l.secretHash, expiration := l.scExpiration.toNat, amount := l.amount }

/-- The notaries' lock on the main chain, which is less by the cross fee. -/
def LockoutInfo.mcLock (l : LockoutInfo) : Lock :=
  { secretHash := l.secretHash, expiration := l.mcExpiration.toNat, amount := l.amount - l.crossFee }

/-- The slot `d` holds the hash of the lock `p`, and its expiration after the cut to 64 bits. -/
def SameTerms (d p : Htlc) : Prop :=
  d.secretHash = p.secretHash ∧ d.expiration.toNat % 2^64 = p.expiration.toNat

instance (d p : Htlc) : Decidable (SameTerms d p) := inferInstanceAs (Decidable (_ ∧ _))

section Slots

variable {σ τ : Type} (m : Slots σ τ Address Htlc)

/-- What the slot of the account holds after `post`, when a call had put `p` there before. -/
def heldAfter (c : σ) (post : List τ) (account : Address) (p : Htlc) : Htlc :=
  (m.lastWrite account c post).getD p

end Slots

section Expiration

theorem toNat_expiration (h : Htlc) :
    (UInt64.ofNat h.expiration.toNat).toNat = h.expiration.toNat % 2^64 := by
  simp [UInt64.toNat_ofNat']

end Expiration

section Handlers

variable {cs cs' : CrossChainService} {event : PrepareEvent}

theorem query_ok {σ : Type} {name : String} {c : σ} {slot : σ → Htlc} :
    query name (.ok c) slot = .ok (queryResult (slot c)) := rfl

/-- The record that `onMCPrepareLockin4Ethereum` creates. -/
theorem onMCPrepareLockin4Ethereum_ok {c : LockedEthereum} {r : LockinInfo}
    (h : cs.onMCPrepareLockin4Ethereum (.ok c) event = (cs', .ok r)) :
    cs'.lockinHandler.db.lookup r.secretHash = some r ∧
      r.secretHash = (c.queryLockin event.account).secretHash ∧
      r.mcExpiration = UInt64.ofNat (c.queryLockin event.account).expiration.toNat ∧
      r.amount = (c.queryLockin event.account).value.toNat := by
  unfold CrossChainService.onMCPrepareLockin4Ethereum at h
  rw [query_ok] at h
  dsimp only [queryResult] at h
  split at h
  · simp at h
  · obtain ⟨rfl, hr⟩ := Prod.mk.inj h
    obtain ⟨⟨⟩, hreg, rfl⟩ := map_eq_ok.mp hr
    exact ⟨(Handler.register_ok (wrap_eq_ok.mp hreg)).2.1, rfl, rfl, rfl⟩

/-- The record that `onSCPrepareLockout` creates. -/
theorem onSCPrepareLockout_ok {c : AtmosphereToken} {r : LockoutInfo}
    (h : cs.onSCPrepareLockout (.ok c) event = (cs', .ok r)) :
    cs'.lockoutHandler.db.lookup r.secretHash = some r ∧
      r.secretHash = (c.queryLockout event.account).secretHash ∧
      r.scExpiration = UInt64.ofNat (c.queryLockout event.account).expiration.toNat ∧
      r.amount = (c.queryLockout event.account).value.toNat := by
  unfold CrossChainService.onSCPrepareLockout at h
  rw [query_ok] at h
  dsimp only [queryResult] at h
  split at h
  · simp at h
  · obtain ⟨rfl, hr⟩ := Prod.mk.inj h
    obtain ⟨⟨⟩, hreg, rfl⟩ := map_eq_ok.mp hr
    exact ⟨(Handler.register_ok (wrap_eq_ok.mp hreg)).2.1, rfl, rfl, rfl⟩

/-- The record that `onSCPrepareLockin` updates. -/
theorem onSCPrepareLockin_ok {c : AtmosphereToken} {r : LockinInfo}
    (h : cs.onSCPrepareLockin (.ok c) event = (cs', .ok r)) :
    cs'.lockinHandler.db.lookup r.secretHash = some r ∧
      ∃ lockinInfo, cs.lockinHandler.getLockin (c.queryLockin event.account).secretHash = .ok lockinInfo ∧
        r = { lockinInfo with
          scExpiration := UInt64.ofNat (c.queryLockin event.account).expiration.toNat
          scLockStatus := .lock, scUserAddress := event.account } := by
  unfold CrossChainService.onSCPrepareLockin at h
  rw [query_ok] at h
  dsimp only [queryResult] at h
  split at h
  · simp at h
  · rename_i lockinInfo hget
    obtain ⟨rfl, hr⟩ := Prod.mk.inj h
    obtain ⟨⟨⟩, hupd, rfl⟩ := map_eq_ok.mp hr
    exact ⟨Handler.update_db (wrap_eq_ok.mp hupd), lockinInfo, wrap_eq_ok.mp hget, rfl⟩

/-- The record that `onMCPrepareLockout4Ethereum` updates. -/
theorem onMCPrepareLockout4Ethereum_ok {c : LockedEthereum} {r : LockoutInfo}
    (h : cs.onMCPrepareLockout4Ethereum (.ok c) event = (cs', .ok r)) :
    cs'.lockoutHandler.db.lookup r.secretHash = some r ∧
      ∃ lockoutInfo, cs.lockoutHandler.getLockout (c.queryLockout event.account).secretHash = .ok lockoutInfo ∧
        r = { lockoutInfo with
          mcExpiration := UInt64.ofNat (c.queryLockout event.account).expiration.toNat
          mcLockStatus := .lock, mcUserAddressHex := .account event.account } := by
  unfold CrossChainService.onMCPrepareLockout4Ethereum at h
  rw [query_ok] at h
  dsimp only [queryResult] at h
  split at h
  · simp at h
  · rename_i lockoutInfo hget
    split at h
    · simp at h
    · obtain ⟨rfl, hr⟩ := Prod.mk.inj h
      obtain ⟨⟨⟩, hupd, rfl⟩ := map_eq_ok.mp hr
      exact ⟨Handler.update_db (wrap_eq_ok.mp hupd), lockoutInfo, wrap_eq_ok.mp hget, rfl⟩

end Handlers

section Records

variable {cs cs' : CrossChainService} {event : PrepareEvent} {p d : Htlc}

theorem eq_lockOf_iff {h : Bytes32} {e : ℕ} {a : ℤ} :
    ({ secretHash := h, expiration := e, amount := a } : Lock) = lockOf p ↔
      (h = p.secretHash ∧ e = p.expiration.toNat) ∧ a = p.value.toNat := by
  simp only [lockOf, Lock.mk.injEq]
  exact and_assoc.symm

/-- A lockin that the user opens on the main chain. -/
theorem mcLock_lockin_iff {c : LockedEthereum} {r : LockinInfo} (hslot : c.queryLockin event.account = d)
    (h : cs.onMCPrepareLockin4Ethereum (.ok c) event = (cs', .ok r)) :
    r.mcLock = lockOf p ↔ SameTerms d p ∧ d.value = p.value := by
  obtain ⟨-, h1, h2, h3⟩ := onMCPrepareLockin4Ethereum_ok h
  rw [hslot] at h1 h2 h3
  rw [LockinInfo.mcLock, eq_lockOf_iff, h1, h2, h3, toNat_expiration, SameTerms]
  simp [BitVec.toNat_inj]

/-- A lockout that the user opens on the side chain. -/
theorem scLock_lockout_iff {c : AtmosphereToken} {r : LockoutInfo} (hslot : c.queryLockout event.account = d)
    (h : cs.onSCPrepareLockout (.ok c) event = (cs', .ok r)) :
    r.scLock = lockOf p ↔ SameTerms d p ∧ d.value = p.value := by
  obtain ⟨-, h1, h2, h3⟩ := onSCPrepareLockout_ok h
  rw [hslot] at h1 h2 h3
  rw [LockoutInfo.scLock, eq_lockOf_iff, h1, h2, h3, toNat_expiration, SameTerms]
  simp [BitVec.toNat_inj]

/-- A lockin that the notaries answer on the side chain. -/
theorem scLock_lockin_iff {c : AtmosphereToken} {r : LockinInfo} (hslot : c.queryLockin event.account = d)
    (h : cs.onSCPrepareLockin (.ok c) event = (cs', .ok r)) :
    r.scLock = lockOf p ↔ SameTerms d p ∧ ∀ lockinInfo,
      cs.lockinHandler.getLockin d.secretHash = .ok lockinInfo →
        lockinInfo.amount - lockinInfo.crossFee = p.value.toNat := by
  obtain ⟨-, lockinInfo, hget, rfl⟩ := onSCPrepareLockin_ok h
  rw [hslot] at hget ⊢
  have hkey : lockinInfo.secretHash = d.secretHash := Handler.secretHash_of_get hget
  rw [LockinInfo.scLock, eq_lockOf_iff, hkey, toNat_expiration, SameTerms]
  refine and_congr_right fun _ => ⟨fun hv info hinfo => ?_, fun hv => hv lockinInfo hget⟩
  obtain rfl := Except.ok.inj (hget.symm.trans hinfo)
  exact hv

/-- A lockout that the notaries answer on the main chain. -/
theorem mcLock_lockout_iff {c : LockedEthereum} {r : LockoutInfo} (hslot : c.queryLockout event.account = d)
    (h : cs.onMCPrepareLockout4Ethereum (.ok c) event = (cs', .ok r)) :
    r.mcLock = lockOf p ↔ SameTerms d p ∧ ∀ lockoutInfo,
      cs.lockoutHandler.getLockout d.secretHash = .ok lockoutInfo →
        lockoutInfo.amount - lockoutInfo.crossFee = p.value.toNat := by
  obtain ⟨-, lockoutInfo, hget, rfl⟩ := onMCPrepareLockout4Ethereum_ok h
  rw [hslot] at hget ⊢
  have hkey : lockoutInfo.secretHash = d.secretHash := Handler.secretHash_of_get hget
  rw [LockoutInfo.mcLock, eq_lockOf_iff, hkey, toNat_expiration, SameTerms]
  refine and_congr_right fun _ => ⟨fun hv info hinfo => ?_, fun hv => hv lockoutInfo hget⟩
  obtain rfl := Except.ok.inj (hget.symm.trans hinfo)
  exact hv

end Records

section Histories

/-- For each of the four logs, whatever transactions `post` ran between the call that emitted it
and its processing: the record has the data of that call exactly when the last write to the
account's slot has its hash and expiration, and its value or, where the value is not read, when the
local record under that hash is over that value. -/
theorem record_lock_iff (cs cs' : CrossChainService) (event : PrepareEvent) (msg : Msg) (secretHash : Bytes32)
    (expiration value : UInt256) :
    (∀ (c c1 : LockedEthereum) (es : List LockedEthereum.Event) (post : List (Msg × LockedEthereum.Call))
      (r : LockinInfo), (LockedEthereum.Call.prepareLockin secretHash expiration).exec c msg = some (c1, es) →
      event.account = msg.sender →
      cs.onMCPrepareLockin4Ethereum (.ok (post.foldl LockedEthereum.next c1)) event = (cs', .ok r) →
      let p : Htlc := { secretHash := secretHash, expiration := expiration, value := msg.value }
      let d := heldAfter LockedEthereum.lockinSlots c1 post msg.sender p
      (r.mcLock = lockOf p ↔ SameTerms d p ∧ d.value = p.value)) ∧
    (∀ (c c1 : AtmosphereToken) (es : List AtmosphereToken.Event) (post : List (Msg × AtmosphereToken.Call))
      (r : LockoutInfo), (AtmosphereToken.Call.prepareLockout secretHash expiration value).exec c msg = some (c1, es) →
      event.account = msg.sender →
      cs.onSCPrepareLockout (.ok (post.foldl AtmosphereToken.next c1)) event = (cs', .ok r) →
      let p : Htlc := { secretHash := secretHash, expiration := expiration, value := value }
      let d := heldAfter AtmosphereToken.lockoutSlots c1 post msg.sender p
      (r.scLock = lockOf p ↔ SameTerms d p ∧ d.value = p.value)) ∧
    (∀ (c c1 : AtmosphereToken) (es : List AtmosphereToken.Event) (post : List (Msg × AtmosphereToken.Call))
      (r : LockinInfo), (AtmosphereToken.Call.prepareLockin event.account secretHash expiration value).exec c msg =
        some (c1, es) →
      cs.onSCPrepareLockin (.ok (post.foldl AtmosphereToken.next c1)) event = (cs', .ok r) →
      let p : Htlc := { secretHash := secretHash, expiration := expiration, value := value }
      let d := heldAfter AtmosphereToken.lockinSlots c1 post event.account p
      (r.scLock = lockOf p ↔ SameTerms d p ∧ ∀ lockinInfo,
        cs.lockinHandler.getLockin d.secretHash = .ok lockinInfo →
          lockinInfo.amount - lockinInfo.crossFee = p.value.toNat)) ∧
    (∀ (c c1 : LockedEthereum) (es : List LockedEthereum.Event) (post : List (Msg × LockedEthereum.Call))
      (r : LockoutInfo), (LockedEthereum.Call.prepareLockoutHTLC event.account secretHash expiration value).exec c msg =
        some (c1, es) →
      cs.onMCPrepareLockout4Ethereum (.ok (post.foldl LockedEthereum.next c1)) event = (cs', .ok r) →
      let p : Htlc := { secretHash := secretHash, expiration := expiration, value := value }
      let d := heldAfter LockedEthereum.lockoutSlots c1 post event.account p
      (r.mcLock = lockOf p ↔ SameTerms d p ∧ ∀ lockoutInfo,
        cs.lockoutHandler.getLockout d.secretHash = .ok lockoutInfo →
          lockoutInfo.amount - lockoutInfo.crossFee = p.value.toNat)) := by
  refine ⟨?_, ?_, ?_, ?_⟩
  · intro c c1 es post r hc he h
    exact mcLock_lockin_iff (he ▸ LockedEthereum.queryLockin_foldl hc rfl post) h
  · intro c c1 es post r hc he h
    exact scLock_lockout_iff (he ▸ AtmosphereToken.queryLockout_foldl hc rfl post) h
  · intro c c1 es post r hc h
    exact scLock_lockin_iff (AtmosphereToken.queryLockin_foldl hc rfl post) h
  · intro c c1 es post r hc h
    exact mcLock_lockout_iff (LockedEthereum.queryLockout_foldl hc rfl post) h

/-- A notary at height `100` of both chains. -/
def service7 : CrossChainService where
  cfg := .dev
  mcName := .ethereum
  scToken := 3
  selfNotaryID := 0
  mcLastedBlockNumber := 100
  scLastedBlockNumber := 100

/-- The contracts of owner `9`; account `7` has tokens. -/
def ether7 : LockedEthereum := { owner := 9 }

def token7 : AtmosphereToken := { owner := 9, totalSupply := 10001, balances := fun a => if a = 7 then 10000 else 0 }

def user7 (value blockNumber : UInt256) : Msg := { sender := 7, value := value, blockNumber := blockNumber }

def owner9 : Msg := { sender := 9, blockNumber := 100 }

def event7 (amount : ℤ) : PrepareEvent := { account := 7, amount := amount, blockNumber := 100, time := 0 }

/-- What account `8` does in the block after a log, before the log is processed. -/
def ether8 : List (Msg × LockedEthereum.Call) :=
  [({ sender := 8, value := 1, blockNumber := 101 }, .prepareLockin 7 6000)]

def token8 : List (Msg × AtmosphereToken.Call) := [({ sender := 8, blockNumber := 101 }, .approve 7 1)]

/-- A lockin of `10000` and its answer, a lockout of `10000` and its answer. -/
def lockin7 : CrossChainService × Except Failure LockinInfo :=
  service7.onMCPrepareLockin4Ethereum
    (.ok (ether8.foldl LockedEthereum.next (ether7.next (user7 10000 100, .prepareLockin 5 5000)))) (event7 10000)

def lockinAnswer7 : CrossChainService × Except Failure LockinInfo :=
  lockin7.1.onSCPrepareLockin
    (.ok (token8.foldl AtmosphereToken.next (token7.next (owner9, .prepareLockin 7 5 2550 9999)))) (event7 9999)

def lockout7 : CrossChainService × Except Failure LockoutInfo :=
  service7.onSCPrepareLockout
    (.ok (token8.foldl AtmosphereToken.next (token7.next (user7 0 100, .prepareLockout 6 5000 10000)))) (event7 10000)

def lockoutAnswer7 : CrossChainService × Except Failure LockoutInfo :=
  lockout7.1.onMCPrepareLockout4Ethereum
    (.ok (ether8.foldl LockedEthereum.next (ether7.next (owner9, .prepareLockoutHTLC 7 6 2550 9999)))) (event7 9999)

theorem record_lock_iff_7 :
    (∃ r, lockin7 = (lockin7.1, .ok r) ∧ r.mcLock = { secretHash := 5, expiration := 5000, amount := 10000 }) ∧
    (∃ r, lockout7 = (lockout7.1, .ok r) ∧ r.scLock = { secretHash := 6, expiration := 5000, amount := 10000 }) ∧
    (∃ r, lockinAnswer7 = (lockinAnswer7.1, .ok r) ∧
      r.scLock = { secretHash := 5, expiration := 2550, amount := 9999 }) ∧
    (∃ r, lockoutAnswer7 = (lockoutAnswer7.1, .ok r) ∧
      r.mcLock = { secretHash := 6, expiration := 2550, amount := 9999 }) := by
  refine ⟨⟨_, rfl, ?_⟩, ⟨_, rfl, ?_⟩, ⟨_, rfl, ?_⟩, ⟨_, rfl, ?_⟩⟩
  · exact ((record_lock_iff service7 lockin7.1 (event7 10000) (user7 10000 100) 5 5000 0).1
      ether7 _ [.prepareLockin 7 10000] ether8 _ rfl rfl rfl).mpr (by decide)
  · exact ((record_lock_iff service7 lockout7.1 (event7 10000) (user7 0 100) 6 5000 10000).2.1
      token7 _ [.prepareLockout 7 10000] token8 _ rfl rfl rfl).mpr (by decide)
  · exact ((record_lock_iff lockin7.1 lockinAnswer7.1 (event7 9999) owner9 5 2550 9999).2.2.1
      token7 _ [.prepareLockin 7 9999] token8 _ rfl rfl).mpr ⟨by decide, fun l hl => by cases hl; rfl⟩
  · exact ((record_lock_iff lockout7.1 lockoutAnswer7.1 (event7 9999) owner9 6 2550 9999).2.2.2
      ether7 _ [.prepareLockout 7 9999] ether8 _ rfl rfl).mpr ⟨by decide, fun l hl => by cases hl; rfl⟩

/-- After the log of a deposit of `1` the account takes it back and deposits `10000` in a later
block; the record made from the log has the later deposit. -/
theorem record_of_later_deposit :
    ∃ cs' r, (LockedEthereum.Call.prepareLockin 5 50).exec ether7 (user7 1 100) =
        some (ether7.next (user7 1 100, .prepareLockin 5 50), [.prepareLockin 7 1]) ∧
      service7.onMCPrepareLockin4Ethereum
        (.ok ([(user7 0 100, .cancelLockin 7), (user7 10000 101, .prepareLockin 8 9000)].foldl LockedEthereum.next
          (ether7.next (user7 1 100, .prepareLockin 5 50)))) (event7 1) = (cs', .ok r) ∧
      r.mcLock = { secretHash := 8, expiration := 9000, amount := 10000 } ∧
      r.mcLock ≠ lockOf { secretHash := 5, expiration := 50, value := 1 } :=
  ⟨_, _, rfl, rfl, rfl, by decide⟩

end Histories

end DistributedNotary.Service
