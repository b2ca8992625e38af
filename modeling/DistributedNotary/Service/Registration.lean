import DistributedNotary.Service.Fidelity
import DistributedNotary.Service.Timelock

/-! The expirations with which a record is registered. The user's lock has to end
later than a number of blocks after its event, and the end of the notaries' lock
is half of the time away that the user's lock has left. Both are computed on
machine integers. -/
namespace DistributedNotary.Service

open Library Contracts

section Halves

/-- Every operation of the calculation stays within its type: the blocks left, their time, and the
block of the other chain. -/
structure HalfExact (h cur e : UInt64) (p q : Int64) : Prop where
  left : ((e - h).toNat : ℤ) = (e.toNat : ℤ) - h.toNat
  duration : (e - h).toInt64.toInt = (e - h).toNat
  time : ((e - h).toInt64 * p).toInt = (e - h).toInt64.toInt * p.toInt
  blocks : ((((e - h).toInt64 * p / 2 / q).toUInt64.toNat : ℕ) : ℤ) = ((e - h).toInt64 * p / 2 / q).toInt
  sum : (cur + ((e - h).toInt64 * p / 2 / q).toUInt64).toNat =
    cur.toNat + ((e - h).toInt64 * p / 2 / q).toUInt64.toNat

/-- The lock has not ended, its time fits into a duration and the sum into a height. -/
def HalfInRange (h cur e : UInt64) (p q : Int64) : Prop :=
  h ≤ e ∧ ((e.toNat : ℤ) - h.toNat) * p.toInt < 2 ^ 63 ∧
    cur.toNat + ((e.toNat : ℤ) - h.toNat) * p.toInt / 2 / q.toInt < 2 ^ 64

instance (h cur e : UInt64) (p q : Int64) : Decidable (HalfInRange h cur e p q) :=
  inferInstanceAs (Decidable (_ ∧ _ ∧ _))

variable {h cur e : UInt64} {p q : Int64}

theorem HalfExact.inRange (hx : HalfExact h cur e p q) (hp : 0 < p) (hq : 0 < q) : HalfInRange h cur e p q := by
  have hle : h ≤ e := by
    rw [UInt64.le_iff_toNat_le]
    have := hx.left
    omega
  have htime : ((e.toNat : ℤ) - h.toNat) * p.toInt < 2 ^ 63 := by
    rw [← hx.left, ← hx.duration, ← hx.time]
    exact Int64.toInt_lt _
  refine ⟨hle, htime, ?_⟩
  rw [← half_blocks hp hq hle htime]
  have hsum := hx.sum
  have hlt := UInt64.toNat_lt (cur + ((e - h).toInt64 * p / 2 / q).toUInt64)
  omega

theorem HalfInRange.exact (hx : HalfInRange h cur e p q) (hp : 0 < p) (hq : 0 < q) : HalfExact h cur e p q := by
  obtain ⟨hle, htime, hsum⟩ := hx
  have hp' : 0 < p.toInt := by simpa using Int64.lt_iff_toInt_lt.mp hp
  have hq' : 0 < q.toInt := by simpa using Int64.lt_iff_toInt_lt.mp hq
  obtain ⟨hleft, hduration⟩ := toNat_left hp' hle htime
  have hnn : 0 ≤ (e - h).toInt64.toInt * p.toInt := by
    rw [hduration]
    positivity
  have htime' : ((e - h).toInt64 * p).toInt = (e - h).toInt64.toInt * p.toInt :=
    toInt_mul_of_lt hnn (by rwa [hduration, hleft])
  have hblocks : (((e - h).toInt64 * p / 2 / q).toInt) = (e - h).toInt64.toInt * p.toInt / 2 / q.toInt := by
    have hhalf : ((e - h).toInt64 * p / 2).toInt = (e - h).toInt64.toInt * p.toInt / 2 := by
      rw [toInt_div_of_pos (by rwa [htime']) (by decide), htime']
      rfl
    rw [toInt_div_of_pos (by rw [hhalf]; positivity) hq', hhalf]
  refine ⟨hleft, hduration, htime', toNat_toUInt64 (by rw [hblocks]; positivity), ?_⟩
  have hval := half_blocks hp hq hle htime
  rw [UInt64.toNat_add, Nat.mod_eq_of_lt]
  rw [← hval] at hsum
  exact_mod_cast hsum

end Halves

section Accepts

variable {ρ : Type} {kind : RecordKind ρ} {lh : Handler kind} {info : ρ}

/-- A record can be registered under the hash. -/
structure Handler.Accepts (lh : Handler kind) (h : Bytes32) : Prop where
  named : h ≠ emptyHash
  works : lh.dbFails h = false
  unknown : lh.db.lookup h = none
  free : lh.dealingMapLock = false

theorem Handler.register_ok_iff (hreg : kind.registrable info = true) :
    (lh.register info).2 = .ok () ↔ lh.Accepts (kind.secretHash info) := by
  unfold register dbNew
  constructor
  · intro hok
    by_cases hh : kind.secretHash info = emptyHash
    · simp [hh] at hok
    by_cases hf : lh.dbFails (kind.secretHash info) = true
    · simp [hreg, hh, hf, wrap] at hok
    cases hl : lh.db.lookup (kind.secretHash info) with
    | some r => simp [hreg, hh, hf, hl, wrap] at hok
    | none =>
      by_cases hlock : lh.dealingMapLock = true
      · simp [hreg, hh, hf, hl, hlock, wrap] at hok
      · exact ⟨hh, by simpa using hf, hl, by simpa using hlock⟩
  · rintro ⟨hh, hf, hl, hlock⟩
    simp [hreg, hh, hf, hl, hlock, wrap]

/-- What holds of every record that a registration returns. -/
theorem Handler.registered_iff {text : String} {P : ρ → Prop} (hreg : kind.registrable info = true) :
    (∀ l, ((wrap text (lh.register info).2).map fun _ => info) = .ok l → P l) ↔
      (lh.Accepts (kind.secretHash info) → P info) := by
  simp only [map_eq_ok, wrap_eq_ok]
  constructor
  · exact fun hP ha => hP info ⟨(), (register_ok_iff hreg).mpr ha, rfl⟩
  · rintro hP l ⟨u, hu, rfl⟩
    exact hP ((register_ok_iff hreg).mp hu)

end Accepts

section Registered

namespace CrossChainService

variable (cs : CrossChainService)

def mcPeriod : Int64 := (cs.cfg.getCfgByChainName cs.mcName).blockPeriod

def scPeriod : Int64 := (cs.cfg.getCfgByChainName .spectrum).blockPeriod

/-- The end of the notaries' lock on the side chain can be computed from the user's. -/
def SCInRange (mcExpiration : UInt64) : Prop :=
  HalfInRange cs.mcLastedBlockNumber cs.scLastedBlockNumber mcExpiration cs.mcPeriod cs.scPeriod

/-- The end of the notaries' lock on the main chain can be computed from the user's. -/
def MCInRange (scExpiration : UInt64) : Prop :=
  HalfInRange cs.scLastedBlockNumber cs.mcLastedBlockNumber scExpiration cs.scPeriod cs.mcPeriod

instance (e : UInt64) : Decidable (cs.SCInRange e) := inferInstanceAs (Decidable (HalfInRange _ _ _ _ _))

instance (e : UInt64) : Decidable (cs.MCInRange e) := inferInstanceAs (Decidable (HalfInRange _ _ _ _ _))

/-- The user's lock of a lockin ends more than `min` blocks after `block`, the end of the notaries'
lock is computed without a wrap, and it is half of the time away that the user's lock has left. -/
structure LockinTimely (min block : UInt64) (l : LockinInfo) : Prop where
  long : block.toNat + min.toNat < l.mcExpiration.toNat
  exact : HalfExact cs.mcLastedBlockNumber cs.scLastedBlockNumber l.mcExpiration cs.mcPeriod cs.scPeriod
  half : Leg.WithinHalf 0 (cs.mcLeg l.mcExpiration.toNat) (cs.scLeg l.scExpiration.toNat)

structure LockoutTimely (min block : UInt64) (l : LockoutInfo) : Prop where
  long : block.toNat + min.toNat < l.scExpiration.toNat
  exact : HalfExact cs.scLastedBlockNumber cs.mcLastedBlockNumber l.scExpiration cs.scPeriod cs.mcPeriod
  half : Leg.WithinHalf 0 (cs.scLeg l.scExpiration.toNat) (cs.mcLeg l.mcExpiration.toNat)

variable {cs}

theorem lockinTimely_iff {min block : UInt64} {l : LockinInfo}
    (hl : l.scExpiration = cs.calculateSCExpiration l.mcExpiration) :
    cs.LockinTimely min block l ↔
      block.toNat + min.toNat < l.mcExpiration.toNat ∧ cs.SCInRange l.mcExpiration := by
  have hp : 0 < cs.mcPeriod := ChainCfg.blockPeriod_pos _
  have hq : 0 < cs.scPeriod := ChainCfg.blockPeriod_pos _
  constructor
  · rintro ⟨hlong, hexact, -⟩
    exact ⟨hlong, hexact.inRange hp hq⟩
  · rintro ⟨hlong, hrange⟩
    refine ⟨hlong, hrange.exact hp hq, ?_⟩
    rw [hl]
    exact calculateSCExpiration_withinHalf hrange.1 hrange.2.1 hrange.2.2

theorem lockoutTimely_iff {min block : UInt64} {l : LockoutInfo}
    (hl : l.mcExpiration = cs.calculateMCExpiration l.scExpiration) :
    cs.LockoutTimely min block l ↔
      block.toNat + min.toNat < l.scExpiration.toNat ∧ cs.MCInRange l.scExpiration := by
  have hp : 0 < cs.scPeriod := ChainCfg.blockPeriod_pos _
  have hq : 0 < cs.mcPeriod := ChainCfg.blockPeriod_pos _
  constructor
  · rintro ⟨hlong, hexact, -⟩
    exact ⟨hlong, hexact.inRange hp hq⟩
  · rintro ⟨hlong, hrange⟩
    refine ⟨hlong, hrange.exact hp hq, ?_⟩
    rw [hl]
    exact calculateMCExpiration_withinHalf hrange.1 hrange.2.1 hrange.2.2

theorem onMCPrepareLockin4Ethereum_timely_iff {c : LockedEthereum} {event : PrepareEvent} {e : UInt64}
    (he : e = UInt64.ofNat (c.queryLockin event.account).expiration.toNat) :
    (∀ l, (cs.onMCPrepareLockin4Ethereum (.ok c) event).2 = .ok l →
        cs.LockinTimely (cs.cfg.getMinExpirationBlock4User cs.mcName) event.blockNumber l) ↔
      (cs.lockinHandler.Accepts (c.queryLockin event.account).secretHash →
        cs.cfg.getMinExpirationBlock4User cs.mcName + event.blockNumber < e →
        event.blockNumber.toNat + (cs.cfg.getMinExpirationBlock4User cs.mcName).toNat < e.toNat ∧
          cs.SCInRange e) := by
  subst he
  unfold onMCPrepareLockin4Ethereum
  rw [query_ok]
  dsimp only [queryResult]
  split
  · rename_i hshort
    exact ⟨fun _ _ hlong => absurd hshort (UInt64.not_le.mpr hlong), fun _ l hl => by cases hl⟩
  · rename_i hlong
    refine (Handler.registered_iff rfl).trans ?_
    rw [lockinTimely_iff rfl]
    exact ⟨fun h ha _ => h ha, fun h ha => h ha (UInt64.not_le.mp hlong)⟩

theorem onSCPrepareLockout_timely_iff {c : AtmosphereToken} {event : PrepareEvent} {e : UInt64}
    (he : e = UInt64.ofNat (c.queryLockout event.account).expiration.toNat) :
    (∀ l, (cs.onSCPrepareLockout (.ok c) event).2 = .ok l →
        cs.LockoutTimely (cs.cfg.getMinExpirationBlock4User .spectrum) event.blockNumber l) ↔
      (cs.lockoutHandler.Accepts (c.queryLockout event.account).secretHash →
        cs.cfg.getMinExpirationBlock4User .spectrum < e - event.blockNumber →
        event.blockNumber.toNat + (cs.cfg.getMinExpirationBlock4User .spectrum).toNat < e.toNat ∧
          cs.MCInRange e) := by
  subst he
  unfold onSCPrepareLockout
  rw [query_ok]
  dsimp only [queryResult]
  split
  · rename_i hshort
    exact ⟨fun _ _ hlong => absurd hshort (UInt64.not_le.mpr hlong), fun _ l hl => by cases hl⟩
  · rename_i hlong
    refine (Handler.registered_iff rfl).trans ?_
    rw [lockoutTimely_iff rfl]
    exact ⟨fun h ha _ => h ha, fun h ha => h ha (UInt64.not_le.mp hlong)⟩

theorem getLockInInfo_timely_iff {x : Externals} {node : Node} {req : SCPrepareLockinRequest}
    {info : BTCPrepareLockinInfo} {user : String} {signer : Address} (hbtc : cs.mcName = .bitcoin)
    (hinfo : node.getPrepareLockinInfo req = .ok info) (huser : x.newAddressPubKeyHash req.mcUserAddress = some user)
    (hsigner : getSignerETHAddress x req.signer = .ok signer) :
    (∀ l, (cs.getLockInInfoBySCPrepareLockInRequest x node req).2 = .ok l →
        cs.LockinTimely (cs.cfg.getMinExpirationBlock4User .bitcoin) info.blockNumber l) ↔
      (cs.lockinHandler.Accepts req.secretHash →
        cs.cfg.getMinExpirationBlock4User .bitcoin < req.mcExpiration - info.blockNumber →
        info.blockNumber.toNat + (cs.cfg.getMinExpirationBlock4User .bitcoin).toNat < req.mcExpiration.toNat ∧
          cs.SCInRange req.mcExpiration) := by
  unfold getLockInInfoBySCPrepareLockInRequest
  rw [hbtc]
  dsimp only
  rw [huser]
  dsimp only
  rw [hinfo]
  dsimp only
  split
  · rename_i hshort
    exact ⟨fun _ _ hlong => absurd hshort (UInt64.not_le.mpr hlong), fun _ l hl => by cases hl⟩
  · rename_i hlong
    rw [hsigner]
    refine (Handler.registered_iff rfl).trans ?_
    rw [lockinTimely_iff rfl]
    exact ⟨fun h ha _ => h ha, fun h ha => h ha (UInt64.not_le.mp hlong)⟩

/-- The expiration of a lockin on Ethereum is compared in the sum, that of a lockout in the
difference, and so is that of a lockin on Bitcoin. A record is as the user's lock and the margin
require exactly when the wrapped comparison refuses, or the handler does, or the comparison holds of
the integers and the calculation is in range. -/
theorem registered_timely_iff (cs : CrossChainService) :
    (∀ (c : LockedEthereum) (event : PrepareEvent) (e : UInt64),
      e = UInt64.ofNat (c.queryLockin event.account).expiration.toNat →
      ((∀ l, (cs.onMCPrepareLockin4Ethereum (.ok c) event).2 = .ok l →
          cs.LockinTimely (cs.cfg.getMinExpirationBlock4User cs.mcName) event.blockNumber l) ↔
        (cs.lockinHandler.Accepts (c.queryLockin event.account).secretHash →
          cs.cfg.getMinExpirationBlock4User cs.mcName + event.blockNumber < e →
          event.blockNumber.toNat + (cs.cfg.getMinExpirationBlock4User cs.mcName).toNat < e.toNat ∧
            cs.SCInRange e))) ∧
    (∀ (c : AtmosphereToken) (event : PrepareEvent) (e : UInt64),
      e = UInt64.ofNat (c.queryLockout event.account).expiration.toNat →
      ((∀ l, (cs.onSCPrepareLockout (.ok c) event).2 = .ok l →
          cs.LockoutTimely (cs.cfg.getMinExpirationBlock4User .spectrum) event.blockNumber l) ↔
        (cs.lockoutHandler.Accepts (c.queryLockout event.account).secretHash →
          cs.cfg.getMinExpirationBlock4User .spectrum < e - event.blockNumber →
          event.blockNumber.toNat + (cs.cfg.getMinExpirationBlock4User .spectrum).toNat < e.toNat ∧
            cs.MCInRange e))) ∧
    (∀ (x : Externals) (node : Node) (req : SCPrepareLockinRequest) (info : BTCPrepareLockinInfo)
      (user : String) (signer : Address), cs.mcName = .bitcoin → node.getPrepareLockinInfo req = .ok info →
      x.newAddressPubKeyHash req.mcUserAddress = some user → getSignerETHAddress x req.signer = .ok signer →
      ((∀ l, (cs.getLockInInfoBySCPrepareLockInRequest x node req).2 = .ok l →
          cs.LockinTimely (cs.cfg.getMinExpirationBlock4User .bitcoin) info.blockNumber l) ↔
        (cs.lockinHandler.Accepts req.secretHash →
          cs.cfg.getMinExpirationBlock4User .bitcoin < req.mcExpiration - info.blockNumber →
          info.blockNumber.toNat + (cs.cfg.getMinExpirationBlock4User .bitcoin).toNat < req.mcExpiration.toNat ∧
            cs.SCInRange req.mcExpiration))) := by
  refine ⟨fun c event e he => ?_, fun c event e he => ?_,
    fun x node req info user signer hbtc hinfo huser hsigner => ?_⟩
  · exact onMCPrepareLockin4Ethereum_timely_iff he
  · exact onSCPrepareLockout_timely_iff he
  · exact getLockInInfo_timely_iff hbtc hinfo huser hsigner

/-- A lockout is registered whose lock ended 50 blocks before its event, with an answer that has
ended as well; a lockin on Ethereum is registered whose time does not fit into a duration, with an
answer that ends at once. -/
theorem registered_wrapped :
    (∃ l, (service7.onSCPrepareLockout (.ok (token7.next (user7 0 100, .prepareLockout 6 50 10000)))
        (event7 10000)).2 = .ok l ∧ l.scExpiration = 50 ∧ l.mcExpiration = 75 ∧ l.startSCBlockNumber = 100) ∧
    (∃ l, (service7.onMCPrepareLockin4Ethereum (.ok (ether7.next (user7 10000 100, .prepareLockin 5 18446744174)))
        (event7 10000)).2 = .ok l ∧ l.mcExpiration = 18446744174 ∧ l.scExpiration = service7.scLastedBlockNumber) ∧
    ¬ ∀ l, (service7.onSCPrepareLockout (.ok (token7.next (user7 0 100, .prepareLockout 6 50 10000)))
        (event7 10000)).2 = .ok l →
      service7.LockoutTimely (service7.cfg.getMinExpirationBlock4User .spectrum) (event7 10000).blockNumber l := by
  refine ⟨⟨_, rfl, by decide⟩, ⟨_, rfl, by decide⟩, fun h => ?_⟩
  have hlong := (h _ rfl).long
  exact absurd hlong (by decide)

/-- The service of a token on Bitcoin, whose node knows a deposit in block `100`. -/
def service8 : CrossChainService := { service7 with mcName := .bitcoin }

def node8 : Node where
  gas _ _ _ _ _ := .error "no gas"
  getPrepareLockinInfo _ := .ok { blockNumber := 100, blockNumberTime := 0, txHash := "ab", index := 0 }

def request8 : SCPrepareLockinRequest := { lockinRequest5 with mcExpiration := 5000 }

/-- Lockins and a lockout that end 4900 blocks later. -/
theorem registered_timely_7 :
    (∀ l, (service7.onMCPrepareLockin4Ethereum (.ok (ether7.next (user7 10000 100, .prepareLockin 5 5000)))
        (event7 10000)).2 = .ok l →
      service7.LockinTimely (service7.cfg.getMinExpirationBlock4User service7.mcName) (event7 10000).blockNumber l) ∧
    (∀ l, (service7.onSCPrepareLockout (.ok (token7.next (user7 0 100, .prepareLockout 6 5000 10000)))
        (event7 10000)).2 = .ok l →
      service7.LockoutTimely (service7.cfg.getMinExpirationBlock4User .spectrum) (event7 10000).blockNumber l) ∧
    ∀ l, (service8.getLockInInfoBySCPrepareLockInRequest .short node8 request8).2 = .ok l →
      service8.LockinTimely (service8.cfg.getMinExpirationBlock4User .bitcoin) 100 l :=
  ⟨((registered_timely_iff service7).1 _ _ 5000 (by decide)).mpr fun _ _ => ⟨by decide, by decide⟩,
    ((registered_timely_iff service7).2.1 _ _ 5000 (by decide)).mpr fun _ _ => ⟨by decide, by decide⟩,
    ((registered_timely_iff service8).2.2 .short node8 request8
      { blockNumber := 100, blockNumberTime := 0, txHash := "ab", index := 0 } _ _ rfl rfl rfl rfl).mpr
      fun _ _ => ⟨by decide, by decide⟩⟩

end CrossChainService

end Registered

end DistributedNotary.Service
