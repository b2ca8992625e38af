import DistributedNotary.Contracts.Solidity
import DistributedNotary.Library.RangeMap
import DistributedNotary.Service.Config

/-! The records of lockins and lockouts and the handlers that keep them: a table
of the database keyed by the secret hash, and the records in progress in memory
under a mutex. A record read from memory is shared with it. -/
namespace DistributedNotary.Service

open Library Contracts

/-- How a call of the service ends without a result. -/
inductive Failure where
  | error (text : String)
  | panic (text : String)
  /-- It waits for a mutex that is held. -/
  | blocked
  deriving DecidableEq

/-- `fmt.Errorf` around the error of a callee. -/
def wrap {α : Type} (text : String) : Except Failure α → Except Failure α
  | .error (.error e) => .error (.error (text ++ e))
  | r => r

theorem wrap_eq_ok {α : Type} {text : String} {x : Except Failure α} {a : α} :
    wrap text x = .ok a ↔ x = .ok a := by
  unfold wrap
  split <;> simp

inductive LockStatus where
  | none
  | lock
  | unlock
  | expiration
  | cancel
  deriving DecidableEq

/-- A user on the main chain, whose hex string names an account of Ethereum or of Bitcoin. -/
inductive UserAddressHex where
  | empty
  | account (a : Address)
  | bitcoin (s : String)
  deriving DecidableEq

def emptyHash : Bytes32 := 0

def emptyAddress : Address := 0

def unknownNotaryIDInCharge : ℤ := -1

structure LockinInfo where
  mcChainName : ChainName
  secretHash : Bytes32
  secret : Bytes32
  mcUserAddressHex : UserAddressHex
  scUserAddress : Address
  scTokenAddress : Address
  amount : ℤ
  mcExpiration : UInt64
  scExpiration : UInt64
  mcLockStatus : LockStatus
  scLockStatus : LockStatus
  notaryIDInCharge : ℤ
  startTime : ℤ
  startMCBlockNumber : UInt64
  endTime : ℤ := 0
  endMCBlockNumber : UInt64 := 0
  btcPrepareLockinTXHashHex : String := ""
  btcPrepareLockinVout : UInt32 := 0
  crossFee : ℤ
  deriving DecidableEq

structure LockoutInfo where
  mcChainName : ChainName
  secretHash : Bytes32
  secret : Bytes32
  mcUserAddressHex : UserAddressHex
  scUserAddress : Address
  scTokenAddress : Address
  amount : ℤ
  mcExpiration : UInt64
  scExpiration : UInt64
  mcLockStatus : LockStatus
  scLockStatus : LockStatus
  notaryIDInCharge : ℤ
  startTime : ℤ
  startSCBlockNumber : UInt64
  endTime : ℤ := 0
  endSCBlockNumber : UInt64 := 0
  btcPrepareLockoutTXHashHex : String := ""
  btcPrepareLockoutVout : UInt32 := 0
  btcLockScriptHex : String := ""
  crossFee : ℤ
  deriving DecidableEq

/-- The end of a lockin and of a lockout. -/
def isEnd (mcLockStatus scLockStatus : LockStatus) : Bool :=
  decide (mcLockStatus = .unlock ∧ scLockStatus = .unlock) ||
    decide (mcLockStatus = .cancel ∧ (scLockStatus = .cancel ∨ scLockStatus = .none))

def LockinInfo.isEnd (l : LockinInfo) : Bool := Service.isEnd l.mcLockStatus l.scLockStatus

def LockoutInfo.isEnd (l : LockoutInfo) : Bool := Service.isEnd l.mcLockStatus l.scLockStatus

/-- What the two handlers differ in: the texts of their database functions, the fields they read
and the status of a record that may be registered. -/
structure RecordKind (ρ : Type) where
  name : String
  secretHash : ρ → Bytes32
  isEnd : ρ → Bool
  registrable : ρ → Bool

theorem lookup_empty_keyed {ρ : Type} (kind : RecordKind ρ) (h : Bytes32) (r : ρ)
    (hr : (∅ : RangeMap Bytes32 ρ).lookup h = some r) : kind.secretHash r = h := by
  simp at hr

/-- Records under their own secret hash: the table, whose primary key it is, and the map in memory. -/
structure RecordMap {ρ : Type} (kind : RecordKind ρ) where
  entries : RangeMap Bytes32 ρ := ∅
  keyed : ∀ h r, entries.lookup h = some r → kind.secretHash r = h := by exact lookup_empty_keyed _

namespace RecordMap

variable {ρ : Type} {kind : RecordKind ρ} (m : RecordMap kind)

def lookup (secretHash : Bytes32) : Option ρ := m.entries.lookup secretHash

def put (info : ρ) : RecordMap kind where
  entries := m.entries.insert (kind.secretHash info) info
  keyed h r hr := by
    by_cases hk : h = kind.secretHash info
    · subst hk
      rw [AList.lookup_insert] at hr
      cases hr
      rfl
    · rw [AList.lookup_insert_ne hk] at hr
      exact m.keyed h r hr

def erase (secretHash : Bytes32) : RecordMap kind where
  entries := m.entries.erase secretHash
  keyed h r hr := by
    by_cases hk : h = secretHash
    · subst hk
      simp at hr
    · rw [AList.lookup_erase_ne hk] at hr
      exact m.keyed h r hr

/-- The records that pass a test. -/
def filter (q : ρ → Bool) : RecordMap kind where
  entries := RangeMap.filter m.entries fun _ r => q r
  keyed h r hr := by
    rw [RangeMap.lookup_filter] at hr
    exact m.keyed h r (Option.filter_eq_some_iff.mp hr).1

variable {m}

theorem lookup_filter_eq_some {q : ρ → Bool} {h : Bytes32} {r : ρ} :
    (m.filter q).lookup h = some r ↔ m.lookup h = some r ∧ q r = true := by
  unfold lookup filter
  rw [RangeMap.lookup_filter, Option.filter_eq_some_iff]

theorem secretHash_of_lookup {h : Bytes32} {r : ρ} (hr : m.lookup h = some r) : kind.secretHash r = h := m.keyed h r hr

@[simp] theorem lookup_put_self {info : ρ} : (m.put info).lookup (kind.secretHash info) = some info :=
  AList.lookup_insert _

theorem lookup_put_ne {info : ρ} {h : Bytes32} (hk : h ≠ kind.secretHash info) : (m.put info).lookup h = m.lookup h :=
  AList.lookup_insert_ne hk

end RecordMap

/-- `lockinHandler` and `lockoutHandler`; `dbFails` is the record whose database call fails. -/
structure Handler {ρ : Type} (kind : RecordKind ρ) where
  db : RecordMap kind := {}
  dealingMap : RecordMap kind := {}
  dealingMapLock : Bool := false
  dbFails : Bytes32 → Bool := fun _ => false

namespace Handler

variable {ρ : Type} {kind : RecordKind ρ} (lh : Handler kind)

/-- `NewLockinInfo` and `NewLockoutInfo`; the secret hash is the primary key. -/
def dbNew (info : ρ) : Except Failure (RecordMap kind) :=
  if lh.dbFails (kind.secretHash info) then .error (.error "database error")
  else
    match lh.db.lookup (kind.secretHash info) with
    | some _ => .error (.error "UNIQUE constraint failed")
    | none => .ok (lh.db.put info)

/-- `GetLockinInfo` and `GetLockoutInfo`. -/
def dbGet (secretHash : Bytes32) : Except Failure ρ :=
  if lh.dbFails secretHash then .error (.error "database error")
  else
    match lh.db.lookup secretHash with
    | some info => .ok info
    | none => .error (.error "record not found")

/-- `UpdateLockinInfo` and `UpdateLockoutInfo`. -/
def dbUpdate (info : ρ) : Except Failure (RecordMap kind) :=
  match lh.dbGet (kind.secretHash info) with
  | .ok _ => .ok (lh.db.put info)
  | .error _ => .error (.error "can not update because key not found in db")

/-- `registerLockin` and `registerLockout`. -/
def register (info : ρ) : Handler kind × Except Failure Unit :=
  if kind.registrable info = false ∨ kind.secretHash info = emptyHash then
    (lh, .error (.panic ("call register with wrong " ++ kind.name)))
  else
    match wrap ("db.New" ++ kind.name ++ " err = ") (lh.dbNew info) with
    | .error e => (lh, .error e)
    | .ok db =>
      if lh.dealingMapLock then ({ lh with db := db }, .error .blocked)
      else ({ lh with db := db, dealingMap := lh.dealingMap.put info }, .ok ())

/-- `getLockin` and `getLockout`: memory first. -/
def get (secretHash : Bytes32) : Except Failure ρ :=
  if lh.dealingMapLock then .error .blocked
  else
    match lh.dealingMap.lookup secretHash with
    | some info => .ok info
    | none => lh.dbGet secretHash

/-- The assignments to the fields of a record that `get` returned reach the record in memory. -/
def assign (info : ρ) : Handler kind :=
  match lh.dealingMap.lookup (kind.secretHash info) with
  | some _ => { lh with dealingMap := lh.dealingMap.put info }
  | none => lh

/-- `updateLockin` and `updateLockout`. After a database error the mutex is taken a second time. -/
def update (info : ρ) : Handler kind × Except Failure Unit :=
  if lh.dealingMapLock then (lh, .error .blocked)
  else
    match lh.dealingMap.lookup (kind.secretHash info) with
    | none => ({ lh with dealingMapLock := true }, .error (.panic "wrong code"))
    | some _ =>
      match lh.dbUpdate info with
      | .error _ => ({ lh with dealingMapLock := true }, .error .blocked)
      | .ok db =>
        let dealingMap :=
          if kind.isEnd info then lh.dealingMap.erase (kind.secretHash info) else lh.dealingMap.put info
        ({ lh with db := db, dealingMap := dealingMap }, .ok ())

variable {lh} {info : ρ}

/-- A record is found under its own secret hash. -/
theorem secretHash_of_get {h : Bytes32} (hg : lh.get h = .ok info) : kind.secretHash info = h := by
  unfold get dbGet at hg
  split at hg
  · cases hg
  split at hg
  · rename_i hl
    cases hg
    exact RecordMap.secretHash_of_lookup hl
  split at hg
  · cases hg
  split at hg
  · rename_i hl
    cases hg
    exact RecordMap.secretHash_of_lookup hl
  · cases hg

/-- A registration that succeeds puts a new record into the table and into memory. -/
theorem register_ok (h : (lh.register info).2 = .ok ()) :
    lh.db.lookup (kind.secretHash info) = none ∧
      (lh.register info).1.db.lookup (kind.secretHash info) = some info ∧
      (lh.register info).1.dealingMap.lookup (kind.secretHash info) = some info := by
  unfold register dbNew at h ⊢
  by_cases hreg : kind.registrable info = false ∨ kind.secretHash info = emptyHash
  · simp [hreg] at h
  rw [if_neg hreg] at h ⊢
  by_cases hf : lh.dbFails (kind.secretHash info) = true
  · simp [hf, wrap] at h
  cases hl : lh.db.lookup (kind.secretHash info) with
  | some _ => simp [hf, hl, wrap] at h
  | none =>
    simp only [hf, hl, wrap, Bool.false_eq_true, if_false] at h ⊢
    split at h <;> simp_all

/-- An update that succeeds puts the record into the table. -/
theorem update_db (h : (lh.update info).2 = .ok ()) :
    (lh.update info).1.db.lookup (kind.secretHash info) = some info := by
  unfold update dbUpdate at h ⊢
  by_cases hlock : lh.dealingMapLock = true
  · simp [hlock] at h
  cases hlook : lh.dealingMap.lookup (kind.secretHash info) with
  | none => simp [hlock, hlook] at h
  | some _ =>
    cases hget : lh.dbGet (kind.secretHash info) with
    | error _ => simp [hlock, hlook, hget] at h
    | ok _ => simp [hlock]

end Handler

/-- A lockin is registered with the user's lock alone. -/
def lockinKind : RecordKind LockinInfo where
  name := "LockinInfo"
  secretHash := LockinInfo.secretHash
  isEnd := LockinInfo.isEnd
  registrable l := decide (l.mcLockStatus = .lock ∧ l.scLockStatus = .none)

/-- A lockout is registered with the user's lock alone. -/
def lockoutKind : RecordKind LockoutInfo where
  name := "LockoutInfo"
  secretHash := LockoutInfo.secretHash
  isEnd := LockoutInfo.isEnd
  registrable l := decide (l.mcLockStatus = .none ∧ l.scLockStatus = .lock)

abbrev LockinHandler := Handler lockinKind

abbrev LockoutHandler := Handler lockoutKind

/-- The handler of a token starts with the records of its table. -/
def newLockinHandler (db : RecordMap lockinKind) (dbFails : Bytes32 → Bool) (scTokenAddress : Address) :
    LockinHandler where
  db := db
  dealingMap := db.filter fun l => decide (l.scTokenAddress = scTokenAddress)
  dbFails := dbFails

def LockinHandler.registerLockin (lh : LockinHandler) (lockinInfo : LockinInfo) :
    LockinHandler × Except Failure Unit := lh.register lockinInfo

def LockinHandler.getLockin (lh : LockinHandler) (secretHash : Bytes32) : Except Failure LockinInfo :=
  lh.get secretHash

def LockinHandler.updateLockin (lh : LockinHandler) (lockinInfo : LockinInfo) :
    LockinHandler × Except Failure Unit := (lh.assign lockinInfo).update lockinInfo

def LockoutHandler.registerLockout (lh : LockoutHandler) (lockoutInfo : LockoutInfo) :
    LockoutHandler × Except Failure Unit := lh.register lockoutInfo

def LockoutHandler.getLockout (lh : LockoutHandler) (secretHash : Bytes32) : Except Failure LockoutInfo :=
  lh.get secretHash

def LockoutHandler.updateLockout (lh : LockoutHandler) (lockoutInfo : LockoutInfo) :
    LockoutHandler × Except Failure Unit := (lh.assign lockoutInfo).update lockoutInfo

end DistributedNotary.Service
