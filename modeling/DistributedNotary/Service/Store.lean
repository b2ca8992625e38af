import DistributedNotary.Library.Transition
import DistributedNotary.Service.LockoutEvents
import DistributedNotary.Service.Upkeep

/-! The handlers of the lockins and of the lockouts as one store of records: its
calls, the outcomes of the database in each of them and the restarts between
them, and when memory holds exactly the records that are still open, as the
table has them. -/
namespace DistributedNotary.Service

open Library Contracts

/-- A new block of the main chain or of the side chain. -/
inductive BlockEvent where
  | mc (blockNumber : UInt64)
  | sc (blockNumber : UInt64)
  deriving DecidableEq

/-- The leg of a swap still holds money: it is locked, or its lock has run out and it is to be cancelled. -/
def LockStatus.isOpen : LockStatus → Bool
  | .lock | .expiration => true
  | .none | .unlock | .cancel => false

/-- What the two stores differ in beside the kind of their records. -/
structure Store {ρ : Type} (kind : RecordKind ρ) where
  scTokenAddress : ρ → Address
  isOpen : ρ → Bool
  expire : BlockEvent → ρ → Option ρ
  expiry : ∀ b, Handler.Expiry kind (expire b)
  scTokenAddress_expire : ∀ b r r', expire b r = some r' → scTokenAddress r' = scTokenAddress r
  isOpen_expire : ∀ b r r', expire b r = some r' → isOpen r' = true
  isOpen_registrable : ∀ r, kind.registrable r = true → isOpen r = true
  isOpen_isEnd : ∀ r, kind.isEnd r = true → isOpen r = false

section Kinds

def LockinInfo.isOpen (l : LockinInfo) : Bool := l.mcLockStatus.isOpen || l.scLockStatus.isOpen

def LockoutInfo.isOpen (l : LockoutInfo) : Bool := l.mcLockStatus.isOpen || l.scLockStatus.isOpen

/-- What a new block does to a lockin. -/
def LockinInfo.expire : BlockEvent → LockinInfo → Option LockinInfo
  | .mc n, l =>
    if l.mcLockStatus = .lock ∧ l.mcExpiration ≤ n then some { l with mcLockStatus := .expiration } else none
  | .sc n, l =>
    if l.scLockStatus = .lock ∧ l.scExpiration ≤ n then some { l with scLockStatus := .expiration } else none

/-- What a new block does to a lockout. -/
def LockoutInfo.expire : BlockEvent → LockoutInfo → Option LockoutInfo
  | .mc n, l =>
    if l.mcLockStatus = .lock ∧ l.mcExpiration ≤ n then some { l with mcLockStatus := .expiration } else none
  | .sc n, l =>
    if l.scLockStatus = .lock ∧ l.scExpiration ≤ n then some { l with scLockStatus := .expiration } else none

theorem isOpen_of_isEnd {mc sc : LockStatus} (h : isEnd mc sc = true) : (mc.isOpen || sc.isOpen) = false := by
  revert h
  cases mc <;> cases sc <;> decide

theorem LockinInfo.expiry (b : BlockEvent) : Handler.Expiry lockinKind (LockinInfo.expire b) := by
  cases b with
  | mc n => exact Handler.expiry_ite (fun _ => rfl) (by simp)
  | sc n => exact Handler.expiry_ite (fun _ => rfl) (by simp)

theorem LockoutInfo.expiry (b : BlockEvent) : Handler.Expiry lockoutKind (LockoutInfo.expire b) := by
  cases b with
  | mc n => exact Handler.expiry_ite (fun _ => rfl) (by simp)
  | sc n => exact Handler.expiry_ite (fun _ => rfl) (by simp)

/-- A lockin that expires changes one status, to one that is open. -/
theorem LockinInfo.expire_eq_some {b : BlockEvent} {l l' : LockinInfo} (h : l.expire b = some l') :
    l'.scTokenAddress = l.scTokenAddress ∧ l'.isOpen = true := by
  cases b with
  | mc n =>
    obtain ⟨-, h⟩ := Option.ite_none_right_eq_some.mp h
    cases h
    exact ⟨rfl, by simp [isOpen, LockStatus.isOpen]⟩
  | sc n =>
    obtain ⟨-, h⟩ := Option.ite_none_right_eq_some.mp h
    cases h
    exact ⟨rfl, by simp [isOpen, LockStatus.isOpen]⟩

theorem LockoutInfo.expire_eq_some {b : BlockEvent} {l l' : LockoutInfo} (h : l.expire b = some l') :
    l'.scTokenAddress = l.scTokenAddress ∧ l'.isOpen = true := by
  cases b with
  | mc n =>
    obtain ⟨-, h⟩ := Option.ite_none_right_eq_some.mp h
    cases h
    exact ⟨rfl, by simp [isOpen, LockStatus.isOpen]⟩
  | sc n =>
    obtain ⟨-, h⟩ := Option.ite_none_right_eq_some.mp h
    cases h
    exact ⟨rfl, by simp [isOpen, LockStatus.isOpen]⟩

theorem LockinInfo.isOpen_of_registrable (l : LockinInfo) (h : lockinKind.registrable l = true) : l.isOpen = true := by
  have hl : l.mcLockStatus = .lock ∧ l.scLockStatus = .none := of_decide_eq_true h
  simp [isOpen, hl, LockStatus.isOpen]

theorem LockoutInfo.isOpen_of_registrable (l : LockoutInfo) (h : lockoutKind.registrable l = true) :
    l.isOpen = true := by
  have hl : l.mcLockStatus = .none ∧ l.scLockStatus = .lock := of_decide_eq_true h
  simp [isOpen, hl, LockStatus.isOpen]

theorem LockinInfo.isOpen_of_isEnd (l : LockinInfo) (h : lockinKind.isEnd l = true) : l.isOpen = false :=
  Service.isOpen_of_isEnd h

theorem LockoutInfo.isOpen_of_isEnd (l : LockoutInfo) (h : lockoutKind.isEnd l = true) : l.isOpen = false :=
  Service.isOpen_of_isEnd h

theorem LockinInfo.scTokenAddress_expire (b : BlockEvent) (l l' : LockinInfo) (h : l.expire b = some l') :
    l'.scTokenAddress = l.scTokenAddress := (expire_eq_some h).1

theorem LockoutInfo.scTokenAddress_expire (b : BlockEvent) (l l' : LockoutInfo) (h : l.expire b = some l') :
    l'.scTokenAddress = l.scTokenAddress := (expire_eq_some h).1

theorem LockinInfo.isOpen_expire (b : BlockEvent) (l l' : LockinInfo) (h : l.expire b = some l') :
    l'.isOpen = true := (expire_eq_some h).2

theorem LockoutInfo.isOpen_expire (b : BlockEvent) (l l' : LockoutInfo) (h : l.expire b = some l') :
    l'.isOpen = true := (expire_eq_some h).2

def lockinStore : Store lockinKind where
  scTokenAddress := LockinInfo.scTokenAddress
  isOpen := LockinInfo.isOpen
  expire := LockinInfo.expire
  expiry := LockinInfo.expiry
  scTokenAddress_expire := LockinInfo.scTokenAddress_expire
  isOpen_expire := LockinInfo.isOpen_expire
  isOpen_registrable := LockinInfo.isOpen_of_registrable
  isOpen_isEnd := LockinInfo.isOpen_of_isEnd

def lockoutStore : Store lockoutKind where
  scTokenAddress := LockoutInfo.scTokenAddress
  isOpen := LockoutInfo.isOpen
  expire := LockoutInfo.expire
  expiry := LockoutInfo.expiry
  scTokenAddress_expire := LockoutInfo.scTokenAddress_expire
  isOpen_expire := LockoutInfo.isOpen_expire
  isOpen_registrable := LockoutInfo.isOpen_of_registrable
  isOpen_isEnd := LockoutInfo.isOpen_of_isEnd

end Kinds

/-- The call comes back with a result or an error: it neither panics nor waits for the mutex forever. -/
def Returns {α : Type} : Except Failure α → Prop
  | .ok _ => True
  | .error (.error _) => True
  | .error (.panic _) => False
  | .error .blocked => False

theorem Returns.error {α β : Type} {e : Failure} (h : Returns (.error e : Except Failure α)) :
    Returns (.error e : Except Failure β) := by
  cases e <;> exact h

variable {ρ : Type} {kind : RecordKind ρ}

/-- What the handler of an event does to the record of its swap, or the error of one of its checks. -/
structure Change (store : Store kind) where
  run : ρ → Except Failure ρ
  secretHash : ∀ r r', run r = .ok r' → kind.secretHash r' = kind.secretHash r
  scTokenAddress : ∀ r r', run r = .ok r' → store.scTokenAddress r' = store.scTokenAddress r
  returns : ∀ r, Returns (run r)

namespace Change

variable {store : Store kind}

/-- A check and a change that keeps the hash and the token. -/
def guarded (p : ρ → Prop) [DecidablePred p] (text : String) (f : ρ → ρ)
    (hkey : ∀ r, kind.secretHash (f r) = kind.secretHash r)
    (htoken : ∀ r, store.scTokenAddress (f r) = store.scTokenAddress r) : Change store where
  run r := do
    ensure (p r) (.error text)
    return f r
  secretHash r r' h := by
    by_cases hp : p r
    · rw [ensure_then hp] at h
      cases h
      exact hkey r
    · simp [ensure, hp, bind, Except.bind] at h
  scTokenAddress r r' h := by
    by_cases hp : p r
    · rw [ensure_then hp] at h
      cases h
      exact htoken r
    · simp [ensure, hp, bind, Except.bind] at h
  returns r := by
    by_cases hp : p r
    · rw [ensure_then hp]
      trivial
    · simp [ensure, hp, bind, Except.bind, Returns]

/-- A change without a check. -/
def plain (f : ρ → ρ) (hkey : ∀ r, kind.secretHash (f r) = kind.secretHash r)
    (htoken : ∀ r, store.scTokenAddress (f r) = store.scTokenAddress r) : Change store where
  run r := .ok (f r)
  secretHash r r' h := by
    cases h
    exact hkey r
  scTokenAddress r r' h := by
    cases h
    exact htoken r
  returns r := trivial

end Change

namespace Handler

variable (lh : Handler kind)

/-- An event looks its record up, checks and changes it and updates it. -/
def amend (secretHash : Bytes32) (change : ρ → Except Failure ρ) : Handler kind × Except Failure Unit :=
  match lh.get secretHash with
  | .error e => (lh, .error e)
  | .ok info =>
    match change info with
    | .error e => (lh, .error e)
    | .ok info => (lh.assign info).update info

/-- The scan of the records in memory on a new block. -/
def newBlock (expire : ρ → Option ρ) (order : List Bytes32) : Handler kind × Except Failure (List ρ) :=
  if lh.dealingMapLock then (lh, .error .blocked) else lh.expireAll expire order

end Handler

namespace Store

variable (store : Store kind) (token : Address)

/-- `newLockinHandler` and `newLockoutHandler`: all records of the token's table are loaded. -/
def newHandler (db : RecordMap kind) (dbFails : Bytes32 → Bool) : Handler kind where
  db := db
  dealingMap := db.filter fun r => decide (store.scTokenAddress r = token)
  dbFails := dbFails

/-- What is done with a handler, and a restart of the notary, which leaves the table. -/
inductive Op where
  | register (info : ρ) (htoken : store.scTokenAddress info = token)
  | update (secretHash : Bytes32) (change : Change store)
  | newBlock (b : BlockEvent) (order : List Bytes32)
  | restart

/-- An operation with the records at which its database calls fail. -/
structure Call where
  op : Op store token
  dbFails : Bytes32 → Bool

variable {store token}

/-- The handler with the outcomes of the database that await it. -/
def during (lh : Handler kind) (dbFails : Bytes32 → Bool) : Handler kind := { lh with dbFails := dbFails }

def perform (lh : Handler kind) : Op store token → Handler kind × Except Failure Unit
  | .register info _ => lh.register info
  | .update secretHash change => lh.amend secretHash change.run
  | .newBlock b order =>
    let r := lh.newBlock (store.expire b) order
    (r.1, r.2.map fun _ => ())
  | .restart => (store.newHandler token lh.db lh.dbFails, .ok ())

def step (lh : Handler kind) (c : Call store token) : Handler kind × Except Failure Unit :=
  perform (during lh c.dbFails) c.op

variable (store token)

/-- The mutex is free, and memory holds exactly the records of the token that are still open, as they were saved. -/
structure Consistent (lh : Handler kind) : Prop where
  free : lh.dealingMapLock = false
  mirrors : ∀ h r, lh.dealingMap.lookup h = some r ↔
    lh.db.lookup h = some r ∧ store.scTokenAddress r = token ∧ store.isOpen r = true

/-- The operation returns and leaves the store consistent. -/
def Keeps (lh : Handler kind) (c : Call store token) : Prop :=
  Returns (step lh c).2 ∧ Consistent store token (step lh c).1

/-- Every record of the token in the table is still open. -/
def AllOpen (db : RecordMap kind) : Prop :=
  ∀ h r, db.lookup h = some r → store.scTokenAddress r = token → store.isOpen r = true

variable {store token}

/-- What the source does not check of an operation: that an update saves a record which is in memory and is left
ended or open, that the scan saves all that expires, and that no ended record is there at a restart. -/
def Careful (lh : Handler kind) (c : Call store token) : Prop :=
  match c.op with
  | .register info _ => kind.registrable info = true ∧ kind.secretHash info ≠ emptyHash
  | .update h change =>
    (∀ r r', lh.dealingMap.lookup h = some r → change.run r = .ok r' →
      c.dbFails h = false ∧ (kind.isEnd r' = true ∨ store.isOpen r' = true)) ∧
    (∀ r r', lh.dealingMap.lookup h = none → lh.db.lookup h = some r → change.run r = .ok r' → c.dbFails h = true)
  | .newBlock b order =>
    ∀ h r r', h ∈ order → lh.dealingMap.lookup h = some r → store.expire b r = some r' → c.dbFails h = false
  | .restart => AllOpen store token lh.db

section Steps

variable {lh lh' : Handler kind} {info r : ρ} {h : Bytes32}

theorem consistent_during {dbFails : Bytes32 → Bool} :
    Consistent store token (during lh dbFails) ↔ Consistent store token lh :=
  ⟨fun hc => ⟨hc.free, hc.mirrors⟩, fun hc => ⟨hc.free, hc.mirrors⟩⟩

theorem returns_map {α β : Type} {f : α → β} {x : Except Failure α} : Returns (x.map f) ↔ Returns x := by
  rcases x with (_ | _ | _) | _ <;> rfl

/-- A loaded table is kept when no ended record is in it. -/
theorem consistent_newHandler {db : RecordMap kind} {dbFails : Bytes32 → Bool} :
    Consistent store token (store.newHandler token db dbFails) ↔ AllOpen store token db := by
  constructor
  · intro hc h r hr ht
    have hmem : (store.newHandler token db dbFails).dealingMap.lookup h = some r :=
      RecordMap.lookup_filter_eq_some.mpr ⟨hr, by simpa using ht⟩
    exact ((hc.mirrors h r).mp hmem).2.2
  · intro hopen
    refine ⟨rfl, fun h r => ?_⟩
    refine RecordMap.lookup_filter_eq_some.trans ?_
    constructor
    · rintro ⟨hr, ht⟩
      have ht' : store.scTokenAddress r = token := of_decide_eq_true ht
      exact ⟨hr, ht', hopen h r hr ht'⟩
    · rintro ⟨hr, ht, -⟩
      exact ⟨hr, by simpa using ht⟩

/-- One record is saved, and it is in memory afterwards exactly if it is open. -/
theorem Consistent.of_lookup (hc : Consistent store token lh) (hfree : lh'.dealingMapLock = false)
    (hdb : ∀ h, lh'.db.lookup h = if h = kind.secretHash info then some info else lh.db.lookup h)
    (hdeal : ∀ h, lh'.dealingMap.lookup h =
      if h = kind.secretHash info then (if store.isOpen info then some info else none) else lh.dealingMap.lookup h)
    (htoken : store.scTokenAddress info = token) : Consistent store token lh' := by
  refine ⟨hfree, fun h r => ?_⟩
  rw [hdb, hdeal]
  by_cases hk : h = kind.secretHash info
  · rw [if_pos hk, if_pos hk]
    cases hopen : store.isOpen info with
    | true =>
      constructor
      · intro hr
        cases hr
        exact ⟨rfl, htoken, hopen⟩
      · exact fun hr => hr.1
    | false =>
      constructor
      · intro hr
        cases hr
      · rintro ⟨hr, -, hr'⟩
        cases hr
        rw [hopen] at hr'
        cases hr'
  · rw [if_neg hk, if_neg hk]
    exact hc.mirrors h r

theorem register_keeps (hc : Consistent store token lh) (htoken : store.scTokenAddress info = token) :
    Returns (lh.register info).2 ∧ Consistent store token (lh.register info).1 ↔
      kind.registrable info = true ∧ kind.secretHash info ≠ emptyHash := by
  by_cases hbad : kind.registrable info = false ∨ kind.secretHash info = emptyHash
  · have hr : lh.register info = (lh, .error (.panic ("call register with wrong " ++ kind.name))) := if_pos hbad
    rw [hr]
    constructor
    · exact fun hk => absurd hk.1 id
    · rintro ⟨h1, h2⟩
      simp [h1, h2] at hbad
  · obtain ⟨hreg, hne⟩ := not_or.mp hbad
    refine iff_of_true ?_ ⟨by simpa using hreg, hne⟩
    unfold Handler.register Handler.dbNew
    rw [if_neg hbad]
    by_cases hf : lh.dbFails (kind.secretHash info) = true
    · simp [hf, wrap, Returns, hc]
    cases hl : lh.db.lookup (kind.secretHash info) with
    | some _ => simp [hf, wrap, Returns, hc]
    | none =>
      simp only [hf, wrap, hc.free, Bool.false_eq_true, if_false]
      have hopen : store.isOpen info = true := store.isOpen_registrable info (by simpa using hreg)
      refine ⟨trivial, hc.of_lookup rfl (fun h => RecordMap.lookup_put _ _ _) (fun h => ?_) htoken⟩
      rw [hopen, if_pos rfl]
      exact RecordMap.lookup_put _ _ _

/-- An update that the database accepts keeps the store consistent if it leaves the record ended or open. -/
theorem update_keeps (hc : Consistent store token lh) (hd : lh.dealingMap.lookup (kind.secretHash info) = some r)
    (htoken : store.scTokenAddress info = token) (hw : lh.dbFails (kind.secretHash info) = false) :
    Returns ((lh.assign info).update info).2 ∧ Consistent store token ((lh.assign info).update info).1 ↔
      kind.isEnd info = true ∨ store.isOpen info = true := by
  have hg : lh.dbGet (kind.secretHash info) = .ok r := by simp [Handler.dbGet, hw, ((hc.mirrors _ r).mp hd).1]
  rw [Handler.update_eq hc.free hd hg]
  constructor
  · rintro ⟨-, hc'⟩
    cases hend : kind.isEnd info with
    | true => exact .inl rfl
    | false =>
      refine .inr ((hc'.mirrors (kind.secretHash info) info).mp ?_).2.2
      exact Handler.lookup_update.trans (by simp [hend])
  · intro hk
    refine ⟨trivial, hc.of_lookup ?_ (fun h => RecordMap.lookup_put _ _ _) (fun h => ?_) htoken⟩
    · simpa using hc.free
    · refine Handler.lookup_update.trans ?_
      rcases hk with hend | hopen
      · rw [hend, store.isOpen_isEnd info hend]
        rfl
      · have hend : kind.isEnd info = false := by
          by_contra hend
          rw [store.isOpen_isEnd info (by simpa using hend)] at hopen
          cases hopen
        rw [hend, hopen]
        rfl

/-- The record that an event finds in memory is updated. -/
theorem amend_dealing (hc : Consistent store token lh) (change : Change store)
    (hd : lh.dealingMap.lookup h = some r) :
    Returns (lh.amend h change.run).2 ∧ Consistent store token (lh.amend h change.run).1 ↔
      ∀ r', change.run r = .ok r' → lh.dbFails h = false ∧ (kind.isEnd r' = true ∨ store.isOpen r' = true) := by
  have hget : lh.get h = .ok r := by simp [Handler.get, hc.free, hd]
  unfold Handler.amend
  rw [hget]
  dsimp only
  cases hrun : change.run r with
  | error e =>
    have hret := change.returns r
    rw [hrun] at hret
    exact iff_of_true ⟨hret.error, hc⟩ (by simp)
  | ok info =>
    have hkey : kind.secretHash info = h :=
      (change.secretHash r info hrun).trans (RecordMap.secretHash_of_lookup hd)
    subst hkey
    dsimp only
    by_cases hf : lh.dbFails (kind.secretHash info) = true
    · rw [Handler.update_refused hc.free hd hf]
      exact iff_of_false (fun hk => hk.1) (fun hk => by simpa [hf] using (hk info rfl).1)
    · have hw : lh.dbFails (kind.secretHash info) = false := by simpa using hf
      have htoken : store.scTokenAddress info = token :=
        (change.scTokenAddress r info hrun).trans ((hc.mirrors _ r).mp hd).2.1
      rw [update_keeps hc hd htoken hw]
      constructor
      · intro hk r' hr'
        cases hr'
        exact ⟨hw, hk⟩
      · exact fun hk => (hk info rfl).2

/-- The record that an event finds in the table alone cannot be updated. -/
theorem amend_idle (hc : Consistent store token lh) (change : Change store) (hd : lh.dealingMap.lookup h = none) :
    Returns (lh.amend h change.run).2 ∧ Consistent store token (lh.amend h change.run).1 ↔
      ∀ r r', lh.db.lookup h = some r → change.run r = .ok r' → lh.dbFails h = true := by
  have hget : lh.get h = lh.dbGet h := by simp [Handler.get, hc.free, hd]
  unfold Handler.amend
  rw [hget]
  unfold Handler.dbGet
  by_cases hf : lh.dbFails h = true
  · rw [if_pos hf]
    exact iff_of_true ⟨trivial, hc⟩ fun _ _ _ _ => hf
  rw [if_neg hf]
  cases hdb : lh.db.lookup h with
  | none => exact iff_of_true ⟨trivial, hc⟩ (by simp)
  | some r =>
    dsimp only
    cases hrun : change.run r with
    | error e =>
      have hret := change.returns r
      rw [hrun] at hret
      refine iff_of_true ⟨hret.error, hc⟩ fun r r' hr hr' => ?_
      cases hr
      rw [hrun] at hr'
      cases hr'
    | ok info =>
      have hkey : kind.secretHash info = h :=
        (change.secretHash r info hrun).trans (RecordMap.secretHash_of_lookup hdb)
      subst hkey
      dsimp only
      rw [Handler.update_late hc.free hd]
      exact iff_of_false (fun hk => hk.1) fun hk => hf (hk r info rfl hrun)

theorem amend_keeps (hc : Consistent store token lh) (change : Change store) :
    Returns (lh.amend h change.run).2 ∧ Consistent store token (lh.amend h change.run).1 ↔
      (∀ r r', lh.dealingMap.lookup h = some r → change.run r = .ok r' →
        lh.dbFails h = false ∧ (kind.isEnd r' = true ∨ store.isOpen r' = true)) ∧
      (∀ r r', lh.dealingMap.lookup h = none → lh.db.lookup h = some r → change.run r = .ok r' →
        lh.dbFails h = true) := by
  cases hd : lh.dealingMap.lookup h with
  | some r =>
    rw [amend_dealing hc change hd]
    constructor
    · intro hk
      refine ⟨fun r₁ r' hr => ?_, by simp⟩
      cases hr
      exact hk r'
    · exact fun hk r' => hk.1 r r' rfl
  | none => simp [amend_idle hc change hd]

/-- The scan has written one record down. -/
theorem Consistent.expired {b : BlockEvent} (hc : Consistent store token lh) (hd : lh.dealingMap.lookup h = some r)
    (he : store.expire b r = some info) :
    Consistent store token { lh.assign info with db := lh.db.put info } := by
  obtain ⟨-, htoken, -⟩ := (hc.mirrors h r).mp hd
  have hkey : kind.secretHash info = h := (store.expiry b r info he).1.trans (RecordMap.secretHash_of_lookup hd)
  subst hkey
  refine hc.of_lookup ?_ (fun h => RecordMap.lookup_put lh.db info h) (fun k => ?_) ?_
  · simpa using hc.free
  · rw [store.isOpen_expire b r info he, if_pos rfl]
    refine Handler.assign_dealing.trans ?_
    by_cases hk : k = kind.secretHash info
    · subst hk
      simp [hd]
    · rw [if_neg hk, if_neg (fun hc => hk hc.1)]
  · exact (store.scTokenAddress_expire b r info he).trans htoken

/-- A record that the scan has marked and not saved is not what the table has. -/
theorem not_consistent_assign {b : BlockEvent} (hc : Consistent store token lh)
    (hd : lh.dealingMap.lookup h = some r) (he : store.expire b r = some info) :
    ¬ Consistent store token (lh.assign info) := by
  intro hc'
  have hkey : kind.secretHash info = h := (store.expiry b r info he).1.trans (RecordMap.secretHash_of_lookup hd)
  subst hkey
  have hd' : (lh.assign info).dealingMap.lookup (kind.secretHash info) = some info := by
    rw [Handler.assign_dealing, hd]
    exact if_pos ⟨rfl, rfl⟩
  have hdb := ((hc'.mirrors _ _).mp hd').1
  rw [Handler.assign_db, ((hc.mirrors _ _).mp hd).1] at hdb
  cases hdb
  exact absurd he (by simp [(store.expiry b info info he).2])

/-- The scan saves what expires in it, up to the first failure. -/
theorem expireAll_keeps (b : BlockEvent) (order : List Bytes32) (hc : Consistent store token lh) :
    Returns (lh.expireAll (store.expire b) order).2 ∧
      (Consistent store token (lh.expireAll (store.expire b) order).1 ↔
        ∀ h r r', h ∈ order → lh.dealingMap.lookup h = some r → store.expire b r = some r' →
          lh.dbFails h = false) := by
  induction order generalizing lh with
  | nil => exact ⟨trivial, iff_of_true hc (by simp)⟩
  | cons h order ih =>
    cases hi : (lh.dealingMap.lookup h).bind (store.expire b) with
    | none =>
      rw [Handler.expireAll_pass hi]
      obtain ⟨hret, hiff⟩ := ih hc
      refine ⟨hret, hiff.trans ⟨fun hk k r r' hm hd he => ?_, fun hk k r r' hm => hk k r r' (.tail h hm)⟩⟩
      rcases List.mem_cons.mp hm with rfl | hm
      · rw [hd, Option.bind_some, he] at hi
        cases hi
      · exact hk k r r' hm hd he
    | some info =>
      obtain ⟨r, hd, he⟩ := Option.bind_eq_some_iff.mp hi
      have hkey : kind.secretHash info = h := (store.expiry b r info he).1.trans (RecordMap.secretHash_of_lookup hd)
      by_cases hf : lh.dbFails h = true
      · obtain ⟨text, hrun⟩ := Handler.expireAll_refused hi hkey hf
        rw [hrun]
        refine ⟨trivial, iff_of_false (not_consistent_assign hc hd he) fun hk => ?_⟩
        have hw := hk h r info (.head order) hd he
        rw [hf] at hw
        cases hw
      · have hw : lh.dbFails h = false := by simpa using hf
        rw [Handler.expireAll_saved hi hkey hw ((hc.mirrors h r).mp hd).1]
        obtain ⟨hret, hiff⟩ := ih (hc.expired hd he)
        refine ⟨returns_map.mpr hret, hiff.trans ?_⟩
        have hsame {k : Bytes32} (hk : k ≠ h) : (lh.assign info).dealingMap.lookup k = lh.dealingMap.lookup k :=
          Handler.assign_dealing.trans (if_neg fun hc => hk (hc.1.trans hkey))
        have hfails (k : Bytes32) : (lh.assign info).dbFails k = lh.dbFails k := congrFun Handler.assign_dbFails k
        constructor
        · intro hk k r₁ r' hm hd₁ he₁
          by_cases hkh : k = h
          · rw [hkh]
            exact hw
          · have hm' : k ∈ order := (List.mem_cons.mp hm).resolve_left hkh
            exact (hfails k).symm.trans (hk k r₁ r' hm' ((hsame hkh).trans hd₁) he₁)
        · intro hk k r₁ r' hm hd₁ he₁
          refine (hfails k).trans ?_
          by_cases hkh : k = h
          · rw [hkh]
            exact hw
          · exact hk k r₁ r' (.tail h hm) ((hsame hkh).symm.trans hd₁) he₁

/-- From a consistent store an operation returns and leaves it consistent exactly when it is careful. -/
theorem keeps_iff (hc : Consistent store token lh) (c : Call store token) : Keeps store token lh c ↔ Careful lh c := by
  have hc' : Consistent store token (during lh c.dbFails) := consistent_during.mpr hc
  obtain ⟨op, dbFails⟩ := c
  cases op with
  | register info htoken => exact register_keeps hc' htoken
  | update h change => exact amend_keeps hc' change
  | newBlock b order =>
    obtain ⟨hret, hiff⟩ := expireAll_keeps b order hc'
    have hrun : (during lh dbFails).newBlock (store.expire b) order =
        (during lh dbFails).expireAll (store.expire b) order := if_neg (by simp [hc'.free])
    unfold Keeps step perform
    dsimp only
    rw [hrun]
    exact ⟨fun hk => hiff.mp hk.2, fun hk => ⟨returns_map.mpr hret, hiff.mpr hk⟩⟩
  | restart => exact ⟨fun hk => consistent_newHandler.mp hk.2, fun hk => ⟨trivial, consistent_newHandler.mpr hk⟩⟩

end Steps

section Runs

variable (store token)

/-- A notary that starts with the table `db` is consistent, and so it is after each of the calls, which all return. -/
def Kept (db : RecordMap kind) (calls : List (Call store token)) : Prop :=
  Consistent store token (store.newHandler token db fun _ => false) ∧
    Along (fun lh c => (step lh c).1) (Keeps store token) (store.newHandler token db fun _ => false) calls

/-- The start and each of the calls are careful. -/
def AllCareful (db : RecordMap kind) (calls : List (Call store token)) : Prop :=
  AllOpen store token db ∧
    Along (fun lh c => (step lh c).1) Careful (store.newHandler token db fun _ => false) calls

theorem kept_iff (db : RecordMap kind) (calls : List (Call store token)) :
    Kept store token db calls ↔ AllCareful store token db calls := by
  unfold Kept AllCareful
  rw [consistent_newHandler]
  refine and_congr_right fun hopen => ?_
  exact along_iff (Consistent store token) (fun lh c hc => keeps_iff hc c) (fun lh c _ hk => hk.2)
    (consistent_newHandler.mpr hopen) calls

end Runs

end Store

section Claim

/-- From any table, every operation of a run returns and leaves memory a mirror of the open records of the table
exactly when all operations of the run are careful. -/
theorem stores_kept_iff (token : Address) (lockins : RecordMap lockinKind) (lockouts : RecordMap lockoutKind)
    (lockinCalls : List (Store.Call lockinStore token)) (lockoutCalls : List (Store.Call lockoutStore token)) :
    (Store.Kept lockinStore token lockins lockinCalls ↔ Store.AllCareful lockinStore token lockins lockinCalls) ∧
      (Store.Kept lockoutStore token lockouts lockoutCalls ↔
        Store.AllCareful lockoutStore token lockouts lockoutCalls) :=
  ⟨Store.kept_iff lockinStore token lockins lockinCalls, Store.kept_iff lockoutStore token lockouts lockoutCalls⟩

def lockin1 : LockinInfo where
  mcChainName := .ethereum
  secretHash := 1
  secret := emptyHash
  mcUserAddressHex := .account 5
  scUserAddress := 5
  scTokenAddress := 7
  amount := 100
  mcExpiration := 60
  scExpiration := 20
  mcLockStatus := .lock
  scLockStatus := .none
  notaryIDInCharge := 0
  startTime := 0
  startMCBlockNumber := 1
  crossFee := 0

def lockout1 : LockoutInfo where
  mcChainName := .ethereum
  secretHash := 1
  secret := emptyHash
  mcUserAddressHex := .empty
  scUserAddress := 5
  scTokenAddress := 7
  amount := 100
  mcExpiration := 20
  scExpiration := 60
  mcLockStatus := .none
  scLockStatus := .lock
  notaryIDInCharge := 0
  startTime := 0
  startSCBlockNumber := 1
  crossFee := 0

def works (op : Store.Op lockinStore 7) : Store.Call lockinStore 7 := ⟨op, fun _ => false⟩

def fails (op : Store.Op lockinStore 7) : Store.Call lockinStore 7 := ⟨op, fun _ => true⟩

/-- The notaries lock on the side chain. -/
def locked : Change lockinStore := .plain (fun l => { l with scLockStatus := .lock }) (fun _ => rfl) fun _ => rfl

/-- The user takes the main chain lock back. -/
def cancelled : Change lockinStore := .plain (fun l => { l with mcLockStatus := .cancel }) (fun _ => rfl) fun _ => rfl

def scCancelled : Change lockoutStore :=
  .plain (fun l => { l with scLockStatus := .cancel }) (fun _ => rfl) fun _ => rfl

/-- An update or a scan that the database fails, an event after the end, a restart after the end, and a lockout that
its user takes back before the notaries have answered. -/
theorem stores_not_kept :
    ¬ Store.Kept lockinStore 7 {} [works (.register lockin1 rfl), fails (.update 1 locked)] ∧
    ¬ Store.Kept lockinStore 7 {} [works (.register lockin1 rfl), fails (.newBlock (.mc 60) [1])] ∧
    ¬ Store.Kept lockinStore 7 {}
      [works (.register lockin1 rfl), works (.update 1 cancelled), works (.update 1 locked)] ∧
    ¬ Store.Kept lockinStore 7 {} [works (.register lockin1 rfl), works (.update 1 cancelled), works .restart] ∧
    ¬ Store.Kept lockoutStore 7 {}
      [⟨.register lockout1 rfl, fun _ => false⟩, ⟨.update 1 scCancelled, fun _ => false⟩] := by
  refine ⟨fun hk => ?_, fun hk => ?_, fun hk => ?_, fun hk => ?_, fun hk => ?_⟩
  · exact hk.2.2.1.1
  · have h := (hk.2.2.1.2.mirrors 1 { lockin1 with mcLockStatus := .expiration }).mp rfl
    cases h.1
  · exact hk.2.2.2.1.1
  · have h := (hk.2.2.2.1.2.mirrors 1 { lockin1 with mcLockStatus := .cancel }).mp rfl
    cases h.2.2
  · have h := (hk.2.2.1.2.mirrors 1 { lockout1 with scLockStatus := .cancel }).mp rfl
    cases h.2.2

end Claim

end DistributedNotary.Service
