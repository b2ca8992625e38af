import DistributedNotary.Library.Transition
import DistributedNotary.Service.Scans
import DistributedNotary.Service.Timelock

/-! Runs of new blocks of both chains, and which locks they hand over for
cancellation. A block scans the lockins first and the lockouts only if that has
succeeded; the record at which a scan fails is marked already and is never found
again, and what was found before it is dropped. -/
namespace DistributedNotary.Service

open Library Contracts

/-- The order in which one loop over a map meets its keys. -/
structure Iteration where
  keys : List Bytes32 → List Bytes32
  perm : ∀ l, (keys l).Perm l

/-- A new block, the order of the loops that it starts, and the records that the database refuses meanwhile. -/
structure NewBlock where
  event : BlockEvent
  lockinOrder : Iteration
  lockoutOrder : Iteration
  lockinDbFails : Bytes32 → Bool
  lockoutDbFails : Bytes32 → Bool

namespace CrossChainService

variable (cs : CrossChainService)

/-- `onMCNewBlockEvent` up to the calls of the contract: the lockouts that it goes on to cancel and its error. -/
def onMCNewBlock (blockNumber : UInt64) (lockinOrder lockoutOrder : List Bytes32) :
    CrossChainService × List LockoutInfo × Except Failure Unit :=
  let r := cs.onMCNewBlockEvent blockNumber lockinOrder
  match r.2 with
  | .error e => (r.1, [], .error e)
  | .ok _ =>
    let q := r.1.lockoutHandler.onMCNewBlockEvent blockNumber lockoutOrder
    let cs := { r.1 with lockoutHandler := q.1 }
    match q.2 with
    | .error e => (cs, [], .error e)
    | .ok lockoutListNeedCancel => (cs, lockoutListNeedCancel, .ok ())

/-- `onSCNewBlockEvent` but for the calls of the contract: the lockins that it goes on to cancel and its error. -/
def onSCNewBlock (blockNumber : UInt64) (lockinOrder lockoutOrder : List Bytes32) :
    CrossChainService × List LockinInfo × Except Failure Unit :=
  let r := cs.onSCNewBlockEvent blockNumber lockinOrder
  match r.2 with
  | .error e => (r.1, [], .error e)
  | .ok lockinListNeedCancel =>
    let q := r.1.lockoutHandler.onSCNewBlockEvent blockNumber lockoutOrder
    ({ r.1 with lockoutHandler := q.1 }, lockinListNeedCancel, q.2.map fun _ => ())

/-- The service while the block is handled. -/
def during (b : NewBlock) : CrossChainService :=
  { cs with
    lockinHandler := Store.during cs.lockinHandler b.lockinDbFails
    lockoutHandler := Store.during cs.lockoutHandler b.lockoutDbFails }

def lockinOrder (b : NewBlock) : List Bytes32 := b.lockinOrder.keys cs.lockinHandler.dealingMap.entries.keys

def lockoutOrder (b : NewBlock) : List Bytes32 := b.lockoutOrder.keys cs.lockoutHandler.dealingMap.entries.keys

/-- The block is handled; beside the service, the lockins and the lockouts that were handed over for cancellation. -/
def onNewBlock (b : NewBlock) : CrossChainService × List LockinInfo × List LockoutInfo :=
  match b.event with
  | .mc n =>
    let r := (cs.during b).onMCNewBlock n (cs.lockinOrder b) (cs.lockoutOrder b)
    (r.1, [], r.2.1)
  | .sc n =>
    let r := (cs.during b).onSCNewBlock n (cs.lockinOrder b) (cs.lockoutOrder b)
    (r.1, r.2.1, [])

/-- The service on a start, with the records of its token from both tables. -/
def started (lockins : RecordMap lockinKind) (lockouts : RecordMap lockoutKind) : CrossChainService :=
  { cs with
    lockinHandler := newLockinHandler lockins (fun _ => false) cs.scToken
    lockoutHandler := lockoutStore.newHandler cs.scToken lockouts fun _ => false }

/-- The blocks of a run, each with the service before it. -/
def history (bs : List NewBlock) : List (CrossChainService × NewBlock) :=
  trace (fun cs b => (onNewBlock cs b).1) cs bs

/-- The lockins handed over in a run. -/
def lockinsHanded (bs : List NewBlock) : List Bytes32 :=
  (cs.history bs).flatMap fun p => (p.1.onNewBlock p.2).2.1.map LockinInfo.secretHash

/-- The lockouts handed over in a run. -/
def lockoutsHanded (bs : List NewBlock) : List Bytes32 :=
  (cs.history bs).flatMap fun p => (p.1.onNewBlock p.2).2.2.map LockoutInfo.secretHash

/-- Each lockin whose side chain lock stands is handed over once if a block reaches its end, and else not at all. -/
def LockinsOnce (bs : List NewBlock) : Prop :=
  ∀ h l, cs.lockinHandler.dealingMap.lookup h = some l → l.scLockStatus = .lock →
    ((∃ b ∈ bs, ∃ n, b.event = .sc n ∧ l.scExpiration ≤ n) → (cs.lockinsHanded bs).count h = 1) ∧
    ((¬ ∃ b ∈ bs, ∃ n, b.event = .sc n ∧ l.scExpiration ≤ n) → (cs.lockinsHanded bs).count h = 0)

/-- The same for the lockouts whose main chain lock stands. -/
def LockoutsOnce (bs : List NewBlock) : Prop :=
  ∀ h l, cs.lockoutHandler.dealingMap.lookup h = some l → l.mcLockStatus = .lock →
    ((∃ b ∈ bs, ∃ n, b.event = .mc n ∧ l.mcExpiration ≤ n) → (cs.lockoutsHanded bs).count h = 1) ∧
    ((¬ ∃ b ∈ bs, ∃ n, b.event = .mc n ∧ l.mcExpiration ≤ n) → (cs.lockoutsHanded bs).count h = 0)

/-- On every side chain block the database accepts all lockins whose lock runs out on that chain. -/
def LockinsSaved (bs : List NewBlock) : Prop :=
  ∀ p ∈ cs.history bs, ∀ n, p.2.event = .sc n → lockinSCLeg.Saves (p.1.during p.2).lockinHandler n

/-- On every main chain block that gets to the lockouts the database accepts all of them whose lock runs out. -/
def LockoutsSaved (bs : List NewBlock) : Prop :=
  ∀ p ∈ cs.history bs, ∀ n, p.2.event = .mc n → lockinMCLeg.Saves (p.1.during p.2).lockinHandler n →
    lockoutMCLeg.Saves (p.1.during p.2).lockoutHandler n

/-- A lockout whose end is reached is reached by a block that no lockin stops before it gets to the lockouts. -/
def LockoutsScanned (bs : List NewBlock) : Prop :=
  ∀ h l, cs.lockoutHandler.dealingMap.lookup h = some l → l.mcLockStatus = .lock →
    (∃ b ∈ bs, ∃ n, b.event = .mc n ∧ l.mcExpiration ≤ n) →
    ∃ p ∈ cs.history bs, ∃ n, p.2.event = .mc n ∧ l.mcExpiration ≤ n ∧
      lockinMCLeg.Saves (p.1.during p.2).lockinHandler n

section Blocks

open Deadlines

/-- Both handlers are ready for a scan. -/
structure Loaded : Prop where
  lockins : Handler.Ready cs.lockinHandler
  lockouts : Handler.Ready cs.lockoutHandler

def scanLockins (b : NewBlock) : LockinHandler × Except Failure (List LockinInfo) :=
  Handler.expireAll (lockinStore.expire b.event) (cs.during b).lockinHandler (cs.lockinOrder b)

def scanLockouts (b : NewBlock) : LockoutHandler × Except Failure (List LockoutInfo) :=
  Handler.expireAll (lockoutStore.expire b.event) (cs.during b).lockoutHandler (cs.lockoutOrder b)

/-- What a block is for the locks of the lockins on the side chain. -/
def lockinResult (p : CrossChainService × NewBlock) : Outcome Bytes32 UInt64 :=
  match p.2.event with
  | .mc _ => .idle
  | .sc n => LockLeg.outcome lockinKind n (p.1.scanLockins p.2).2

/-- What a block is for the locks of the lockouts on the main chain. -/
def lockoutResult (p : CrossChainService × NewBlock) : Outcome Bytes32 UInt64 :=
  match p.2.event with
  | .sc _ => .idle
  | .mc n =>
    match (p.1.scanLockins p.2).2 with
    | .error _ => .skipped n
    | .ok _ => LockLeg.outcome lockoutKind n (p.1.scanLockouts p.2).2

variable {cs} {b : NewBlock} {bs : List NewBlock} {n : UInt64}

theorem loaded_started {lockins : RecordMap lockinKind} {lockouts : RecordMap lockoutKind} :
    (cs.started lockins lockouts).Loaded := by
  refine ⟨⟨rfl, fun h r hr => ?_⟩, ⟨rfl, fun h r hr => ?_⟩⟩
  · exact Option.isSome_of_eq_some (RecordMap.lookup_filter_eq_some.mp hr).1
  · exact Option.isSome_of_eq_some (RecordMap.lookup_filter_eq_some.mp hr).1

theorem Loaded.during (hr : cs.Loaded) : (cs.during b).Loaded :=
  ⟨⟨hr.lockins.free, hr.lockins.stored⟩, ⟨hr.lockouts.free, hr.lockouts.stored⟩⟩

theorem perm_lockins : (cs.lockinOrder b).Perm (cs.during b).lockinHandler.dealingMap.entries.keys :=
  b.lockinOrder.perm _

theorem perm_lockouts : (cs.lockoutOrder b).Perm (cs.during b).lockoutHandler.dealingMap.entries.keys :=
  b.lockoutOrder.perm _

theorem scans_lockins (hr : cs.Loaded) : Handler.Scans (lockinStore.expire b.event) (cs.lockinOrder b)
    (cs.during b).lockinHandler (cs.scanLockins b) :=
  Handler.expireAll_scans (lockinStore.expiry b.event) hr.during.lockins (LockLeg.nodup_order perm_lockins)

theorem scans_lockouts (hr : cs.Loaded) : Handler.Scans (lockoutStore.expire b.event) (cs.lockoutOrder b)
    (cs.during b).lockoutHandler (cs.scanLockouts b) :=
  Handler.expireAll_scans (lockoutStore.expiry b.event) hr.during.lockouts (LockLeg.nodup_order perm_lockouts)

theorem newBlock_lockins (hr : cs.Loaded) : Handler.newBlock (cs.during b).lockinHandler (lockinStore.expire b.event)
    (cs.lockinOrder b) = cs.scanLockins b := if_neg (by simp [hr.during.lockins.free])

theorem newBlock_lockouts (hr : cs.Loaded) : Handler.newBlock (cs.during b).lockoutHandler
    (lockoutStore.expire b.event) (cs.lockoutOrder b) = cs.scanLockouts b := if_neg (by simp [hr.during.lockouts.free])

/-- A block is the scan of the lockins and, where that succeeds, the scan of the lockouts. -/
theorem onNewBlock_spec (hr : cs.Loaded) :
    (cs.onNewBlock b).1.lockinHandler = (cs.scanLockins b).1 ∧
      (cs.onNewBlock b).2.1.map LockinInfo.secretHash = (lockinResult (cs, b)).handed ∧
      (cs.onNewBlock b).2.2.map LockoutInfo.secretHash = (lockoutResult (cs, b)).handed ∧
      (cs.onNewBlock b).1.lockoutHandler =
        match (cs.scanLockins b).2 with
        | .error _ => (cs.during b).lockoutHandler
        | .ok _ => (cs.scanLockouts b).1 := by
  have hins := newBlock_lockins (b := b) hr
  have houts := newBlock_lockouts (b := b) hr
  unfold onNewBlock lockinResult lockoutResult
  cases hb : b.event with
  | mc n =>
    rw [hb, ← LockinHandler.onMCNewBlockEvent_eq] at hins
    rw [hb] at houts
    dsimp only
    unfold onMCNewBlock onMCNewBlockEvent
    dsimp only
    rw [hins]
    cases (cs.scanLockins b).2 with
    | error e => exact ⟨rfl, rfl, rfl, rfl⟩
    | ok rs =>
      dsimp only
      rw [LockoutHandler.onMCNewBlockEvent_eq, houts]
      cases (cs.scanLockouts b).2 with
      | error e => exact ⟨rfl, rfl, rfl, rfl⟩
      | ok rs => exact ⟨rfl, rfl, rfl, rfl⟩
  | sc n =>
    rw [hb, ← LockinHandler.onSCNewBlockEvent_eq] at hins
    rw [hb] at houts
    dsimp only
    unfold onSCNewBlock onSCNewBlockEvent
    dsimp only
    rw [hins]
    cases (cs.scanLockins b).2 with
    | error e => exact ⟨rfl, rfl, rfl, rfl⟩
    | ok rs =>
      dsimp only
      rw [LockoutHandler.onSCNewBlockEvent_eq, houts]
      exact ⟨rfl, rfl, rfl, rfl⟩

theorem Loaded.next (hr : cs.Loaded) : (cs.onNewBlock b).1.Loaded := by
  obtain ⟨hins, -, -, houts⟩ := onNewBlock_spec (b := b) hr
  refine ⟨?_, ?_⟩
  · rw [hins]
    exact (scans_lockins hr).1
  · rw [houts]
    cases (cs.scanLockins b).2 with
    | error e => exact hr.during.lockouts
    | ok rs => exact (scans_lockouts hr).1

/-- A block is a step of the deadlines of the lockins. -/
theorem lockin_step (hr : cs.Loaded) : Step (lockinSCLeg.deadlines cs.lockinHandler)
    (lockinSCLeg.deadlines (cs.onNewBlock b).1.lockinHandler) (lockinResult (cs, b)) := by
  rw [(onNewBlock_spec hr).1]
  have hs := scans_lockins (b := b) hr
  unfold lockinResult
  cases hb : b.event with
  | mc n =>
    rw [hb] at hs
    refine .idle fun k => congrFun (lockinSCLeg.deadlines_of_scan (fun r r' he => ?_) hs) k
    obtain ⟨-, he⟩ := Option.ite_none_right_eq_some.mp he
    cases he
    rfl
  | sc n =>
    rw [hb] at hs
    have hstep : Step (lockinSCLeg.deadlines (cs.during b).lockinHandler) (lockinSCLeg.deadlines (cs.scanLockins b).1)
        (LockLeg.outcome lockinKind n (cs.scanLockins b).2) := lockinSCLeg.step_of_scan perm_lockins hs
    exact hstep

/-- A block is a step of the deadlines of the lockouts. -/
theorem lockout_step (hr : cs.Loaded) : Step (lockoutMCLeg.deadlines cs.lockoutHandler)
    (lockoutMCLeg.deadlines (cs.onNewBlock b).1.lockoutHandler) (lockoutResult (cs, b)) := by
  rw [(onNewBlock_spec hr).2.2.2]
  have hs := scans_lockouts (b := b) hr
  unfold lockoutResult
  cases hb : b.event with
  | mc n =>
    rw [hb] at hs
    cases (cs.scanLockins b).2 with
    | error e => exact .skipped fun k => rfl
    | ok rs =>
      have hstep : Step (lockoutMCLeg.deadlines (cs.during b).lockoutHandler)
          (lockoutMCLeg.deadlines (cs.scanLockouts b).1) (LockLeg.outcome lockoutKind n (cs.scanLockouts b).2) :=
        lockoutMCLeg.step_of_scan perm_lockouts hs
      exact hstep
  | sc n =>
    rw [hb] at hs
    cases (cs.scanLockins b).2 with
    | error e => exact .idle fun k => rfl
    | ok rs =>
      refine .idle fun k => congrFun (lockoutMCLeg.deadlines_of_scan (fun r r' he => ?_) hs) k
      obtain ⟨-, he⟩ := Option.ite_none_right_eq_some.mp he
      cases he
      rfl

theorem scanLockins_ok_sc (hr : cs.Loaded) (hb : b.event = .sc n) :
    (∃ rs, (cs.scanLockins b).2 = .ok rs) ↔ lockinSCLeg.Saves (cs.during b).lockinHandler n := by
  have hs := scans_lockins (b := b) hr
  rw [hb] at hs
  exact lockinSCLeg.scan_ok_iff perm_lockins hs

theorem scanLockins_ok_mc (hr : cs.Loaded) (hb : b.event = .mc n) :
    (∃ rs, (cs.scanLockins b).2 = .ok rs) ↔ lockinMCLeg.Saves (cs.during b).lockinHandler n := by
  have hs := scans_lockins (b := b) hr
  rw [hb] at hs
  exact lockinMCLeg.scan_ok_iff perm_lockins hs

theorem scanLockouts_ok_mc (hr : cs.Loaded) (hb : b.event = .mc n) :
    (∃ rs, (cs.scanLockouts b).2 = .ok rs) ↔ lockoutMCLeg.Saves (cs.during b).lockoutHandler n := by
  have hs := scans_lockouts (b := b) hr
  rw [hb] at hs
  exact lockoutMCLeg.scan_ok_iff perm_lockouts hs

/-- When the block of a lockin's chain succeeds and when it fails. -/
theorem lockinResult_sc (hr : cs.Loaded) (hb : b.event = .sc n) :
    (lockinSCLeg.Saves (cs.during b).lockinHandler n ∧ ∃ l, lockinResult (cs, b) = .done n l) ∨
      (¬ lockinSCLeg.Saves (cs.during b).lockinHandler n ∧ lockinResult (cs, b) = .failed n) := by
  rw [← scanLockins_ok_sc hr hb]
  unfold lockinResult
  dsimp only
  rw [hb]
  cases (cs.scanLockins b).2 with
  | ok rs => exact .inl ⟨⟨rs, rfl⟩, _, rfl⟩
  | error e => exact .inr ⟨by simp, rfl⟩

/-- When the block of a lockout's chain succeeds, fails and is stopped by a lockin. -/
theorem lockoutResult_mc (hr : cs.Loaded) (hb : b.event = .mc n) :
    (lockinMCLeg.Saves (cs.during b).lockinHandler n ∧ lockoutMCLeg.Saves (cs.during b).lockoutHandler n ∧
        ∃ l, lockoutResult (cs, b) = .done n l) ∨
      (lockinMCLeg.Saves (cs.during b).lockinHandler n ∧ ¬ lockoutMCLeg.Saves (cs.during b).lockoutHandler n ∧
        lockoutResult (cs, b) = .failed n) ∨
      (¬ lockinMCLeg.Saves (cs.during b).lockinHandler n ∧ lockoutResult (cs, b) = .skipped n) := by
  rw [← scanLockins_ok_mc hr hb, ← scanLockouts_ok_mc hr hb]
  unfold lockoutResult
  dsimp only
  rw [hb]
  cases (cs.scanLockins b).2 with
  | ok rs =>
    cases (cs.scanLockouts b).2 with
    | ok rs' => exact .inl ⟨⟨rs, rfl⟩, ⟨rs', rfl⟩, _, rfl⟩
    | error e => exact .inr (.inl ⟨⟨rs, rfl⟩, by simp, rfl⟩)
  | error e => exact .inr (.inr ⟨by simp, rfl⟩)

end Blocks

section Runs

open Deadlines

variable {cs} {bs : List NewBlock} {n e : UInt64} {h : Bytes32}

theorem lockin_run (hr : cs.Loaded) :
    Run (lockinSCLeg.deadlines cs.lockinHandler) ((cs.history bs).map lockinResult) := by
  induction bs generalizing cs with
  | nil => exact .nil
  | cons b bs ih => exact .cons (lockin_step hr) (ih hr.next)

theorem lockout_run (hr : cs.Loaded) :
    Run (lockoutMCLeg.deadlines cs.lockoutHandler) ((cs.history bs).map lockoutResult) := by
  induction bs generalizing cs with
  | nil => exact .nil
  | cons b bs ih => exact .cons (lockout_step hr) (ih hr.next)

theorem loaded_history (hr : cs.Loaded) : ∀ p ∈ cs.history bs, p.1.Loaded := by
  induction bs generalizing cs with
  | nil => exact fun p hp => absurd hp List.not_mem_nil
  | cons b bs ih =>
    intro p hp
    rcases List.mem_cons.mp hp with rfl | hp
    · exact hr
    · exact ih hr.next p hp

theorem map_snd_history (cs : CrossChainService) (bs : List NewBlock) : (cs.history bs).map Prod.snd = bs := by
  induction bs generalizing cs with
  | nil => rfl
  | cons b bs ih => exact congrArg (b :: ·) (ih _)

/-- A block of the run is one of its steps. -/
theorem exists_block_iff (cs : CrossChainService) {q : NewBlock → Prop} :
    (∃ b ∈ bs, q b) ↔ ∃ p ∈ cs.history bs, q p.2 := by
  constructor
  · rintro ⟨b, hb, hq⟩
    rw [← map_snd_history cs bs] at hb
    obtain ⟨p, hp, rfl⟩ := List.mem_map.mp hb
    exact ⟨p, hp, hq⟩
  · rintro ⟨p, hp, hq⟩
    refine ⟨p.2, ?_, hq⟩
    have hm := List.mem_map_of_mem (f := Prod.snd) hp
    rwa [map_snd_history] at hm

theorem count_lockins (hr : cs.Loaded) :
    (cs.lockinsHanded bs).count h = count ((cs.history bs).map lockinResult) h := by
  unfold lockinsHanded count
  rw [List.flatMap_map]
  refine congrArg (List.count h) (List.flatMap_congr fun p hp => ?_)
  exact (onNewBlock_spec (loaded_history hr p hp)).2.1

theorem count_lockouts (hr : cs.Loaded) :
    (cs.lockoutsHanded bs).count h = count ((cs.history bs).map lockoutResult) h := by
  unfold lockoutsHanded count
  rw [List.flatMap_map]
  refine congrArg (List.count h) (List.flatMap_congr fun p hp => ?_)
  exact (onNewBlock_spec (loaded_history hr p hp)).2.2.1

theorem reached_lockins : Reached ((cs.history bs).map lockinResult) e ↔ ∃ b ∈ bs, ∃ n, b.event = .sc n ∧ e ≤ n := by
  rw [exists_block_iff cs]
  unfold Reached
  simp only [List.mem_map, exists_exists_and_eq_and]
  refine exists_congr fun p => and_congr_right fun hp => exists_congr fun n => and_congr_left fun _ => ?_
  unfold lockinResult
  cases p.2.event with
  | mc m => simp [Outcome.height]
  | sc m => cases (p.1.scanLockins p.2).2 <;> simp [Outcome.height, LockLeg.outcome, eq_comm]

theorem reached_lockouts :
    Reached ((cs.history bs).map lockoutResult) e ↔ ∃ b ∈ bs, ∃ n, b.event = .mc n ∧ e ≤ n := by
  rw [exists_block_iff cs]
  unfold Reached
  simp only [List.mem_map, exists_exists_and_eq_and]
  refine exists_congr fun p => and_congr_right fun hp => exists_congr fun n => and_congr_left fun _ => ?_
  unfold lockoutResult
  cases p.2.event with
  | sc m => simp [Outcome.height]
  | mc m =>
    cases (p.1.scanLockins p.2).2 <;> cases (p.1.scanLockouts p.2).2 <;>
      simp [Outcome.height, LockLeg.outcome, eq_comm]

/-- A failed scan of the lockins is one in which the database refuses a record. -/
theorem lockins_saved_iff (hr : cs.Loaded) :
    cs.LockinsSaved bs ↔ ∀ n, .failed n ∉ (cs.history bs).map lockinResult := by
  constructor
  · intro hs n hf
    obtain ⟨p, hp, hout⟩ := List.mem_map.mp hf
    cases hb : p.2.event with
    | mc m => simp [lockinResult, hb] at hout
    | sc m =>
      rcases lockinResult_sc (loaded_history hr p hp) hb with ⟨-, l, hd⟩ | ⟨hn, -⟩
      · rw [hd] at hout
        cases hout
      · exact hn (hs p hp m hb)
  · intro hf p hp n hb
    rcases lockinResult_sc (loaded_history hr p hp) hb with ⟨hs, -⟩ | ⟨-, hout⟩
    · exact hs
    · exact absurd (hout ▸ List.mem_map_of_mem (f := lockinResult) hp) (hf n)

theorem lockouts_saved_iff (hr : cs.Loaded) :
    cs.LockoutsSaved bs ↔ ∀ n, .failed n ∉ (cs.history bs).map lockoutResult := by
  constructor
  · intro hs n hf
    obtain ⟨p, hp, hout⟩ := List.mem_map.mp hf
    cases hb : p.2.event with
    | sc m => simp [lockoutResult, hb] at hout
    | mc m =>
      rcases lockoutResult_mc (loaded_history hr p hp) hb with ⟨-, -, l, hd⟩ | ⟨hin, hn, -⟩ | ⟨-, hd⟩
      · rw [hd] at hout
        cases hout
      · exact hn (hs p hp m hb hin)
      · rw [hd] at hout
        cases hout
  · intro hf p hp n hb hin
    rcases lockoutResult_mc (loaded_history hr p hp) hb with ⟨-, hs, -⟩ | ⟨-, -, hout⟩ | ⟨hn, -⟩
    · exact hs
    · exact absurd (hout ▸ List.mem_map_of_mem (f := lockoutResult) hp) (hf n)
    · exact absurd hin hn

/-- A lockout is reached by a scan that succeeds when it is reached by a block that gets to the lockouts. -/
theorem reachedBy_lockouts (hr : cs.Loaded) (hs : cs.LockoutsSaved bs) :
    ReachedBy ((cs.history bs).map lockoutResult) e ↔
      ∃ p ∈ cs.history bs, ∃ n, p.2.event = .mc n ∧ e ≤ n ∧ lockinMCLeg.Saves (p.1.during p.2).lockinHandler n := by
  constructor
  · rintro ⟨n, l, hm, hle⟩
    obtain ⟨p, hp, hout⟩ := List.mem_map.mp hm
    cases hb : p.2.event with
    | sc m => simp [lockoutResult, hb] at hout
    | mc m =>
      rcases lockoutResult_mc (loaded_history hr p hp) hb with ⟨hin, -, l, hd⟩ | ⟨-, -, hd⟩ | ⟨-, hd⟩
      · rw [hd] at hout
        cases hout
        exact ⟨p, hp, _, hb, hle, hin⟩
      · rw [hd] at hout
        cases hout
      · rw [hd] at hout
        cases hout
  · rintro ⟨p, hp, n, hb, hle, hin⟩
    rcases lockoutResult_mc (loaded_history hr p hp) hb with ⟨-, -, l, hd⟩ | ⟨-, hn, -⟩ | ⟨hn, -⟩
    · exact ⟨n, l, hd ▸ List.mem_map_of_mem (f := lockoutResult) hp, hle⟩
    · exact absurd (hs p hp n hb hin) hn
    · exact absurd hin hn

theorem deadline_lockin : lockinSCLeg.deadlines cs.lockinHandler h = some e ↔
    ∃ l, cs.lockinHandler.dealingMap.lookup h = some l ∧ l.scLockStatus = .lock ∧ l.scExpiration = e := by
  unfold LockLeg.deadlines
  rw [Option.bind_eq_some_iff]
  refine exists_congr fun l => and_congr_right fun _ => ?_
  exact Option.ite_none_right_eq_some.trans (and_congr_right fun _ => Option.some_inj)

theorem deadline_lockout : lockoutMCLeg.deadlines cs.lockoutHandler h = some e ↔
    ∃ l, cs.lockoutHandler.dealingMap.lookup h = some l ∧ l.mcLockStatus = .lock ∧ l.mcExpiration = e := by
  unfold LockLeg.deadlines
  rw [Option.bind_eq_some_iff]
  refine exists_congr fun l => and_congr_right fun _ => ?_
  exact Option.ite_none_right_eq_some.trans (and_congr_right fun _ => Option.some_inj)

theorem lockins_once_iff_once (hr : cs.Loaded) : cs.LockinsOnce bs ↔
    Once (lockinSCLeg.deadlines cs.lockinHandler) ((cs.history bs).map lockinResult) := by
  constructor
  · intro ho k e hk
    obtain ⟨l, hl, hlock, rfl⟩ := deadline_lockin.mp hk
    rw [reached_lockins, ← count_lockins hr]
    exact ho k l hl hlock
  · intro ho k l hl hlock
    have hk := ho k l.scExpiration (deadline_lockin.mpr ⟨l, hl, hlock, rfl⟩)
    rwa [reached_lockins, ← count_lockins hr] at hk

theorem lockouts_once_iff_once (hr : cs.Loaded) : cs.LockoutsOnce bs ↔
    Once (lockoutMCLeg.deadlines cs.lockoutHandler) ((cs.history bs).map lockoutResult) := by
  constructor
  · intro ho k e hk
    obtain ⟨l, hl, hlock, rfl⟩ := deadline_lockout.mp hk
    rw [reached_lockouts, ← count_lockouts hr]
    exact ho k l hl hlock
  · intro ho k l hl hlock
    have hk := ho k l.mcExpiration (deadline_lockout.mpr ⟨l, hl, hlock, rfl⟩)
    rwa [reached_lockouts, ← count_lockouts hr] at hk

/-- Where no scan of the lockins fails, all that are reached are reached by one that succeeds. -/
theorem reachedBy_lockins (hr : cs.Loaded) (hs : cs.LockinsSaved bs)
    (hreach : Reached ((cs.history bs).map lockinResult) e) :
    ReachedBy ((cs.history bs).map lockinResult) e := by
  rw [reached_lockins, exists_block_iff cs] at hreach
  obtain ⟨p, hp, n, hb, hle⟩ := hreach
  rcases lockinResult_sc (loaded_history hr p hp) hb with ⟨-, l, hd⟩ | ⟨hn, -⟩
  · exact ⟨n, l, hd ▸ List.mem_map_of_mem (f := lockinResult) hp, hle⟩
  · exact absurd (hs p hp n hb) hn

theorem lockins_once_iff (hr : cs.Loaded) : cs.LockinsOnce bs ↔ cs.LockinsSaved bs := by
  rw [lockins_once_iff_once hr, (lockin_run hr).once_iff, lockins_saved_iff hr]
  refine and_iff_left_of_imp fun hf i e _ hreach => ?_
  exact reachedBy_lockins hr ((lockins_saved_iff hr).mpr hf) hreach

theorem lockouts_once_iff (hr : cs.Loaded) :
    cs.LockoutsOnce bs ↔ cs.LockoutsSaved bs ∧ cs.LockoutsScanned bs := by
  rw [lockouts_once_iff_once hr, (lockout_run hr).once_iff, ← lockouts_saved_iff hr]
  refine and_congr_right fun hs => ?_
  constructor
  · intro hby k l hl hlock hreach
    refine (reachedBy_lockouts hr hs).mp (hby k _ (deadline_lockout.mpr ⟨l, hl, hlock, rfl⟩) ?_)
    exact reached_lockouts.mpr hreach
  · intro hby k e hk hreach
    obtain ⟨l, hl, hlock, rfl⟩ := deadline_lockout.mp hk
    exact (reachedBy_lockouts hr hs).mpr (hby k l hl hlock (reached_lockouts.mp hreach))

end Runs

/-- In a run of blocks from any tables, every lockin and every lockout whose lock stands when its end is reached is
handed over exactly once precisely when the database refuses no record that expires and each lockout is reached by a
block on which it refuses no lockin before. -/
theorem expirations_once_iff (lockins : RecordMap lockinKind) (lockouts : RecordMap lockoutKind) (bs : List NewBlock) :
    ((cs.started lockins lockouts).LockinsOnce bs ↔ (cs.started lockins lockouts).LockinsSaved bs) ∧
      ((cs.started lockins lockouts).LockoutsOnce bs ↔
        (cs.started lockins lockouts).LockoutsSaved bs ∧ (cs.started lockins lockouts).LockoutsScanned bs) :=
  ⟨lockins_once_iff loaded_started, lockouts_once_iff loaded_started⟩

def inOrder : Iteration := ⟨id, List.Perm.refl⟩

/-- Two lockins whose side chain locks run out in block 20, the first of them met first by a loop. -/
def lockins12 : RecordMap lockinKind :=
  (({} : RecordMap lockinKind).put { lockin1 with secretHash := 2, scLockStatus := .lock }).put
    { lockin1 with scLockStatus := .lock }

/-- Two lockouts whose main chain locks run out in block 20. -/
def lockouts12 : RecordMap lockoutKind :=
  (({} : RecordMap lockoutKind).put { lockout1 with secretHash := 2, mcLockStatus := .lock }).put
    { lockout1 with mcLockStatus := .lock }

/-- A block in which the database refuses the records under `2`, and one in which it refuses none. -/
def refused (event : BlockEvent) : NewBlock := ⟨event, inOrder, inOrder, fun h => h == 2, fun h => h == 2⟩

def accepted (event : BlockEvent) : NewBlock := ⟨event, inOrder, inOrder, fun _ => false, fun _ => false⟩

/-- The first record is handed over by no block because the database refuses the second one. -/
theorem expirations_lost :
    ¬ ((service6 .ethereum 7).started lockins12 {}).LockinsOnce [refused (.sc 20), accepted (.sc 21)] ∧
      ¬ ((service6 .ethereum 7).started {} lockouts12).LockoutsOnce [refused (.mc 20), accepted (.mc 21)] := by
  constructor
  · intro ho
    have hone := (ho 1 { lockin1 with scLockStatus := .lock } rfl rfl).1 ⟨_, .head _, 20, rfl, by decide⟩
    have hnone : (((service6 .ethereum 7).started lockins12 {}).lockinsHanded
        [refused (.sc 20), accepted (.sc 21)]).count 1 = 0 := by decide
    omega
  · intro ho
    have hone := (ho 1 { lockout1 with mcLockStatus := .lock } rfl rfl).1 ⟨_, .head _, 20, rfl, by decide⟩
    have hnone : (((service6 .ethereum 7).started {} lockouts12).lockoutsHanded
        [refused (.mc 20), accepted (.mc 21)]).count 1 = 0 := by decide
    omega

end CrossChainService

end DistributedNotary.Service
