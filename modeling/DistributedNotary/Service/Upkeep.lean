import DistributedNotary.Service.CoSign
import DistributedNotary.Service.LockinEvents
import DistributedNotary.Service.Swap

/-! How the handlers keep their records while nothing fails: each record in
memory is the row of the table, an update changes one row, and a block changes
the rows of the records in memory that expire with it. -/
namespace DistributedNotary.Service

open Library Contracts

variable {ρ : Type} {kind : RecordKind ρ}

namespace Handler

/-- The mutex is free, the records in memory are those of the table, and the database works. -/
structure Sound (lh : Handler kind) : Prop where
  free : lh.dealingMapLock = false
  stored : ∀ h r, lh.dealingMap.lookup h = some r → lh.db.lookup h = some r
  works : ∀ h, lh.dbFails h = false

/-- After the change the record of its hash is `info`, in memory until it ends. -/
structure Becomes (lh lh' : Handler kind) (info : ρ) : Prop where
  sound : lh'.Sound
  db : ∀ h, lh'.db.lookup h = if h = kind.secretHash info then some info else lh.db.lookup h
  dealing : ∀ h, lh'.dealingMap.lookup h =
    if h = kind.secretHash info then (if kind.isEnd info then none else some info) else lh.dealingMap.lookup h

variable {lh lh' : Handler kind} {info : ρ} {h : Bytes32}

section Changes

/-- What `Becomes` says of the two maps is enough for the handler to stay sound. -/
theorem Sound.of_lookup (hs : lh.Sound) (hfree : lh'.dealingMapLock = false) (hworks : ∀ h, lh'.dbFails h = false)
    (hdb : ∀ h, lh'.db.lookup h = if h = kind.secretHash info then some info else lh.db.lookup h)
    (hdeal : ∀ h, lh'.dealingMap.lookup h =
      if h = kind.secretHash info then (if kind.isEnd info then none else some info) else lh.dealingMap.lookup h) :
    lh.Becomes lh' info where
  sound := by
    refine ⟨hfree, fun h r hr => ?_, hworks⟩
    rw [hdeal] at hr
    rw [hdb]
    split_ifs at hr ⊢
    · exact hr
    · exact hs.stored h r hr
  db := hdb
  dealing := hdeal

theorem Sound.dbGet (hs : lh.Sound) {r : ρ} (hr : lh.dealingMap.lookup h = some r) : lh.dbGet h = .ok r := by
  simp [Handler.dbGet, hs.works h, hs.stored h r hr]

theorem Sound.get (hs : lh.Sound) {r : ρ} (hr : lh.dealingMap.lookup h = some r) : lh.get h = .ok r := by
  simp [Handler.get, hs.free, hr]

/-- A new record is registered. -/
theorem register_becomes (hs : lh.Sound) (hreg : kind.registrable info = true) (hh : kind.secretHash info ≠ emptyHash)
    (hnew : lh.db.lookup (kind.secretHash info) = none) (hend : kind.isEnd info = false) :
    (lh.register info).2 = .ok () ∧ lh.Becomes (lh.register info).1 info := by
  have hr : lh.register info = ({ lh with db := lh.db.put info, dealingMap := lh.dealingMap.put info }, .ok ()) := by
    simp [register, dbNew, hreg, hh, hnew, hs.works, hs.free, wrap]
  rw [hr]
  refine ⟨rfl, hs.of_lookup hs.free hs.works (fun h => RecordMap.lookup_put _ _ _) fun h => ?_⟩
  rw [hend]
  exact RecordMap.lookup_put _ _ _

/-- What an update of a record in memory comes to when its database calls succeed. -/
theorem update_eq {r r' : ρ} (hfree : lh.dealingMapLock = false)
    (hr : lh.dealingMap.lookup (kind.secretHash info) = some r) (hg : lh.dbGet (kind.secretHash info) = .ok r') :
    (lh.assign info).update info = ({ lh.assign info with
      db := lh.db.put info
      dealingMap := if kind.isEnd info then (lh.assign info).dealingMap.erase (kind.secretHash info)
        else (lh.assign info).dealingMap.put info }, .ok ()) := by
  have hd : (lh.assign info).dealingMap.lookup (kind.secretHash info) = some info := by
    rw [assign_dealing, hr]
    exact if_pos ⟨rfl, rfl⟩
  simp [update, dbUpdate, hd, hfree, hg]

/-- After a database error the update waits for the mutex that it holds. -/
theorem update_refused {r : ρ} (hfree : lh.dealingMapLock = false)
    (hr : lh.dealingMap.lookup (kind.secretHash info) = some r) (hf : lh.dbFails (kind.secretHash info) = true) :
    ((lh.assign info).update info).2 = .error .blocked := by
  have hd : (lh.assign info).dealingMap.lookup (kind.secretHash info) = some info := by
    rw [assign_dealing, hr]
    exact if_pos ⟨rfl, rfl⟩
  simp [update, dbUpdate, dbGet, hd, hfree, hf]

/-- A record that is not in memory cannot be updated. -/
theorem update_late (hfree : lh.dealingMapLock = false) (hd : lh.dealingMap.lookup (kind.secretHash info) = none) :
    ((lh.assign info).update info).2 = .error (.panic "wrong code") := by
  simp [update, assign, hd, hfree]

/-- The records in memory after an update. -/
theorem lookup_update : (if kind.isEnd info then (lh.assign info).dealingMap.erase (kind.secretHash info)
      else (lh.assign info).dealingMap.put info).lookup h =
    if h = kind.secretHash info then (if kind.isEnd info then none else some info) else lh.dealingMap.lookup h := by
  split_ifs with hend hk hk
  · rw [RecordMap.lookup_erase, if_pos hk]
  · rw [RecordMap.lookup_erase, if_neg hk, assign_dealing, if_neg (fun hc => hk hc.1)]
  · rw [RecordMap.lookup_put, if_pos hk]
  · rw [RecordMap.lookup_put, if_neg hk, assign_dealing, if_neg (fun hc => hk hc.1)]

/-- A record in memory is updated. -/
theorem update_becomes (hs : lh.Sound) {r : ρ} (hr : lh.dealingMap.lookup (kind.secretHash info) = some r) :
    ((lh.assign info).update info).2 = .ok () ∧ lh.Becomes ((lh.assign info).update info).1 info := by
  rw [update_eq hs.free hr (hs.dbGet hr)]
  refine ⟨rfl, hs.of_lookup ?_ ?_ (fun h => RecordMap.lookup_put _ _ _) fun h => lookup_update⟩
  · simpa using hs.free
  · simpa using hs.works

end Changes

section Blocks

/-- What one record comes to. -/
def expired (expire : ρ → Option ρ) (r : ρ) : ρ := (expire r).getD r

/-- A block changes the records in memory that the loop visits, here and in the table. -/
structure Expires (expire : ρ → Option ρ) (order : List Bytes32) (lh lh' : Handler kind) : Prop where
  sound : lh'.Sound
  dealing : ∀ h r, lh.dealingMap.lookup h = some r →
    lh'.dealingMap.lookup h = some (if h ∈ order then expired expire r else r)
  idle : ∀ h, lh.dealingMap.lookup h = none → lh'.dealingMap.lookup h = none ∧ lh'.db.lookup h = lh.db.lookup h

variable {expire : ρ → Option ρ} {order : List Bytes32}

/-- An expired record keeps its hash and does not expire again. -/
def Expiry (kind : RecordKind ρ) (expire : ρ → Option ρ) : Prop :=
  ∀ r r', expire r = some r' → kind.secretHash r' = kind.secretHash r ∧ expire r' = none

theorem Expiry.expired_expired (he : Expiry kind expire) (r : ρ) :
    expired expire (expired expire r) = expired expire r := by
  unfold expired
  cases hr : expire r with
  | none => simp [hr]
  | some r' => simp [(he r r' hr).2]

/-- The loops expire the records that satisfy `P`. -/
theorem expiry_ite {P : ρ → Prop} [DecidablePred P] {f : ρ → ρ}
    (hkey : ∀ r, kind.secretHash (f r) = kind.secretHash r) (hP : ∀ r, ¬ P (f r)) :
    Expiry kind fun r => if P r then some (f r) else none := by
  intro r r' hr
  dsimp only at hr ⊢
  split_ifs at hr with h
  cases hr
  exact ⟨hkey r, if_neg (hP r)⟩

theorem expired_ite {P : ρ → Prop} [DecidablePred P] {f : ρ → ρ} (r : ρ) :
    expired (fun r => if P r then some (f r) else none) r = if P r then f r else r := by
  by_cases h : P r <;> simp [expired, h]

theorem Expires.trans {lh₁ lh₂ : Handler kind} (he : Expiry kind expire) (h₁ : Expires expire [h] lh lh₁)
    (h₂ : Expires expire order lh₁ lh₂) : Expires expire (h :: order) lh lh₂ where
  sound := h₂.sound
  dealing k r hr := by
    rw [h₂.dealing k _ (h₁.dealing k r hr)]
    by_cases hk : k = h <;> by_cases hm : k ∈ order <;> simp [hk, hm, he.expired_expired]
  idle k hk := by
    obtain ⟨hd, hdb⟩ := h₁.idle k hk
    obtain ⟨hd', hdb'⟩ := h₂.idle k hd
    exact ⟨hd', hdb'.trans hdb⟩

/-- The loop passes a record that does not expire. -/
theorem expires_none (hs : lh.Sound) (hn : (lh.dealingMap.lookup h).bind expire = none) :
    Expires expire [h] lh lh where
  sound := hs
  dealing k r hr := by
    split_ifs with hk
    · obtain rfl := List.mem_singleton.mp hk
      rw [hr, Option.bind_some] at hn
      rw [hr]
      simp [expired, hn]
    · exact hr
  idle k hk := ⟨hk, rfl⟩

/-- The loop writes an expired record down. -/
theorem expires_some (hs : lh.Sound) (he : Expiry kind expire) {r : ρ} (hr : lh.dealingMap.lookup h = some r)
    (hi : expire r = some info) : Expires expire [h] lh { lh.assign info with db := lh.db.put info } := by
  have hkey : kind.secretHash info = h := (he r info hi).1.trans (RecordMap.secretHash_of_lookup hr)
  subst hkey
  refine ⟨⟨?_, fun k r' hk => ?_, ?_⟩, fun k r' hk => ?_, fun k hk => ?_⟩
  · simpa using hs.free
  · dsimp only at hk ⊢
    rw [assign_dealing] at hk
    rw [RecordMap.lookup_put]
    by_cases hkey : k = kind.secretHash info
    · subst hkey
      simpa [hr] using hk
    · rw [if_neg hkey]
      rw [if_neg (fun hc => hkey hc.1)] at hk
      exact hs.stored k r' hk
  · simpa using hs.works
  · dsimp only
    rw [assign_dealing]
    by_cases hkey : k = kind.secretHash info
    · subst hkey
      rw [hr] at hk
      cases hk
      simp [hr, expired, hi]
    · simp [hkey, hk]
  · have hne : k ≠ kind.secretHash info := by
      rintro rfl
      rw [hr] at hk
      cases hk
    dsimp only
    rw [assign_dealing, RecordMap.lookup_put, if_neg hne, if_neg (fun hc => hne hc.1)]
    exact ⟨hk, rfl⟩

section Loop

theorem expireAll_pass (hi : (lh.dealingMap.lookup h).bind expire = none) :
    expireAll expire lh (h :: order) = expireAll expire lh order := by
  simp only [expireAll, hi]

/-- The loop ends at an expired record that the database refuses. -/
theorem expireAll_refused (hi : (lh.dealingMap.lookup h).bind expire = some info) (hkey : kind.secretHash info = h)
    (hf : lh.dbFails h = true) : ∃ text, expireAll expire lh (h :: order) = (lh.assign info, .error (.error text)) := by
  subst hkey
  have hu : (lh.assign info).dbUpdate info = .error (.error "can not update because key not found in db") := by
    simp [dbUpdate, dbGet, hf]
  simp only [expireAll, hi, hu]
  exact ⟨_, rfl⟩

/-- The loop goes on behind an expired record that the database accepts. -/
theorem expireAll_saved {r : ρ} (hi : (lh.dealingMap.lookup h).bind expire = some info)
    (hkey : kind.secretHash info = h) (hw : lh.dbFails h = false) (hdb : lh.db.lookup h = some r) :
    expireAll expire lh (h :: order) =
      ((expireAll expire { lh.assign info with db := lh.db.put info } order).1,
        (expireAll expire { lh.assign info with db := lh.db.put info } order).2.map (info :: ·)) := by
  subst hkey
  have hu : (lh.assign info).dbUpdate info = .ok (lh.db.put info) := by
    simp [dbUpdate, dbGet, hw, hdb]
  simp only [expireAll, hi, hu]

end Loop

/-- The loop reaches its end and every record that it visits has been looked at. -/
theorem expireAll_expires (hs : lh.Sound) (he : Expiry kind expire) :
    (∃ rs, (expireAll expire lh order).2 = .ok rs) ∧ Expires expire order lh (expireAll expire lh order).1 := by
  induction order generalizing lh with
  | nil => exact ⟨⟨[], rfl⟩, hs, fun k r hr => hr, fun k hk => ⟨hk, rfl⟩⟩
  | cons h order ih =>
    cases hi : (lh.dealingMap.lookup h).bind expire with
    | none =>
      obtain ⟨hok, hexp⟩ := ih hs
      rw [expireAll_pass hi]
      exact ⟨hok, (expires_none hs hi).trans he hexp⟩
    | some info =>
      obtain ⟨r, hr, hx⟩ := Option.bind_eq_some_iff.mp hi
      have hkey : kind.secretHash info = h := (he r info hx).1.trans (RecordMap.secretHash_of_lookup hr)
      have hone := expires_some hs he hr hx
      obtain ⟨⟨rs, hok⟩, hexp⟩ := ih hone.sound
      rw [expireAll_saved hi hkey (hs.works h) (hs.stored h r hr)]
      exact ⟨⟨info :: rs, map_eq_ok.mpr ⟨rs, hok, rfl⟩⟩, hone.trans he hexp⟩

end Blocks

section Swaps

/-- How a record tells its swap; the locks of a swap that has ended do not stand. -/
structure View (kind : RecordKind ρ) where
  swap : ρ → Swap
  ended : ∀ r, kind.isEnd r = true → ∀ side e, (swap r).hold side ≠ .lock e

variable (view : View kind)

/-- The swap of a secret hash, by the row of the table. -/
def swap (lh : Handler kind) (h : Bytes32) : Swap := ((lh.db.lookup h).map view.swap).getD .absent

/-- The row of the hash begins with the user's lock and is in memory until it ends. -/
def Live (lh : Handler kind) (h : Bytes32) : Prop :=
  ∀ r, lh.db.lookup h = some r →
    (view.swap r).user ≠ .none ∧ (lh.dealingMap.lookup h = some r ∨ kind.isEnd r = true)

/-- The change has the effect `x` on the swap of the hash. -/
structure Steps (lh lh' : Handler kind) (h : Bytes32) (x : Option Effect) : Prop where
  sound : lh'.Sound
  live : lh'.Live view h
  swap : lh'.swap view h = x.elim (lh.swap view h) (lh.swap view h).apply

/-- The effect was due as well, after the effects in `past`. -/
structure Moves (past : List Effect) (lh lh' : Handler kind) (h : Bytes32) (x : Option Effect) : Prop
    extends Handler.Steps view lh lh' h x where
  due : ∀ y ∈ x, (lh.swap view h).Due past y

variable {view} {past : List Effect}

theorem swap_of_lookup {r : ρ} (hr : lh.db.lookup h = some r) : lh.swap view h = view.swap r := by
  simp [swap, hr]

theorem swap_of_none (hr : lh.db.lookup h = none) : lh.swap view h = .absent := by
  simp [swap, hr]

/-- Two tables in which the swap is the same have both a record of it, or neither has. -/
theorem Live.lookup_of_swap (hl : lh.Live view h) (hl' : lh'.Live view h) (hw : lh'.swap view h = lh.swap view h) :
    (lh.db.lookup h = none ∧ lh'.db.lookup h = none) ∨
      ∃ r r', lh.db.lookup h = some r ∧ lh'.db.lookup h = some r' ∧ view.swap r' = view.swap r := by
  cases hr : lh.db.lookup h with
  | none =>
    rw [swap_of_none hr] at hw
    cases hr' : lh'.db.lookup h with
    | none => exact .inl ⟨rfl, rfl⟩
    | some r' =>
      rw [swap_of_lookup hr'] at hw
      exact absurd (congrArg Swap.user hw) (hl' r' hr').1
  | some r =>
    rw [swap_of_lookup hr] at hw
    cases hr' : lh'.db.lookup h with
    | none =>
      rw [swap_of_none hr'] at hw
      exact absurd (congrArg Swap.user hw.symm) (hl r hr).1
    | some r' =>
      rw [swap_of_lookup hr'] at hw
      exact .inr ⟨r, r', rfl, rfl, hw⟩

theorem Moves.refl (hs : lh.Sound) (hl : lh.Live view h) : Moves view past lh lh h none :=
  ⟨⟨hs, hl, rfl⟩, fun _ hy => absurd hy (by simp)⟩

/-- A due effect is one more that the swap has come to. -/
theorem Moves.tracks {w₀ : Swap} {x : Option Effect} (hm : Moves view past lh lh' h x)
    (ht : Swap.Tracks w₀ past (lh.swap view h)) : Swap.Tracks w₀ (x.toList ++ past) (lh'.swap view h) := by
  rw [hm.swap]
  cases x with
  | none => exact ht
  | some y => exact ht.apply (hm.due y rfl)

theorem due_of_ite {p : Prop} [Decidable p] {w : Swap} {x : Effect} (h : p → w.Due past x) :
    ∀ y ∈ (if p then some x else none), w.Due past y := by
  intro y hy
  split_ifs at hy with hp
  · cases hy
    exact h hp
  · cases hy

/-- A change of the record under one hash is an effect on that swap and none on every other. -/
theorem Becomes.steps {x : Effect} (hb : lh.Becomes lh' info) (hl : lh.Live view h)
    (hx : kind.secretHash info = h →
      view.swap info = (lh.swap view h).apply x ∧ (view.swap info).user ≠ .none) :
    lh.Steps view lh' h (if kind.secretHash info = h then some x else none) := by
  by_cases hk : kind.secretHash info = h
  · obtain ⟨hswap, huser⟩ := hx hk
    have hdb : lh'.db.lookup h = some info := by rw [hb.db, if_pos hk.symm]
    rw [if_pos hk]
    refine ⟨hb.sound, fun r hr => ?_, (swap_of_lookup hdb).trans hswap⟩
    rw [hdb] at hr
    cases hr
    rw [hb.dealing, if_pos hk.symm]
    cases hend : kind.isEnd info with
    | false => exact ⟨huser, .inl rfl⟩
    | true => exact ⟨huser, .inr rfl⟩
  · have hk' : h ≠ kind.secretHash info := Ne.symm hk
    rw [if_neg hk]
    refine ⟨hb.sound, fun r hr => ?_, ?_⟩
    · rw [hb.db, if_neg hk'] at hr
      rw [hb.dealing, if_neg hk']
      exact hl r hr
    · unfold swap
      rw [hb.db, if_neg hk']
      rfl

/-- The height of a chain has no effect where no lock stands. -/
theorem apply_block {w : Swap} {side : Side} {n : UInt64} (hw : ∀ e, w.hold side ≠ .lock e) :
    w.apply (.block side n) = w := by
  cases side with
  | user =>
    have hu : w.user.hear (.block n) = w.user := by
      cases hw' : w.user with
      | lock e => exact absurd hw' (hw e)
      | _ => rfl
    simp [Swap.apply, Effect.report, hu]
  | notary =>
    have hu : w.notary.hear (.block n) = w.notary := by
      cases hw' : w.notary with
      | lock e => exact absurd hw' (hw e)
      | _ => rfl
    simp [Swap.apply, Effect.report, hu]

/-- A block is heard by every swap when the loop visits all records in memory. -/
theorem Expires.steps {expire : ρ → Option ρ} {order : List Bytes32} {side : Side} {n : UInt64}
    (hb : Expires expire order lh lh') (hs : lh.Sound) (hl : lh.Live view h)
    (hall : ∀ k ∈ lh.dealingMap.entries.keys, k ∈ order)
    (hexp : ∀ r, view.swap (expired expire r) = (view.swap r).apply (.block side n)) :
    lh.Steps view lh' h (some (.block side n)) := by
  cases hd : lh.dealingMap.lookup h with
  | some r =>
    have hm : h ∈ order := hall h (RangeMap.mem_keys_of_lookup hd)
    have hd' := hb.dealing h r hd
    have hdb' := hb.sound.stored h _ hd'
    rw [if_pos hm] at hd' hdb'
    have hswap : lh.swap view h = view.swap r := swap_of_lookup (hs.stored h r hd)
    refine ⟨hb.sound, fun r' hr' => ?_, ?_⟩
    · rw [hdb'] at hr'
      cases hr'
      refine ⟨?_, .inl hd'⟩
      rw [hexp]
      have huser := (hl r (hs.stored h r hd)).1
      cases side with
      | user => exact fun hn => huser (Hold.hear_block_eq_none.mp hn)
      | notary => exact huser
    · rw [swap_of_lookup hdb', hexp, hswap]
      rfl
  | none =>
    obtain ⟨hd', hdb'⟩ := hb.idle h hd
    cases hr : lh.db.lookup h with
    | none =>
      refine ⟨hb.sound, fun r' hr' => ?_, ?_⟩
      · rw [hdb', hr] at hr'
        cases hr'
      · rw [swap_of_none (hdb'.trans hr), swap_of_none hr]
        exact (apply_block (by cases side <;> simp [Swap.absent, Swap.hold])).symm
    | some r =>
      have hend : kind.isEnd r = true := (hl r hr).2.resolve_left (by simp [hd])
      refine ⟨hb.sound, fun r' hr' => ?_, ?_⟩
      · rw [hdb', hr] at hr'
        cases hr'
        exact ⟨(hl r hr).1, .inr hend⟩
      · rw [swap_of_lookup (hdb'.trans hr), swap_of_lookup hr]
        exact (apply_block (view.ended r hend side)).symm

/-- A registration begins the swap of its hash. -/
theorem register_moves {x : Effect} (hs : lh.Sound) (hl : lh.Live view h) (hreg : kind.registrable info = true)
    (hne : kind.secretHash info ≠ emptyHash) (hnew : lh.db.lookup (kind.secretHash info) = none)
    (hend : kind.isEnd info = false) (hx : view.swap info = Swap.absent.apply x)
    (huser : (view.swap info).user ≠ .none) (hdue : Swap.absent.Due past x) :
    Moves view past lh (lh.register info).1 h (if kind.secretHash info = h then some x else none) := by
  have hb := (register_becomes hs hreg hne hnew hend).2
  have hswap : kind.secretHash info = h → lh.swap view h = .absent := fun hh => swap_of_none (hh ▸ hnew)
  refine ⟨hb.steps hl fun hh => ⟨?_, huser⟩, due_of_ite fun hh => ?_⟩
  · rw [hswap hh]
    exact hx
  · rw [hswap hh]
    exact hdue

/-- An update of a record in progress goes on with the swap of its hash. -/
theorem update_moves {x : Effect} {r : ρ} (hs : lh.Sound) (hl : lh.Live view h)
    (hd : lh.dealingMap.lookup (kind.secretHash info) = some r) (hx : view.swap info = (view.swap r).apply x)
    (hu : (view.swap r).user ≠ .none → (view.swap info).user ≠ .none) (hdue : (view.swap r).Due past x) :
    Moves view past lh ((lh.assign info).update info).1 h (if kind.secretHash info = h then some x else none) := by
  have hb := (update_becomes hs hd).2
  have hrow : kind.secretHash info = h → lh.db.lookup h = some r := fun hh => hs.stored _ _ (hh ▸ hd)
  refine ⟨hb.steps hl fun hh => ?_, due_of_ite fun hh => ?_⟩
  · rw [swap_of_lookup (hrow hh)]
    exact ⟨hx, hu (hl r (hrow hh)).1⟩
  · rw [swap_of_lookup (hrow hh)]
    exact hdue

/-- A block moves the heights of all swaps. -/
theorem expireAll_moves {P : ρ → Prop} [DecidablePred P] {f : ρ → ρ} {order : List Bytes32} {side : Side}
    {n : UInt64} (hs : lh.Sound) (hl : lh.Live view h) (hall : ∀ k ∈ lh.dealingMap.entries.keys, k ∈ order)
    (hkey : ∀ r, kind.secretHash (f r) = kind.secretHash r) (hP : ∀ r, ¬ P (f r))
    (hexp : ∀ r, view.swap (if P r then f r else r) = (view.swap r).apply (.block side n)) :
    Moves view past lh (expireAll (fun r => if P r then some (f r) else none) lh order).1 h
      (some (.block side n)) := by
  have hb : Expires _ order lh _ := (expireAll_expires hs (expiry_ite hkey hP)).2
  refine ⟨hb.steps hs hl hall fun r => ?_, fun y hy => ?_⟩
  · rw [expired_ite, hexp]
  · cases hy
    exact Swap.due_block

end Swaps

end Handler

/-- A lockin: the user locks on the main chain, the notaries answer on the side chain. -/
def lockinView : Handler.View lockinKind where
  swap l := {
    user := .ofStatus l.mcLockStatus l.mcExpiration
    notary := .ofStatus l.scLockStatus l.scExpiration
    secret := l.secret }
  ended r hr side e := by
    simp only [lockinKind, LockinInfo.isEnd, isEnd, Bool.or_eq_true, decide_eq_true_eq] at hr
    rcases hr with ⟨h1, h2⟩ | ⟨h1, h2 | h2⟩ <;> cases side <;> simp [Swap.hold, Hold.ofStatus, h1, h2]

/-- A lockout: the user locks on the side chain, the notaries answer on the main chain. -/
def lockoutView : Handler.View lockoutKind where
  swap l := {
    user := .ofStatus l.scLockStatus l.scExpiration
    notary := .ofStatus l.mcLockStatus l.mcExpiration
    secret := l.secret }
  ended r hr side e := by
    simp only [lockoutKind, LockoutInfo.isEnd, isEnd, Bool.or_eq_true, decide_eq_true_eq] at hr
    rcases hr with ⟨h1, h2⟩ | ⟨h1, h2 | h2⟩ <;> cases side <;> simp [Swap.hold, Hold.ofStatus, h1, h2]

end DistributedNotary.Service
