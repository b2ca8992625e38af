import DistributedNotary.Service.Records

/-! A swap as the events of both chains tell it. Each side holds one lock, the
user's and the notaries'; an event begins or ends a lock or moves the height of
its chain. What a lock has come to depends only on which events were heard, as
long as each of them was due. -/
namespace DistributedNotary.Service

open Contracts

/-- One lock: it ends once with the secret or is taken back once. -/
inductive Hold where
  | none
  | lock (expiration : UInt64)
  | unlock
  | expiration
  | cancel
  deriving DecidableEq

/-- What an event says about one lock. -/
inductive Report where
  | lock (expiration : UInt64)
  | unlock
  | cancel
  | block (number : UInt64)
  deriving DecidableEq

namespace Hold

/-- The lock as a record writes it down. -/
def ofStatus (s : LockStatus) (e : UInt64) : Hold :=
  match s with
  | .none => .none
  | .lock => .lock e
  | .unlock => .unlock
  | .expiration => .expiration
  | .cancel => .cancel

def status : Hold → LockStatus
  | .none => .none
  | .lock _ => .lock
  | .unlock => .unlock
  | .expiration => .expiration
  | .cancel => .cancel

@[simp] theorem status_ofStatus (s : LockStatus) (e : UInt64) : (ofStatus s e).status = s := by
  cases s <;> rfl

@[simp] theorem ofStatus_eq_none {s : LockStatus} {e : UInt64} : ofStatus s e = .none ↔ s = .none := by
  cases s <;> simp [ofStatus]

/-- The lock has begun and not ended. -/
def Standing (o : Hold) : Prop := o.status = .lock ∨ o.status = .expiration

instance (o : Hold) : Decidable o.Standing := inferInstanceAs (Decidable (_ ∨ _))

def hear (o : Hold) : Report → Hold
  | .lock e => .lock e
  | .unlock => .unlock
  | .cancel => .cancel
  | .block n =>
    match o with
    | .lock e => if e ≤ n then .expiration else .lock e
    | o => o

section Standing

variable {o : Hold} {n e : UInt64}

theorem Standing.ne_none (h : o.Standing) : o ≠ .none := by
  rintro rfl
  simp [Standing, status] at h

theorem Standing.ne_unlock (h : o.Standing) : o ≠ .unlock := by
  rintro rfl
  simp [Standing, status] at h

theorem Standing.ne_cancel (h : o.Standing) : o ≠ .cancel := by
  rintro rfl
  simp [Standing, status] at h

theorem hear_block_eq_none : o.hear (.block n) = .none ↔ o = .none := by
  cases o <;> simp [hear]
  split <;> simp

theorem hear_block_eq_unlock : o.hear (.block n) = .unlock ↔ o = .unlock := by
  cases o <;> simp [hear]
  split <;> simp

theorem hear_block_eq_cancel : o.hear (.block n) = .cancel ↔ o = .cancel := by
  cases o <;> simp [hear]
  split <;> simp

theorem hear_block_eq_lock : o.hear (.block n) = .lock e ↔ o = .lock e ∧ n < e := by
  cases o <;> simp [hear]
  split
  · rename_i h
    simp only [reduceCtorEq, false_iff, not_and, UInt64.not_lt]
    rintro rfl
    exact h
  · rename_i h
    simp only [lock.injEq]
    constructor
    · rintro rfl
      exact ⟨rfl, UInt64.not_le.mp h⟩
    · exact And.left

theorem hear_block_eq_expiration :
    o.hear (.block n) = .expiration ↔ o = .expiration ∨ ∃ e, o = .lock e ∧ e ≤ n := by
  cases o <;> simp [hear]

end Standing

/-- A block as the record of the lock sees it. -/
theorem hear_block_ofStatus {s : LockStatus} {e n : UInt64} :
    (ofStatus s e).hear (.block n) = if s = .lock ∧ e ≤ n then .expiration else ofStatus s e := by
  cases s <;> simp [ofStatus, hear]

/-- A lock begins once and before the block in which it ends; it ends while it stands. -/
def Due (past : List Report) (o : Hold) : Report → Prop
  | .lock e => o = .none ∧ ∀ n, .block n ∈ past → n < e
  | .unlock => o.Standing
  | .cancel => o.Standing
  | .block _ => True

variable {o₀ o o' : Hold} {l l' : List Report} {a : Report} {e : UInt64}

/-- The lock that ends at `e` was there at the start or has begun since. -/
def Begun (o₀ : Hold) (l : List Report) (e : UInt64) : Prop := o₀ = .lock e ∨ .lock e ∈ l

/-- What a lock has come to, by the reports alone. -/
structure Tracks (o₀ : Hold) (l : List Report) (o : Hold) : Prop where
  none : o = .none ↔ o₀ = .none ∧ ∀ e, .lock e ∉ l
  unlock : o = .unlock ↔ o₀ = .unlock ∨ .unlock ∈ l
  cancel : o = .cancel ↔ o₀ = .cancel ∨ .cancel ∈ l
  fresh : ∀ e, .lock e ∈ l → o₀ = .none
  once : ∀ e e', Begun o₀ l e → Begun o₀ l e' → e = e'
  lock : ∀ e, o = .lock e → Begun o₀ l e ∧ ∀ n, .block n ∈ l → n < e
  expired : o = .expiration → o₀ = .expiration ∨ ∃ e n, Begun o₀ l e ∧ .block n ∈ l ∧ e ≤ n

namespace Tracks

theorem start (o₀ : Hold) : Tracks o₀ [] o₀ where
  none := by simp
  unlock := by simp
  cancel := by simp
  fresh := by simp
  once := by
    rintro e e' (he | he) (he' | he')
    · rw [he] at he'
      cases he'
      rfl
    all_goals simp at he he'
  lock := by
    rintro e rfl
    exact ⟨.inl rfl, by simp⟩
  expired := .inl

/-- Nothing was locked of a lock that has not begun. -/
theorem not_begun (h : Tracks o₀ l .none) : ¬ Begun o₀ l e := by
  obtain ⟨h0, hl⟩ := h.none.mp rfl
  rintro (rfl | he)
  · cases h0
  · exact hl e he

theorem hear_lock (h : Tracks o₀ l o) (hd : o.Due l (.lock e)) : Tracks o₀ (.lock e :: l) (o.hear (.lock e)) := by
  obtain ⟨rfl, hn⟩ := hd
  have hb := fun e => h.not_begun (e := e)
  have h0 := h.none.mp rfl
  have hu := h.unlock
  have hc := h.cancel
  have hbegun : ∀ e', Begun o₀ (.lock e :: l) e' → e' = e := by
    rintro e' (he' | he')
    · exact absurd (.inl he') (hb e')
    · rcases List.mem_cons.mp he' with he' | he'
      · cases he'
        rfl
      · exact absurd (.inr he') (hb e')
  constructor
  · exact ⟨fun he' => (by cases he'), fun he' => absurd (List.mem_cons_self ..) (he'.2 e)⟩
  · simpa [hear] using hu
  · simpa [hear] using hc
  · exact fun _ _ => h0.1
  · exact fun e₁ e₂ h₁ h₂ => (hbegun e₁ h₁).trans (hbegun e₂ h₂).symm
  · rintro e' he'
    cases he'
    exact ⟨.inr (List.mem_cons_self ..), fun n hn' => hn n (by simpa using hn')⟩
  · intro he'
    cases he'

/-- A lock that stands ends with the secret. -/
theorem hear_unlock (h : Tracks o₀ l o) (hd : o.Standing) : Tracks o₀ (.unlock :: l) .unlock := by
  have hb : ∀ e, Begun o₀ (.unlock :: l) e ↔ Begun o₀ l e := by simp [Begun]
  have hnone : ¬ (o₀ = .none ∧ ∀ e, .lock e ∉ l) := fun hn => hd.ne_none (h.none.mpr hn)
  have hcancel : ¬ (o₀ = .cancel ∨ .cancel ∈ l) := fun hc => hd.ne_cancel (h.cancel.mpr hc)
  constructor
  · simpa using hnone
  · simp
  · simpa using hcancel
  · simpa using h.fresh
  · simpa only [hb] using h.once
  · intro e he
    cases he
  · intro he
    cases he

/-- A lock that stands is taken back. -/
theorem hear_cancel (h : Tracks o₀ l o) (hd : o.Standing) : Tracks o₀ (.cancel :: l) .cancel := by
  have hb : ∀ e, Begun o₀ (.cancel :: l) e ↔ Begun o₀ l e := by simp [Begun]
  have hnone : ¬ (o₀ = .none ∧ ∀ e, .lock e ∉ l) := fun hn => hd.ne_none (h.none.mpr hn)
  have hunlock : ¬ (o₀ = .unlock ∨ .unlock ∈ l) := fun hc => hd.ne_unlock (h.unlock.mpr hc)
  constructor
  · simpa using hnone
  · simpa using hunlock
  · simp
  · simpa using h.fresh
  · simpa only [hb] using h.once
  · intro e he
    cases he
  · intro he
    cases he

/-- A block ends the lock whose expiration it has reached and leaves every other. -/
theorem hear_block (h : Tracks o₀ l o) (n : UInt64) : Tracks o₀ (.block n :: l) (o.hear (.block n)) := by
  have hb : ∀ e, Begun o₀ (.block n :: l) e ↔ Begun o₀ l e := by simp [Begun]
  constructor
  · rw [hear_block_eq_none]
    simpa using h.none
  · rw [hear_block_eq_unlock]
    simpa using h.unlock
  · rw [hear_block_eq_cancel]
    simpa using h.cancel
  · simpa using h.fresh
  · simpa only [hb] using h.once
  · intro e he
    obtain ⟨rfl, hlt⟩ := hear_block_eq_lock.mp he
    obtain ⟨hbegun, hl⟩ := h.lock e rfl
    refine ⟨(hb e).mpr hbegun, fun m hm => ?_⟩
    rcases List.mem_cons.mp hm with hm | hm
    · cases hm
      exact hlt
    · exact hl m hm
  · intro he
    rcases hear_block_eq_expiration.mp he with rfl | ⟨e, rfl, hle⟩
    · rcases h.expired rfl with h0 | ⟨e, m, hbegun, hm, hle⟩
      · exact .inl h0
      · exact .inr ⟨e, m, (hb e).mpr hbegun, List.mem_cons_of_mem _ hm, hle⟩
    · exact .inr ⟨e, n, (hb e).mpr (h.lock e rfl).1, List.mem_cons_self .., hle⟩

/-- The step lemma: one more report that was due. -/
theorem hear (h : Tracks o₀ l o) (hd : o.Due l a) : Tracks o₀ (a :: l) (o.hear a) := by
  cases a with
  | lock e => exact h.hear_lock hd
  | unlock => exact h.hear_unlock hd
  | cancel => exact h.hear_cancel hd
  | block n => exact h.hear_block n

/-- The order of the reports does not matter. -/
theorem of_perm (h : Tracks o₀ l o) (hp : l.Perm l') : Tracks o₀ l' o := by
  have hm : ∀ a, a ∈ l' ↔ a ∈ l := fun a => hp.mem_iff.symm
  have hb : ∀ e, Begun o₀ l' e ↔ Begun o₀ l e := fun e => or_congr_right (hm _)
  constructor
  · simpa only [hm] using h.none
  · simpa only [hm] using h.unlock
  · simpa only [hm] using h.cancel
  · simpa only [hm] using h.fresh
  · simpa only [hb] using h.once
  · simpa only [hb, hm] using h.lock
  · simpa only [hb, hm] using h.expired

/-- A lock that begun at `e` has not expired while it is written down as standing. -/
theorem lock_ne_expired (h : Tracks o₀ l (.lock e)) : ¬ Tracks o₀ l .expiration := by
  intro h'
  obtain ⟨hbegun, hn⟩ := h.lock e rfl
  rcases h'.expired rfl with rfl | ⟨e', n, hbegun', hblock, hle⟩
  · rcases hbegun with he | he
    · cases he
    · cases h.fresh e he
  · have he : e' = e := h.once _ _ hbegun' hbegun
    have hlt := hn n hblock
    subst he
    exact absurd hle (UInt64.not_le.mpr hlt)

/-- The reports leave one state only. -/
theorem unique (h : Tracks o₀ l o) (h' : Tracks o₀ l o') : o = o' := by
  have hnone : o = .none ↔ o' = .none := h.none.trans h'.none.symm
  have hunlock : o = .unlock ↔ o' = .unlock := h.unlock.trans h'.unlock.symm
  have hcancel : o = .cancel ↔ o' = .cancel := h.cancel.trans h'.cancel.symm
  cases o with
  | none => exact (hnone.mp rfl).symm
  | unlock => exact (hunlock.mp rfl).symm
  | cancel => exact (hcancel.mp rfl).symm
  | lock e =>
    cases o' with
    | lock e' => rw [h.once _ _ (h.lock e rfl).1 (h'.lock e' rfl).1]
    | expiration => exact absurd h' h.lock_ne_expired
    | none => exact hnone.mpr rfl
    | unlock => exact hunlock.mpr rfl
    | cancel => exact hcancel.mpr rfl
  | expiration =>
    cases o' with
    | lock e' => exact absurd h h'.lock_ne_expired
    | expiration => rfl
    | none => exact hnone.mpr rfl
    | unlock => exact hunlock.mpr rfl
    | cancel => exact hcancel.mpr rfl

end Tracks

end Hold

/-- The two locks of a swap. -/
inductive Side where
  | user
  | notary
  deriving DecidableEq

/-- What an event does to a swap. The secret ends the lock of the notaries, and with it the user's
lock is collected. -/
inductive Effect where
  | lock (side : Side) (expiration : UInt64)
  | reveal (secret : Bytes32)
  | collect
  | cancel (side : Side)
  | block (side : Side) (number : UInt64)
  deriving DecidableEq

/-- What it says about one of the locks. -/
def Effect.report (side : Side) : Effect → Option Report
  | .lock s e => if s = side then some (.lock e) else none
  | .reveal _ => if side = .notary then some .unlock else none
  | .collect => if side = .user then some .unlock else none
  | .cancel s => if s = side then some .cancel else none
  | .block s n => if s = side then some (.block n) else none

structure Swap where
  user : Hold
  notary : Hold
  secret : Bytes32
  deriving DecidableEq

namespace Swap

/-- Nothing has happened yet. -/
def absent : Swap where
  user := .none
  notary := .none
  secret := emptyHash

def hold (w : Swap) : Side → Hold
  | .user => w.user
  | .notary => w.notary

def apply (w : Swap) (x : Effect) : Swap where
  user := (x.report .user).elim w.user w.user.hear
  notary := (x.report .notary).elim w.notary w.notary.hear
  secret :=
    match x with
    | .reveal s => s
    | _ => w.secret

def reports (side : Side) (l : List Effect) : List Report := l.filterMap (Effect.report side)

/-- The effect is due when each lock is ready for what it says about it. -/
def Due (past : List Effect) (w : Swap) (x : Effect) : Prop :=
  ∀ side, ∀ a ∈ x.report side, (w.hold side).Due (reports side past) a

/-- The lock was taken with the secret or taken back. -/
def Ended (w : Swap) (side : Side) : Prop := w.hold side = .unlock ∨ w.hold side = .cancel

/-- The effect can be seen in the swap. -/
def Shows (w : Swap) : Effect → Prop
  | .lock side _ => w.hold side ≠ .none
  | .reveal s => w.notary = .unlock ∧ w.secret = s
  | .collect => w.user = .unlock
  | .cancel side => w.hold side = .cancel
  | .block side n => ∀ e, w.hold side = .lock e → n < e

variable {w₀ w w' : Swap} {l l' : List Effect} {x : Effect} {side : Side}

theorem hold_apply : (w.apply x).hold side = (x.report side).elim (w.hold side) (w.hold side).hear := by
  cases side <;> rfl

theorem apply_block_user {n : UInt64} : w.apply (.block .user n) = { w with user := w.user.hear (.block n) } := rfl

theorem apply_block_notary {n : UInt64} :
    w.apply (.block .notary n) = { w with notary := w.notary.hear (.block n) } := rfl

/-- An effect that says one thing, about one lock, is due when that is due for the lock. -/
theorem due_of_report {past : List Effect} (side : Side) (a : Report)
    (hrep : ∀ s, x.report s = if s = side then some a else none) (h : (w.hold side).Due (reports side past) a) :
    w.Due past x := by
  intro s b hb
  rw [hrep] at hb
  split_ifs at hb with hs
  · obtain rfl := Option.some.inj hb
    exact hs ▸ h
  · cases hb

theorem due_lock {past : List Effect} {e : UInt64} (hnone : w.hold side = .none)
    (hn : ∀ n, .block n ∈ reports side past → n < e) : w.Due past (.lock side e) :=
  due_of_report side (.lock e) (fun s => by simp only [Effect.report, eq_comm]) ⟨hnone, hn⟩

theorem due_reveal {past : List Effect} {s : Bytes32} (h : w.notary.Standing) : w.Due past (.reveal s) :=
  due_of_report .notary .unlock (fun _ => rfl) h

theorem due_collect {past : List Effect} (h : w.user.Standing) : w.Due past .collect :=
  due_of_report .user .unlock (fun _ => rfl) h

theorem due_cancel {past : List Effect} (h : (w.hold side).Standing) : w.Due past (.cancel side) :=
  due_of_report side .cancel (fun s => by simp only [Effect.report, eq_comm]) h

theorem due_block {past : List Effect} {n : UInt64} : w.Due past (.block side n) :=
  due_of_report side (.block n) (fun s => by simp only [Effect.report, eq_comm]) trivial

theorem report_eq_block {n : UInt64} : x.report side = some (.block n) ↔ x = .block side n := by
  cases x with
  | block s m => by_cases hs : s = side <;> simp [Effect.report, hs]
  | _ => simp [Effect.report]

theorem mem_reports {a : Report} : a ∈ reports side l ↔ ∃ x ∈ l, x.report side = some a := List.mem_filterMap

theorem unlock_mem_reports {s : Bytes32} (h : .reveal s ∈ l) : .unlock ∈ reports .notary l :=
  mem_reports.mpr ⟨_, h, rfl⟩

/-- What a swap has come to, by the effects alone. -/
structure Tracks (w₀ : Swap) (l : List Effect) (w : Swap) : Prop where
  hold : ∀ side, Hold.Tracks (w₀.hold side) (reports side l) (w.hold side)
  secret : ∀ s, .reveal s ∈ l → w.secret = s
  kept : (∀ s, .reveal s ∉ l) → w.secret = w₀.secret

namespace Tracks

theorem start (w₀ : Swap) : Tracks w₀ [] w₀ where
  hold side := Hold.Tracks.start _
  secret := by simp
  kept _ := rfl

theorem hold_cons (h : Tracks w₀ l w) (hd : w.Due l x) (side : Side) :
    Hold.Tracks (w₀.hold side) (reports side (x :: l)) ((w.apply x).hold side) := by
  rw [hold_apply]
  unfold reports
  cases hx : x.report side with
  | none =>
    rw [List.filterMap_cons_none hx]
    exact h.hold side
  | some a =>
    rw [List.filterMap_cons_some hx]
    exact (h.hold side).hear (hd side a hx)

/-- The secret that is due is the first one. -/
theorem not_revealed {s s' : Bytes32} (h : Tracks w₀ l w) (hd : w.Due l (.reveal s)) : .reveal s' ∉ l := by
  intro hs
  have hstand : w.notary.Standing := hd .notary .unlock rfl
  exact hstand.ne_unlock ((h.hold .notary).unlock.mpr (.inr (unlock_mem_reports hs)))

/-- The step lemma: one more effect that was due. -/
theorem apply (h : Tracks w₀ l w) (hd : w.Due l x) : Tracks w₀ (x :: l) (w.apply x) := by
  refine ⟨h.hold_cons hd, fun s hs => ?_, fun hs => ?_⟩
  · rcases List.mem_cons.mp hs with rfl | hl
    · rfl
    · cases x with
      | reveal s' => exact absurd hl (h.not_revealed hd)
      | _ => exact h.secret s hl
  · have hl := h.kept fun s hmem => hs s (List.mem_cons_of_mem _ hmem)
    cases x with
    | reveal s' => exact absurd (List.mem_cons_self ..) (hs s')
    | _ => exact hl

theorem of_perm (h : Tracks w₀ l w) (hp : l.Perm l') : Tracks w₀ l' w := by
  refine ⟨fun side => (h.hold side).of_perm (hp.filterMap _), fun s hs => ?_, fun hs => ?_⟩
  · exact h.secret s (hp.mem_iff.mpr hs)
  · exact h.kept fun s hmem => hs s (hp.mem_iff.mp hmem)

theorem unique (h : Tracks w₀ l w) (h' : Tracks w₀ l w') : w = w' := by
  have huser : w.user = w'.user := (h.hold .user).unique (h'.hold .user)
  have hnotary : w.notary = w'.notary := (h.hold .notary).unique (h'.hold .notary)
  have hsecret : w.secret = w'.secret := by
    by_cases hs : ∃ s, .reveal s ∈ l
    · obtain ⟨s, hs⟩ := hs
      rw [h.secret s hs, h'.secret s hs]
    · have hs' : ∀ s, .reveal s ∉ l := fun s hmem => hs ⟨s, hmem⟩
      rw [h.kept hs', h'.kept hs']
  cases w
  cases w'
  simp only [mk.injEq]
  exact ⟨huser, hnotary, hsecret⟩

/-- Every effect that was due can still be seen. -/
theorem shows (h : Tracks w₀ l w) (hx : x ∈ l) : w.Shows x := by
  cases x with
  | lock side e =>
    have he : .lock e ∈ reports side l := mem_reports.mpr ⟨_, hx, if_pos rfl⟩
    exact fun hn => ((h.hold side).none.mp hn).2 e he
  | reveal s => exact ⟨(h.hold .notary).unlock.mpr (.inr (unlock_mem_reports hx)), h.secret s hx⟩
  | collect => exact (h.hold .user).unlock.mpr (.inr (mem_reports.mpr ⟨_, hx, rfl⟩))
  | cancel side => exact (h.hold side).cancel.mpr (.inr (mem_reports.mpr ⟨_, hx, if_pos rfl⟩))
  | block side n =>
    have hn : .block n ∈ reports side l := mem_reports.mpr ⟨_, hx, if_pos rfl⟩
    exact fun e he => ((h.hold side).lock e he).2 n hn

/-- A lock that has ended stays as it ended. -/
theorem ended (h : Tracks w₀ l w) (h' : Tracks w₀ (l' ++ l) w') (hend : w.Ended side) :
    w'.hold side = w.hold side := by
  have hsub : ∀ a ∈ reports side l, a ∈ reports side (l' ++ l) := by
    intro a ha
    obtain ⟨x, hx, hxa⟩ := mem_reports.mp ha
    exact mem_reports.mpr ⟨x, List.mem_append_right _ hx, hxa⟩
  rcases hend with he | he
  · rw [he]
    exact (h'.hold side).unlock.mpr (((h.hold side).unlock.mp he).imp_right (hsub _))
  · rw [he]
    exact (h'.hold side).cancel.mpr (((h.hold side).cancel.mp he).imp_right (hsub _))

end Tracks

end Swap

end DistributedNotary.Service
