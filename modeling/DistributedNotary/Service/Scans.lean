import DistributedNotary.Library.Deadlines
import DistributedNotary.Service.StoreEvents

/-! A scan of the records in memory for locks that have run out. It marks a record
in memory before the database accepts it and stops at the first failure. For its
caller, who drops what a failed scan has found, it is a step of the deadlines of
the locks that stand. -/
namespace DistributedNotary.Service

open Library Contracts

section Scans

namespace Handler

variable {ρ : Type} {kind : RecordKind ρ} {expire : ρ → Option ρ} {order : List Bytes32} {lh lh₁ lh' : Handler kind}
  {h : Bytes32} {r info : ρ} {rs : List ρ}

/-- The mutex is free and every record in memory has its row in the table. -/
structure Ready (lh : Handler kind) : Prop where
  free : lh.dealingMapLock = false
  stored : ∀ h r, lh.dealingMap.lookup h = some r → (lh.db.lookup h).isSome = true

/-- The scan has handed over what expires in it, in order, and the database has accepted all of it. -/
structure Scanned (expire : ρ → Option ρ) (order : List Bytes32) (lh lh' : Handler kind) (rs : List ρ) : Prop where
  handed : rs.map kind.secretHash = order.filter fun h => ((lh.dealingMap.lookup h).bind expire).isSome
  dealing : ∀ h, lh'.dealingMap.lookup h =
    if h ∈ order then (lh.dealingMap.lookup h).map (expired expire) else lh.dealingMap.lookup h
  saves : ∀ h ∈ order, ∀ r, lh.dealingMap.lookup h = some r → (expire r).isSome = true → lh.dbFails h = false

/-- The scan has failed at a record that it had marked, and has marked nothing but what expires. -/
structure Broken (expire : ρ → Option ρ) (order : List Bytes32) (lh lh' : Handler kind) : Prop where
  lost : ∃ h ∈ order, ∃ r r', lh.dealingMap.lookup h = some r ∧ expire r = some r' ∧ lh.dbFails h = true ∧
    lh'.dealingMap.lookup h = some r'
  dealing : ∀ h, lh'.dealingMap.lookup h = lh.dealingMap.lookup h ∨
    ∃ r r', lh.dealingMap.lookup h = some r ∧ expire r = some r' ∧ lh'.dealingMap.lookup h = some r'

def Scans (expire : ρ → Option ρ) (order : List Bytes32) (lh : Handler kind)
    (x : Handler kind × Except Failure (List ρ)) : Prop :=
  x.1.Ready ∧
    match x.2 with
    | .ok rs => Scanned expire order lh x.1 rs
    | .error _ => Broken expire order lh x.1

theorem Ready.assign (hr : lh.Ready) : (lh.assign info).Ready where
  free := by simpa using hr.free
  stored k r hk := by
    rw [assign_db]
    rw [assign_dealing] at hk
    by_cases hd : (lh.dealingMap.lookup k).isSome
    · obtain ⟨r', hr'⟩ := Option.isSome_iff_exists.mp hd
      exact hr.stored k r' hr'
    · rw [if_neg (fun hc => hd hc.2)] at hk
      exact hr.stored k r hk

theorem Ready.saved (hr : lh.Ready) : ({ lh.assign info with db := lh.db.put info } : Handler kind).Ready where
  free := hr.assign.free
  stored k r hk := by
    have hs := hr.assign.stored k r hk
    rw [assign_db] at hs
    dsimp only
    rw [RecordMap.lookup_put]
    split_ifs
    · rfl
    · exact hs

theorem expired_of_none (hn : expire r = none) : expired expire r = r := by
  simp [expired, hn]

/-- The scan passes a record that does not expire. -/
theorem Scans.pass {x : Handler kind × Except Failure (List ρ)} (hs : Scans expire order lh x)
    (hi : (lh.dealingMap.lookup h).bind expire = none) : Scans expire (h :: order) lh x := by
  obtain ⟨hready, hx⟩ := hs
  refine ⟨hready, ?_⟩
  have hidle : (lh.dealingMap.lookup h).map (expired expire) = lh.dealingMap.lookup h := by
    cases hd : lh.dealingMap.lookup h with
    | none => rfl
    | some r =>
      rw [hd, Option.bind_some] at hi
      rw [Option.map_some, expired_of_none hi]
  cases hres : x.2 with
  | ok rs =>
    rw [hres] at hx
    refine ⟨?_, fun k => ?_, fun k hk r hd he => ?_⟩
    · rw [List.filter_cons, hi]
      exact hx.handed
    · rw [hx.dealing]
      by_cases hk : k = h
      · subst hk
        rw [if_pos (List.mem_cons_self), hidle, ite_self]
      · simp [hk]
    · rcases List.mem_cons.mp hk with rfl | hk
      · rw [hd, Option.bind_some] at hi
        rw [hi] at he
        cases he
      · exact hx.saves k hk r hd he
  | error e =>
    rw [hres] at hx
    obtain ⟨k, hk, hlost⟩ := hx.lost
    exact ⟨⟨k, .tail h hk, hlost⟩, hx.dealing⟩

/-- The scan stops at a record that the database refuses. -/
theorem Scans.stop {e : Failure} (hr : lh.Ready) (hd : lh.dealingMap.lookup h = some r) (he : expire r = some info)
    (hkey : kind.secretHash info = h) (hf : lh.dbFails h = true) :
    Scans expire (h :: order) lh (lh.assign info, .error e) := by
  subst hkey
  have hd' : (lh.assign info).dealingMap.lookup (kind.secretHash info) = some info := by
    rw [assign_dealing, hd]
    exact if_pos ⟨rfl, rfl⟩
  refine ⟨hr.assign, ⟨_, .head order, r, info, hd, he, hf, hd'⟩, fun k => ?_⟩
  by_cases hk : k = kind.secretHash info
  · subst hk
    exact .inr ⟨r, info, hd, he, hd'⟩
  · left
    dsimp only
    rw [assign_dealing, if_neg (fun hc => hk hc.1)]

/-- The scan goes on behind a record that the database has accepted. -/
theorem Scans.save {x : Handler kind × Except Failure (List ρ)} (hs : Scans expire order lh₁ x) (hh : h ∉ order)
    (hexp : Expiry kind expire) (hd : lh.dealingMap.lookup h = some r) (he : expire r = some info)
    (hw : lh.dbFails h = false) (hfails : lh₁.dbFails = lh.dbFails) (hd₁ : lh₁.dealingMap.lookup h = some info)
    (hrest : ∀ k, k ≠ h → lh₁.dealingMap.lookup k = lh.dealingMap.lookup k) :
    Scans expire (h :: order) lh (x.1, x.2.map (info :: ·)) := by
  obtain ⟨hready, hx⟩ := hs
  have hkey : kind.secretHash info = h := (hexp r info he).1.trans (RecordMap.secretHash_of_lookup hd)
  have hne (k : Bytes32) (hk : k ∈ order) : k ≠ h := fun hc => hh (hc ▸ hk)
  refine ⟨hready, ?_⟩
  cases hres : x.2 with
  | ok rs =>
    rw [hres] at hx
    refine ⟨?_, fun k => ?_, fun k hk r' hd' he' => ?_⟩
    · rw [List.map_cons, hkey, hx.handed, List.filter_cons, hd, Option.bind_some, he]
      refine congrArg (h :: ·) (List.filter_congr fun k hk => ?_)
      rw [hrest k (hne k hk)]
    · rw [hx.dealing]
      by_cases hk : k = h
      · subst hk
        rw [if_neg hh, if_pos List.mem_cons_self, hd₁, hd]
        simp [expired, he]
      · rw [hrest k hk]
        simp [hk]
    · rcases List.mem_cons.mp hk with rfl | hk
      · exact hw
      · rw [← hfails]
        exact hx.saves k hk r' ((hrest k (hne k hk)).trans hd') he'
  | error e =>
    rw [hres] at hx
    obtain ⟨k, hk, r₁, r', hlook, hmark, hf, hlost⟩ := hx.lost
    refine ⟨⟨k, .tail h hk, r₁, r', (hrest k (hne k hk)).symm.trans hlook, hmark, hfails ▸ hf, hlost⟩, fun k => ?_⟩
    by_cases hk : k = h
    · subst hk
      rcases hx.dealing k with hsame | ⟨r₁, r', hlook, hmark, -⟩
      · exact .inr ⟨r, info, hd, he, hsame.trans hd₁⟩
      · rw [hd₁] at hlook
        cases hlook
        rw [(hexp r info he).2] at hmark
        cases hmark
    · rw [← hrest k hk]
      exact hx.dealing k

/-- What a scan comes to, whatever the database does. -/
theorem expireAll_scans (hexp : Expiry kind expire) (hr : lh.Ready) (hnodup : order.Nodup) :
    Scans expire order lh (expireAll expire lh order) := by
  induction order generalizing lh with
  | nil => exact ⟨hr, rfl, fun k => (if_neg List.not_mem_nil).symm, fun k hk => absurd hk List.not_mem_nil⟩
  | cons h order ih =>
    obtain ⟨hh, hrest⟩ := List.nodup_cons.mp hnodup
    cases hi : (lh.dealingMap.lookup h).bind expire with
    | none =>
      rw [expireAll_pass hi]
      exact (ih hr hrest).pass hi
    | some info =>
      obtain ⟨r, hd, he⟩ := Option.bind_eq_some_iff.mp hi
      have hkey : kind.secretHash info = h := (hexp r info he).1.trans (RecordMap.secretHash_of_lookup hd)
      obtain ⟨row, hrow⟩ := Option.isSome_iff_exists.mp (hr.stored h r hd)
      by_cases hf : lh.dbFails h = true
      · obtain ⟨text, hrun⟩ := expireAll_refused hi hkey hf
        rw [hrun]
        exact Scans.stop hr hd he hkey hf
      · have hw : lh.dbFails h = false := by simpa using hf
        rw [expireAll_saved hi hkey hw hrow]
        subst hkey
        refine (ih hr.saved hrest).save hh hexp hd he hw assign_dbFails ?_ fun k hk => ?_
        · rw [assign_dealing, hd]
          exact if_pos ⟨rfl, rfl⟩
        · dsimp only
          rw [assign_dealing, if_neg (fun hc => hk hc.1)]

end Handler

end Scans

section Legs

open Deadlines

variable {ρ : Type} {kind : RecordKind ρ}

/-- The leg of a record that one chain's blocks are to end: when its lock runs out while it stands, and what a block
does to it. -/
structure LockLeg (kind : RecordKind ρ) where
  standing : ρ → Option UInt64
  expire : UInt64 → ρ → Option ρ
  expiry : ∀ n, Handler.Expiry kind (expire n)
  expires : ∀ n r, (expire n r).isSome = true ↔ ∃ e, standing r = some e ∧ e ≤ n
  ended : ∀ n r r', expire n r = some r' → standing r' = none

namespace LockLeg

section Statuses

variable (status : ρ → LockStatus) (expiration : ρ → UInt64) (mark : ρ → ρ)

theorem expires_ite (n : UInt64) (r : ρ) :
    (if status r = .lock ∧ expiration r ≤ n then some (mark r) else none).isSome = true ↔
      ∃ e, (if status r = .lock then some (expiration r) else none) = some e ∧ e ≤ n := by
  by_cases hl : status r = .lock
  · by_cases hn : expiration r ≤ n <;> simp [hl, hn]
  · simp [hl]

theorem ended_ite (hmark : ∀ r, status (mark r) = .expiration) (n : UInt64) (r r' : ρ)
    (h : (if status r = .lock ∧ expiration r ≤ n then some (mark r) else none) = some r') :
    (if status r' = .lock then some (expiration r') else none) = none := by
  obtain ⟨-, h⟩ := Option.ite_none_right_eq_some.mp h
  cases h
  simp [hmark]

theorem expiry_mark (hkey : ∀ r, kind.secretHash (mark r) = kind.secretHash r)
    (hmark : ∀ r, status (mark r) = .expiration) (n : UInt64) :
    Handler.Expiry kind fun r => if status r = .lock ∧ expiration r ≤ n then some (mark r) else none :=
  Handler.expiry_ite hkey fun r hc => by simp [hmark] at hc

/-- The leg with a status of its own, which a block sets to expired. -/
def ofStatus (hkey : ∀ r, kind.secretHash (mark r) = kind.secretHash r)
    (hmark : ∀ r, status (mark r) = .expiration) : LockLeg kind where
  standing r := if status r = .lock then some (expiration r) else none
  expire n r := if status r = .lock ∧ expiration r ≤ n then some (mark r) else none
  expiry := expiry_mark status expiration mark hkey hmark
  expires := expires_ite status expiration mark
  ended := ended_ite status expiration mark hmark

end Statuses

variable (leg : LockLeg kind) {lh lh' : Handler kind} {n : UInt64} {order : List Bytes32} {h : Bytes32}

/-- When the locks in memory run out. -/
def deadlines (lh : Handler kind) (h : Bytes32) : Option UInt64 := (lh.dealingMap.lookup h).bind leg.standing

/-- What a scan comes to for the caller, who drops the records of one that failed. -/
def outcome (kind : RecordKind ρ) (n : UInt64) : Except Failure (List ρ) → Outcome Bytes32 UInt64
  | .ok rs => .done n (rs.map kind.secretHash)
  | .error _ => .failed n

/-- The database accepts every record whose lock stands in memory and runs out by `n`. -/
def Saves (lh : Handler kind) (n : UInt64) : Prop :=
  ∀ h r e, lh.dealingMap.lookup h = some r → leg.standing r = some e → e ≤ n → lh.dbFails h = false

variable {leg}

theorem due_iff : Due (leg.deadlines lh) n h ↔ ∃ r, lh.dealingMap.lookup h = some r ∧ (leg.expire n r).isSome := by
  constructor
  · rintro ⟨e, he, hle⟩
    obtain ⟨r, hr, hs⟩ := Option.bind_eq_some_iff.mp he
    exact ⟨r, hr, (leg.expires n r).mpr ⟨e, hs, hle⟩⟩
  · rintro ⟨r, hr, hs⟩
    obtain ⟨e, hs, hle⟩ := (leg.expires n r).mp hs
    exact ⟨e, Option.bind_eq_some_iff.mpr ⟨r, hr, hs⟩, hle⟩

theorem mem_order {x : Bytes32} {r : ρ} (hperm : order.Perm lh.dealingMap.entries.keys)
    (hr : lh.dealingMap.lookup x = some r) : x ∈ order := hperm.mem_iff.mpr (RangeMap.mem_keys_of_lookup hr)

theorem nodup_order (hperm : order.Perm lh.dealingMap.entries.keys) : order.Nodup :=
  hperm.nodup_iff.mpr lh.dealingMap.entries.keys_nodup

variable (leg)

/-- A scan of all records in memory is a step of their deadlines. -/
theorem step_of_scan {x : Handler kind × Except Failure (List ρ)} (hperm : order.Perm lh.dealingMap.entries.keys)
    (hs : Handler.Scans (leg.expire n) order lh x) :
    Step (leg.deadlines lh) (leg.deadlines x.1) (outcome kind n x.2) := by
  obtain ⟨-, hx⟩ := hs
  -- what has been marked stands no more
  have gone {k : Bytes32} {r r' : ρ} (he : leg.expire n r = some r') (hk : x.1.dealingMap.lookup k = some r') :
      leg.deadlines x.1 k = none := by
    unfold deadlines
    rw [hk]
    exact leg.ended n r r' he
  cases hres : x.2 with
  | ok rs =>
    rw [hres] at hx
    have hmem (k : Bytes32) : k ∈ rs.map kind.secretHash ↔ Due (leg.deadlines lh) n k := by
      rw [hx.handed, List.mem_filter, due_iff]
      constructor
      · rintro ⟨-, hk⟩
        obtain ⟨r', hr'⟩ := Option.isSome_iff_exists.mp hk
        obtain ⟨r, hr, he⟩ := Option.bind_eq_some_iff.mp hr'
        exact ⟨r, hr, Option.isSome_of_eq_some he⟩
      · rintro ⟨r, hr, he⟩
        exact ⟨mem_order hperm hr, by rwa [hr]⟩
    refine .done ?_ hmem (fun k hk => ?_) fun k hk => ?_
    · rw [hx.handed]
      exact (nodup_order hperm).filter _
    · obtain ⟨r, hr, he⟩ := due_iff.mp ((hmem k).mp hk)
      obtain ⟨r', he⟩ := Option.isSome_iff_exists.mp he
      refine gone he ?_
      rw [hx.dealing, if_pos (mem_order hperm hr), hr, Option.map_some, Handler.expired, he, Option.getD_some]
    · have hsame : x.1.dealingMap.lookup k = lh.dealingMap.lookup k := by
        rw [hx.dealing]
        cases hr : lh.dealingMap.lookup k with
        | none => simp
        | some r =>
          have hn : leg.expire n r = none := by
            by_contra he
            exact hk ((hmem k).mpr (due_iff.mpr ⟨r, hr, Option.isSome_iff_ne_none.mpr he⟩))
          rw [if_pos (mem_order hperm hr), Option.map_some, Handler.expired_of_none hn]
      unfold deadlines
      rw [hsame]
  | error e =>
    rw [hres] at hx
    refine .failed ?_ fun k => ?_
    · obtain ⟨k, -, r, r', hr, he, -, hk⟩ := hx.lost
      exact ⟨k, due_iff.mpr ⟨r, hr, Option.isSome_of_eq_some he⟩, gone he hk⟩
    · rcases hx.dealing k with hsame | ⟨r, r', hr, he, hk⟩
      · left
        unfold deadlines
        rw [hsame]
      · exact .inr ⟨due_iff.mpr ⟨r, hr, Option.isSome_of_eq_some he⟩, gone he hk⟩

/-- A scan succeeds exactly when the database accepts all that the block ends. -/
theorem scan_ok_iff {x : Handler kind × Except Failure (List ρ)} (hperm : order.Perm lh.dealingMap.entries.keys)
    (hs : Handler.Scans (leg.expire n) order lh x) : (∃ rs, x.2 = .ok rs) ↔ leg.Saves lh n := by
  obtain ⟨-, hx⟩ := hs
  cases hres : x.2 with
  | ok rs =>
    rw [hres] at hx
    refine iff_of_true ⟨rs, rfl⟩ fun k r e hr he hle => ?_
    exact hx.saves k (mem_order hperm hr) r hr ((leg.expires n r).mpr ⟨e, he, hle⟩)
  | error e =>
    rw [hres] at hx
    refine iff_of_false (fun ⟨rs, hrs⟩ => by cases hrs) fun hsaves => ?_
    obtain ⟨k, -, r, r', hr, he, hf, -⟩ := hx.lost
    obtain ⟨e, hs, hle⟩ := (leg.expires n r).mp (Option.isSome_of_eq_some he)
    have hw := hsaves k r e hr hs hle
    rw [hf] at hw
    cases hw

/-- A scan for the other leg leaves the deadlines of this one. -/
theorem deadlines_of_scan {expire : ρ → Option ρ} {x : Handler kind × Except Failure (List ρ)}
    (hkeep : ∀ r r', expire r = some r' → leg.standing r' = leg.standing r)
    (hs : Handler.Scans expire order lh x) : leg.deadlines x.1 = leg.deadlines lh := by
  obtain ⟨-, hx⟩ := hs
  funext k
  unfold deadlines
  cases hres : x.2 with
  | ok rs =>
    rw [hres] at hx
    rw [hx.dealing]
    split_ifs
    · cases hr : lh.dealingMap.lookup k with
      | none => rfl
      | some r =>
        rw [Option.map_some, Option.bind_some, Option.bind_some, Handler.expired]
        cases he : expire r with
        | none => rfl
        | some r' => exact hkeep r r' he
    · rfl
  | error e =>
    rw [hres] at hx
    rcases hx.dealing k with hsame | ⟨r, r', hr, he, hk⟩
    · rw [hsame]
    · rw [hk, hr]
      exact hkeep r r' he

end LockLeg

/-- A lock of a user on the main chain, which a block ends without more. -/
def lockinMCLeg : LockLeg lockinKind :=
  .ofStatus LockinInfo.mcLockStatus LockinInfo.mcExpiration (fun l => { l with mcLockStatus := .expiration })
    (fun _ => rfl) fun _ => rfl

/-- A lock of the notaries on the side chain, to be cancelled when it has run out. -/
def lockinSCLeg : LockLeg lockinKind :=
  .ofStatus LockinInfo.scLockStatus LockinInfo.scExpiration (fun l => { l with scLockStatus := .expiration })
    (fun _ => rfl) fun _ => rfl

/-- A lock of the notaries on the main chain, to be cancelled when it has run out. -/
def lockoutMCLeg : LockLeg lockoutKind :=
  .ofStatus LockoutInfo.mcLockStatus LockoutInfo.mcExpiration (fun l => { l with mcLockStatus := .expiration })
    (fun _ => rfl) fun _ => rfl

end Legs

end DistributedNotary.Service
