import DistributedNotary.Library.Totals

/-! Swaps of two legs. A user puts an amount up on one ledger, and is answered by
a counter leg of no more than that on another one. Whoever redeems the counter
leg gives the user's leg away, and it is claimed; it can be claimed first, too.
What is put up, and not given away, and what is still promised for a leg that was
claimed, only gets less unless somebody puts up more. -/
namespace DistributedNotary.Library

/-- What a counter leg stands for: nothing, the leg of a user, one that was claimed, or one that was taken back. -/
inductive Stand (κ : Type*)
  | vacant
  | on (k : κ)
  | claimed
  | void

namespace Stand

variable {κ : Type*}

/-- What a counter leg pays that was promised. -/
def owes (x : ℕ) : Stand κ → ℕ
  | claimed => x
  | _ => 0

/-- The legs of users that are given away when a counter leg is redeemed. -/
def give [DecidableEq κ] (given : κ → Bool) : Stand κ → κ → Bool
  | on m => Function.update given m true
  | _ => given

/-- What a counter leg stands for when the leg of the user is gone. -/
def leave [DecidableEq κ] (m : κ) : Stand κ → Stand κ → Stand κ
  | on k, s => if k = m then s else on k
  | s', _ => s'

end Stand

/-- The counter legs, and whether the leg of a user has been given away for one. -/
structure Legs (κ : Type*) where
  stand : κ → Stand κ := fun _ => .vacant
  given : κ → Bool := fun _ => false

namespace Legs

variable {κ : Type*} [DecidableEq κ]

/-- A user has put up a leg. -/
def putUp (L : Legs κ) (m : κ) : Legs κ := { L with given := Function.update L.given m false }

/-- The leg of a user is gone, and the counter leg on it stands for `s`. -/
def leave (L : Legs κ) (m : κ) (s : Stand κ) : Legs κ where
  stand n := (L.stand n).leave m s
  given := Function.update L.given m false

/-- A counter leg for the leg of a user. -/
def answer (L : Legs κ) (n m : κ) : Legs κ := { L with stand := Function.update L.stand n (.on m) }

/-- A counter leg that is gone without an effect. -/
def drop (L : Legs κ) (n : κ) : Legs κ := { L with stand := Function.update L.stand n .vacant }

/-- A counter leg that is redeemed. -/
def redeem (L : Legs κ) (n : κ) : Legs κ where
  stand := Function.update L.stand n .vacant
  given := (L.stand n).give L.given

/-- A counter leg stands on the leg of the user. -/
def Answered (L : Legs κ) (m : κ) : Prop := ∃ n, L.stand n = .on m

section Sums

variable [Fintype κ] (a v : κ → ℕ) (L : Legs κ)

/-- What users have put up and not given away. -/
def kept : ℕ := total fun m => if L.given m = true then 0 else a m

/-- What is promised for legs that were claimed. -/
def promised : ℕ := total fun n => (L.stand n).owes (v n)

end Sums

/-- The legs `a` of users and the counter legs `v`, of which those in `alive` can be redeemed. -/
structure Fits (a v : κ → ℕ) (alive : κ → Prop) (L : Legs κ) : Prop where
  covered : ∀ n m, L.stand n = .on m → v n ≤ a m ∧ v n ≠ 0 ∧ L.given m = false
  single : ∀ n n' m, L.stand n = .on m → L.stand n' = .on m → n = n'
  vacant : ∀ n, L.stand n = .vacant → v n = 0
  void : ∀ n, L.stand n = .void → ¬ alive n

section Steps

variable {a v : κ → ℕ} {alive alive' : κ → Prop} {L : Legs κ} {m n : κ} {x : ℕ}

omit [DecidableEq κ] in
theorem Fits.new : Fits (fun _ : κ => 0) (fun _ => 0) alive {} where
  covered _ _ h := nomatch h
  single _ _ _ h := nomatch h
  vacant _ _ := rfl
  void _ h := nomatch h

omit [DecidableEq κ] in
theorem Fits.mono (h : Fits a v alive L) (hle : ∀ k, alive' k → alive k) : Fits a v alive' L :=
  { h with void := fun n hn ha => h.void n hn (hle n ha) }

theorem Fits.putUp (h : Fits a v alive L) (hm : a m = 0) : Fits (Function.update a m x) v alive (L.putUp m) where
  covered n k hk := by
    obtain ⟨hle, hne, hgiven⟩ := h.covered n k hk
    have hkm : k ≠ m := by
      rintro rfl
      omega
    simp only [Legs.putUp, Function.update_of_ne hkm]
    exact ⟨hle, hne, hgiven⟩
  single := h.single
  vacant := h.vacant
  void := h.void

theorem stand_leave_eq {s : Stand κ} {k : κ} (hs : s ≠ .on k) :
    (L.leave m s).stand n = .on k ↔ L.stand n = .on k ∧ k ≠ m := by
  simp only [leave]
  cases hn : L.stand n with
  | on k' =>
    by_cases hk : k' = m
    · subst hk
      simp only [Stand.leave, if_true, Stand.on.injEq]
      constructor
      · exact fun h => absurd h hs
      · rintro ⟨rfl, hne⟩
        exact absurd rfl hne
    · simp only [Stand.leave, hk, if_false, Stand.on.injEq]
      constructor
      · rintro rfl
        exact ⟨rfl, hk⟩
      · exact And.left
  | _ => simp [Stand.leave]

/-- The leg of a user is claimed, or taken back when no counter leg on it can be redeemed any more. -/
theorem Fits.leave (h : Fits a v alive L) {s : Stand κ}
    (hs : s = .claimed ∨ (s = .void ∧ ∀ n, L.stand n = .on m → ¬ alive n)) :
    Fits (Function.update a m 0) v alive (L.leave m s) := by
  have hon : ∀ k, s ≠ .on k := by
    rcases hs with rfl | ⟨rfl, -⟩ <;> exact fun k h => nomatch h
  refine ⟨fun n k hk => ?_, fun n n' k hk hk' => ?_, fun n hn => ?_, fun n hn => ?_⟩
  · obtain ⟨hk, hne⟩ := (stand_leave_eq (hon k)).mp hk
    obtain ⟨hle, hne', hgiven⟩ := h.covered n k hk
    simp only [Legs.leave, Function.update_of_ne hne]
    exact ⟨hle, hne', hgiven⟩
  · exact h.single n n' k ((stand_leave_eq (hon k)).mp hk).1 ((stand_leave_eq (hon k)).mp hk').1
  · refine h.vacant n ?_
    simp only [Legs.leave] at hn
    cases hstand : L.stand n with
    | on k =>
      simp only [hstand, Stand.leave] at hn
      split_ifs at hn
      rcases hs with rfl | ⟨rfl, -⟩ <;> exact nomatch hn
    | vacant => rfl
    | _ => simp [hstand, Stand.leave] at hn
  · simp only [Legs.leave] at hn
    cases hstand : L.stand n with
    | on k =>
      simp only [hstand, Stand.leave] at hn
      split_ifs at hn with hk
      rcases hs with rfl | ⟨rfl, hdead⟩
      · exact nomatch hn
      · exact hdead n (hk ▸ hstand)
    | void => exact h.void n hstand
    | _ => simp [hstand, Stand.leave] at hn

theorem Fits.answer (h : Fits a v alive L) (halive : ∀ k, k ≠ n → alive' k → alive k) (hx : x ≠ 0) (hle : x ≤ a m)
    (hgiven : L.given m = false) (hfree : ¬ L.Answered m) : Fits a (Function.update v n x) alive' (L.answer n m) := by
  have hstand (k : κ) : (L.answer n m).stand k = if k = n then .on m else L.stand k := by
    simp only [Legs.answer, Function.update_apply]
  refine ⟨fun k m' hk => ?_, fun k k' m' hk hk' => ?_, fun k hk => ?_, fun k hk => ?_⟩
  all_goals rw [hstand] at hk
  · split_ifs at hk with hkn
    · obtain rfl := Stand.on.inj hk
      subst hkn
      simp only [Function.update_self]
      exact ⟨hle, hx, hgiven⟩
    · rw [Function.update_of_ne hkn]
      exact h.covered k m' hk
  · rw [hstand] at hk'
    split_ifs at hk hk' with hkn hkn' hkn'
    · exact hkn.trans hkn'.symm
    · obtain rfl := Stand.on.inj hk
      exact absurd ⟨k', hk'⟩ hfree
    · obtain rfl := Stand.on.inj hk'
      exact absurd ⟨k, hk⟩ hfree
    · exact h.single k k' m' hk hk'
  · split_ifs at hk with hkn
    rw [Function.update_of_ne hkn]
    exact h.vacant k hk
  · split_ifs at hk with hkn
    exact fun ha => h.void k hk (halive k hkn ha)

theorem Fits.vacate (h : Fits a v alive L) (halive : ∀ k, k ≠ n → alive' k → alive k) {given : κ → Bool}
    (hgiven : ∀ k m, k ≠ n → L.stand k = .on m → given m = false) :
    Fits a (Function.update v n 0) alive' { stand := Function.update L.stand n .vacant, given := given } := by
  refine ⟨fun k m' hk => ?_, fun k k' m' hk hk' => ?_, fun k hk => ?_, fun k hk => ?_⟩
  all_goals simp only [Function.update_apply] at hk
  · split_ifs at hk with hkn
    rw [Function.update_of_ne hkn]
    obtain ⟨hle, hne, -⟩ := h.covered k m' hk
    exact ⟨hle, hne, hgiven k m' hkn hk⟩
  · simp only [Function.update_apply] at hk'
    split_ifs at hk hk'
    exact h.single k k' m' hk hk'
  · split_ifs at hk with hkn
    · rw [hkn, Function.update_self]
    · rw [Function.update_of_ne hkn]
      exact h.vacant k hk
  · split_ifs at hk with hkn
    exact fun ha => h.void k hk (halive k hkn ha)

theorem Fits.drop (h : Fits a v alive L) (halive : ∀ k, k ≠ n → alive' k → alive k) :
    Fits a (Function.update v n 0) alive' (L.drop n) :=
  h.vacate halive fun k m _ hk => (h.covered k m hk).2.2

theorem Fits.redeem (h : Fits a v alive L) (halive : ∀ k, k ≠ n → alive' k → alive k) :
    Fits a (Function.update v n 0) alive' (L.redeem n) := by
  refine h.vacate halive fun k m hk hstand => ?_
  cases hn : L.stand n with
  | on m' =>
    have hne : m ≠ m' := by
      rintro rfl
      exact hk (h.single k n m hstand hn)
    simp only [Stand.give, Function.update_of_ne hne]
    exact (h.covered k m hstand).2.2
  | _ => exact (h.covered k m hstand).2.2

variable [Fintype κ]

theorem kept_putUp (hm : a m = 0) : kept (Function.update a m x) (L.putUp m) = kept a L + x := by
  have hsum := total_update (fun k => if L.given k = true then 0 else a k) m x
  have hfun : (fun k => if (L.putUp m).given k = true then 0 else Function.update a m x k) =
      Function.update (fun k => if L.given k = true then 0 else a k) m x := by
    funext k
    by_cases hk : k = m
    · subst hk
      simp [Legs.putUp]
    · simp [Legs.putUp, Function.update_of_ne hk]
  simp only [hm, ite_self, Nat.add_zero] at hsum
  unfold kept
  rw [hfun, hsum]

theorem kept_leave {s : Stand κ} :
    kept (Function.update a m 0) (L.leave m s) + (if L.given m = true then 0 else a m) = kept a L := by
  have hsum := total_update (fun k => if L.given k = true then 0 else a k) m 0
  have hfun : (fun k => if (L.leave m s).given k = true then 0 else Function.update a m 0 k) =
      Function.update (fun k => if L.given k = true then 0 else a k) m 0 := by
    funext k
    by_cases hk : k = m
    · subst hk
      simp [Legs.leave]
    · simp [Legs.leave, Function.update_of_ne hk]
  unfold kept
  rw [hfun, hsum, Nat.add_zero]

theorem promised_putUp : promised v (L.putUp m) = promised v L := rfl

/-- A counter leg is promised when the leg that it stands on is claimed, and covered by it. -/
theorem Fits.promised_claim (h : Fits a v alive L) :
    promised v (L.leave m .claimed) ≤ promised v L + if L.given m = true then 0 else a m := by
  by_cases hans : L.Answered m
  · obtain ⟨n, hn⟩ := hans
    obtain ⟨hle, -, hgiven⟩ := h.covered n m hn
    have hsum := total_update (fun k => (L.stand k).owes (v k)) n (v n)
    have hfun : (fun k => ((L.leave m .claimed).stand k).owes (v k)) =
        Function.update (fun k => (L.stand k).owes (v k)) n (v n) := by
      funext k
      by_cases hk : k = n
      · subst hk
        simp [Legs.leave, hn, Stand.leave, Stand.owes]
      · rw [Function.update_of_ne hk]
        cases hstand : L.stand k with
        | on m' =>
          have hne : m' ≠ m := by
            rintro rfl
            exact hk (h.single k n m' hstand hn)
          simp [Legs.leave, hstand, Stand.leave, hne]
        | _ => simp [Legs.leave, hstand, Stand.leave]
    have hzero : (L.stand n).owes (v n) = 0 := by rw [hn]; rfl
    rw [hzero, Nat.add_zero] at hsum
    unfold promised
    rw [hfun, hsum, hgiven]
    simpa using hle
  · have hfun : (fun k => ((L.leave m .claimed).stand k).owes (v k)) = fun k => (L.stand k).owes (v k) := by
      funext k
      cases hstand : L.stand k with
      | on m' =>
        have hne : m' ≠ m := by
          rintro rfl
          exact hans ⟨k, hstand⟩
        simp [Legs.leave, hstand, Stand.leave, hne]
      | _ => simp [Legs.leave, hstand, Stand.leave]
    unfold promised
    rw [hfun]
    exact Nat.le_add_right _ _

theorem promised_void : promised v (L.leave m .void) = promised v L := by
  unfold promised
  congr 1
  funext k
  cases hstand : L.stand k with
  | on m' => by_cases hk : m' = m <;> simp [Legs.leave, hstand, Stand.leave, hk, Stand.owes]
  | _ => simp [Legs.leave, hstand, Stand.leave]

theorem promised_update {s : Stand κ} (hs : s.owes x = 0) (given : κ → Bool) :
    promised (Function.update v n x) { stand := Function.update L.stand n s, given := given } +
      (L.stand n).owes (v n) = promised v L := by
  have hsum := total_update (fun k => (L.stand k).owes (v k)) n 0
  have hfun : (fun k => (Function.update L.stand n s k).owes (Function.update v n x k)) =
      Function.update (fun k => (L.stand k).owes (v k)) n 0 := by
    funext k
    by_cases hk : k = n
    · subst hk
      simp only [Function.update_self, hs]
    · simp only [Function.update_of_ne hk]
  unfold promised
  rw [hfun, hsum, Nat.add_zero]

theorem promised_answer_le : promised (Function.update v n x) (L.answer n m) ≤ promised v L := by
  have h := promised_update (v := v) (L := L) (n := n) (s := .on m) (x := x) rfl L.given
  simp only [answer]
  omega

theorem promised_drop_le : promised (Function.update v n x) (L.drop n) ≤ promised v L := by
  have h := promised_update (v := v) (L := L) (n := n) (s := .vacant) (x := x) rfl L.given
  simp only [drop]
  omega

/-- What a counter leg pays has been given away for it, or was promised. -/
theorem Fits.redeem_le (h : Fits a v alive L) (halive : alive n) :
    kept a (L.redeem n) + promised (Function.update v n 0) (L.redeem n) + v n ≤ kept a L + promised v L := by
  have hpromised : promised (Function.update v n 0) (L.redeem n) + (L.stand n).owes (v n) = promised v L :=
    promised_update rfl (L.redeem n).given
  cases hn : L.stand n with
  | on m =>
    obtain ⟨hle, -, hgiven⟩ := h.covered n m hn
    have hsum := total_update (fun k => if L.given k = true then 0 else a k) m 0
    have hfun : (fun k => if (L.redeem n).given k = true then 0 else a k) =
        Function.update (fun k => if L.given k = true then 0 else a k) m 0 := by
      funext k
      by_cases hk : k = m
      · subst hk
        simp [Legs.redeem, hn, Stand.give]
      · simp [Legs.redeem, hn, Stand.give, Function.update_of_ne hk]
    have hkept : kept a (L.redeem n) + a m = kept a L := by
      unfold kept
      rw [hfun]
      simpa [hgiven] using hsum
    simp only [hn, Stand.owes] at hpromised
    omega
  | claimed =>
    have hkept : kept a (L.redeem n) = kept a L := by simp only [kept, Legs.redeem, hn, Stand.give]
    simp only [hn, Stand.owes] at hpromised
    omega
  | vacant =>
    have hkept : kept a (L.redeem n) = kept a L := by simp only [kept, Legs.redeem, hn, Stand.give]
    have hzero := h.vacant n hn
    omega
  | void => exact absurd halive (h.void n hn)

end Steps

end Legs

end DistributedNotary.Library
