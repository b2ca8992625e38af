import Mathlib.Data.List.Nodup

/-! Deadlines and the scans that hand over what is due. A scan that succeeds hands
over everything that is due at its height and forgets it; one that fails hands
over nothing and forgets some of it; one that is skipped does nothing. Over a whole
run every deadline that is reached is handed over exactly once if and only if no
scan fails and every deadline that is reached is reached by a scan that succeeds. -/
namespace DistributedNotary.Library.Deadlines

variable {ι α : Type*}

/-- What came of a scan. -/
inductive Outcome (ι α : Type*) where
  | done (height : α) (handed : List ι)
  | failed (height : α)
  | skipped (height : α)
  | idle

namespace Outcome

def height : Outcome ι α → Option α
  | .done n _ => some n
  | .failed n => some n
  | .skipped n => some n
  | .idle => none

def handed : Outcome ι α → List ι
  | .done _ l => l
  | .failed _ | .skipped _ | .idle => []

end Outcome

variable {D D' : ι → Option α} {n e : α} {i : ι} {a : Outcome ι α} {as : List (Outcome ι α)}

section Counts

variable [DecidableEq ι]

/-- How often the run hands `i` over. -/
def count (as : List (Outcome ι α)) (i : ι) : ℕ := (as.flatMap Outcome.handed).count i

theorem count_cons : count (a :: as) i = a.handed.count i + count as i := by
  unfold count
  rw [List.flatMap_cons, List.count_append]

theorem count_cons_of_handed (h : a.handed = []) : count (a :: as) i = count as i := by
  rw [count_cons, h, List.count_nil, Nat.zero_add]

end Counts

variable [LE α]

/-- The deadline of `i` is reached at `n`. -/
def Due (D : ι → Option α) (n : α) (i : ι) : Prop := ∃ e, D i = some e ∧ e ≤ n

/-- A scan between the deadlines before and after it. -/
inductive Step (D D' : ι → Option α) : Outcome ι α → Prop
  | done {n : α} {l : List ι} (hnodup : l.Nodup) (hmem : ∀ i, i ∈ l ↔ Due D n i) (hgone : ∀ i ∈ l, D' i = none)
    (hrest : ∀ i, i ∉ l → D' i = D i) : Step D D' (.done n l)
  | failed {n : α} (hlost : ∃ i, Due D n i ∧ D' i = none) (hrest : ∀ i, D' i = D i ∨ Due D n i ∧ D' i = none) :
    Step D D' (.failed n)
  | skipped {n : α} (hrest : ∀ i, D' i = D i) : Step D D' (.skipped n)
  | idle (hrest : ∀ i, D' i = D i) : Step D D' .idle

/-- A run of scans, in order. -/
inductive Run : (ι → Option α) → List (Outcome ι α) → Prop
  | nil {D : ι → Option α} : Run D []
  | cons {D D' : ι → Option α} {a : Outcome ι α} {as : List (Outcome ι α)} (h : Step D D' a) (t : Run D' as) :
    Run D (a :: as)

/-- A scan of the run comes at or after the deadline. -/
def Reached (as : List (Outcome ι α)) (e : α) : Prop := ∃ a ∈ as, ∃ n ∈ a.height, e ≤ n

def ReachedBy (as : List (Outcome ι α)) (e : α) : Prop := ∃ n l, .done n l ∈ as ∧ e ≤ n

theorem ReachedBy.reached (h : ReachedBy as e) : Reached as e := by
  obtain ⟨n, l, hm, hle⟩ := h
  exact ⟨_, hm, n, rfl, hle⟩

theorem reachedBy_cons : ReachedBy (a :: as) e ↔ (∃ n l, a = .done n l ∧ e ≤ n) ∨ ReachedBy as e := by
  constructor
  · rintro ⟨n, l, hm, hle⟩
    rcases List.mem_cons.mp hm with h | h
    · exact .inl ⟨n, l, h.symm, hle⟩
    · exact .inr ⟨n, l, h, hle⟩
  · rintro (⟨n, l, rfl, hle⟩ | ⟨n, l, hm, hle⟩)
    · exact ⟨n, l, .head as, hle⟩
    · exact ⟨n, l, .tail _ hm, hle⟩

variable [DecidableEq ι]

/-- Every deadline is handed over once if it is reached, and not at all if it is not. -/
def Once (D : ι → Option α) (as : List (Outcome ι α)) : Prop :=
  ∀ i e, D i = some e → (Reached as e → count as i = 1) ∧ (¬ Reached as e → count as i = 0)

section Fates

/-- The deadline `e` of `i` waits to the end of the run. -/
def Waits (as : List (Outcome ι α)) (i : ι) (e : α) : Prop := count as i = 0 ∧ ¬ ReachedBy as e

def HandedOver (as : List (Outcome ι α)) (i : ι) (e : α) : Prop := count as i = 1 ∧ ReachedBy as e

/-- A failed scan has forgotten it. -/
def Lost (as : List (Outcome ι α)) (i : ι) (e : α) : Prop := count as i = 0 ∧ ∃ n, .failed n ∈ as ∧ e ≤ n

/-- A scan that leaves the deadline alone does not change its fate. -/
theorem fate_cons (hcount : i ∉ a.handed) (hreach : ∀ n l, a = .done n l → ¬ e ≤ n)
    (h : Waits as i e ∨ HandedOver as i e ∨ Lost as i e) :
    Waits (a :: as) i e ∨ HandedOver (a :: as) i e ∨ Lost (a :: as) i e := by
  have hc : count (a :: as) i = count as i := by
    rw [count_cons, List.count_eq_zero_of_not_mem hcount, Nat.zero_add]
  rcases h with ⟨h0, hw⟩ | ⟨h1, hr⟩ | ⟨h0, n, hm, hle⟩
  · refine .inl ⟨hc.trans h0, fun hr => ?_⟩
    rcases reachedBy_cons.mp hr with ⟨n, l, ha, hle⟩ | hr
    · exact hreach n l ha hle
    · exact hw hr
  · exact .inr (.inl ⟨hc.trans h1, reachedBy_cons.mpr (.inr hr)⟩)
  · exact .inr (.inr ⟨hc.trans h0, n, .tail _ hm, hle⟩)

/-- What has no deadline is never handed over. -/
theorem Run.count_eq_zero (h : Run D as) (hi : D i = none) : count as i = 0 := by
  induction h with
  | nil => rfl
  | cons hs _ ih =>
    cases hs with
    | @done n l hnodup hmem hgone hrest =>
      have hni : i ∉ l := fun hm => by
        obtain ⟨e, he, -⟩ := (hmem i).mp hm
        rw [hi] at he
        cases he
      rw [count_cons, ih ((hrest i hni).trans hi), Outcome.handed, List.count_eq_zero_of_not_mem hni]
    | failed hlost hrest =>
      rw [count_cons_of_handed rfl]
      rcases hrest i with h | ⟨-, h⟩
      · exact ih (h.trans hi)
      · exact ih h
    | skipped hrest => exact (count_cons_of_handed rfl).trans (ih ((hrest i).trans hi))
    | idle hrest => exact (count_cons_of_handed rfl).trans (ih ((hrest i).trans hi))

/-- Every deadline waits, is handed over or is lost. -/
theorem Run.fate (h : Run D as) (hi : D i = some e) : Waits as i e ∨ HandedOver as i e ∨ Lost as i e := by
  induction h with
  | nil => exact .inl ⟨rfl, fun ⟨n, l, hm, _⟩ => by cases hm⟩
  | cons hs ht ih =>
    cases hs with
    | @done n l hnodup hmem hgone hrest =>
      by_cases hm : i ∈ l
      · have hle : e ≤ n := by
          obtain ⟨e', he, hle⟩ := (hmem i).mp hm
          rw [hi] at he
          cases he
          exact hle
        refine .inr (.inl ⟨?_, n, l, .head _, hle⟩)
        rw [count_cons, ht.count_eq_zero (hgone i hm), Outcome.handed, List.count_eq_one_of_mem hnodup hm]
      · refine fate_cons hm ?_ (ih ((hrest i hm).trans hi))
        intro n' l' ha hle
        cases ha
        exact hm ((hmem i).mpr ⟨e, hi, hle⟩)
    | @failed n hlost hrest =>
      rcases hrest i with h | ⟨⟨e', he, hle⟩, h⟩
      · exact fate_cons List.not_mem_nil (by simp) (ih (h.trans hi))
      · rw [hi] at he
        cases he
        refine .inr (.inr ⟨?_, n, .head _, hle⟩)
        rw [count_cons_of_handed rfl, ht.count_eq_zero h]
    | skipped hrest => exact fate_cons List.not_mem_nil (by simp) (ih ((hrest i).trans hi))
    | idle hrest => exact fate_cons List.not_mem_nil (by simp) (ih ((hrest i).trans hi))

/-- Where a scan fails a deadline is lost. -/
theorem Run.exists_lost (h : Run D as) (hf : .failed n ∈ as) : ∃ i e, D i = some e ∧ Lost as i e := by
  induction h with
  | nil => cases hf
  | @cons D D' a as hs ht ih =>
    -- a deadline that is lost later has survived this scan
    have later (hsub : ∀ i e, D' i = some e → D i = some e ∧ a.handed.count i = 0) (hm : .failed n ∈ as) :
        ∃ i e, D i = some e ∧ Lost (a :: as) i e := by
      obtain ⟨i, e, hi, h0, n', hm', hle⟩ := ih hm
      obtain ⟨hi', hc⟩ := hsub i e hi
      exact ⟨i, e, hi', by rw [count_cons, hc, h0], n', .tail _ hm', hle⟩
    cases hs with
    | @done n' l hnodup hmem hgone hrest =>
      refine later (fun i e hi => ?_) (by simpa using hf)
      have hni : i ∉ l := fun hm => by
        rw [hgone i hm] at hi
        cases hi
      exact ⟨(hrest i hni).symm.trans hi, List.count_eq_zero_of_not_mem hni⟩
    | @failed n' hlost hrest =>
      obtain ⟨i, ⟨e, hi, hle⟩, hgone⟩ := hlost
      refine ⟨i, e, hi, ?_, n', .head _, hle⟩
      rw [count_cons_of_handed rfl, ht.count_eq_zero hgone]
    | skipped hrest => exact later (fun i e hi => ⟨(hrest i).symm.trans hi, rfl⟩) (by simpa using hf)
    | idle hrest => exact later (fun i e hi => ⟨(hrest i).symm.trans hi, rfl⟩) (by simpa using hf)

end Fates

/-- Exactly once, and when. -/
theorem Run.once_iff (h : Run D as) :
    Once D as ↔ (∀ n, .failed n ∉ as) ∧ ∀ i e, D i = some e → Reached as e → ReachedBy as e := by
  constructor
  · intro ho
    refine ⟨fun n hf => ?_, fun i e hi hr => ?_⟩
    · obtain ⟨i, e, hi, h0, n', hm, hle⟩ := h.exists_lost hf
      have h1 := (ho i e hi).1 ⟨_, hm, n', rfl, hle⟩
      omega
    · have h1 := (ho i e hi).1 hr
      rcases h.fate hi with ⟨h0, -⟩ | ⟨-, hr⟩ | ⟨h0, -⟩
      · omega
      · exact hr
      · omega
  · rintro ⟨hf, hby⟩ i e hi
    rcases h.fate hi with ⟨h0, hw⟩ | ⟨h1, hr⟩ | ⟨-, n, hm, -⟩
    · exact ⟨fun hr => absurd (hby i e hi hr) hw, fun _ => h0⟩
    · exact ⟨fun _ => h1, fun hn => absurd hr.reached hn⟩
    · exact absurd hm (hf n)

end DistributedNotary.Library.Deadlines
