import Mathlib.Logic.Relation
import Mathlib.Order.WellFounded

/-! States reachable by a step relation, and the rule that what holds at the
start and survives every step holds in all of them. Where every step lowers a
measure, no run goes on forever, and one that can only stop at a goal gets
there. -/
namespace DistributedNotary.Library

variable {σ : Type*}

inductive Reachable (init : σ → Prop) (next : σ → σ → Prop) : σ → Prop
  | init {s : σ} (h : init s) : Reachable init next s
  | step {s s' : σ} (h : Reachable init next s) (hn : next s s') : Reachable init next s'

namespace Reachable

variable {init : σ → Prop} {next next' : σ → σ → Prop} {p : σ → Prop}

/-- The invariant rule; the step may use that its source is reachable. -/
theorem invariant (hinit : ∀ s, init s → p s)
    (hstep : ∀ s s', Reachable init next s → p s → next s s' → p s') {s : σ} (h : Reachable init next s) :
    p s := by
  induction h with
  | init h => exact hinit _ h
  | step h hn ih => exact hstep _ _ h ih hn

section Measure

variable (μ : σ → ℕ) (hμ : ∀ s s', Reachable init next s → next s s' → μ s' < μ s)

include hμ

/-- No run goes on forever. -/
theorem stops (run : ℕ → σ) (h : Reachable init next (run 0)) : ∃ k, ¬ next (run k) (run (k+1)) := by
  by_contra! hrun
  have hreach : ∀ k, Reachable init next (run k) := fun k => by
    induction k with
    | zero => exact h
    | succ k ih => exact ih.step (hrun k)
  obtain ⟨k, hk⟩ := WellFounded.not_rel_apply_succ (r := (· < ·)) fun k => μ (run k)
  exact hk (hμ _ _ (hreach k) (hrun k))

/-- A run that can only stop at a goal has one. -/
theorem completes {goal : σ → Prop} (hgoal : ∀ s, Reachable init next s → ¬ goal s → ∃ s', next s s') {s : σ}
    (h : Reachable init next s) : ∃ s', Relation.ReflTransGen next s s' ∧ Reachable init next s' ∧ goal s' := by
  induction hk : μ s using Nat.strong_induction_on generalizing s with
  | _ k ih =>
    by_cases hs : goal s
    · exact ⟨s, .refl, h, hs⟩
    · obtain ⟨s', hn⟩ := hgoal s h hs
      obtain ⟨s'', hrun, hreach, hend⟩ := ih (μ s') (hk ▸ hμ s s' h hn) (h.step hn) rfl
      exact ⟨s'', .head hn hrun, hreach, hend⟩

end Measure

end Reachable

/-- The runs of a machine from `s₀` on, with its inputs, latest first. -/
inductive Runs {ι : Type*} (step : σ → ι → σ → Prop) (s₀ : σ) : List ι → σ → Prop
  | start : Runs step s₀ [] s₀
  | next {l : List ι} {s s' : σ} (a : ι) (h : Runs step s₀ l s) (hn : step s a s') : Runs step s₀ (a :: l) s'

/-- The invariant rule for what depends on the inputs so far. -/
theorem Runs.invariant {ι : Type*} {step : σ → ι → σ → Prop} {s₀ : σ} (inv : List ι → σ → Prop) (hstart : inv [] s₀)
    (hnext : ∀ l s a s', inv l s → step s a s' → inv (a :: l) s') {l : List ι} {s : σ} (h : Runs step s₀ l s) :
    inv l s := by
  induction h with
  | start => exact hstart
  | next a h hn ih => exact hnext _ _ a _ ih hn

/-- `p` holds of every step of the run of `next` from `s` on, with the inputs in order. -/
def Along {ι : Type*} (next : σ → ι → σ) (p : σ → ι → Prop) : σ → List ι → Prop
  | _, [] => True
  | s, i :: l => p s i ∧ Along next p (next s i) l

/-- The rule for two conditions on steps that agree where an invariant holds which the first one keeps. -/
theorem along_iff {ι : Type*} {next : σ → ι → σ} {p q : σ → ι → Prop} (inv : σ → Prop)
    (hiff : ∀ s i, inv s → (p s i ↔ q s i)) (hnext : ∀ s i, inv s → p s i → inv (next s i)) {s : σ} (hs : inv s)
    (l : List ι) : Along next p s l ↔ Along next q s l := by
  induction l generalizing s with
  | nil => exact Iff.rfl
  | cons i l ih =>
    constructor
    · rintro ⟨hp, hl⟩
      exact ⟨(hiff s i hs).mp hp, (ih (hnext s i hs hp)).mp hl⟩
    · rintro ⟨hq, hl⟩
      have hp := (hiff s i hs).mpr hq
      exact ⟨hp, (ih (hnext s i hs hp)).mpr hl⟩

/-- The steps of the run, each with the state that it starts from. -/
def trace {ι : Type*} (next : σ → ι → σ) : σ → List ι → List (σ × ι)
  | _, [] => []
  | s, i :: l => (s, i) :: trace next (next s i) l

end DistributedNotary.Library
