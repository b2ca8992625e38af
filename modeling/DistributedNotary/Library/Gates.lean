import Mathlib.Data.Finset.Card
import Mathlib.Data.Set.Insert

/-! Gates that open on a count. Each gate collects senders and opens once it has as
many as it waits for. As long as only awaited senders arrive, counting is exact: a
gate is open just when every awaited sender has arrived. -/
namespace DistributedNotary.Library

/-- The senders that arrived at each gate, and the open gates. -/
structure Gates (ι κ : Type*) where
  arrived : ι → Finset κ
  opened : Set ι

namespace Gates

variable {ι κ : Type*} {g g' : Gates ι κ} {awaited : ι → Finset κ}

/-- Only awaited senders arrived, and the open gates are those at which all did. -/
structure Exact (awaited : ι → Finset κ) (g : Gates ι κ) : Prop where
  members : ∀ i, g.arrived i ⊆ awaited i
  opened : ∀ i, i ∈ g.opened ↔ g.arrived i = awaited i

theorem Exact.start (harrived : ∀ i, g.arrived i = ∅) (hopened : g.opened = ∅) (hne : ∀ i, (awaited i).Nonempty) :
    Exact awaited g where
  members i := by simp [harrived i]
  opened i := by
    rw [harrived i, hopened]
    simpa using (hne i).ne_empty.symm

theorem Exact.mem_opened_iff (h : Exact awaited g) (i : ι) : i ∈ g.opened ↔ ∀ k ∈ awaited i, k ∈ g.arrived i := by
  rw [h.opened]
  constructor
  · intro hall k hk
    rw [hall]
    exact hk
  · intro hall
    exact Finset.Subset.antisymm (h.members i) hall

variable [DecidableEq ι] [DecidableEq κ]

/-- The sender `k` arrives at the gate `i`, which opens when it counts `n`. -/
structure Arrives (n : ℕ) (i : ι) (k : κ) (g g' : Gates ι κ) : Prop where
  arrived : g'.arrived = Function.update g.arrived i (insert k (g.arrived i))
  opened : ∀ j, j ∈ g'.opened ↔ j ∈ g.opened ∨ j = i ∧ (g'.arrived i).card = n

theorem Exact.arrives (h : Exact awaited g) {i : ι} {k : κ} (hk : k ∈ awaited i)
    (hstep : Arrives (awaited i).card i k g g') : Exact awaited g' := by
  have hsame : g'.arrived i = insert k (g.arrived i) := by rw [hstep.arrived, Function.update_self]
  have hother : ∀ j, j ≠ i → g'.arrived j = g.arrived j := fun j hj => by
    rw [hstep.arrived, Function.update_of_ne hj]
  have hsub : g'.arrived i ⊆ awaited i := by
    rw [hsame]
    exact Finset.insert_subset hk (h.members i)
  refine ⟨fun j => ?_, fun j => ?_⟩
  · by_cases hj : j = i
    · rw [hj]
      exact hsub
    · rw [hother j hj]
      exact h.members j
  · rw [hstep.opened, h.opened]
    by_cases hj : j = i
    · rw [hj]
      constructor
      · rintro (hall | ⟨-, hcard⟩)
        · rw [hsame, hall, Finset.insert_eq_of_mem hk]
        · exact Finset.eq_of_subset_of_card_le hsub hcard.ge
      · intro hall
        exact .inr ⟨rfl, congrArg Finset.card hall⟩
    · rw [hother j hj]
      simp [hj]

end Gates

end DistributedNotary.Library
