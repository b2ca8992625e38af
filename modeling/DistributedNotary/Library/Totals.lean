import Mathlib.Algebra.BigOperators.Group.Finset.Piecewise
import Mathlib.Algebra.Order.BigOperators.Group.Finset
import Mathlib.Data.Fintype.BigOperators
import Mathlib.Data.Fintype.EquivFin

/-! What a map over finitely many keys holds in total. One update moves the
total by the difference of the two values, so the total of a ledger follows
its updates one at a time. -/
namespace DistributedNotary.Library

instance fintypeBitVec (w : ℕ) : Fintype (BitVec w) :=
  Fintype.ofEquiv (Fin (2 ^ w)) ⟨BitVec.ofFin, BitVec.toFin, fun _ => rfl, fun _ => rfl⟩

section Totals

variable {κ : Type*} [Fintype κ] (f : κ → ℕ)

def total : ℕ := ∑ k, f k

theorem value_le_total (k : κ) : f k ≤ total f :=
  Finset.single_le_sum (fun _ _ => Nat.zero_le _) (Finset.mem_univ k)

theorem total_zero : total (fun _ : κ => 0) = 0 := by
  simp [total]

variable [DecidableEq κ]

theorem total_update (k : κ) (v : ℕ) : total (Function.update f k v) + f k = total f + v := by
  have h := Finset.sum_update_of_mem (Finset.mem_univ k) f v
  have hf := Finset.sum_sdiff (Finset.subset_univ {k}) (f := f)
  simp only [Finset.sum_singleton] at hf
  unfold total
  omega

/-- The same for the amounts that the entries of a map carry. -/
theorem total_comp_update {δ : Type*} (amount : δ → ℕ) (m : κ → δ) (k : κ) (d : δ) :
    total (fun j => amount (Function.update m k d j)) + amount (m k) = total (fun j => amount (m j)) + amount d := by
  have h : (fun j => amount (Function.update m k d j)) = Function.update (fun j => amount (m j)) k (amount d) := by
    funext j
    by_cases hj : j = k <;> simp [hj]
  rw [h]
  exact total_update (fun j => amount (m j)) k (amount d)

end Totals

end DistributedNotary.Library
