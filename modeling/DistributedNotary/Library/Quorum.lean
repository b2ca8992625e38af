import Mathlib.Data.Finset.Card
import Mathlib.Tactic.Common

/-! How much two quorums out of one set of voters have in common. A rule
accepts some votes; `Threshold` says that it accepts exactly the votes of at
least `q` members of `U`, and the smallest overlap of two accepted votes then
depends on `q` and the size of `U` alone. -/
namespace DistributedNotary.Library

variable {α : Type*} [DecidableEq α]

/-- Two parts of `U` overlap in at least what they have too much of together. -/
theorem card_add_card_le_card_add_card_inter {U A B : Finset α} (hA : A ⊆ U) (hB : B ⊆ U) :
    A.card + B.card ≤ U.card + (A ∩ B).card := by
  have hu : (A ∪ B).card ≤ U.card := Finset.card_le_card (Finset.union_subset hA hB)
  have h := Finset.card_union_add_card_inter A B
  omega

/-- Two parts that are large enough together share a member outside `B`. -/
theorem exists_mem_inter_notMem {U A A' B : Finset α} (hA : A ⊆ U) (hA' : A' ⊆ U)
    (h : U.card + B.card < A.card + A'.card) : ∃ x ∈ A, x ∈ A' ∧ x ∉ B := by
  have hinter := card_add_card_le_card_add_card_inter hA hA'
  obtain ⟨x, hx, hxB⟩ := Finset.exists_mem_notMem_of_card_lt_card (show B.card < (A ∩ A').card by omega)
  obtain ⟨h1, h2⟩ := Finset.mem_inter.mp hx
  exact ⟨x, h1, h2, hxB⟩

/-- Two parts of size `q` need not have more in common than that. -/
theorem exists_card_inter_eq {U : Finset α} {q : ℕ} (hq : q ≤ U.card) :
    ∃ A ⊆ U, ∃ B ⊆ U, A.card = q ∧ B.card = q ∧ (A ∩ B).card = 2 * q - U.card := by
  obtain ⟨A, hA, hAq⟩ := Finset.exists_subset_card_eq hq
  have hrest : (U \ A).card = U.card - q := by rw [Finset.card_sdiff_of_subset hA, hAq]
  rcases le_total q (U.card - q) with hle | hle
  · -- there is room for a second part beside the first
    obtain ⟨B, hB, hBq⟩ := Finset.exists_subset_card_eq (hle.trans hrest.ge)
    refine ⟨A, hA, B, hB.trans Finset.sdiff_subset, hAq, hBq, ?_⟩
    have hdisj : A ∩ B = ∅ := Finset.disjoint_iff_inter_eq_empty.mp
      (Finset.disjoint_of_subset_right hB Finset.disjoint_sdiff)
    rw [hdisj, Finset.card_empty]
    omega
  · obtain ⟨B, hAB, hB, hBq⟩ := Finset.exists_subsuperset_card_eq Finset.sdiff_subset (hrest.le.trans hle) hq
    refine ⟨A, hA, B, hB, hAq, hBq, ?_⟩
    have hunion : A ∪ B = U := by
      apply Finset.Subset.antisymm (Finset.union_subset hA hB)
      intro x hx
      by_cases hxA : x ∈ A
      · exact Finset.mem_union_left _ hxA
      · exact Finset.mem_union_right _ (hAB (Finset.mem_sdiff.mpr ⟨hx, hxA⟩))
    have h := Finset.card_union_add_card_inter A B
    rw [hunion] at h
    omega

/-- Votes are accepted from `q` members of `U` on, whoever these are. -/
structure Threshold (accepted : Finset α → Prop) (U : Finset α) (q : ℕ) : Prop where
  sound : ∀ A, accepted A → A ⊆ U ∧ q ≤ A.card
  complete : ∀ A ⊆ U, A.card = q → accepted A

theorem Threshold.overlap_iff {accepted : Finset α → Prop} {U : Finset α} {q k : ℕ}
    (h : Threshold accepted U q) (hq : q ≤ U.card) :
    (∀ A B, accepted A → accepted B → k ≤ (A ∩ B).card) ↔ k ≤ 2 * q - U.card := by
  constructor
  · intro hall
    obtain ⟨A, hA, B, hB, hAq, hBq, hAB⟩ := exists_card_inter_eq hq
    exact hAB ▸ hall A B (h.complete A hA hAq) (h.complete B hB hBq)
  · intro hk A B hA hB
    obtain ⟨hAU, hAq⟩ := h.sound A hA
    obtain ⟨hBU, hBq⟩ := h.sound B hB
    have := card_add_card_le_card_add_card_inter hAU hBU
    omega

end DistributedNotary.Library
