import Mathlib.Order.WellFounded

/-! Agreement on one value across the rounds of a vote. In a round at most one
value is proposed, and only it gets votes; a later round goes by what enough
voters have voted for before. A value that a quorum has voted for is then the
only one that is proposed from that round on. -/
namespace DistributedNotary.Library

variable {ι ρ α β : Type*} [Membership ι β] [LinearOrder ρ]

/-- Votes on proposals; whoever may propose in a later round has asked a quorum for its votes. -/
structure Succession (quorum : β → Prop) (voted : ι → ρ → α → Prop) (proposed : ρ → α → Prop) : Prop where
  meet : ∀ Q Q', quorum Q → quorum Q' → ∃ i, i ∈ Q ∧ i ∈ Q'
  once : ∀ v x y, proposed v x → proposed v y → x = y
  real : ∀ i v x, voted i v x → proposed v x
  inherits : ∀ v w y, v < w → proposed w y →
    ∃ Q, quorum Q ∧ ∀ i, i ∈ Q → ∀ x, voted i v x → ∃ u, v ≤ u ∧ u < w ∧ proposed u y

/-- A quorum has voted for the value. -/
def Chosen (quorum : β → Prop) (voted : ι → ρ → α → Prop) (v : ρ) (x : α) : Prop :=
  ∃ Q, quorum Q ∧ ∀ i, i ∈ Q → voted i v x

namespace Succession

variable {quorum : β → Prop} {voted : ι → ρ → α → Prop} {proposed : ρ → α → Prop} {v w : ρ} {x y : α}

theorem proposed_of_chosen (h : Succession quorum voted proposed) (hx : Chosen quorum voted v x) : proposed v x := by
  obtain ⟨Q, hQ, hvotes⟩ := hx
  obtain ⟨i, hi, -⟩ := h.meet Q Q hQ hQ
  exact h.real i v x (hvotes i hi)

/-- What is proposed once a value is chosen is that value. -/
theorem eq_of_chosen [WellFoundedLT ρ] (h : Succession quorum voted proposed) (hx : Chosen quorum voted v x)
    (hvw : v ≤ w) (hy : proposed w y) : x = y := by
  induction w using WellFoundedLT.induction with
  | ind w ih =>
    rcases hvw.eq_or_lt with rfl | hlt
    · exact h.once v x y (h.proposed_of_chosen hx) hy
    · obtain ⟨Q', hQ', hinherits⟩ := h.inherits v w y hlt hy
      obtain ⟨Q, hQ, hvotes⟩ := hx
      obtain ⟨i, hi, hi'⟩ := h.meet Q Q' hQ hQ'
      obtain ⟨u, hvu, huw, hu⟩ := hinherits i hi' x (hvotes i hi)
      exact ih u huw hvu hu

/-- Two values that are chosen in any two rounds are equal. -/
theorem agree [WellFoundedLT ρ] (h : Succession quorum voted proposed) (hx : Chosen quorum voted v x)
    (hy : Chosen quorum voted w y) : x = y := by
  rcases le_total v w with hle | hle
  · exact h.eq_of_chosen hx hle (h.proposed_of_chosen hy)
  · exact (h.eq_of_chosen hy hle (h.proposed_of_chosen hx)).symm

end Succession

end DistributedNotary.Library
