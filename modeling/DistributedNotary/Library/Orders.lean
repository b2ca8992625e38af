import Mathlib.Data.List.Basic

/-! A machine that handles inputs one after the other, and the orders in which
every input comes in its turn. The lists of inputs have the latest first. -/
namespace DistributedNotary.Library

section Orders

variable {σ ι : Type*} (step : σ → ι → σ) (turn : List ι → σ → ι → Prop) (s₀ : σ)

/-- The state after the inputs. -/
def after (l : List ι) : σ := l.foldr (fun a s => step s a) s₀

@[simp] theorem after_nil : after step s₀ [] = s₀ := rfl

@[simp] theorem after_cons (a : ι) (l : List ι) : after step s₀ (a :: l) = step (after step s₀ l) a := rfl

/-- Every input met the condition on the inputs and the state before it. -/
def InTurn : List ι → Prop
  | [] => True
  | a :: l => InTurn l ∧ turn l (after step s₀ l) a

instance InTurn.decidable [∀ l s a, Decidable (turn l s a)] : ∀ l, Decidable (InTurn step turn s₀ l)
  | [] => isTrue trivial
  | a :: l => @instDecidableAnd _ _ (InTurn.decidable l) (inferInstanceAs (Decidable (turn l (after step s₀ l) a)))

variable {step turn s₀} {l l' : List ι}

/-- What comes earlier was in its turn as well. -/
theorem InTurn.of_append (h : InTurn step turn s₀ (l' ++ l)) : InTurn step turn s₀ l := by
  induction l' with
  | nil => exact h
  | cons a l' ih => exact ih h.1

/-- The invariant rule for what depends on the inputs so far. -/
theorem InTurn.invariant (inv : List ι → σ → Prop) (hstart : inv [] s₀)
    (hnext : ∀ l s a, inv l s → turn l s a → inv (a :: l) (step s a)) (h : InTurn step turn s₀ l) :
    inv l (after step s₀ l) := by
  induction l with
  | nil => exact hstart
  | cons a l ih => exact hnext _ _ a (ih h.1) h.2

end Orders

end DistributedNotary.Library
