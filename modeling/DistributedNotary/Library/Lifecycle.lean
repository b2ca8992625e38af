import Mathlib.Data.List.Basic

/-! Records that are prepared and then resolved, one after another. In a
lifecycle every resolution comes right after the record that it resolves, so a
record is resolved at most once and is never replaced while it is pending. -/
namespace DistributedNotary.Library

inductive LockOp (ρ ω : Type*) where
  | prepare (r : ρ)
  | resolve (w : ω)

/-- Operations that may follow when `p` is pending; `ok` says which resolutions a record admits. -/
inductive Lifecycle {ρ ω : Type*} (ok : ρ → ω → Prop) : Option ρ → List (LockOp ρ ω) → Prop
  | nil (p : Option ρ) : Lifecycle ok p []
  | prepare {r : ρ} {ops : List (LockOp ρ ω)} (h : Lifecycle ok (some r) ops) :
    Lifecycle ok none (.prepare r :: ops)
  | resolve {r : ρ} {w : ω} {ops : List (LockOp ρ ω)} (hok : ok r w) (h : Lifecycle ok none ops) :
    Lifecycle ok (some r) (.resolve w :: ops)

/-- What one step may do to the pending record. -/
inductive LockStep {ρ ω : Type*} (ok : ρ → ω → Prop) : Option ρ → Option (LockOp ρ ω) → Option ρ → Prop
  | idle (p : Option ρ) : LockStep ok p none p
  | prepare (r : ρ) : LockStep ok none (some (.prepare r)) (some r)
  | resolve {r : ρ} {w : ω} (hok : ok r w) : LockStep ok (some r) (some (.resolve w)) none

namespace Lifecycle

variable {ρ ω : Type*} {ok : ρ → ω → Prop} {p : Option ρ} {pre post : List (LockOp ρ ω)}

theorem of_step {q : Option ρ} {op : Option (LockOp ρ ω)} (hs : LockStep ok p op q) (h : Lifecycle ok q post) :
    Lifecycle ok p (op.toList ++ post) := by
  cases hs with
  | idle => exact h
  | prepare r => exact .prepare h
  | resolve hok => exact .resolve hok h

/-- The operation before a resolution prepared what it resolves. -/
theorem resolve_follows {w : ω} (h : Lifecycle ok p (pre ++ .resolve w :: post)) :
    (∃ r, pre = [] ∧ p = some r ∧ ok r w) ∨ ∃ l r, pre = l ++ [.prepare r] ∧ ok r w := by
  induction pre generalizing p with
  | nil =>
    cases h with
    | resolve hok _ => exact Or.inl ⟨_, rfl, rfl, hok⟩
  | cons op pre ih =>
    right
    cases h with
    | prepare h =>
      rcases ih h with ⟨r, rfl, hr, hok⟩ | ⟨l, r, rfl, hok⟩
      · obtain rfl := Option.some.inj hr
        exact ⟨[], _, rfl, hok⟩
      · exact ⟨_ :: l, r, rfl, hok⟩
    | resolve _ h =>
      rcases ih h with ⟨r, rfl, hr, hok⟩ | ⟨l, r, rfl, hok⟩
      · cases hr
      · exact ⟨_ :: l, r, rfl, hok⟩

/-- The operation before a record is prepared, if there is one, resolved the record before it. -/
theorem prepare_follows {r : ρ} (h : Lifecycle ok none (pre ++ .prepare r :: post)) :
    pre = [] ∨ ∃ l w, pre = l ++ [.resolve w] := by
  suffices ∀ p, Lifecycle ok p (pre ++ .prepare r :: post) → (pre = [] ∧ p = none) ∨ ∃ l w, pre = l ++ [.resolve w] by
    rcases this none h with ⟨hnil, _⟩ | hw
    · exact Or.inl hnil
    · exact Or.inr hw
  clear h
  induction pre with
  | nil =>
    intro p h
    cases h with
    | prepare _ => exact Or.inl ⟨rfl, rfl⟩
  | cons op pre ih =>
    intro p h
    right
    cases h with
    | prepare h =>
      rcases ih _ h with ⟨_, hr⟩ | ⟨l, w, rfl⟩
      · cases hr
      · exact ⟨_ :: l, w, rfl⟩
    | resolve _ h =>
      rcases ih _ h with ⟨rfl, _⟩ | ⟨l, w, rfl⟩
      · exact ⟨[], _, rfl⟩
      · exact ⟨_ :: l, w, rfl⟩

/-- No record is resolved twice. -/
theorem not_resolve_twice {ops : List (LockOp ρ ω)} (h : Lifecycle ok p ops) (w w' : ω) :
    ¬ [.resolve w, .resolve w'] <:+: ops := by
  rintro ⟨l, l', rfl⟩
  have hsplit : l ++ [.resolve w, .resolve w'] ++ l' = (l ++ [.resolve w]) ++ .resolve w' :: l' := by
    simp
  rw [hsplit] at h
  rcases resolve_follows h with ⟨_, hnil, _⟩ | ⟨m, r, hm, _⟩
  · simp at hnil
  · have := List.append_inj_right' hm rfl
    simp at this

/-- No record is replaced while it is pending. -/
theorem not_prepare_twice {ops : List (LockOp ρ ω)} (h : Lifecycle ok none ops) (r r' : ρ) :
    ¬ [.prepare r, .prepare r'] <:+: ops := by
  rintro ⟨l, l', rfl⟩
  have hsplit : l ++ [.prepare r, .prepare r'] ++ l' = (l ++ [.prepare r]) ++ .prepare r' :: l' := by
    simp
  rw [hsplit] at h
  rcases prepare_follows h with hnil | ⟨m, w, hm⟩
  · simp at hnil
  · have := List.append_inj_right' hm rfl
    simp at this

end Lifecycle

end DistributedNotary.Library
