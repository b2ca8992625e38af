import Mathlib.Data.Int.Notation
import Mathlib.Order.Basic

/-! Lists in increasing order of an integer key. What comes after a bound is a
final segment, so that searching from the front and filtering give the same. -/
namespace DistributedNotary.Library

section Sorted

variable {α : Type*} {key : α → ℤ} {l : List α}

/-- What is left of a list from the first element on that passes a test. -/
theorem drop_findIdx (l : List α) (p : α → Bool) : l.drop (l.findIdx p) = l.dropWhile fun x => !p x := by
  induction l with
  | nil => rfl
  | cons x l ih =>
    rw [List.findIdx_cons]
    cases hp : p x with
    | true => simp [hp]
    | false => simp [hp, ih]

theorem dropWhile_congr {p q : α → Bool} (h : ∀ x ∈ l, p x = q x) : l.dropWhile p = l.dropWhile q := by
  induction l with
  | nil => rfl
  | cons x l ih =>
    rw [List.dropWhile_cons, List.dropWhile_cons, h x (List.mem_cons_self ..),
      ih fun y hy => h y (List.mem_cons_of_mem _ hy)]

theorem dropWhile_le_eq_filter (h : l.Pairwise fun x y => key x < key y) (q : ℤ) :
    l.dropWhile (fun x => key x ≤ q) = l.filter fun x => q < key x := by
  induction l with
  | nil => rfl
  | cons x l ih =>
    obtain ⟨hx, hl⟩ := List.pairwise_cons.mp h
    by_cases hle : key x ≤ q
    · rw [List.dropWhile_cons_of_pos (by simpa using hle), List.filter_cons_of_neg (by simpa using hle), ih hl]
    · rw [List.dropWhile_cons_of_neg (by simpa using hle)]
      refine (List.filter_eq_self.mpr fun y hy => ?_).symm
      rcases List.mem_cons.mp hy with rfl | hy
      · simpa using hle
      · have := hx y hy
        simp only [decide_eq_true_eq]
        omega

/-- What comes strictly after a bound, seen from the first element that is not before it. -/
theorem filter_lt_eq (h : l.Pairwise fun x y => key x < key y) {q : ℤ} {x : α} {rest : List α}
    (hx : (l.filter fun y => q ≤ key y) = x :: rest) :
    (l.filter fun y => q < key y) = if key x = q then rest else x :: rest := by
  have hsorted := h.filter fun y => q ≤ key y
  have hle : q ≤ key x := by
    have hmem : x ∈ l.filter fun y => q ≤ key y := hx ▸ List.mem_cons_self ..
    simpa using (List.mem_filter.mp hmem).2
  rw [hx] at hsorted
  have hrest : (rest.filter fun y => q < key y) = rest := by
    refine List.filter_eq_self.mpr fun y hy => ?_
    simpa using Int.lt_of_le_of_lt hle ((List.pairwise_cons.mp hsorted).1 y hy)
  have htwice : (l.filter fun y => q < key y) = (x :: rest).filter fun y => q < key y := by
    rw [← hx, List.filter_filter]
    refine List.filter_congr fun y _ => ?_
    simp only [← Bool.decide_and, decide_eq_decide]
    omega
  rw [htwice]
  split_ifs with heq
  · rw [List.filter_cons_of_neg (by simp [heq]), hrest]
  · rw [List.filter_cons_of_pos (by simp only [decide_eq_true_eq]; omega), hrest]

end Sorted

end DistributedNotary.Library
