import Mathlib.Data.List.Basic
import Mathlib.Tactic.Common

/-! Slices over arrays: a window of cells that is read, written, narrowed and
appended to in place. An index or a bound out of range is a panic, the failure
of the operation. What each operation does to the cells of the array outside
the window is not seen through `contents`. -/
namespace DistributedNotary.Library

/-- The cells `off ..< off + len` of an array. -/
structure Slice (α : Type*) where
  array : List α
  off : ℕ
  len : ℕ
  fits : off + len ≤ array.length

namespace Slice

variable {α : Type*} (s : Slice α)

def contents : List α := (s.array.drop s.off).take s.len

/-- The slice that was never assigned. -/
def nil : Slice α where
  array := []
  off := 0
  len := 0
  fits := Nat.le_refl 0

def cap : ℕ := s.array.length - s.off

theorem off_add_cap : s.off + s.cap = s.array.length := by
  have := s.fits
  unfold cap
  omega

/-- `s[i]` -/
def get (i : ℕ) : Option α := if i < s.len then s.array[s.off + i]? else none

/-- `s[i] = x` -/
def set (i : ℕ) (x : α) : Option (Slice α) :=
  if i < s.len then
    some { s with array := s.array.set (s.off + i) x, fits := by simpa using s.fits }
  else none

/-- `s[lo:hi]` -/
def reslice (lo hi : ℕ) : Option (Slice α) :=
  if h : lo ≤ hi ∧ hi ≤ s.cap then
    some
      { array := s.array
        off := s.off + lo
        len := hi - lo
        fits := by have := s.off_add_cap; omega }
  else none

/-- `append(s, xs...)`: in place as far as the array reaches, else in a new array, in which `grow`
leaves further cells free for the capacity there was and the length there has to be. -/
def append [Inhabited α] (grow : ℕ → ℕ → ℕ) (xs : List α) : Slice α :=
  if h : s.len + xs.length ≤ s.cap then
    { array := s.array.take (s.off + s.len) ++ xs ++ s.array.drop (s.off + s.len + xs.length)
      off := s.off
      len := s.len + xs.length
      fits := by have := s.off_add_cap; simp; omega }
  else
    { array := s.contents ++ xs ++ List.replicate (grow s.cap (s.len + xs.length)) default
      off := 0
      len := s.len + xs.length
      fits := by
        have := s.fits
        simp [contents]; omega }

variable {s} {i : ℕ} {x : α}

@[simp] theorem length_contents : s.contents.length = s.len := by
  have := s.fits
  simp [contents]; omega

@[simp] theorem contents_nil : (nil : Slice α).contents = [] := rfl

theorem getElem?_contents (i : ℕ) : s.contents[i]? = if i < s.len then s.array[s.off + i]? else none := by
  rw [contents, List.getElem?_take, List.getElem?_drop]

theorem get_eq (i : ℕ) : s.get i = s.contents[i]? := (getElem?_contents i).symm

theorem get_of_lt (h : i < s.contents.length) : s.get i = some s.contents[i] := by
  rw [get_eq, List.getElem?_eq_getElem h]

/-- A cell within the window is written, and no other. -/
theorem exists_set (h : i < s.len) (x : α) : ∃ s', s.set i x = some s' ∧ s'.contents = s.contents.set i x := by
  refine ⟨_, if_pos h, List.ext_getElem? fun k => ?_⟩
  have := s.fits
  rw [getElem?_contents, List.getElem?_set, List.getElem?_set, length_contents, getElem?_contents]
  by_cases hk : i = k
  · subst hk
    simp only [if_pos h, if_true]
    exact if_pos (by omega)
  · rw [if_neg (show ¬ s.off + i = s.off + k by omega), if_neg hk]

theorem exists_reslice {lo hi : ℕ} (hlo : lo ≤ hi) (hhi : hi ≤ s.len) :
    ∃ s', s.reslice lo hi = some s' ∧ s'.contents = (s.contents.take hi).drop lo := by
  have hcap : lo ≤ hi ∧ hi ≤ s.cap := by
    have := s.fits
    have := s.off_add_cap
    omega
  refine ⟨_, dif_pos hcap, List.ext_getElem? fun k => ?_⟩
  rw [getElem?_contents, List.getElem?_drop, List.getElem?_take, getElem?_contents]
  by_cases hk : k < hi - lo
  · rw [if_pos hk, if_pos (by omega), if_pos (by omega), Nat.add_assoc]
  · rw [if_neg hk, if_neg (by omega)]

theorem exists_front {n : ℕ} (hn : n ≤ s.len) :
    ∃ s', s.reslice 0 n = some s' ∧ s'.contents = s.contents.take n := exists_reslice (Nat.zero_le n) hn

theorem exists_tail {n : ℕ} (hn : n ≤ s.len) :
    ∃ s', s.reslice n s.len = some s' ∧ s'.contents = s.contents.drop n := by
  obtain ⟨s', hslice, hcontents⟩ := s.exists_reslice hn (Nat.le_refl s.len)
  exact ⟨s', hslice, by rw [hcontents, List.take_of_length_le (Nat.le_of_eq length_contents)]⟩

variable [Inhabited α]

@[simp] theorem contents_append (grow : ℕ → ℕ → ℕ) (xs : List α) :
    (s.append grow xs).contents = s.contents ++ xs := by
  have := s.fits
  have := s.off_add_cap
  unfold append
  split_ifs with h
  · unfold contents
    simp only
    rw [List.append_assoc, List.drop_append_of_le_length (by simp; omega), ← List.append_assoc,
      List.take_append_of_le_length (by simp; omega), List.drop_take,
      List.take_of_length_le (by rw [List.length_append, List.length_take]; omega), Nat.add_sub_cancel_left]
  · rw [contents]
    simp only [List.drop_zero]
    rw [List.take_append_of_le_length (by simp), List.take_of_length_le (by simp)]

end Slice

end DistributedNotary.Library
