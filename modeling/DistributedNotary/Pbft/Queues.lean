import DistributedNotary.Library.RangeMap
import Mathlib.Tactic.Common

/-! The two queues of the protocol: the priority queue in which committed
requests wait for their turn, and the queue of operations of a client. -/
namespace DistributedNotary.Pbft

open Library

structure PQElem (α : Type*) where
  pri : ℤ
  c : α

/-- Elements in increasing order of `pri`. -/
structure PriorityQueue (α : Type*) where
  content : List (PQElem α) := []

namespace PriorityQueue

variable {α : Type*} (pq : PriorityQueue α)

def length : ℕ := pq.content.length

def getMin : Option (PQElem α) := pq.content.head?

def getMax : Option (PQElem α) := pq.content.getLast?

def extractMin : PriorityQueue α × Option (PQElem α) :=
  match pq.content with
  | [] => (pq, none)
  | e :: rest => ({ content := rest }, some e)

def extractMax : PriorityQueue α × Option (PQElem α) :=
  match pq.content.getLast? with
  | none => (pq, none)
  | some e => ({ content := pq.content.dropLast }, some e)

/-- The loop of `Insert`: the place of `e` among the elements, unless its priority is taken. -/
def insertLoop (e : PQElem α) : List (PQElem α) → Option (List (PQElem α))
  | [] => some [e]
  | x :: rest =>
    if x.pri = e.pri then none
    else if x.pri > e.pri then some (e :: x :: rest)
    else (insertLoop e rest).map (x :: ·)

/-- The queue with `e`, and whether it was inserted. -/
def insert (e : PQElem α) : PriorityQueue α × Bool :=
  match insertLoop e pq.content with
  | none => (pq, false)
  | some content => ({ content := content }, true)

variable {pq} {queue : PriorityQueue α} {e : PQElem α}

theorem content_of_extractMin (h : pq.extractMin = (queue, some e)) : pq.content = e :: queue.content := by
  unfold extractMin at h
  split at h
  · simp at h
  · next e' rest hc =>
    simp only [Prod.mk.injEq, Option.some.injEq] at h
    rw [hc, ← h.1, h.2]

theorem content_of_extractMin_none (h : pq.extractMin = (queue, none)) : pq.content = [] := by
  unfold extractMin at h
  split at h
  · next hc => exact hc
  · simp at h

theorem perm_insertLoop {l l' : List (PQElem α)} (h : insertLoop e l = some l') : l'.Perm (e :: l) := by
  induction l generalizing l' with
  | nil =>
    obtain rfl := Option.some.inj h
    exact List.Perm.refl _
  | cons x rest ih =>
    unfold insertLoop at h
    split_ifs at h with h1 h2
    · obtain rfl := Option.some.inj h
      exact List.Perm.refl _
    · obtain ⟨l, hl, rfl⟩ := Option.map_eq_some_iff.mp h
      exact ((ih hl).cons x).trans (List.Perm.swap e x rest)

theorem mem_insertLoop {l l' : List (PQElem α)} (h : insertLoop e l = some l') {x : PQElem α} :
    x ∈ l' ↔ x = e ∨ x ∈ l := by
  rw [(perm_insertLoop h).mem_iff, List.mem_cons]

/-- The place of an element keeps the queue in order. -/
theorem pairwise_insertLoop {l l' : List (PQElem α)} (h : insertLoop e l = some l')
    (hl : l.Pairwise fun x y => x.pri < y.pri) : l'.Pairwise fun x y => x.pri < y.pri := by
  induction l generalizing l' with
  | nil =>
    obtain rfl := Option.some.inj h
    exact List.pairwise_singleton ..
  | cons y rest ih =>
    obtain ⟨hy, hrest⟩ := List.pairwise_cons.mp hl
    unfold insertLoop at h
    split_ifs at h with h1 h2
    · obtain rfl := Option.some.inj h
      refine List.pairwise_cons.mpr ⟨fun x hx => ?_, hl⟩
      rcases List.mem_cons.mp hx with rfl | hx
      · exact h2
      · exact Int.lt_trans h2 (hy x hx)
    · obtain ⟨l, hl, rfl⟩ := Option.map_eq_some_iff.mp h
      refine List.pairwise_cons.mpr ⟨fun x hx => ?_, ih hl hrest⟩
      rcases (mem_insertLoop hl).mp hx with rfl | hx
      · omega
      · exact hy x hx

theorem pairwise_of_insert (h : pq.insert e = (queue, true)) (hq : pq.content.Pairwise fun x y => x.pri < y.pri) :
    queue.content.Pairwise fun x y => x.pri < y.pri := by
  unfold insert at h
  split at h
  · simp at h
  · next content hc =>
    simp only [Prod.mk.injEq, and_true] at h
    rw [← h]
    exact pairwise_insertLoop hc hq

theorem exists_of_insertLoop_eq_none {l : List (PQElem α)} (h : insertLoop e l = none) : ∃ x ∈ l, x.pri = e.pri := by
  induction l with
  | nil => nomatch h
  | cons y rest ih =>
    unfold insertLoop at h
    split_ifs at h with h1 h2
    · exact ⟨y, List.mem_cons_self .., h1⟩
    · obtain ⟨x, hx, hpri⟩ := ih (Option.map_eq_none_iff.mp h)
      exact ⟨x, List.mem_cons_of_mem _ hx, hpri⟩

/-- Only a priority that is taken is refused. -/
theorem exists_of_insert (h : pq.insert e = (queue, false)) : ∃ x ∈ pq.content, x.pri = e.pri := by
  unfold insert at h
  split at h
  · next hc => exact exists_of_insertLoop_eq_none hc
  · simp at h

theorem mem_of_insert (h : pq.insert e = (queue, true)) {x : PQElem α} :
    x ∈ queue.content ↔ x = e ∨ x ∈ pq.content := by
  unfold insert at h
  split at h
  · simp at h
  · next content hc =>
    simp only [Prod.mk.injEq, and_true] at h
    rw [← h]
    exact mem_insertLoop hc

end PriorityQueue

/-- Keys in the order of their insertion, each with a value. -/
structure StringQueue (α : Type) where
  q : List String := []
  m : RangeMap String α := ∅

namespace StringQueue

variable {α : Type} (sq : StringQueue α)

def length : ℕ := sq.q.length

def extractMin : StringQueue α × Option (String × Option α) :=
  match sq.q with
  | [] => (sq, none)
  | key :: rest => ({ q := rest, m := sq.m.erase key }, some (key, sq.m.lookup key))

def remove (key : String) : StringQueue α × Bool :=
  let sq := { sq with m := sq.m.erase key }
  if key ∈ sq.q then ({ sq with q := sq.q.erase key }, true) else (sq, false)

def getMin : Option (String × Option α) := sq.q.head?.map fun key => (key, sq.m.lookup key)

def insert (key : String) (c : α) : StringQueue α × Bool :=
  if (sq.m.lookup key).isSome then (sq, false)
  else ({ q := sq.q ++ [key], m := AList.insert key c sq.m }, true)

variable {sq} in
theorem remove_of_mem {key : String} (hk : key ∈ sq.q) :
    sq.remove key = ({ q := sq.q.erase key, m := sq.m.erase key }, true) := by
  unfold remove
  exact if_pos hk

variable {sq} in
theorem remove_of_not_mem {key : String} (hk : key ∉ sq.q) :
    sq.remove key = ({ sq with m := sq.m.erase key }, false) := by
  unfold remove
  exact if_neg hk

theorem remove_fst (key : String) : (sq.remove key).1 = { q := sq.q.erase key, m := sq.m.erase key } := by
  by_cases hk : key ∈ sq.q
  · rw [remove_of_mem hk]
  · rw [remove_of_not_mem hk, List.erase_of_not_mem hk]

theorem remove_snd (key : String) : (sq.remove key).2 = decide (key ∈ sq.q) := by
  by_cases hk : key ∈ sq.q
  · rw [remove_of_mem hk, decide_eq_true hk]
  · rw [remove_of_not_mem hk, decide_eq_false hk]

/-- No key is queued twice, and the keys that are queued are those that have a value. -/
structure Keyed : Prop where
  nodup : sq.q.Nodup
  keys : ∀ key, (sq.m.lookup key).isSome ↔ key ∈ sq.q

namespace Keyed

variable {sq} {key : String}

theorem empty : ({} : StringQueue α).Keyed where
  nodup := List.nodup_nil
  keys _ := by simp

theorem lookup_of_not_mem (h : sq.Keyed) (hk : key ∉ sq.q) : sq.m.lookup key = none := by
  rw [← h.keys, Bool.not_eq_true, Option.isSome_eq_false_iff, Option.isNone_iff_eq_none] at hk
  exact hk

theorem insert_eq (h : sq.Keyed) (hk : key ∉ sq.q) (c : α) :
    sq.insert key c = ({ q := sq.q ++ [key], m := AList.insert key c sq.m }, true) := by
  unfold insert
  rw [h.lookup_of_not_mem hk]
  rfl

theorem insert (h : sq.Keyed) (hk : key ∉ sq.q) (c : α) : (sq.insert key c).1.Keyed := by
  rw [h.insert_eq hk c]
  refine ⟨List.nodup_append.mpr ⟨h.nodup, List.nodup_singleton key, fun x hx y hy => ?_⟩, fun key' => ?_⟩
  · rw [List.mem_singleton.mp hy]
    rintro rfl
    exact hk hx
  · rw [RangeMap.lookup_insert_eq, List.mem_append, List.mem_singleton]
    split_ifs with heq
    · simp [heq]
    · simp [heq, h.keys]

/-- A key and its value are taken out. -/
theorem erase (h : sq.Keyed) (key : String) : ({ q := sq.q.erase key, m := sq.m.erase key } : StringQueue α).Keyed := by
  refine ⟨h.nodup.erase key, fun key' => ?_⟩
  rw [h.nodup.mem_erase_iff]
  by_cases heq : key' = key
  · subst heq
    simp
  · rw [AList.lookup_erase_ne heq, h.keys]
    simp [heq]

/-- The first key that is queued has a value. -/
theorem getMin (h : sq.Keyed) {rest : List String} (hq : sq.q = key :: rest) :
    ∃ c, sq.m.lookup key = some c ∧ sq.getMin = some (key, some c) ∧
      sq.extractMin.1 = { q := sq.q.erase key, m := sq.m.erase key } := by
  obtain ⟨c, hc⟩ := Option.isSome_iff_exists.mp ((h.keys key).mpr (hq ▸ List.mem_cons_self ..))
  refine ⟨c, hc, ?_, ?_⟩
  · unfold StringQueue.getMin
    rw [hq, List.head?_cons, Option.map_some, hc]
  · unfold extractMin
    rw [hq]
    simp

end Keyed

end StringQueue

end DistributedNotary.Pbft
