import DistributedNotary.Library.Slice
import DistributedNotary.Pbft.Queues
import Mathlib.Data.Multiset.AddSub

/-! The two queues over the slices they are kept in, where an element is put in
its place by moving the ones above it from cell to cell, and taken out by
narrowing the slice or by closing the gap. No operation panics, each does to the
contents what the queues of lists do, and any run of them keeps the queue in order. -/
namespace DistributedNotary.Pbft

open Library

instance {α : Type*} [Inhabited α] : Inhabited (PQElem α) := ⟨{ pri := 0, c := default }⟩

namespace Sliced

variable (grow : ℕ → ℕ → ℕ)

structure PriorityQueue (α : Type*) where
  content : Slice (PQElem α) := .nil

namespace PriorityQueue

section

variable {α : Type*} (pq : PriorityQueue α)

def getMin : Option (Except String (PQElem α)) :=
  if pq.content.len ≠ 0 then do
    let elem ← pq.content.get 0
    return .ok elem
  else some (.error "PriorityQueue length is 0")

def extractMin : Option (PriorityQueue α × Except String (PQElem α)) :=
  if pq.content.len ≠ 0 then do
    let elem ← pq.content.get 0
    let content ← pq.content.reslice 1 pq.content.len
    return ({ content }, .ok elem)
  else some (pq, .error "PriorityQueue length is 0")

def extractMax : Option (PriorityQueue α × Except String (PQElem α)) :=
  if pq.content.len ≠ 0 then do
    let elem ← pq.content.get (pq.content.len - 1)
    let content ← pq.content.reslice 0 (pq.content.len - 1)
    return ({ content }, .ok elem)
  else some (pq, .error "PriorityQueue length is 0")

/-- The inner loop of `Insert`: the cells from `j` down to above `i` take over the cell below. -/
def shift (i : ℕ) : ℕ → Slice (PQElem α) → Option (Slice (PQElem α))
  | 0, content => some content
  | j + 1, content =>
    if j + 1 > i then do
      let below ← content.get j
      let content ← content.set (j + 1) below
      shift i j content
    else some content

variable [Inhabited α]

/-- The outer loop of `Insert` from cell `i`, with the number of cells that are left. -/
def insertLoop (e : PQElem α) : ℕ → ℕ → Slice (PQElem α) → Option (Slice (PQElem α) × Bool)
  | 0, _, content => some (content.append grow [e], true)
  | n + 1, i, content => do
    let x ← content.get i
    if x.pri = e.pri then return (content, false)
    else if x.pri > e.pri then
      let content := content.append grow [default]
      let content ← shift i (content.len - 1) content
      let content ← content.set i e
      return (content, true)
    else insertLoop e n (i + 1) content

def insert (e : PQElem α) : Option (PriorityQueue α × Bool) :=
  if pq.content.len = 0 then some ({ content := pq.content.append grow [e] }, true)
  else do
    let (content, inserted) ← insertLoop grow e pq.content.len 0 pq.content
    return ({ content }, inserted)

end

section

variable {α : Type*} {pq : PriorityQueue α} {e : PQElem α} {content : Slice (PQElem α)} {i j : ℕ}

/-- The cells above `i` hold what was one cell below, and the others what they held. -/
theorem exists_shift (hj : j < content.len) :
    ∃ content', shift i j content = some content' ∧ content'.len = content.len ∧
      ∀ k, content'.contents[k]? =
        if i < k ∧ k ≤ j then content.contents[k - 1]? else content.contents[k]? := by
  induction j generalizing content with
  | zero =>
    refine ⟨content, rfl, rfl, fun k => ?_⟩
    rw [if_neg (by omega)]
  | succ j ih =>
    unfold shift
    split_ifs with hij
    · have hlt : j < content.contents.length := by rw [Slice.length_contents]; omega
      obtain ⟨next, hset, hnext⟩ := content.exists_set hj content.contents[j]
      have hlen : next.len = content.len := by
        rw [← Slice.length_contents, hnext, List.length_set, Slice.length_contents]
      obtain ⟨last, hlast, hlen', hcells⟩ := ih (show j < next.len by omega)
      refine ⟨last, ?_, hlen'.trans hlen, fun k => ?_⟩
      · rw [Slice.get_of_lt hlt]
        simp only [Option.bind_eq_bind, Option.bind_some, hset, hlast]
      · rw [hcells, hnext, List.getElem?_set, List.getElem?_set]
        by_cases hk : i < k ∧ k ≤ j
        · rw [if_pos hk, if_neg (by omega), if_pos (by omega)]
        · rw [if_neg hk]
          by_cases heq : j + 1 = k
          · subst heq
            rw [if_pos rfl, if_pos (by rwa [Slice.length_contents]), if_pos (by omega),
              Nat.add_sub_cancel, List.getElem?_eq_getElem hlt]
          · rw [if_neg heq, if_neg (by omega)]
    · exact ⟨content, rfl, rfl, fun k => by rw [if_neg (by omega)]⟩

variable [Inhabited α]

/-- Room is made at cell `i` and filled with `e`. -/
theorem exists_place (hi : i < content.len) :
    ∃ shifted placed, shift i ((content.append grow [default]).len - 1) (content.append grow [default]) =
        some shifted ∧ shifted.set i e = some placed ∧
        placed.contents = content.contents.take i ++ e :: content.contents.drop i := by
  have hlen : (content.append grow [default]).len = content.len + 1 := by
    rw [← Slice.length_contents, Slice.contents_append, List.length_append, Slice.length_contents,
      List.length_singleton]
  have htake : (content.contents.take i).length = i := by
    rw [List.length_take_of_le (by rw [Slice.length_contents]; omega)]
  obtain ⟨shifted, hshift, hslen, hcells⟩ := exists_shift (i := i)
    (show (content.append grow [default]).len - 1 < (content.append grow [default]).len by omega)
  obtain ⟨placed, hset, hplaced⟩ := shifted.exists_set (show i < shifted.len by omega) e
  refine ⟨shifted, placed, hshift, hset, List.ext_getElem? fun k => ?_⟩
  rw [hplaced, List.getElem?_set, Slice.length_contents, hcells, Slice.contents_append]
  rcases Nat.lt_trichotomy k i with hk | rfl | hk
  · rw [if_neg (by omega), if_neg (by omega), List.getElem?_append_left (by rw [Slice.length_contents]; omega),
      List.getElem?_append_left (by rwa [htake]), List.getElem?_take_of_lt hk]
  · rw [if_pos rfl, if_pos (by omega), List.getElem?_append_right (le_of_eq htake), htake, Nat.sub_self,
      List.getElem?_cons_zero]
  · obtain ⟨d, rfl⟩ := Nat.exists_eq_add_of_lt hk
    have hright : (content.contents.take i ++ e :: content.contents.drop i)[i + d + 1]? =
        content.contents[i + d]? := by
      rw [List.getElem?_append_right (by rw [htake]; omega), htake, show i + d + 1 - i = d + 1 by omega,
        List.getElem?_cons_succ, List.getElem?_drop]
    rw [if_neg (by omega), hright]
    by_cases hk' : i + d + 1 ≤ content.len
    · rw [if_pos (by omega), Nat.add_sub_cancel, List.getElem?_append_left (by rw [Slice.length_contents]; omega)]
    · rw [if_neg (by omega), List.getElem?_eq_none (by simp; omega), List.getElem?_eq_none (by simp; omega)]

/-- From cell `i` on the loop does what the loop over the list of the remaining elements does. -/
theorem insertLoop_eq {n : ℕ} (hn : i + n = content.len) :
    match Pbft.PriorityQueue.insertLoop e (content.contents.drop i) with
    | none => insertLoop grow e n i content = some (content, false)
    | some rest => ∃ content', insertLoop grow e n i content = some (content', true) ∧
        content'.contents = content.contents.take i ++ rest := by
  induction n generalizing i with
  | zero =>
    rw [List.drop_eq_nil_of_le (by rw [Slice.length_contents]; omega)]
    refine ⟨_, rfl, ?_⟩
    rw [Slice.contents_append, List.take_of_length_le (by rw [Slice.length_contents]; omega)]
  | succ n ih =>
    have hlt : i < content.contents.length := by rw [Slice.length_contents]; omega
    have hloop := ih (i := i + 1) (by omega)
    rw [List.drop_eq_getElem_cons hlt, Pbft.PriorityQueue.insertLoop, insertLoop, Slice.get_of_lt hlt]
    simp only [Option.bind_eq_bind, Option.bind_some]
    split_ifs with heq hgt
    · rfl
    · obtain ⟨shifted, placed, hshift, hset, hcontents⟩ := exists_place (e := e) grow (show i < content.len by omega)
      refine ⟨placed, ?_, ?_⟩
      · simp only [hshift, hset, Option.bind_some]
        rfl
      · rw [hcontents, List.drop_eq_getElem_cons hlt]
    · cases hrest : Pbft.PriorityQueue.insertLoop e (content.contents.drop (i + 1)) with
      | none =>
        rw [hrest] at hloop
        exact hloop
      | some rest =>
        rw [hrest] at hloop
        obtain ⟨content', hinsert, hcontents⟩ := hloop
        refine ⟨content', hinsert, ?_⟩
        rw [hcontents, List.take_succ_eq_append_getElem hlt, List.append_assoc, List.singleton_append]

/-- `Insert` does to the contents what the insertion into the list does. -/
theorem insert_eq (pq : PriorityQueue α) (e : PQElem α) :
    match Pbft.PriorityQueue.insertLoop e pq.content.contents with
    | none => pq.insert grow e = some (pq, false)
    | some content => ∃ queue, pq.insert grow e = some (queue, true) ∧ queue.content.contents = content := by
  unfold insert
  by_cases hlen : pq.content.len = 0
  · have hnil : pq.content.contents = [] := List.eq_nil_of_length_eq_zero (by rw [Slice.length_contents, hlen])
    rw [hnil, if_pos hlen]
    exact ⟨_, rfl, by rw [Slice.contents_append, hnil, List.nil_append]⟩
  · rw [if_neg hlen]
    have hloop := insertLoop_eq (i := 0) (e := e) grow (Nat.zero_add pq.content.len)
    rw [List.drop_zero] at hloop
    split at hloop
    · simp [hloop]
    · obtain ⟨content, hinsert, hcontents⟩ := hloop
      exact ⟨{ content }, by simp [hinsert], by simpa using hcontents⟩

end

section

variable {α : Type*} (pq : PriorityQueue α)

theorem getMin_eq : pq.getMin =
    some (pq.content.contents.head?.elim (.error "PriorityQueue length is 0") .ok) := by
  unfold getMin
  cases hc : pq.content.contents with
  | nil => rw [if_neg (by rw [← Slice.length_contents, hc]; simp)]; rfl
  | cons x rest => rw [if_pos (by rw [← Slice.length_contents, hc]; simp), Slice.get_eq, hc]; rfl

theorem extractMin_nil (h : pq.content.contents = []) :
    pq.extractMin = some (pq, .error "PriorityQueue length is 0") := by
  unfold extractMin
  rw [if_neg (by rw [← Slice.length_contents, h]; simp)]

variable {pq} {x : PQElem α} {rest : List (PQElem α)}

theorem extractMin_cons (h : pq.content.contents = x :: rest) :
    ∃ queue, pq.extractMin = some (queue, .ok x) ∧ queue.content.contents = rest := by
  have hlen : pq.content.len = rest.length + 1 := by rw [← Slice.length_contents, h, List.length_cons]
  obtain ⟨content, hslice, hcontents⟩ := pq.content.exists_tail (show 1 ≤ pq.content.len by omega)
  refine ⟨{ content }, ?_, ?_⟩
  · unfold extractMin
    rw [if_pos (by omega), Slice.get_eq, h, hslice]
    rfl
  · rw [hcontents, h, List.drop_one, List.tail_cons]

theorem extractMax_nil (h : pq.content.contents = []) :
    pq.extractMax = some (pq, .error "PriorityQueue length is 0") := by
  unfold extractMax
  rw [if_neg (by rw [← Slice.length_contents, h]; simp)]

theorem extractMax_append (h : pq.content.contents = rest ++ [x]) :
    ∃ queue, pq.extractMax = some (queue, .ok x) ∧ queue.content.contents = rest := by
  have hlen : pq.content.len = rest.length + 1 := by
    rw [← Slice.length_contents, h, List.length_append, List.length_singleton]
  obtain ⟨content, hslice, hcontents⟩ := pq.content.exists_front (show pq.content.len - 1 ≤ pq.content.len by omega)
  refine ⟨{ content }, ?_, ?_⟩
  · unfold extractMax
    rw [if_pos (by omega), Slice.get_eq, h, hslice, hlen, Nat.add_sub_cancel, List.getElem?_concat_length]
    rfl
  · rw [hcontents, h, hlen, Nat.add_sub_cancel, List.take_left]

end

inductive Op (α : Type*) where
  | insert (e : PQElem α)
  | extractMin
  | extractMax

/-- The queue with the elements that were accepted and those that were given back. -/
structure Ledger (α : Type*) where
  queue : PriorityQueue α := {}
  accepted : Multiset (PQElem α) := 0
  extracted : Multiset (PQElem α) := 0

namespace Ledger

variable {α : Type*}

def extract (l : Ledger α) : PriorityQueue α × Except String (PQElem α) → Ledger α
  | (queue, .ok elem) => { l with queue, extracted := elem ::ₘ l.extracted }
  | (queue, .error _) => { l with queue }

variable [Inhabited α]

def apply (l : Ledger α) : Op α → Option (Ledger α)
  | .insert e => do
    let (queue, inserted) ← l.queue.insert grow e
    return { l with queue, accepted := if inserted then e ::ₘ l.accepted else l.accepted }
  | .extractMin => l.queue.extractMin.map l.extract
  | .extractMax => l.queue.extractMax.map l.extract

/-- A run of operations from the queue as it is made. -/
def run (ops : List (Op α)) : Option (Ledger α) := ops.foldlM (apply grow) {}

/-- The queue is in order and holds what was accepted and not given back. -/
structure Balanced (l : Ledger α) : Prop where
  sorted : l.queue.content.contents.Pairwise fun x y => x.pri < y.pri
  balance : l.accepted = l.queue.content.contents + l.extracted

variable {grow} {l : Ledger α}

theorem Balanced.insert (h : l.Balanced) (e : PQElem α) : ∃ l', l.apply grow (.insert e) = some l' ∧ l'.Balanced := by
  have hinsert := insert_eq grow l.queue e
  cases hloop : Pbft.PriorityQueue.insertLoop e l.queue.content.contents with
  | none =>
    rw [hloop] at hinsert
    exact ⟨l, by simp [apply, hinsert], h⟩
  | some content =>
    rw [hloop] at hinsert
    obtain ⟨queue, hq, hcontents⟩ := hinsert
    refine ⟨{ l with queue, accepted := e ::ₘ l.accepted }, by simp [apply, hq], ?_, ?_⟩
    · rw [hcontents]
      exact Pbft.PriorityQueue.pairwise_insertLoop hloop h.sorted
    · rw [hcontents, Multiset.coe_eq_coe.mpr (Pbft.PriorityQueue.perm_insertLoop hloop), h.balance,
        ← Multiset.cons_coe, Multiset.cons_add]

theorem Balanced.extractMin (h : l.Balanced) : ∃ l', l.apply grow .extractMin = some l' ∧ l'.Balanced := by
  cases hc : l.queue.content.contents with
  | nil => exact ⟨l, by simp [apply, extractMin_nil _ hc, extract], h⟩
  | cons x rest =>
    obtain ⟨queue, hq, hcontents⟩ := extractMin_cons hc
    refine ⟨{ l with queue, extracted := x ::ₘ l.extracted }, by simp [apply, hq, extract], ?_, ?_⟩
    · rw [hcontents]
      exact (hc ▸ h.sorted).of_cons
    · rw [hcontents, h.balance, hc, ← Multiset.cons_coe, Multiset.cons_add, Multiset.add_cons]

theorem Balanced.extractMax (h : l.Balanced) : ∃ l', l.apply grow .extractMax = some l' ∧ l'.Balanced := by
  rcases List.eq_nil_or_concat' l.queue.content.contents with hc | ⟨rest, x, hc⟩
  · exact ⟨l, by simp [apply, extractMax_nil hc, extract], h⟩
  · obtain ⟨queue, hq, hcontents⟩ := extractMax_append hc
    refine ⟨{ l with queue, extracted := x ::ₘ l.extracted }, by simp [apply, hq, extract], ?_, ?_⟩
    · rw [hcontents]
      exact (List.pairwise_append.mp (hc ▸ h.sorted)).1
    · rw [hcontents, h.balance, hc, ← Multiset.coe_add, Multiset.coe_singleton, Multiset.add_assoc,
        Multiset.singleton_add]

theorem Balanced.apply (h : l.Balanced) (op : Op α) : ∃ l', l.apply grow op = some l' ∧ l'.Balanced := by
  cases op with
  | insert e => exact h.insert e
  | extractMin => exact h.extractMin
  | extractMax => exact h.extractMax

theorem Balanced.foldlM (h : l.Balanced) (ops : List (Op α)) :
    ∃ l', ops.foldlM (Ledger.apply grow) l = some l' ∧ l'.Balanced := by
  induction ops generalizing l with
  | nil => exact ⟨l, rfl, h⟩
  | cons op ops ih =>
    obtain ⟨next, hnext, hbalanced⟩ : ∃ l', l.apply grow op = some l' ∧ l'.Balanced := h.apply op
    obtain ⟨l', hl', hrun⟩ := ih hbalanced
    exact ⟨l', by rw [List.foldlM_cons, hnext]; exact hl', hrun⟩

/-- Every run returns, with the queue in order and nothing lost or made up. -/
theorem exists_run (ops : List (Op α)) : ∃ l, run grow ops = some l ∧ l.Balanced :=
  Balanced.foldlM ⟨List.Pairwise.nil, rfl⟩ ops

/-- An element is refused just when its priority is taken, and then the queue stays as it is. -/
theorem Balanced.insert_iff (h : l.Balanced) (e : PQElem α) : ∃ queue inserted,
    l.queue.insert grow e = some (queue, inserted) ∧
      (inserted = false ↔ ∃ x ∈ l.queue.content.contents, x.pri = e.pri) ∧
      (inserted = false → queue = l.queue) := by
  have hinsert := insert_eq grow l.queue e
  cases hloop : Pbft.PriorityQueue.insertLoop e l.queue.content.contents with
  | none =>
    rw [hloop] at hinsert
    have htaken := Pbft.PriorityQueue.exists_of_insertLoop_eq_none hloop
    exact ⟨l.queue, false, hinsert, ⟨fun _ => htaken, fun _ => rfl⟩, fun _ => rfl⟩
  | some content =>
    rw [hloop] at hinsert
    obtain ⟨queue, hq, -⟩ := hinsert
    have hperm := Pbft.PriorityQueue.perm_insertLoop hloop
    refine ⟨queue, true, hq, ⟨nofun, ?_⟩, nofun⟩
    rintro ⟨x, hx, hpri⟩
    have hnew := (hperm.pairwise_iff (R := fun x y => x.pri ≠ y.pri) (fun hxy hyx => hxy hyx.symm)).mp
      ((Pbft.PriorityQueue.pairwise_insertLoop hloop h.sorted).imp fun hlt => Int.ne_of_lt hlt)
    exact absurd hpri.symm ((List.pairwise_cons.mp hnew).1 x hx)

omit [Inhabited α] in
/-- The element in front is the least. -/
theorem Balanced.least (h : l.Balanced) {x : PQElem α} {rest : List (PQElem α)}
    (hc : l.queue.content.contents = x :: rest) {y : PQElem α} (hy : y ∈ l.queue.content.contents) :
    y = x ∨ x.pri < y.pri := by
  have hsorted := h.sorted
  rw [hc] at hy hsorted
  exact (List.mem_cons.mp hy).imp_right ((List.pairwise_cons.mp hsorted).1 y)

end Ledger

/-- In any run the content is strictly increasing and is what was accepted less what was given back;
`Insert` refuses just the priorities that are taken, and `GetMin` and `ExtractMin` give the least element. -/
theorem run_exact {α : Type*} [Inhabited α] (ops : List (Op α)) : ∃ l, Ledger.run grow ops = some l ∧
    l.queue.content.contents.Pairwise (fun x y => x.pri < y.pri) ∧
    l.accepted = l.queue.content.contents + l.extracted ∧
    (∀ e, ∃ queue inserted, l.queue.insert grow e = some (queue, inserted) ∧
      (inserted = false ↔ ∃ x ∈ l.queue.content.contents, x.pri = e.pri) ∧
      (inserted = false → queue = l.queue)) ∧
    (l.queue.content.contents = [] → l.queue.getMin = some (.error "PriorityQueue length is 0") ∧
      l.queue.extractMin = some (l.queue, .error "PriorityQueue length is 0")) ∧
    (l.queue.content.contents ≠ [] → ∃ least queue, (∀ y ∈ l.queue.content.contents, y = least ∨ least.pri < y.pri) ∧
      l.queue.content.contents = least :: queue.content.contents ∧ l.queue.getMin = some (.ok least) ∧
      l.queue.extractMin = some (queue, .ok least)) := by
  obtain ⟨l, hrun, h⟩ : ∃ l, Ledger.run grow ops = some l ∧ l.Balanced := Ledger.exists_run ops
  refine ⟨l, hrun, h.sorted, h.balance, fun e => ?_, fun hc => ?_, fun hc => ?_⟩
  · exact h.insert_iff e
  · exact ⟨by rw [getMin_eq, hc]; rfl, extractMin_nil _ hc⟩
  · obtain ⟨x, rest, hc⟩ := List.exists_cons_of_ne_nil hc
    obtain ⟨queue, hq, hcontents⟩ := extractMin_cons hc
    exact ⟨x, queue, fun y hy => h.least hc hy, by rw [hc, hcontents], by rw [getMin_eq, hc]; rfl, hq⟩

end PriorityQueue

structure StringQueue (α : Type) where
  q : Slice String := .nil
  m : RangeMap String α := ∅

namespace StringQueue

variable {α : Type} (sq : StringQueue α)

def extractMin : Option (StringQueue α × Except String (String × Option α)) :=
  if sq.q.len ≠ 0 then do
    let key ← sq.q.get 0
    let c := sq.m.lookup key
    let q ← sq.q.reslice 1 sq.q.len
    return ({ q, m := sq.m.erase key }, .ok (key, c))
  else some (sq, .error "no element")

def getMin : Option (Except String (String × Option α)) :=
  if sq.q.len ≠ 0 then do
    let key ← sq.q.get 0
    return .ok (key, sq.m.lookup key)
  else some (.error "no element")

/-- The loop of `Remove` from cell `i`, with the number of cells that are left. -/
def removeLoop (key : String) : ℕ → ℕ → Slice String → Option (Slice String × Bool)
  | 0, _, q => some (q, false)
  | n + 1, i, q => do
    let x ← q.get i
    if x = key then
      let front ← q.reslice 0 i
      let tail ← q.reslice (i + 1) q.len
      return (front.append grow tail.contents, true)
    else removeLoop key n (i + 1) q

def remove (key : String) : Option (StringQueue α × Bool) := do
  let (q, removed) ← removeLoop grow key sq.q.len 0 sq.q
  return ({ q, m := sq.m.erase key }, removed)

def insert (key : String) (c : α) : StringQueue α × Bool :=
  if (sq.m.lookup key).isSome then (sq, false)
  else ({ q := sq.q.append grow [key], m := AList.insert key c sq.m }, true)

/-- The queue with the list of its keys for the slice. -/
def toList : Pbft.StringQueue α where
  q := sq.q.contents
  m := sq.m

section

variable {sq} {key : String} {q : Slice String}

theorem getMin_toList : sq.getMin = some (sq.toList.getMin.elim (.error "no element") .ok) := by
  unfold getMin Pbft.StringQueue.getMin toList
  cases hc : sq.q.contents with
  | nil => rw [if_neg (by rw [← Slice.length_contents, hc]; simp)]; rfl
  | cons x rest => rw [if_pos (by rw [← Slice.length_contents, hc]; simp), Slice.get_eq, hc]; rfl

theorem extractMin_nil (h : sq.q.contents = []) : sq.extractMin = some (sq, .error "no element") := by
  unfold extractMin
  rw [if_neg (by rw [← Slice.length_contents, h]; simp)]

theorem extractMin_cons {rest : List String} (h : sq.q.contents = key :: rest) :
    ∃ queue, sq.extractMin = some (queue, .ok (key, sq.m.lookup key)) ∧
      queue.q.contents = rest ∧ queue.m = sq.m.erase key := by
  have hlen : sq.q.len = rest.length + 1 := by rw [← Slice.length_contents, h, List.length_cons]
  obtain ⟨q, hslice, hcontents⟩ := sq.q.exists_tail (show 1 ≤ sq.q.len by omega)
  refine ⟨{ q, m := sq.m.erase key }, ?_, ?_, rfl⟩
  · unfold extractMin
    rw [if_pos (by omega), Slice.get_eq, h, hslice]
    rfl
  · rw [hcontents, h, List.drop_one, List.tail_cons]

/-- From cell `i` on the loop closes the gap at the first cell with the key, if there is one. -/
theorem removeLoop_eq (key : String) {n i : ℕ} (hn : i + n = q.len) :
    if key ∈ q.contents.drop i then
      ∃ q', removeLoop grow key n i q = some (q', true) ∧
        q'.contents = q.contents.take i ++ (q.contents.drop i).erase key
    else removeLoop grow key n i q = some (q, false) := by
  induction n generalizing i with
  | zero =>
    rw [List.drop_eq_nil_of_le (by rw [Slice.length_contents]; omega), if_neg (by simp)]
    rfl
  | succ n ih =>
    have hlt : i < q.contents.length := by rw [Slice.length_contents]; omega
    have hloop := ih (i := i + 1) (by omega)
    rw [List.drop_eq_getElem_cons hlt, removeLoop, Slice.get_of_lt hlt]
    simp only [Option.bind_eq_bind, Option.bind_some]
    by_cases heq : q.contents[i] = key
    · obtain ⟨front, hfront, hfc⟩ := q.exists_front (show i ≤ q.len by omega)
      obtain ⟨tail, htail, htc⟩ := q.exists_tail (show i + 1 ≤ q.len by omega)
      rw [if_pos (List.mem_cons.mpr (Or.inl heq.symm))]
      refine ⟨front.append grow tail.contents, ?_, ?_⟩
      · rw [if_pos heq, hfront, htail]
        rfl
      · rw [Slice.contents_append, hfc, htc, heq, List.erase_cons_head]
    · rw [if_neg heq]
      by_cases hmem : key ∈ q.contents.drop (i + 1)
      · rw [if_pos hmem] at hloop
        rw [if_pos (List.mem_cons_of_mem _ hmem)]
        obtain ⟨q', hremove, hcontents⟩ := hloop
        refine ⟨q', hremove, ?_⟩
        rw [hcontents, List.erase_cons_tail (by simpa using heq), List.take_succ_eq_append_getElem hlt,
          List.append_assoc, List.singleton_append]
      · rw [if_neg hmem] at hloop
        rw [if_neg (List.not_mem_cons_of_ne_of_not_mem (Ne.symm heq) hmem)]
        exact hloop

theorem remove_toList (sq : StringQueue α) (key : String) : ∃ queue,
    sq.remove grow key = some (queue, (sq.toList.remove key).2) ∧ queue.toList = (sq.toList.remove key).1 ∧
      (key ∉ sq.q.contents → queue.q = sq.q) := by
  have hloop := removeLoop_eq grow key (Nat.zero_add sq.q.len)
  rw [List.drop_zero, List.take_zero, List.nil_append] at hloop
  rw [Pbft.StringQueue.remove_fst, Pbft.StringQueue.remove_snd]
  unfold remove toList
  split_ifs at hloop with hmem
  · obtain ⟨q, hremove, hcontents⟩ := hloop
    exact ⟨{ q, m := sq.m.erase key }, by simp [hremove, hmem], by rw [hcontents], fun h => absurd hmem h⟩
  · refine ⟨{ q := sq.q, m := sq.m.erase key }, by simp [hloop, hmem], ?_, fun _ => rfl⟩
    rw [List.erase_of_not_mem hmem]

theorem insert_toList (sq : StringQueue α) (key : String) (c : α) :
    (sq.insert grow key c).1.toList = (sq.toList.insert key c).1 ∧
      (sq.insert grow key c).2 = (sq.toList.insert key c).2 := by
  unfold insert Pbft.StringQueue.insert
  by_cases hk : (sq.m.lookup key).isSome
  · rw [if_pos hk, if_pos (show (sq.toList.m.lookup key).isSome from hk)]
    exact ⟨rfl, rfl⟩
  · rw [if_neg hk, if_neg (show ¬ (sq.toList.m.lookup key).isSome from hk)]
    exact ⟨by simp [toList], rfl⟩

/-- A key that goes in goes to the end, and one that is refused leaves the queue as it is. -/
theorem insert_iff (sq : StringQueue α) (key : String) (c : α) :
    ((sq.insert grow key c).2 = true ↔ (sq.insert grow key c).1.q.contents ≠ sq.q.contents) ∧
      ((sq.insert grow key c).2 = false → (sq.insert grow key c).1 = sq) := by
  unfold insert
  split_ifs with hk
  · simp
  · simp

/-- A key that is taken out was in the queue, and when there is none the queue stays as it is. -/
theorem remove_iff (h : sq.toList.Keyed) (key : String) : ∃ queue removed,
    sq.remove grow key = some (queue, removed) ∧ (removed = true ↔ queue.q.contents ≠ sq.q.contents) ∧
      (removed = false → queue = sq) := by
  obtain ⟨queue, hremove, hlist, hq⟩ := remove_toList grow sq key
  rw [Pbft.StringQueue.remove_snd] at hremove
  rw [Pbft.StringQueue.remove_fst] at hlist
  have hcontents : queue.q.contents = sq.q.contents.erase key := congrArg Pbft.StringQueue.q hlist
  have hm : queue.m = sq.m.erase key := congrArg Pbft.StringQueue.m hlist
  refine ⟨queue, _, hremove, ?_, fun hkey => ?_⟩
  · rw [decide_eq_true_iff, hcontents, ne_eq, List.erase_eq_self_iff, not_not]
    rfl
  · have hkey : key ∉ sq.q.contents := of_decide_eq_false hkey
    obtain ⟨q, m⟩ := queue
    obtain rfl : q = sq.q := hq hkey
    obtain rfl : m = sq.m := hm.trans (RangeMap.erase_of_lookup_none (h.lookup_of_not_mem hkey))
    rfl

end

inductive Op (α : Type) where
  | insert (key : String) (c : α)
  | remove (key : String)
  | getMin
  | extractMin

/-- The queue with the keys that were accepted, in order, the place among these of the last time a
key was, and what left the queue in front, with its place. -/
structure Ledger (α : Type) where
  queue : StringQueue α := {}
  log : List (String × α) := []
  place : String → ℕ := fun _ => 0
  left : List (ℕ × String × Option α) := []

namespace Ledger

variable {α : Type}

def enter (l : Ledger α) (key : String) (c : α) : StringQueue α × Bool → Ledger α
  | (queue, true) =>
    { l with queue, log := l.log ++ [(key, c)], place := Function.update l.place key l.log.length }
  | (queue, false) => { l with queue }

def leave (l : Ledger α) : StringQueue α × Except String (String × Option α) → Ledger α
  | (queue, .ok (key, c)) => { l with queue, left := l.left ++ [(l.place key, key, c)] }
  | (queue, .error _) => { l with queue }

def apply (l : Ledger α) : Op α → Option (Ledger α)
  | .insert key c => some (l.enter key c (l.queue.insert grow key c))
  | .remove key => (l.queue.remove grow key).map fun (queue, _) => { l with queue }
  | .getMin => l.queue.getMin.map fun _ => l
  | .extractMin => l.queue.extractMin.map l.leave

/-- A run of operations from the queue as it is made. -/
def run (ops : List (Op α)) : Option (Ledger α) := ops.foldlM (apply grow) {}

/-- The places of what left and then of what is queued. -/
def places (l : Ledger α) : List ℕ := l.left.map Prod.fst ++ l.queue.q.contents.map l.place

/-- What left and what is queued stand in the order in which they were accepted, each with the value
that was accepted with it. -/
structure Ordered (l : Ledger α) : Prop where
  keyed : l.queue.toList.Keyed
  order : l.places.Pairwise (· < ·)
  gone : ∀ d ∈ l.left, ∃ c, d.2.2 = some c ∧ l.log[d.1]? = some (d.2.1, c)
  held : ∀ key ∈ l.queue.q.contents, ∃ c, l.queue.m.lookup key = some c ∧ l.log[l.place key]? = some (key, c)

variable {grow} {l : Ledger α}

theorem Ordered.lt_length (h : l.Ordered) {n : ℕ} (hn : n ∈ l.places) : n < l.log.length := by
  rcases List.mem_append.mp hn with hn | hn
  · obtain ⟨d, hd, rfl⟩ := List.mem_map.mp hn
    obtain ⟨c, -, hlog⟩ := h.gone d hd
    exact (List.getElem?_eq_some_iff.mp hlog).1
  · obtain ⟨key, hkey, rfl⟩ := List.mem_map.mp hn
    obtain ⟨c, -, hlog⟩ := h.held key hkey
    exact (List.getElem?_eq_some_iff.mp hlog).1

theorem Ordered.insert (h : l.Ordered) (key : String) (c : α) :
    (l.enter key c (l.queue.insert grow key c)).Ordered := by
  have hlist := (insert_toList grow l.queue key c).1
  unfold StringQueue.insert at hlist ⊢
  split_ifs at hlist ⊢ with hk
  · exact h
  · have hkey : key ∉ l.queue.q.contents := fun hmem => hk ((h.keyed.keys key).mpr hmem)
    have hold : l.queue.q.contents.map (Function.update l.place key l.log.length) =
        l.queue.q.contents.map l.place :=
      List.map_congr_left fun x hx => Function.update_of_ne (ne_of_mem_of_not_mem hx hkey) _ _
    refine ⟨?_, ?_, fun d hd => ?_, fun x hx => ?_⟩
    · exact hlist ▸ h.keyed.insert hkey c
    · simp only [enter, places, Slice.contents_append, List.map_append, hold, List.map_cons, List.map_nil,
        Function.update_self]
      rw [← List.append_assoc]
      refine List.pairwise_append.mpr ⟨h.order, List.pairwise_singleton .., fun n hn m hm => ?_⟩
      rw [List.mem_singleton.mp hm]
      exact h.lt_length hn
    · obtain ⟨c', hc', hlog⟩ := h.gone d hd
      exact ⟨c', hc', List.getElem?_append_left (List.getElem?_eq_some_iff.mp hlog).1 ▸ hlog⟩
    · simp only [enter, Slice.contents_append, List.mem_append, List.mem_singleton] at hx ⊢
      by_cases heq : x = key
      · subst heq
        refine ⟨c, AList.lookup_insert _, ?_⟩
        rw [Function.update_self, List.getElem?_concat_length]
      · obtain ⟨c', hc', hlog⟩ := h.held x (hx.resolve_right heq)
        refine ⟨c', by rwa [AList.lookup_insert_ne heq], ?_⟩
        rw [Function.update_of_ne heq, List.getElem?_append_left (List.getElem?_eq_some_iff.mp hlog).1, hlog]

theorem Ordered.remove (h : l.Ordered) (key : String) :
    ∃ l', l.apply grow (.remove key) = some l' ∧ l'.Ordered := by
  obtain ⟨queue, hremove, hlist, -⟩ := remove_toList grow l.queue key
  rw [Pbft.StringQueue.remove_fst] at hlist
  have hcontents : queue.q.contents = l.queue.q.contents.erase key := congrArg Pbft.StringQueue.q hlist
  have hm : queue.m = l.queue.m.erase key := congrArg Pbft.StringQueue.m hlist
  refine ⟨{ l with queue }, by simp [apply, hremove], ?_, ?_, h.gone, fun x hx => ?_⟩
  · rw [hlist]
    exact h.keyed.erase key
  · refine h.order.sublist ((List.Sublist.refl _).append ?_)
    rw [hcontents]
    exact List.erase_sublist.map l.place
  · obtain ⟨hne, hmem⟩ := (h.keyed.nodup.mem_erase_iff).mp (hcontents ▸ hx)
    obtain ⟨c, hc, hlog⟩ := h.held x hmem
    exact ⟨c, by rwa [hm, AList.lookup_erase_ne hne], hlog⟩

theorem Ordered.extractMin (h : l.Ordered) : ∃ l', l.apply grow .extractMin = some l' ∧ l'.Ordered := by
  cases hc : l.queue.q.contents with
  | nil => exact ⟨l, by simp [apply, extractMin_nil hc, leave], h⟩
  | cons key rest =>
    obtain ⟨queue, hq, hrest, hm⟩ := extractMin_cons hc
    have herase : rest = l.queue.q.contents.erase key := by rw [hc, List.erase_cons_head]
    obtain ⟨c, hlookup, hlog⟩ := h.held key (hc ▸ List.mem_cons_self ..)
    refine ⟨_, by simp [apply, hq, leave]; rfl, ?_, ?_, fun d hd => ?_, fun x hx => ?_⟩
    · have hlist : queue.toList = { q := l.queue.q.contents.erase key, m := l.queue.m.erase key } := by
        rw [← herase, ← hrest, ← hm]
        rfl
      rw [hlist]
      exact h.keyed.erase key
    · have hplaces := h.order
      unfold places at hplaces ⊢
      rw [hc, List.map_cons] at hplaces
      rw [hrest, List.map_append, List.append_assoc]
      exact hplaces
    · rcases List.mem_append.mp hd with hd | hd
      · exact h.gone d hd
      · rw [List.mem_singleton.mp hd]
        exact ⟨c, hlookup, hlog⟩
    · obtain ⟨hne, hmem⟩ := (h.keyed.nodup.mem_erase_iff).mp (herase ▸ hrest ▸ hx)
      obtain ⟨c, hc, hlog⟩ := h.held x hmem
      exact ⟨c, by rwa [hm, AList.lookup_erase_ne hne], hlog⟩

theorem Ordered.apply (h : l.Ordered) (op : Op α) : ∃ l', l.apply grow op = some l' ∧ l'.Ordered := by
  cases op with
  | insert key c => exact ⟨_, rfl, h.insert key c⟩
  | remove key => exact h.remove key
  | getMin => exact ⟨l, by simp [Ledger.apply, getMin_toList], h⟩
  | extractMin => exact h.extractMin

theorem Ordered.foldlM (h : l.Ordered) (ops : List (Op α)) :
    ∃ l', ops.foldlM (Ledger.apply grow) l = some l' ∧ l'.Ordered := by
  induction ops generalizing l with
  | nil => exact ⟨l, rfl, h⟩
  | cons op ops ih =>
    obtain ⟨next, hnext, hordered⟩ : ∃ l', l.apply grow op = some l' ∧ l'.Ordered := h.apply op
    obtain ⟨l', hl', hrun⟩ := ih hordered
    exact ⟨l', by rw [List.foldlM_cons, hnext]; exact hl', hrun⟩

theorem exists_run (ops : List (Op α)) : ∃ l, run grow ops = some l ∧ l.Ordered :=
  Ordered.foldlM ⟨Pbft.StringQueue.Keyed.empty, List.Pairwise.nil, fun _ hd => absurd hd List.not_mem_nil,
    fun _ hk => absurd hk List.not_mem_nil⟩ ops

end Ledger

/-- In any run no key is queued twice, the keys that are queued are those of the map, and keys leave in
the order in which they were last accepted, each with the value accepted with it; `Insert` and `Remove`
return whether they changed the queue. -/
theorem run_ordered {α : Type} (ops : List (Op α)) : ∃ l, Ledger.run grow ops = some l ∧
    l.queue.q.contents.Nodup ∧ (∀ key, key ∈ l.queue.q.contents ↔ key ∈ l.queue.m) ∧
    (l.left.map Prod.fst ++ l.queue.q.contents.map l.place).Pairwise (· < ·) ∧
    (∀ d ∈ l.left, ∃ c, d.2.2 = some c ∧ l.log[d.1]? = some (d.2.1, c)) ∧
    (∀ key ∈ l.queue.q.contents, ∃ c, l.queue.m.lookup key = some c ∧ l.log[l.place key]? = some (key, c)) ∧
    (∀ key c, ((l.queue.insert grow key c).2 = true ↔ (l.queue.insert grow key c).1.q.contents ≠ l.queue.q.contents) ∧
      ((l.queue.insert grow key c).2 = false → (l.queue.insert grow key c).1 = l.queue)) ∧
    (∀ key, ∃ queue removed, l.queue.remove grow key = some (queue, removed) ∧
      (removed = true ↔ queue.q.contents ≠ l.queue.q.contents) ∧ (removed = false → queue = l.queue)) := by
  obtain ⟨l, hrun, h⟩ : ∃ l, Ledger.run grow ops = some l ∧ l.Ordered := Ledger.exists_run ops
  refine ⟨l, hrun, h.keyed.nodup, fun key => ?_, h.order, h.gone, h.held, l.queue.insert_iff grow,
    fun key => remove_iff grow h.keyed key⟩
  rw [← AList.lookup_isSome]
  exact (h.keyed.keys key).symm

end StringQueue

end Sliced

end DistributedNotary.Pbft
