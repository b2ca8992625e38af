import Mathlib.Data.List.Basic
import Mathlib.Logic.Function.Basic

/-! Machines that keep one slot for each key and write at most one of them in a
step. What a reader finds in a slot after any number of steps is the last thing
that was written there. -/
namespace DistributedNotary.Library

/-- The slots after a write, if there is one. -/
def overwrite {κ δ : Type*} [DecidableEq κ] (f : κ → δ) : Option (κ × δ) → κ → δ
  | some (k, d) => Function.update f k d
  | none => f

/-- A machine with keyed slots; `written` is the slot that a step overwrites. -/
structure Slots (σ τ κ δ : Type*) [DecidableEq κ] where
  next : σ → τ → σ
  slot : σ → κ → δ
  written : σ → τ → Option (κ × δ)
  spec : ∀ s t, slot (next s t) = overwrite (slot s) (written s t)

namespace Slots

variable {σ τ κ δ : Type*} [DecidableEq κ] (m : Slots σ τ κ δ)

def run (s : σ) (ts : List τ) : σ := ts.foldl m.next s

/-- The last write to slot `k` in the steps `ts`. -/
def lastWrite (k : κ) (s : σ) : List τ → Option δ
  | [] => none
  | t :: ts =>
    match lastWrite k (m.next s t) ts with
    | some d => some d
    | none =>
      match m.written s t with
      | some (k', d) => if k = k' then some d else none
      | none => none

/-- A slot holds the last thing written to it, and what it held before if nothing was. -/
theorem slot_run (k : κ) (s : σ) (ts : List τ) :
    m.slot (m.run s ts) k = (m.lastWrite k s ts).getD (m.slot s k) := by
  induction ts generalizing s with
  | nil => rfl
  | cons t ts ih =>
    rw [run, List.foldl_cons, ← run, ih, lastWrite]
    cases h : m.lastWrite k (m.next s t) ts with
    | some d => rfl
    | none =>
      simp only [Option.getD_none]
      rw [m.spec]
      cases m.written s t with
      | none => rfl
      | some w =>
        simp only [overwrite, Function.update_apply]
        split <;> rfl

/-- The state after a call, which a revert leaves as it was. -/
def afterCall {ε : Type*} (exec : σ → τ → Option (σ × ε)) (s : σ) (t : τ) : σ :=
  match exec s t with
  | some (s', _) => s'
  | none => s

/-- The machine whose calls revert or overwrite at most one entry of a map. -/
def ofExec {ε : Type*} (exec : σ → τ → Option (σ × ε)) (slot : σ → κ → δ) (write : τ → Option (κ × δ))
    (h : ∀ s t s' e, exec s t = some (s',e) → slot s' = overwrite (slot s) (write t)) : Slots σ τ κ δ where
  next := afterCall exec
  slot := slot
  written s t := (exec s t).bind fun _ => write t
  spec s t := by
    unfold afterCall
    cases he : exec s t with
    | none => rfl
    | some r => exact h s t r.1 r.2 he

/-- A call that succeeds leaves in its slot what it wrote there, until the slot is written again. -/
theorem slot_run_ofExec {ε : Type*} (exec : σ → τ → Option (σ × ε)) (slot : σ → κ → δ) (write : τ → Option (κ × δ))
    {h : ∀ s t s' e, exec s t = some (s',e) → slot s' = overwrite (slot s) (write t)} {s s' : σ} {t : τ} {e : ε}
    {k : κ} {d : δ} (he : exec s t = some (s',e)) (hw : write t = some (k,d)) (ts : List τ) :
    slot (ts.foldl (afterCall exec) s') k = ((ofExec exec slot write h).lastWrite k s' ts).getD d := by
  have hslot : slot s' k = d := by
    rw [h s t s' e he, hw]
    exact Function.update_self ..
  rw [← hslot]
  exact (ofExec exec slot write h).slot_run k s' ts

end Slots

end DistributedNotary.Library
