import DistributedNotary.Library.RangeMap

/-! The table of the notaries' Bitcoin outputs, keyed by the transaction alone,
with the marks that the agreement on outputs leaves in it. -/
namespace DistributedNotary.Btc

open Library

inductive BTCOutpointStatus where
  | usable
  | used
  deriving DecidableEq

inductive UTXOPBFTStatus where
  | notUsed
  | preSelect
  | commit
  deriving DecidableEq

structure BTCOutpoint where
  publicKeyHashStr : String
  txHashStr : String
  index : ℤ
  amount : Int64
  status : BTCOutpointStatus
  pbftStatus : UTXOPBFTStatus
  view : ℤ
  pbftReason : String
  deriving DecidableEq

/-- `strings.Split(s, "-")`. -/
def splitDash (s : String) : List String := (s.toList.splitOn '-').map String.ofList

theorem nodup_map_nil : (([] : List BTCOutpoint).map BTCOutpoint.txHashStr).Nodup := List.nodup_nil

theorem named_nil : ∀ o ∈ ([] : List BTCOutpoint), o.txHashStr ≠ "" := by simp

/-- The rows, in the order in which an unordered query returns them. -/
structure OutpointTable where
  rows : List BTCOutpoint := []
  primaryKey : (rows.map BTCOutpoint.txHashStr).Nodup := by first | exact nodup_map_nil | simp
  named : ∀ o ∈ rows, o.txHashStr ≠ "" := by first | exact named_nil | simp

namespace OutpointTable

variable (db : OutpointTable)

def lookup (txHashStr : String) : Option BTCOutpoint := db.rows.find? fun o => o.txHashStr = txHashStr

/-- The row with the least key. -/
def first : Option BTCOutpoint :=
  db.rows.foldl (fun best o =>
    match best with
    | none => some o
    | some b => if o.txHashStr < b.txHashStr then some o else some b) none

/-- The query ignores a zero field, so that an empty hash finds the first row. -/
def getBTCOutpoint (txHashStr : String) : Option BTCOutpoint :=
  if txHashStr = "" then db.first else db.lookup txHashStr

variable {db}

theorem mem_of_lookup {txHashStr : String} {o : BTCOutpoint} (h : db.lookup txHashStr = some o) :
    o ∈ db.rows ∧ o.txHashStr = txHashStr :=
  ⟨List.mem_of_find?_eq_some h, by simpa using List.find?_some h⟩

theorem lookup_of_mem {o : BTCOutpoint} (h : o ∈ db.rows) : db.lookup o.txHashStr = some o := by
  unfold lookup
  cases hf : db.rows.find? fun o' => o'.txHashStr = o.txHashStr with
  | none => exact absurd (List.find?_eq_none.mp hf o h) (by simp)
  | some o' =>
    have hmem := List.mem_of_find?_eq_some hf
    have hkey : o'.txHashStr = o.txHashStr := by simpa using List.find?_some hf
    rw [List.inj_on_of_nodup_map db.primaryKey hmem h hkey]

/-- The first of the rows is one of them. -/
theorem mem_of_first {o : BTCOutpoint} (h : db.first = some o) : o ∈ db.rows := by
  have hfold : ∀ (l : List BTCOutpoint) (b : Option BTCOutpoint), (∀ o', b = some o' → o' ∈ db.rows) →
      (∀ o' ∈ l, o' ∈ db.rows) → ∀ o', l.foldl (fun best o =>
        match best with
        | none => some o
        | some b => if o.txHashStr < b.txHashStr then some o else some b) b = some o' → o' ∈ db.rows := by
    intro l
    induction l with
    | nil =>
      intro b hb _ o' ho'
      exact hb o' ho'
    | cons x l ih =>
      intro b hb hl
      apply ih
      · intro o' ho'
        cases b with
        | none =>
          cases ho'
          exact hl x (List.mem_cons_self ..)
        | some b =>
          dsimp only at ho'
          split at ho'
          · cases ho'
            exact hl x (List.mem_cons_self ..)
          · exact hb o' ho'
      · exact fun o' ho' => hl o' (List.mem_cons_of_mem _ ho')
  exact hfold db.rows none (fun o' ho' => nomatch ho') (fun o' ho' => ho') o h

theorem mem_of_getBTCOutpoint {txHashStr : String} {o : BTCOutpoint} (h : db.getBTCOutpoint txHashStr = some o) :
    o ∈ db.rows := by
  unfold getBTCOutpoint at h
  split at h
  · exact mem_of_first h
  · exact (mem_of_lookup h).1

end OutpointTable

end DistributedNotary.Btc
