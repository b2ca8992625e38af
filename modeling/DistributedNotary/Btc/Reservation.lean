import DistributedNotary.Btc.Outpoint
import DistributedNotary.Library.Orders
import Mathlib.Algebra.Order.BigOperators.Group.List
import Mathlib.Algebra.Ring.Int.Defs
import Mathlib.Data.Nat.Find
import Mathlib.Data.List.Perm.Subperm

/-! The outputs that the agreement gives away. The leader of a view marks an output
before it proposes it, and the others mark it when they get the proposal; a mark
holds against its own view only. An update names the new values of a record, and
leaves out those that are zero, so that the view zero never gets into a record
that another view has marked. -/
namespace DistributedNotary.Btc

open Library

/-- `errors.New` of this file, and what gorm returns where a query finds no row. -/
inductive UTXOError where
  | notFound
  | duplicateUse
  | alreadyUsed
  | notAvailable
  deriving DecidableEq

def UTXOError.text : UTXOError → String
  | .notFound => "record not found"
  | .duplicateUse => "utxo duplicate use"
  | .alreadyUsed => "utxo already used"
  | .notAvailable => "cannout find availalbe BTC UTXO"

namespace BTCOutpoint

variable (o : BTCOutpoint) (view : ℤ)

/-- The condition on the marks in the queries of `GetAvailableUTXO`. -/
def availableTo : Bool := o.pbftStatus = .notUsed ∨ (o.pbftStatus = .preSelect ∧ o.view ≠ view)

/-- `Updates` with a record of three values, of which zero ones are skipped. -/
def updates (status : UTXOPBFTStatus) (reason : String) : BTCOutpoint :=
  { o with
    view := if view = 0 then o.view else view
    pbftStatus := if status = .notUsed then o.pbftStatus else status
    pbftReason := if reason = "" then o.pbftReason else reason }

/-- An update without a key goes to all rows. -/
def named (txHashStr : String) : Bool := txHashStr = "" ∨ o.txHashStr = txHashStr

@[simp] theorem updates_txHashStr (status : UTXOPBFTStatus) (reason : String) :
    (o.updates view status reason).txHashStr = o.txHashStr := rfl

end BTCOutpoint

/-- How a query sorts its rows; rows that compare equal come in any order. -/
structure RowOrder (r : BTCOutpoint → BTCOutpoint → Prop) where
  sort : List BTCOutpoint → List BTCOutpoint
  perm : ∀ l, (sort l).Perm l
  sorted : ∀ l, (sort l).Pairwise r

/-- `order by amount asc`. -/
abbrev AmountAsc := RowOrder fun o o' => o.amount ≤ o'.amount

/-- `order by amount desc`. -/
abbrev AmountDesc := RowOrder fun o o' => o'.amount ≤ o.amount

/-- Equal rows stay in the order of the table. -/
def AmountAsc.stable : AmountAsc where
  sort l := l.mergeSort fun o o' => o.amount ≤ o'.amount
  perm l := List.mergeSort_perm l _
  sorted l := by
    have h : (l.mergeSort fun o o' => decide (o.amount ≤ o'.amount)).Pairwise
        fun o o' => decide (o.amount ≤ o'.amount) = true :=
      List.pairwise_mergeSort
        (fun _ _ _ h h' => by simpa using Int64.le_trans (of_decide_eq_true h) (of_decide_eq_true h'))
        (fun o o' => by simpa using Int64.le_total o.amount o'.amount) l
    simpa using h

def AmountDesc.stable : AmountDesc where
  sort l := l.mergeSort fun o o' => o'.amount ≤ o.amount
  perm l := List.mergeSort_perm l _
  sorted l := by
    have h : (l.mergeSort fun o o' => decide (o'.amount ≤ o.amount)).Pairwise
        fun o o' => decide (o'.amount ≤ o.amount) = true :=
      List.pairwise_mergeSort
        (fun _ _ _ h h' => by simpa using Int64.le_trans (of_decide_eq_true h') (of_decide_eq_true h))
        (fun o o' => by simpa using Int64.le_total o'.amount o.amount) l
    simpa using h

namespace OutpointTable

section Operations

variable (db : OutpointTable)

/-- Rewrites some rows and keeps the keys. -/
def rewrite (q : BTCOutpoint → Bool) (f : BTCOutpoint → BTCOutpoint) (hf : ∀ o, (f o).txHashStr = o.txHashStr) :
    OutpointTable where
  rows := db.rows.map fun o => if q o then f o else o
  primaryKey := by
    rw [List.map_map, List.map_congr_left fun o _ => show _ = o.txHashStr by
      simp only [Function.comp]
      split
      · exact hf o
      · rfl]
    exact db.primaryKey
  named := by
    intro o ho
    obtain ⟨o', ho', rfl⟩ := List.mem_map.mp ho
    split
    · rw [hf o']
      exact db.named o' ho'
    · exact db.named o' ho'

/-- A row whose key is taken is not stored. -/
def newBTCOutpoint (outpoint : BTCOutpoint) (hnamed : outpoint.txHashStr ≠ "") : OutpointTable :=
  if h : outpoint.txHashStr ∈ db.rows.map BTCOutpoint.txHashStr then db
  else
    { rows := db.rows ++ [outpoint]
      primaryKey := by
        rw [List.map_append, List.nodup_append]
        refine ⟨db.primaryKey, List.nodup_singleton _, fun k hk k' hk' heq => h ?_⟩
        rw [List.map_singleton, List.mem_singleton] at hk'
        exact hk' ▸ heq ▸ hk
      named := by
        intro o ho
        rcases List.mem_append.mp ho with ho | ho
        · exact db.named o ho
        · exact List.mem_singleton.mp ho ▸ hnamed }

def markBTCOutpointUsed (txHashStr : String) : OutpointTable :=
  db.rewrite (BTCOutpoint.named · txHashStr) (fun o => { o with status := .used }) fun _ => rfl

/-- `Updates` of the rows of a key. -/
def mark (txHashStr : String) (view : ℤ) (status : UTXOPBFTStatus) (reason : String) : OutpointTable :=
  db.rewrite (BTCOutpoint.named · txHashStr) (BTCOutpoint.updates · view status reason) fun o =>
    o.updates_txHashStr view status reason

/-- `PreSelectUTXO`, where the database stores the mark; a write that it refuses is `TableOp.refused`. -/
def preSelectUTXO (txHashStr : String) (view : ℤ) : Except UTXOError OutpointTable :=
  match db.getBTCOutpoint txHashStr with
  | none => .error .notFound
  | some o =>
    if o.pbftStatus = .commit then .error .alreadyUsed
    else if o.pbftStatus = .preSelect ∧ o.view = view then .error .duplicateUse
    else .ok (db.mark o.txHashStr view .preSelect "")

def commitUTXO (txHashStr : String) (view : ℤ) (reason : String) : OutpointTable :=
  db.mark txHashStr view .commit reason

/-- The loop that adds up amounts, in 64 bits, until they reach `amount`. -/
def collectUTXO (amount : Int64) : Int64 → List BTCOutpoint → Option (List BTCOutpoint)
  | _, [] => none
  | sum, o :: l =>
    if amount ≤ sum + o.amount then some [o] else (collectUTXO amount (sum + o.amount) l).map (o :: ·)

def getAvailableUTXO (asc : AmountAsc) (desc : AmountDesc) (view : ℤ) (amount : Int64) :
    Except UTXOError (List BTCOutpoint) :=
  match (asc.sort (db.rows.filter fun o => amount ≤ o.amount ∧ o.availableTo view)).take 10 with
  | o :: _ => .ok [o]
  | [] =>
    match collectUTXO amount 0 ((desc.sort (db.rows.filter fun o => o.availableTo view)).take 10) with
    | some res => .ok res
    | none => .error .notAvailable

end Operations

section Rows

variable {db : OutpointTable}

theorem lookup_rewrite (q : BTCOutpoint → Bool) (f : BTCOutpoint → BTCOutpoint)
    (hf : ∀ o, (f o).txHashStr = o.txHashStr) (txHashStr : String) :
    (db.rewrite q f hf).lookup txHashStr = (db.lookup txHashStr).map fun o => if q o then f o else o := by
  unfold lookup rewrite
  rw [List.find?_map]
  congr 2
  funext o
  simp only [Function.comp]
  split
  · rw [hf o]
  · rfl

theorem lookup_newBTCOutpoint {o : BTCOutpoint} {outpoint : BTCOutpoint} {txHashStr : String}
    (h : db.lookup txHashStr = some o) (hnamed : outpoint.txHashStr ≠ "") :
    (db.newBTCOutpoint outpoint hnamed).lookup txHashStr = some o := by
  unfold newBTCOutpoint
  split
  · exact h
  · unfold lookup at h ⊢
    rw [List.find?_append, h, Option.some_or]

/-- A key that is not empty names one row. -/
theorem getBTCOutpoint_of_lookup {txHashStr : String} {o : BTCOutpoint} (h : db.lookup txHashStr = some o) :
    db.getBTCOutpoint txHashStr = some o := by
  obtain ⟨hmem, hkey⟩ := mem_of_lookup h
  rw [getBTCOutpoint, if_neg (hkey ▸ db.named o hmem), h]

theorem lookup_of_getBTCOutpoint {txHashStr : String} {o : BTCOutpoint} (h : db.getBTCOutpoint txHashStr = some o) :
    db.lookup o.txHashStr = some o := lookup_of_mem (mem_of_getBTCOutpoint h)

/-- What `PreSelectUTXO` asks of the row it finds. -/
theorem preSelectUTXO_ok {txHashStr : String} {view : ℤ} {db' : OutpointTable}
    (h : db.preSelectUTXO txHashStr view = .ok db') :
    ∃ o, db.getBTCOutpoint txHashStr = some o ∧ o.availableTo view = true ∧
      db' = db.mark o.txHashStr view .preSelect "" := by
  unfold preSelectUTXO at h
  split at h
  · cases h
  · rename_i o ho
    split_ifs at h with hc hp
    refine ⟨o, ho, ?_, (Except.ok.inj h).symm⟩
    have hstatus : o.pbftStatus = .notUsed ∨ o.pbftStatus = .preSelect := by
      cases hs : o.pbftStatus with
      | notUsed => exact .inl rfl
      | preSelect => exact .inr rfl
      | commit => exact absurd hs hc
    rw [BTCOutpoint.availableTo, decide_eq_true_eq]
    exact hstatus.imp_right fun hs => ⟨hs, fun hv => hp ⟨hs,hv⟩⟩

theorem preSelectUTXO_of_available {txHashStr : String} (view : ℤ) {o : BTCOutpoint}
    (ho : db.getBTCOutpoint txHashStr = some o) (hav : o.availableTo view = true) :
    db.preSelectUTXO txHashStr view = .ok (db.mark o.txHashStr view .preSelect "") := by
  rw [BTCOutpoint.availableTo, decide_eq_true_eq] at hav
  simp only [preSelectUTXO, ho]
  rcases hav with hs | ⟨hs, hv⟩
  · simp [hs]
  · simp [hs, hv]

theorem lookup_mark (txHashStr' : String) (view : ℤ) (status : UTXOPBFTStatus) (reason : String) {o : BTCOutpoint}
    {txHashStr : String} (h : db.lookup txHashStr = some o) :
    (db.mark txHashStr' view status reason).lookup txHashStr =
      some (if txHashStr' = "" ∨ txHashStr' = txHashStr then o.updates view status reason else o) := by
  have hkey := (mem_of_lookup h).2
  rw [mark, lookup_rewrite, h, Option.map_some]
  simp only [BTCOutpoint.named, decide_eq_true_eq, hkey, eq_comm (a := txHashStr)]

theorem lookup_markBTCOutpointUsed (txHashStr' : String) {o : BTCOutpoint} {txHashStr : String}
    (h : db.lookup txHashStr = some o) : (db.markBTCOutpointUsed txHashStr').lookup txHashStr =
      some (if o.named txHashStr' then { o with status := .used } else o) := by
  rw [markBTCOutpointUsed, lookup_rewrite, h, Option.map_some]

end Rows

/-! ### A mark against its own view -/

section Exclusive

/-- The operations that write the table. -/
inductive TableOp where
  | newBTCOutpoint (outpoint : BTCOutpoint) (hnamed : outpoint.txHashStr ≠ "")
  | markBTCOutpointUsed (txHashStr : String)
  | preSelectUTXO (txHashStr : String) (view : ℤ)
  | commitUTXO (txHashStr : String) (view : ℤ) (reason : String)
  /-- Any of them, when the database does not store what it is told. -/
  | refused

/-- An operation that fails leaves the table as it is. -/
def apply (db : OutpointTable) : TableOp → OutpointTable
  | .newBTCOutpoint outpoint hnamed => db.newBTCOutpoint outpoint hnamed
  | .markBTCOutpointUsed txHashStr => db.markBTCOutpointUsed txHashStr
  | .preSelectUTXO txHashStr view =>
    match db.preSelectUTXO txHashStr view with
    | .ok db' => db'
    | .error _ => db
  | .commitUTXO txHashStr view reason => db.commitUTXO txHashStr view reason
  | .refused => db

/-- Another view than `view` marks the output, or it is committed. -/
def Releases (txHashStr : String) (view : ℤ) (db : OutpointTable) : TableOp → Prop
  | .preSelectUTXO txHashStr' view' =>
    view' ≠ view ∧ (db.getBTCOutpoint txHashStr').map BTCOutpoint.txHashStr = some txHashStr ∧
      ∃ db', db.preSelectUTXO txHashStr' view' = .ok db'
  | .commitUTXO txHashStr' _ _ => txHashStr' = "" ∨ txHashStr' = txHashStr
  | _ => False

/-- The view gets the output neither from a query nor by marking it again. -/
structure Denied (db : OutpointTable) (txHashStr : String) (view : ℤ) : Prop where
  query : ∀ (asc : AmountAsc) (desc : AmountDesc) (amount : Int64) (l : List BTCOutpoint),
    db.getAvailableUTXO asc desc view amount = .ok l → ∀ o ∈ l, o.txHashStr ≠ txHashStr
  again : ∃ err, db.preSelectUTXO txHashStr view = .error err

variable {db : OutpointTable} {txHashStr : String} {view : ℤ}

theorem mem_of_collectUTXO {amount sum : Int64} {l res : List BTCOutpoint} (h : collectUTXO amount sum l = some res) :
    res <+: l := by
  induction l generalizing sum res with
  | nil => cases h
  | cons o l ih =>
    unfold collectUTXO at h
    split at h
    · obtain rfl := Option.some.inj h
      exact ⟨l,rfl⟩
    · obtain ⟨res', hres', rfl⟩ := Option.map_eq_some_iff.mp h
      exact List.cons_prefix_cons.mpr ⟨rfl,ih hres'⟩

/-- What a query gives is in the table and not marked against the view. -/
theorem getAvailableUTXO_mem {asc : AmountAsc} {desc : AmountDesc} {amount : Int64} {l : List BTCOutpoint}
    (h : db.getAvailableUTXO asc desc view amount = .ok l) {o : BTCOutpoint} (ho : o ∈ l) :
    o ∈ db.rows ∧ o.availableTo view = true := by
  unfold getAvailableUTXO at h
  split at h
  · rename_i o' l' heq
    obtain rfl := Except.ok.inj h
    obtain rfl := List.mem_singleton.mp ho
    have hmem : o ∈ asc.sort (db.rows.filter fun o => amount ≤ o.amount ∧ o.availableTo view) :=
      List.mem_of_mem_take (heq ▸ List.mem_cons_self ..)
    have hfilter := List.mem_filter.mp ((asc.perm _).mem_iff.mp hmem)
    exact ⟨hfilter.1, by simpa using (of_decide_eq_true hfilter.2).2⟩
  · split at h
    · rename_i res hres
      obtain rfl := Except.ok.inj h
      have hmem := List.mem_of_mem_take ((mem_of_collectUTXO hres).subset ho)
      have hfilter := List.mem_filter.mp ((desc.perm _).mem_iff.mp hmem)
      exact ⟨hfilter.1, by simpa using hfilter.2⟩
    · cases h

/-- The row that makes an output unavailable to a view. -/
def MarkedBy (db : OutpointTable) (txHashStr : String) (view : ℤ) : Prop :=
  ∃ o, db.lookup txHashStr = some o ∧ o.pbftStatus = .preSelect ∧ o.view = view

theorem MarkedBy.denied (h : db.MarkedBy txHashStr view) : db.Denied txHashStr view := by
  obtain ⟨o, ho, hstatus, hview⟩ := h
  constructor
  · intro asc desc amount l hl o' ho' hkey
    obtain ⟨hmem, hav⟩ := getAvailableUTXO_mem hl ho'
    have heq : o' = o := Option.some.inj ((hkey ▸ lookup_of_mem hmem).symm.trans ho)
    simp [BTCOutpoint.availableTo, heq, hstatus, hview] at hav
  · exact ⟨.duplicateUse, by simp [preSelectUTXO, getBTCOutpoint_of_lookup ho, hstatus, hview]⟩

/-- The mark stays until the output is given to another view or is committed. -/
theorem MarkedBy.apply (h : db.MarkedBy txHashStr view) (op : TableOp) (hop : ¬ Releases txHashStr view db op) :
    (db.apply op).MarkedBy txHashStr view := by
  obtain ⟨o, ho, hstatus, hview⟩ := h
  cases op with
  | newBTCOutpoint outpoint hnamed => exact ⟨o, lookup_newBTCOutpoint ho hnamed, hstatus, hview⟩
  | markBTCOutpointUsed txHashStr' =>
    refine ⟨if o.named txHashStr' then { o with status := .used } else o, ?_, ?_, ?_⟩
    · exact lookup_markBTCOutpointUsed txHashStr' ho
    · split <;> exact hstatus
    · split <;> exact hview
  | commitUTXO txHashStr' view' reason =>
    refine ⟨o, (lookup_mark txHashStr' view' .commit reason ho).trans ?_, hstatus, hview⟩
    exact congrArg some (if_neg hop)
  | refused => exact ⟨o, ho, hstatus, hview⟩
  | preSelectUTXO txHashStr' view' =>
    simp only [OutpointTable.apply]
    cases hpre : db.preSelectUTXO txHashStr' view' with
    | error err => exact ⟨o, ho, hstatus, hview⟩
    | ok db' =>
      obtain ⟨o', ho', hav, rfl⟩ := preSelectUTXO_ok hpre
      have hkey := (mem_of_lookup (lookup_of_getBTCOutpoint ho')).1
      refine ⟨o, (lookup_mark o'.txHashStr view' .preSelect "" ho).trans ?_, hstatus, hview⟩
      rw [if_neg]
      rintro (hempty | heq)
      · exact db.named o' hkey hempty
      · have hoo : o' = o := Option.some.inj ((heq ▸ lookup_of_mem hkey).symm.trans ho)
        refine hop ⟨fun hv => ?_, by rw [ho', Option.map_some, heq], _, hpre⟩
        simp [BTCOutpoint.availableTo, hoo, hstatus, hview, hv] at hav

/-- A view that marks an output keeps it, unless it is the view zero and another view has marked the output
before. -/
theorem preselection_exclusive {o : BTCOutpoint} {db' : OutpointTable} (ho : db.lookup txHashStr = some o)
    (h : db.preSelectUTXO txHashStr view = .ok db') :
    (∀ ops, InTurn apply (fun _ db op => ¬ Releases txHashStr view db op) db' ops →
      (after apply db' ops).Denied txHashStr view) ↔ view ≠ 0 ∨ o.view = 0 := by
  obtain ⟨o', ho', hav, rfl⟩ := preSelectUTXO_ok h
  obtain rfl : o' = o := Option.some.inj (ho'.symm.trans (getBTCOutpoint_of_lookup ho))
  have hkey := (mem_of_lookup ho).2
  have hrow : (db.mark o'.txHashStr view .preSelect "").lookup txHashStr = some (o'.updates view .preSelect "") :=
    (lookup_mark _ view .preSelect "" ho).trans (by rw [if_pos (.inr hkey)])
  constructor
  · intro hdenied
    by_contra hzero
    obtain ⟨rfl, hne⟩ : view = 0 ∧ o'.view ≠ 0 := by simpa [not_or] using hzero
    obtain ⟨err, herr⟩ := (hdenied [] trivial).again
    have hagain := preSelectUTXO_of_available 0 (getBTCOutpoint_of_lookup hrow)
      (by simp [BTCOutpoint.availableTo, BTCOutpoint.updates, hne])
    rw [after_nil, hagain] at herr
    cases herr
  · intro hview ops hops
    refine MarkedBy.denied (InTurn.invariant (fun _ db => db.MarkedBy txHashStr view) ?_
      (fun _ db op hm hop => hm.apply op hop) hops)
    refine ⟨_, hrow, rfl, ?_⟩
    unfold BTCOutpoint.updates
    dsimp only
    split_ifs with hv
    · rw [hv]
      exact hview.resolve_left (not_not.mpr hv)
    · rfl

/-- An output of the amount five that nobody has marked. -/
def output5 (status : BTCOutpointStatus) : BTCOutpoint where
  publicKeyHashStr := "p"
  txHashStr := "1"
  index := 0
  amount := 5
  status := status
  pbftStatus := .notUsed
  view := 0
  pbftReason := ""

theorem output5_named (status : BTCOutpointStatus) : (output5 status).txHashStr ≠ "" := by
  change "1" ≠ ""
  decide

theorem preselection_exclusive_output5 :
    ((({} : OutpointTable).newBTCOutpoint (output5 .usable) (output5_named _)).mark
      "1" 2 .preSelect "").Denied "1" 2 := by
  have hrow : (({} : OutpointTable).newBTCOutpoint (output5 .usable) (output5_named _)).lookup "1" =
      some (output5 .usable) := by decide
  have hmark := preSelectUTXO_of_available 2 (getBTCOutpoint_of_lookup hrow) (by decide)
  exact (preselection_exclusive hrow hmark).mpr (.inl (by decide)) [] trivial

/-- The view zero marks an output that view one has marked, and does so again. -/
theorem preselection_not_exclusive : ∃ db db' : OutpointTable,
    db = after apply {} [.preSelectUTXO "1" 1, .newBTCOutpoint (output5 .usable) (output5_named _)] ∧
      db.preSelectUTXO "1" 0 = .ok db' ∧ ¬ db'.Denied "1" 0 := by
  have hrow : (after apply {} [.preSelectUTXO "1" 1, .newBTCOutpoint (output5 .usable) (output5_named _)]).lookup "1" =
      some ((output5 .usable).updates 1 .preSelect "") := by decide
  refine ⟨_, _, rfl, preSelectUTXO_of_available 0 (getBTCOutpoint_of_lookup hrow) (by decide), fun h => ?_⟩
  have hrow' := (lookup_mark "1" 0 .preSelect "" hrow).trans (congrArg some (if_pos (.inr rfl)))
  obtain ⟨err, herr⟩ := h.again
  have hagain := preSelectUTXO_of_available 0 (getBTCOutpoint_of_lookup hrow') (by decide)
  exact absurd (hagain.symm.trans herr) (by simp)

end Exclusive

/-! ### What a query gives -/

section Selection

/-- The value of the outputs, in full. -/
def total (l : List BTCOutpoint) : ℤ := (l.map fun o => o.amount.toInt).sum

/-- The value of the outputs as the code adds it up. -/
def sum64 (l : List BTCOutpoint) : Int64 := l.foldl (fun sum o => sum + o.amount) 0

variable (db : OutpointTable) (asc : AmountAsc) (desc : AmountDesc) (view : ℤ) (amount : Int64)

/-- The outputs that the view could still spend on the chain. -/
def spendable : List BTCOutpoint := db.rows.filter fun o => o.status = .usable ∧ o.availableTo view

/-- The outputs not marked against the view that cover the amount alone, least first. -/
def covering : List BTCOutpoint := asc.sort (db.rows.filter fun o => amount ≤ o.amount ∧ o.availableTo view)

/-- The ten largest outputs not marked against the view, largest first. -/
def largest : List BTCOutpoint := (desc.sort (db.rows.filter fun o => o.availableTo view)).take 10

/-- The first `k+1` outputs of the list reach the amount, and no fewer do. -/
structure Reaches (l : List BTCOutpoint) (k : ℕ) : Prop where
  lt : k < l.length
  reached : amount ≤ sum64 (l.take (k+1))
  least : ∀ j < k, ¬ amount ≤ sum64 (l.take (j+1))

/-- Outputs that can be spent for the view and cover the amount, or the news that all of them together do not. -/
def Meets : Except UTXOError (List BTCOutpoint) → Prop
  | .ok l => l.Nodup ∧ amount.toInt ≤ total l ∧ ∀ o ∈ l, o ∈ db.rows ∧ o.status = .usable ∧ o.pbftStatus ≠ .commit ∧
      ¬ (o.pbftStatus = .preSelect ∧ o.view = view)
  | .error _ => total (db.spendable view) < amount.toInt

/-- The outputs that come first are not spent, and where the ten largest are not enough, all are not. -/
structure Suffices : Prop where
  single : ∀ o, (db.covering asc view amount).head? = some o → o.status = .usable
  several : db.covering asc view amount = [] → ∀ k, Reaches amount (db.largest desc view) k →
    amount.toInt ≤ total ((db.largest desc view).take (k+1)) ∧
      ∀ o ∈ (db.largest desc view).take (k+1), o.status = .usable
  none : db.covering asc view amount = [] → (∀ k, ¬ Reaches amount (db.largest desc view) k) →
    total (db.spendable view) < amount.toInt

variable {db asc desc view amount}

/-- The loop stops at the first sum that reaches the amount. -/
theorem collectUTXO_eq (amount sum : Int64) (l : List BTCOutpoint) :
    (∃ k, k < l.length ∧ amount ≤ (l.take (k+1)).foldl (fun sum o => sum + o.amount) sum ∧
        (∀ j < k, ¬ amount ≤ (l.take (j+1)).foldl (fun sum o => sum + o.amount) sum) ∧
        collectUTXO amount sum l = some (l.take (k+1))) ∨
      ((∀ k < l.length, ¬ amount ≤ (l.take (k+1)).foldl (fun sum o => sum + o.amount) sum) ∧
        collectUTXO amount sum l = none) := by
  induction l generalizing sum with
  | nil => exact .inr ⟨fun k hk => absurd hk (Nat.not_lt_zero k), rfl⟩
  | cons o l ih =>
    unfold collectUTXO
    split_ifs with hle
    · exact .inl ⟨0, Nat.succ_pos _, hle, fun j hj => absurd hj (Nat.not_lt_zero j), rfl⟩
    · rcases ih (sum + o.amount) with ⟨k, hk, hreach, hleast, heq⟩ | ⟨hnone, heq⟩
      · refine .inl ⟨k+1, Nat.succ_lt_succ hk, hreach, fun j hj => ?_, by rw [heq]; rfl⟩
        cases j with
        | zero => exact hle
        | succ j => exact hleast j (Nat.lt_of_succ_lt_succ hj)
      · refine .inr ⟨fun k hk => ?_, by rw [heq]; rfl⟩
        cases k with
        | zero => exact hle
        | succ k => exact hnone k (Nat.lt_of_succ_lt_succ hk)

theorem nodup_rows (db : OutpointTable) : db.rows.Nodup := db.primaryKey.of_map _

theorem not_marked {o : BTCOutpoint} (h : o.availableTo view = true) :
    o.pbftStatus ≠ .commit ∧ ¬ (o.pbftStatus = .preSelect ∧ o.view = view) := by
  rw [BTCOutpoint.availableTo, decide_eq_true_eq] at h
  rcases h with h | ⟨h, hv⟩
  · simp [h]
  · simp [h, hv]

theorem largest_nodup : (db.largest desc view).Nodup :=
  ((desc.perm _).nodup_iff.mpr (db.nodup_rows.filter _)).sublist (List.take_sublist _ _)

theorem available_of_mem_largest {o : BTCOutpoint} (h : o ∈ db.largest desc view) :
    o ∈ db.rows ∧ o.availableTo view = true := by
  have hfilter := List.mem_filter.mp ((desc.perm _).mem_iff.mp (List.mem_of_mem_take h))
  exact ⟨hfilter.1, by simpa using hfilter.2⟩

theorem available_of_mem_covering {o : BTCOutpoint} (h : o ∈ db.covering asc view amount) :
    o ∈ db.rows ∧ amount ≤ o.amount ∧ o.availableTo view = true := by
  have hfilter := List.mem_filter.mp ((asc.perm _).mem_iff.mp h)
  have hboth : amount ≤ o.amount ∧ o.availableTo view = true := by simpa using hfilter.2
  exact ⟨hfilter.1, hboth⟩

/-- What the query gives, by the rows that come first. -/
theorem getAvailableUTXO_eq (db : OutpointTable) (asc : AmountAsc) (desc : AmountDesc) (view : ℤ) (amount : Int64) :
    (∃ o l, db.covering asc view amount = o :: l ∧ db.getAvailableUTXO asc desc view amount = .ok [o]) ∨
      (db.covering asc view amount = [] ∧
        ((∃ k, Reaches amount (db.largest desc view) k ∧
            db.getAvailableUTXO asc desc view amount = .ok ((db.largest desc view).take (k+1))) ∨
          (∀ k, ¬ Reaches amount (db.largest desc view) k) ∧
            db.getAvailableUTXO asc desc view amount = .error .notAvailable)) := by
  cases hc : db.covering asc view amount with
  | cons o l =>
    left
    have hsort : asc.sort (db.rows.filter fun o => amount ≤ o.amount ∧ o.availableTo view) = o :: l := hc
    exact ⟨o, l, rfl, by rw [getAvailableUTXO, hsort]; rfl⟩
  | nil =>
    right
    have hsort : asc.sort (db.rows.filter fun o => amount ≤ o.amount ∧ o.availableTo view) = [] := hc
    have hquery : db.getAvailableUTXO asc desc view amount =
        match collectUTXO amount 0 (db.largest desc view) with
        | some res => .ok res
        | none => .error .notAvailable := by
      rw [getAvailableUTXO, hsort]
      rfl
    refine ⟨rfl, ?_⟩
    rw [hquery]
    rcases collectUTXO_eq amount 0 (db.largest desc view) with ⟨k, hk, hreach, hleast, heq⟩ | ⟨hnone, heq⟩
    · exact .inl ⟨k, ⟨hk, hreach, hleast⟩, by rw [heq]⟩
    · exact .inr ⟨fun k hk => hnone k hk.lt hk.reached, by rw [heq]⟩

theorem Reaches.unique {l : List BTCOutpoint} {j k : ℕ} (hj : Reaches amount l j) (hk : Reaches amount l k) :
    j = k := by
  rcases Nat.lt_trichotomy j k with hlt | heq | hlt
  · exact absurd hj.reached (hk.least j hlt)
  · exact heq
  · exact absurd hk.reached (hj.least k hlt)

theorem getAvailableUTXO_nodup {l : List BTCOutpoint} (h : db.getAvailableUTXO asc desc view amount = .ok l) :
    l.Nodup := by
  rcases getAvailableUTXO_eq db asc desc view amount with
    ⟨o, l', -, heq⟩ | ⟨-, ⟨k, -, heq⟩ | ⟨-, heq⟩⟩
  · obtain rfl := Except.ok.inj (heq.symm.trans h)
    exact List.nodup_singleton o
  · obtain rfl := Except.ok.inj (heq.symm.trans h)
    exact largest_nodup.sublist (List.take_sublist _ _)
  · exact absurd (heq.symm.trans h) (by simp)

/-- The query keeps its promise exactly when the outputs that come first do; the status that the chain events
maintain is not looked at, and no more than ten outputs are. -/
theorem getAvailableUTXO_meets_iff (db : OutpointTable) (asc : AmountAsc) (desc : AmountDesc) (view : ℤ)
    (amount : Int64) :
    Meets db view amount (db.getAvailableUTXO asc desc view amount) ↔ Suffices db asc desc view amount := by
  rcases getAvailableUTXO_eq db asc desc view amount with
    ⟨o, l, hc, heq⟩ | ⟨hc, ⟨k, hk, heq⟩ | ⟨hnone, heq⟩⟩
  · obtain ⟨hmem, hle, hav⟩ := available_of_mem_covering (hc ▸ List.mem_cons_self ..)
    rw [heq]
    constructor
    · rintro ⟨-, -, hall⟩
      refine ⟨fun o' ho' => ?_, fun h => ?_, fun h => ?_⟩
      · rw [hc] at ho'
        obtain rfl := Option.some.inj ho'
        exact (hall o (List.mem_singleton_self o)).2.1
      · rw [hc] at h
        cases h
      · rw [hc] at h
        cases h
    · intro h
      refine ⟨List.nodup_singleton o, ?_, fun o' ho' => ?_⟩
      · simpa [total] using Int64.le_iff_toInt_le.mp hle
      · obtain rfl := List.mem_singleton.mp ho'
        exact ⟨hmem, h.single o' (by rw [hc]; rfl), not_marked hav⟩
  · rw [heq]
    constructor
    · rintro ⟨-, htotal, hall⟩
      refine ⟨fun o' ho' => ?_, fun _ k' hk' => ?_, fun _ h => absurd hk (h k)⟩
      · rw [hc] at ho'
        cases ho'
      · obtain rfl := hk.unique hk'
        exact ⟨htotal, fun o ho => (hall o ho).2.1⟩
    · intro h
      obtain ⟨htotal, hall⟩ := h.several hc k hk
      refine ⟨largest_nodup.sublist (List.take_sublist _ _), htotal, fun o ho => ?_⟩
      obtain ⟨hmem, hav⟩ := available_of_mem_largest (List.mem_of_mem_take ho)
      exact ⟨hmem, hall o ho, not_marked hav⟩
  · rw [heq]
    constructor
    · intro htotal
      refine ⟨fun o' ho' => ?_, fun _ k hk => absurd hk (hnone k), fun _ _ => htotal⟩
      rw [hc] at ho'
      cases ho'
    · exact fun h => h.none hc hnone

/-- What the query is made for: different outputs that are not marked against the view and reach the amount, or the
news that neither one of them nor the ten largest together do. -/
def Selects (db : OutpointTable) (desc : AmountDesc) (view : ℤ) (amount : Int64) :
    Except UTXOError (List BTCOutpoint) → Prop
  | .ok l => l.Nodup ∧ amount ≤ sum64 l ∧ ((∀ o ∈ db.rows, 0 ≤ o.amount) → amount.toInt ≤ total l) ∧
      ∀ o ∈ l, o ∈ db.rows ∧ o.pbftStatus ≠ .commit ∧ ¬ (o.pbftStatus = .preSelect ∧ o.view = view)
  | .error _ => (∀ o ∈ db.rows, o.availableTo view = true → o.amount < amount) ∧
      ∀ k < (db.largest desc view).length, sum64 ((db.largest desc view).take (k+1)) < amount

theorem sum64_eq (l : List BTCOutpoint) : sum64 l = Int64.ofInt (total l) := by
  have hfold : ∀ (l : List BTCOutpoint) (a : ℤ),
      l.foldl (fun sum o => sum + o.amount) (Int64.ofInt a) = Int64.ofInt (a + total l) := by
    intro l
    induction l with
    | nil => simp [total]
    | cons o l ih =>
      intro a
      rw [List.foldl_cons, ← Int64.ofInt_toInt o.amount, ← Int64.ofInt_add, ih]
      simp [total, add_assoc]
  exact (hfold l 0).trans (by rw [zero_add])

/-- What is added up in 64 bits is not more than the amounts are worth. -/
theorem sum64_le_total {l : List BTCOutpoint} (h : ∀ o ∈ l, 0 ≤ o.amount) : (sum64 l).toInt ≤ total l := by
  have hpos : 0 ≤ total l := List.sum_nonneg fun a ha => by
    obtain ⟨o, ho, rfl⟩ := List.mem_map.mp ha
    exact Int64.le_iff_toInt_le.mp (h o ho)
  have hsize : (Int64.size : ℤ) = 2 ^ 64 := rfl
  rw [sum64_eq, Int64.toInt_ofInt, Int.bmod_def, hsize]
  split <;> omega

theorem getAvailableUTXO_selects (db : OutpointTable) (asc : AmountAsc) (desc : AmountDesc) (view : ℤ)
    (amount : Int64) : Selects db desc view amount (db.getAvailableUTXO asc desc view amount) := by
  rcases getAvailableUTXO_eq db asc desc view amount with ⟨o, l, hc, heq⟩ | ⟨hc, ⟨k, hk, heq⟩ | ⟨hnone, heq⟩⟩
  · obtain ⟨hmem, hle, hav⟩ := available_of_mem_covering (hc ▸ List.mem_cons_self ..)
    rw [heq]
    refine ⟨List.nodup_singleton o, ?_, fun _ => ?_, fun o' ho' => ?_⟩
    · simpa [sum64] using hle
    · simpa [total] using Int64.le_iff_toInt_le.mp hle
    · obtain rfl := List.mem_singleton.mp ho'
      exact ⟨hmem, not_marked hav⟩
  · rw [heq]
    have hmem : ∀ o ∈ (db.largest desc view).take (k+1), o ∈ db.rows ∧ o.availableTo view = true := fun o ho =>
      available_of_mem_largest (List.mem_of_mem_take ho)
    refine ⟨largest_nodup.sublist (List.take_sublist _ _), hk.reached, fun hpos => ?_, fun o ho => ?_⟩
    · exact Int.le_trans (Int64.le_iff_toInt_le.mp hk.reached) (sum64_le_total fun o ho => hpos o (hmem o ho).1)
    · exact ⟨(hmem o ho).1, not_marked (hmem o ho).2⟩
  · rw [heq]
    constructor
    · intro o ho hav
      by_contra hle
      have hcov : o ∈ db.covering asc view amount :=
        (asc.perm _).mem_iff.mpr (List.mem_filter.mpr ⟨ho, by simpa [hav] using Int64.not_lt.mp hle⟩)
      rw [hc] at hcov
      cases hcov
    · -- The first prefix that reaches the amount would have been given.
      intro k hk
      by_contra hle
      have hreach : ∃ k, k < (db.largest desc view).length ∧ amount ≤ sum64 ((db.largest desc view).take (k+1)) :=
        ⟨k, hk, Int64.not_lt.mp hle⟩
      obtain ⟨hlt, hle'⟩ := Nat.find_spec hreach
      exact hnone (Nat.find hreach) ⟨hlt, hle', fun j hj hj' =>
        Nat.find_min hreach hj ⟨hj.trans hlt, hj'⟩⟩

/-- Eleven outputs of the amount one. -/
def elevenOutputs : OutpointTable where
  rows := (List.range 11).map fun i => { output5 .usable with txHashStr := toString i, amount := 1 }
  primaryKey := by decide +kernel
  named := by decide +kernel

/-- A spent output is given away, and eleven outputs that could be spent together are not. -/
theorem getAvailableUTXO_not_meets :
    ¬ Meets (({} : OutpointTable).newBTCOutpoint (output5 .used) (output5_named _)) 0 1
      ((({} : OutpointTable).newBTCOutpoint (output5 .used) (output5_named _)).getAvailableUTXO .stable .stable 0 1) ∧
    ¬ Meets elevenOutputs 0 11 (elevenOutputs.getAvailableUTXO .stable .stable 0 11) := by
  constructor
  · have hfilter : ((({} : OutpointTable).newBTCOutpoint (output5 .used) (output5_named _)).rows.filter fun o =>
        (1 : Int64) ≤ o.amount ∧ o.availableTo 0) = [output5 .used] := by decide
    have hquery : (({} : OutpointTable).newBTCOutpoint (output5 .used) (output5_named _)).getAvailableUTXO
        AmountAsc.stable AmountDesc.stable 0 1 = .ok [output5 .used] := by
      rw [getAvailableUTXO, hfilter, List.perm_singleton.mp (AmountAsc.stable.perm [output5 .used])]
      rfl
    rw [hquery]
    rintro ⟨-, -, hall⟩
    exact absurd (hall (output5 .used) (List.mem_singleton_self _)).2.1 (by decide)
  · have hcover : (elevenOutputs.rows.filter fun o => (11 : Int64) ≤ o.amount ∧ o.availableTo 0) = [] := by
      decide +kernel
    have hnil : AmountAsc.stable.sort [] = [] := List.perm_nil.mp (AmountAsc.stable.perm [])
    have hfilter : (elevenOutputs.rows.filter fun o => o.availableTo 0) = elevenOutputs.rows := by decide +kernel
    have hsort : AmountDesc.stable.sort elevenOutputs.rows = elevenOutputs.rows :=
      List.mergeSort_of_pairwise (by decide +kernel)
    have hcollect : collectUTXO 11 0 (elevenOutputs.rows.take 10) = none := by decide +kernel
    have hquery : elevenOutputs.getAvailableUTXO AmountAsc.stable AmountDesc.stable 0 11 = .error .notAvailable := by
      rw [getAvailableUTXO, hcover, hnil, hfilter, hsort]
      change (match collectUTXO 11 0 (elevenOutputs.rows.take 10) with
        | some res => Except.ok res
        | none => Except.error UTXOError.notAvailable) = _
      rw [hcollect]
    have htotal : total (elevenOutputs.spendable 0) = 11 := by decide +kernel
    rw [hquery]
    change ¬ total (elevenOutputs.spendable 0) < (11 : Int64).toInt
    rw [htotal]
    decide

end Selection

end OutpointTable

end DistributedNotary.Btc
