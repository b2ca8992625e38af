import DistributedNotary.Btc.Reservation
import DistributedNotary.Pbft.Server

/-! The two services behind the protocol. For a chain with nonces the number of an
operation is recorded under a key made of the operation, the chain and the view;
for Bitcoin the outputs of an operation are marked one after the other, and the
marks that were set stay where a later one fails. -/
namespace DistributedNotary.Service

open Library Btc Pbft

/-- The tables of a notary that the services write. -/
structure AuxiliaryDB where
  outpoints : OutpointTable := {}
  /-- The nonce that a key stands for. -/
  opNonces : RangeMap String ℤ := ∅
  /-- The last nonce of each account. -/
  nonces : RangeMap String ℤ := ∅

/-- What a service knows of itself. -/
structure PBFTService where
  key : String
  chain : String
  selfID : ℤ
  digest : String → String

section SetString

/-- The value of a digit, too large where the character is none. -/
def digitValue (c : Char) : ℕ :=
  if '0' ≤ c ∧ c ≤ '9' then c.toNat - 48
  else if 'a' ≤ c ∧ c ≤ 'z' then c.toNat - 87
  else if 'A' ≤ c ∧ c ≤ 'Z' then c.toNat - 55
  else 36

def scanDigits (base : ℕ) (l : List Char) : Option ℕ :=
  if l = [] ∨ ¬ l.all (fun c => digitValue c < base) then none
  else some (l.foldl (fun z c => z * base + digitValue c) 0)

/-- The prefix of a number chooses its base. -/
def scanNat : List Char → Option ℕ
  | '0' :: 'x' :: l => scanDigits 16 l
  | '0' :: 'X' :: l => scanDigits 16 l
  | '0' :: 'b' :: l => scanDigits 2 l
  | '0' :: 'B' :: l => scanDigits 2 l
  | '0' :: l => scanDigits 8 ('0' :: l)
  | l => scanDigits 10 l

/-- `SetString(s, 0)` of a big integer. -/
def setString (s : String) : Option ℤ :=
  match s.toList with
  | '-' :: l => (scanNat l).map fun n => -(n : ℤ)
  | '+' :: l => (scanNat l).map fun n => (n : ℤ)
  | l => (scanNat l).map fun n => (n : ℤ)

end SetString

namespace PBFTService

variable (ps : PBFTService)

def updateSeq (a : AuxiliaryDB) (seq : ℤ) : AuxiliaryDB :=
  if (a.nonces.lookup ps.key).getD (-1) < seq then { a with nonces := a.nonces.insert ps.key seq } else a

/-- An operation has one nonce in a view. -/
def newNonceForOp (a : AuxiliaryDB) (view nonce : ℤ) (op : String) : AuxiliaryDB × Except Fault Unit :=
  let key := op ++ ps.chain ++ toString view
  match a.opNonces.lookup key with
  | none => ({ a with opNonces := a.opNonces.insert key nonce }, .ok ())
  | some n => (a, if n ≠ nonce then .error (.error "duplicate nonce") else .ok ())

/-- The service of an account with nonces. -/
def ethereum : PBFTAuxiliary AuxiliaryDB where
  updateSeq a seq _ _ := .ok (ps.updateSeq a seq)
  getOpAuxiliary a op _ := (a, .ok (ps.digest op))
  prepareSeq a view seq op _ := ps.newNonceForOp a view seq op
  commitSeq a view seq op _ := ps.newNonceForOp a view seq op

/-- The amount of an operation, which reads `chain-hash-amount`. -/
def amountOf (op : String) : Except Fault Int64 :=
  match splitDash op with
  | [chain, _, amount] =>
    if ps.chain ≠ chain then .error (.panic s!"op={op},expect chain={ps.chain}")
    else
      match setString amount with
      | none => .error (.panic s!"op format error,op={op}")
      | some amount => .ok (Int64.ofInt amount)
  | _ => .error (.panic s!"op in btc must be chainname-secrethash-amount,op={op}")

/-- The loop that marks outputs for a view; what is marked stays so where a later one fails. -/
def reserve (db : OutpointTable) (view : ℤ) : List String → OutpointTable × Except UTXOError Unit
  | [] => (db, .ok ())
  | tx :: txs =>
    match db.preSelectUTXO tx view with
    | .error err => (db, .error err)
    | .ok db => reserve db view txs

def liftError {α : Type} : Except UTXOError α → Except Fault α
  | .ok a => .ok a
  | .error err => .error (.error err.text)

/-- The digest of the operation with the outputs that were marked for it. -/
def btcGetOpAuxiliary (asc : AmountAsc) (desc : AmountDesc) (a : AuxiliaryDB) (op : String) (view : ℤ) :
    AuxiliaryDB × Except Fault String :=
  match ps.amountOf op with
  | .error fault => (a, .error fault)
  | .ok amount =>
    match a.outpoints.getAvailableUTXO asc desc view amount with
    | .error err => (a, .error (.error err.text))
    | .ok os =>
      let txs := os.map BTCOutpoint.txHashStr
      let (db, res) := reserve a.outpoints view txs
      ({ a with outpoints := db }, (liftError res).map fun _ => ps.digest op ++ String.join (txs.map ("-" ++ ·)))

/-- The outputs that an auxiliary names, after the digest. -/
def outputsOf (auxiliary : String) : List String := (splitDash auxiliary).tail

def btcPrepareSeq (a : AuxiliaryDB) (view : ℤ) (auxiliary : String) : AuxiliaryDB × Except Fault Unit :=
  if ps.selfID = view then (a, .ok ())
  else if auxiliary = "" then (a, .error (.error "auxiliary is empty"))
  else if outputsOf auxiliary = [] then (a, .error (.error "auxiliary format is digest-outpoint1-outpoint2"))
  else
    let (db, res) := reserve a.outpoints view (outputsOf auxiliary)
    ({ a with outpoints := db }, liftError res)

def btcCommitSeq (a : AuxiliaryDB) (view : ℤ) (op auxiliary : String) : AuxiliaryDB × Except Fault Unit :=
  if auxiliary = "" then (a, .error (.error "auxiliary is empty"))
  else
    ({ a with outpoints := (outputsOf auxiliary).foldl (fun db tx => db.commitUTXO tx view op) a.outpoints }, .ok ())

/-- The service of a Bitcoin account. -/
def bitcoin (asc : AmountAsc) (desc : AmountDesc) : PBFTAuxiliary AuxiliaryDB where
  updateSeq a seq _ _ := .ok (ps.updateSeq a seq)
  getOpAuxiliary a op view := ps.btcGetOpAuxiliary asc desc a op view
  prepareSeq a view _ _ auxiliary := ps.btcPrepareSeq a view auxiliary
  commitSeq a view _ op auxiliary := btcCommitSeq a view op auxiliary

end PBFTService

/-! ### What a failed reservation leaves behind -/

section Atomicity

/-- Every view can get the same outputs from both tables. -/
def SameAvailability (db db' : OutpointTable) : Prop :=
  ∀ tx view, (db.lookup tx).map (·.availableTo view) = (db'.lookup tx).map (·.availableTo view)

/-- Marking the output for the view writes nothing: the view is zero, and another one holds the mark. -/
def Inert (db : OutpointTable) (view : ℤ) (tx : String) : Prop :=
  view = 0 ∧ ∃ o, db.getBTCOutpoint tx = some o ∧ o.pbftStatus = .preSelect ∧ o.view ≠ 0

/-- The output is not known, committed, or marked by the view. -/
def Refused (db : OutpointTable) (view : ℤ) (tx : String) : Prop :=
  ∀ o, db.getBTCOutpoint tx = some o → o.availableTo view = false

/-- Nothing is written for the listed outputs, up to the first one that is refused. -/
def Untouched (db : OutpointTable) (view : ℤ) : List String → Prop
  | [] => True
  | tx :: txs => Refused db view tx ∨ (Inert db view tx ∧ Untouched db view txs)

variable {db : OutpointTable} {view : ℤ} {tx : String} {txs : List String}

open PBFTService

theorem refused_of_error {err : UTXOError} (h : db.preSelectUTXO tx view = .error err) : Refused db view tx := by
  intro o ho
  by_contra hav
  rw [Bool.not_eq_false] at hav
  rw [OutpointTable.preSelectUTXO_of_available view ho hav] at h
  cases h

/-- A mark of the view zero on an output of another view changes nothing. -/
theorem mark_inert {o : BTCOutpoint} (ho : o ∈ db.rows) (hstatus : o.pbftStatus = .preSelect) :
    db.mark o.txHashStr 0 .preSelect "" = db := by
  have hrows : (db.mark o.txHashStr 0 .preSelect "").rows = db.rows := by
    refine (List.map_congr_left fun o' ho' => ?_).trans (List.map_id _)
    split_ifs with hkey
    · have hkey' : o'.txHashStr = o.txHashStr := by simpa [BTCOutpoint.named, db.named o ho] using hkey
      have heq : o' = o := List.inj_on_of_nodup_map db.primaryKey ho' ho hkey'
      rw [heq]
      simp [BTCOutpoint.updates, ← hstatus]
    · rfl
  cases db
  simpa [OutpointTable.mark, OutpointTable.rewrite] using hrows

/-- An output that the loop has marked stays unavailable while the loop runs. -/
theorem MarkedBy.reserve {u : ℤ} (h : db.MarkedBy tx u) (hu : view ≠ 0 → u = view) (txs : List String) :
    (reserve db view txs).1.MarkedBy tx u := by
  induction txs generalizing db with
  | nil => exact h
  | cons tx' txs ih =>
    unfold PBFTService.reserve
    cases hpre : db.preSelectUTXO tx' view with
    | error err => exact h
    | ok db' =>
      refine ih ?_
      obtain ⟨o', ho', hav, rfl⟩ := OutpointTable.preSelectUTXO_ok hpre
      obtain ⟨o, ho, hstatus, hview⟩ := h
      refine ⟨_, OutpointTable.lookup_mark o'.txHashStr view .preSelect "" ho, ?_, ?_⟩
      · split
        · rfl
        · exact hstatus
      · split_ifs with hkey
        · have hmem := OutpointTable.mem_of_getBTCOutpoint ho'
          have heq : o' = o := Option.some.inj
            ((hkey.resolve_left (db.named o' hmem) ▸ OutpointTable.lookup_of_mem hmem).symm.trans ho)
          have hzero : view = 0 := by
            by_contra hne
            simp [BTCOutpoint.availableTo, heq, hstatus, hview, hu hne] at hav
          simp [BTCOutpoint.updates, hzero, hview]
        · exact hview

theorem reserve_of_untouched (h : Untouched db view txs) : (reserve db view txs).1 = db := by
  induction txs with
  | nil => rfl
  | cons tx txs ih =>
    unfold PBFTService.reserve
    cases hpre : db.preSelectUTXO tx view with
    | error err => rfl
    | ok db' =>
      obtain ⟨o, ho, hav, rfl⟩ := OutpointTable.preSelectUTXO_ok hpre
      rcases h with hr | ⟨⟨rfl, o', ho', hstatus, -⟩, hrest⟩
      · simp [hr o ho] at hav
      · obtain rfl : o' = o := Option.some.inj (ho'.symm.trans ho)
        simp only [mark_inert (OutpointTable.mem_of_getBTCOutpoint ho) hstatus]
        exact ih hrest

/-- The loop leaves everything available exactly when it has written nothing. -/
theorem sameAvailability_reserve_iff :
    SameAvailability db (reserve db view txs).1 ↔ Untouched db view txs := by
  refine ⟨fun hsame => ?_, fun h => by rw [reserve_of_untouched h]; exact fun _ _ => rfl⟩
  induction txs with
  | nil => exact trivial
  | cons tx txs ih =>
    unfold PBFTService.reserve at hsame
    cases hpre : db.preSelectUTXO tx view with
    | error err => exact .inl (refused_of_error hpre)
    | ok db' =>
      rw [hpre] at hsame
      obtain ⟨o, ho, hav, rfl⟩ := OutpointTable.preSelectUTXO_ok hpre
      have hmem := OutpointTable.mem_of_getBTCOutpoint ho
      by_cases hinert : Inert db view tx
      · refine .inr ⟨hinert, ih ?_⟩
        obtain ⟨rfl, o', ho', hstatus, hne⟩ := hinert
        obtain rfl : o' = o := Option.some.inj (ho'.symm.trans ho)
        simpa only [mark_inert hmem hstatus] using hsame
      · -- The view to which the output has become unavailable.
        exfalso
        set u := if view = 0 then o.view else view with hu
        have hmarked : (db.mark o.txHashStr view .preSelect "").MarkedBy o.txHashStr u :=
          ⟨_, (OutpointTable.lookup_mark _ view .preSelect "" (OutpointTable.lookup_of_mem hmem)).trans
            (congrArg some (if_pos (.inr rfl))), rfl, rfl⟩
        have hkeep : (reserve (db.mark o.txHashStr view .preSelect "") view txs).1.MarkedBy o.txHashStr u :=
          MarkedBy.reserve hmarked (fun hne => if_neg hne) txs
        obtain ⟨o', ho', hstatus', hview'⟩ := hkeep
        have hav' := hsame o.txHashStr u
        rw [OutpointTable.lookup_of_mem hmem, ho', Option.map_some, Option.map_some, Option.some.injEq] at hav'
        have hfalse : o'.availableTo u = false := by simp [BTCOutpoint.availableTo, hstatus', hview']
        rw [hfalse, BTCOutpoint.availableTo, decide_eq_false_iff_not, not_or] at hav'
        rw [BTCOutpoint.availableTo, decide_eq_true_eq] at hav
        obtain ⟨hstatus, hne⟩ := hav.resolve_left hav'.1
        by_cases hzero : view = 0
        · exact hinert ⟨hzero, o, ho, hstatus, hzero ▸ hne⟩
        · exact hav'.2 ⟨hstatus, by rw [hu, if_neg hzero]; exact hne⟩

/-- Different outputs that are available can be marked one after the other. -/
theorem reserve_ok (hnodup : txs.Nodup)
    (hav : ∀ tx ∈ txs, ∃ o, db.lookup tx = some o ∧ o.availableTo view = true) : (reserve db view txs).2 = .ok () := by
  induction txs generalizing db with
  | nil => rfl
  | cons tx txs ih =>
    obtain ⟨hnew, hnodup⟩ := List.nodup_cons.mp hnodup
    obtain ⟨o, ho, hav'⟩ := hav tx (List.mem_cons_self ..)
    unfold PBFTService.reserve
    rw [OutpointTable.preSelectUTXO_of_available view (OutpointTable.getBTCOutpoint_of_lookup ho) hav']
    refine ih hnodup fun tx' htx' => ?_
    obtain ⟨o', ho', hav''⟩ := hav tx' (List.mem_cons_of_mem _ htx')
    obtain ⟨hmem, hkey⟩ := OutpointTable.mem_of_lookup ho
    refine ⟨o', (OutpointTable.lookup_mark o.txHashStr view .preSelect "" ho').trans (congrArg some (if_neg ?_)), hav''⟩
    rintro (hempty | heq)
    · exact db.named o hmem hempty
    · exact hnew ((hkey.symm.trans heq) ▸ htx')

variable {ps : PBFTService} {asc : AmountAsc} {desc : AmountDesc} {a : AuxiliaryDB}

/-- The leader reserves what the query has found, which does not fail. -/
theorem btcGetOpAuxiliary_error {op : String} {fault : Fault}
    (h : (ps.btcGetOpAuxiliary asc desc a op view).2 = .error fault) :
    (ps.btcGetOpAuxiliary asc desc a op view).1 = a := by
  unfold PBFTService.btcGetOpAuxiliary at h ⊢
  cases hamount : ps.amountOf op with
  | error fault' => rfl
  | ok amount =>
    cases hquery : a.outpoints.getAvailableUTXO asc desc view amount with
    | error err => simp only [hquery]
    | ok os =>
      have hrows : ∀ o ∈ os, o ∈ a.outpoints.rows ∧ o.availableTo view = true := fun o ho =>
        OutpointTable.getAvailableUTXO_mem hquery ho
      have hnodup : (os.map BTCOutpoint.txHashStr).Nodup :=
        (OutpointTable.getAvailableUTXO_nodup hquery).map_on fun o ho o' ho' heq =>
          List.inj_on_of_nodup_map a.outpoints.primaryKey (hrows o ho).1 (hrows o' ho').1 heq
      have hok := reserve_ok hnodup fun tx htx => by
        obtain ⟨o, ho, rfl⟩ := List.mem_map.mp htx
        exact ⟨o, OutpointTable.lookup_of_mem (hrows o ho).1, (hrows o ho).2⟩
      simp only [hamount, hquery, hok] at h
      cases h

/-- The tables after `PrepareSeq`. -/
theorem sameAvailability_btcPrepareSeq_iff (ps : PBFTService) (a : AuxiliaryDB) (view : ℤ) (auxiliary : String) :
    SameAvailability a.outpoints (ps.btcPrepareSeq a view auxiliary).1.outpoints ↔
      ps.selfID = view ∨ Untouched a.outpoints view (outputsOf auxiliary) := by
  unfold PBFTService.btcPrepareSeq
  split_ifs with hself hempty hnone
  · exact ⟨fun _ => .inl hself, fun _ _ _ => rfl⟩
  · have hnil : outputsOf auxiliary = [] := by rw [hempty]; decide
    exact ⟨fun _ => .inr (by rw [hnil]; trivial), fun _ _ _ => rfl⟩
  · exact ⟨fun _ => .inr (by rw [hnone]; trivial), fun _ _ _ => rfl⟩
  · exact sameAvailability_reserve_iff.trans (or_iff_right hself).symm

/-- A failed call of the leader changes nothing; a failed call of another notary exactly when nothing is written
before the first output that is refused. -/
theorem reservation_atomic_iff (ps : PBFTService) (asc : AmountAsc) (desc : AmountDesc) (a : AuxiliaryDB) :
    (∀ op view fault, (ps.btcGetOpAuxiliary asc desc a op view).2 = .error fault →
      SameAvailability a.outpoints (ps.btcGetOpAuxiliary asc desc a op view).1.outpoints) ∧
    ∀ view auxiliary fault, (ps.btcPrepareSeq a view auxiliary).2 = .error fault →
      (SameAvailability a.outpoints (ps.btcPrepareSeq a view auxiliary).1.outpoints ↔
        Untouched a.outpoints view (outputsOf auxiliary)) := by
  constructor
  · intro op view fault h
    rw [btcGetOpAuxiliary_error h]
    exact fun _ _ => rfl
  · intro view auxiliary fault h
    rw [sameAvailability_btcPrepareSeq_iff, or_iff_right]
    intro hself
    rw [PBFTService.btcPrepareSeq, if_pos hself] at h
    cases h

/-- A service, and its tables with one output. -/
def service1 : PBFTService where
  key := "btc"
  chain := "bitcoin"
  selfID := 1
  digest op := op

def tables1 : AuxiliaryDB where
  outpoints := ({} : OutpointTable).newBTCOutpoint (OutpointTable.output5 .usable) (OutpointTable.output5_named _)

theorem reservation_atomic_iff_tables1 :
    SameAvailability tables1.outpoints (service1.btcPrepareSeq tables1 0 "d-2-1").1.outpoints ↔
      Untouched tables1.outpoints 0 (outputsOf "d-2-1") :=
  (reservation_atomic_iff service1 .stable .stable tables1).2 0 "d-2-1" (.error "record not found") (by decide +kernel)

/-- The second output is not known, and the first stays marked. -/
theorem reservation_not_atomic :
    (∃ text, (service1.btcPrepareSeq tables1 0 "d-1-2").2 = .error (.error text)) ∧
      ¬ SameAvailability tables1.outpoints (service1.btcPrepareSeq tables1 0 "d-1-2").1.outpoints := by
  refine ⟨⟨"record not found", by decide +kernel⟩, fun h => ?_⟩
  exact absurd (h "1" 0) (by decide +kernel)

end Atomicity

end DistributedNotary.Service
