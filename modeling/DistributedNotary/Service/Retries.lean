import DistributedNotary.Pbft.Client
import DistributedNotary.Service.BtcSpending
import DistributedNotary.Service.Registration

/-! The requests of users to prepare a lockin or a lockout, at one notary. An attempt
looks the record up, lets the notaries agree on a nonce or on outputs, has the
transaction signed and sends it. What it leaves behind when it fails is met by the
next attempt: a deposit on Bitcoin is registered by the lookup, and the channel of an
operation stays in its map. -/
namespace DistributedNotary.Service

open Library Btc Contracts Pbft

def ChainName.name : ChainName → String
  | .spectrum => "spectrum"
  | .bitcoin => "bitcoin"
  | .ethereum => "ethereum"

/-- The operations of a `PBFTService` that have a channel. -/
structure PBFTCalls where
  nonces : Finset String := ∅

/-- What an operation was given. -/
inductive Allocated where
  | nonce (n : UInt64)
  | utxos (keys : String)
  deriving DecidableEq

/-- How both calls begin: an operation that has a channel is refused, another one gets its channel and waits for the
result. -/
def PBFTCalls.start (ps : PBFTCalls) (op : String) (r : OpResult) (read : OpResult → Except Failure Allocated) :
    PBFTCalls × Except Failure Allocated :=
  if op ∈ ps.nonces then (ps, .error (.error ("already exist req " ++ op)))
  else
    ({ nonces := insert op ps.nonces },
      match r.error with
      | some e => .error (.error e)
      | none => read r)

def PBFTCalls.newNonce (ps : PBFTCalls) (op : String) (r : OpResult) : PBFTCalls × Except Failure Allocated :=
  ps.start op r fun r => .ok (.nonce (UInt64.ofInt r.seq))

def PBFTCalls.newUTXO (ps : PBFTCalls) (op : String) (r : OpResult) : PBFTCalls × Except Failure Allocated :=
  ps.start op r fun r =>
    let ss := splitDash r.auxiliary
    if ss.length ≤ 1 then .error (.error "no valid utxo on reply,it's impossible")
    else .ok (.utxos ("-".intercalate (ss.drop 1)))

/-- What an attempt meets outside: the table of keys, the nodes, the agreement, the other notaries that sign, and the
chain. -/
structure AttemptAnswers where
  loadPrivateKeyInfo : Except Failure Unit
  node : Node
  getPbftService : Except Failure Unit
  result : String → OpResult
  sign : Allocated → Except Failure Unit
  send : Except Failure Unit

/-- The service of a token, with the agreements that its accounts on both chains take part in. -/
structure Requester where
  cs : CrossChainService
  sc : PBFTCalls := {}
  mc : PBFTCalls := {}

inductive PrepareRequest where
  | scPrepareLockin (req : SCPrepareLockinRequest)
  | mcPrepareLockout (req : MCPrepareLockoutRequest)

/-- An attempt, with what it was given if it came that far. -/
structure Attempt where
  state : Requester
  allocated : Option Allocated := none
  result : Except Failure Unit

namespace Requester

variable (s : Requester) (x : Externals) (an : AttemptAnswers)

/-- `chainName-reason-amount`. -/
def opText (chainName : ChainName) (reason : Bytes32) (amount : ℤ) : String :=
  chainName.name ++ "-" ++ hashString reason ++ "-" ++ toString amount

/-- `applyNonceFromNonceServer` on the side chain. -/
def applySCNonce (op : String) : Requester × Except Failure Allocated :=
  match an.getPbftService with
  | .error e => (s, .error e)
  | .ok () => ({ s with sc := (s.sc.newNonce op (an.result op)).1 }, (s.sc.newNonce op (an.result op)).2)

/-- `applyNonceFromNonceServer` on the main chain. -/
def applyMCNonce (op : String) : Requester × Except Failure Allocated :=
  match an.getPbftService with
  | .error e => (s, .error e)
  | .ok () => ({ s with mc := (s.mc.newNonce op (an.result op)).1 }, (s.mc.newNonce op (an.result op)).2)

def applyUTXO (op : String) : Requester × Except Failure Allocated :=
  match an.getPbftService with
  | .error e => (s, .error e)
  | .ok () => ({ s with mc := (s.mc.newUTXO op (an.result op)).1 }, (s.mc.newUTXO op (an.result op)).2)

/-- The allocation of `callMCPrepareLockout`. -/
def applyForLockout (op : String) : Requester × Except Failure Allocated :=
  match s.cs.mcName with
  | .ethereum => s.applyMCNonce an op
  | .bitcoin => s.applyUTXO an op
  | .spectrum => (s, .error (.error "unknown chain : spectrum"))

/-- What `callSCPrepareLockin` asks a nonce for. -/
def lockinOp (localLockinInfo : LockinInfo) (req : SCPrepareLockinRequest) : String :=
  opText .spectrum req.secretHash (localLockinInfo.amount - localLockinInfo.crossFee)

/-- What `callMCPrepareLockout` asks for: a nonce for the amount less the fee, or outputs for the whole amount. -/
def lockoutOp (mcName : ChainName) (localLockoutInfo : LockoutInfo) (req : MCPrepareLockoutRequest) : String :=
  if mcName = .ethereum then opText mcName req.secretHash (localLockoutInfo.amount - localLockoutInfo.crossFee)
  else opText mcName req.secretHash localLockoutInfo.amount

/-- The record of a lockout that can still be answered. -/
def lookupLockout (req : MCPrepareLockoutRequest) : Except Failure LockoutInfo := do
  let lockoutInfo ← s.cs.lockoutHandler.getLockout req.secretHash
  ensure (lockoutInfo.scUserAddress = req.scUserAddress) (.error "SCUserAddress wrong")
  ensure (lockoutInfo.scLockStatus = .lock) (.error "SCLockStatus wrong")
  ensure (lockoutInfo.mcLockStatus = .none) (.error "MCLockStatus wrong")
  ensure (s.cs.mcLastedBlockNumber < lockoutInfo.mcExpiration) (.error "too late to MCPrepareLockout")
  return lockoutInfo

/-- What follows the allocation: the signature, the transaction, and the record that notes who is in charge. -/
def finish (allocated : Allocated) (update : CrossChainService × Except Failure Unit) : Attempt :=
  match an.sign allocated, an.send with
  | .error e, _ => { state := s, allocated := allocated, result := .error e }
  | .ok (), .error e => { state := s, allocated := allocated, result := .error e }
  | .ok (), .ok () => { state := { s with cs := update.1 }, allocated := allocated, result := update.2 }

def onSCPrepareLockinRequest (req : SCPrepareLockinRequest) : Attempt :=
  match an.loadPrivateKeyInfo with
  | .error e => { state := s, result := .error e }
  | .ok () =>
    match s.cs.getLockInInfoBySCPrepareLockInRequest x an.node req with
    | (cs, .error e) => { state := { s with cs := cs }, result := .error e }
    | (cs, .ok lockinInfo) =>
      match applySCNonce { s with cs := cs } an (lockinOp lockinInfo req) with
      | (s, .error e) => { state := s, result := .error e }
      | (s, .ok allocated) =>
        let r := cs.lockinHandler.updateLockin { lockinInfo with notaryIDInCharge := cs.selfNotaryID }
        s.finish an allocated ({ cs with lockinHandler := r.1 }, r.2)

def onMCPrepareLockoutRequest (req : MCPrepareLockoutRequest) : Attempt :=
  match an.loadPrivateKeyInfo with
  | .error e => { state := s, result := .error e }
  | .ok () =>
    match s.lookupLockout req with
    | .error e => { state := s, result := .error e }
    | .ok lockoutInfo =>
      match s.applyForLockout an (lockoutOp s.cs.mcName lockoutInfo req) with
      | (s, .error e) => { state := s, result := .error e }
      | (s, .ok allocated) =>
        let r := s.cs.lockoutHandler.updateLockout { lockoutInfo with notaryIDInCharge := s.cs.selfNotaryID }
        s.finish an allocated ({ s.cs with lockoutHandler := r.1 }, r.2)

def attempt : PrepareRequest → Attempt
  | .scPrepareLockin req => s.onSCPrepareLockinRequest x an req
  | .mcPrepareLockout req => s.onMCPrepareLockoutRequest an req

/-- The operations of the agreement that a request goes to which have a channel. -/
def calls : PrepareRequest → Finset String
  | .scPrepareLockin _ => s.sc.nonces
  | .mcPrepareLockout _ => s.mc.nonces

/-- What a request asks for: by the record, or by itself for a deposit on Bitcoin. -/
def operation : PrepareRequest → Option String
  | .scPrepareLockin req =>
    match s.cs.mcName with
    | .ethereum => (s.cs.lockinHandler.getLockin req.secretHash).toOption.map fun l => lockinOp l req
    | .bitcoin =>
      some (opText .spectrum req.secretHash
        (req.mcLockedAmount.toInt - s.cs.cfg.calculateCrossFee .bitcoin req.mcLockedAmount.toInt))
    | .spectrum => none
  | .mcPrepareLockout req =>
    (s.cs.lockoutHandler.getLockout req.secretHash).toOption.map fun l => lockoutOp s.cs.mcName l req

/-- The request passes every check that does not depend on what this notary did for it before. -/
def Valid : PrepareRequest → Prop
  | .scPrepareLockin req =>
    match s.cs.mcName with
    | .ethereum => ∃ l, s.cs.lockinHandler.getLockin req.secretHash = .ok l ∧
        l.mcUserAddressHex = .account (x.bytesToAddress req.mcUserAddress) ∧ l.mcLockStatus = .lock ∧
        l.scLockStatus = .none
    | .bitcoin => req.secretHash ≠ emptyHash ∧ s.cs.lockinHandler.dbFails req.secretHash = false ∧
        s.cs.lockinHandler.dealingMapLock = false ∧ (x.newAddressPubKeyHash req.mcUserAddress).isSome ∧
        (∃ u, getSignerETHAddress x req.signer = .ok u) ∧
        ∃ info, an.node.getPrepareLockinInfo req = .ok info ∧
          s.cs.cfg.getMinExpirationBlock4User .bitcoin < req.mcExpiration - info.blockNumber
    | .spectrum => False
  | .mcPrepareLockout req => s.cs.mcName ≠ .spectrum ∧ ∃ l, s.lookupLockout req = .ok l

/-- The key is there, and the agreement gives something to the operation of the request: a number, and the outputs
to a lockout on Bitcoin. -/
structure Cooperates (req : PrepareRequest) : Prop where
  key : an.loadPrivateKeyInfo = .ok ()
  service : an.getPbftService = .ok ()
  agrees : ∀ op, s.operation req = some op → (an.result op).error = none
  outputs : ∀ r op, req = .mcPrepareLockout r → s.cs.mcName = .bitcoin → s.operation req = some op →
    1 < (splitDash (an.result op).auxiliary).length

/-- This notary holds nothing yet that an attempt leaves behind. -/
structure Untried (req : PrepareRequest) : Prop where
  channel : ∀ op, s.operation req = some op → op ∉ s.calls req
  record : ∀ r, req = .scPrepareLockin r → s.cs.mcName = .bitcoin → s.cs.lockinHandler.db.lookup r.secretHash = none

/-- Whatever else happens to the records, channels stay. -/
inductive Step : Requester → Requester → Prop
  | attempt (s : Requester) (an : AttemptAnswers) (req : PrepareRequest) : Step s (s.attempt x an req).state
  | other (s : Requester) (cs : CrossChainService) : Step s { s with cs := cs }

section Channels

variable {s x an} {ps : PBFTCalls} {op : String} {r : OpResult} {read : OpResult → Except Failure Allocated}

theorem start_ok_iff {a : Allocated} :
    (ps.start op r read).2 = .ok a ↔ op ∉ ps.nonces ∧ r.error = none ∧ read r = .ok a := by
  unfold PBFTCalls.start
  by_cases hop : op ∈ ps.nonces
  · simp [hop]
  · cases r.error <;> simp [hop]

theorem subset_start : ps.nonces ⊆ (ps.start op r read).1.nonces := by
  unfold PBFTCalls.start
  split_ifs
  · exact Finset.Subset.refl _
  · exact Finset.subset_insert _ _

/-- An operation that was started has its channel. -/
theorem mem_start : op ∈ (ps.start op r read).1.nonces := by
  unfold PBFTCalls.start
  split_ifs with hop
  · exact hop
  · exact Finset.mem_insert_self _ _

/-- No call takes a channel away. -/
def Grows (s s' : Requester) : Prop := s.sc.nonces ⊆ s'.sc.nonces ∧ s.mc.nonces ⊆ s'.mc.nonces

theorem Grows.refl (s : Requester) : Grows s s := ⟨Finset.Subset.refl _, Finset.Subset.refl _⟩

theorem Grows.trans {s s' s'' : Requester} (h : Grows s s') (h' : Grows s' s'') : Grows s s'' :=
  ⟨h.1.trans h'.1, h.2.trans h'.2⟩

theorem Grows.calls {s s' : Requester} (h : Grows s s') (req : PrepareRequest) : s.calls req ⊆ s'.calls req := by
  cases req with
  | scPrepareLockin _ => exact h.1
  | mcPrepareLockout _ => exact h.2

theorem grows_applySCNonce : Grows s (s.applySCNonce an op).1 := by
  unfold applySCNonce
  cases an.getPbftService with
  | error _ => exact .refl s
  | ok _ => exact ⟨subset_start, Finset.Subset.refl _⟩

theorem grows_applyForLockout : Grows s (s.applyForLockout an op).1 := by
  unfold applyForLockout applyMCNonce applyUTXO
  cases s.cs.mcName with
  | spectrum => exact .refl s
  | bitcoin =>
    cases an.getPbftService with
    | error _ => exact .refl s
    | ok _ => exact ⟨Finset.Subset.refl _, subset_start⟩
  | ethereum =>
    cases an.getPbftService with
    | error _ => exact .refl s
    | ok _ => exact ⟨Finset.Subset.refl _, subset_start⟩

/-- What is given to a lockin is given to an operation without a channel, which has one from then on. -/
theorem applySCNonce_ok_iff (hps : an.getPbftService = .ok ()) (hagrees : (an.result op).error = none) :
    (∃ a, (s.applySCNonce an op).2 = .ok a) ↔ op ∉ s.sc.nonces := by
  simp only [applySCNonce, hps, PBFTCalls.newNonce, start_ok_iff]
  simp [hagrees]

theorem applyForLockout_ok_iff (hmc : s.cs.mcName ≠ .spectrum) (hps : an.getPbftService = .ok ())
    (hagrees : (an.result op).error = none)
    (hout : s.cs.mcName = .bitcoin → 1 < (splitDash (an.result op).auxiliary).length) :
    (∃ a, (s.applyForLockout an op).2 = .ok a) ↔ op ∉ s.mc.nonces := by
  unfold applyForLockout
  cases hc : s.cs.mcName with
  | spectrum => exact absurd hc hmc
  | bitcoin =>
    simp only [applyUTXO, hps, PBFTCalls.newUTXO, start_ok_iff]
    simp [hagrees, if_neg (not_le.mpr (hout hc))]
  | ethereum =>
    simp only [applyMCNonce, hps, PBFTCalls.newNonce, start_ok_iff]
    simp [hagrees]

theorem mem_of_applySCNonce {a : Allocated} (h : (s.applySCNonce an op).2 = .ok a) :
    op ∈ (s.applySCNonce an op).1.sc.nonces := by
  unfold applySCNonce at h ⊢
  cases hps : an.getPbftService with
  | error _ =>
    rw [hps] at h
    cases h
  | ok _ => exact mem_start

theorem mem_of_applyForLockout {a : Allocated} (h : (s.applyForLockout an op).2 = .ok a) :
    op ∈ (s.applyForLockout an op).1.mc.nonces := by
  unfold applyForLockout applyMCNonce applyUTXO at h ⊢
  cases hc : s.cs.mcName with
  | spectrum =>
    rw [hc] at h
    cases h
  | bitcoin =>
    cases hps : an.getPbftService with
    | error _ =>
      rw [hc, hps] at h
      cases h
    | ok _ => exact mem_start
  | ethereum =>
    cases hps : an.getPbftService with
    | error _ =>
      rw [hc, hps] at h
      cases h
    | ok _ => exact mem_start

end Channels

section Lookups

variable {s x an} {cs : CrossChainService} {node : Node} {req : SCPrepareLockinRequest} {l : LockinInfo}

/-- A record that is found without being made. -/
theorem getLockInInfo_ethereum (hmc : cs.mcName = .ethereum) :
    (cs.getLockInInfoBySCPrepareLockInRequest x node req).1 = cs ∧
      ((cs.getLockInInfoBySCPrepareLockInRequest x node req).2 = .ok l ↔
        cs.lockinHandler.getLockin req.secretHash = .ok l ∧
          l.mcUserAddressHex = .account (x.bytesToAddress req.mcUserAddress) ∧ l.mcLockStatus = .lock ∧
          l.scLockStatus = .none) := by
  unfold CrossChainService.getLockInInfoBySCPrepareLockInRequest
  simp only [hmc]
  cases cs.lockinHandler.getLockin req.secretHash with
  | error e => simp
  | ok r =>
    dsimp only
    split_ifs with huser hmcLock hscNone
    · refine ⟨rfl, iff_of_false id ?_⟩
      rintro ⟨h, h1, -⟩
      exact huser (Except.ok.inj h ▸ h1)
    · refine ⟨rfl, iff_of_false id ?_⟩
      rintro ⟨h, -, h2, -⟩
      exact hmcLock (Except.ok.inj h ▸ h2)
    · refine ⟨rfl, iff_of_false id ?_⟩
      rintro ⟨h, -, -, h3⟩
      exact hscNone (Except.ok.inj h ▸ h3)
    · simp only [not_not] at huser hmcLock hscNone
      refine ⟨rfl, fun h => ?_, fun h => h.1⟩
      obtain rfl := Except.ok.inj h
      exact ⟨rfl, huser, hmcLock, hscNone⟩

/-- What is made of a deposit on Bitcoin when it can be registered. -/
theorem getLockInInfo_bitcoin (hmc : cs.mcName = .bitcoin)
    (h : (cs.getLockInInfoBySCPrepareLockInRequest x node req).2 = .ok l) :
    cs.lockinHandler.Accepts req.secretHash ∧ l.amount = req.mcLockedAmount.toInt ∧
      l.crossFee = cs.cfg.calculateCrossFee .bitcoin req.mcLockedAmount.toInt := by
  unfold CrossChainService.getLockInInfoBySCPrepareLockInRequest at h
  simp only [hmc] at h
  split at h
  · cases h
  split at h
  · cases h
  split_ifs at h
  split at h
  · cases h
  dsimp only at h
  obtain ⟨u, hu, rfl⟩ := map_eq_ok.mp h
  exact ⟨(Handler.register_ok_iff rfl).mp (wrap_eq_ok.mp hu), rfl, rfl⟩

/-- A deposit that passes the checks is found exactly when it can be registered. -/
theorem exists_getLockInInfo_bitcoin (hmc : s.cs.mcName = .bitcoin) (hvalid : s.Valid x an (.scPrepareLockin req)) :
    (∃ l, (s.cs.getLockInInfoBySCPrepareLockInRequest x an.node req).2 = .ok l) ↔
      s.cs.lockinHandler.db.lookup req.secretHash = none := by
  simp only [Valid, hmc] at hvalid
  obtain ⟨hnamed, hworks, hfree, hsome, ⟨u, hu⟩, info, hinfo, hlate⟩ := hvalid
  obtain ⟨a, ha⟩ := Option.isSome_iff_exists.mp hsome
  constructor
  · rintro ⟨l, hl⟩
    exact (getLockInInfo_bitcoin hmc hl).1.unknown
  · intro hnone
    unfold CrossChainService.getLockInInfoBySCPrepareLockInRequest
    simp only [hmc, ha, hinfo, hu, if_neg (UInt64.not_le.mpr hlate)]
    exact ⟨_, map_eq_ok.mpr ⟨(), wrap_eq_ok.mpr ((Handler.register_ok_iff rfl).mpr
      ⟨hnamed, hworks, hnone, hfree⟩), rfl⟩⟩

/-- What the record that is found asks for. -/
theorem operation_of_lookup (h : (s.cs.getLockInInfoBySCPrepareLockInRequest x an.node req).2 = .ok l) :
    s.operation (.scPrepareLockin req) = some (lockinOp l req) := by
  unfold operation
  cases hmc : s.cs.mcName with
  | spectrum =>
    unfold CrossChainService.getLockInInfoBySCPrepareLockInRequest at h
    simp only [hmc] at h
    cases h
  | bitcoin =>
    obtain ⟨-, hamount, hfee⟩ := getLockInInfo_bitcoin hmc h
    simp [lockinOp, hamount, hfee]
  | ethereum =>
    have hget := ((getLockInInfo_ethereum hmc).2.mp h).1
    simp [hget, Except.toOption]

theorem getLockout_of_lookupLockout {req : MCPrepareLockoutRequest} {l : LockoutInfo}
    (h : s.lookupLockout req = .ok l) : s.cs.lockoutHandler.getLockout req.secretHash = .ok l := by
  simp only [lookupLockout, bind_eq_ok, pure_eq_ok] at h
  obtain ⟨r, hr, -, -, -, -, -, -, -, -, rfl⟩ := h
  exact hr

theorem operation_of_lookupLockout {req : MCPrepareLockoutRequest} {l : LockoutInfo}
    (h : s.lookupLockout req = .ok l) :
    s.operation (.mcPrepareLockout req) = some (lockoutOp s.cs.mcName l req) := by
  simp [operation, getLockout_of_lookupLockout h, Except.toOption]

end Lookups

section Attempts

variable {s x an} {req : PrepareRequest}

@[simp] theorem finish_allocated {a : Allocated} {u : CrossChainService × Except Failure Unit} :
    (s.finish an a u).allocated = some a := by
  unfold finish
  cases an.sign a with
  | error _ => rfl
  | ok _ => cases an.send <;> rfl

theorem grows_finish {a : Allocated} {u : CrossChainService × Except Failure Unit} :
    Grows s (s.finish an a u).state := by
  unfold finish
  cases an.sign a with
  | error _ => exact .refl s
  | ok _ =>
    cases an.send with
    | error _ => exact .refl s
    | ok _ => exact .refl s

/-- What a lockin request is given. -/
theorem allocated_scPrepareLockin {req : SCPrepareLockinRequest} {a : Allocated} :
    (s.onSCPrepareLockinRequest x an req).allocated = some a ↔ an.loadPrivateKeyInfo = .ok () ∧
      ∃ l, (s.cs.getLockInInfoBySCPrepareLockInRequest x an.node req).2 = .ok l ∧
        (s.applySCNonce an (lockinOp l req)).2 = .ok a := by
  unfold onSCPrepareLockinRequest
  cases an.loadPrivateKeyInfo with
  | error e => simp
  | ok _ =>
    dsimp only
    rcases hr : s.cs.getLockInInfoBySCPrepareLockInRequest x an.node req with ⟨cs, e | l⟩
    · simp
    · dsimp only
      have hsame : (applySCNonce { s with cs := cs } an (lockinOp l req)).2 =
          (s.applySCNonce an (lockinOp l req)).2 := by
        unfold applySCNonce
        cases an.getPbftService <;> rfl
      rcases ha : applySCNonce { s with cs := cs } an (lockinOp l req) with ⟨s', e | b⟩
      · rw [ha] at hsame
        simp [← hsame]
      · rw [ha] at hsame
        simp [← hsame]

/-- What a lockout request is given. -/
theorem allocated_mcPrepareLockout {req : MCPrepareLockoutRequest} {a : Allocated} :
    (s.onMCPrepareLockoutRequest an req).allocated = some a ↔ an.loadPrivateKeyInfo = .ok () ∧
      ∃ l, s.lookupLockout req = .ok l ∧ (s.applyForLockout an (lockoutOp s.cs.mcName l req)).2 = .ok a := by
  unfold onMCPrepareLockoutRequest
  cases an.loadPrivateKeyInfo with
  | error e => simp
  | ok _ =>
    dsimp only
    cases hl : s.lookupLockout req with
    | error e => simp
    | ok l =>
      dsimp only
      rcases ha : s.applyForLockout an (lockoutOp s.cs.mcName l req) with ⟨s', e | b⟩
      · simp [ha]
      · simp [ha]

/-- An attempt takes no channel away. -/
theorem grows_attempt : Grows s (s.attempt x an req).state := by
  cases req with
  | scPrepareLockin req =>
    simp only [attempt, onSCPrepareLockinRequest]
    cases an.loadPrivateKeyInfo with
    | error e => exact .refl s
    | ok _ =>
      dsimp only
      rcases s.cs.getLockInInfoBySCPrepareLockInRequest x an.node req with ⟨cs, e | l⟩
      · exact .refl s
      · dsimp only
        have happly : Grows s (applySCNonce { s with cs := cs } an (lockinOp l req)).1 :=
          @grows_applySCNonce { s with cs := cs } an (lockinOp l req)
        rcases ha : applySCNonce { s with cs := cs } an (lockinOp l req) with ⟨s', e | a⟩
        · rw [ha] at happly
          exact happly
        · rw [ha] at happly
          exact happly.trans grows_finish
  | mcPrepareLockout req =>
    simp only [attempt, onMCPrepareLockoutRequest]
    cases an.loadPrivateKeyInfo with
    | error e => exact .refl s
    | ok _ =>
      dsimp only
      cases s.lookupLockout req with
      | error e => exact .refl s
      | ok l =>
        dsimp only
        have happly : Grows s (s.applyForLockout an (lockoutOp s.cs.mcName l req)).1 := grows_applyForLockout
        rcases ha : s.applyForLockout an (lockoutOp s.cs.mcName l req) with ⟨s', e | a⟩
        · rw [ha] at happly
          exact happly
        · rw [ha] at happly
          exact happly.trans grows_finish

/-- What was given stands for an operation that has its channel. -/
theorem mem_of_allocated {a : Allocated} (h : (s.attempt x an req).allocated = some a) :
    ∃ op, s.operation req = some op ∧ op ∈ (s.attempt x an req).state.calls req := by
  cases req with
  | scPrepareLockin req =>
    obtain ⟨hkey, l, hl, ha⟩ := allocated_scPrepareLockin.mp h
    refine ⟨_, operation_of_lookup hl, ?_⟩
    simp only [attempt, onSCPrepareLockinRequest, hkey]
    rcases hr : s.cs.getLockInInfoBySCPrepareLockInRequest x an.node req with ⟨cs, r⟩
    rw [hr] at hl
    obtain rfl : r = .ok l := hl
    dsimp only
    have hmem : lockinOp l req ∈ (applySCNonce { s with cs := cs } an (lockinOp l req)).1.sc.nonces := by
      refine mem_of_applySCNonce (a := a) (ha ▸ ?_)
      unfold applySCNonce
      cases an.getPbftService <;> rfl
    revert hmem
    rcases applySCNonce { s with cs := cs } an (lockinOp l req) with ⟨s', e | b⟩
    · exact fun hmem => hmem
    · exact fun hmem => grows_finish.1 hmem
  | mcPrepareLockout req =>
    obtain ⟨hkey, l, hl, ha⟩ := allocated_mcPrepareLockout.mp h
    refine ⟨_, operation_of_lookupLockout hl, ?_⟩
    simp only [attempt, onMCPrepareLockoutRequest, hkey, hl]
    have hmem := mem_of_applyForLockout ha
    revert hmem
    rcases s.applyForLockout an (lockoutOp s.cs.mcName l req) with ⟨s', e | b⟩
    · exact fun hmem => hmem
    · exact fun hmem => grows_finish.2 hmem

end Attempts

section Runs

variable {s s' s'' : Requester} {x : Externals} {an an' : AttemptAnswers} {req : PrepareRequest}

theorem Step.grows (h : Step x s s') : Grows s s' := by
  cases h with
  | attempt an req => exact grows_attempt
  | other cs => exact .refl s

/-- No run takes a channel away. -/
theorem grows_of_run (h : Relation.ReflTransGen (Step x) s s') : Grows s s' := by
  induction h with
  | refl => exact .refl s
  | tail _ hstep ih => exact ih.trans hstep.grows

/-- A valid request gets something exactly when this notary holds nothing that an attempt leaves behind. -/
theorem exists_allocated_iff (hvalid : s.Valid x an req) (hco : s.Cooperates an req) :
    (∃ a, (s.attempt x an req).allocated = some a) ↔ s.Untried req := by
  cases req with
  | scPrepareLockin r =>
    have hgiven : ∀ l, (s.cs.getLockInInfoBySCPrepareLockInRequest x an.node r).2 = .ok l →
        ((∃ a, (s.applySCNonce an (lockinOp l r)).2 = .ok a) ↔ lockinOp l r ∉ s.sc.nonces) := by
      intro l hl
      exact applySCNonce_ok_iff hco.service (hco.agrees _ (operation_of_lookup hl))
    constructor
    · rintro ⟨a, ha⟩
      obtain ⟨-, l, hl, hop⟩ := allocated_scPrepareLockin.mp ha
      refine ⟨fun op h => ?_, fun r' hr' hmc => ?_⟩
      · obtain rfl := Option.some.inj ((operation_of_lookup hl).symm.trans h)
        exact (hgiven l hl).mp ⟨a, hop⟩
      · obtain rfl : r = r' := PrepareRequest.scPrepareLockin.inj hr'
        exact (getLockInInfo_bitcoin hmc hl).1.unknown
    · intro hun
      have hfound : ∃ l, (s.cs.getLockInInfoBySCPrepareLockInRequest x an.node r).2 = .ok l := by
        cases hmc : s.cs.mcName with
        | spectrum => exact absurd hvalid (by simp [Valid, hmc])
        | bitcoin => exact (exists_getLockInInfo_bitcoin hmc hvalid).mpr (hun.record r rfl hmc)
        | ethereum =>
          simp only [Valid, hmc] at hvalid
          obtain ⟨l, hl⟩ := hvalid
          exact ⟨l, (getLockInInfo_ethereum hmc).2.mpr hl⟩
      obtain ⟨l, hl⟩ := hfound
      obtain ⟨a, ha⟩ := (hgiven l hl).mpr (hun.channel _ (operation_of_lookup hl))
      exact ⟨a, allocated_scPrepareLockin.mpr ⟨hco.key, l, hl, ha⟩⟩
  | mcPrepareLockout r =>
    obtain ⟨hmc, l, hl⟩ := hvalid
    have hop := operation_of_lookupLockout hl
    have hgiven : (∃ a, (s.applyForLockout an (lockoutOp s.cs.mcName l r)).2 = .ok a) ↔
        lockoutOp s.cs.mcName l r ∉ s.mc.nonces :=
      applyForLockout_ok_iff hmc hco.service (hco.agrees _ hop) fun hbtc => hco.outputs r _ rfl hbtc hop
    constructor
    · rintro ⟨a, ha⟩
      obtain ⟨-, l', hl', ha'⟩ := allocated_mcPrepareLockout.mp ha
      obtain rfl := Except.ok.inj (hl.symm.trans hl')
      refine ⟨fun op h => ?_, fun _ hr' => nomatch hr'⟩
      obtain rfl := Option.some.inj (hop.symm.trans h)
      exact hgiven.mp ⟨a, ha'⟩
    · intro hun
      obtain ⟨a, ha⟩ := hgiven.mpr (hun.channel _ hop)
      exact ⟨a, allocated_mcPrepareLockout.mpr ⟨hco.key, l, hl, ha⟩⟩

/-- The second attempt gets something, and what the first one got if it got anything. -/
def Retried (first second : Attempt) : Prop :=
  ∃ a, second.allocated = some a ∧ ∀ b, first.allocated = some b → b = a

/-- A request is repeated for the same operation. -/
def Repeats (s s' : Requester) (req : PrepareRequest) : Prop :=
  ∀ op op', s.operation req = some op → s'.operation req = some op' → op' = op

/-- A request can be retried exactly when this notary holds nothing that an attempt leaves behind. -/
theorem retried_iff (hrun : Relation.ReflTransGen (Step x) (s.attempt x an req).state s')
    (hvalid : s'.Valid x an' req) (hco : s'.Cooperates an' req) (hrep : Repeats s s' req) :
    Retried (s.attempt x an req) (s'.attempt x an' req) ↔ s'.Untried req := by
  rw [← exists_allocated_iff hvalid hco]
  constructor
  · rintro ⟨a, ha, -⟩
    exact ⟨a, ha⟩
  · rintro ⟨a, ha⟩
    refine ⟨a, ha, fun b hb => ?_⟩
    -- the operation of the first attempt still has its channel, and the second one gets nothing
    obtain ⟨op, hop, hmem⟩ := mem_of_allocated hb
    obtain ⟨op', hop', -⟩ := mem_of_allocated ha
    have hun := (exists_allocated_iff hvalid hco).mp ⟨a, ha⟩
    have hsame := hrep op op' hop hop'
    exact absurd ((grows_of_run hrun).calls req hmem) (hsame ▸ hun.channel op' hop')

/-- AttemptAnswers that differ in how far an attempt comes; every operation is given the nonce `7`, with a digest as
the service of nonces returns it. -/
def answers6 (node : Node) (key sign : Except Failure Unit) : AttemptAnswers where
  loadPrivateKeyInfo := key
  node := node
  getPbftService := .ok ()
  result op := { cmd := op, auxiliary := "207aba4503627f38f6f6f6bdf5464219a97c90d6", seq := 7, error := none }
  sign _ := sign
  send := .ok ()

/-- A service of a token of Ethereum with the lockin of hash `5`. -/
def requester5 : Requester where
  cs := { service6 .ethereum 3 with
    lockinHandler := {
      db := ({} : RecordMap lockinKind).put lockinInfo5
      dealingMap := ({} : RecordMap lockinKind).put lockinInfo5 } }

/-- A service of a token of Bitcoin that knows no lockin. -/
def requester8 : Requester where
  cs := CrossChainService.service8

/-- The two attempts for a request, of which the first is not signed. -/
def unsigned5 : Attempt :=
  requester5.attempt .short (answers6 node6 (.ok ()) (.error (.error "timeout"))) (.scPrepareLockin lockinRequest5)

def unsigned8 : Attempt :=
  requester8.attempt .short (answers6 CrossChainService.node8 (.ok ()) (.error (.error "timeout")))
    (.scPrepareLockin CrossChainService.request8)

def again5 : Attempt :=
  unsigned5.state.attempt .short (answers6 node6 (.ok ()) (.ok ())) (.scPrepareLockin lockinRequest5)

def again8 : Attempt :=
  unsigned8.state.attempt .short (answers6 CrossChainService.node8 (.ok ()) (.ok ()))
    (.scPrepareLockin CrossChainService.request8)

/-- The first attempts get the nonce `7` and are not signed. The second ones get nothing: the operation has its channel,
and the deposit is registered. -/
theorem retry_refused :
    unsigned5.allocated = some (.nonce 7) ∧ unsigned5.result = .error (.error "timeout") ∧
      again5.result = .error (.error ("already exist req " ++ opText .spectrum 5 9999)) ∧
      ¬ Retried unsigned5 again5 ∧
    unsigned8.allocated = some (.nonce 7) ∧ unsigned8.result = .error (.error "timeout") ∧
      again8.result = .error (.error ("lockinHandler.registerLockin err2 = db.NewLockinInfo err = " ++
        "UNIQUE constraint failed")) ∧
      ¬ Retried unsigned8 again8 := by
  refine ⟨by decide +kernel, rfl, rfl, ?_, by decide +kernel, rfl, rfl, ?_⟩
  · rintro ⟨a, ha, -⟩
    have hnone : again5.allocated = none := by decide +kernel
    rw [hnone] at ha
    cases ha
  · rintro ⟨a, ha, -⟩
    have hnone : again8.allocated = none := by decide +kernel
    rw [hnone] at ha
    cases ha

/-- An attempt that ends without the key leaves nothing behind, and the next one gets the nonce. -/
theorem retry_without_key :
    Retried
      (requester5.attempt .short (answers6 node6 (.error (.error "not found")) (.ok ()))
        (.scPrepareLockin lockinRequest5))
      (requester5.attempt .short (answers6 node6 (.ok ()) (.ok ())) (.scPrepareLockin lockinRequest5)) := by
  have hvalid : requester5.Valid .short (answers6 node6 (.ok ()) (.ok ())) (.scPrepareLockin lockinRequest5) :=
    ⟨lockinInfo5, rfl, rfl, rfl, rfl⟩
  have hrep : Repeats requester5 requester5 (.scPrepareLockin lockinRequest5) :=
    fun op op' h h' => Option.some.inj (h'.symm.trans h)
  have hrun : Relation.ReflTransGen (Step .short)
      (requester5.attempt .short (answers6 node6 (.error (.error "not found")) (.ok ()))
        (.scPrepareLockin lockinRequest5)).state requester5 := .refl
  exact (retried_iff hrun hvalid ⟨rfl, rfl, fun _ _ => rfl, fun _ _ hr => nomatch hr⟩ hrep).mpr
    ⟨fun _ _ => Finset.notMem_empty _, fun _ _ hmc => nomatch hmc⟩

end Runs

end Requester

end DistributedNotary.Service
