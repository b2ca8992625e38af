import DistributedNotary.Library.RangeMap
import DistributedNotary.Library.Transition
import DistributedNotary.Service.Records

/-! The dispatch of the events of the chains to the services of the tokens, while
tokens are registered. A registration makes the contracts of the token known to
the listeners of their chains before it puts the service of the token into the
table. An event of the side chain is looked up by its contract, and one of a
main chain goes to the first service that a loop over the table accepts. -/
namespace DistributedNotary.Service

open Library Contracts

structure SideChainTokenMetaInfo where
  mcName : ChainName
  scToken : Address
  mcLockedContractAddress : Address
  deriving DecidableEq

/-- What a chain tells of: a log of a contract, which has an address, or that an outpoint was spent that is listened
to for a secret hash. -/
inductive ChainEvent where
  | spectrum (contract : Address) (h : contract ≠ emptyAddress)
  | ethereum (contract : Address) (h : contract ≠ emptyAddress)
  | bitcoin (secretHash : Bytes32)

structure BaseEvent where
  chainName : ChainName
  fromAddress : Address
  scTokenAddress : Address

def ChainEvent.base : ChainEvent → BaseEvent
  | .spectrum contract _ => { chainName := .spectrum, fromAddress := contract, scTokenAddress := contract }
  | .ethereum contract _ => { chainName := .ethereum, fromAddress := contract, scTokenAddress := emptyAddress }
  | .bitcoin _ => { chainName := .bitcoin, fromAddress := emptyAddress, scTokenAddress := emptyAddress }

inductive DispatchPanic where
  | noMCContract (fromAddress : Address)
  | noSCToken (scTokenAddress : Address)

/-- Where a call of `registerNewSCToken` stands. -/
inductive RegistrationStage where
  | sideChain
  | mainChain
  | insert

/-- The table of the services by their tokens, the calls of `registerNewSCToken` that are under way, and what the
listeners of the chains listen to: contracts, and outpoints with the secret hash and the token they were registered
for. Bitcoin is there when it is configured. -/
structure DispatchService where
  hasBitcoin : Bool
  scToken2CrossChainServiceMap : RangeMap Address SideChainTokenMetaInfo := ∅
  registrations : List (RegistrationStage × SideChainTokenMetaInfo) := []
  smcContracts : List Address := []
  ethContracts : List Address := []
  outpoints : List (Bytes32 × Address) := []

namespace DispatchService

variable (ds : DispatchService)

/-- The next step of a call of `registerNewSCToken`, and the stage after it, if it goes on. `connected` tells
whether the chain that it registers with is. -/
def registerNewSCToken (connected : Bool) (scTokenMetaInfo : SideChainTokenMetaInfo) :
    RegistrationStage → DispatchService × Option RegistrationStage
  | .sideChain =>
    if connected then ({ ds with smcContracts := scTokenMetaInfo.scToken :: ds.smcContracts }, some .mainChain)
    else (ds, none)
  | .mainChain =>
    match scTokenMetaInfo.mcName with
    | .spectrum =>
      if connected then
        ({ ds with smcContracts := scTokenMetaInfo.mcLockedContractAddress :: ds.smcContracts }, some .insert)
      else (ds, none)
    | .ethereum =>
      if connected then
        ({ ds with ethContracts := scTokenMetaInfo.mcLockedContractAddress :: ds.ethContracts }, some .insert)
      else (ds, none)
    -- the listener of Bitcoin does nothing with a contract
    | .bitcoin => if ds.hasBitcoin then (ds, some .insert) else (ds, none)
  | .insert =>
    ({ ds with
        scToken2CrossChainServiceMap :=
          ds.scToken2CrossChainServiceMap.insert scTokenMetaInfo.scToken scTokenMetaInfo }, none)

/-- The loop over the table: the token of the service that an event of a main chain is handed to. -/
def dispatchMC (e : BaseEvent) : List (Address × SideChainTokenMetaInfo) → Except DispatchPanic Address
  | [] => .error (.noMCContract e.fromAddress)
  | (scToken, service) :: rest =>
    if e.chainName = .bitcoin ∧ service.mcName = .bitcoin then .ok scToken
    else if service.mcLockedContractAddress = e.fromAddress then .ok scToken
    else dispatchMC e rest

/-- The token of the service that the event is handed to. -/
def dispatchEvent (order : Range Address) (e : BaseEvent) : Except DispatchPanic Address :=
  if e.scTokenAddress = emptyAddress then dispatchMC e (ds.scToken2CrossChainServiceMap.range order)
  else
    match ds.scToken2CrossChainServiceMap.lookup e.scTokenAddress with
    | none => .error (.noSCToken e.scTokenAddress)
    | some _ => .ok e.scTokenAddress

/-- What happens next: a token is to be registered, a registration takes a step, the service of a token registers an
outpoint, or an event arrives. -/
inductive Action where
  | register (scTokenMetaInfo : SideChainTokenMetaInfo)
  | advance (i : ℕ) (connected : Bool)
  | registerOutpoint (secretHash : Bytes32) (scToken : Address)
  | arrive (e : ChainEvent)

def next : Action → DispatchService
  | .register scTokenMetaInfo => { ds with registrations := ds.registrations ++ [(.sideChain, scTokenMetaInfo)] }
  | .advance i connected =>
    match ds.registrations[i]? with
    | none => ds
    | some (stage, scTokenMetaInfo) =>
      let r := ds.registerNewSCToken connected scTokenMetaInfo stage
      match r.2 with
      | none => { r.1 with registrations := ds.registrations.eraseIdx i }
      | some stage => { r.1 with registrations := ds.registrations.set i (stage, scTokenMetaInfo) }
  | .registerOutpoint secretHash scToken =>
    match ds.scToken2CrossChainServiceMap.lookup scToken with
    | some service =>
      if service.mcName = .bitcoin then { ds with outpoints := (secretHash, scToken) :: ds.outpoints } else ds
    | none => ds
  | .arrive _ => ds

/-- The event is one of those that the listeners let through. -/
def Listens : ChainEvent → Prop
  | .spectrum contract _ => contract ∈ ds.smcContracts
  | .ethereum contract _ => contract ∈ ds.ethContracts
  | .bitcoin secretHash => ∃ scToken, (secretHash, scToken) ∈ ds.outpoints

/-- The event belongs to the service, by its token, its contract on the main chain or the secret hash. -/
def Owns (e : ChainEvent) (service : SideChainTokenMetaInfo) : Prop :=
  match e with
  | .spectrum contract _ => service.scToken = contract
  | .ethereum contract _ => service.mcName = .ethereum ∧ service.mcLockedContractAddress = contract
  | .bitcoin secretHash => service.mcName = .bitcoin ∧ (secretHash, service.scToken) ∈ ds.outpoints

/-- The service is in the table. -/
def Serves (service : SideChainTokenMetaInfo) : Prop :=
  ds.scToken2CrossChainServiceMap.lookup service.scToken = some service

/-- In whatever order the table is gone through, the event is handed to the one service that it belongs to. -/
def Delivers (e : ChainEvent) : Prop :=
  ∃ owner, ds.Serves owner ∧ ds.Owns e owner ∧ (∀ service, ds.Serves service → ds.Owns e service → service = owner) ∧
    ∀ order, ds.dispatchEvent order e.base = .ok owner.scToken

/-- The service that the event belongs to is in the table. It is the only one there with its contract on the main
chain; for an event of Bitcoin, it is the only one there that is of Bitcoin or has no contract on the main chain. -/
def Ready (e : ChainEvent) : Prop :=
  match e with
  | .spectrum contract _ => (ds.scToken2CrossChainServiceMap.lookup contract).isSome
  | .ethereum contract _ =>
    ∃ owner, ds.Serves owner ∧ owner.mcName = .ethereum ∧ owner.mcLockedContractAddress = contract ∧
      ∀ service, ds.Serves service → service.mcLockedContractAddress = contract → service = owner
  | .bitcoin secretHash =>
    ∃ owner, ds.Serves owner ∧ owner.mcName = .bitcoin ∧ (secretHash, owner.scToken) ∈ ds.outpoints ∧
      ∀ service, ds.Serves service → service.mcName = .bitcoin ∨ service.mcLockedContractAddress = emptyAddress →
        service = owner

/-- The services of the table are under their tokens. -/
def Keyed : Prop :=
  ∀ scToken service, ds.scToken2CrossChainServiceMap.lookup scToken = some service → service.scToken = scToken

/-- The loop stops at the service. -/
def Accepts (e : BaseEvent) (service : SideChainTokenMetaInfo) : Prop :=
  (e.chainName = .bitcoin ∧ service.mcName = .bitcoin) ∨ service.mcLockedContractAddress = e.fromAddress

section

variable {ds : DispatchService} {e : ChainEvent} {b : BaseEvent} {l : List (Address × SideChainTokenMetaInfo)}
  {k : Address} {service : SideChainTokenMetaInfo}

theorem exists_of_dispatchMC (h : dispatchMC b l = .ok k) : ∃ service, (k, service) ∈ l ∧ Accepts b service := by
  induction l with
  | nil => nomatch h
  | cons x rest ih =>
    unfold dispatchMC at h
    split_ifs at h with hbtc hmc
    · obtain rfl := Except.ok.inj h
      exact ⟨x.2, List.mem_cons_self, .inl hbtc⟩
    · obtain rfl := Except.ok.inj h
      exact ⟨x.2, List.mem_cons_self, .inr hmc⟩
    · obtain ⟨service, hmem, haccepts⟩ := ih h
      exact ⟨service, List.mem_cons_of_mem _ hmem, haccepts⟩

theorem dispatchMC_cons (h : Accepts b service) : dispatchMC b ((k, service) :: l) = .ok k := by
  unfold dispatchMC
  by_cases hbtc : b.chainName = .bitcoin ∧ service.mcName = .bitcoin
  · rw [if_pos hbtc]
  · rw [if_neg hbtc, if_pos (h.resolve_left hbtc)]

theorem exists_dispatchMC (hmem : (k, service) ∈ l) (h : Accepts b service) : ∃ k, dispatchMC b l = .ok k := by
  induction l with
  | nil => exact absurd hmem List.not_mem_nil
  | cons x rest ih =>
    by_cases hx : Accepts b x.2
    · exact ⟨x.1, dispatchMC_cons hx⟩
    · rcases List.mem_cons.mp hmem with rfl | hmem
      · exact absurd h hx
      · obtain ⟨k', hk'⟩ := ih hmem
        refine ⟨k', ?_⟩
        unfold dispatchMC
        rw [if_neg fun hbtc => hx (.inl hbtc), if_neg fun hmc => hx (.inr hmc), hk']

theorem Serves.eq {service' : SideChainTokenMetaInfo} (h : ds.Serves service) (h' : ds.Serves service')
    (htoken : service.scToken = service'.scToken) : service = service' := by
  unfold Serves at h h'
  rw [htoken, h'] at h
  exact (Option.some.inj h).symm

/-- An event of a main chain is delivered just when its owner is the only service of the table at which the loop
stops: any other could be the first. -/
theorem delivers_iff_accepts (hk : ds.Keyed) (hmc : e.base.scTokenAddress = emptyAddress)
    (howns : ∀ service, ds.Owns e service → Accepts e.base service) : ds.Delivers e ↔
      ∃ owner, ds.Serves owner ∧ ds.Owns e owner ∧
        ∀ service, ds.Serves service → Accepts e.base service → service = owner := by
  unfold Delivers dispatchEvent
  simp only [if_pos hmc]
  refine exists_congr fun owner => and_congr_right fun hserves => and_congr_right fun ho => ?_
  constructor
  · rintro ⟨-, hall⟩ service hs haccepts
    obtain ⟨rest, hfirst⟩ := RangeMap.range_first hs
    have hd := hall (Range.first service.scToken)
    rw [hfirst, dispatchMC_cons haccepts] at hd
    exact hs.eq hserves (Except.ok.inj hd)
  · intro honly
    refine ⟨fun service hs hown => honly service hs (howns service hown), fun order => ?_⟩
    have hin : (owner.scToken, owner) ∈ ds.scToken2CrossChainServiceMap.range order := RangeMap.mem_range.mpr hserves
    obtain ⟨k, hd⟩ := exists_dispatchMC hin (howns owner ho)
    obtain ⟨service, hmem, haccepts⟩ := exists_of_dispatchMC hd
    have hlookup := RangeMap.mem_range.mp hmem
    have htoken := hk k service hlookup
    have hs : ds.Serves service := by
      unfold Serves
      rw [htoken, hlookup]
    rw [hd, ← htoken, honly service hs haccepts]

theorem delivers_spectrum_iff (hk : ds.Keyed) {contract : Address} (hc : contract ≠ emptyAddress) :
    ds.Delivers (.spectrum contract hc) ↔ ds.Ready (.spectrum contract hc) := by
  have hdispatch (order : Range Address) : ds.dispatchEvent order (ChainEvent.spectrum contract hc).base =
      match ds.scToken2CrossChainServiceMap.lookup contract with
      | none => .error (.noSCToken contract)
      | some _ => .ok contract := if_neg hc
  constructor
  · rintro ⟨owner, hserves, hown, -, -⟩
    unfold Serves at hserves
    rw [show owner.scToken = contract from hown] at hserves
    exact Option.isSome_of_eq_some hserves
  · intro h
    obtain ⟨owner, howner⟩ := Option.isSome_iff_exists.mp h
    have htoken := hk contract owner howner
    have hserves : ds.Serves owner := by
      unfold Serves
      rw [htoken, howner]
    refine ⟨owner, hserves, htoken, fun service hs hown => hs.eq hserves (hown.trans htoken.symm), fun order => ?_⟩
    rw [hdispatch, howner, htoken]

/-- An event is delivered just when the table is ready for it. -/
theorem delivers_iff (hk : ds.Keyed) (e : ChainEvent) : ds.Delivers e ↔ ds.Ready e := by
  cases e with
  | spectrum contract hc => exact delivers_spectrum_iff hk hc
  | ethereum contract hc =>
    rw [delivers_iff_accepts (e := .ethereum contract hc) hk rfl fun service hown => .inr hown.2]
    simp [Ready, Owns, Accepts, ChainEvent.base, and_assoc]
  | bitcoin secretHash =>
    rw [delivers_iff_accepts (e := .bitcoin secretHash) hk rfl fun service hown => .inl ⟨rfl, hown.1⟩]
    simp [Ready, Owns, Accepts, ChainEvent.base, and_assoc]

theorem Keyed.registerNewSCToken (hk : ds.Keyed) (connected : Bool) (scTokenMetaInfo : SideChainTokenMetaInfo)
    (stage : RegistrationStage) : (ds.registerNewSCToken connected scTokenMetaInfo stage).1.Keyed := by
  unfold DispatchService.registerNewSCToken
  cases stage with
  | sideChain => split_ifs <;> exact hk
  | mainChain => cases scTokenMetaInfo.mcName <;> dsimp only <;> split_ifs <;> exact hk
  | insert =>
    intro scToken service h
    dsimp only at h
    rw [RangeMap.lookup_insert_eq] at h
    split_ifs at h with heq
    · rw [← Option.some.inj h, heq]
    · exact hk scToken service h

theorem Keyed.next (hk : ds.Keyed) (a : Action) : (ds.next a).Keyed := by
  cases a with
  | register scTokenMetaInfo => exact hk
  | advance i connected =>
    unfold DispatchService.next
    dsimp only
    split
    · exact hk
    · next stage scTokenMetaInfo _ =>
      split <;> exact hk.registerNewSCToken connected scTokenMetaInfo stage
  | registerOutpoint secretHash scToken =>
    unfold DispatchService.next
    dsimp only
    split
    · split_ifs <;> exact hk
    · exact hk
  | arrive e => exact hk

end

/-- A dispatcher that has no tokens yet. -/
def start (hasBitcoin : Bool) : DispatchService where
  hasBitcoin := hasBitcoin

/-- Every event of the run that the listeners let through is delivered. -/
def AllDelivered (hasBitcoin : Bool) (run : List Action) : Prop :=
  Along next (fun ds a => ∀ e, a = .arrive e → ds.Listens e → ds.Delivers e) (start hasBitcoin) run

/-- The table is ready for every event of the run that the listeners let through. -/
def AllReady (hasBitcoin : Bool) (run : List Action) : Prop :=
  Along next (fun ds a => ∀ e, a = .arrive e → ds.Listens e → ds.Ready e) (start hasBitcoin) run

/-- Whatever tokens are registered, however their registrations and the events are interleaved and in whatever order
the table is gone through, every event is handed to its owner and no dispatch panics just when every event finds its
owner alone in the table. -/
theorem allDelivered_iff (hasBitcoin : Bool) (run : List Action) :
    AllDelivered hasBitcoin run ↔ AllReady hasBitcoin run := by
  refine along_iff Keyed (fun ds a hk => ?_) (fun ds a hk _ => hk.next a) ?_ run
  · exact forall_congr' fun e => forall_congr' fun _ => forall_congr' fun _ => delivers_iff hk e
  · intro scToken service h
    nomatch h

def token7 (mcName : ChainName) : SideChainTokenMetaInfo where
  mcName := mcName
  scToken := 7
  mcLockedContractAddress := if mcName = .bitcoin then emptyAddress else 9

def token8 : SideChainTokenMetaInfo where
  mcName := .bitcoin
  scToken := 8
  mcLockedContractAddress := emptyAddress

/-- An event of a contract that is listened to before the service of its token is in the table is a panic, and an
event of Bitcoin may go to the other token of Bitcoin. -/
theorem dispatch_misses :
    ¬ AllDelivered false [.register (token7 .ethereum), .advance 0 true, .arrive (.spectrum 7 (by decide))] ∧
      ¬ AllDelivered true [.register (token7 .bitcoin), .advance 0 true, .advance 0 true, .advance 0 true,
        .register token8, .advance 0 true, .advance 0 true, .advance 0 true, .registerOutpoint 5 8,
        .arrive (.bitcoin 5)] := by
  constructor
  · rintro ⟨-, -, h, -⟩
    obtain ⟨owner, hserves, -⟩ := h _ rfl (List.mem_singleton.mpr rfl)
    nomatch hserves
  · rintro ⟨-, -, -, -, -, -, -, -, -, h, -⟩
    obtain ⟨owner, -, ⟨-, hsecret⟩, -, hall⟩ := h _ rfl ⟨8, .head _⟩
    have hfirst : owner.scToken = 7 := (Except.ok.inj (hall (Range.first 7))).symm
    rw [hfirst] at hsecret
    exact absurd hsecret (by decide)

end DispatchService

end DistributedNotary.Service
