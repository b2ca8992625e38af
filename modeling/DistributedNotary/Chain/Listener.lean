import DistributedNotary.Library.RangeMap
import DistributedNotary.Library.Transition

/-! The event listener that `ETHService` and `SMCService` run: a loop of poll
rounds over a chain that only grows. A round reads the height, scans a window
that overlaps the previous one, drops the logs of transactions recorded in
`eventsDone` and puts the rest on the event channel. What the node and the
decoder answer in a round are inputs of that round. Names, topics and hashes are
numbers, and the pauses and log lines of the loop are left out. -/
namespace DistributedNotary.Chain

open Library

structure Log where
  address : ℕ
  topic : ℕ
  txHash : ℕ
  blockNumber : ℕ
  index : ℕ
  data : List ℕ
  deriving DecidableEq

/-- What the two services differ in: the depth of confirmation and the table of event names,
in which a missing topic is the empty name. -/
structure Config (ν : Type) where
  confirmBlockNumber : ℕ
  topicToEventName : ℕ → Option ν

inductive Event (ν : Type) where
  | newBlock (blockNumber : ℕ)
  | contract (name : ν) (log : Log)

/-- The logs of every block, in the order of the chain. No transaction runs in block `0`. -/
structure Blockchain where
  logs : ℕ → List Log
  blockNumber : ∀ b, ∀ l ∈ logs b, l.blockNumber = b
  nodup : ∀ b, (logs b).Nodup
  genesis : logs 0 = []

/-- What the outside answers in one round. -/
inductive Round where
  /-- `HeaderByNumber` fails; the loop waits for the reconnection. -/
  | headerError
  /-- The height, the blocks mined before the node filters, whether `FilterLogs` fails, and the
  logs the decoder can unpack. -/
  | polled (lastedBlock mined : ℕ) (rpcError : Bool) (unpacks : Log → Bool)

structure Service (ν : Type) where
  currentBlock : ℕ
  eventsDone : RangeMap ℕ ℕ := ∅
  /-- Everything that was put on the event channel. -/
  eventChan : List (Event ν) := []

variable {ν : Type} (cfg : Config ν) (chain : Blockchain) (contracts : List ℕ)

/-- `FilterLogs` for the registered contracts; a zero `fromBlock` is the first block and a zero
`toBlock` the latest one. -/
def filterLogs (fromBlock toBlock head : ℕ) : List Log :=
  let last := if toBlock = 0 then head else min toBlock head
  (List.range' fromBlock (last + 1 - fromBlock)).flatMap fun b =>
    (chain.logs b).filter fun l => decide (l.address ∈ contracts)

/-- Recorded under its transaction with its block. -/
def isDone (done : RangeMap ℕ ℕ) (l : Log) : Bool := done.lookup l.txHash = some l.blockNumber

/-- The events of the logs and the record afterwards; a log that does not unpack ends the loop
with an error, and the record keeps what was written before it. -/
def parserLogsToEventsAndSort (unpacks : Log → Bool) (done : RangeMap ℕ ℕ) :
    List Log → RangeMap ℕ ℕ × Option (List (Event ν))
  | [] => (done, some [])
  | l :: rest =>
    if isDone done l then parserLogsToEventsAndSort unpacks done rest
    else
      match cfg.topicToEventName l.topic with
      | some name =>
        if unpacks l then
          let r := parserLogsToEventsAndSort unpacks (done.insert l.txHash l.blockNumber) rest
          (r.1, r.2.map (.contract name l :: ·))
        else (done, none)
      | none => parserLogsToEventsAndSort unpacks (done.insert l.txHash l.blockNumber) rest

def fromBlockNumber (currentBlock : ℕ) : ℕ :=
  if currentBlock < 2 * cfg.confirmBlockNumber then 0 else currentBlock - 2 * cfg.confirmBlockNumber

def toBlockNumber (lastedBlock : ℕ) : ℕ :=
  if lastedBlock < cfg.confirmBlockNumber then 0 else lastedBlock - cfg.confirmBlockNumber

/-- The logs that a round hands to the parser. -/
def batch (ss : Service ν) (lastedBlock mined : ℕ) : List Log :=
  filterLogs chain contracts (fromBlockNumber cfg ss.currentBlock) (toBlockNumber cfg lastedBlock)
    (lastedBlock + mined)

/-- One round of `loop`. -/
def loopRound (ss : Service ν) : Round → Service ν
  | .headerError => ss
  | .polled lastedBlock mined rpcError unpacks =>
    if ss.currentBlock ≥ lastedBlock then ss
    else if rpcError then ss
    else
      match parserLogsToEventsAndSort cfg unpacks ss.eventsDone (batch cfg chain contracts ss lastedBlock mined) with
      | (done, none) => { ss with eventsDone := done }
      | (done, some es) =>
        { currentBlock := lastedBlock
          eventChan := ss.eventChan ++ .newBlock lastedBlock :: es
          -- the expired part of the record is dropped
          eventsDone := done.filter fun _ blockNumber => !decide (blockNumber ≤ fromBlockNumber cfg ss.currentBlock) }

/-- The names of the events `ETHService` translates. -/
inductive LockedEthereumEvent where
  | prepareLockin
  | lockoutSecret
  | prepareLockout
  | lockin
  | cancelLockin
  | cancelLockout
  deriving DecidableEq

/-- The names of the events `SMCService` translates. -/
inductive AtmosphereTokenEvent where
  | prepareLockin
  | lockinSecret
  | prepareLockout
  | lockout
  | cancelLockin
  | cancelLockout
  deriving DecidableEq

abbrev ETHService := Service LockedEthereumEvent

abbrev SMCService := Service AtmosphereTokenEvent

def Event.log? : Event ν → Option Log
  | .newBlock _ => none
  | .contract _ l => some l

/-- The logs on the channel, in the order they were put there. -/
def Service.emitted (ss : Service ν) : List Log := ss.eventChan.filterMap Event.log?

/-- A log of a registered contract. -/
def Registered (l : Log) : Prop := l ∈ chain.logs l.blockNumber ∧ l.address ∈ contracts

instance (l : Log) : Decidable (Registered chain contracts l) := inferInstanceAs (Decidable (_ ∧ _))

section FilterLogs

variable {chain contracts}

theorem mem_filterLogs {fromBlock toBlock head : ℕ} {l : Log} :
    l ∈ filterLogs chain contracts fromBlock toBlock head ↔
      Registered chain contracts l ∧ fromBlock ≤ l.blockNumber ∧
        l.blockNumber ≤ if toBlock = 0 then head else min toBlock head := by
  simp only [filterLogs, List.mem_flatMap, List.mem_range'_1, List.mem_filter, decide_eq_true_eq, Registered]
  constructor
  · rintro ⟨b, hb, hl, ha⟩
    obtain rfl := chain.blockNumber b l hl
    exact ⟨⟨hl, ha⟩, hb.1, by omega⟩
  · rintro ⟨⟨hl, ha⟩, h1, h2⟩
    exact ⟨l.blockNumber, ⟨h1, by omega⟩, hl, ha⟩

theorem nodup_filterLogs (fromBlock toBlock head : ℕ) : (filterLogs chain contracts fromBlock toBlock head).Nodup := by
  refine List.nodup_flatMap.mpr ⟨fun b _ => (chain.nodup b).filter _, ?_⟩
  refine List.Pairwise.imp (fun {a b} hab l ha hb => hab ?_) List.nodup_range'
  exact (chain.blockNumber a l (List.mem_filter.mp ha).1).symm.trans
    (chain.blockNumber b l (List.mem_filter.mp hb).1)

end FilterLogs

end DistributedNotary.Chain
