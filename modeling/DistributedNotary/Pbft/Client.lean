import DistributedNotary.Library.Checks
import DistributedNotary.Pbft.Message
import DistributedNotary.Pbft.Queues
import Mathlib.Logic.Function.Basic

/-! A client of the protocol. An entry is shared between the log, the request
queues, its timer and the channel `retry`, so the entries are kept under
references. A request that goes out is noted in `sent`, latest first, with the
replica that it goes to. A step ends in an error where the source panics. -/
namespace DistributedNotary.Pbft

open Library

def outstanding : ℕ := 10

structure OpResult where
  cmd : String
  auxiliary : String
  seq : ℤ
  error : Option String
  deriving DecidableEq

/-- A request of the client; `t` says whether its timer runs, and `ft` that it was not sent yet. -/
structure CEntry where
  apply : Bool := false
  req : Option RequestArgs := none
  res : List ResponseArgs := []
  t : Bool := false
  ft : Bool := true

structure Client where
  id : ℤ
  view : ℤ := 0
  replicas : List ℤ
  f : ℕ
  log : RangeMap String ℕ := ∅
  heap : ℕ → CEntry := fun _ => {}
  next : ℕ := 0
  reqQueue : StringQueue ℕ := {}
  backupQueue : StringQueue ℕ := {}
  apply : List OpResult := []
  retry : List ℕ := []
  sent : List (RequestArgs × ℤ) := []

/-- What makes a client act: a message, an element of `retry`, a timer, or the reader of its results. For a
new request `canOpSuccess` is what the service says about it, an error or nothing. -/
inductive ClientInput where
  | start (cmd : String) (timestamp : ℤ) (canOpSuccess : Option String)
  | response (args : ResponseArgs)
  | retry (k : ℕ)
  | timeout (r : ℕ)
  | take
  deriving DecidableEq

namespace Client

variable (c : Client)

/-- The client that `NewPBFTClient` builds. -/
def new (cid : ℤ) (f : ℕ) (nodes : List ℤ) : Client where
  id := cid
  replicas := nodes
  f := f

def setEntry (r : ℕ) (ent : CEntry) : Client := { c with heap := Function.update c.heap r ent }

/-- The entry for `op`, a new one if there is none. -/
def newCEntry (op : String) : Client × ℕ × Bool :=
  match c.log.lookup op with
  | some r => (c, r, true)
  | none =>
    ({ c with log := c.log.insert op c.next, heap := Function.update c.heap c.next {}, next := c.next + 1 }, c.next,
      false)

/-- The result is dropped where the channel is full. -/
def notifyResult (cmd auxiliary : String) (seq : ℤ) (err : Option String) : Client :=
  { c with
    apply :=
      if c.apply.length < outstanding * 10 then
        c.apply ++ [{ cmd := cmd, auxiliary := auxiliary, seq := seq, error := err }]
      else c.apply
    log := c.log.erase cmd }

def startInternal (cmd : String) (timestamp : ℤ) (canOpSuccess : Option String) : Client × Option String :=
  let args : RequestArgs := { op := cmd, id := c.id, timestamp := timestamp }
  let (c, r, exist) := c.newCEntry args.op
  if exist then (c, some "cmd duplicate")
  else
    match canOpSuccess with
    | some err => (c, some err)
    | none =>
      let c := c.setEntry r { c.heap r with req := some args }
      if c.reqQueue.length ≤ outstanding then
        ({ c with reqQueue := (c.reqQueue.insert cmd r).1, retry := c.retry ++ [r] }, none)
      else ({ c with backupQueue := (c.backupQueue.insert cmd r).1 }, none)

/-- What a response is counted under. -/
def key (r : ResponseArgs) : String := r.res ++ "-" ++ toString r.seq

/-- Whether some response completes a group of more than `f` replicas, with those before it. -/
def reached (f : ℕ) (seen : List ResponseArgs) : List ResponseArgs → Bool
  | [] => false
  | r :: rs =>
    let count := ((r :: seen).filter fun r' => key r' = key r).map ResponseArgs.rid
    if f < count.length ∧ f < count.dedup.length then true else reached f (r :: seen) rs

/-- Moves requests from the backup queue to the request queue while there is room. -/
def updateQueue : ℕ → Client → Except Client Client
  | 0, c => .ok c
  | k + 1, c =>
    match c.backupQueue.getMin with
    | none => .ok c
    | some (cmd, elem) =>
      if c.reqQueue.length ≤ outstanding then
        match elem with
        | none => .error c
        | some r =>
          updateQueue k { c with
            backupQueue := c.backupQueue.extractMin.1
            reqQueue := (c.reqQueue.insert cmd r).1
            retry := c.retry ++ [r] }
      else .ok c

/-- The request of the entry is complete, with the values of the last response. -/
def complete (r : ℕ) (args : ResponseArgs) : Except Client Client :=
  let c := c.setEntry r { c.heap r with apply := true }
  match (c.heap r).req with
  | none => .error c
  | some req =>
    match c.reqQueue.remove req.op with
    | (_, false) => .error c
    | (queue, true) => do
      let c ← updateQueue c.backupQueue.length { c with reqQueue := queue }
      .ok (c.notifyResult args.res args.auxiliary args.seq none)

/-- What `Response` does with the entry under reference `r`, unless that is complete already. -/
def countResponse (r : ℕ) (args : ResponseArgs) : Except Client Client :=
  if (c.heap r).apply then .ok c
  else
    let res := (c.heap r).res ++ [args]
    let c := c.setEntry r { c.heap r with res := res }
    if c.f < res.length ∧ reached c.f [] res then c.complete r args else .ok c

def response (args : ResponseArgs) : Except Client Client :=
  match c.log.lookup args.res with
  | none => .ok c
  | some r =>
    let c := { c with view := max args.view c.view }
    (c.setEntry r { c.heap r with t := false }).countResponse r args

/-- Sends the request to the leader at first, later to all replicas, until it is complete. -/
def sendRequest (r : ℕ) : Client :=
  let ent := c.heap r
  if ent.apply then c.setEntry r { ent with t := false }
  else
    let c := c.setEntry r { ent with t := true, ft := false }
    let targets :=
      if ent.ft then [c.view.tmod c.replicas.length] else (List.range c.replicas.length).map Int.ofNat
    { c with sent := (ent.req.toList.flatMap fun req => targets.map (Prod.mk req)) ++ c.sent }

def step : ClientInput → Except Client Client
  | .start cmd timestamp canOpSuccess =>
    match c.startInternal cmd timestamp canOpSuccess with
    | (c, some err) => .ok (c.notifyResult cmd "" (-1) (some err))
    | (c, none) => .ok c
  | .response args => c.response args
  | .retry k =>
    match c.retry[k]? with
    | some r => .ok ({ c with retry := c.retry.eraseIdx k }.sendRequest r)
    | none => .ok c
  | .timeout r =>
    if (c.heap r).t then .ok { c.setEntry r { c.heap r with t := false } with retry := c.retry ++ [r] } else .ok c
  | .take => .ok { c with apply := c.apply.tail }

variable {c} {c' : Client}

/-- Moving requests between the queues changes nothing else. -/
theorem updateQueue_frame {k : ℕ} (h : updateQueue k c = .ok c') :
    ∃ reqQueue backupQueue retry,
      c' = { c with reqQueue := reqQueue, backupQueue := backupQueue, retry := retry } := by
  induction k generalizing c with
  | zero =>
    obtain rfl := Except.ok.inj h
    exact ⟨_, _, _, rfl⟩
  | succ k ih =>
    unfold updateQueue at h
    split at h
    · obtain rfl := Except.ok.inj h
      exact ⟨_, _, _, rfl⟩
    · split_ifs at h
      · split at h
        · nomatch h
        · obtain ⟨reqQueue, backupQueue, retry, rfl⟩ := ih h
          exact ⟨reqQueue, backupQueue, retry, rfl⟩
      · obtain rfl := Except.ok.inj h
        exact ⟨_, _, _, rfl⟩

/-- A completed request is marked, and its result is the one of the last response. -/
theorem complete_frame {r : ℕ} {args : ResponseArgs} (h : c.complete r args = .ok c') :
    ∃ reqQueue backupQueue retry,
      c' = notifyResult
        { c.setEntry r { c.heap r with apply := true } with
          reqQueue := reqQueue, backupQueue := backupQueue, retry := retry }
        args.res args.auxiliary args.seq none := by
  unfold complete at h
  simp only [] at h
  split at h
  · nomatch h
  · split at h
    · nomatch h
    · obtain ⟨c₁, hq, hc⟩ := bind_eq_ok.mp h
      obtain ⟨reqQueue, backupQueue, retry, rfl⟩ := updateQueue_frame hq
      obtain rfl := Except.ok.inj hc
      exact ⟨reqQueue, backupQueue, retry, rfl⟩

end Client

end DistributedNotary.Pbft
