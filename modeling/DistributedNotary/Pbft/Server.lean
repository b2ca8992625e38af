import DistributedNotary.Pbft.Message
import DistributedNotary.Pbft.Queues
import Mathlib.Logic.Function.Basic

/-! A replica of the protocol. A handler takes the state of the server to its
state afterwards; it ends in an error, with the state it has reached, where the
source panics. An error that a handler returns is only logged, so the handler
ends normally. A message that goes out, a call of `UpdateSeq` and every change
of the view is noted in the trace of the server, latest first. -/
namespace DistributedNotary.Pbft

open Library

def checkpointDiv : ℤ := 100

/-- How a call of the service fails. -/
inductive Fault where
  | error (text : String)
  | panic (text : String)
  deriving DecidableEq

/-- The service behind the protocol; `A` is the state that it keeps. -/
structure PBFTAuxiliary (A : Type) where
  updateSeq (a : A) (seq : ℤ) (op auxiliary : String) : Except A A
  getOpAuxiliary (a : A) (op : String) (view : ℤ) : A × Except Fault String
  prepareSeq (a : A) (view seq : ℤ) (op auxiliary : String) : A × Except Fault Unit
  commitSeq (a : A) (view seq : ℤ) (op auxiliary : String) : A × Except Fault Unit

/-- Every server calls a service of its own, of which `S` does not change. -/
def PBFTAuxiliary.each {S A : Type} (as : S → PBFTAuxiliary A) : PBFTAuxiliary (S × A) where
  updateSeq a seq op auxiliary :=
    (((as a.1).updateSeq a.2 seq op auxiliary).map (Prod.mk a.1)).mapError (Prod.mk a.1)
  getOpAuxiliary a op view := ((as a.1).getOpAuxiliary a.2 op view).map (Prod.mk a.1) id
  prepareSeq a view seq op auxiliary := ((as a.1).prepareSeq a.2 view seq op auxiliary).map (Prod.mk a.1) id
  commitSeq a view seq op auxiliary := ((as a.1).commitSeq a.2 view seq op auxiliary).map (Prod.mk a.1) id

/-- An executed operation or a checkpoint in the history of a replica. -/
structure PbftHistory where
  seq : ℤ
  digest : String
  isCheckPoint : Bool
  deriving DecidableEq

/-- The hash functions and the service of the servers. -/
structure Env (A : Type) where
  as : PBFTAuxiliary A
  digest : String → String
  digestStates : List PbftHistory → String
  digest2 : String → String → String

structure EntryID where
  v : ℤ
  n : ℤ
  deriving DecidableEq

/-- What a replica knows about one number of one view; `id` is where the entry was created. -/
structure Entry where
  id : EntryID
  pp : Option PrePrepareArgs := none
  p : List PrepareArgs := []
  sendCommit : Bool := false
  c : List CommitArgs := []
  sendReply : Bool := false
  r : Option ResponseArgs := none

/-- A committed request that waits for its turn; `ent` refers to its entry. -/
structure PendingTask where
  seq : ℤ
  dgt : String
  ent : ℕ
  args : CommitArgs

structure CheckPoint where
  seq : ℤ
  stable : Bool := false
  digest : String := ""
  view : ℤ := 0
  proof : List CheckPointArgs := []

/-- What others can observe of a server, and how its view moves. -/
inductive Event where
  | send (msg : Msg)
  | updateSeq (view seq : ℤ) (op auxiliary : String)
  | stable (proof : CheckPointArgs) (votes : List CheckPointArgs)
  | adoptView (view : ℤ)
  | enterView (view : ℤ) (v : List ViewChangeArgs)
  deriving DecidableEq

/-- The order in which the loops of one call visit the maps of the server. -/
structure Orders where
  cps : Range ℤ
  log : Range EntryID

/-- The state of `Server`. Entries are shared between `log` and the pending tasks, so they are kept
under references. `armed` counts the timers whose message was not handled yet, and `background` holds
the prepare messages that the goroutines of `enteringNewView` still have to send. -/
structure Server (A : Type) where
  id : ℤ
  replicas : List ℤ
  f : ℕ
  as : A
  tSeq : ℤ
  seqmap : RangeMap String ℤ := ∅
  view : ℤ := 0
  apply : ℤ
  log : RangeMap EntryID ℕ := ∅
  heap : ℕ → Entry := fun _ => { id := ⟨0, 0⟩ }
  next : ℕ := 0
  cps : RangeMap ℤ CheckPoint
  h : ℤ
  H : ℤ
  monitor : Bool := false
  change : Bool := false
  changing : Bool := false
  myViewChangeCount : ℕ := 0
  state : List PbftHistory
  applyQueue : PriorityQueue PendingTask := {}
  vcs : RangeMap ℤ (List ViewChangeArgs) := ∅
  lastcp : ℤ := -1
  armed : ℕ := 0
  background : List (List PrepareArgs) := []
  trace : List Event := []

/-- Runs of code that may panic, which leaves the server as it is at that point. -/
abbrev Run (A : Type) : Type → Type := Except (Server A)

/-- What a server does when it has no service: every operation is fine, and its digest is the auxiliary. -/
def PBFTAuxiliary.absent (digest : String → String) : PBFTAuxiliary Unit where
  updateSeq a _ _ _ := .ok a
  getOpAuxiliary a op _ := (a, .ok (digest op))
  prepareSeq a _ _ _ _ := (a, .ok ())
  commitSeq a _ _ _ _ := (a, .ok ())

namespace Server

variable {A : Type} (env : Env A) (s : Server A)

def invalidState (env : Env A) : PbftHistory := { seq := -1, digest := env.digest "", isCheckPoint := false }

/-- The server that `NewPBFTServer` builds. -/
def new (env : Env A) (rid : ℤ) (f : ℕ) (initSeq : ℤ) (nodes : List ℤ) (as : A) : Server A where
  id := rid
  replicas := nodes
  f := f
  as := as
  tSeq := initSeq
  apply := initSeq - 1
  cps := AList.singleton (-1) { seq := -1, stable := true, digest := (invalidState env).digest }
  h := initSeq
  H := initSeq + 2 * checkpointDiv
  state := [invalidState env]

def note (e : Event) : Server A := { s with trace := e :: s.trace }

/-- Sends a message to the other replicas, or to a client. -/
def send (msg : Msg) : Server A := s.note (.send msg)

/-- `time.AfterFunc`, or a message of the internal timer put in the channel at once. -/
def arm : Server A := { s with armed := s.armed + 1 }

def stopTimer : Server A := { s with change := false, monitor := false, myViewChangeCount := 0 }

def isLeader : Bool := s.view.tmod s.replicas.length = s.id

/-- The check of the view and of the two bounds. -/
def inWindow (view seq : ℤ) : Bool := s.view = view ∧ s.h ≤ seq ∧ seq < s.H

/-- A new entry under `id`. -/
def alloc (id : EntryID) (ent : Entry) : Server A :=
  { s with
    log := s.log.insert id s.next
    heap := Function.update s.heap s.next ent
    next := s.next + 1 }

def getEntry (id : EntryID) : Server A × ℕ :=
  match s.log.lookup id with
  | some r => (s, r)
  | none => (s.alloc id { id := id }, s.next)

def setEntry (r : ℕ) (ent : Entry) : Server A := { s with heap := Function.update s.heap r ent }

def getState (seq : ℤ) : PbftHistory := (s.state.find? fun state => state.seq = seq).getD (invalidState env)

/-- The histories from the first one in `[lo, hi)` on, none if that is the last history. -/
def getStateRange (lo hi : ℤ) : List PbftHistory :=
  let i := s.state.findIdx fun state => lo ≤ state.seq ∧ state.seq < hi
  if s.state.length ≤ i + 1 then [] else (s.state.drop i).take (hi - lo).toNat

/-- The histories after the first one with number `seq`, all of them if a later number comes before it. -/
def removeOldState (seq : ℤ) (states : List PbftHistory) : List PbftHistory :=
  let findex := states.findIdx fun state => seq ≤ state.seq
  match states[findex]? with
  | some state => if state.seq = seq then states.drop (findex + 1) else states
  | none => states

def removeOldCheckPoint (seq : ℤ) (cps : RangeMap ℤ CheckPoint) : RangeMap ℤ CheckPoint :=
  cps.filter fun _ cp => ¬ cp.seq < seq

def removeOldLog (seq : ℤ) (log : RangeMap EntryID ℕ) : RangeMap EntryID ℕ := log.filter fun k _ => ¬ k.n < seq

def removeOldViewChange (view : ℤ) (vcs : RangeMap ℤ (List ViewChangeArgs)) : RangeMap ℤ (List ViewChangeArgs) :=
  vcs.filter fun k _ => ¬ k < view

def removeOldSeqMap (seq : ℤ) (seqmap : RangeMap String ℤ) : RangeMap String ℤ :=
  seqmap.filter fun _ v => ¬ v ≤ seq

/-- The stable checkpoint that the loop over the checkpoints meets first. -/
def getStableCheckPoint (order : Range ℤ) : Option CheckPoint :=
  ((s.cps.range order).map Prod.snd).find? CheckPoint.stable

/-- A stable checkpoint with a later number. -/
def hasLaterStable (seq : ℤ) : Bool := (s.cps.range (Range.id ℤ)).any fun kv => seq < kv.1 ∧ kv.2.stable

def setCheckPoint (key : ℤ) (cp : CheckPoint) : Server A := { s with cps := s.cps.insert key cp }

/-- The digest of the histories up to `seq`; a number below zero keeps the digest that is there. -/
def checkPointDigest (seq : ℤ) (digest : String) : Option String :=
  if seq < 0 then some digest
  else if seq = 0 then some (env.digest2 (s.getState env (seq - 1)).digest (s.getState env seq).digest)
  else if checkpointDiv ≤ seq ∧ seq.tmod checkpointDiv = 0 then
    let opDigest := env.digestStates (s.getStateRange (seq - checkpointDiv + 1) (seq + 1))
    some (env.digest2 (s.getState env (seq - checkpointDiv)).digest opDigest)
  else none

/-- The checkpoint `seq` with its digest computed again; none where a later one is stable. -/
def getCheckPoint (seq : ℤ) : Run A (Server A × Option CheckPoint) :=
  let found := s.cps.lookup seq
  if found.isNone ∧ s.hasLaterStable seq then .ok (s, none)
  else
    let cp := found.getD { seq := seq }
    match s.checkPointDigest env seq cp.digest with
    | none => .error (s.setCheckPoint seq cp)
    | some digest =>
      let cp := { cp with digest := digest }
      .ok (s.setCheckPoint seq cp, some cp)

/-- Whether more than `2f` replicas sent a prepare message that matches the preprepare message. -/
def prepared (ent : Entry) : Bool :=
  match ent.pp with
  | none => false
  | some pp =>
    let valid := ent.p.filter fun p => p.view = pp.view ∧ p.seq = pp.seq ∧ p.digest = pp.digest
    2 * s.f < ent.p.length ∧ 2 * s.f < (valid.map PrepareArgs.rid).dedup.length

def committed (ent : Entry) : Bool :=
  match ent.pp with
  | none => false
  | some pp =>
    let valid := ent.c.filter fun c => c.view = pp.view ∧ c.seq = pp.seq ∧ c.digest = pp.digest
    2 * s.f < ent.c.length ∧ 2 * s.f < (valid.map CommitArgs.rid).dedup.length

/-- Whether a vote with this digest is about the preprepare message of the entry. -/
def matchesPP (ent : Entry) (digest : String) : Bool :=
  match ent.pp with
  | none => true
  | some pp => pp.digest = digest

def reply (ent : Entry) : Server A :=
  match ent.r with
  | some r => s.send (.response r)
  | none => s

/-- The answer to a task is kept in its entry, and `UpdateSeq` is called. -/
def answer (pt : PendingTask) (pp : PrePrepareArgs) : Server A :=
  let ent := s.heap pt.ent
  let r := ent.r.getD
    { view := pt.args.view, seq := pt.seq, cid := pp.message.id, rid := s.id, res := pp.message.op,
      auxiliary := pp.digest }
  { s with
    heap := Function.update s.heap pt.ent { ent with r := some r }
    trace := .updateSeq pt.args.view pt.seq pp.message.op pp.digest :: s.trace }

def replyByPendingTask (pt : PendingTask) : Run A (Server A) :=
  match (s.heap pt.ent).pp with
  | none => .error s
  | some pp =>
    let s := s.answer pt pp
    match env.as.updateSeq s.as pt.seq pp.message.op pp.digest with
    | .error as => .error { s with as := as }
    | .ok as => .ok ({ s with as := as }.reply (s.heap pt.ent))

/-- Answers the tasks up to `seq` without executing them in turn. -/
def replyUpTo (seq : ℤ) : ℕ → Server A → Run A (Server A)
  | 0, s => .ok s
  | k + 1, s =>
    match s.applyQueue.extractMin with
    | (_, none) => .ok s
    | (queue, some m) =>
      if m.pri ≤ seq then do
        let s ← { s with applyQueue := queue }.replyByPendingTask env m.c
        replyUpTo seq k s
      else .ok s

/-- The server goes on in a later view, with its timer stopped. -/
def resumeIn (view : ℤ) : Server A :=
  { s with
    view := view
    changing := false
    change := false
    monitor := false
    myViewChangeCount := 0
    trace := .adoptView view :: s.trace }

/-- Takes over the view of the proof where that is later. -/
def adoptView (proof : CheckPointArgs) : Server A := if s.view < proof.view then s.resumeIn proof.view else s

/-- The checkpoint `cp` under `key` is stable: what it covers is dropped, and the bounds move. -/
def settle (key : ℤ) (cp : CheckPoint) (proof : CheckPointArgs) : Server A :=
  { s with
    cps := removeOldCheckPoint cp.seq (s.cps.insert key { cp with stable := true, digest := proof.digest })
    apply := if s.apply < proof.seq then cp.seq else s.apply
    log := removeOldLog cp.seq s.log
    state := { seq := proof.seq, digest := proof.digest, isCheckPoint := true } :: removeOldState cp.seq s.state
    seqmap := removeOldSeqMap (cp.seq - 2 * checkpointDiv) s.seqmap
    h := cp.seq
    H := cp.seq + 2 * checkpointDiv }

/-- Makes `cp`, the checkpoint under `key`, the stable one. -/
def stablizeCP (key : ℤ) (cp : CheckPoint) (proof : CheckPointArgs) : Run A (Server A) := do
  let s := (s.adoptView proof).settle key cp proof
  let s ← replyUpTo env cp.seq s.applyQueue.length s
  .ok { s with lastcp := cp.seq }

/-- The first vote at which its digest and its view each have more than `2f` votes, its own and
those before it. -/
def quorumVote (f : ℕ) (seen : List CheckPointArgs) : List CheckPointArgs → Option CheckPointArgs
  | [] => none
  | vote :: votes =>
    let seen := vote :: seen
    if 2 * f < seen.countP (fun v => v.digest = vote.digest) ∧ 2 * f < seen.countP (fun v => v.view = vote.view) then
      some vote
    else quorumVote f seen votes

/-- What `CheckPoint` does with the votes for the checkpoint `cp` under `key`. -/
def countVotes (key : ℤ) (cp : CheckPoint) : Run A (Server A) :=
  match if 2 * s.f < cp.proof.length then quorumVote s.f [] cp.proof else none with
  | none => .ok s
  | some proof => (s.note (.stable proof cp.proof)).stablizeCP env key cp proof

def checkPoint (args : CheckPointArgs) : Run A (Server A) :=
  if args.seq.tmod checkpointDiv ≠ 0 then .ok s
  else do
    let (s, found) ← s.getCheckPoint env args.seq
    match found with
    | none => .ok s
    | some cp =>
      if cp.stable then .ok s
      else
        let cp := { cp with proof := cp.proof ++ [args] }
        (s.setCheckPoint args.seq cp).countVotes env args.seq cp

def startCheckPoint (n : ℤ) : Run A (Server A) := do
  let (s, found) ← s.getCheckPoint env n
  match found with
  | none => .ok s
  | some cp =>
    let s := s.setCheckPoint n { cp with seq := n, stable := false }
    let cpArgs : CheckPointArgs := { seq := n, digest := cp.digest, rid := s.id, view := s.view }
    (s.send (.checkPoint cpArgs)).checkPoint env cpArgs

/-- The task `m` has its turn; an empty request leaves no history. -/
def takeTurn (queue : PriorityQueue PendingTask) (m : PQElem PendingTask) : Server A :=
  let op := ((s.heap m.c.ent).pp.map fun pp => pp.message.op).getD ""
  { s with
    apply := s.apply + 1
    state := if m.c.dgt ≠ "" then s.state ++ [{ seq := m.c.seq, digest := op, isCheckPoint := false }] else s.state
    applyQueue := queue }

/-- The loop of `execute`: runs the tasks whose turn has come. -/
def applyLoop : ℕ → Server A → Run A (Server A)
  | 0, s => .ok s
  | k + 1, s =>
    match s.applyQueue.extractMin with
    | (_, none) => .ok s
    | (queue, some m) =>
      if s.apply + 1 = m.pri then do
        let s ← (s.takeTurn queue m).replyByPendingTask env m.c
        let s ← if s.apply.tmod checkpointDiv = 0 then s.startCheckPoint env s.apply else .ok s
        applyLoop k s
      else if m.pri < s.apply + 1 then .error s
      else .ok s

/-- Queues the entry under reference `r` and executes what has its turn. -/
def execute (seq : ℤ) (r : ℕ) (args : CommitArgs) : Run A (Server A) :=
  if seq ≤ s.apply then .ok s
  else
    match s.applyQueue.insert { pri := seq, c := { seq := seq, dgt := args.digest, ent := r, args := args } } with
    | (_, false) => .error s
    | (queue, true) =>
      let s := { s with applyQueue := queue }
      let s := s.setEntry r { s.heap r with sendReply := true }
      applyLoop env s.applyQueue.length s

/-- What `Commit` does with the entry under reference `r`. -/
def commitEntry (args : CommitArgs) (r : ℕ) : Run A (Server A) :=
  let ent := s.heap r
  if matchesPP ent args.digest then
    let ent := { ent with c := ent.c ++ [args] }
    let s := s.setEntry r ent
    if ¬ ent.sendReply ∧ ent.sendCommit ∧ s.committed ent then s.execute env args.seq r args else .ok s
  else .ok s

def commit (args : CommitArgs) : Run A (Server A) :=
  if s.changing then .ok s
  else
    let s := s.stopTimer
    if s.inWindow args.view args.seq then
      let (s, r) := s.getEntry ⟨args.view, args.seq⟩
      s.commitEntry env args r
    else .ok s

/-- What `Prepare` does once the entry is prepared: asks the auxiliary and sends the commit message. -/
def sendCommit (args : PrepareArgs) (r : ℕ) (pp : PrePrepareArgs) : Run A (Server A) :=
  match env.as.commitSeq s.as s.view pp.seq pp.message.op pp.digest with
  | (as, .error (.panic _)) => .error { s with as := as }
  | (as, .error (.error _)) => .ok { s with as := as }.arm
  | (as, .ok _) => do
    let s := { s with as := as, seqmap := AList.insert pp.message.op args.seq s.seqmap }
    let cArgs : CommitArgs := { view := args.view, seq := pp.seq, digest := pp.digest, rid := s.id }
    let s ← (s.send (.commit cArgs)).commit env cArgs
    .ok (s.setEntry r { s.heap r with sendCommit := true })

def prepareEntry (args : PrepareArgs) (r : ℕ) : Run A (Server A) :=
  let ent := s.heap r
  if matchesPP ent args.digest then
    let ent := { ent with p := ent.p ++ [args] }
    let s := s.setEntry r ent
    match ent.pp with
    | none => .ok s
    | some pp => if ¬ ent.sendCommit ∧ s.prepared ent then s.sendCommit env args r pp else .ok s
  else .ok s

def prepare (args : PrepareArgs) : Run A (Server A) :=
  if s.changing then .ok s
  else
    let s := s.stopTimer
    if s.inWindow args.view args.seq then
      let (s, r) := s.getEntry ⟨args.view, args.seq⟩
      s.prepareEntry env args r
    else .ok s

/-- Whether the entry has no preprepare message yet, or the same one. -/
def accepts (ent : Entry) (args : PrePrepareArgs) : Bool :=
  match ent.pp with
  | none => true
  | some pp => pp.digest = args.digest ∧ pp.seq = args.seq

def prePrepareEntry (args : PrePrepareArgs) (r : ℕ) : Run A (Server A) :=
  let ent := s.heap r
  if accepts ent args then
    let pArgs : PrepareArgs := { view := args.view, seq := args.seq, digest := args.digest, rid := s.id }
    let s := s.setEntry r { ent with pp := some args }
    (s.send (.prepare pArgs)).prepare env pArgs
  else .ok s

/-- What `PrePrepare` does once the auxiliary has agreed. -/
def acceptPrePrepare (args : PrePrepareArgs) : Run A (Server A) :=
  let s := s.stopTimer
  if s.inWindow args.view args.seq then
    let (s, r) := s.getEntry ⟨args.view, args.seq⟩
    s.prePrepareEntry env args r
  else .ok s

def prePrepare (args : PrePrepareArgs) : Run A (Server A) :=
  if s.changing then .ok s
  else
    match env.as.prepareSeq s.as args.view args.seq args.message.op args.digest with
    | (as, .error (.panic _)) => .error { s with as := as }
    | (as, .error (.error _)) => .ok { s with as := as }
    | (as, .ok _) => { s with as := as }.acceptPrePrepare env args

/-- A new operation gets the next number. -/
def propose (args : RequestArgs) : Run A (Server A) :=
  if s.H ≤ s.tSeq then .ok s
  else
    match env.as.getOpAuxiliary s.as args.op s.id with
    | (as, .error (.panic _)) => .error { s with as := as }
    | (as, .error (.error _)) => .ok { s with as := as }
    | (as, .ok digest) =>
      let ppArgs : PrePrepareArgs := { view := s.view, seq := s.tSeq, digest := digest, message := args }
      let s := { s with as := as, seqmap := AList.insert args.op s.tSeq s.seqmap, tSeq := s.tSeq + 1 }
      (s.send (.prePrepare ppArgs)).prePrepare env ppArgs

def reproposeEntry (r : ℕ) : Run A (Server A) :=
  let ent := s.heap r
  match ent.pp with
  | none => .ok s
  | some pp =>
    if pp.digest = "" then .ok s
    else if ent.sendReply then .ok (s.reply ent)
    else (s.send (.prePrepare pp)).prePrepare env pp

/-- An operation that has the number `gseq` already is answered, or proposed again. -/
def repropose (gseq : ℤ) : Run A (Server A) :=
  if gseq ≤ s.lastcp then .ok s
  else
    let (s, r) := s.getEntry ⟨s.view, gseq⟩
    s.reproposeEntry env r

def handleRequestLeader (args : RequestArgs) : Run A (Server A) :=
  match s.seqmap.lookup args.op with
  | none => s.propose env args
  | some gseq => s.repropose env gseq

/-- Relays the request to the leader and waits for it. -/
def handleRequestFollower (args : RequestArgs) : Server A :=
  if s.monitor then s else ({ s with monitor := true, change := true }.arm).send (.request args)

def request (args : RequestArgs) : Run A (Server A) :=
  if s.changing then .ok s
  else if s.isLeader then s.handleRequestLeader env args
  else .ok (s.handleRequestFollower args)

/-- The smallest and the largest number of the view changes and the last preprepare message for each
number; none where a view change lacks its checkpoint or a preprepare message. -/
def calcMinMaxspp (v : List ViewChangeArgs) : Option (ℤ × ℤ × RangeMap ℤ PrePrepareArgs) := do
  let cps ← v.mapM ViewChangeArgs.cp
  let pps ← (v.flatMap ViewChangeArgs.p).mapM Pm.pp
  let mins := (cps.map CheckPointArgs.seq).foldl max (-1)
  let maxs := (pps.map PrePrepareArgs.seq).foldl max (-1)
  return (mins, max maxs mins, pps.foldl (fun m pp => AList.insert pp.seq pp m) ∅)

/-- One preprepare message for each number above `mins` up to `maxs`, an empty one where none is known. The source
counts in an `int`, which never comes past the largest one: see `calcPPSWithin`. -/
def calcPPS (view mins maxs : ℤ) (pprepared : RangeMap ℤ PrePrepareArgs) : List PrePrepareArgs :=
  (List.range (maxs - mins).toNat).map fun j : ℕ =>
    let i := mins + 1 + (j : ℤ)
    match pprepared.lookup i with
    | some pp => { view := view, seq := i, digest := pp.digest, message := pp.message }
    | none => { view := view, seq := i, digest := "" }

/-- Takes over the preprepare messages of the new view. -/
def takeOver (view : ℤ) : List PrePrepareArgs → Server A → Server A
  | [], s => s
  | pp :: pps, s =>
    let s := { s with seqmap := AList.insert pp.message.op pp.seq s.seqmap }
    let (s, r) := s.getEntry ⟨view, pp.seq⟩
    takeOver view pps (s.setEntry r { s.heap r with pp := some pp })

/-- Catches up with the checkpoint `mins` of the view changes where the own one is older. -/
def catchUp (order : Range ℤ) (v : List ViewChangeArgs) (mins : ℤ) : Run A (Server A) :=
  match s.getStableCheckPoint order with
  | none => .error s
  | some scp =>
    if scp.seq < mins then
      match v.findSome? fun vc => vc.cp.filter fun cp => cp.seq = mins with
      | none => .error s
      | some cp2 =>
        let cp : CheckPoint := { seq := cp2.seq, stable := true, digest := cp2.digest, view := cp2.view }
        (s.setCheckPoint mins cp).stablizeCP env mins cp
          { seq := cp.seq, rid := s.id, digest := cp.digest, view := s.view }
    else .ok s

/-- The last steps of `enteringNewView`: the view is raised, older entries and view changes are dropped, and a
goroutine starts to broadcast the prepare messages `ps`. -/
def enterView (view mins : ℤ) (v : List ViewChangeArgs) (ps : List PrepareArgs) : Server A :=
  { s with
    view := view
    log := removeOldLog mins s.log
    changing := false
    change := false
    monitor := false
    myViewChangeCount := 0
    background := s.background ++ [ps]
    vcs := removeOldViewChange view s.vcs
    trace := .enterView view v :: s.trace }

def enteringNewView (order : Range ℤ) (nvArgs : NewViewArgs) (mins maxs : ℤ) (pps : List PrePrepareArgs) :
    Run A (Server A) := do
  let s ← s.catchUp env order nvArgs.v mins
  let s := takeOver nvArgs.view pps { s with tSeq := maxs + 1 }
  let ps : List PrepareArgs := pps.map fun pp =>
    { view := nvArgs.view, seq := pp.seq, digest := pp.digest, rid := s.id }
  .ok (s.enterView nvArgs.view mins nvArgs.v ps)

def viewChange (order : Range ℤ) (args : ViewChangeArgs) : Run A (Server A) :=
  if args.view ≤ s.view then .ok s
  else
    let v := (s.vcs.lookup args.view).getD [] ++ [args]
    let s := { s with vcs := s.vcs.insert args.view v }
    if args.view.tmod s.replicas.length = s.id ∧ 2 * s.f + 1 ≤ v.length then
      match calcMinMaxspp v with
      | none => .error s
      | some (mins, maxs, pprepared) =>
        let pps := calcPPS args.view mins maxs pprepared
        let nvArgs : NewViewArgs := { view := args.view, v := v, o := pps }
        (s.send (.newView nvArgs)).enteringNewView env order nvArgs mins maxs pps
    else .ok s

/-- The comparison of the own messages with those of the leader; none where the leader's run out. -/
def sameO : List PrePrepareArgs → List PrePrepareArgs → Option Bool
  | [], _ => some true
  | _ :: _, [] => none
  | pp :: pps, o :: os =>
    if pp.view ≠ o.view ∨ pp.seq ≠ o.seq ∨ pp.digest ≠ o.digest then some false else sameO pps os

def newView (order : Range ℤ) (args : NewViewArgs) : Run A (Server A) :=
  if args.view ≤ s.view then .ok s
  else
    let vcs := ((args.v.filter fun vc => vc.view = args.view).map ViewChangeArgs.rid).dedup
    if vcs.length ≤ 2 * s.f then .ok s
    else
      match calcMinMaxspp args.v with
      | none => .error s
      | some (mins, maxs, pprepared) =>
        let pps := calcPPS args.view mins maxs pprepared
        match sameO pps args.o with
        | none => .error s
        | some false => .ok s
        | some true => s.enteringNewView env order args mins maxs pps

/-- The view change message: the stable checkpoint and every later entry that is prepared. -/
def generateViewChange (order : Range EntryID) (cp : CheckPoint) : ViewChangeArgs where
  view := s.view + s.myViewChangeCount + 1
  rid := s.id
  cp := some { seq := cp.seq, view := cp.view, rid := s.id, digest := cp.digest }
  p := (s.log.range order).filterMap fun kr =>
    let ent := s.heap kr.2
    if cp.seq < kr.1.n ∧ ent.pp.isSome ∧ (ent.sendCommit ∨ s.prepared ent) then some { pp := ent.pp, p := ent.p }
    else none

/-- The message of the timer, which the server takes from its channel. -/
def handleTimer (orders : Orders) : Run A (Server A) :=
  let s := { s with changing := true }
  match s.getStableCheckPoint orders.cps with
  | none => .error s
  | some cp => do
    let vcArgs := s.generateViewChange orders.log cp
    let s := { s with myViewChangeCount := s.myViewChangeCount + 1 }
    let s ← (s.send (.viewChange vcArgs)).viewChange env orders.cps vcArgs
    .ok { s with change := true, monitor := true }.arm

/-- The goroutine `k` of `enteringNewView` broadcasts its next prepare message. -/
def sendBackground (k : ℕ) : Run A (Server A) :=
  match s.background[k]? with
  | some (p :: ps) => ({ s with background := s.background.set k ps }.send (.prepare p)).prepare env p
  | _ => .ok s

def handleReq (orders : Orders) : Msg → Run A (Server A)
  | .request arg => s.request env arg
  | .prePrepare arg => s.prePrepare env arg
  | .prepare arg => s.prepare env arg
  | .commit arg => s.commit env arg
  | .checkPoint arg => s.checkPoint env arg
  | .viewChange arg => s.viewChange env orders.cps arg
  | .newView arg => s.newView env orders.cps arg
  | .response _ => .error s

end Server

end DistributedNotary.Pbft
