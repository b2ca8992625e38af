import Mathlib.Data.Int.Notation

/-! The messages of the protocol. An absent pointer field is `none`; what a
replica or a client is allowed to say under its own name is checked by
`checkMessageSender` before the message is handled. -/
namespace DistributedNotary.Pbft

structure RequestArgs where
  op : String := ""
  id : ℤ := 0
  timestamp : ℤ := 0
  deriving DecidableEq

structure PrePrepareArgs where
  view : ℤ
  seq : ℤ
  digest : String
  message : RequestArgs := {}
  deriving DecidableEq

structure PrepareArgs where
  view : ℤ
  seq : ℤ
  digest : String
  rid : ℤ
  deriving DecidableEq

structure CommitArgs where
  view : ℤ
  seq : ℤ
  digest : String
  rid : ℤ
  deriving DecidableEq

structure CheckPointArgs where
  seq : ℤ
  digest : String
  rid : ℤ
  view : ℤ
  deriving DecidableEq

/-- A preprepare message with the prepare messages that belong to it. -/
structure Pm where
  pp : Option PrePrepareArgs
  p : List PrepareArgs
  deriving DecidableEq

structure ViewChangeArgs where
  view : ℤ
  cp : Option CheckPointArgs
  p : List Pm
  rid : ℤ
  deriving DecidableEq

structure NewViewArgs where
  view : ℤ
  v : List ViewChangeArgs
  o : List PrePrepareArgs
  deriving DecidableEq

structure ResponseArgs where
  view : ℤ
  seq : ℤ
  cid : ℤ
  rid : ℤ
  res : String
  auxiliary : String
  deriving DecidableEq

inductive Msg where
  | request (arg : RequestArgs)
  | prePrepare (arg : PrePrepareArgs)
  | prepare (arg : PrepareArgs)
  | commit (arg : CommitArgs)
  | checkPoint (arg : CheckPointArgs)
  | viewChange (arg : ViewChangeArgs)
  | newView (arg : NewViewArgs)
  | response (arg : ResponseArgs)
  deriving DecidableEq

/-- Whether the message goes to a server; only a response goes to a client. -/
def Msg.isServerMessage : Msg → Bool
  | .response _ => false
  | _ => true

/-- Whether the message may come from the notary `id`. -/
def Msg.checkMessageSender : Msg → ℤ → Bool
  | .request arg, id => arg.id = id
  | .prePrepare arg, id => arg.view = id
  | .prepare arg, id => arg.rid = id
  | .commit arg, id => arg.rid = id
  | .checkPoint arg, id => arg.rid = id
  | .viewChange arg, id => arg.rid = id
  | .newView arg, id => arg.view = id
  | .response arg, id => arg.rid = id

end DistributedNotary.Pbft
