import DistributedNotary.Library.Transition
import DistributedNotary.Pbft.Server
import Mathlib.Data.Finset.Basic

/-! The servers of all notaries and the network between them. A message that a
server has sent may arrive at any other server at any later time, any number of
times or never; so may a message that one of the malicious notaries makes up
under its own name, and a request of a client. -/
namespace DistributedNotary.Pbft

open Library

variable {A : Type}

/-- What makes a server act: a message, its timer, or a goroutine that it has started. -/
inductive Input where
  | message (msg : Msg)
  | timer
  | background (k : ℕ)

/-- Visiting the maps in the order in which they are listed. -/
def Orders.id : Orders := ⟨Range.id ℤ, Range.id EntryID⟩

namespace Server

variable (env : Env A) (s : Server A)

/-- The server has sent the message. -/
def Sent (msg : Msg) : Prop := .send msg ∈ s.trace

instance instDecidableSent (msg : Msg) : Decidable (s.Sent msg) := inferInstanceAs (Decidable (_ ∈ _))

/-- Whether the timer or the goroutine is there. -/
def offers : Input → Prop
  | .message msg => msg.isServerMessage = true
  | .timer => 0 < s.armed
  | .background k => k < s.background.length

instance instDecidableOffers (a : Input) : Decidable (s.offers a) := by
  cases a <;> unfold offers <;> infer_instance

def react (orders : Orders) : Input → Run A (Server A)
  | .message msg => s.handleReq env orders msg
  | .timer => { s with armed := s.armed - 1 }.handleTimer env orders
  | .background k => s.sendBackground env k

/-- The server after it has reacted, or panicked on the way. -/
def after (r : Run A (Server A)) : Server A :=
  match r with
  | .ok s => s
  | .error s => s

/-- The runs of one server from `s₀` on, with what it has reacted to, latest first. Every reaction is
`allowed`; in between the state of the service may change as `ext` says. -/
inductive History (ext : A → A → Prop) (allowed : Server A → Orders → Input → Prop) (s₀ : Server A) :
    List Input → Server A → Prop
  | start : History ext allowed s₀ [] s₀
  | react {l : List Input} {s : Server A} (orders : Orders) (a : Input) (h : History ext allowed s₀ l s)
    (ha : allowed s orders a) : History ext allowed s₀ (a :: l) (after (s.react env orders a))
  | external {l : List Input} {s : Server A} (as : A) (h : History ext allowed s₀ l s) (hext : ext s.as as) :
    History ext allowed s₀ l { s with as := as }

/-- The server after the inputs of a list, the latest first. -/
def reacts : List Input → Server A
  | [] => s
  | a :: l => after ((reacts l).react env .id a)

/-- Whether every input of the list was allowed at its time. -/
def allAllowed (allowed : Server A → Orders → Input → Prop) : List Input → Prop
  | [] => True
  | a :: l => allAllowed allowed l ∧ allowed (s.reacts env l) .id a

instance instDecidableAllAllowed (allowed : Server A → Orders → Input → Prop)
    [hd : ∀ s orders a, Decidable (allowed s orders a)] : ∀ l, Decidable (s.allAllowed env allowed l)
  | [] => instDecidableTrue
  | a :: l => @instDecidableAnd _ _ (instDecidableAllAllowed allowed l) (hd (s.reacts env l) .id a)

theorem history_reacts {ext : A → A → Prop} {allowed : Server A → Orders → Input → Prop} {l : List Input}
    (h : s.allAllowed env allowed l) : History env ext allowed s l (s.reacts env l) := by
  induction l with
  | nil => exact .start
  | cons a l ih => exact .react .id a (ih h.1) h.2

end Server

/-- Servers without a service; the hash of a text is the marked text. -/
def Env.plain : Env Unit where
  as := PBFTAuxiliary.absent fun op => "#" ++ op
  digest op := "#" ++ op
  digestStates states := "#" ++ String.join (states.map PbftHistory.digest)
  digest2 d1 d2 := d1 ++ d2

/-- Where an input comes from: nobody in particular, a client, a notary or a malicious notary. -/
inductive Source where
  | client
  | server (src : ℤ)
  | forger (src : ℤ)

/-- An input of the server `dst`. -/
structure Action where
  src : Source
  dst : ℤ
  input : Input

/-- Only a new view message also goes to the server that sends it. -/
def Msg.isNewView : Msg → Bool
  | .newView _ => true
  | _ => false

/-- The servers by their id; `down` are those that have panicked. -/
structure World (A : Type) where
  servers : ℤ → Server A
  down : ℤ → Bool := fun _ => false

namespace World

variable (env : Env A) (byz : Finset ℤ) (w : World A)

/-- The servers `0` to `n - 1` at the start, each with its own first number and service. -/
def new (n f : ℕ) (initSeq : ℤ → ℕ) (as : ℤ → A) : World A where
  servers i := Server.new env i f (initSeq i) ((List.range n).map Int.ofNat) (as i)

/-- Whether `i` is a notary whose server runs the protocol. -/
def correct (i : ℤ) : Prop := 0 ≤ i ∧ i < (w.servers i).replicas.length ∧ i ∉ byz

instance instDecidableCorrect (i : ℤ) : Decidable (w.correct byz i) := inferInstanceAs (Decidable (_ ∧ _ ∧ _))

/-- Whether a client, a notary or the server itself can cause the action. -/
def allowed (a : Action) : Prop :=
  match a.src, a.input with
  | .client, .message (.request _) => True
  | .server src, .message msg =>
    w.correct byz src ∧ (w.servers src).Sent msg ∧ (src = a.dst → msg.isNewView = true)
  | .forger src, .message msg => src ∈ byz ∧ msg.checkMessageSender src = true
  | .server src, _ => src = a.dst
  | _, _ => False

instance instDecidableAllowed (a : Action) : Decidable (w.allowed byz a) := by
  unfold allowed
  split <;> infer_instance

/-- The world after a server has reacted. -/
def put (i : ℤ) : Run A (Server A) → World A
  | .ok s => { w with servers := Function.update w.servers i s }
  | .error s => { servers := Function.update w.servers i s, down := Function.update w.down i true }

/-- The world after an action, if it is possible. -/
def exec (orders : Orders) (a : Action) : Option (World A) :=
  if w.correct byz a.dst ∧ w.down a.dst = false ∧ (w.servers a.dst).offers a.input ∧ w.allowed byz a then
    some (w.put a.dst ((w.servers a.dst).react env orders a.input))
  else none

/-- One step: an action that is `ok`, or a change that others make to the state of a service. -/
inductive Step (ok : World A → Orders → Action → Prop) (ext : A → A → Prop) : World A → World A → Prop
  | act {w w' : World A} (orders : Orders) (a : Action) (hok : ok w orders a)
    (h : w.exec env byz orders a = some w') : Step ok ext w w'
  | external {w : World A} (i : ℤ) (as : A) (h : ext (w.servers i).as as) :
    Step ok ext w { w with servers := Function.update w.servers i { w.servers i with as := as } }

/-- The worlds of all runs in which every action is `ok`. -/
abbrev Reached (n f : ℕ) (initSeq : ℤ → ℕ) (as : ℤ → A) (ok : World A → Orders → Action → Prop)
    (ext : A → A → Prop) : World A → Prop :=
  Reachable (fun w => w = new env n f initSeq as) (Step env byz ok ext)

/-- The world after a list of actions. -/
def play (as : List Action) : Option (World A) := as.foldlM (fun w a => w.exec env byz Orders.id a) w

end World

end DistributedNotary.Pbft
