import DistributedNotary.Pbft.Results

/-! The way of a result to its caller. `newNonce` and `newUTXO` leave a channel for their
operation in a map that is never cleaned, start the operation at the client and wait. The
loop of the client drops a result where `Apply` is full, and the loop of the service takes
the results from there to the channels. Each call stands for one token, which no step of
a run makes or loses. -/
namespace DistributedNotary.Service

open Library Pbft

/-- A message for the client, of the process itself or of a peer. -/
inductive ClientMessage where
  | start (cmd : String)
  | response (args : ResponseArgs)

/-- What a call has come to; `c` is its channel, which has room for one result. -/
structure Call where
  started : Bool := false
  c : List OpResult := []
  received : Option OpResult := none

/-- The two loops of a service and its callers. The loop of the service has read the result that it holds, and
`notified` is the list of all results so far. -/
structure OpCalls where
  client : Client
  clientMsg : List ClientMessage := []
  nonces : RangeMap String Call := ∅
  held : Option OpResult := none
  notified : List OpResult := []

inductive CallInput where
  | newNonce (cmd : String)
  | start (cmd : String)
  | peer (m : ClientMessage)
  | call (timestamp : ℤ) (canOpSuccess : Option String)
  | retry (k : ℕ)
  | timeout (r : ℕ)
  | apply
  | forward
  | ignore
  | receive (cmd : String)

/-- The capacity of `clientMsg`. -/
def clientMsgCap : ℕ := 10

/-- The capacity of the channel of a call. -/
def callCap : ℕ := 1

/-- A message as the client handles it. -/
def ClientMessage.input (timestamp : ℤ) (canOpSuccess : Option String) : ClientMessage → ClientInput
  | .start cmd => .start cmd timestamp canOpSuccess
  | .response args => .response args

namespace OpCalls

def setCall (w : OpCalls) (cmd : String) (call : Call) : OpCalls := { w with nonces := w.nonces.insert cmd call }

/-- The client after a step of its loop, and what it has notified. -/
def handled (w : OpCalls) (a : ClientInput) (client : Client) : OpCalls :=
  { w with client := client, notified := w.notified ++ w.client.emits a }

/-- A call for an operation that is in the map fails at once. The loop of the service waits where the channel that it
sends to is full. -/
inductive Step : OpCalls → CallInput → OpCalls → Prop
  | newNonce {w : OpCalls} {cmd : String} (h : w.nonces.lookup cmd = none) : Step w (.newNonce cmd) (w.setCall cmd {})
  | start {w : OpCalls} {cmd : String} {call : Call} (hcall : w.nonces.lookup cmd = some call)
      (h : call.started = false)
    (hroom : w.clientMsg.length < clientMsgCap) :
    Step w (.start cmd) { w.setCall cmd { call with started := true } with clientMsg := w.clientMsg ++ [.start cmd] }
  | peer {w : OpCalls} {m : ClientMessage} (hroom : w.clientMsg.length < clientMsgCap) :
    Step w (.peer m) { w with clientMsg := w.clientMsg ++ [m] }
  | call {w : OpCalls} {m : ClientMessage} {rest : List ClientMessage} {timestamp : ℤ} {canOpSuccess : Option String}
    {client : Client} (hm : w.clientMsg = m :: rest) (h : w.client.step (m.input timestamp canOpSuccess) = .ok client) :
    Step w (.call timestamp canOpSuccess) ({ w with clientMsg := rest }.handled (m.input timestamp canOpSuccess) client)
  | retry {w : OpCalls} {k : ℕ} {client : Client} (h : w.client.step (.retry k) = .ok client) :
    Step w (.retry k) (w.handled (.retry k) client)
  | timeout {w : OpCalls} {r : ℕ} {client : Client} (h : w.client.step (.timeout r) = .ok client) :
    Step w (.timeout r) (w.handled (.timeout r) client)
  | apply {w : OpCalls} {r : OpResult} {rest : List OpResult} (hidle : w.held = none) (h : w.client.apply = r :: rest) :
    Step w .apply { w with client := { w.client with apply := rest }, held := some r }
  | forward {w : OpCalls} {r : OpResult} {call : Call} (hheld : w.held = some r)
      (hcall : w.nonces.lookup r.cmd = some call)
    (hroom : call.c.length < callCap) :
    Step w .forward { w.setCall r.cmd { call with c := call.c ++ [r] } with held := none }
  | ignore {w : OpCalls} {r : OpResult} (hheld : w.held = some r) (hcall : w.nonces.lookup r.cmd = none) :
    Step w .ignore { w with held := none }
  | receive {w : OpCalls} {cmd : String} {call : Call} {r : OpResult} {rest : List OpResult}
    (hcall : w.nonces.lookup cmd = some call) (hwait : call.started = true ∧ call.received = none)
      (h : call.c = r :: rest) :
    Step w (.receive cmd) (w.setCall cmd { call with c := rest, received := some r })

/-- The client has room for what it notifies, and does not complete a request that it has not sent out. -/
def Fits (w : OpCalls) (a : ClientInput) : Prop :=
  (w.client.emits a ≠ [] → w.client.apply.length < outstanding * 10) ∧
    ∀ args, a = .response args → args.res ∈ w.client.backupQueue.q → ¬ w.client.Finishes args

/-- Nobody else starts an operation, and the client is not asked for more than it can do. -/
def Careful (w : OpCalls) : CallInput → Prop
  | .peer (.start _) => False
  | .call timestamp canOpSuccess => ∀ m ∈ w.clientMsg.head?, w.Fits (m.input timestamp canOpSuccess)
  | _ => True

section Runs

variable (cid : ℤ) (f : ℕ) (nodes : List ℤ)

def new : OpCalls where
  client := Client.new cid f nodes

/-- The states of all runs. -/
abbrev Run : OpCalls → Prop := Reachable (fun w => w = new cid f nodes) fun w w' => ∃ a, Step w a w'

/-- The runs whose steps are all careful. -/
abbrev CarefulRun : OpCalls → Prop :=
  Reachable (fun w => w = new cid f nodes) fun w w' => ∃ a, w.Careful a ∧ Step w a w'

end Runs

/-- The loop of the service and the callers go on. -/
def Delivery (w w' : OpCalls) : Prop := ∃ a, (a = .apply ∨ a = .forward ∨ ∃ cmd, a = .receive cmd) ∧ Step w a w'

/-- The call has its start before it, is with the client, or has a result on its way. -/
structure Delivered (w : OpCalls) : Prop where
  /-- A caller has the one result of its operation. -/
  own : ∀ cmd call r, w.nonces.lookup cmd = some call → call.received = some r →
    r.cmd = cmd ∧ w.notified.filter (fun r' => r'.cmd = cmd) = [r]
  /-- No result is lost on the way to its caller. -/
  kept : ∀ r ∈ w.notified, ∃ call, w.nonces.lookup r.cmd = some call ∧
    (r ∈ w.client.apply ∨ w.held = some r ∨ r ∈ call.c ∨ call.received = some r)
  /-- The loop of the service can always go on. -/
  unblocked : ∀ r call, w.held = some r → w.nonces.lookup r.cmd = some call → call.c.length < callCap
  /-- A call without a result is on its way to the client or pending there. -/
  pending : ∀ cmd call, w.nonces.lookup cmd = some call → w.notified.filter (fun r => r.cmd = cmd) = [] →
    call.started = false ∨ .start cmd ∈ w.clientMsg ∨ cmd ∈ w.client.reqQueue.q ++ w.client.backupQueue.q
  /-- The loop of the service and the caller bring it there. -/
  arrives : ∀ r ∈ w.notified, ∃ w' call, Relation.ReflTransGen Delivery w w' ∧ w'.nonces.lookup r.cmd = some call ∧
    call.received = some r

/-! ### The token of a call -/

def isStart (cmd : String) : ClientMessage → Bool
  | .start cmd' => cmd' = cmd
  | .response _ => false

/-- One for a call whose start was not sent yet. -/
def unsent : Option Call → ℕ
  | some call => if call.started then 0 else 1
  | none => 0

/-- The results that a call has got. -/
def got : Option Call → List OpResult
  | some call => call.c ++ call.received.toList
  | none => []

/-- The results of an operation between the client and its caller. -/
def passing (w : OpCalls) (cmd : String) : List OpResult :=
  (w.client.apply ++ w.held.toList).filter fun r => r.cmd = cmd

/-- A call is at one place on its way, and an operation without a call at none; its results are those notified. -/
structure Balanced (w : OpCalls) (cmd : String) : Prop where
  token : unsent (w.nonces.lookup cmd) + w.clientMsg.countP (isStart cmd) + w.client.logged cmd +
    (w.passing cmd).length + (got (w.nonces.lookup cmd)).length = if (w.nonces.lookup cmd).isSome then 1 else 0
  results : (w.passing cmd ++ got (w.nonces.lookup cmd)).Perm (w.notified.filter fun r => r.cmd = cmd)

structure Inv (w : OpCalls) : Prop where
  tidy : w.client.Tidy
  balanced : ∀ cmd, w.Balanced cmd

section Steps

variable {w w' : OpCalls} {cmd k : String} {call : Call} {r : OpResult}

theorem lookup_setCall (w : OpCalls) (cmd : String) (call : Call) (k : String) :
    (w.setCall cmd call).nonces.lookup k = if k = cmd then some call else w.nonces.lookup k :=
  RangeMap.lookup_insert_eq w.nonces cmd k call

namespace Balanced

theorem le_one (h : w.Balanced cmd) : unsent (w.nonces.lookup cmd) + w.clientMsg.countP (isStart cmd) +
    w.client.logged cmd + (w.passing cmd).length + (got (w.nonces.lookup cmd)).length ≤ 1 := by
  rw [h.token]
  split <;> omega

/-- An operation for which something is under way has a call. -/
theorem exists_call (h : w.Balanced cmd) (hpos : 0 < (w.passing cmd).length) :
    ∃ call, w.nonces.lookup cmd = some call := by
  refine Option.isSome_iff_exists.mp ?_
  by_contra hnone
  have htoken := h.token
  rw [if_neg hnone] at htoken
  omega

/-- The call of an operation moves on; what moves is named by the five parts. -/
theorem move (h : w.Balanced cmd) (hsome : (w'.nonces.lookup cmd).isSome = (w.nonces.lookup cmd).isSome)
    (hnotified : w'.notified = w.notified)
    (hbefore : unsent (w'.nonces.lookup cmd) + w'.clientMsg.countP (isStart cmd) + w'.client.logged cmd =
      unsent (w.nonces.lookup cmd) + w.clientMsg.countP (isStart cmd) + w.client.logged cmd)
    (hresults : (w'.passing cmd ++ got (w'.nonces.lookup cmd)).Perm (w.passing cmd ++ got (w.nonces.lookup cmd))) :
    w'.Balanced cmd where
  token := by
    have hlen := hresults.length_eq
    rw [List.length_append, List.length_append] at hlen
    rw [hsome, ← h.token]
    omega
  results := by
    rw [hnotified]
    exact hresults.trans h.results

end Balanced

namespace Inv

theorem new (cid : ℤ) (f : ℕ) (nodes : List ℤ) : Inv (OpCalls.new cid f nodes) where
  tidy := .new ..
  balanced _ := ⟨rfl, List.Perm.refl _⟩

theorem newNonce (h : Inv w) (hnew : w.nonces.lookup cmd = none) : Inv (w.setCall cmd {}) where
  tidy := h.tidy
  balanced k := by
    have hb := h.balanced k
    by_cases hk : k = cmd
    · subst hk
      have hlookup : (w.setCall k {}).nonces.lookup k = some {} := by rw [lookup_setCall, if_pos rfl]
      have htoken := hb.token
      rw [hnew] at htoken
      refine ⟨?_, ?_⟩
      · rw [hlookup]
        change 1 + w.clientMsg.countP (isStart k) + w.client.logged k + (w.passing k).length + 0 = 1
        change 0 + w.clientMsg.countP (isStart k) + w.client.logged k + (w.passing k).length + 0 = 0 at htoken
        omega
      · have hresults := hb.results
        rw [hnew] at hresults
        rw [hlookup]
        exact hresults
    · have hlookup : (w.setCall cmd {}).nonces.lookup k = w.nonces.lookup k := by rw [lookup_setCall, if_neg hk]
      exact hb.move (by rw [hlookup]) rfl (by rw [hlookup]; rfl) (by rw [hlookup]; exact .refl _)

/-- One call goes on, and the other operations stay where they are. -/
theorem moveCall {call' : Call} (h : Inv w) (hcall : w.nonces.lookup cmd = some call)
    (hnonces : ∀ k, w'.nonces.lookup k = if k = cmd then some call' else w.nonces.lookup k)
    (htidy : w'.client.Tidy) (hnotified : w'.notified = w.notified)
    (hbefore : unsent (some call') + w'.clientMsg.countP (isStart cmd) + w'.client.logged cmd =
      unsent (some call) + w.clientMsg.countP (isStart cmd) + w.client.logged cmd)
    (hresults : (w'.passing cmd ++ got (some call')).Perm (w.passing cmd ++ got (some call)))
    (hothers : ∀ k ≠ cmd, w'.clientMsg.countP (isStart k) = w.clientMsg.countP (isStart k) ∧
      w'.client.logged k = w.client.logged k ∧ w'.passing k = w.passing k) : Inv w' where
  tidy := htidy
  balanced k := by
    have hlookup := hnonces k
    by_cases hk : k = cmd
    · subst hk
      rw [if_pos rfl] at hlookup
      refine (h.balanced k).move ?_ hnotified ?_ ?_
      · rw [hlookup, hcall, Option.isSome_some, Option.isSome_some]
      · rw [hlookup, hcall]
        exact hbefore
      · rw [hlookup, hcall]
        exact hresults
    · rw [if_neg hk] at hlookup
      obtain ⟨hcount, hlogged, hpassing⟩ := hothers k hk
      refine (h.balanced k).move (congrArg Option.isSome hlookup) hnotified ?_ ?_
      · rw [hlookup, hcount, hlogged]
      · rw [hlookup, hpassing]

/-- The start of a call goes to the client. -/
theorem start (h : Inv w) (hcall : w.nonces.lookup cmd = some call) (hunsent : call.started = false) :
    Inv { w.setCall cmd { call with started := true } with clientMsg := w.clientMsg ++ [ClientMessage.start cmd] } := by
  refine h.moveCall hcall (lookup_setCall w cmd _) h.tidy rfl ?_ (.refl _) fun k hk => ⟨?_, rfl, rfl⟩
  · have hcount : (w.clientMsg ++ [ClientMessage.start cmd]).countP (isStart cmd) =
        w.clientMsg.countP (isStart cmd) + 1 := by
      simp [isStart]
    simp only [unsent, hunsent, hcount, if_true, Bool.false_eq_true, if_false]
    change 0 + _ + w.client.logged cmd = _
    omega
  · simp [isStart, Ne.symm hk]

theorem response (h : Inv w) (args : ResponseArgs) :
    Inv { w with clientMsg := w.clientMsg ++ [ClientMessage.response args] } where
  tidy := h.tidy
  balanced k := by
    refine (h.balanced k).move rfl rfl ?_ (.refl _)
    have hcount : (w.clientMsg ++ [ClientMessage.response args]).countP (isStart k) =
        w.clientMsg.countP (isStart k) := by
      simp [isStart]
    rw [hcount]

/-- The loop of the service reads a result. -/
theorem apply {rest : List OpResult} (h : Inv w) (hidle : w.held = none) (hr : w.client.apply = r :: rest) :
    Inv { w with client := { w.client with apply := rest }, held := some r } where
  tidy := h.tidy.setApply rest
  balanced k := by
    refine (h.balanced k).move rfl rfl rfl (List.Perm.append_right _ ?_)
    change ((rest ++ [r]).filter _).Perm ((w.client.apply ++ w.held.toList).filter _)
    rw [hr, hidle, Option.toList_none, List.append_nil]
    exact (List.perm_append_singleton r rest).filter _

/-- It sends the result to the call. -/
theorem forward (h : Inv w) (hheld : w.held = some r) (hcall : w.nonces.lookup r.cmd = some call) :
    Inv { w.setCall r.cmd { call with c := call.c ++ [r] } with held := none } := by
  have hpassing : ∀ k, w.passing k = w.client.apply.filter (fun r => r.cmd = k) ++ [r].filter (fun r => r.cmd = k) :=
    fun k => by rw [passing, hheld, List.filter_append, Option.toList_some]
  have hpassing' : ∀ k, passing { w.setCall r.cmd { call with c := call.c ++ [r] } with held := none } k =
      w.client.apply.filter fun r => r.cmd = k := fun k => congrArg (List.filter _) (List.append_nil _)
  refine h.moveCall hcall (lookup_setCall w r.cmd _) h.tidy rfl rfl ?_ fun k hk => ⟨rfl, rfl, ?_⟩
  · rw [hpassing', hpassing, List.filter_cons_of_pos (by simp), List.filter_nil, List.append_assoc]
    refine List.Perm.append_left _ ?_
    change (call.c ++ [r] ++ call.received.toList).Perm ([r] ++ (call.c ++ call.received.toList))
    rw [← List.append_assoc]
    exact List.perm_append_comm.append_right _
  · rw [hpassing', hpassing, List.filter_cons_of_neg (by simpa using Ne.symm hk), List.filter_nil, List.append_nil]

/-- The caller takes it. -/
theorem receive {rest : List OpResult} (h : Inv w) (hcall : w.nonces.lookup cmd = some call)
    (hwait : call.received = none)
    (hr : call.c = r :: rest) : Inv (w.setCall cmd { call with c := rest, received := some r }) := by
  refine h.moveCall hcall (lookup_setCall w cmd _) h.tidy rfl rfl ?_ fun k _ => ⟨rfl, rfl, rfl⟩
  refine List.Perm.append_left _ ?_
  change (rest ++ [r]).Perm (call.c ++ call.received.toList)
  rw [hr, hwait, Option.toList_none, List.append_nil]
  exact List.perm_append_singleton r rest

theorem passing_pos (hheld : w.held = some r) : 0 < (w.passing r.cmd).length := by
  rw [passing, hheld]
  exact List.length_pos_of_mem (List.mem_filter.mpr ⟨List.mem_append_right _ (List.mem_singleton.mpr rfl), by simp⟩)

/-- A result that the loop of the service holds has a call. -/
theorem call_of_held (h : Inv w) (hheld : w.held = some r) : ∃ call, w.nonces.lookup r.cmd = some call :=
  (h.balanced r.cmd).exists_call (passing_pos hheld)

/-- The client has taken a step that fits; `rest` is what is left of its messages. -/
theorem handled {a : ClientInput} {client : Client} {rest : List ClientMessage} (h : Inv w)
    (hacc : w.client.Accounts a (w.client.emits a) client)
    (hroom : w.client.emits a ≠ [] → w.client.apply.length < outstanding * 10)
    (hstarts : ∀ k, w.clientMsg.countP (isStart k) = rest.countP (isStart k) + if a.starts = some k then 1 else 0) :
    Inv ({ w with clientMsg := rest }.handled a client) where
  tidy := hacc.tidy
  balanced k := by
    have happly : client.apply = w.client.apply ++ w.client.emits a := by
      rw [hacc.apply, Client.offered]
      split
      · rfl
      · next hfull =>
        have hnil : w.client.emits a = [] := by
          by_contra hne
          exact hfull (hroom hne)
        rw [hnil, List.append_nil]
    have hpassing : (passing ({ w with clientMsg := rest }.handled a client) k).Perm
        (w.passing k ++ (w.client.emits a).filter fun r => r.cmd = k) := by
      change ((client.apply ++ w.held.toList).filter _).Perm _
      rw [happly, passing, ← List.filter_append]
      refine List.Perm.filter _ ?_
      rw [List.append_assoc, List.append_assoc]
      exact List.perm_append_comm.append_left _
    have hb := h.balanced k
    refine ⟨?_, ?_⟩
    · have hlen := hpassing.length_eq
      have habout : ((w.client.emits a).filter fun r => r.cmd = k).length = Client.about (w.client.emits a) k :=
        (List.countP_eq_length_filter ..).symm
      have hlogged := hacc.logged k
      have htoken := hb.token
      rw [List.length_append, habout] at hlen
      change unsent (w.nonces.lookup k) + rest.countP (isStart k) + client.logged k + _ +
        (got (w.nonces.lookup k)).length =
        if (w.nonces.lookup k).isSome then 1 else 0
      rw [hlen, ← htoken, hstarts k]
      omega
    · change (_ ++ got (w.nonces.lookup k)).Perm ((w.notified ++ w.client.emits a).filter _)
      rw [List.filter_append]
      refine (hpassing.append_right _).trans ?_
      rw [List.append_assoc]
      refine (List.perm_append_comm.append_left _).trans ?_
      rw [← List.append_assoc]
      exact hb.results.append_right _

/-- The client handles the first of its messages. -/
theorem handle {m : ClientMessage} {rest : List ClientMessage} {timestamp : ℤ} {canOpSuccess : Option String}
    {client : Client} (h : Inv w) (hm : w.clientMsg = m :: rest) (hfits : w.Fits (m.input timestamp canOpSuccess))
    (hstep : w.client.step (m.input timestamp canOpSuccess) = .ok client) :
    Inv ({ w with clientMsg := rest }.handled (m.input timestamp canOpSuccess) client) := by
  have horderly : w.client.Orderly (m.input timestamp canOpSuccess) := by
    cases m with
    | start cmd =>
      have hle := (h.balanced cmd).le_one
      have hcount : w.clientMsg.countP (isStart cmd) = rest.countP (isStart cmd) + 1 := by
        rw [hm, List.countP_cons_of_pos (by simp [isStart])]
      by_contra hlog
      have hlogged : w.client.logged cmd = 1 := by
        rw [Client.logged, if_pos (Option.isSome_iff_ne_none.mpr hlog)]
      omega
    | response args => exact hfits.2 args rfl
  have hne : m.input timestamp canOpSuccess ≠ .take := by cases m <;> simp [ClientMessage.input]
  obtain ⟨client', hacc⟩ := h.tidy.accounts horderly hne
  obtain rfl := Except.ok.inj (hacc.step.symm.trans hstep)
  refine h.handled hacc hfits.1 fun k => ?_
  rw [hm, List.countP_cons]
  cases m with
  | start cmd => simp only [isStart, decide_eq_true_eq, ClientMessage.input, ClientInput.starts, Option.some.injEq]
  | response args => rfl

theorem retry {a : ClientInput} {j : ℕ} {client : Client} (h : Inv w) (ha : a = .retry j ∨ a = .timeout j)
    (hstep : w.client.step a = .ok client) : Inv (w.handled a client) := by
  have horderly : w.client.Orderly a := by rcases ha with rfl | rfl <;> trivial
  have hne : a ≠ .take := by rcases ha with rfl | rfl <;> nofun
  have hstarts : a.starts = none := by rcases ha with rfl | rfl <;> rfl
  obtain ⟨client', hacc⟩ := h.tidy.accounts horderly hne
  obtain rfl := Except.ok.inj (hacc.step.symm.trans hstep)
  refine h.handled hacc (fun hsome => absurd (h.tidy.emits_of_retry ha) hsome) fun k => ?_
  rw [hstarts]
  rfl

theorem step {a : CallInput} (h : Inv w) (hcareful : w.Careful a) (hn : Step w a w') : Inv w' := by
  cases hn with
  | newNonce hnew => exact h.newNonce hnew
  | start hcall hunsent _ => exact h.start hcall hunsent
  | peer =>
    next m _ =>
      cases m with
      | start cmd => exact hcareful.elim
      | response args => exact h.response args
  | call hm hstep => exact h.handle hm (hcareful _ (by rw [hm]; rfl)) hstep
  | retry hstep => exact h.retry (.inl rfl) hstep
  | timeout hstep => exact h.retry (.inr rfl) hstep
  | apply hidle hr => exact h.apply hidle hr
  | forward hheld hcall _ => exact h.forward hheld hcall
  | ignore hheld hnone =>
    obtain ⟨call, hcall⟩ := h.call_of_held hheld
    rw [hnone] at hcall
    cases hcall
  | receive hcall hwait hr => exact h.receive hcall hwait.2 hr

theorem of_run {cid : ℤ} {f : ℕ} {nodes : List ℤ} (h : CarefulRun cid f nodes w) : Inv w :=
  Reachable.invariant (fun _ h0 => h0 ▸ new cid f nodes) (fun _ _ _ hi ⟨_, hcareful, hn⟩ => hi.step hcareful hn) h

/-! ### What follows for the callers -/

theorem unblocked (h : Inv w) (hheld : w.held = some r) (hcall : w.nonces.lookup r.cmd = some call) :
    call.c.length < callCap := by
  have hle := (h.balanced r.cmd).le_one
  have hpos := passing_pos hheld
  rw [hcall, got, List.length_append] at hle
  unfold callCap
  omega

theorem own (h : Inv w) (hcall : w.nonces.lookup cmd = some call) (hr : call.received = some r) :
    r.cmd = cmd ∧ w.notified.filter (fun r' => r'.cmd = cmd) = [r] := by
  have hle := (h.balanced cmd).le_one
  have hresults := (h.balanced cmd).results
  rw [hcall, got, hr, Option.toList_some] at hle hresults
  rw [List.length_append, List.length_singleton] at hle
  have hpassing : w.passing cmd = [] := List.eq_nil_of_length_eq_zero (by omega)
  have hempty : call.c = [] := List.eq_nil_of_length_eq_zero (by omega)
  rw [hpassing, hempty, List.nil_append, List.nil_append] at hresults
  have hone := List.singleton_perm.mp hresults
  have hmem : r ∈ w.notified.filter fun r' => r'.cmd = cmd := hone ▸ List.mem_singleton.mpr rfl
  exact ⟨of_decide_eq_true (List.mem_filter.mp hmem).2, hone.symm⟩

theorem kept (h : Inv w) (hr : r ∈ w.notified) : ∃ call, w.nonces.lookup r.cmd = some call ∧
    (r ∈ w.client.apply ∨ w.held = some r ∨ r ∈ call.c ∨ call.received = some r) := by
  have hmem : r ∈ w.passing r.cmd ++ got (w.nonces.lookup r.cmd) :=
    (h.balanced r.cmd).results.mem_iff.mpr (List.mem_filter.mpr ⟨hr, by simp⟩)
  rcases List.mem_append.mp hmem with hpass | hgot
  · obtain ⟨call, hcall⟩ := (h.balanced r.cmd).exists_call (List.length_pos_of_mem hpass)
    rcases List.mem_append.mp (List.mem_filter.mp hpass).1 with happly | hheld
    · exact ⟨call, hcall, .inl happly⟩
    · exact ⟨call, hcall, .inr (.inl (Option.mem_toList.mp hheld))⟩
  · cases hcall : w.nonces.lookup r.cmd with
    | none =>
      rw [hcall] at hgot
      cases hgot
    | some call =>
      rw [hcall] at hgot
      rcases List.mem_append.mp hgot with hc | hreceived
      · exact ⟨call, rfl, .inr (.inr (.inl hc))⟩
      · exact ⟨call, rfl, .inr (.inr (.inr (Option.mem_toList.mp hreceived)))⟩

theorem pending (h : Inv w) (hcall : w.nonces.lookup cmd = some call)
    (hnone : w.notified.filter (fun r => r.cmd = cmd) = []) :
    call.started = false ∨ .start cmd ∈ w.clientMsg ∨ cmd ∈ w.client.reqQueue.q ++ w.client.backupQueue.q := by
  have htoken := (h.balanced cmd).token
  have hresults := (h.balanced cmd).results.length_eq
  rw [hnone, List.length_nil, List.length_append] at hresults
  rw [hcall] at htoken hresults
  rw [Option.isSome_some, if_pos rfl] at htoken
  by_cases hstarted : call.started = false
  · exact .inl hstarted
  · have hunsent : unsent (some call) = 0 := if_pos (Bool.eq_true_of_not_eq_false hstarted)
    rcases Nat.eq_zero_or_pos (w.clientMsg.countP (isStart cmd)) with hzero | hpos
    · have hlogged : w.client.logged cmd = 1 := by omega
      rw [Client.logged] at hlogged
      refine .inr (.inr ((h.tidy.booked.keys cmd).mp ?_))
      by_contra hlog
      rw [if_neg hlog] at hlogged
      cases hlogged
    · obtain ⟨m, hm, hstart⟩ := List.countP_pos_iff.mp hpos
      cases m with
      | start cmd' => exact .inr (.inl (of_decide_eq_true hstart ▸ hm))
      | response args => cases hstart

/-- A held result goes on to its call. -/
theorem exists_forward (h : Inv w) (hheld : w.held = some r) : ∃ w', Delivery w w' ∧ Inv w' ∧ w'.held = none ∧
    w'.client.apply = w.client.apply ∧ w'.notified = w.notified := by
  obtain ⟨call, hcall⟩ := h.call_of_held hheld
  exact ⟨_, ⟨_, .inr (.inl rfl), .forward hheld hcall (h.unblocked hheld hcall)⟩, h.forward hheld hcall, rfl, rfl, rfl⟩

/-- The loop of the service empties the channel of the client. -/
theorem exists_drained (h : Inv w) : ∃ w', Relation.ReflTransGen Delivery w w' ∧ Inv w' ∧ w'.held = none ∧
    w'.client.apply = [] ∧ w'.notified = w.notified := by
  have hidle : ∀ l (w : OpCalls), Inv w → w.held = none → w.client.apply = l →
      ∃ w', Relation.ReflTransGen Delivery w w' ∧ Inv w' ∧ w'.held = none ∧ w'.client.apply = [] ∧
        w'.notified = w.notified := by
    intro l
    induction l with
    | nil => exact fun w h hheld happly => ⟨w, .refl, h, hheld, happly, rfl⟩
    | cons r rest ih =>
      intro w h hheld happly
      have hread : Delivery w { w with client := { w.client with apply := rest }, held := some r } :=
        ⟨_, .inl rfl, .apply hheld happly⟩
      obtain ⟨w₁, hsent, h₁, hheld₁, happly₁, hnotified₁⟩ := (h.apply hheld happly).exists_forward rfl
      obtain ⟨w', hrun, h', hheld', happly', hnotified'⟩ := ih w₁ h₁ hheld₁ happly₁
      exact ⟨w', .head hread (.head hsent hrun), h', hheld', happly', hnotified'.trans hnotified₁⟩
  cases hheld : w.held with
  | none => exact hidle _ w h hheld rfl
  | some r =>
    obtain ⟨w₁, hsent, h₁, hheld₁, -, hnotified₁⟩ := h.exists_forward hheld
    obtain ⟨w', hrun, h', hheld', happly', hnotified'⟩ := hidle _ w₁ h₁ hheld₁ rfl
    exact ⟨w', .head hsent hrun, h', hheld', happly', hnotified'.trans hnotified₁⟩

theorem arrives (h : Inv w) (hr : r ∈ w.notified) : ∃ w' call, Relation.ReflTransGen Delivery w w' ∧
    w'.nonces.lookup r.cmd = some call ∧ call.received = some r := by
  obtain ⟨w₁, hrun, h₁, hheld, happly, hnotified⟩ := h.exists_drained
  obtain ⟨call, hcall, hpass | hpass | hc | hreceived⟩ := h₁.kept (hnotified ▸ hr)
  · rw [happly] at hpass
    cases hpass
  · rw [hheld] at hpass
    cases hpass
  · have hle := (h₁.balanced r.cmd).le_one
    rw [hcall, got, List.length_append] at hle
    obtain ⟨r', rest, hlist⟩ := List.exists_cons_of_ne_nil (List.ne_nil_of_mem hc)
    rw [hlist, List.length_cons] at hle
    have hrest : rest = [] := List.eq_nil_of_length_eq_zero (by omega)
    have hwait : call.received = none := by
      cases hreceived : call.received with
      | none => rfl
      | some r =>
        rw [hreceived, Option.toList_some, List.length_singleton] at hle
        omega
    have hstarted : call.started = true := by
      by_contra hno
      have hunsent : unsent (some call) = 1 := if_neg hno
      omega
    rw [hlist, hrest, List.mem_singleton] at hc
    rw [← hc] at hlist
    refine ⟨_, { call with c := rest, received := some r },
      hrun.tail ⟨_, .inr (.inr ⟨r.cmd, rfl⟩), .receive hcall ⟨hstarted, hwait⟩ hlist⟩, ?_, rfl⟩
    rw [lookup_setCall, if_pos rfl]
  · exact ⟨w₁, call, hrun, hcall, hreceived⟩

end Inv

/-- In every run in which nobody else starts an operation and the client has room for its results and completes no
request that it has not sent out, each result comes to the caller of its operation. -/
theorem CarefulRun.delivered {cid : ℤ} {f : ℕ} {nodes : List ℤ} (h : CarefulRun cid f nodes w) : Delivered w :=
  have hinv := Inv.of_run h
  { own := fun _ _ _ => hinv.own
    kept := fun _ => hinv.kept
    unblocked := fun _ _ => hinv.unblocked
    pending := fun _ _ => hinv.pending
    arrives := fun _ => hinv.arrives }

end Steps

/-! ### Where results are lost -/

section Losses

variable {cid : ℤ} {f : ℕ} {nodes : List ℤ} {w : OpCalls} {cmd : String}

/-- What a run of the client alone does the service does too, when each operation is started by a call. -/
theorem exists_run_of_runs {l : List ClientInput} {c : Client}
    (h : Runs (fun c a c' => True ∧ c.step a = .ok c') (Client.new cid f nodes) l c)
    (honce : (l.filterMap ClientInput.starts).Nodup) (htake : ClientInput.take ∉ l) :
    ∃ w, Run cid f nodes w ∧ w.client = c ∧ w.clientMsg = [] ∧
      ∀ cmd, cmd ∉ l.filterMap ClientInput.starts → w.nonces.lookup cmd = none := by
  induction h with
  | start => exact ⟨new cid f nodes, .init rfl, rfl, rfl, fun _ _ => rfl⟩
  | next a _ hn ih =>
    next l c c' _ =>
    rw [List.mem_cons, not_or] at htake
    cases a with
    | start cmd timestamp canOpSuccess =>
      have hstarts : (ClientInput.start cmd timestamp canOpSuccess :: l).filterMap ClientInput.starts =
          cmd :: l.filterMap ClientInput.starts := List.filterMap_cons_some rfl
      rw [hstarts] at honce ⊢
      obtain ⟨hnew, honce⟩ := List.nodup_cons.mp honce
      obtain ⟨w, hw, rfl, hidle, hnonces⟩ := ih honce htake.2
      have hroom : w.clientMsg.length < clientMsgCap := by rw [hidle]; decide
      have hlookup : (w.setCall cmd {}).nonces.lookup cmd = some {} := by rw [lookup_setCall, if_pos rfl]
      have hcalled : Run cid f nodes (w.setCall cmd {}) := hw.step ⟨_, .newNonce (hnonces cmd hnew)⟩
      have hsent := hcalled.step ⟨_, .start hlookup rfl hroom⟩
      have hmsg : w.clientMsg ++ [ClientMessage.start cmd] = [ClientMessage.start cmd] := by rw [hidle]; rfl
      refine ⟨_, hsent.step ⟨.call timestamp canOpSuccess, .call hmsg hn.2⟩, rfl, rfl, fun k hk => ?_⟩
      rw [List.mem_cons, not_or] at hk
      change ((w.setCall cmd {}).setCall cmd { started := true }).nonces.lookup k = none
      rw [lookup_setCall, if_neg hk.1, lookup_setCall, if_neg hk.1]
      exact hnonces k hk.2
    | response args =>
      obtain ⟨w, hw, rfl, hidle, hnonces⟩ := ih honce htake.2
      have hroom : w.clientMsg.length < clientMsgCap := by rw [hidle]; decide
      have hsent := hw.step ⟨_, .peer (m := .response args) hroom⟩
      have hmsg : w.clientMsg ++ [ClientMessage.response args] = [ClientMessage.response args] := by rw [hidle]; rfl
      exact ⟨_, hsent.step ⟨.call 0 none, .call hmsg hn.2⟩, rfl, rfl, hnonces⟩
    | retry k =>
      obtain ⟨w, hw, rfl, hidle, hnonces⟩ := ih honce htake.2
      exact ⟨_, hw.step ⟨_, .retry hn.2⟩, rfl, hidle, hnonces⟩
    | timeout r =>
      obtain ⟨w, hw, rfl, hidle, hnonces⟩ := ih honce htake.2
      exact ⟨_, hw.step ⟨_, .timeout hn.2⟩, rfl, hidle, hnonces⟩
    | take => exact absurd rfl htake.1

/-- What the client is told where there are not enough outputs. -/
def noUTXO : Option String := some "cannout find availalbe BTC UTXO"

/-- The result of an operation for which there are not enough outputs. -/
def shortage (cmd : String) : OpResult where
  cmd := cmd
  auxiliary := ""
  seq := -1
  error := noUTXO

theorem emits_refused {c : Client} (hlog : c.log.lookup cmd = none) :
    c.emits (.start cmd 0 noUTXO) = [shortage cmd] := by
  have hempty := Client.start_eq (c := { c with apply := [] }) 0 noUTXO hlog
  rw [Client.emits, hempty]
  rfl

/-- The client refuses the one operation that it is asked to start. -/
theorem exists_refused (hmsg : w.clientMsg = [ClientMessage.start cmd]) (hlog : ∀ k, w.client.log.lookup k = none) :
    ∃ w', Step w (.call 0 noUTXO) w' ∧ w'.clientMsg = [] ∧ (∀ k, w'.client.log.lookup k = none) ∧
      w'.client.apply = Client.offered w.client.apply [shortage cmd] ∧ w'.nonces = w.nonces ∧ w'.held = w.held ∧
      shortage cmd ∈ w'.notified := by
  have hstep := Client.start_eq 0 noUTXO (hlog cmd)
  refine ⟨_, .call hmsg hstep, rfl, fun k => ?_, rfl, rfl, rfl, ?_⟩
  · change (AList.erase cmd (w.client.log.insert cmd w.client.next)).lookup k = none
    by_cases hk : k = cmd
    · rw [hk, AList.lookup_erase]
    · rw [AList.lookup_erase_ne hk, RangeMap.lookup_insert_eq, if_neg hk]
      exact hlog k
  · change shortage cmd ∈ w.notified ++ w.client.emits (.start cmd 0 noUTXO)
    rw [emits_refused (hlog cmd)]
    exact List.mem_append_right _ (List.mem_singleton.mpr rfl)

/-- The loop of the service reads the one result of the client. -/
theorem exists_read {r : OpResult} (h : Run cid f nodes w) (happly : w.client.apply = [r]) (hheld : w.held = none) :
    ∃ w', Run cid f nodes w' ∧ w'.clientMsg = w.clientMsg ∧ w'.client.log = w.client.log ∧ w'.client.apply = [] ∧
      w'.nonces = w.nonces ∧ w'.held = some r :=
  ⟨_, h.step ⟨_, .apply hheld happly⟩, rfl, rfl, rfl, rfl, rfl⟩

/-- A peer starts an operation, and the loop of the service reads the result. -/
theorem exists_peer_start (cmd : String) (h : Run cid f nodes w) (hidle : w.clientMsg = [])
    (hlog : ∀ k, w.client.log.lookup k = none)
    (happly : w.client.apply = []) (hheld : w.held = none) : ∃ w', Run cid f nodes w' ∧ w'.clientMsg = [] ∧
      (∀ k, w'.client.log.lookup k = none) ∧ w'.client.apply = [] ∧ w'.nonces = w.nonces ∧
      w'.held = some (shortage cmd) := by
  have hroom : w.clientMsg.length < clientMsgCap := by rw [hidle]; decide
  have hsent := h.step ⟨_, .peer (m := .start cmd) hroom⟩
  have hmsg : w.clientMsg ++ [ClientMessage.start cmd] = [ClientMessage.start cmd] := by rw [hidle]; rfl
  obtain ⟨w₁, hrefused, hidle₁, hlog₁, happly₁, hnonces₁, hheld₁, -⟩ :=
    exists_refused (w := { w with clientMsg := w.clientMsg ++ [ClientMessage.start cmd] }) hmsg hlog
  have hone : w₁.client.apply = [shortage cmd] := by
    rw [happly₁]
    change Client.offered w.client.apply _ = _
    rw [happly]
    rfl
  obtain ⟨w', hw', hidle', hlog', happly', hnonces', hheld'⟩ :=
    exists_read (hsent.step ⟨_, hrefused⟩) hone (hheld₁.trans hheld)
  exact ⟨w', hw', hidle'.trans hidle₁, fun k => by rw [hlog']; exact hlog₁ k, happly', hnonces'.trans hnonces₁, hheld'⟩

/-- The operations of a burst. -/
def burst (i : ℕ) : String := "bitcoin-0x0a-" ++ toString (i : ℤ)

theorem burst_injective : Function.Injective burst := fun _ _ h =>
  Int.ofNat_inj.mp (Int.repr_injective (String.append_right_inj _ |>.mp h))

/-- A call for a new operation that the client refuses. -/
theorem exists_refused_call (h : Run cid f nodes w) (hidle : w.clientMsg = [])
    (hlog : ∀ k, w.client.log.lookup k = none)
    (hnew : w.nonces.lookup cmd = none) : ∃ w', Run cid f nodes w' ∧ w'.clientMsg = [] ∧
      (∀ k, w'.client.log.lookup k = none) ∧ w'.client.apply = Client.offered w.client.apply [shortage cmd] ∧
      (∀ k, w'.nonces.lookup k = if k = cmd then some { started := true } else w.nonces.lookup k) ∧ w'.held = w.held ∧
      shortage cmd ∈ w'.notified := by
  have hroom : w.clientMsg.length < clientMsgCap := by rw [hidle]; decide
  have hlookup : (w.setCall cmd {}).nonces.lookup cmd = some {} := by rw [lookup_setCall, if_pos rfl]
  have hcalled : Run cid f nodes (w.setCall cmd {}) := h.step ⟨_, .newNonce hnew⟩
  have hsent := hcalled.step ⟨_, .start hlookup rfl hroom⟩
  have hmsg : w.clientMsg ++ [ClientMessage.start cmd] = [ClientMessage.start cmd] := by rw [hidle]; rfl
  obtain ⟨w', hrefused, hidle', hlog', happly, hnonces, hheld, hmem⟩ :=
    exists_refused (w := { (w.setCall cmd {}).setCall cmd { started := true } with
      clientMsg := w.clientMsg ++ [ClientMessage.start cmd] }) hmsg hlog
  refine ⟨w', hsent.step ⟨_, hrefused⟩, hidle', hlog', happly, fun k => ?_, hheld, hmem⟩
  rw [hnonces]
  change ((w.setCall cmd {}).setCall cmd { started := true }).nonces.lookup k = _
  rw [lookup_setCall, lookup_setCall]
  split <;> rfl

/-- While the loop of the service does not run, the channel of the client fills up. -/
theorem exists_filled (n : ℕ) (hn : n ≤ outstanding * 10) : ∃ w, Run cid f nodes w ∧ w.clientMsg = [] ∧
    (∀ k, w.client.log.lookup k = none) ∧ w.client.apply = (List.range n).map (fun i => shortage (burst i)) ∧
    w.held = none ∧ ∀ i, n ≤ i → w.nonces.lookup (burst i) = none := by
  induction n with
  | zero => exact ⟨new cid f nodes, .init rfl, rfl, fun _ => rfl, rfl, rfl, fun _ _ => rfl⟩
  | succ n ih =>
    obtain ⟨w, hw, hidle, hlog, happly, hheld, hnew⟩ := ih (Nat.le_of_succ_le hn)
    obtain ⟨w', hw', hidle', hlog', happly', hnonces, hheld', -⟩ := exists_refused_call hw hidle hlog (hnew n le_rfl)
    refine ⟨w', hw', hidle', hlog', ?_, hheld'.trans hheld, fun i hi => ?_⟩
    · rw [happly', happly, Client.offered, if_pos (by rw [List.length_map, List.length_range]; omega), List.range_succ,
        List.map_append]
      rfl
    · rw [hnonces, if_neg fun heq => by have := burst_injective heq; omega]
      exact hnew i (Nat.le_of_succ_le hi)

/-- The service of four notaries. -/
abbrev RunOfFour : OpCalls → Prop := Run 0 1 ((List.range 4).map Int.ofNat)

/-- A caller waits for a result that was dropped. -/
def DropsResult : Prop := ∃ w, RunOfFour w ∧ ∃ r ∈ w.notified, ∃ call, w.nonces.lookup r.cmd = some call ∧
  call.started = true ∧ call.received = none ∧ call.c = [] ∧ r ∉ w.client.apply ∧ w.held ≠ some r

/-- The loop of the service waits for a caller that has gone. -/
def Blocks : Prop := ∃ w, RunOfFour w ∧ ∃ r call, w.held = some r ∧ w.nonces.lookup r.cmd = some call ∧
  call.received ≠ none ∧ call.c.length = callCap

/-- The client panics over a message while a caller waits. -/
def Panics : Prop := ∃ w, RunOfFour w ∧ ∃ args, w.clientMsg = [ClientMessage.response args] ∧
  ∃ c', w.client.step (.response args) = .error c'

/-- Of a burst of one call more than the channel has room for the last one gets no result. -/
theorem dropsResult : DropsResult := by
  obtain ⟨w, hw, hidle, hlog, happly, hheld, hnew⟩ := exists_filled (outstanding * 10) le_rfl
  obtain ⟨w', hw', -, -, happly', hnonces, hheld', hmem⟩ := exists_refused_call hw hidle hlog (hnew _ le_rfl)
  refine ⟨w', hw', _, hmem, { started := true }, ?_, rfl, rfl, rfl, ?_, ?_⟩
  · rw [hnonces]
    exact if_pos rfl
  · rw [happly', happly, Client.offered, if_neg (by rw [List.length_map, List.length_range]; omega)]
    intro hin
    obtain ⟨i, hi, heq⟩ := List.mem_map.mp hin
    have hsame := burst_injective (congrArg OpResult.cmd heq)
    rw [List.mem_range] at hi
    omega
  · rw [hheld', hheld]
    simp

/-- A peer starts an operation whose result has been taken, twice. -/
theorem blocks : Blocks := by
  have hnew : RunOfFour (new 0 1 ((List.range 4).map Int.ofNat)) := .init rfl
  have hfree : (new 0 1 ((List.range 4).map Int.ofNat)).nonces.lookup (burst 0) = none := rfl
  obtain ⟨w₁, hw₁, hidle₁, hlog₁, happly₁, hnonces₁, hheld₁, -⟩ := exists_refused_call hnew rfl (fun _ => rfl) hfree
  obtain ⟨w₂, hw₂, hidle₂, hlog₂, happly₂, hnonces₂, hheld₂⟩ := exists_read hw₁ happly₁ hheld₁
  -- The caller takes the result of its own start.
  have hcall₂ : w₂.nonces.lookup (shortage (burst 0)).cmd = some { started := true } := by
    rw [hnonces₂, hnonces₁]
    exact if_pos rfl
  have hsent := hw₂.step ⟨_, .forward hheld₂ hcall₂ (by decide)⟩
  have hlookup₃ : (w₂.setCall (burst 0) { started := true, c := [shortage (burst 0)] }).nonces.lookup (burst 0) =
      some { started := true, c := [shortage (burst 0)] } := by rw [lookup_setCall, if_pos rfl]
  have htaken := hsent.step ⟨_, .receive hlookup₃ ⟨rfl, rfl⟩ rfl⟩
  -- The result of the first start of the peer fills the channel.
  obtain ⟨w₄, hw₄, hidle₄, hlog₄, happly₄, hnonces₄, hheld₄⟩ :=
    exists_peer_start (burst 0) htaken (hidle₂.trans hidle₁)
      (fun k => (congrArg (AList.lookup k) hlog₂).trans (hlog₁ k))
      happly₂ rfl
  have hcall₄ : w₄.nonces.lookup (shortage (burst 0)).cmd =
      some { started := true, c := [], received := some (shortage (burst 0)) } := by
    rw [hnonces₄]
    exact (lookup_setCall ..).trans (if_pos rfl)
  have hfilled := hw₄.step ⟨_, .forward hheld₄ hcall₄ (by decide)⟩
  -- That of the second does not get through.
  obtain ⟨w₆, hw₆, -, -, -, hnonces₆, hheld₆⟩ := exists_peer_start (burst 0) hfilled hidle₄ hlog₄ happly₄ rfl
  refine ⟨w₆, hw₆, _, { started := true, c := [shortage (burst 0)], received := some (shortage (burst 0)) }, hheld₆, ?_,
    nofun, rfl⟩
  rw [hnonces₆]
  exact (lookup_setCall ..).trans (if_pos rfl)

theorem panics : Panics := by
  obtain ⟨c, hc, c', herror⟩ := Client.startMany_panics
  obtain ⟨w, hw, rfl, hidle, -⟩ := exists_run_of_runs hc (by decide) (by decide)
  have hroom : w.clientMsg.length < clientMsgCap := by rw [hidle]; decide
  have hsent := hw.step ⟨_,
    .peer (m := .response { view := 0, seq := 0, cid := 0, rid := 2, res := "a", auxiliary := "x" }) hroom⟩
  refine ⟨_, hsent, _, ?_, c', herror⟩
  change w.clientMsg ++ _ = _
  rw [hidle]
  rfl

/-- Every result of every run comes to its caller. -/
def AlwaysDelivered : Prop := ∀ w, RunOfFour w → Delivered w

theorem not_alwaysDelivered : ¬ AlwaysDelivered ∧ DropsResult ∧ Blocks ∧ Panics := by
  refine ⟨fun h => ?_, dropsResult, blocks, panics⟩
  obtain ⟨w, hw, r, call, hheld, hcall, -, hfull⟩ := blocks
  exact absurd ((h w hw).unblocked r call hheld hcall) (by rw [hfull]; exact lt_irrefl _)

/-- A call that the client refuses is a careful run. -/
theorem careful_refused : ∃ w, CarefulRun 0 1 ((List.range 4).map Int.ofNat) w ∧ shortage (burst 0) ∈ w.notified := by
  let w : OpCalls := new 0 1 ((List.range 4).map Int.ofNat)
  have hnew : CarefulRun 0 1 ((List.range 4).map Int.ofNat) w := .init rfl
  have hlookup : (w.setCall (burst 0) {}).nonces.lookup (burst 0) = some {} := by rw [lookup_setCall, if_pos rfl]
  have hcalled := hnew.step ⟨.newNonce (burst 0), trivial, .newNonce rfl⟩
  have hsent := hcalled.step ⟨.start (burst 0), trivial, .start hlookup rfl (by decide)⟩
  obtain ⟨w', hrefused, -, -, -, -, -, hmem⟩ :=
    exists_refused (w := { (w.setCall (burst 0) {}).setCall (burst 0) { started := true } with
      clientMsg := [ClientMessage.start (burst 0)] }) rfl fun _ => rfl
  refine ⟨w', hsent.step ⟨_, fun m hm => ?_, hrefused⟩, hmem⟩
  obtain rfl := Option.some.inj hm
  exact ⟨fun _ => by decide, nofun⟩

theorem delivered_refused : ∃ w, CarefulRun 0 1 ((List.range 4).map Int.ofNat) w ∧ w.notified ≠ [] ∧ Delivered w := by
  obtain ⟨w, hw, hmem⟩ := careful_refused
  exact ⟨w, hw, List.ne_nil_of_mem hmem, CarefulRun.delivered hw⟩

end Losses

end OpCalls

end DistributedNotary.Service
