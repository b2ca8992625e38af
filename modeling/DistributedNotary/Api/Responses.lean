import DistributedNotary.Api.NotaryApi
import DistributedNotary.Library.Transition

/-! Requests of notaries to each other that wait for a response. A request is left
in `waitingResponseMap` under its ID and sent, and the thread that made it then
looks it up there and waits at its channel. The notary that is asked responds with
the first thing that its service writes, or with a timeout, and the thread that
receives the response looks the request up, fills its channel and takes it from the
map. All of these are steps of their own, and messages take any time or are lost. -/
namespace DistributedNotary.Api

open Library

def errorCodeTimeout : String := "3000"

/-- A request as it is sent. -/
structure Asked (Body : Type) where
  requestID : String
  sender : ℕ
  target : ℕ
  body : Body

/-- Where the thread that made a request stands: before `WaitWSResponse`, at the channel of a request, or back from
there with a response, or with the error that its request is not in the map. -/
inductive Thread where
  | sent
  | waiting (o : ℕ)
  | returned (resp : BaseResponse)
  | notFound

/-- A request at the notary that made it. Its channel has room for one response. -/
structure Call (Body : Type) where
  asked : Asked Body
  responseChan : Option BaseResponse := none
  thread : Thread := .sent

/-- Requests are objects that the maps of the notaries point to. `serving` has the requests that wait for the service of
the notary that is asked, with what was written to their channels. A thread that receives a response has found its
request, `loaded`, or has filled its channel, `written`. `answers` is what all notaries have responded so far. -/
structure Exchange (Body : Type) where
  calls : List (Call Body) := []
  waitingResponseMap : ℕ → RangeMap String ℕ := fun _ => ∅
  requests : List (Asked Body) := []
  serving : List (Asked Body × Option BaseResponse) := []
  responses : List (ℕ × BaseResponse) := []
  loaded : List (ℕ × ℕ × BaseResponse) := []
  written : List (ℕ × String) := []
  answers : List (Asked Body × BaseResponse) := []

namespace Exchange

variable {Body : Type}

/-- `waitingResponseMap.LoadOrStore` of a new request, which is then sent. -/
def sendWSReqToNotary (s : Exchange Body) (asked : Asked Body) : Exchange Body where
  calls := s.calls ++ [{ asked := asked }]
  waitingResponseMap :=
    if (s.waitingResponseMap asked.sender).lookup asked.requestID = none then
      Function.update s.waitingResponseMap asked.sender
        ((s.waitingResponseMap asked.sender).insert asked.requestID s.calls.length)
    else s.waitingResponseMap
  requests := asked :: s.requests
  serving := s.serving
  responses := s.responses
  loaded := s.loaded
  written := s.written
  answers := s.answers

/-- `waitingResponseMap.Load` at a notary. -/
def load (s : Exchange Body) (notary : ℕ) (requestID : String) : Option ℕ :=
  (s.waitingResponseMap notary).lookup requestID

def setCall (s : Exchange Body) (o : ℕ) (c : Call Body) : Exchange Body := { s with calls := s.calls.set o c }

/-- `waitingResponseMap.Delete` at a notary. -/
def delete (s : Exchange Body) (notary : ℕ) (requestID : String) : Exchange Body :=
  { s with
    waitingResponseMap := Function.update s.waitingResponseMap notary ((s.waitingResponseMap notary).erase requestID) }

/-- The start of `WaitWSResponse`. -/
def look (s : Exchange Body) (c : Call Body) : Thread :=
  match s.load c.asked.sender c.asked.requestID with
  | some o => .waiting o
  | none => .notFound

/-- What happens next. `forge` is a response that no honest notary sends. -/
inductive Input (Body : Type) where
  | send (asked : Asked Body)
  | look (o : ℕ)
  | receive (o : ℕ)
  | timeout (o : ℕ)
  | deliver (asked : Asked Body)
  | loseRequest (asked : Asked Body)
  | serve (asked : Asked Body) (resp : BaseResponse)
  | respond (asked : Asked Body)
  | timeoutService (asked : Asked Body)
  | loseResponse (notary : ℕ) (resp : BaseResponse)
  | load (notary : ℕ) (resp : BaseResponse)
  | write (notary : ℕ) (resp : BaseResponse)
  | delete (notary : ℕ) (requestID : String)
  | forge (notary : ℕ) (resp : BaseResponse)

/-- One step of one thread. The thread that writes to a full channel panics, so there is no step for it. -/
inductive Step : Exchange Body → Input Body → Exchange Body → Prop
  | send {s : Exchange Body} (asked : Asked Body) : Step s (.send asked) (s.sendWSReqToNotary asked)
  | look {s : Exchange Body} {o : ℕ} {c : Call Body} (hc : s.calls[o]? = some c) (hsent : c.thread = .sent) :
    Step s (.look o) (s.setCall o { c with thread := s.look c })
  | receive {s : Exchange Body} {o o' : ℕ} {c c' : Call Body} {resp : BaseResponse} (hc : s.calls[o]? = some c)
    (hwaiting : c.thread = .waiting o') (hc' : s.calls[o']? = some c') (hresp : c'.responseChan = some resp) :
    Step s (.receive o) ((s.setCall o' { c' with responseChan := none }).setCall o
      { (if o = o' then { c' with responseChan := none } else c) with thread := .returned resp })
  | timeout {s : Exchange Body} {o o' : ℕ} {c : Call Body} (hc : s.calls[o]? = some c)
    (hwaiting : c.thread = .waiting o') :
    Step s (.timeout o)
      (s.setCall o { c with thread := .returned (newFailResponse c.asked.requestID errorCodeTimeout) })
  | deliver {s : Exchange Body} {asked : Asked Body} {rest : List (Asked Body)}
    (h : s.requests.Perm (asked :: rest)) :
    Step s (.deliver asked) { s with requests := rest, serving := (asked, none) :: s.serving }
  | loseRequest {s : Exchange Body} {asked : Asked Body} {rest : List (Asked Body)}
    (h : s.requests.Perm (asked :: rest)) : Step s (.loseRequest asked) { s with requests := rest }
  /-- Only the first response that the service writes stays in the channel. -/
  | serve {s : Exchange Body} {asked : Asked Body} {chan : Option BaseResponse}
    {rest : List (Asked Body × Option BaseResponse)} (resp : BaseResponse) (hid : resp.requestID = asked.requestID)
    (h : s.serving.Perm ((asked, chan) :: rest)) :
    Step s (.serve asked resp) { s with serving := (asked, chan.or (some resp)) :: rest }
  | respond {s : Exchange Body} {asked : Asked Body} {resp : BaseResponse}
    {rest : List (Asked Body × Option BaseResponse)} (h : s.serving.Perm ((asked, some resp) :: rest)) :
    Step s (.respond asked)
      { s with
        serving := rest
        responses := (asked.sender, resp) :: s.responses
        answers := (asked, resp) :: s.answers }
  | timeoutService {s : Exchange Body} {asked : Asked Body} {chan : Option BaseResponse}
    {rest : List (Asked Body × Option BaseResponse)} (h : s.serving.Perm ((asked, chan) :: rest)) :
    Step s (.timeoutService asked)
      { s with
        serving := rest
        responses := (asked.sender, newFailResponse asked.requestID errorCodeTimeout) :: s.responses
        answers := (asked, newFailResponse asked.requestID errorCodeTimeout) :: s.answers }
  | loseResponse {s : Exchange Body} {notary : ℕ} {resp : BaseResponse} {rest : List (ℕ × BaseResponse)}
    (h : s.responses.Perm ((notary, resp) :: rest)) : Step s (.loseResponse notary resp) { s with responses := rest }
  /-- A response to a request that is not in the map is dropped. -/
  | load {s : Exchange Body} {notary : ℕ} {resp : BaseResponse} {rest : List (ℕ × BaseResponse)}
    (h : s.responses.Perm ((notary, resp) :: rest)) :
    Step s (.load notary resp)
      { s with
        responses := rest
        loaded := ((s.load notary resp.requestID).map fun o => (notary, o, resp)).toList ++ s.loaded }
  | write {s : Exchange Body} {notary o : ℕ} {resp : BaseResponse} {rest : List (ℕ × ℕ × BaseResponse)} {c : Call Body}
    (h : s.loaded.Perm ((notary, o, resp) :: rest)) (hc : s.calls[o]? = some c) (hempty : c.responseChan = none) :
    Step s (.write notary resp)
      { s.setCall o { c with responseChan := some resp } with
        loaded := rest, written := (notary, resp.requestID) :: s.written }
  | delete {s : Exchange Body} {notary : ℕ} {requestID : String} {rest : List (ℕ × String)}
    (h : s.written.Perm ((notary, requestID) :: rest)) :
    Step s (.delete notary requestID) { s.delete notary requestID with written := rest }
  | forge {s : Exchange Body} (notary : ℕ) (resp : BaseResponse) :
    Step s (.forge notary resp) { s with responses := (notary, resp) :: s.responses }

/-- The IDs of requests are new, and nobody makes up responses. -/
def Honest (s : Exchange Body) : Input Body → Prop
  | .send asked => ∀ c ∈ s.calls, c.asked.requestID ≠ asked.requestID
  | .forge _ _ => False
  | _ => True

/-- The states of runs of honest notaries. -/
abbrev HonestRun : Exchange Body → Prop := Reachable (fun s => s = {}) fun s s' => ∃ a, s.Honest a ∧ Step s a s'

/-- The thread that is about to write to the channel of a request finds it full. -/
def Panics (s : Exchange Body) : Prop :=
  ∃ notary o resp c, (notary, o, resp) ∈ s.loaded ∧ s.calls[o]? = some c ∧ c.responseChan ≠ none

/-- What the threads that make requests can rely on. -/
structure Correlated (s : Exchange Body) : Prop where
  /-- No notary stops at a full channel. -/
  unblocked : ¬ s.Panics
  /-- A response is the one of the notary that was asked, to this very request, or that of the own timeout. -/
  own : ∀ c ∈ s.calls, ∀ resp, c.thread = .returned resp →
    resp = newFailResponse c.asked.requestID errorCodeTimeout ∨ (c.asked, resp) ∈ s.answers
  /-- A request is not found only if there was a response to it before its thread looked. -/
  lost : ∀ c ∈ s.calls, c.thread = .notFound → ∃ resp, (c.asked, resp) ∈ s.answers
  /-- Each request is answered at most once. -/
  once : (s.answers.map fun a => a.1.requestID).Nodup
  /-- A request without a response can still be found. -/
  kept : ∀ o c, s.calls[o]? = some c → (∀ resp, (c.asked, resp) ∉ s.answers) →
    s.load c.asked.sender c.asked.requestID = some o

/-! ### The invariant -/

/-- The requests of all notaries so far. -/
def asks (s : Exchange Body) : List (Asked Body) := s.calls.map Call.asked

/-- The IDs for which a response can still be written to a channel. -/
def openIDs (s : Exchange Body) : List String :=
  s.requests.map (fun m => m.requestID) ++ (s.serving.map (fun m => m.1.requestID) ++
    (s.responses.map (fun p => p.2.requestID) ++ s.loaded.map fun p => p.2.2.requestID))

def answeredIDs (s : Exchange Body) : List String := s.answers.map fun a => a.1.requestID

/-- What a thread has found out about its own request. -/
def Knows (s : Exchange Body) (o : ℕ) (asked : Asked Body) : Thread → Prop
  | .sent => True
  | .waiting o' => o' = o
  | .returned resp => resp = newFailResponse asked.requestID errorCodeTimeout ∨ (asked, resp) ∈ s.answers
  | .notFound => ∃ resp, (asked, resp) ∈ s.answers

structure Inv (s : Exchange Body) : Prop where
  unique : (s.asks.map fun m => m.requestID).Nodup
  openNodup : s.openIDs.Nodup
  /-- A response that can still come finds its request, with an empty channel. -/
  awaited : ∀ id ∈ s.openIDs, ∃ o c, s.calls[o]? = some c ∧ c.asked.requestID = id ∧ c.responseChan = none ∧
    s.load c.asked.sender id = some o
  mapped : ∀ i id o, s.load i id = some o → ∃ m, s.asks[o]? = some m ∧ m.requestID = id ∧ m.sender = i
  requested : ∀ m ∈ s.requests, m ∈ s.asks ∧ m.requestID ∉ s.answeredIDs
  served : ∀ m ∈ s.serving, m.1 ∈ s.asks ∧ m.1.requestID ∉ s.answeredIDs ∧
    ∀ resp, m.2 = some resp → resp.requestID = m.1.requestID
  responded : ∀ p ∈ s.responses, ∃ m ∈ s.asks, m.sender = p.1 ∧ (m, p.2) ∈ s.answers
  loaded : ∀ p ∈ s.loaded, ∃ m, s.asks[p.2.1]? = some m ∧ (m, p.2.2) ∈ s.answers
  written : ∀ p ∈ s.written, p.2 ∉ s.openIDs ∧ ∃ m ∈ s.asks, m.requestID = p.2 ∧ ∃ resp, (m, resp) ∈ s.answers
  answered : ∀ a ∈ s.answers, a.1 ∈ s.asks ∧ a.2.requestID = a.1.requestID
  answersNodup : s.answeredIDs.Nodup
  chan : ∀ c ∈ s.calls, ∀ resp, c.responseChan = some resp → (c.asked, resp) ∈ s.answers
  threads : ∀ o c, s.calls[o]? = some c → s.Knows o c.asked c.thread
  kept : ∀ o m, s.asks[o]? = some m → s.load m.sender m.requestID = some o ∨ ∃ resp, (m, resp) ∈ s.answers

section Basics

variable {s s' : Exchange Body} {o o' : ℕ} {c c' : Call Body} {m m' : Asked Body}

theorem asks_of_calls (hc : s.calls[o]? = some c) : s.asks[o]? = some c.asked := by
  simp [asks, hc]

theorem mem_asks_of_calls (hc : s.calls[o]? = some c) : c.asked ∈ s.asks := List.mem_of_getElem? (asks_of_calls hc)

/-- Two requests with one ID are the same request. -/
theorem Inv.same (h : s.Inv) (hm : s.asks[o]? = some m) (hm' : s.asks[o']? = some m')
    (hid : m.requestID = m'.requestID) : o = o' ∧ m = m' := by
  have ho : o < (s.asks.map fun m => m.requestID).length := by
    rw [List.length_map]
    exact (List.getElem?_eq_some_iff.mp hm).1
  have hget : (s.asks.map fun m => m.requestID)[o]? = (s.asks.map fun m => m.requestID)[o']? := by
    simp [hm, hm', hid]
  obtain rfl := (List.getElem?_inj ho h.unique).mp hget
  exact ⟨rfl, Option.some.inj (hm.symm.trans hm')⟩

theorem Inv.same_of_mem (h : s.Inv) (hm : m ∈ s.asks) (hm' : m' ∈ s.asks) (hid : m.requestID = m'.requestID) :
    m = m' := by
  obtain ⟨o, ho⟩ := List.mem_iff_getElem?.mp hm
  obtain ⟨o', ho'⟩ := List.mem_iff_getElem?.mp hm'
  exact (h.same ho ho' hid).2

theorem asks_setCall (hc : s.calls[o]? = some c) (hasked : c'.asked = c.asked) : (s.setCall o c').asks = s.asks := by
  unfold asks setCall
  dsimp only
  obtain ⟨ho, rfl⟩ := List.getElem?_eq_some_iff.mp hc
  rw [List.map_set, hasked, ← List.getElem_map Call.asked (h := by simpa using ho), List.set_getElem_self]

/-- The calls after one of them has been written. -/
theorem calls_setCall (hc : s.calls[o]? = some c) {d : Call Body} (hd : (s.setCall o c').calls[o']? = some d) :
    o' = o ∧ d = c' ∨ o' ≠ o ∧ s.calls[o']? = some d := by
  by_cases ho : o' = o
  · subst ho
    rw [setCall, List.getElem?_set_self (List.getElem?_eq_some_iff.mp hc).1] at hd
    exact .inl ⟨rfl, (Option.some.inj hd).symm⟩
  · rw [setCall, List.getElem?_set_ne (Ne.symm ho)] at hd
    exact .inr ⟨ho, hd⟩

theorem calls_setCall_ne (ho : o' ≠ o) : (s.setCall o c').calls[o']? = s.calls[o']? :=
  List.getElem?_set_ne (Ne.symm ho)

theorem calls_setCall_self (hc : s.calls[o]? = some c) : (s.setCall o c').calls[o]? = some c' :=
  List.getElem?_set_self (List.getElem?_eq_some_iff.mp hc).1

end Basics

section Flight

variable {s s' : Exchange Body}

theorem openIDs_requests {m : Asked Body} {rest : List (Asked Body)} (h : s.requests.Perm (m :: rest)) :
    s.openIDs.Perm (m.requestID :: { s with requests := rest }.openIDs) := by
  unfold openIDs
  exact (h.map _).append_right _

theorem openIDs_serving {m : Asked Body × Option BaseResponse} {rest : List (Asked Body × Option BaseResponse)}
    (h : s.serving.Perm (m :: rest)) : s.openIDs.Perm (m.1.requestID :: { s with serving := rest }.openIDs) := by
  unfold openIDs
  exact (((h.map _).append_right _).append_left _).trans List.perm_middle

theorem openIDs_responses {p : ℕ × BaseResponse} {rest : List (ℕ × BaseResponse)} (h : s.responses.Perm (p :: rest)) :
    s.openIDs.Perm (p.2.requestID :: { s with responses := rest }.openIDs) := by
  unfold openIDs
  refine ((((h.map _).append_right _).append_left _).append_left _).trans ?_
  exact (List.Perm.append_left _ List.perm_middle).trans List.perm_middle

theorem openIDs_loaded {p : ℕ × ℕ × BaseResponse} {rest : List (ℕ × ℕ × BaseResponse)}
    (h : s.loaded.Perm (p :: rest)) : s.openIDs.Perm (p.2.2.requestID :: { s with loaded := rest }.openIDs) := by
  unfold openIDs
  refine ((((h.map _).append_left _).append_left _).append_left _).trans ?_
  refine (List.Perm.append_left _ ?_).trans List.perm_middle
  exact (List.Perm.append_left _ List.perm_middle).trans List.perm_middle

/-- What threads know stays true when there are more answers. -/
theorem Knows.mono {o : ℕ} {m : Asked Body} {t : Thread} (h : s.Knows o m t)
    (hanswers : ∀ a ∈ s.answers, a ∈ s'.answers) : s'.Knows o m t := by
  cases t with
  | sent => trivial
  | waiting o' => exact h
  | returned resp => exact Or.imp_right (hanswers _) h
  | notFound =>
    obtain ⟨resp, hresp⟩ := h
    exact ⟨resp, hanswers _ hresp⟩

/-- Steps of messages, which reach no request and no map. -/
theorem Inv.flight (h : s.Inv) (hcalls : s'.calls = s.calls)
    (hmap : s'.waitingResponseMap = s.waitingResponseMap) (hwritten : s'.written = s.written)
    (hanswers : ∀ a ∈ s.answers, a ∈ s'.answers) {l : List String} (hopen : s.openIDs.Perm (l ++ s'.openIDs))
    (requested : ∀ m ∈ s'.requests, m ∈ s.asks ∧ m.requestID ∉ s'.answeredIDs)
    (served : ∀ m ∈ s'.serving, m.1 ∈ s.asks ∧ m.1.requestID ∉ s'.answeredIDs ∧
      ∀ resp, m.2 = some resp → resp.requestID = m.1.requestID)
    (responded : ∀ p ∈ s'.responses, ∃ m ∈ s.asks, m.sender = p.1 ∧ (m, p.2) ∈ s'.answers)
    (loaded : ∀ p ∈ s'.loaded, ∃ m, s.asks[p.2.1]? = some m ∧ (m, p.2.2) ∈ s'.answers)
    (answered : ∀ a ∈ s'.answers, a.1 ∈ s.asks ∧ a.2.requestID = a.1.requestID)
    (answersNodup : s'.answeredIDs.Nodup) : s'.Inv := by
  have hasks : s'.asks = s.asks := by rw [asks, asks, hcalls]
  have hload : s'.load = s.load := by funext i id; rw [load, load, hmap]
  have hsub : ∀ id ∈ s'.openIDs, id ∈ s.openIDs := fun id hid => hopen.mem_iff.mpr (List.mem_append_right _ hid)
  constructor
  · rw [hasks]
    exact h.unique
  · exact (List.nodup_append.mp (hopen.nodup_iff.mp h.openNodup)).2.1
  · intro id hid
    rw [hcalls, hload]
    exact h.awaited id (hsub id hid)
  · rw [hasks, hload]
    exact h.mapped
  · rw [hasks]
    exact requested
  · rw [hasks]
    exact served
  · rw [hasks]
    exact responded
  · rw [hasks]
    exact loaded
  · intro p hp
    rw [hwritten] at hp
    obtain ⟨hclosed, m, hm, hid, resp, hresp⟩ := h.written p hp
    rw [hasks]
    exact ⟨fun hin => hclosed (hsub _ hin), m, hm, hid, resp, hanswers _ hresp⟩
  · rw [hasks]
    exact answered
  · exact answersNodup
  · intro c hc resp hresp
    rw [hcalls] at hc
    exact hanswers _ (h.chan c hc resp hresp)
  · intro o c hc
    rw [hcalls] at hc
    exact (h.threads o c hc).mono hanswers
  · intro o m hm
    rw [hasks] at hm
    rw [hload]
    refine (h.kept o m hm).imp_right ?_
    rintro ⟨resp, hresp⟩
    exact ⟨resp, hanswers _ hresp⟩

end Flight

section Steps

variable {s : Exchange Body} {asked : Asked Body}

theorem Inv.deliver (h : s.Inv) {rest : List (Asked Body)} (hperm : s.requests.Perm (asked :: rest)) :
    Inv { s with requests := rest, serving := (asked, none) :: s.serving } := by
  have hasked := h.requested asked (hperm.mem_iff.mpr List.mem_cons_self)
  refine h.flight (l := []) rfl rfl rfl (fun _ ha => ha) ?_ ?_ ?_ h.responded h.loaded h.answered h.answersNodup
  · refine (openIDs_requests hperm).trans (List.Perm.symm ?_)
    exact openIDs_serving (s := { s with requests := rest, serving := (asked, none) :: s.serving }) (List.Perm.refl _)
  · exact fun m hm => h.requested m (hperm.mem_iff.mpr (List.mem_cons_of_mem _ hm))
  · intro m hm
    rcases List.mem_cons.mp hm with rfl | hm
    · exact ⟨hasked.1, hasked.2, fun resp hresp => by cases hresp⟩
    · exact h.served m hm

theorem Inv.loseRequest (h : s.Inv) {rest : List (Asked Body)} (hperm : s.requests.Perm (asked :: rest)) :
    Inv { s with requests := rest } := by
  refine h.flight (l := [asked.requestID]) rfl rfl rfl (fun _ ha => ha) (openIDs_requests hperm) ?_ h.served
    h.responded h.loaded h.answered h.answersNodup
  exact fun m hm => h.requested m (hperm.mem_iff.mpr (List.mem_cons_of_mem _ hm))

theorem Inv.serve (h : s.Inv) {chan : Option BaseResponse} {rest : List (Asked Body × Option BaseResponse)}
    {resp : BaseResponse} (hid : resp.requestID = asked.requestID) (hperm : s.serving.Perm ((asked, chan) :: rest)) :
    Inv { s with serving := (asked, chan.or (some resp)) :: rest } := by
  have hasked := h.served (asked, chan) (hperm.mem_iff.mpr List.mem_cons_self)
  refine h.flight (l := []) rfl rfl rfl (fun _ ha => ha) ?_ h.requested ?_ h.responded h.loaded h.answered
    h.answersNodup
  · refine (openIDs_serving hperm).trans (List.Perm.symm ?_)
    exact openIDs_serving (s := { s with serving := (asked, chan.or (some resp)) :: rest })
      (m := (asked, chan.or (some resp))) (List.Perm.refl _)
  · intro m hm
    rcases List.mem_cons.mp hm with rfl | hm
    · refine ⟨hasked.1, hasked.2.1, fun resp' hresp' => ?_⟩
      rcases Option.or_eq_some_iff.mp hresp' with hchan | ⟨-, hresp⟩
      · exact hasked.2.2 resp' hchan
      · rw [← Option.some.inj hresp]
        exact hid
    · exact h.served m (hperm.mem_iff.mpr (List.mem_cons_of_mem _ hm))

/-- The one response to a request. -/
theorem Inv.answer (h : s.Inv) {chan : Option BaseResponse} {rest : List (Asked Body × Option BaseResponse)}
    {resp : BaseResponse} (hid : resp.requestID = asked.requestID) (hperm : s.serving.Perm ((asked, chan) :: rest)) :
    Inv { s with
      serving := rest, responses := (asked.sender, resp) :: s.responses, answers := (asked, resp) :: s.answers } := by
  have hasked := h.served (asked, chan) (hperm.mem_iff.mpr List.mem_cons_self)
  have hopen := openIDs_serving hperm
  have hnew := List.nodup_cons.mp (hopen.nodup_iff.mp h.openNodup)
  refine h.flight (l := []) rfl rfl rfl (fun _ ha => List.mem_cons_of_mem _ ha) ?_ ?_ ?_ ?_ ?_ ?_ ?_
  · refine hopen.trans (List.Perm.symm ?_)
    rw [← hid]
    exact openIDs_responses (s := { s with serving := rest, responses := (asked.sender, resp) :: s.responses })
      (List.Perm.refl _)
  · intro m hm
    obtain ⟨hmem, hfree⟩ := h.requested m hm
    refine ⟨hmem, List.not_mem_cons_of_ne_of_not_mem (fun heq => hnew.1 ?_) hfree⟩
    rw [← show m.requestID = asked.requestID from heq]
    exact List.mem_append_left _ (List.mem_map_of_mem hm)
  · intro m hm
    obtain ⟨hmem, hfree, hresp⟩ := h.served m (hperm.mem_iff.mpr (List.mem_cons_of_mem _ hm))
    refine ⟨hmem, List.not_mem_cons_of_ne_of_not_mem (fun heq => hnew.1 ?_) hfree, hresp⟩
    rw [← show m.1.requestID = asked.requestID from heq]
    exact List.mem_append_right _ (List.mem_append_left _ (List.mem_map_of_mem (f := fun m => m.1.requestID) hm))
  · intro p hp
    rcases List.mem_cons.mp hp with rfl | hp
    · exact ⟨asked, hasked.1, rfl, List.mem_cons_self⟩
    · obtain ⟨m, hm, hsender, hans⟩ := h.responded p hp
      exact ⟨m, hm, hsender, List.mem_cons_of_mem _ hans⟩
  · intro p hp
    obtain ⟨m, hm, hans⟩ := h.loaded p hp
    exact ⟨m, hm, List.mem_cons_of_mem _ hans⟩
  · intro a ha
    rcases List.mem_cons.mp ha with rfl | ha
    · exact ⟨hasked.1, hid⟩
    · exact h.answered a ha
  · exact List.nodup_cons.mpr ⟨hasked.2.1, h.answersNodup⟩

variable {notary : ℕ} {resp : BaseResponse}

theorem Inv.loseResponse (h : s.Inv) {rest : List (ℕ × BaseResponse)}
    (hperm : s.responses.Perm ((notary, resp) :: rest)) : Inv { s with responses := rest } := by
  refine h.flight (l := [resp.requestID]) rfl rfl rfl (fun _ ha => ha) (openIDs_responses hperm) h.requested h.served
    ?_ h.loaded h.answered h.answersNodup
  exact fun p hp => h.responded p (hperm.mem_iff.mpr (List.mem_cons_of_mem _ hp))

/-- A response that arrives finds the request that it is for. -/
theorem Inv.load (h : s.Inv) {rest : List (ℕ × BaseResponse)}
    (hperm : s.responses.Perm ((notary, resp) :: rest)) :
    Inv { s with
      responses := rest
      loaded := ((s.load notary resp.requestID).map fun o => (notary, o, resp)).toList ++ s.loaded } := by
  obtain ⟨m, hm, hsender, hans⟩ := h.responded (notary, resp) (hperm.mem_iff.mpr List.mem_cons_self)
  have hid : resp.requestID = m.requestID := (h.answered _ hans).2
  have hrest : ∀ p ∈ rest, ∃ m ∈ s.asks, m.sender = p.1 ∧ (m, p.2) ∈ s.answers :=
    fun p hp => h.responded p (hperm.mem_iff.mpr (List.mem_cons_of_mem _ hp))
  cases hload : s.load notary resp.requestID with
  | none => exact h.loseResponse hperm
  | some o =>
    obtain ⟨m', hm', hid', -⟩ := h.mapped _ _ _ hload
    obtain rfl := h.same_of_mem hm (List.mem_of_getElem? hm') (hid.symm.trans hid'.symm)
    refine h.flight (l := []) rfl rfl rfl (fun _ ha => ha) ?_ h.requested h.served hrest ?_ h.answered
      h.answersNodup
    · refine (openIDs_responses hperm).trans (List.Perm.symm ?_)
      exact openIDs_loaded (s := { s with responses := rest, loaded := (notary, o, resp) :: s.loaded })
        (List.Perm.refl _)
    · intro p hp
      rcases List.mem_cons.mp hp with rfl | hp
      · exact ⟨m, hm', hans⟩
      · exact h.loaded p hp

/-- Steps of the threads that made requests. They may empty channels, but do not fill them. -/
theorem Inv.thread (h : s.Inv) {o : ℕ} {c c' : Call Body} (hc : s.calls[o]? = some c) (hasked : c'.asked = c.asked)
    (hchan : ∀ resp, c'.responseChan = some resp → c.responseChan = some resp)
    (hknows : s.Knows o c.asked c'.thread) : (s.setCall o c').Inv := by
  have hasks := asks_setCall hc hasked
  constructor
  · rw [hasks]
    exact h.unique
  · exact h.openNodup
  · intro id hid
    obtain ⟨o', d, hd, hdid, hempty, hload⟩ := h.awaited id hid
    by_cases ho : o' = o
    · subst ho
      obtain rfl := Option.some.inj (hc.symm.trans hd)
      refine ⟨o', c', calls_setCall_self hc, by rw [hasked]; exact hdid, ?_, by rw [hasked]; exact hload⟩
      cases hresp : c'.responseChan with
      | none => rfl
      | some resp => exact absurd ((hchan resp hresp).symm.trans hempty) (Option.some_ne_none resp)
    · exact ⟨o', d, (calls_setCall_ne ho).trans hd, hdid, hempty, hload⟩
  · rw [hasks]
    exact h.mapped
  · rw [hasks]
    exact h.requested
  · rw [hasks]
    exact h.served
  · rw [hasks]
    exact h.responded
  · rw [hasks]
    exact h.loaded
  · rw [hasks]
    exact h.written
  · rw [hasks]
    exact h.answered
  · exact h.answersNodup
  · intro d hd resp hresp
    obtain ⟨o', hd⟩ := List.mem_iff_getElem?.mp hd
    rcases calls_setCall hc hd with ⟨rfl, rfl⟩ | ⟨-, hd⟩
    · rw [hasked]
      exact h.chan c (List.mem_of_getElem? hc) resp (hchan resp hresp)
    · exact h.chan d (List.mem_of_getElem? hd) resp hresp
  · intro o' d hd
    rcases calls_setCall hc hd with ⟨rfl, rfl⟩ | ⟨-, hd⟩
    · rw [hasked]
      exact hknows.mono fun _ ha => ha
    · exact (h.threads o' d hd).mono fun _ ha => ha
  · rw [hasks]
    exact h.kept

theorem Inv.look (h : s.Inv) {o : ℕ} {c : Call Body} (hc : s.calls[o]? = some c) :
    (s.setCall o { c with thread := s.look c }).Inv := by
  refine h.thread hc rfl (fun _ hresp => hresp) ?_
  unfold Exchange.look
  cases hload : s.load c.asked.sender c.asked.requestID with
  | none =>
    rcases h.kept o c.asked (asks_of_calls hc) with hkept | hans
    · exact absurd (hload.symm.trans hkept).symm (Option.some_ne_none o)
    · exact hans
  | some o' =>
    obtain ⟨m, hm, hid, -⟩ := h.mapped _ _ _ hload
    exact (h.same hm (asks_of_calls hc) hid).1

theorem Inv.receive (h : s.Inv) {o o' : ℕ} {c c' : Call Body} (hc : s.calls[o]? = some c)
    (hwaiting : c.thread = .waiting o') (hc' : s.calls[o']? = some c') (hresp : c'.responseChan = some resp) :
    ((s.setCall o' { c' with responseChan := none }).setCall o
      { (if o = o' then { c' with responseChan := none } else c) with thread := .returned resp }).Inv := by
  have hknows := h.threads o c hc
  rw [hwaiting] at hknows
  obtain rfl : o' = o := hknows
  obtain rfl := Option.some.inj (hc.symm.trans hc')
  have hempty : (s.setCall o' { c with responseChan := none }).Inv :=
    h.thread hc rfl (fun resp hresp => absurd hresp.symm (Option.some_ne_none resp)) (h.threads o' c hc)
  simp only [if_true]
  exact hempty.thread (calls_setCall_self hc) rfl (fun _ hresp => hresp)
    (.inr (h.chan c (List.mem_of_getElem? hc) resp hresp))

/-- The channel of the request is empty, as it has had no other response. -/
theorem Inv.write (h : s.Inv) {o : ℕ} {c : Call Body} {rest : List (ℕ × ℕ × BaseResponse)}
    (hperm : s.loaded.Perm ((notary, o, resp) :: rest)) (hc : s.calls[o]? = some c) :
    Inv { s.setCall o { c with responseChan := some resp } with
      loaded := rest, written := (notary, resp.requestID) :: s.written } := by
  obtain ⟨m, hm, hans⟩ := h.loaded (notary, o, resp) (hperm.mem_iff.mpr List.mem_cons_self)
  obtain rfl : c.asked = m := Option.some.inj ((asks_of_calls hc).symm.trans hm)
  have hid : resp.requestID = c.asked.requestID := (h.answered _ hans).2
  have hasks : (s.setCall o { c with responseChan := some resp }).asks = s.asks := asks_setCall hc rfl
  have hopen : s.openIDs.Perm (resp.requestID :: { s with loaded := rest }.openIDs) := openIDs_loaded hperm
  have hnodup := List.nodup_cons.mp (hopen.nodup_iff.mp h.openNodup)
  have hsub : ∀ id ∈ ({ s with loaded := rest } : Exchange Body).openIDs, id ∈ s.openIDs :=
    fun id hin => hopen.mem_iff.mpr (List.mem_cons_of_mem _ hin)
  constructor
  · exact hasks ▸ h.unique
  · exact hnodup.2
  · intro id hin
    obtain ⟨o', d, hd, hdid, hempty, hload⟩ := h.awaited id (hsub id hin)
    have ho : o' ≠ o := by
      rintro rfl
      obtain rfl := Option.some.inj (hc.symm.trans hd)
      exact hnodup.1 (by rw [hid, hdid]; exact hin)
    exact ⟨o', d, (calls_setCall_ne ho).trans hd, hdid, hempty, hload⟩
  · exact hasks ▸ h.mapped
  · exact hasks ▸ h.requested
  · exact hasks ▸ h.served
  · exact hasks ▸ h.responded
  · exact hasks ▸ fun p hp => h.loaded p (hperm.mem_iff.mpr (List.mem_cons_of_mem _ hp))
  · intro p hp
    rcases List.mem_cons.mp hp with rfl | hp
    · exact ⟨hnodup.1, c.asked, hasks ▸ mem_asks_of_calls hc, hid.symm, resp, hans⟩
    · obtain ⟨hclosed, m, hmem, hrest⟩ := h.written p hp
      exact ⟨fun hin => hclosed (hsub _ hin), m, hasks ▸ hmem, hrest⟩
  · exact hasks ▸ h.answered
  · exact h.answersNodup
  · intro d hd resp' hresp'
    obtain ⟨o', hd⟩ := List.mem_iff_getElem?.mp hd
    rcases calls_setCall hc hd with ⟨rfl, rfl⟩ | ⟨-, hd⟩
    · rw [← Option.some.inj hresp']
      exact hans
    · exact h.chan d (List.mem_of_getElem? hd) resp' hresp'
  · intro o' d hd
    rcases calls_setCall hc hd with ⟨rfl, rfl⟩ | ⟨-, hd⟩
    · exact (h.threads o' c hc).mono fun _ ha => ha
    · exact (h.threads o' d hd).mono fun _ ha => ha
  · exact hasks ▸ h.kept

theorem load_delete (s : Exchange Body) (notary : ℕ) (requestID : String) (i : ℕ) (id : String) :
    (s.delete notary requestID).load i id = if i = notary ∧ id = requestID then none else s.load i id := by
  unfold delete Exchange.load
  dsimp only
  by_cases hi : i = notary
  · subst hi
    rw [Function.update_self]
    by_cases hid : id = requestID
    · subst hid
      rw [AList.lookup_erase, if_pos ⟨rfl, rfl⟩]
    · rw [AList.lookup_erase_ne hid, if_neg fun heq => hid heq.2]
  · rw [Function.update_of_ne hi, if_neg fun heq => hi heq.1]

/-- A request that is taken from the map has been answered. -/
theorem Inv.delete (h : s.Inv) {requestID : String} {rest : List (ℕ × String)}
    (hperm : s.written.Perm ((notary, requestID) :: rest)) :
    Inv { s.delete notary requestID with written := rest } := by
  obtain ⟨hclosed, m, hm, hid, resp, hans⟩ := h.written (notary, requestID) (hperm.mem_iff.mpr List.mem_cons_self)
  have hne : ∀ i id, id ≠ requestID → (s.delete notary requestID).load i id = s.load i id := by
    intro i id hne
    rw [load_delete, if_neg fun heq => hne heq.2]
  refine { h with awaited := ?_, mapped := ?_, written := ?_, kept := ?_ }
  · intro id hin
    obtain ⟨o, c, hc, hcid, hempty, hload⟩ := h.awaited id hin
    exact ⟨o, c, hc, hcid, hempty, (hne _ _ fun heq => hclosed (heq ▸ hin)).trans hload⟩
  · intro i id o hload
    refine h.mapped i id o ?_
    have hload' : (s.delete notary requestID).load i id = some o := hload
    rw [load_delete] at hload'
    split at hload'
    · cases hload'
    · exact hload'
  · exact fun p hp => h.written p (hperm.mem_iff.mpr (List.mem_cons_of_mem _ hp))
  · intro o m' hm'
    rcases h.kept o m' hm' with hload | hans'
    · by_cases heq : m'.requestID = requestID
      · obtain rfl := h.same_of_mem hm (List.mem_of_getElem? hm') (hid.trans heq.symm)
        exact .inr ⟨resp, hans⟩
      · exact .inl ((hne _ _ heq).trans hload)
    · exact .inr hans'

/-- A new request is found under its ID, and no other request is touched. -/
theorem load_send (h : s.Inv) (hnew : ∀ c ∈ s.calls, c.asked.requestID ≠ asked.requestID) (i : ℕ) (id : String) :
    (s.sendWSReqToNotary asked).load i id =
      if i = asked.sender ∧ id = asked.requestID then some s.calls.length else s.load i id := by
  have hnone : AList.lookup asked.requestID (s.waitingResponseMap asked.sender) = none := by
    cases hload : s.load asked.sender asked.requestID with
    | none => exact hload
    | some o =>
      obtain ⟨m, hm, hid, -⟩ := h.mapped _ _ _ hload
      obtain ⟨c, hc, rfl⟩ := List.mem_map.mp (List.mem_of_getElem? hm)
      exact absurd hid (hnew c hc)
  unfold sendWSReqToNotary load
  simp only [hnone, if_true]
  by_cases hi : i = asked.sender
  · subst hi
    rw [Function.update_self]
    by_cases hid : id = asked.requestID
    · subst hid
      rw [AList.lookup_insert, if_pos ⟨rfl, rfl⟩]
    · rw [AList.lookup_insert_ne hid, if_neg fun heq => hid heq.2]
  · rw [Function.update_of_ne hi, if_neg fun heq => hi heq.1]

theorem Inv.send (h : s.Inv) (hnew : ∀ c ∈ s.calls, c.asked.requestID ≠ asked.requestID) :
    (s.sendWSReqToNotary asked).Inv := by
  have hnew' : ∀ m ∈ s.asks, m.requestID ≠ asked.requestID := by
    intro m hm
    obtain ⟨c, hc, rfl⟩ := List.mem_map.mp hm
    exact hnew c hc
  have hasks : (s.sendWSReqToNotary asked).asks = s.asks ++ [asked] := List.map_append
  have hlen : s.asks.length = s.calls.length := List.length_map _
  have hopen : (s.sendWSReqToNotary asked).openIDs.Perm (asked.requestID :: s.openIDs) := List.Perm.refl _
  have hfree : asked.requestID ∉ s.openIDs := by
    intro hin
    obtain ⟨o, c, hc, hid, -⟩ := h.awaited _ hin
    exact hnew c (List.mem_of_getElem? hc) hid
  have hunanswered : asked.requestID ∉ s.answeredIDs := by
    intro hin
    obtain ⟨a, ha, hid⟩ := List.mem_map.mp hin
    exact hnew' a.1 (h.answered a ha).1 hid
  have hasksmem : ∀ m ∈ s.asks, m ∈ (s.sendWSReqToNotary asked).asks :=
    fun m hm => hasks ▸ List.mem_append_left _ hm
  have hasksget : ∀ {o : ℕ} {m : Asked Body}, s.asks[o]? = some m →
      (s.sendWSReqToNotary asked).asks[o]? = some m := by
    intro o m hm
    rw [hasks, List.getElem?_append_left (List.getElem?_eq_some_iff.mp hm).1]
    exact hm
  have hload : ∀ {i id}, id ≠ asked.requestID → (s.sendWSReqToNotary asked).load i id = s.load i id := by
    intro i id hne
    rw [load_send h hnew, if_neg fun heq => hne heq.2]
  constructor
  · rw [hasks, List.map_append]
    exact List.nodup_append_comm.mp (List.nodup_cons.mpr ⟨fun hin => by
      obtain ⟨m, hm, hid⟩ := List.mem_map.mp hin
      exact hnew' m hm hid, h.unique⟩)
  · exact hopen.nodup_iff.mpr (List.nodup_cons.mpr ⟨hfree, h.openNodup⟩)
  · intro id hin
    rcases List.mem_cons.mp (hopen.mem_iff.mp hin) with rfl | hin
    · refine ⟨s.calls.length, { asked := asked }, List.getElem?_concat_length, rfl, rfl, ?_⟩
      rw [load_send h hnew, if_pos ⟨rfl, rfl⟩]
    · obtain ⟨o, c, hc, hid, hempty, hfound⟩ := h.awaited id hin
      refine ⟨o, c, ?_, hid, hempty, (hload fun heq => hfree (heq ▸ hin)).trans hfound⟩
      exact (List.getElem?_append_left (List.getElem?_eq_some_iff.mp hc).1).trans hc
  · intro i id o hfound
    rw [load_send h hnew] at hfound
    split at hfound
    · rename_i heq
      refine ⟨asked, ?_, heq.2.symm, heq.1.symm⟩
      rw [← Option.some.inj hfound, ← hlen, hasks]
      exact List.getElem?_concat_length
    · obtain ⟨m, hm, hrest⟩ := h.mapped i id o hfound
      exact ⟨m, hasksget hm, hrest⟩
  · intro m hm
    rcases List.mem_cons.mp hm with rfl | hm
    · exact ⟨hasks ▸ List.mem_append_right _ List.mem_cons_self, hunanswered⟩
    · exact ⟨hasksmem m (h.requested m hm).1, (h.requested m hm).2⟩
  · exact fun m hm => ⟨hasksmem m.1 (h.served m hm).1, (h.served m hm).2⟩
  · intro p hp
    obtain ⟨m, hm, hrest⟩ := h.responded p hp
    exact ⟨m, hasksmem m hm, hrest⟩
  · intro p hp
    obtain ⟨m, hm, hrest⟩ := h.loaded p hp
    exact ⟨m, hasksget hm, hrest⟩
  · intro p hp
    obtain ⟨hclosed, m, hm, hid, hrest⟩ := h.written p hp
    refine ⟨fun hin => ?_, m, hasksmem m hm, hid, hrest⟩
    rcases List.mem_cons.mp (hopen.mem_iff.mp hin) with heq | hin
    · exact hnew' m hm (hid.trans heq)
    · exact hclosed hin
  · exact fun a ha => ⟨hasksmem a.1 (h.answered a ha).1, (h.answered a ha).2⟩
  · exact h.answersNodup
  · intro c hc resp hresp
    rcases List.mem_append.mp hc with hc | hc
    · exact h.chan c hc resp hresp
    · rw [List.mem_singleton.mp hc] at hresp
      cases hresp
  · intro o c hc
    by_cases ho : o < s.calls.length
    · exact h.threads o c ((List.getElem?_append_left ho).symm.trans hc)
    · have hmem := (List.getElem?_append_right (Nat.le_of_not_lt ho)).symm.trans hc
      rw [List.mem_singleton.mp (List.mem_of_getElem? hmem)]
      trivial
  · intro o m hm
    rw [hasks] at hm
    by_cases ho : o < s.asks.length
    · rw [List.getElem?_append_left ho] at hm
      rw [hload (hnew' m (List.mem_of_getElem? hm))]
      exact h.kept o m hm
    · have ho' : o < (s.asks ++ [asked]).length := (List.getElem?_eq_some_iff.mp hm).1
      obtain rfl : o = s.asks.length := by
        simp only [List.length_append, List.length_singleton] at ho'
        omega
      obtain rfl : asked = m := Option.some.inj (List.getElem?_concat_length.symm.trans hm)
      rw [load_send h hnew, if_pos ⟨rfl, rfl⟩, hlen]
      exact .inl rfl

end Steps

/-- One step of an honest notary. -/
theorem Inv.step {s s' : Exchange Body} {a : Input Body} (h : s.Inv) (honest : s.Honest a) (hstep : Step s a s') :
    s'.Inv := by
  cases hstep with
  | send asked => exact h.send honest
  | look hc hsent => exact h.look hc
  | receive hc hwaiting hc' hresp => exact h.receive hc hwaiting hc' hresp
  | timeout hc hwaiting => exact h.thread hc rfl (fun _ hresp => hresp) (.inl rfl)
  | deliver hperm => exact h.deliver hperm
  | loseRequest hperm => exact h.loseRequest hperm
  | serve resp hid hperm => exact h.serve hid hperm
  | respond hperm =>
    exact h.answer ((h.served _ (hperm.mem_iff.mpr List.mem_cons_self)).2.2 _ rfl) hperm
  | timeoutService hperm => exact h.answer rfl hperm
  | loseResponse hperm => exact h.loseResponse hperm
  | load hperm => exact h.load hperm
  | write hperm hc hempty => exact h.write hperm hc
  | delete hperm => exact h.delete hperm
  | forge notary resp => exact honest.elim

theorem Inv.new : Inv ({} : Exchange Body) where
  unique := List.nodup_nil
  openNodup := List.nodup_nil
  awaited := by simp [openIDs]
  mapped := fun i id o ho => absurd ho.symm (Option.some_ne_none o)
  requested := by simp
  served := by simp
  responded := by simp
  loaded := by simp
  written := by simp
  answered := by simp
  answersNodup := List.nodup_nil
  chan := by simp
  threads := fun o c hc => absurd hc.symm (Option.some_ne_none c)
  kept := by simp [asks]

theorem HonestRun.inv {s : Exchange Body} (h : HonestRun s) : s.Inv := by
  refine Reachable.invariant ?_ ?_ h
  · rintro s rfl
    exact Inv.new
  · rintro s s' - hinv ⟨a, honest, hstep⟩
    exact hinv.step honest hstep

/-- Whatever messages are delayed or lost and whichever thread goes on next, the responses of honest notaries reach the
requests that they are for. -/
theorem correlated {s : Exchange Body} (h : HonestRun s) : s.Correlated where
  unblocked := by
    rintro ⟨notary, o, resp, c, hloaded, hc, hfull⟩
    have hin : resp.requestID ∈ s.openIDs :=
      List.mem_append_right _ (List.mem_append_right _ (List.mem_append_right _
        (List.mem_map_of_mem (f := fun p => p.2.2.requestID) hloaded)))
    obtain ⟨o', c', hc', hid, hempty, -⟩ := h.inv.awaited _ hin
    obtain ⟨m, hm, hans⟩ := h.inv.loaded _ hloaded
    obtain ⟨rfl, -⟩ := h.inv.same hm (asks_of_calls hc') ((h.inv.answered _ hans).2.symm.trans hid.symm)
    obtain rfl := Option.some.inj (hc.symm.trans hc')
    exact hfull hempty
  own := by
    intro c hc resp hreturned
    obtain ⟨o, ho⟩ := List.mem_iff_getElem?.mp hc
    have hknows := h.inv.threads o c ho
    rw [hreturned] at hknows
    exact hknows
  lost := by
    intro c hc hlost
    obtain ⟨o, ho⟩ := List.mem_iff_getElem?.mp hc
    have hknows := h.inv.threads o c ho
    rw [hlost] at hknows
    exact hknows
  once := h.inv.answersNodup
  kept := by
    intro o c hc hnone
    rcases h.inv.kept o c.asked (asks_of_calls hc) with hload | ⟨resp, hans⟩
    · exact hload
    · exact absurd hans (hnone resp)

/-- A request of the first notary to the second. -/
def askFirst : Asked Unit where
  requestID := "first"
  sender := 0
  target := 1
  body := ()

def agrees : BaseResponse where
  requestID := "first"
  errorCode := "0000"
  errorMsg := "success"

theorem exists_returned : ∃ s : Exchange Unit, HonestRun s ∧
    s.calls = [{ asked := askFirst, thread := .returned agrees }] := by
  have hstart : HonestRun ({} : Exchange Unit) := .init rfl
  have hsend := hstart.step ⟨.send askFirst, fun _ hc => absurd hc List.not_mem_nil, .send askFirst⟩
  have hlook := hsend.step ⟨.look 0, trivial, .look rfl rfl⟩
  have hdeliver := hlook.step ⟨.deliver askFirst, trivial, .deliver (List.Perm.refl _)⟩
  have hserve := hdeliver.step ⟨.serve askFirst agrees, trivial, .serve agrees rfl (List.Perm.refl _)⟩
  have hrespond := hserve.step ⟨.respond askFirst, trivial, .respond (List.Perm.refl _)⟩
  have hload := hrespond.step ⟨.load 0 agrees, trivial, .load (List.Perm.refl _)⟩
  have hwrite := hload.step ⟨.write 0 agrees, trivial, .write (o := 0) (List.Perm.refl _) rfl rfl⟩
  have hreceive := hwrite.step ⟨.receive 0, trivial, .receive (o := 0) rfl rfl rfl rfl⟩
  exact ⟨_, hreceive, rfl⟩

theorem correlated_returned : ∃ s : Exchange Unit, s.Correlated ∧
    s.calls = [{ asked := askFirst, thread := .returned agrees }] := by
  obtain ⟨s, hrun, hcalls⟩ := exists_returned
  exact ⟨s, correlated hrun, hcalls⟩

/-- A peer that responds twice, on two connections, stops the notary: the second thread finds the channel full. -/
theorem two_responses_panic :
    ∃ s : Exchange Unit, Reachable (fun s => s = {}) (fun s s' => ∃ a, Step s a s') s ∧ s.Panics := by
  have hstart : Reachable (fun s : Exchange Unit => s = {}) (fun s s' => ∃ a, Step s a s') {} := .init rfl
  have hsend := hstart.step ⟨.send askFirst, .send askFirst⟩
  have hforge := (hsend.step ⟨_, .forge 0 agrees⟩).step ⟨_, .forge 0 agrees⟩
  have hload := (hforge.step ⟨_, .load (List.Perm.refl _)⟩).step ⟨_, .load (List.Perm.refl _)⟩
  have hwrite := hload.step ⟨_, .write (o := 0) (List.Perm.refl _) rfl rfl⟩
  exact ⟨_, hwrite, 0, 0, agrees, _, List.mem_cons_self, rfl, Option.some_ne_none agrees⟩

end Exchange

end DistributedNotary.Api
