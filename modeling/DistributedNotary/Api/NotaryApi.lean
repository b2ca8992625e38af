import DistributedNotary.Api.Request
import DistributedNotary.Library.RangeMap

/-! The endpoint on which a notary receives the requests of the others. Each message
is parsed, its sender compared with its signer, and the request is handed to the
service when its signature is valid. Requests with an answer start a thread that
sends it back over the queue for the sender. -/
namespace DistributedNotary.Api

open Library Contracts Service

def errorCodePermissionDenied : String := "2000"

def defaultErrorMsg : String := "unknown error"

def errorCode2MsgMap : List (String × String) :=
  [("0000", "success"), ("1000", "data not found"), (errorCodePermissionDenied, "permission denied"),
    ("3000", "request time out"), ("4000", "params wrong"), ("9999", "exception,best call admin")]

structure BaseResponse where
  requestID : String
  errorCode : String
  errorMsg : String
  data : Option Bytes := none

def newFailResponse (requestID errorCode : String) : BaseResponse where
  requestID := requestID
  errorCode := errorCode
  errorMsg := (errorCode2MsgMap.lookup errorCode).getD defaultErrorMsg

structure NotaryInfo where
  id : Int64
  addressStr : String

/-- `waitingResponseMap` has, for each request that waits, what its answer channel for one answer holds. `answered` are
the answers that were written to one, and `requestChan` the requests that were handed to the service. -/
structure NotaryAPI (Body : Type) where
  notaries : List NotaryInfo
  sendingChanMap : RangeMap Int64 (List BaseResponse)
  waitingResponseMap : RangeMap String (Option (Req Body)) := ∅
  answered : List (Req Body) := []
  requestChan : List (Req Body) := []

namespace NotaryAPI

variable {Body : Type} (w : Wire Body)

/-- There is a sending queue for every notary with an address other than one's own. -/
def newNotaryAPI (selfAddress : Address) (notaries : List NotaryInfo) : NotaryAPI Body where
  notaries := notaries
  sendingChanMap :=
    (notaries.filter fun n => w.hexToAddress n.addressStr ≠ selfAddress).foldl (fun m n => m.insert n.id []) ∅

variable (na : NotaryAPI Body)

def getNotaryInfoByID (notaryID : Int64) : Except String NotaryInfo :=
  match na.notaries.find? fun n => n.id = notaryID with
  | some notary => pure notary
  | none => throw s!"can not find notary info with id : {notaryID}"

/-- A request with a session must be signed in the name of the notary that it names as its sender. -/
def checkSender (r : Req Body) : Except Panic (Except String (Option (Req Body))) :=
  match na.getNotaryInfoByID r.senderNotaryID with
  | .error err => pure (.error err)
  | .ok sender => do
    let signer ← r.getSignerETHAddress w
    if w.hexToAddress sender.addressStr ≠ signer then
      pure (.error s!"signer address not euqal with msg.sender : signer={sender.addressStr} sender={w.addressString signer}")
    else pure (.ok (some r))

/-- The request that the content is, or the error for it. A name that is not known leaves the request nil. -/
def parseNotaryRequest (content : Bytes) : Except Panic (Except String (Option (Req Body))) :=
  match w.unmarshalBase content with
  | .error err => pure (.error err)
  | .ok none => throw .nilPointer
  | .ok (some name) =>
    match Kind.ofName name with
    | none => pure (.ok none)
    | some kind =>
      match w.unmarshal kind content with
      | .error err => pure (.error err)
      | .ok r => if r.kind.withSignature && r.kind.withSessionID then na.checkSender w r else pure (.ok (some r))

/-- Only a request of a type with a signature is verified. -/
def checkSign (r : Req Body) : Except Panic (Bool × Req Body) :=
  if r.kind.withSignature then r.verifySign w else pure (true, r)

/-- Hands a request that is signed to the service. The answer is what is then in the request's channel. -/
def sendToService (r : Req Body) : Except Panic (NotaryAPI Body × Option BaseResponse) := do
  let verified ← checkSign w r
  if verified.1 then pure ({ na with requestChan := na.requestChan ++ [verified.2] }, none)
  else if r.kind.withResponse then pure (na, some (newFailResponse r.requestID errorCodePermissionDenied))
  else throw .nilPointer

def sendWSReqToNotary (resp : BaseResponse) (targetNotaryID : Int64) : Except Panic (NotaryAPI Body) :=
  match na.sendingChanMap.lookup targetNotaryID with
  | some sendingQueue =>
      pure { na with sendingChanMap := na.sendingChanMap.insert targetNotaryID (sendingQueue ++ [resp]) }
  | none => throw .neverHappen

/-- `service` is the answer of the service, or the failure that is reported when it does not come in time. -/
def dealReq (service : Req Body → BaseResponse) : Option (Req Body) → Except Panic (NotaryAPI Body)
  | none => throw .nilPointer
  | some req =>
    if req.name = apiNameResponse then
      if req.kind = .response then
        match na.waitingResponseMap.lookup req.requestID with
        | none => pure na
        | some (some _) => throw .neverBlock
        | some none =>
          pure { na with
            waitingResponseMap := na.waitingResponseMap.erase req.requestID
            answered := na.answered ++ [req] }
      else throw .conversion
    else do
      let sent ← na.sendToService w req
      if req.kind.withResponse && req.kind.withSessionID then
        sent.1.sendWSReqToNotary (sent.2.getD (service req)) req.senderNotaryID
      else pure sent.1

/-- What is done with one message of a connection. An error closes the connection. -/
def receive (service : Req Body → BaseResponse) (content : Bytes) : Except Panic (NotaryAPI Body) := do
  match ← na.parseNotaryRequest w content with
  | .error _ => pure na
  | .ok req => na.dealReq w service req

/-- The request has a signature of its claimed signer, which is the notary that it names as its sender if it has a
session. -/
structure Authentic (r : Req Body) : Prop where
  signed : r.Signed w
  sender : r.kind.withSessionID = true → ∃ n, na.getNotaryInfoByID r.senderNotaryID = .ok n ∧
    r.getSignerETHAddress w = .ok (w.hexToAddress n.addressStr)

/-- All requests that have come onto the request channel are authentic. -/
def Admits (na' : NotaryAPI Body) : Prop :=
  ∃ added, na'.requestChan = na.requestChan ++ added ∧ ∀ r ∈ added, na.Authentic w r

/-- A request that the notary deals with. An answer must find its channel empty. The sender of a request with a session
must be unknown, or name a signer that is a point of the curve. If that is the sender, then the request must be one
that is answered and that comes from a notary with a queue, or have a valid signature if it is not answered. A
request without a session must have a valid signature. -/
def Harmless (r : Req Body) : Prop :=
  if r.kind = .response then ∀ resp, na.waitingResponseMap.lookup r.requestID ≠ some (some resp)
  else if r.kind.withSessionID then
    ∀ n, na.getNotaryInfoByID r.senderNotaryID = .ok n → ∃ signer, r.getSignerETHAddress w = .ok signer ∧
      (signer = w.hexToAddress n.addressStr →
        if r.kind.withResponse then (na.sendingChanMap.lookup r.senderNotaryID).isSome = true else r.SignedBy w signer)
  else r.Signed w

/-- A message that is not decoded, or that has the name of a request type and is not decoded as one, or that is a
harmless request. -/
def HarmlessContent (content : Bytes) : Prop :=
  ∀ base, w.unmarshalBase content = .ok base → ∃ name kind, base = some name ∧ Kind.ofName name = some kind ∧
    ∀ r, w.unmarshal kind content = .ok r → na.Harmless w r

section Steps

variable {w na} {r r' : Req Body}

theorem Admits.refl (na : NotaryAPI Body) : na.Admits w na := ⟨[], by simp, by simp⟩

theorem Admits.push (h : na.Authentic w r) : na.Admits w { na with requestChan := na.requestChan ++ [r] } :=
  ⟨[r], rfl, by simpa using h⟩

/-- The signature as the verification leaves it does not matter for who the sender is. -/
theorem authentic_of_verifySign (na : NotaryAPI Body) (hv : r.verifySign w = .ok (true, r'))
    (hsender : r.kind.withSessionID = true → ∃ n, na.getNotaryInfoByID r.senderNotaryID = .ok n ∧
      r.getSignerETHAddress w = .ok (w.hexToAddress n.addressStr)) : na.Authentic w r' := by
  obtain ⟨_, hsigned, sig, rfl⟩ := Req.signed_of_verifySign hv
  exact ⟨hsigned, hsender⟩

/-- An answer can be sent exactly to the notaries that have a queue. -/
theorem ends_sendWSReqToNotary (na : NotaryAPI Body) (resp : BaseResponse) (id : Int64) :
    Ends (na.sendWSReqToNotary resp id)
      (fun na' => na'.requestChan = na.requestChan ∧ (na.sendingChanMap.lookup id).isSome = true)
      fun _ => ¬ (na.sendingChanMap.lookup id).isSome = true := by
  unfold sendWSReqToNotary
  rcases na.sendingChanMap.lookup id with _ | queue
  · exact Bool.false_ne_true
  · exact ⟨rfl, rfl⟩

theorem sendToService_of_valid (hkind : r.kind.withSignature = true) (hv : r.verifySign w = .ok (true, r')) :
    na.sendToService w r = .ok ({ na with requestChan := na.requestChan ++ [r'] }, none) := by
  simp [sendToService, checkSign, hkind, hv, bind, Except.bind, pure, Except.pure]

theorem sendToService_of_invalid (hkind : r.kind.withSignature = true) (hv : r.verifySign w = .ok (false, r')) :
    na.sendToService w r =
      if r.kind.withResponse then .ok (na, some (newFailResponse r.requestID errorCodePermissionDenied))
      else .error .nilPointer := by
  simp [sendToService, checkSign, hkind, hv, bind, Except.bind, pure, Except.pure, throw, throwThe, MonadExceptOf.throw]

theorem sendToService_of_error {p : Panic} (hkind : r.kind.withSignature = true) (hv : r.verifySign w = .error p) :
    na.sendToService w r = .error p := by
  simp [sendToService, checkSign, hkind, hv, bind, Except.bind]

end Steps

section Requests

variable {w na} {r : Req Body} {service : Req Body → BaseResponse}

/-- An answer is handed to the request that waits for it, unless that has one. -/
theorem ends_dealReq_response (hname : r.name = apiNameResponse) (hkind : r.kind = .response) :
    Ends (na.dealReq w service (some r)) (fun na' => na.Admits w na' ∧ na.Harmless w r) fun _ => ¬ na.Harmless w r := by
  simp only [dealReq, Harmless, hname, hkind, if_true]
  rcases hwaiting : na.waitingResponseMap.lookup r.requestID with _ | _ | resp
  · exact ⟨Admits.refl na, by simp⟩
  · exact ⟨⟨[], by simp, by simp⟩, by simp⟩
  · intro h
    exact h resp rfl

/-- A request whose sender has signed in his own name is refused or put on the channel. It is harmless if the answer
can be sent, or if nothing is to be answered. -/
theorem ends_dealReq_session {n : NotaryInfo} (hname : r.name ≠ apiNameResponse) (hkind : r.kind.withSessionID = true)
    (hn : na.getNotaryInfoByID r.senderNotaryID = .ok n)
    (hsigner : r.getSignerETHAddress w = .ok (w.hexToAddress n.addressStr)) :
    Ends (na.dealReq w service (some r))
      (fun na' => na.Admits w na' ∧ if r.kind.withResponse then
        (na.sendingChanMap.lookup r.senderNotaryID).isSome = true else r.SignedBy w (w.hexToAddress n.addressStr))
      fun _ => ¬ if r.kind.withResponse then
        (na.sendingChanMap.lookup r.senderNotaryID).isSome = true
        else r.SignedBy w (w.hexToAddress n.addressStr) := by
  have hsig := Kind.withSignature_of_withSessionID hkind
  obtain ⟨valid, sig, hv, hiff, _⟩ := Req.verifySign_of_ok hsigner
  simp only [dealReq, if_neg hname, hkind, Bool.and_true]
  cases valid with
  | true =>
    have hauth := authentic_of_verifySign na hv fun _ => ⟨n, hn, hsigner⟩
    simp only [sendToService_of_valid hsig hv, bind, Except.bind]
    by_cases hresp : r.kind.withResponse = true
    · simp only [hresp, if_true]
      refine (ends_sendWSReqToNotary _ _ _).mono ?_ fun _ h => h
      rintro na' ⟨hchan, hqueue⟩
      obtain ⟨added, hadded, hall⟩ := Admits.push hauth
      exact ⟨⟨added, hchan.trans hadded, hall⟩, hqueue⟩
    · simp only [hresp]
      exact ⟨Admits.push hauth, hiff.mp rfl⟩
  | false =>
    simp only [sendToService_of_invalid hsig hv]
    by_cases hresp : r.kind.withResponse = true
    · simp only [hresp, if_true, bind, Except.bind]
      refine (ends_sendWSReqToNotary _ _ _).mono ?_ fun _ h => h
      rintro na' ⟨hchan, hqueue⟩
      exact ⟨⟨[], by simpa using hchan, by simp⟩, hqueue⟩
    · simp only [hresp, bind, Except.bind]
      exact fun h => Bool.false_ne_true (hiff.mpr h)

/-- A request without a session is harmless only if it is signed. -/
theorem ends_dealReq_unanswered (hname : r.name ≠ apiNameResponse) (hkind : r.kind.withSessionID = false)
    (hsig : r.kind.withSignature = true) (hresp : r.kind.withResponse = false) :
    Ends (na.dealReq w service (some r)) (fun na' => na.Admits w na' ∧ r.Signed w) fun _ => ¬ r.Signed w := by
  simp only [dealReq, if_neg hname, hresp, Bool.false_and]
  rcases hv : r.verifySign w with p | ⟨valid, r'⟩
  · simp only [sendToService_of_error hsig hv, bind, Except.bind]
    intro hsigned
    obtain ⟨sig, hok⟩ := Req.verifySign_of_signed hsigned
    cases hv.symm.trans hok
  · cases valid with
    | true =>
      have hauth := authentic_of_verifySign na hv fun h => by simp [hkind] at h
      simp only [sendToService_of_valid hsig hv, bind, Except.bind]
      exact ⟨Admits.push hauth, (Req.signed_of_verifySign hv).1⟩
    | false =>
      simp only [sendToService_of_invalid hsig hv, hresp, bind, Except.bind]
      intro hsigned
      obtain ⟨sig, hok⟩ := Req.verifySign_of_signed hsigned
      cases hv.symm.trans hok

/-- Parsing and dealing with a request of any type. -/
theorem ends_receive_of_unmarshal {content : Bytes} {name : String} (hbase : w.unmarshalBase content = .ok (some name))
    (hname : Kind.ofName name = some r.kind) (hr : w.unmarshal r.kind content = .ok r) :
    Ends (na.receive w service content) (fun na' => na.Admits w na' ∧ na.Harmless w r) fun _ => ¬ na.Harmless w r := by
  have hapi : r.name = r.kind.apiName := (w.name_unmarshal hbase hr).trans (Kind.ofName_eq_some_iff.mp hname).symm
  simp only [receive, parseNotaryRequest, hbase, hname, hr]
  by_cases hresponse : r.kind = .response
  · simp only [hresponse, Kind.withSignature, Bool.false_and, pure, Except.pure, bind, Except.bind]
    exact ends_dealReq_response (by rw [hapi, hresponse]; rfl) hresponse
  · have hne : r.name ≠ apiNameResponse := fun h => hresponse ((Kind.apiName_eq_response_iff _).mp (hapi.symm.trans h))
    by_cases hsession : r.kind.withSessionID = true
    · simp only [Kind.withSignature_of_withSessionID hsession, hsession, Bool.and_true, if_true, Harmless,
        if_neg hresponse, checkSender]
      rcases hn : na.getNotaryInfoByID r.senderNotaryID with err | n
      · exact ⟨Admits.refl na, fun n h => nomatch h⟩
      · rcases hsigner : r.getSignerETHAddress w with p | signer
        · intro h
          obtain ⟨signer, hok, _⟩ := h n rfl
          cases hok
        · by_cases heq : w.hexToAddress n.addressStr = signer
          · subst heq
            simp only [bind, Except.bind, ne_eq, not_true_eq_false, if_false, pure, Except.pure]
            refine (ends_dealReq_session hne hsession hn hsigner).mono ?_ ?_
            · rintro na' ⟨hadmits, hsafe⟩
              refine ⟨hadmits, fun n' hn' => ⟨_, rfl, fun _ => hsafe⟩⟩
            · intro _ hunsafe h
              obtain ⟨signer, hok, hsafe⟩ := h n rfl
              cases hok
              exact hunsafe (hsafe rfl)
          · simp only [bind, Except.bind, ne_eq, heq, not_false_eq_true, if_true, pure, Except.pure]
            refine ⟨Admits.refl na, fun n' hn' => ⟨signer, rfl, fun h => ?_⟩⟩
            cases hn'
            exact absurd h.symm heq
    · have hfalse : r.kind.withSessionID = false := by simpa using hsession
      have hsig : r.kind.withSignature = true := by
        cases hk : r.kind <;> first | rfl | exact absurd hk hresponse
      have hresp : r.kind.withResponse = false := by
        by_contra h
        exact hsession (Kind.withSessionID_of_withResponse hresponse (by simpa using h))
      simp only [hfalse, Bool.and_false, Harmless, if_neg hresponse, pure, Except.pure, bind, Except.bind]
      exact ends_dealReq_unanswered hne hfalse hsig hresp

/-- What is done with a message that is no request of a known type. -/
theorem ends_receive (na : NotaryAPI Body) (service : Req Body → BaseResponse) (content : Bytes) :
    Ends (na.receive w service content) (fun na' => na.Admits w na' ∧ na.HarmlessContent w content)
      fun _ => ¬ na.HarmlessContent w content := by
  rcases hbase : w.unmarshalBase content with err | _ | name
  · simp only [receive, parseNotaryRequest, hbase, pure, Except.pure, bind, Except.bind]
    refine ⟨Admits.refl na, fun base h => ?_⟩
    cases hbase.symm.trans h
  · simp only [receive, parseNotaryRequest, hbase, throw, throwThe, MonadExceptOf.throw, bind, Except.bind]
    intro h
    obtain ⟨name, kind, hnull, _⟩ := h none hbase
    cases hnull
  · rcases hname : Kind.ofName name with _ | kind
    · simp only [receive, parseNotaryRequest, hbase, hname, pure, Except.pure, bind, Except.bind, dealReq]
      intro h
      obtain ⟨name', kind, hsome, hkind, _⟩ := h (some name) hbase
      cases hsome
      cases hname.symm.trans hkind
    · rcases hr : w.unmarshal kind content with err | r
      · simp only [receive, parseNotaryRequest, hbase, hname, hr, pure, Except.pure, bind, Except.bind]
        refine ⟨Admits.refl na, fun base h => ?_⟩
        cases hbase.symm.trans h
        exact ⟨name, kind, rfl, hname, fun r h => by cases hr.symm.trans h⟩
      · obtain rfl := w.kind_unmarshal hr
        refine (ends_receive_of_unmarshal hbase hname hr).mono ?_ ?_
        · rintro na' ⟨hadmits, hharmless⟩
          refine ⟨hadmits, fun base h => ?_⟩
          cases hbase.symm.trans h
          refine ⟨name, r.kind, rfl, hname, fun r' h => ?_⟩
          cases hr.symm.trans h
          exact hharmless
        · intro _ hharm h
          obtain ⟨name', kind, hsome, hkind, hall⟩ := h (some name) hbase
          cases hsome
          cases hname.symm.trans hkind
          exact hharm (hall r hr)

end Requests

section Messages

variable {w} (na : NotaryAPI Body) (service : Req Body → BaseResponse)

/-- Whatever is received, no request comes onto the channel that is not authentic. -/
theorem admits_of_receive {content : Bytes} {na' : NotaryAPI Body} (h : na.receive w service content = .ok na') :
    na.Admits w na' := ((ends_receive na service content).of_ok h).1

/-- A received message does not stop the notary, and brings only authentic requests onto the channel, exactly if it is
not decoded or is a harmless request of a known type. -/
theorem receive_total_iff (w : Wire Body) (content : Bytes) :
    (∃ na', na.receive w service content = .ok na' ∧ na.Admits w na') ↔ na.HarmlessContent w content := by
  constructor
  · rintro ⟨na', h, _⟩
    exact ((ends_receive na service content).of_ok h).2
  · intro hharmless
    rcases h : na.receive w service content with p | na'
    · exact absurd hharmless ((ends_receive na service content).of_error h)
    · exact ⟨na', rfl, admits_of_receive na service h⟩

end Messages

section Runs

variable {w} {na na' na'' : NotaryAPI Body} {service : Req Body → BaseResponse}

/-- The notaries and the queues there are stay the same. -/
structure Keeps (na na' : NotaryAPI Body) : Prop where
  notaries : na'.notaries = na.notaries
  queues : ∀ id, (na'.sendingChanMap.lookup id).isSome = (na.sendingChanMap.lookup id).isSome

theorem Keeps.refl (na : NotaryAPI Body) : na.Keeps na := ⟨rfl, fun _ => rfl⟩

theorem Keeps.trans (h : na.Keeps na') (h' : na'.Keeps na'') : na.Keeps na'' :=
  ⟨h'.notaries.trans h.notaries, fun id => (h'.queues id).trans (h.queues id)⟩

theorem keeps_of_sendWSReqToNotary {resp : BaseResponse} {id : Int64} (h : na.sendWSReqToNotary resp id = .ok na') :
    na.Keeps na' := by
  unfold sendWSReqToNotary at h
  rcases hqueue : na.sendingChanMap.lookup id with _ | queue
  · rw [hqueue] at h
    cases h
  · rw [hqueue] at h
    cases h
    refine ⟨rfl, fun id' => ?_⟩
    by_cases hid : id' = id
    · subst hid
      simp [hqueue]
    · simp [AList.lookup_insert_ne hid]

theorem keeps_of_sendToService {r : Req Body} {sent : NotaryAPI Body × Option BaseResponse}
    (h : na.sendToService w r = .ok sent) : na.Keeps sent.1 := by
  unfold sendToService at h
  obtain ⟨verified, _, h⟩ := bind_eq_ok.mp h
  split at h
  · cases h
    exact ⟨rfl, fun _ => rfl⟩
  · split at h
    · cases h
      exact Keeps.refl na
    · cases h

theorem keeps_of_dealReq {req : Option (Req Body)} (h : na.dealReq w service req = .ok na') : na.Keeps na' := by
  cases req with
  | none => cases h
  | some r =>
    simp only [dealReq] at h
    split at h
    · split at h
      · split at h
        · cases h
          exact Keeps.refl na
        · cases h
        · cases h
          exact ⟨rfl, fun _ => rfl⟩
      · cases h
    · obtain ⟨sent, hsent, h⟩ := bind_eq_ok.mp h
      split at h
      · exact (keeps_of_sendToService hsent).trans (keeps_of_sendWSReqToNotary h)
      · cases h
        exact keeps_of_sendToService hsent

theorem keeps_of_receive {content : Bytes} (h : na.receive w service content = .ok na') : na.Keeps na' := by
  obtain ⟨parsed, _, h⟩ := bind_eq_ok.mp h
  cases parsed with
  | error err =>
    cases h
    exact Keeps.refl na
  | ok req => exact keeps_of_dealReq h

variable (w service) in
/-- The messages of all connections, in the order in which they are dealt with. -/
def serve (na : NotaryAPI Body) : List Bytes → Except Panic (NotaryAPI Body)
  | [] => pure na
  | content :: contents => do (← na.receive w service content).serve contents

/-- After every run, all requests that were handed to the service are authentic. -/
theorem authentic_of_serve {contents : List Bytes} (h : na.serve w service contents = .ok na')
    (hall : ∀ r ∈ na.requestChan, na.Authentic w r) : na.Keeps na' ∧ ∀ r ∈ na'.requestChan, na'.Authentic w r := by
  induction contents generalizing na with
  | nil =>
    cases h
    exact ⟨Keeps.refl _, hall⟩
  | cons content contents ih =>
    obtain ⟨na₁, hreceive, h⟩ := bind_eq_ok.mp h
    have hkeeps := keeps_of_receive hreceive
    obtain ⟨added, hchan, hadded⟩ := admits_of_receive na service hreceive
    have hsame : ∀ r, na.Authentic w r → na₁.Authentic w r := by
      rintro r ⟨hsigned, hsender⟩
      refine ⟨hsigned, fun hk => ?_⟩
      obtain ⟨n, hn, hs⟩ := hsender hk
      exact ⟨n, by rw [← hn, getNotaryInfoByID, getNotaryInfoByID, hkeeps.notaries], hs⟩
    have hall₁ : ∀ r ∈ na₁.requestChan, na₁.Authentic w r := by
      intro r hr
      rw [hchan, List.mem_append] at hr
      rcases hr with hr | hr
      · exact hsame r (hall r hr)
      · exact hsame r (hadded r hr)
    obtain ⟨hkeeps', hall'⟩ := ih h hall₁
    exact ⟨hkeeps.trans hkeeps', hall'⟩

end Runs

end NotaryAPI

section Stops

/-- The name in each of three messages. The last one is a request without a signature. -/
def bareName (content : Bytes) : Except String (Option String) :=
  if content = "null".toUTF8.toList then .ok none
  else if content = "\x7b\x7d".toUTF8.toList then .ok (some "")
  else if content = "\x7b\"name\":\"PBFT-Message\"\x7d".toUTF8.toList then .ok (some "PBFT-Message")
  else .error "unexpected end of JSON input"

def bareWire : Wire Unit where
  unmarshalBase := bareName
  unmarshal := fun k c =>
    match bareName c with
    | .ok (some name) => .ok ⟨k, name, 0, none, none, "", ()⟩
    | .ok none => .error ""
    | .error err => .error err
  kind_unmarshal := by
    intro k c r h
    rcases hname : bareName c with err | _ | name <;> rw [hname] at h <;> cases h
    rfl
  name_unmarshal := by
    intro k c n r hname h
    simp only [hname] at h
    cases h
    rfl
  marshal := fun _ => []
  sha3 := fun _ => []
  cryptoEcrecover := fun _ _ => none
  decompressPubkey := fun _ => none
  pubkeyToAddress := fun _ => 0
  hexToAddress := fun _ => 0
  addressString := fun _ => ""

/-- The notary goes on after the message, with nothing on its channel that is not authentic. -/
def GoesOn (content : Bytes) : Prop :=
  ∃ na', (NotaryAPI.newNotaryAPI bareWire 1 []).receive bareWire (fun r => newFailResponse r.requestID "3000") content =
    .ok na' ∧ (NotaryAPI.newNotaryAPI bareWire 1 []).Admits bareWire na'

/-- The content `null`, a request without a name, and a request without a signature each read a nil pointer. -/
theorem receive_not_total :
    ¬ GoesOn "null".toUTF8.toList ∧ ¬ GoesOn "\x7b\x7d".toUTF8.toList ∧
      ¬ GoesOn "\x7b\"name\":\"PBFT-Message\"\x7d".toUTF8.toList := by
  have hnull : bareName "null".toUTF8.toList = .ok none := by decide +kernel
  have hempty : bareName "\x7b\x7d".toUTF8.toList = .ok (some "") := by decide +kernel
  have hpbft : bareName "\x7b\"name\":\"PBFT-Message\"\x7d".toUTF8.toList = .ok (some "PBFT-Message") := by
    decide +kernel
  refine ⟨?_, ?_, ?_⟩
  · rintro ⟨na', h, _⟩
    simp only [NotaryAPI.receive, NotaryAPI.parseNotaryRequest, bareWire, hnull] at h
    cases h
  · rintro ⟨na', h, _⟩
    have hname : Kind.ofName "" = none := by decide +kernel
    simp only [NotaryAPI.receive, NotaryAPI.parseNotaryRequest, bareWire, hempty, hname] at h
    cases h
  · rintro ⟨na', h, _⟩
    have hname : Kind.ofName "PBFT-Message" = some .pbftMessage := by decide +kernel
    simp only [NotaryAPI.receive, NotaryAPI.parseNotaryRequest, bareWire, hpbft, hname] at h
    cases h

end Stops

end DistributedNotary.Api
