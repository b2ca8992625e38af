import DistributedNotary.Api.Responses
import DistributedNotary.Mecdsa.HandlerMap

/-! The signing sessions of all notaries. The notary that starts a session asks every
other one, takes those that accept first, tells every other one whom it has taken,
and signs when those have answered. All requests wait for a response, every request
is handled in a goroutine of its own, and the messages of the phases go between the
notaries whose main loop runs. -/
namespace DistributedNotary.Mecdsa

open Library Share Feldman Api

variable {C : Curve}

/-- What the notary that starts a session sends to the others. -/
inductive Invitation where
  | ask (sessionID message : ℕ)
  | notifySelection (sessionID : ℕ) (notaryIDs : List ℕ)

def Invitation.sessionID : Invitation → ℕ
  | .ask sessionID _ => sessionID
  | .notifySelection sessionID _ => sessionID

def errorCodeSuccess : String := "0000"

/-- `WaitWSResponse` returns no error. -/
def Thread.succeeded : Thread → Bool
  | .returned resp => resp.errorCode = errorCodeSuccess
  | _ => false

/-- Where `startDistributedSignAndWait` stands: it takes answers, has too few of them, waits for the selected notaries,
has failed there, or has gone on to the phases. -/
inductive Stage where
  | asking
  | refused
  | notifying
  | failed
  | running
  deriving DecidableEq

/-- One run of `startDistributedSignAndWait` with its goroutines. `askedIDs` and `notifiedIDs` are the notaries whose
goroutines have sent their request, `answerChan` and `notified` those whose goroutines are back, with success or not. -/
structure Signing (C : Curve) where
  notaryID : ℕ
  message : ℕ
  privateKeyInfo : PrivateKeyInfo C
  notaryNumNeedExpectSelf : ℕ
  stage : Stage := .asking
  askedIDs : List ℕ := []
  answerChan : List (ℕ × Bool) := []
  answersRead : ℕ := 0
  otherNotaryIDs : List ℕ := []
  notifiedIDs : List ℕ := []
  notified : List (ℕ × Bool) := []

namespace Signing

/-- The notaries of the session. -/
def dsmNotaryIDs (g : Signing C) : List ℕ := g.otherNotaryIDs ++ [g.notaryID]

/-- The selection is made. -/
def Selected (g : Signing C) : Prop := g.stage ≠ .asking ∧ g.stage ≠ .refused

/-- One turn of the loop that takes the answers, and what follows when it ends. -/
def readAnswer (shareCount : ℕ) (g : Signing C) (answer : ℕ × Bool) : Signing C :=
  let otherNotaryIDs := if answer.2 then g.otherNotaryIDs ++ [answer.1] else g.otherNotaryIDs
  { g with
    answersRead := g.answersRead + 1
    otherNotaryIDs := otherNotaryIDs
    stage :=
      if g.notaryNumNeedExpectSelf ≤ otherNotaryIDs.length then .notifying
      else if g.answersRead + 1 < shareCount - 1 then .asking
      else .refused }

end Signing

/-- A message of the phases on its way. -/
structure PhaseMessage (C : Curve) where
  sender : ℕ
  target : ℕ
  sessionID : ℕ
  req : DSMRequest C

/-- All notaries. `onRequest` are the requests whose goroutine has not run yet, and `handled` those whose goroutine has,
with whether it wrote a success. -/
structure Notaries (C : Curve) where
  net : Exchange Invitation := {}
  onRequest : List (Asked Invitation) := []
  handled : List (Asked Invitation × Bool) := []
  maps : ℕ → HandlerMap C := fun _ => {}
  signings : ℕ → Option (Signing C) := fun _ => none
  phases : List (PhaseMessage C) := []

/-- Steps of threads and messages in which nothing is sent or handled. -/
def Quiet : Exchange.Input Invitation → Prop
  | .send _ | .deliver _ | .serve _ _ | .forge _ _ => False
  | _ => True

/-- The response is written to the channel of the request, unless the wait for it is over. -/
inductive Writes (net : Exchange Invitation) (asked : Asked Invitation) (ok : Bool) : Exchange Invitation → Prop
  | written {net' : Exchange Invitation} (resp : BaseResponse) (hok : ok = true ↔ resp.errorCode = errorCodeSuccess)
    (h : Exchange.Step net (.serve asked resp) net') : Writes net asked ok net'
  | late (h : ∀ p ∈ net.serving, p.1 ≠ asked) : Writes net asked ok net

namespace HandlerMap

/-- The handler of a session. -/
def entry (s : HandlerMap C) (sessionID : ℕ) : Option (DSMObject C) := (s.find sessionID).map Prod.snd

/-- Every session has a handler of its own. -/
structure Table (s : HandlerMap C) : Prop where
  bound : ∀ sessionID o, s.dsmHandlerMap.lookup sessionID = some o → o < s.objects.length
  injective : ∀ sessionID sessionID' o, s.dsmHandlerMap.lookup sessionID = some o →
    s.dsmHandlerMap.lookup sessionID' = some o → sessionID = sessionID'

/-- A step that touches the handler of one session. -/
structure Touches (s s' : HandlerMap C) (sessionID : ℕ) (e : Option (DSMObject C)) : Prop where
  table : s'.Table
  entry : s'.entry = Function.update s.entry sessionID e

variable {s s' : HandlerMap C} {n : NotaryConfig} {sessionID o : ℕ} {x : DSMObject C}

theorem entry_eq (s : HandlerMap C) (sessionID : ℕ) :
    s.entry sessionID = (s.dsmHandlerMap.lookup sessionID).bind fun o => s.objects[o]? := by
  unfold entry find
  cases s.dsmHandlerMap.lookup sessionID with
  | none => rfl
  | some o => cases s.objects[o]? <;> simp

theorem entry_of_find (h : s.find sessionID = some (o, x)) : s.entry sessionID = some x := by
  rw [entry, h, Option.map_some]

theorem table_new : ({} : HandlerMap C).Table where
  bound := fun _ o ho => absurd ho.symm (Option.some_ne_none o)
  injective := fun _ _ o ho => absurd ho.symm (Option.some_ne_none o)

theorem touches_refl (h : s.Table) (sessionID : ℕ) : Touches s s sessionID (s.entry sessionID) :=
  ⟨h, (Function.update_eq_self ..).symm⟩

theorem touches_store (h : s.Table) (sessionID : ℕ) (x : DSMObject C) :
    Touches s (s.store sessionID x) sessionID (some x) := by
  have hlookup : ∀ sessionID', (s.store sessionID x).dsmHandlerMap.lookup sessionID' =
      if sessionID' = sessionID then some s.objects.length else s.dsmHandlerMap.lookup sessionID' := by
    intro sessionID'
    by_cases heq : sessionID' = sessionID
    · subst heq
      rw [if_pos rfl]
      exact AList.lookup_insert _
    · rw [if_neg heq]
      exact AList.lookup_insert_ne heq
  have hlen : (s.store sessionID x).objects.length = s.objects.length + 1 := by simp [store]
  refine ⟨⟨?_, ?_⟩, ?_⟩
  · intro sessionID' o ho
    rw [hlookup] at ho
    split_ifs at ho with heq
    · rw [← Option.some.inj ho]
      omega
    · have := h.bound _ _ ho
      omega
  · intro sessionID₁ sessionID₂ o h₁ h₂
    rw [hlookup] at h₁ h₂
    split_ifs at h₁ h₂ with heq₁ heq₂ heq₂
    · exact heq₁.trans heq₂.symm
    · have := h.bound _ _ h₂
      rw [← Option.some.inj h₁] at this
      omega
    · have := h.bound _ _ h₁
      rw [← Option.some.inj h₂] at this
      omega
    · exact h.injective _ _ _ h₁ h₂
  · funext sessionID'
    rw [entry_eq, hlookup]
    by_cases heq : sessionID' = sessionID
    · subst heq
      rw [if_pos rfl, Function.update_self, Option.bind_some]
      exact List.getElem?_concat_length
    · rw [if_neg heq, Function.update_of_ne heq, entry_eq]
      cases ho : s.dsmHandlerMap.lookup sessionID' with
      | none => rfl
      | some o => exact List.getElem?_append_left (h.bound _ _ ho)

theorem touches_erase (h : s.Table) (sessionID : ℕ) :
    Touches s { s with dsmHandlerMap := s.dsmHandlerMap.erase sessionID } sessionID none := by
  have hlookup : ∀ sessionID' o, (s.dsmHandlerMap.erase sessionID).lookup sessionID' = some o →
      s.dsmHandlerMap.lookup sessionID' = some o := by
    intro sessionID' o ho
    by_cases heq : sessionID' = sessionID
    · subst heq
      rw [AList.lookup_erase] at ho
      cases ho
    · rwa [AList.lookup_erase_ne heq] at ho
  refine ⟨⟨?_, ?_⟩, ?_⟩
  · exact fun sessionID' o ho => h.bound _ _ (hlookup _ _ ho)
  · exact fun sessionID₁ sessionID₂ o h₁ h₂ => h.injective _ _ _ (hlookup _ _ h₁) (hlookup _ _ h₂)
  · funext sessionID'
    rw [entry_eq]
    by_cases heq : sessionID' = sessionID
    · subst heq
      rw [Function.update_self, AList.lookup_erase, Option.bind_none]
    · rw [Function.update_of_ne heq, AList.lookup_erase_ne heq, entry_eq]

theorem table_update (h : s.Table) (o : ℕ) (x : DSMObject C) : (s.update o x).Table where
  bound := fun sessionID' o' ho' => by
    rw [update, List.length_set]
    exact h.bound sessionID' o' ho'
  injective := h.injective

theorem touches_update (h : s.Table) (hfind : s.find sessionID = some (o, x)) (x' : DSMObject C) :
    Touches s (s.update o x') sessionID (some x') := by
  obtain ⟨hlookup, hx⟩ := find_eq_some.mp hfind
  refine ⟨table_update h o x', ?_⟩
  funext sessionID'
  rw [entry_eq]
  unfold update
  dsimp only
  by_cases heq : sessionID' = sessionID
  · subst heq
    rw [Function.update_self, hlookup, Option.bind_some]
    exact objects_update_self hx
  · rw [Function.update_of_ne heq, entry_eq]
    cases ho' : s.dsmHandlerMap.lookup sessionID' with
    | none => rfl
    | some o' =>
      have hne : o ≠ o' := fun hoo => heq (h.injective _ _ _ ho' (hoo ▸ hlookup))
      exact List.getElem?_set_ne hne

/-- A handler that is not in the table any more is not found. -/
theorem entry_update (h : s.Table) (hx : s.objects[o]? = some x) (x' : DSMObject C) :
    (s.update o x').entry = s.entry ∨
      ∃ sessionID, s.entry sessionID = some x ∧ Touches s (s.update o x') sessionID (some x') := by
  by_cases hpoints : ∃ sessionID, s.dsmHandlerMap.lookup sessionID = some o
  · obtain ⟨sessionID, hlookup⟩ := hpoints
    have hfind : s.find sessionID = some (o, x) := find_eq_some.mpr ⟨hlookup, hx⟩
    exact .inr ⟨sessionID, entry_of_find hfind, touches_update h hfind x'⟩
  · refine .inl ?_
    funext sessionID'
    rw [entry_eq, entry_eq]
    unfold update
    dsimp only
    cases ho' : s.dsmHandlerMap.lookup sessionID' with
    | none => rfl
    | some o' =>
      have hne : o ≠ o' := fun hoo => hpoints ⟨sessionID', hoo ▸ ho'⟩
      exact List.getElem?_set_ne hne

/-! ### The requests and the steps of main loops -/

theorem ask_cases (h : s.Table) (sessionID : ℕ) (req : DSMAskRequest C) :
    ¬ Accepted req ∧ s.onDSMAskRequest n sessionID req = s ∨
      Accepted req ∧ ∃ privateKeyInfo, ∃ message ∈ req.msgToSign,
        Touches s (s.onDSMAskRequest n sessionID req) sessionID
          (some { m := { dh := newDSMHandler n.selfNotaryID message privateKeyInfo } }) := by
  unfold onDSMAskRequest Accepted
  cases hsigner : req.knownSigner with
  | false => exact .inl ⟨by simp, rfl⟩
  | true =>
    cases hkey : req.privateKeyInfo with
    | none => exact .inl ⟨by simp, rfl⟩
    | some privateKeyInfo =>
      cases hmsg : req.msgToSign with
      | none => exact .inl ⟨by simp, rfl⟩
      | some message =>
        cases hcheck : req.checkMsgToSign with
        | false => exact .inl ⟨by simp, rfl⟩
        | true => exact .inr ⟨by simp, privateKeyInfo, message, rfl, touches_store h _ _⟩

theorem notify_cases (h : s.Table) {notaryIDs : List ℕ} {gammaI kI : SPrivKey}
    (hs' : s.onDSMNotifySelectionRequest n sessionID true notaryIDs gammaI kI = .ok s') :
    n.selfNotaryID ∉ notaryIDs ∧ Touches s s' sessionID none ∨
      n.selfNotaryID ∈ notaryIDs ∧ s.entry sessionID = none ∧ s' = s ∨
      n.selfNotaryID ∈ notaryIDs ∧ ∃ x dh, s.entry sessionID = some x ∧
        x.m.dh.registerOtherNotaryIDs (notaryIDs.filter (· ≠ n.selfNotaryID)) gammaI kI = .ok dh ∧
        Touches s s' sessionID (some { x with m := { x.m with dh := dh } }) := by
  unfold onDSMNotifySelectionRequest at hs'
  simp only [Bool.not_true, Bool.false_eq_true, if_false] at hs'
  split_ifs at hs' with hin
  · cases hfind : s.find sessionID with
    | none =>
      rw [hfind] at hs'
      exact .inr (.inl ⟨hin, by rw [entry, hfind]; rfl, (Except.ok.inj hs').symm⟩)
    | some r =>
      obtain ⟨o, x⟩ := r
      rw [hfind] at hs'
      obtain ⟨dh, hreg, hs'⟩ := bind_eq_ok.mp hs'
      rw [← pure_eq_ok.mp hs']
      exact .inr (.inr ⟨hin, x, dh, entry_of_find hfind, hreg, touches_update h hfind _⟩)
  · rw [← Except.ok.inj hs']
    exact .inl ⟨hin, touches_erase h sessionID⟩

/-- A message of the phases calls the main loop of a handler that is idle. -/
theorem request_cases (h : s.Table) (sessionID index : ℕ) (req : DSMRequest C) :
    s.entry sessionID = none ∧ s.onDSMRequest n sessionID index req = s ∨
      ∃ x x', s.entry sessionID = some x ∧ Touches s (s.onDSMRequest n sessionID index req) sessionID (some x') ∧
        x'.m = x.m ∧ x'.progress = if x.progress = .idle then .called else x.progress := by
  unfold onDSMRequest
  cases hfind : s.find sessionID with
  | none => exact .inl ⟨by rw [entry, hfind]; rfl, rfl⟩
  | some r =>
    obtain ⟨o, x⟩ := r
    exact .inr ⟨x, _, entry_of_find hfind, touches_update h hfind _, rfl, rfl⟩

theorem sign_cases (h : s.Table) {message : ℕ} {privateKeyInfo : PrivateKeyInfo C}
    {ids : OtherDSMNotaryIDs n.selfNotaryID} {gammaI kI : SPrivKey}
    (hs' : s.startDistributedSign n sessionID message privateKeyInfo ids gammaI kI = .ok s') :
    ∃ dh, (newDSMHandler n.selfNotaryID message privateKeyInfo).registerOtherNotaryIDs ids.ids gammaI kI = .ok dh ∧
      Touches s s' sessionID (some { m := { dh := dh }, progress := .called }) := by
  obtain ⟨dh, hreg, hs'⟩ := bind_eq_ok.mp hs'
  rw [← pure_eq_ok.mp hs']
  exact ⟨dh, hreg, touches_store h _ _⟩

/-- What a main loop does changes neither what is signed nor with whom. -/
structure Goes (thresholdCount : ℕ) (x x' : DSMObject C) : Prop where
  terms : x'.m.dh.terms = x.m.dh.terms
  called : x.progress ≠ .idle
  started : x'.progress ≠ .idle
  refused : x'.progress = .refused → x.progress = .refused ∨ x.m.dh.terms.S.length ≤ thresholdCount

theorem startDSM_cases (eth : Ethereum C) (h : s.Table) {blindFactor : ℕ} (hs' : s.startDSM n o blindFactor = .ok s') :
    s'.Table ∧ (s'.entry = s.entry ∨ ∃ sessionID x x', s.entry sessionID = some x ∧
      Touches s s' sessionID (some x') ∧ Goes n.thresholdCount x x') := by
  unfold startDSM at hs'
  split at hs'
  · rw [← Except.ok.inj hs']
    exact ⟨h, .inl rfl⟩
  · next x hx =>
    split at hs'
    · next hcalled =>
      obtain ⟨m, hm, hs'⟩ := bind_eq_ok.mp hs'
      rw [← pure_eq_ok.mp hs']
      refine ⟨table_update h _ _, ?_⟩
      rcases entry_update h hx _ with hsame | ⟨sessionID, hentry, htouches⟩
      · exact .inl hsame
      · refine .inr ⟨sessionID, x, _, hentry, htouches, terms_start eth hm, ?_, ?_, ?_⟩
        · rw [hcalled]
          decide
        · dsimp only
          split_ifs <;> decide
        · dsimp only
          split_ifs with hfew
          · exact fun _ => .inr hfew
          · exact fun hrefused => absurd hrefused (by decide)
    · rw [← Except.ok.inj hs']
      exact ⟨h, .inl rfl⟩

theorem loop_cases {eth : Ethereum C} (h : s.Table) {input : MainLoop.Input C} (hs' : Step eth n s (.loop o input) s') :
    s'.Table ∧ (s'.entry = s.entry ∨ ∃ sessionID x x', s.entry sessionID = some x ∧
      Touches s s' sessionID (some x') ∧ Goes n.thresholdCount x x') := by
  cases hs' with
  | loop o input hx hstarted htakes hstep =>
    refine ⟨table_update h _ _, ?_⟩
    rcases entry_update h hx _ with hsame | ⟨sessionID, hentry, htouches⟩
    · exact .inl hsame
    · refine .inr ⟨sessionID, _, _, hentry, htouches, terms_step hstep, ?_, ?_, ?_⟩
      · rw [hstarted]
        decide
      · dsimp only
        rw [hstarted]
        decide
      · exact fun hrefused => .inl hrefused

end HandlerMap

namespace Notaries

/-- `ShareCount` and `ThresholdCount`. -/
structure Config where
  shareCount : ℕ
  thresholdCount : ℕ

/-- A notary among the others. -/
def Config.notary (cfg : Config) (j : ℕ) : NotaryConfig where
  selfNotaryID := j
  shareCount := cfg.shareCount
  thresholdCount := cfg.thresholdCount

def setMap (s : Notaries C) (j : ℕ) (m : HandlerMap C) : Notaries C := { s with maps := Function.update s.maps j m }

def setSigning (s : Notaries C) (sessionID : ℕ) (g : Signing C) : Notaries C :=
  { s with signings := Function.update s.signings sessionID (some g) }

variable (eth : Ethereum C) (cfg : Config)

/-- One step of one thread of one notary. Where a computation panics there is none. The IDs of sessions and requests are
drawn at random, and new. -/
inductive Step : Notaries C → Notaries C → Prop
  | quiet {s : Notaries C} {a : Exchange.Input Invitation} {net' : Exchange Invitation} (hquiet : Quiet a)
    (h : Exchange.Step s.net a net') : Step s { s with net := net' }
  /-- A contract is deployed with the signatures of all notaries, and everything else signed with enough of them. -/
  | start {s : Notaries C} (sessionID notaryID message : ℕ) (privateKeyInfo : PrivateKeyInfo C) (deploys : Bool)
    (hnew : s.signings sessionID = none) :
    Step s (s.setSigning sessionID
      { notaryID := notaryID
        message := message
        privateKeyInfo := privateKeyInfo
        notaryNumNeedExpectSelf := if deploys then cfg.shareCount - 1 else cfg.thresholdCount })
  | sendAsk {s : Notaries C} {sessionID : ℕ} {g : Signing C} (j : ℕ) (requestID : String)
    (hg : s.signings sessionID = some g) (hj : j ≠ g.notaryID) (honce : j ∉ g.askedIDs)
    (hid : ∀ c ∈ s.net.calls, c.asked.requestID ≠ requestID) :
    Step s
      { s.setSigning sessionID { g with askedIDs := j :: g.askedIDs } with
        net := s.net.sendWSReqToNotary
          { requestID := requestID, sender := g.notaryID, target := j, body := .ask sessionID g.message } }
  | askReturned {s : Notaries C} {sessionID message : ℕ} {g : Signing C} {c : Call Invitation}
    (hg : s.signings sessionID = some g) (hc : c ∈ s.net.calls) (hbody : c.asked.body = .ask sessionID message)
    (hback : (∃ resp, c.thread = .returned resp) ∨ c.thread = .notFound)
    (honce : c.asked.target ∉ g.answerChan.map Prod.fst) :
    Step s (s.setSigning sessionID
      { g with answerChan := g.answerChan ++ [(c.asked.target, Thread.succeeded c.thread)] })
  | readAnswer {s : Notaries C} {sessionID : ℕ} {g : Signing C} {answer : ℕ × Bool}
    (hg : s.signings sessionID = some g) (hstage : g.stage = .asking)
    (hanswer : g.answerChan[g.answersRead]? = some answer) :
    Step s (s.setSigning sessionID (g.readAnswer cfg.shareCount answer))
  | sendNotify {s : Notaries C} {sessionID : ℕ} {g : Signing C} (j : ℕ) (requestID : String)
    (hg : s.signings sessionID = some g) (hselected : g.Selected) (hj : j ≠ g.notaryID) (honce : j ∉ g.notifiedIDs)
    (hid : ∀ c ∈ s.net.calls, c.asked.requestID ≠ requestID) :
    Step s
      { s.setSigning sessionID { g with notifiedIDs := j :: g.notifiedIDs } with
        net := s.net.sendWSReqToNotary
          { requestID := requestID, sender := g.notaryID, target := j,
            body := .notifySelection sessionID g.dsmNotaryIDs } }
  | notifyReturned {s : Notaries C} {sessionID : ℕ} {notaryIDs : List ℕ} {g : Signing C} {c : Call Invitation}
    (hg : s.signings sessionID = some g) (hc : c ∈ s.net.calls)
    (hbody : c.asked.body = .notifySelection sessionID notaryIDs)
    (hback : (∃ resp, c.thread = .returned resp) ∨ c.thread = .notFound)
    (honce : c.asked.target ∉ g.notified.map Prod.fst) :
    Step s (s.setSigning sessionID
      { g with notified := g.notified ++ [(c.asked.target, Thread.succeeded c.thread)] })
  /-- The selected notaries have answered, and some goroutine that is back has failed. -/
  | fail {s : Notaries C} {sessionID j : ℕ} {g : Signing C} (hg : s.signings sessionID = some g)
    (hstage : g.stage = .notifying) (hdone : ∀ j ∈ g.otherNotaryIDs, j ∈ g.notified.map Prod.fst)
    (herr : (j, false) ∈ g.notified) : Step s (s.setSigning sessionID { g with stage := .failed })
  | run {s : Notaries C} {sessionID : ℕ} {g : Signing C} {m : HandlerMap C} (gammaI kI : SPrivKey)
    (hg : s.signings sessionID = some g) (hstage : g.stage = .notifying)
    (hdone : ∀ j ∈ g.otherNotaryIDs, j ∈ g.notified.map Prod.fst) (herr : ∀ j, (j, false) ∉ g.notified)
    (ids : OtherDSMNotaryIDs g.notaryID) (hids : ids.ids = g.otherNotaryIDs)
    (h : (s.maps g.notaryID).startDistributedSign (cfg.notary g.notaryID) sessionID g.message g.privateKeyInfo ids
      gammaI kI = .ok m) :
    Step s ((s.setSigning sessionID { g with stage := .running }).setMap g.notaryID m)
  | deliver {s : Notaries C} {asked : Asked Invitation} {net' : Exchange Invitation}
    (h : Exchange.Step s.net (.deliver asked) net') :
    Step s { s with net := net', onRequest := asked :: s.onRequest }
  /-- What the checks of the request find is up to the notary that is asked. -/
  | handleAsk {s : Notaries C} {asked : Asked Invitation} {rest : List (Asked Invitation)} {sessionID message : ℕ}
    {net' : Exchange Invitation} {ok : Bool} (req : DSMAskRequest C) (hparse : ∀ m ∈ req.msgToSign, m = message)
    (h : s.onRequest.Perm (asked :: rest)) (hbody : asked.body = .ask sessionID message)
    (hok : ok = true ↔ HandlerMap.Accepted req) (hwrites : Writes s.net asked ok net') :
    Step s
      { s.setMap asked.target ((s.maps asked.target).onDSMAskRequest (cfg.notary asked.target) sessionID req) with
        net := net'
        onRequest := rest
        handled := (asked, ok) :: s.handled }
  | handleNotify {s : Notaries C} {asked : Asked Invitation} {rest : List (Asked Invitation)} {sessionID : ℕ}
    {notaryIDs : List ℕ} {net' : Exchange Invitation} {m : HandlerMap C} {ok : Bool} (gammaI kI : SPrivKey)
    (h : s.onRequest.Perm (asked :: rest)) (hbody : asked.body = .notifySelection sessionID notaryIDs)
    (hm : (s.maps asked.target).onDSMNotifySelectionRequest (cfg.notary asked.target) sessionID true notaryIDs gammaI
      kI = .ok m)
    (hok : ok = true ↔ asked.target ∉ notaryIDs ∨ ((s.maps asked.target).find sessionID).isSome = true)
    (hwrites : Writes s.net asked ok net') :
    Step s
      { s.setMap asked.target m with
        net := net'
        onRequest := rest
        handled := (asked, ok) :: s.handled }
  | startDSM {s : Notaries C} {m : HandlerMap C} (k o blindFactor : ℕ)
    (h : (s.maps k).startDSM (cfg.notary k) o blindFactor = .ok m) : Step s (s.setMap k m)
  | loop {s : Notaries C} {m : HandlerMap C} (k o : ℕ) (input : MainLoop.Input C)
    (h : HandlerMap.Step eth (cfg.notary k) (s.maps k) (.loop o input) m) : Step s (s.setMap k m)
  /-- A notary in its phases sends to the other signers that it knows. -/
  | sendPhase {s : Notaries C} {k sessionID o : ℕ} {x : DSMObject C} (j : ℕ) (req : DSMRequest C)
    (hx : (s.maps k).find sessionID = some (o, x)) (hstarted : x.progress = .started)
    (hj : j ∈ x.m.dh.otherNotaryIDs) :
    Step s { s with phases := { sender := k, target := j, sessionID := sessionID, req := req } :: s.phases }
  | deliverPhase {s : Notaries C} {p : PhaseMessage C} {rest : List (PhaseMessage C)} (h : s.phases.Perm (p :: rest)) :
    Step s { s.setMap p.target ((s.maps p.target).onDSMRequest (cfg.notary p.target) p.sessionID p.sender p.req) with
      phases := rest }
  | losePhase {s : Notaries C} {p : PhaseMessage C} {rest : List (PhaseMessage C)} (h : s.phases.Perm (p :: rest)) :
    Step s { s with phases := rest }

/-- The states of all runs of honest notaries. -/
abbrev Run : Notaries C → Prop := Reachable (fun s => s = {}) (Step eth cfg)

end Notaries

end DistributedNotary.Mecdsa
