import DistributedNotary.Mecdsa.Invitations

/-! How a signing session comes about. In every run of honest notaries, with any
messages delayed or lost and any threads in any order, the notaries whose main loop
runs sign the same message with the same notaries, which are enough, and a message
of the phases finds a handler that knows them. The notary that starts the session
sends nothing of the phases before all that it has selected have handled the
selection, and the others nothing before they have heard of the phases. -/
namespace DistributedNotary.Mecdsa

open Library Share Feldman Api HandlerMap

variable {C : Curve}

namespace Signing

variable {g g' : Signing C}

/-- A later state of the same signing. -/
structure Continues (g g' : Signing C) : Prop where
  notaryID : g'.notaryID = g.notaryID
  message : g'.message = g.message
  selected : g.Selected → g'.Selected ∧ g'.otherNotaryIDs = g.otherNotaryIDs
  running : g.stage = .running → g'.stage = .running
  askedIDs : ∀ j ∈ g.askedIDs, j ∈ g'.askedIDs
  notifiedIDs : ∀ j ∈ g.notifiedIDs, j ∈ g'.notifiedIDs

/-- The request has been sent by a goroutine of the signing. -/
def Sent (g : Signing C) (j : ℕ) : Invitation → Prop
  | .ask _ message => message = g.message ∧ j ∈ g.askedIDs
  | .notifySelection _ notaryIDs => notaryIDs = g.dsmNotaryIDs ∧ g.Selected ∧ j ∈ g.notifiedIDs

/-- A handler that has been asked for. -/
structure Fresh (g : Signing C) (j : ℕ) (x : DSMObject C) : Prop where
  self : x.m.dh.terms.selfNotaryID = j
  message : x.m.dh.terms.message = g.message
  signers : x.m.dh.terms.S = []
  idle : x.progress = .idle

/-- A handler that knows the notaries of its session. -/
structure Member (g : Signing C) (j : ℕ) (x : DSMObject C) : Prop where
  mem : j ∈ g.dsmNotaryIDs
  selected : g.Selected
  message : x.m.dh.terms.message = g.message
  others : x.m.dh.terms.otherNotaryIDs = g.dsmNotaryIDs.filter (· ≠ j)
  signers : x.m.dh.terms.S = g.dsmNotaryIDs.filter (· ≠ j) ++ [j]
  running : x.progress ≠ .idle → g.stage = .running
  enough : x.progress ≠ .refused

theorem selected_of_running (h : g.stage = .running) : g.Selected := by
  rw [Selected, h]
  decide

theorem Continues.refl (g : Signing C) : g.Continues g where
  notaryID := rfl
  message := rfl
  selected := fun h => ⟨h, rfl⟩
  running := fun h => h
  askedIDs := fun _ h => h
  notifiedIDs := fun _ h => h

theorem Continues.dsmNotaryIDs (h : g.Continues g') (hs : g.Selected) : g'.dsmNotaryIDs = g.dsmNotaryIDs := by
  rw [Signing.dsmNotaryIDs, Signing.dsmNotaryIDs, (h.selected hs).2, h.notaryID]

theorem Sent.continues {j : ℕ} {body : Invitation} (h : g.Sent j body) (hg : g.Continues g') : g'.Sent j body := by
  cases body with
  | ask sessionID message => exact ⟨h.1.trans hg.message.symm, hg.askedIDs j h.2⟩
  | notifySelection sessionID notaryIDs =>
    obtain ⟨hids, hselected, hj⟩ := h
    exact ⟨hids.trans (hg.dsmNotaryIDs hselected).symm, (hg.selected hselected).1, hg.notifiedIDs j hj⟩

theorem Fresh.continues {j : ℕ} {x : DSMObject C} (h : g.Fresh j x) (hg : g.Continues g') : g'.Fresh j x :=
  ⟨h.self, h.message.trans hg.message.symm, h.signers, h.idle⟩

theorem Member.continues {j : ℕ} {x : DSMObject C} (h : g.Member j x) (hg : g.Continues g') : g'.Member j x := by
  have hids := hg.dsmNotaryIDs h.selected
  refine ⟨hids ▸ h.mem, (hg.selected h.selected).1, h.message.trans hg.message.symm, ?_, ?_, ?_, h.enough⟩
  · rw [hids]
    exact h.others
  · rw [hids]
    exact h.signers
  · exact fun hp => hg.running (h.running hp)

theorem Fresh.not_member {j : ℕ} {x : DSMObject C} (h : g.Fresh j x) : ¬ g.Member j x := by
  intro hm
  have hsigners := hm.signers
  rw [h.signers] at hsigners
  simp at hsigners

/-- A main loop keeps the notaries of its session. -/
theorem Member.goes {j thresholdCount : ℕ} {x x' : DSMObject C} (h : g.Member j x) (hgoes : Goes thresholdCount x x')
    (hmany : thresholdCount < x.m.dh.terms.S.length) : g.Member j x' := by
  refine ⟨h.mem, h.selected, ?_, ?_, ?_, fun _ => h.running hgoes.called, ?_⟩
  · rw [hgoes.terms]
    exact h.message
  · rw [hgoes.terms]
    exact h.others
  · rw [hgoes.terms]
    exact h.signers
  · intro hrefused
    rcases hgoes.refused hrefused with hbefore | hfew
    · exact h.enough hbefore
    · exact absurd hmany (not_lt.mpr hfew)

theorem terms_of_register {dh dh' : DSMHandler C} {otherNotaryIDs : List ℕ} {gammaI kI : SPrivKey}
    (h : dh.registerOtherNotaryIDs otherNotaryIDs gammaI kI = .ok dh') :
    dh'.terms.message = dh.terms.message ∧ dh'.terms.otherNotaryIDs = otherNotaryIDs ∧
      dh'.terms.S = otherNotaryIDs ++ [dh.terms.selfNotaryID] := by
  obtain ⟨lambdaI, -, h⟩ := bind_eq_ok.mp h
  rw [← pure_eq_ok.mp h]
  exact ⟨rfl, rfl, rfl⟩

end Signing

namespace Notaries

/-- Each request is on its way, or handed to its goroutine, or has been handled, and that once. The responses that can
still arrive tell what the goroutine did. -/
structure Wire (net : Exchange Invitation) (onRequest : List (Asked Invitation))
    (handled : List (Asked Invitation × Bool)) : Prop where
  inv : net.Inv
  once : (net.requests.map (fun m => m.requestID) ++ (onRequest.map (fun m => m.requestID) ++
    handled.map fun p => p.1.requestID)).Nodup
  given : ∀ m ∈ onRequest, m ∈ net.asks
  ended : ∀ p ∈ handled, p.1 ∈ net.asks
  serving : ∀ m resp, (m, some resp) ∈ net.serving → resp.errorCode = errorCodeSuccess → (m, true) ∈ handled
  answers : ∀ m resp, (m, resp) ∈ net.answers → resp.errorCode = errorCodeSuccess → (m, true) ∈ handled

/-- What a signing knows is so at the notaries that it knows it of. -/
structure SigningOk (cfg : Config) (handled : List (Asked Invitation × Bool)) (sessionID : ℕ) (g : Signing C) :
    Prop where
  accepted : ∀ j, (j, true) ∈ g.answerChan → ∃ m, m.target = j ∧ m.body = .ask sessionID g.message ∧ (m, true) ∈ handled
  others : ∀ p ∈ g.answerChan, p.1 ≠ g.notaryID
  nodup : (g.answerChan.map Prod.fst).Nodup
  read : g.otherNotaryIDs = ((g.answerChan.take g.answersRead).filter Prod.snd).map Prod.fst
  read_le : g.answersRead ≤ g.answerChan.length
  enough : g.Selected → g.notaryNumNeedExpectSelf ≤ g.otherNotaryIDs.length
  need : cfg.thresholdCount ≤ g.notaryNumNeedExpectSelf
  told : ∀ j, (j, true) ∈ g.notified →
    ∃ m notaryIDs, m.target = j ∧ m.body = .notifySelection sessionID notaryIDs ∧ (m, true) ∈ handled
  run : g.stage = .running → ∀ j ∈ g.otherNotaryIDs, (j, true) ∈ g.notified

/-- The handler of one notary in one session. A notary that has agreed has one until it hears of the selection, and
then, when it is selected, one that knows the others. -/
structure Part (handled : List (Asked Invitation × Bool)) (sessionID : ℕ) (g : Signing C) (j : ℕ)
    (e : Option (DSMObject C)) : Prop where
  entry : ∀ x, e = some x → g.Fresh j x ∧ j ≠ g.notaryID ∨ g.Member j x
  invited : ∀ m, (m, true) ∈ handled → m.target = j → m.body = .ask sessionID g.message →
    (∀ p ∈ handled, p.1.target = j → ∀ notaryIDs, p.1.body ≠ .notifySelection sessionID notaryIDs) →
      ∃ x, e = some x ∧ g.Fresh j x
  selected : ∀ m notaryIDs, (m, true) ∈ handled → m.target = j → m.body = .notifySelection sessionID notaryIDs →
    j ∈ g.otherNotaryIDs → ∃ x, e = some x ∧ g.Member j x
  runs : g.stage = .running → j = g.notaryID → ∃ x, e = some x ∧ g.Member j x

structure Sound (cfg : Config) (s : Notaries C) : Prop where
  wire : Wire s.net s.onRequest s.handled
  table : ∀ j, (s.maps j).Table
  asked : ∀ m ∈ s.net.asks, ∃ g, s.signings m.body.sessionID = some g ∧ m.target ≠ g.notaryID ∧ g.Sent m.target m.body
  unique : ∀ m ∈ s.net.asks, ∀ m' ∈ s.net.asks, m.target = m'.target → m.body = m'.body → m = m'
  signing : ∀ sessionID g, s.signings sessionID = some g → SigningOk cfg s.handled sessionID g
  known : ∀ j sessionID x, (s.maps j).entry sessionID = some x → ∃ g, s.signings sessionID = some g
  part : ∀ sessionID g j, s.signings sessionID = some g → Part s.handled sessionID g j ((s.maps j).entry sessionID)
  phases : ∀ p ∈ s.phases, ∃ g, s.signings p.sessionID = some g ∧ g.stage = .running ∧ p.sender ∈ g.dsmNotaryIDs ∧
    p.target ∈ g.dsmNotaryIDs ∧ p.sender ≠ p.target

section Basics

variable {cfg : Config} {s : Notaries C} {handled handled' : List (Asked Invitation × Bool)} {sessionID j : ℕ}
  {g g' : Signing C} {x x' : DSMObject C}

theorem SigningOk.mono (h : SigningOk cfg handled sessionID g) (hsub : ∀ p ∈ handled, p ∈ handled') :
    SigningOk cfg handled' sessionID g where
  accepted := fun j hj => by
    obtain ⟨m, htarget, hbody, hm⟩ := h.accepted j hj
    exact ⟨m, htarget, hbody, hsub _ hm⟩
  others := h.others
  nodup := h.nodup
  read := h.read
  read_le := h.read_le
  enough := h.enough
  need := h.need
  told := fun j hj => by
    obtain ⟨m, notaryIDs, htarget, hbody, hm⟩ := h.told j hj
    exact ⟨m, notaryIDs, htarget, hbody, hsub _ hm⟩
  run := h.run

theorem SigningOk.nodup_others (h : SigningOk cfg handled sessionID g) : g.otherNotaryIDs.Nodup := by
  rw [h.read]
  refine List.Nodup.sublist ?_ h.nodup
  exact (List.filter_sublist.trans (List.take_sublist _ _)).map _

theorem SigningOk.mem_others (h : SigningOk cfg handled sessionID g) (hj : j ∈ g.otherNotaryIDs) :
    (j, true) ∈ g.answerChan := by
  rw [h.read] at hj
  obtain ⟨p, hp, rfl⟩ := List.mem_map.mp hj
  obtain ⟨hmem, hok⟩ := List.mem_filter.mp hp
  have hpair : (p.1, true) = p := Prod.ext rfl hok.symm
  rw [hpair]
  exact List.mem_of_mem_take hmem

theorem SigningOk.notMem_others (h : SigningOk cfg handled sessionID g) : g.notaryID ∉ g.otherNotaryIDs :=
  fun hin => h.others _ (h.mem_others hin) rfl

/-- Those that are selected have agreed. -/
theorem SigningOk.agreed (h : SigningOk cfg handled sessionID g) (hj : j ∈ g.otherNotaryIDs) :
    ∃ m, m.target = j ∧ m.body = .ask sessionID g.message ∧ (m, true) ∈ handled := h.accepted j (h.mem_others hj)

theorem SigningOk.nodup_dsmNotaryIDs (h : SigningOk cfg handled sessionID g) : g.dsmNotaryIDs.Nodup := by
  refine List.Nodup.append h.nodup_others (List.nodup_singleton _) ?_
  intro j hj hmem
  rw [List.mem_singleton.mp hmem] at hj
  exact h.notMem_others hj

/-- The signers that a handler knows are the notaries of its session. -/
theorem SigningOk.signers (h : SigningOk cfg handled sessionID g) (hx : g.Member j x) :
    x.m.dh.terms.S.Perm g.dsmNotaryIDs := by
  rw [hx.signers]
  refine List.perm_append_comm.trans ?_
  have hperm := List.perm_cons_erase hx.mem
  rw [h.nodup_dsmNotaryIDs.erase_eq_filter] at hperm
  refine List.Perm.trans (List.Perm.of_eq ?_) hperm.symm
  simp [bne, beq_eq_decide]

theorem SigningOk.length_signers (h : SigningOk cfg handled sessionID g) (hx : g.Member j x) :
    cfg.thresholdCount < x.m.dh.terms.S.length := by
  rw [(h.signers hx).length_eq, Signing.dsmNotaryIDs, List.length_append, List.length_singleton]
  have henough := h.enough hx.selected
  have hneed := h.need
  omega

/-- In a session that runs, every notary has a handler that knows the others. -/
theorem Sound.member (h : Sound cfg s) (hg : s.signings sessionID = some g) (hrun : g.stage = .running)
    (hj : j ∈ g.dsmNotaryIDs) : ∃ x, (s.maps j).entry sessionID = some x ∧ g.Member j x := by
  rcases List.mem_append.mp hj with hin | hin
  · have hok := h.signing sessionID g hg
    obtain ⟨m, notaryIDs, htarget, hbody, hm⟩ := hok.told j (hok.run hrun j hin)
    exact (h.part sessionID g j hg).selected m notaryIDs hm htarget hbody hin
  · exact (h.part sessionID g j hg).runs hrun (List.mem_singleton.mp hin)

/-- A handler whose main loop has been called knows the notaries of its session, which runs. -/
theorem Sound.called (h : Sound cfg s) (hx : (s.maps j).entry sessionID = some x) (hcalled : x.progress ≠ .idle) :
    ∃ g, s.signings sessionID = some g ∧ g.Member j x ∧ g.stage = .running := by
  obtain ⟨g, hg⟩ := h.known j sessionID x hx
  rcases (h.part sessionID g j hg).entry x hx with ⟨hfresh, -⟩ | hmember
  · exact absurd hfresh.idle hcalled
  · exact ⟨g, hg, hmember, hmember.running hcalled⟩

end Basics

section Wires

variable {net net' : Exchange Invitation} {onRequest rest : List (Asked Invitation)}
  {handled : List (Asked Invitation × Bool)} {asked : Asked Invitation} {ok : Bool}

theorem quiet_honest {a : Exchange.Input Invitation} (h : Quiet a) : net.Honest a := by
  cases a <;> first | exact h.elim | exact trivial

/-- A quiet step sends no request and makes up no success. -/
theorem quiet_cases (hinv : net.Inv) {a : Exchange.Input Invitation} (hquiet : Quiet a)
    (h : Exchange.Step net a net') :
    net'.asks = net.asks ∧ (∃ l, net.requests.Perm (l ++ net'.requests)) ∧ (∀ p ∈ net'.serving, p ∈ net.serving) ∧
      ∀ m resp, (m, resp) ∈ net'.answers → resp.errorCode = errorCodeSuccess →
        (m, resp) ∈ net.answers ∨ (m, some resp) ∈ net.serving := by
  have htimeout : ∀ id, (newFailResponse id errorCodeTimeout).errorCode ≠ errorCodeSuccess := by
    intro id
    change errorCodeTimeout ≠ errorCodeSuccess
    decide
  cases h with
  | send asked => exact hquiet.elim
  | look hc hsent =>
    exact ⟨Exchange.asks_setCall hc rfl, ⟨[], List.Perm.refl _⟩, fun _ hp => hp, fun _ _ ha _ => .inl ha⟩
  | @receive o o' c c' resp hc hwaiting hc' hresp =>
    have hknows := hinv.threads o c hc
    rw [hwaiting] at hknows
    obtain rfl : o' = o := hknows
    obtain rfl := Option.some.inj (hc.symm.trans hc')
    refine ⟨?_, ⟨[], List.Perm.refl _⟩, fun _ hp => hp, fun _ _ ha _ => .inl ha⟩
    simp only [if_true]
    have hempty : (net.setCall o' { c with responseChan := none }).asks = net.asks := Exchange.asks_setCall hc rfl
    have hfull : ((net.setCall o' { c with responseChan := none }).setCall o'
        { asked := c.asked, thread := .returned resp }).asks = (net.setCall o' { c with responseChan := none }).asks :=
      Exchange.asks_setCall (Exchange.calls_setCall_self hc) rfl
    exact hfull.trans hempty
  | timeout hc hwaiting =>
    exact ⟨Exchange.asks_setCall hc rfl, ⟨[], List.Perm.refl _⟩, fun _ hp => hp, fun _ _ ha _ => .inl ha⟩
  | deliver hperm => exact hquiet.elim
  | @loseRequest asked rest hperm =>
    exact ⟨rfl, ⟨[asked], hperm⟩, fun _ hp => hp, fun _ _ ha _ => .inl ha⟩
  | serve resp hid hperm => exact hquiet.elim
  | respond hperm =>
    refine ⟨rfl, ⟨[], List.Perm.refl _⟩, fun p hp => hperm.mem_iff.mpr (List.mem_cons_of_mem _ hp), ?_⟩
    intro m resp ha hsuccess
    rcases List.mem_cons.mp ha with heq | ha
    · obtain ⟨rfl, rfl⟩ := Prod.mk.inj heq
      exact .inr (hperm.mem_iff.mpr List.mem_cons_self)
    · exact .inl ha
  | timeoutService hperm =>
    refine ⟨rfl, ⟨[], List.Perm.refl _⟩, fun p hp => hperm.mem_iff.mpr (List.mem_cons_of_mem _ hp), ?_⟩
    intro m resp ha hsuccess
    rcases List.mem_cons.mp ha with heq | ha
    · rw [(Prod.mk.inj heq).2] at hsuccess
      exact absurd hsuccess (htimeout _)
    · exact .inl ha
  | loseResponse hperm => exact ⟨rfl, ⟨[], List.Perm.refl _⟩, fun _ hp => hp, fun _ _ ha _ => .inl ha⟩
  | load hperm => exact ⟨rfl, ⟨[], List.Perm.refl _⟩, fun _ hp => hp, fun _ _ ha _ => .inl ha⟩
  | write hperm hc hempty =>
    exact ⟨Exchange.asks_setCall hc rfl, ⟨[], List.Perm.refl _⟩, fun _ hp => hp, fun _ _ ha _ => .inl ha⟩
  | delete hperm => exact ⟨rfl, ⟨[], List.Perm.refl _⟩, fun _ hp => hp, fun _ _ ha _ => .inl ha⟩
  | forge notary resp => exact hquiet.elim

theorem Wire.quiet (h : Wire net onRequest handled) {a : Exchange.Input Invitation} (hquiet : Quiet a)
    (hstep : Exchange.Step net a net') : Wire net' onRequest handled := by
  obtain ⟨hasks, ⟨l, hrequests⟩, hserving, hanswers⟩ := quiet_cases h.inv hquiet hstep
  refine ⟨h.inv.step (quiet_honest hquiet) hstep, ?_, hasks ▸ h.given, hasks ▸ h.ended, ?_, ?_⟩
  · have honce := ((hrequests.map fun m => m.requestID).append_right _).nodup_iff.mp h.once
    rw [List.map_append, List.append_assoc] at honce
    exact (List.nodup_append.mp honce).2.1
  · exact fun m resp hm => h.serving m resp (hserving _ hm)
  · intro m resp ha hsuccess
    rcases hanswers m resp ha hsuccess with ha | hm
    · exact h.answers m resp ha hsuccess
    · exact h.serving m resp hm hsuccess

theorem Wire.send (h : Wire net onRequest handled) (hid : ∀ c ∈ net.calls, c.asked.requestID ≠ asked.requestID) :
    Wire (net.sendWSReqToNotary asked) onRequest handled := by
  have hasks : (net.sendWSReqToNotary asked).asks = net.asks ++ [asked] := List.map_append
  have hnew : ∀ m ∈ net.asks, m.requestID ≠ asked.requestID := by
    intro m hm
    obtain ⟨c, hc, rfl⟩ := List.mem_map.mp hm
    exact hid c hc
  refine ⟨h.inv.send hid, ?_, ?_, ?_, h.serving, h.answers⟩
  · refine List.nodup_cons.mpr ⟨fun hin => ?_, h.once⟩
    rcases List.mem_append.mp hin with hin | hin
    · obtain ⟨m, hm, heq⟩ := List.mem_map.mp hin
      exact hnew m (h.inv.requested m hm).1 heq
    rcases List.mem_append.mp hin with hin | hin
    · obtain ⟨m, hm, heq⟩ := List.mem_map.mp hin
      exact hnew m (h.given m hm) heq
    · obtain ⟨p, hp, heq⟩ := List.mem_map.mp hin
      exact hnew p.1 (h.ended p hp) heq
  · exact fun m hm => hasks ▸ List.mem_append_left _ (h.given m hm)
  · exact fun p hp => hasks ▸ List.mem_append_left _ (h.ended p hp)

theorem Wire.deliver (h : Wire net onRequest handled) (hstep : Exchange.Step net (.deliver asked) net') :
    Wire net' (asked :: onRequest) handled ∧ net'.asks = net.asks := by
  have honest : net.Honest (.deliver asked) := trivial
  have hinv := h.inv.step honest hstep
  cases hstep with
  | @deliver _ rest hperm =>
    refine ⟨⟨hinv, ?_, ?_, h.ended, ?_, h.answers⟩, rfl⟩
    · have honce := ((hperm.map fun m => m.requestID).append_right _).nodup_iff.mp h.once
      refine (List.Perm.nodup_iff ?_).mpr honce
      exact List.perm_middle
    · intro m hm
      rcases List.mem_cons.mp hm with rfl | hm
      · exact (h.inv.requested m (hperm.mem_iff.mpr List.mem_cons_self)).1
      · exact h.given m hm
    · intro m resp hm
      rcases List.mem_cons.mp hm with heq | hm
      · cases heq
      · exact h.serving m resp hm

/-- The goroutine of a request runs. -/
theorem Wire.handle (h : Wire net onRequest handled) (hperm : onRequest.Perm (asked :: rest))
    (hwrites : Writes net asked ok net') : Wire net' rest ((asked, ok) :: handled) ∧ net'.asks = net.asks := by
  have honce : (net.requests.map (fun m => m.requestID) ++ (rest.map (fun m => m.requestID) ++
      ((asked, ok) :: handled).map fun p => p.1.requestID)).Nodup := by
    refine (List.Perm.append_left _ ?_).nodup_iff.mp h.once
    refine ((hperm.map fun m => m.requestID).append_right _).trans ?_
    exact List.perm_middle.symm
  have hrest : ∀ m ∈ rest, m ∈ net.asks :=
    fun m hm => h.given m (hperm.mem_iff.mpr (List.mem_cons_of_mem _ hm))
  have hhandled : ∀ p ∈ (asked, ok) :: handled, p.1 ∈ net.asks := by
    intro p hp
    rcases List.mem_cons.mp hp with rfl | hp
    · exact h.given asked (hperm.mem_iff.mpr List.mem_cons_self)
    · exact h.ended p hp
  have hanswers : ∀ m resp, (m, resp) ∈ net.answers → resp.errorCode = errorCodeSuccess →
      (m, true) ∈ (asked, ok) :: handled :=
    fun m resp ha hsuccess => List.mem_cons_of_mem _ (h.answers m resp ha hsuccess)
  cases hwrites with
  | late _ =>
    refine ⟨⟨h.inv, honce, hrest, hhandled, ?_, hanswers⟩, rfl⟩
    exact fun m resp hm hsuccess => List.mem_cons_of_mem _ (h.serving m resp hm hsuccess)
  | written resp hok hstep =>
    have honest : net.Honest (.serve asked resp) := trivial
    have hinv := h.inv.step honest hstep
    cases hstep with
    | @serve _ chan rest' _ hid hserving =>
      refine ⟨⟨hinv, honce, hrest, hhandled, ?_, hanswers⟩, rfl⟩
      intro m resp' hm hsuccess
      rcases List.mem_cons.mp hm with heq | hm
      · obtain ⟨rfl, hchan⟩ := Prod.mk.inj heq
        rcases Option.or_eq_some_iff.mp hchan.symm with hbefore | ⟨-, hresp⟩
        · refine List.mem_cons_of_mem _ (h.serving m resp' (hserving.mem_iff.mpr ?_) hsuccess)
          rw [hbefore]
          exact List.mem_cons_self
        · rw [hok.mpr ((Option.some.inj hresp).symm ▸ hsuccess)]
          exact List.mem_cons_self
      · exact List.mem_cons_of_mem _ (h.serving m resp' (hserving.mem_iff.mpr (List.mem_cons_of_mem _ hm)) hsuccess)

/-- A request whose goroutine has not run has not been handled. -/
theorem Wire.notMem_handled (h : Wire net onRequest handled) (hperm : onRequest.Perm (asked :: rest)) :
    ∀ p ∈ handled, p.1 ≠ asked := by
  intro p hp heq
  have honce := (List.nodup_append.mp (List.nodup_append.mp h.once).2.1).2.2
  refine honce asked.requestID ?_ asked.requestID ?_ rfl
  · exact List.mem_map_of_mem (hperm.mem_iff.mpr List.mem_cons_self)
  · rw [← heq]
    exact List.mem_map_of_mem (f := fun p => p.1.requestID) hp

end Wires

section Steps

variable {cfg : Config} {s s' : Notaries C} {handled handled' : List (Asked Invitation × Bool)} {sessionID j k : ℕ}
  {g g' : Signing C} {m : HandlerMap C} {e : Option (DSMObject C)}

theorem Part.mono (h : Part handled sessionID g j e)
    (hiff : ∀ m ok, m.target = j → m.body.sessionID = sessionID → ((m, ok) ∈ handled' ↔ (m, ok) ∈ handled)) :
    Part handled' sessionID g j e where
  entry := h.entry
  invited := by
    intro m hm htarget hbody hfree
    have hsession : m.body.sessionID = sessionID := by rw [hbody]; rfl
    refine h.invited m ((hiff m true htarget hsession).mp hm) htarget hbody fun p hp hp' notaryIDs hnotify => ?_
    have hsession' : p.1.body.sessionID = sessionID := by rw [hnotify]; rfl
    exact hfree p ((hiff p.1 p.2 hp' hsession').mpr hp) hp' notaryIDs hnotify
  selected := by
    intro m notaryIDs hm htarget hbody hj
    have hsession : m.body.sessionID = sessionID := by rw [hbody]; rfl
    exact h.selected m notaryIDs ((hiff m true htarget hsession).mp hm) htarget hbody hj
  runs := h.runs

theorem Part.continues (h : Part handled sessionID g j e) (hg : g.Continues g')
    (hselected : ∀ m notaryIDs, (m, true) ∈ handled → m.body = .notifySelection sessionID notaryIDs → g.Selected)
    (hruns : g'.stage = .running → j = g.notaryID → ∃ x, e = some x ∧ g'.Member j x) :
    Part handled sessionID g' j e where
  entry := by
    intro x hx
    rcases h.entry x hx with ⟨hfresh, hne⟩ | hmember
    · exact .inl ⟨hfresh.continues hg, hg.notaryID.symm ▸ hne⟩
    · exact .inr (hmember.continues hg)
  invited := by
    intro m hm htarget hbody hfree
    rw [hg.message] at hbody
    obtain ⟨x, hx, hfresh⟩ := h.invited m hm htarget hbody hfree
    exact ⟨x, hx, hfresh.continues hg⟩
  selected := by
    intro m notaryIDs hm htarget hbody hj
    rw [(hg.selected (hselected m notaryIDs hm hbody)).2] at hj
    obtain ⟨x, hx, hmember⟩ := h.selected m notaryIDs hm htarget hbody hj
    exact ⟨x, hx, hmember.continues hg⟩
  runs := fun hrun hj => hruns hrun (hj.trans hg.notaryID)

/-- One handler in the place of another that knows the notaries of the session. -/
theorem Part.replace (h : Part handled sessionID g j e) {x x' : DSMObject C} (hx : e = some x) (hmember : g.Member j x)
    (hmember' : g.Member j x') : Part handled sessionID g j (some x') where
  entry := fun y hy => .inr (Option.some.inj hy ▸ hmember')
  invited := fun m hm htarget hbody hfree => by
    obtain ⟨y, hy, hfresh⟩ := h.invited m hm htarget hbody hfree
    obtain rfl := Option.some.inj (hx.symm.trans hy)
    exact absurd hmember hfresh.not_member
  selected := fun _ _ _ _ _ _ => ⟨x', rfl, hmember'⟩
  runs := fun _ _ => ⟨x', rfl, hmember'⟩

/-- A request of a session that is known comes from its signing. -/
theorem Sound.sent (h : Sound cfg s) (hg : s.signings sessionID = some g) {asked : Asked Invitation}
    (hasked : asked ∈ s.net.asks) (hsession : asked.body.sessionID = sessionID) :
    asked.target ≠ g.notaryID ∧ g.Sent asked.target asked.body := by
  obtain ⟨g', hg', hsent⟩ := h.asked asked hasked
  rw [hsession] at hg'
  obtain rfl := Option.some.inj (hg.symm.trans hg')
  exact hsent

theorem Sound.selected (h : Sound cfg s) (hg : s.signings sessionID = some g) {p : Asked Invitation × Bool}
    {notaryIDs : List ℕ} (hp : p ∈ s.handled) (hbody : p.1.body = .notifySelection sessionID notaryIDs) :
    notaryIDs = g.dsmNotaryIDs ∧ g.Selected := by
  obtain ⟨-, hsent⟩ := h.sent hg (h.wire.ended p hp) (by rw [hbody]; rfl)
  rw [hbody] at hsent
  exact ⟨hsent.1, hsent.2.1⟩

/-- Steps that touch one handler at most, and handle at most requests for it. -/
theorem Sound.touch (h : Sound cfg s) (hm : Touches (s.maps k) m sessionID e)
    (hwire : Wire s'.net s'.onRequest s'.handled) (hasks : s'.net.asks = s.net.asks)
    (hmaps : s'.maps = Function.update s.maps k m) (hsignings : s'.signings = s.signings)
    (hphases : ∀ p ∈ s'.phases, p ∈ s.phases) (hsub : ∀ p ∈ s.handled, p ∈ s'.handled)
    (hnew : ∀ p ∈ s'.handled, p ∈ s.handled ∨ p.1.target = k ∧ p.1.body.sessionID = sessionID)
    (hknown : ∀ x, e = some x → ∃ g, s.signings sessionID = some g)
    (hpart : ∀ g, s.signings sessionID = some g → Part s'.handled sessionID g k e) : Sound cfg s' := by
  have hentry : ∀ j sessionID', (s'.maps j).entry sessionID' =
      if j = k ∧ sessionID' = sessionID then e else (s.maps j).entry sessionID' := by
    intro j sessionID'
    rw [hmaps]
    by_cases hj : j = k
    · subst hj
      rw [Function.update_self, hm.entry]
      by_cases hsession : sessionID' = sessionID
      · subst hsession
        rw [Function.update_self, if_pos ⟨rfl, rfl⟩]
      · rw [Function.update_of_ne hsession, if_neg fun heq => hsession heq.2]
    · rw [Function.update_of_ne hj, if_neg fun heq => hj heq.1]
  constructor
  · exact hwire
  · intro j
    rw [hmaps]
    by_cases hj : j = k
    · subst hj
      rw [Function.update_self]
      exact hm.table
    · rw [Function.update_of_ne hj]
      exact h.table j
  · rw [hasks, hsignings]
    exact h.asked
  · rw [hasks]
    exact h.unique
  · rw [hsignings]
    exact fun sessionID' g' hg' => (h.signing sessionID' g' hg').mono hsub
  · intro j sessionID' x hx
    rw [hsignings]
    rw [hentry] at hx
    split_ifs at hx with heq
    · rw [heq.2]
      exact hknown x hx
    · exact h.known j sessionID' x hx
  · intro sessionID' g' j hg'
    rw [hsignings] at hg'
    rw [hentry]
    split_ifs with heq
    · obtain ⟨rfl, rfl⟩ := heq
      exact hpart g' hg'
    · refine (h.part sessionID' g' j hg').mono fun m' ok htarget hsession => ⟨fun hm' => ?_, hsub _⟩
      refine (hnew _ hm').resolve_right fun hown => heq ⟨?_, ?_⟩
      · exact htarget.symm.trans hown.1
      · exact hsession.symm.trans hown.2
  · rw [hsignings]
    exact fun p hp => h.phases p (hphases p hp)

/-- Steps of one signing. -/
theorem Sound.setSigning (h : Sound cfg s) (hg : s.signings sessionID = some g) (hcont : g.Continues g')
    (hok : SigningOk cfg s.handled sessionID g')
    (hruns : g'.stage = .running → ∃ x, (s.maps g.notaryID).entry sessionID = some x ∧ g'.Member g.notaryID x) :
    Sound cfg (s.setSigning sessionID g') := by
  have hget : ∀ sessionID' d, s.signings sessionID' = some d →
      ∃ d', (s.setSigning sessionID g').signings sessionID' = some d' ∧ d.Continues d' := by
    intro sessionID' d hd
    unfold Notaries.setSigning
    dsimp only
    by_cases hsession : sessionID' = sessionID
    · subst hsession
      obtain rfl := Option.some.inj (hg.symm.trans hd)
      exact ⟨g', Function.update_self .., hcont⟩
    · exact ⟨d, (Function.update_of_ne hsession ..).trans hd, .refl d⟩
  have hcases : ∀ sessionID' d, (s.setSigning sessionID g').signings sessionID' = some d →
      sessionID' = sessionID ∧ d = g' ∨ s.signings sessionID' = some d := by
    intro sessionID' d hd
    unfold Notaries.setSigning at hd
    dsimp only at hd
    by_cases hsession : sessionID' = sessionID
    · subst hsession
      rw [Function.update_self] at hd
      exact .inl ⟨rfl, (Option.some.inj hd).symm⟩
    · rw [Function.update_of_ne hsession] at hd
      exact .inr hd
  constructor
  · exact h.wire
  · exact h.table
  · intro m hm
    obtain ⟨d, hd, hne, hsent⟩ := h.asked m hm
    obtain ⟨d', hd', hcont'⟩ := hget _ d hd
    exact ⟨d', hd', hcont'.notaryID.symm ▸ hne, hsent.continues hcont'⟩
  · exact h.unique
  · intro sessionID' d hd
    rcases hcases _ d hd with ⟨rfl, rfl⟩ | hd
    · exact hok
    · exact h.signing sessionID' d hd
  · intro j sessionID' x hx
    obtain ⟨d, hd⟩ := h.known j sessionID' x hx
    obtain ⟨d', hd', -⟩ := hget _ d hd
    exact ⟨d', hd'⟩
  · intro sessionID' d j hd
    rcases hcases _ d hd with ⟨rfl, rfl⟩ | hd
    · refine (h.part sessionID' g j hg).continues hcont ?_ ?_
      · exact fun m notaryIDs hm hbody => (h.selected hg hm hbody).2
      · rintro hrun rfl
        exact hruns hrun
    · exact h.part sessionID' d j hd
  · intro p hp
    obtain ⟨d, hd, hrun, hmem⟩ := h.phases p hp
    obtain ⟨d', hd', hcont'⟩ := hget _ d hd
    refine ⟨d', hd', hcont'.running hrun, ?_⟩
    rw [hcont'.dsmNotaryIDs (Signing.selected_of_running hrun)]
    exact hmem

/-- Steps of one signing that leave its stage as it is. -/
theorem Sound.goOn (h : Sound cfg s) (hg : s.signings sessionID = some g) (hcont : g.Continues g')
    (hok : SigningOk cfg s.handled sessionID g') (hstage : g'.stage = g.stage) :
    Sound cfg (s.setSigning sessionID g') := by
  refine h.setSigning hg hcont hok fun hrun => ?_
  obtain ⟨x, hx, hmember⟩ := (h.part sessionID g g.notaryID hg).runs (hstage.symm.trans hrun) rfl
  exact ⟨x, hx, hmember.continues hcont⟩

theorem Sound.start (h : Sound cfg s) (hnew : s.signings sessionID = none)
    (hok : SigningOk cfg s.handled sessionID g) (hidle : g.stage ≠ .running) :
    Sound cfg (s.setSigning sessionID g) := by
  have hget : ∀ sessionID' d, s.signings sessionID' = some d →
      (s.setSigning sessionID g).signings sessionID' = some d := by
    intro sessionID' d hd
    unfold Notaries.setSigning
    dsimp only
    rw [Function.update_of_ne]
    · exact hd
    · rintro rfl
      exact Option.some_ne_none d (hd.symm.trans hnew)
  have hfree : ∀ m ∈ s.net.asks, m.body.sessionID ≠ sessionID := by
    rintro m hm rfl
    obtain ⟨d, hd, -⟩ := h.asked m hm
    exact Option.some_ne_none d (hd.symm.trans hnew)
  constructor
  · exact h.wire
  · exact h.table
  · intro m hm
    obtain ⟨d, hd, hrest⟩ := h.asked m hm
    exact ⟨d, hget _ d hd, hrest⟩
  · exact h.unique
  · intro sessionID' d hd
    unfold Notaries.setSigning at hd
    dsimp only at hd
    by_cases hsession : sessionID' = sessionID
    · subst hsession
      rw [Function.update_self] at hd
      rw [← Option.some.inj hd]
      exact hok
    · rw [Function.update_of_ne hsession] at hd
      exact h.signing sessionID' d hd
  · intro j sessionID' x hx
    obtain ⟨d, hd⟩ := h.known j sessionID' x hx
    exact ⟨d, hget _ d hd⟩
  · intro sessionID' d j hd
    unfold Notaries.setSigning at hd
    dsimp only at hd
    by_cases hsession : sessionID' = sessionID
    · subst hsession
      rw [Function.update_self] at hd
      obtain rfl := Option.some.inj hd
      refine ⟨fun x hx => ?_, fun m hm _ hbody => ?_, fun m _ hm _ hbody => ?_, fun hrun => absurd hrun hidle⟩
      · obtain ⟨d, hd⟩ := h.known j sessionID' x hx
        exact absurd (hd.symm.trans hnew) (Option.some_ne_none d)
      · exact absurd (by rw [hbody]; rfl) (hfree m (h.wire.ended _ hm))
      · exact absurd (by rw [hbody]; rfl) (hfree m (h.wire.ended _ hm))
    · rw [Function.update_of_ne hsession] at hd
      exact h.part sessionID' d j hd
  · intro p hp
    obtain ⟨d, hd, hrest⟩ := h.phases p hp
    exact ⟨d, hget _ d hd, hrest⟩

theorem Sound.send (h : Sound cfg s) {asked : Asked Invitation}
    (hid : ∀ c ∈ s.net.calls, c.asked.requestID ≠ asked.requestID)
    (hg : s.signings asked.body.sessionID = some g) (hne : asked.target ≠ g.notaryID)
    (hsent : g.Sent asked.target asked.body) (hnew : ∀ m ∈ s.net.asks, m.target = asked.target → m.body ≠ asked.body) :
    Sound cfg { s with net := s.net.sendWSReqToNotary asked } := by
  have hasks : ∀ m ∈ (s.net.sendWSReqToNotary asked).asks, m ∈ s.net.asks ∨ m = asked := by
    intro m hm
    have happend : (s.net.sendWSReqToNotary asked).asks = s.net.asks ++ [asked] := List.map_append
    rw [happend] at hm
    exact (List.mem_append.mp hm).imp_right List.mem_singleton.mp
  refine ⟨h.wire.send hid, h.table, ?_, ?_, h.signing, h.known, h.part, h.phases⟩
  · intro m hm
    rcases hasks m hm with hm | rfl
    · exact h.asked m hm
    · exact ⟨g, hg, hne, hsent⟩
  · intro m hm m' hm' htarget hbody
    rcases hasks m hm with hold | rfl
    · rcases hasks m' hm' with hold' | rfl
      · exact h.unique m hold m' hold' htarget hbody
      · exact absurd hbody (hnew m hold htarget)
    · rcases hasks m' hm' with hold' | rfl
      · exact absurd hbody.symm (hnew m' hold' htarget.symm)
      · rfl

/-- The goroutine of a request of a session touches its own handler at most. -/
theorem Sound.handle (h : Sound cfg s) {asked : Asked Invitation} {rest : List (Asked Invitation)} {ok : Bool}
    {net' : Exchange Invitation} (hperm : s.onRequest.Perm (asked :: rest)) (hwrites : Writes s.net asked ok net')
    (hsession : asked.body.sessionID = sessionID) (hg : s.signings sessionID = some g)
    (hm : Touches (s.maps asked.target) m sessionID e)
    (hpart : Part ((asked, ok) :: s.handled) sessionID g asked.target e) :
    Sound cfg { s.setMap asked.target m with
      net := net'
      onRequest := rest
      handled := (asked, ok) :: s.handled } := by
  obtain ⟨hwire, hasks⟩ := h.wire.handle hperm hwrites
  refine h.touch hm hwire hasks rfl rfl (fun _ hp => hp) (fun _ hp => List.mem_cons_of_mem _ hp) ?_
    (fun _ _ => ⟨g, hg⟩) fun g' hg' => Option.some.inj (hg.symm.trans hg') ▸ hpart
  intro p hp
  rcases List.mem_cons.mp hp with rfl | hp
  · exact .inr ⟨rfl, hsession⟩
  · exact .inl hp

/-- Steps of messages. -/
theorem Sound.flight (h : Sound cfg s) {net' : Exchange Invitation} {onRequest : List (Asked Invitation)}
    (hwire : Wire net' onRequest s.handled) (hasks : net'.asks = s.net.asks) :
    Sound cfg { s with net := net', onRequest := onRequest } :=
  ⟨hwire, h.table, hasks ▸ h.asked, hasks ▸ h.unique, h.signing, h.known, h.part, h.phases⟩

end Steps

end Notaries

end DistributedNotary.Mecdsa
