import DistributedNotary.Mecdsa.Establishment

/-! The notaries of a signing session, in every run of honest notaries. Each thread
and each message keeps what is known of the session, and so those that run it sign
the same message with the same notaries, all of which have a handler for it. -/
namespace DistributedNotary.Mecdsa

open Library Share Feldman Api HandlerMap

variable {C : Curve} {eth : Ethereum C}

namespace Notaries

variable {cfg : Config} {s s' : Notaries C} {sessionID j : ℕ} {g : Signing C} {c : Call Invitation}
  {asked : Asked Invitation} {rest : List (Asked Invitation)} {net' : Exchange Invitation} {m : HandlerMap C}
  {ok : Bool}

section Goroutines

/-- What a goroutine takes for a success has been handled with success. -/
theorem Sound.succeeded (h : Sound cfg s) (hc : c ∈ s.net.calls) (hok : Thread.succeeded c.thread = true) :
    (c.asked, true) ∈ s.handled := by
  obtain ⟨o, ho⟩ := List.mem_iff_getElem?.mp hc
  have hknows := h.wire.inv.threads o c ho
  cases hthread : c.thread with
  | sent =>
    rw [hthread] at hok
    cases hok
  | waiting o' =>
    rw [hthread] at hok
    cases hok
  | notFound =>
    rw [hthread] at hok
    cases hok
  | returned resp =>
    rw [hthread] at hok hknows
    have hsuccess : resp.errorCode = errorCodeSuccess := of_decide_eq_true hok
    rcases hknows with rfl | hans
    · have hne : errorCodeTimeout ≠ errorCodeSuccess := by decide
      exact absurd hsuccess hne
    · exact h.wire.answers c.asked resp hans hsuccess

theorem Sound.sendAsk (h : Sound cfg s) (hg : s.signings sessionID = some g) {requestID : String}
    (hj : j ≠ g.notaryID) (honce : j ∉ g.askedIDs) (hid : ∀ c ∈ s.net.calls, c.asked.requestID ≠ requestID) :
    Sound cfg { s.setSigning sessionID { g with askedIDs := j :: g.askedIDs } with
      net := s.net.sendWSReqToNotary
        { requestID := requestID, sender := g.notaryID, target := j, body := .ask sessionID g.message } } := by
  have hcont : g.Continues { g with askedIDs := j :: g.askedIDs } :=
    { Signing.Continues.refl g with askedIDs := fun _ hi => List.mem_cons_of_mem _ hi }
  have hok := h.signing sessionID g hg
  have hset := h.goOn hg hcont ⟨hok.accepted, hok.others, hok.nodup, hok.read, hok.read_le, hok.enough, hok.need,
    hok.told, hok.run⟩ rfl
  refine hset.send hid (Function.update_self ..) hj ⟨rfl, List.mem_cons_self⟩ ?_
  rintro m hm rfl hbody
  obtain ⟨-, hsent⟩ := h.sent hg hm (by rw [hbody]; rfl)
  rw [hbody] at hsent
  exact honce hsent.2

theorem Sound.sendNotify (h : Sound cfg s) (hg : s.signings sessionID = some g) {requestID : String}
    (hselected : g.Selected) (hj : j ≠ g.notaryID) (honce : j ∉ g.notifiedIDs)
    (hid : ∀ c ∈ s.net.calls, c.asked.requestID ≠ requestID) :
    Sound cfg { s.setSigning sessionID { g with notifiedIDs := j :: g.notifiedIDs } with
      net := s.net.sendWSReqToNotary
        { requestID := requestID, sender := g.notaryID, target := j,
          body := .notifySelection sessionID g.dsmNotaryIDs } } := by
  have hcont : g.Continues { g with notifiedIDs := j :: g.notifiedIDs } :=
    { Signing.Continues.refl g with notifiedIDs := fun _ hi => List.mem_cons_of_mem _ hi }
  have hok := h.signing sessionID g hg
  have hset := h.goOn hg hcont ⟨hok.accepted, hok.others, hok.nodup, hok.read, hok.read_le, hok.enough, hok.need,
    hok.told, hok.run⟩ rfl
  refine hset.send hid (Function.update_self ..) hj ⟨rfl, hselected, List.mem_cons_self⟩ ?_
  rintro m hm rfl hbody
  obtain ⟨-, hsent⟩ := h.sent hg hm (by rw [hbody]; rfl)
  rw [hbody] at hsent
  exact honce hsent.2.2

theorem Sound.askReturned (h : Sound cfg s) (hg : s.signings sessionID = some g) (hc : c ∈ s.net.calls)
    {message : ℕ} (hbody : c.asked.body = .ask sessionID message)
    (honce : c.asked.target ∉ g.answerChan.map Prod.fst) :
    Sound cfg (s.setSigning sessionID
      { g with answerChan := g.answerChan ++ [(c.asked.target, Thread.succeeded c.thread)] }) := by
  have hok := h.signing sessionID g hg
  obtain ⟨hne, hsent⟩ := h.sent hg (List.mem_map_of_mem hc) (by rw [hbody]; rfl)
  rw [hbody] at hsent
  have hcont : g.Continues { g with answerChan := g.answerChan ++ [(c.asked.target, Thread.succeeded c.thread)] } :=
    { Signing.Continues.refl g with }
  refine h.goOn hg hcont { hok with accepted := ?_, others := ?_, nodup := ?_, read := ?_, read_le := ?_ } rfl
  · intro j hj
    rcases List.mem_append.mp hj with hj | hj
    · exact hok.accepted j hj
    · obtain ⟨rfl, hsuccess⟩ := Prod.mk.inj (List.mem_singleton.mp hj)
      exact ⟨c.asked, rfl, hsent.1 ▸ hbody, h.succeeded hc hsuccess.symm⟩
  · intro p hp
    rcases List.mem_append.mp hp with hp | hp
    · exact hok.others p hp
    · rw [List.mem_singleton.mp hp]
      exact hne
  · rw [List.map_append]
    exact List.nodup_append_comm.mp (List.nodup_cons.mpr ⟨honce, hok.nodup⟩)
  · rw [List.take_append_of_le_length hok.read_le]
    exact hok.read
  · rw [List.length_append]
    exact hok.read_le.trans (Nat.le_add_right ..)

theorem Sound.notifyReturned (h : Sound cfg s) (hg : s.signings sessionID = some g) (hc : c ∈ s.net.calls)
    {notaryIDs : List ℕ} (hbody : c.asked.body = .notifySelection sessionID notaryIDs) :
    Sound cfg (s.setSigning sessionID
      { g with notified := g.notified ++ [(c.asked.target, Thread.succeeded c.thread)] }) := by
  have hok := h.signing sessionID g hg
  have hcont : g.Continues { g with notified := g.notified ++ [(c.asked.target, Thread.succeeded c.thread)] } :=
    { Signing.Continues.refl g with }
  refine h.goOn hg hcont { hok with told := ?_, run := ?_ } rfl
  · intro j hj
    rcases List.mem_append.mp hj with hj | hj
    · exact hok.told j hj
    · obtain ⟨rfl, hsuccess⟩ := Prod.mk.inj (List.mem_singleton.mp hj)
      exact ⟨c.asked, notaryIDs, rfl, hbody, h.succeeded hc hsuccess.symm⟩
  · exact fun hrun j hj => List.mem_append_left _ (hok.run hrun j hj)

/-- The selection is made when enough notaries have agreed. -/
theorem Sound.readAnswer (h : Sound cfg s) (hg : s.signings sessionID = some g) (hstage : g.stage = .asking)
    {answer : ℕ × Bool} (hanswer : g.answerChan[g.answersRead]? = some answer) (shareCount : ℕ) :
    Sound cfg (s.setSigning sessionID (g.readAnswer shareCount answer)) := by
  have hok := h.signing sessionID g hg
  have hidle : (g.readAnswer shareCount answer).stage ≠ .running := by
    unfold Signing.readAnswer
    dsimp only
    split_ifs <;> decide
  have hcont : g.Continues (g.readAnswer shareCount answer) := by
    refine ⟨rfl, rfl, fun hs => absurd hstage hs.1, fun hrun => ?_, fun _ hi => hi, fun _ hi => hi⟩
    rw [hstage] at hrun
    cases hrun
  refine h.setSigning hg hcont ?_ fun hrun => absurd hrun hidle
  refine ⟨hok.accepted, hok.others, hok.nodup, ?_, ?_, ?_, hok.need, hok.told, fun hrun => absurd hrun hidle⟩
  · have htake : g.answerChan.take (g.answersRead + 1) = g.answerChan.take g.answersRead ++ [answer] := by
      rw [List.take_add_one, hanswer, Option.toList_some]
    unfold Signing.readAnswer
    dsimp only
    rw [htake, List.filter_append, List.map_append, ← hok.read]
    cases hsuccess : answer.2 <;> simp [hsuccess]
  · exact (List.getElem?_eq_some_iff.mp hanswer).1
  · intro hs
    by_contra hfew
    have hneed : ¬ (g.readAnswer shareCount answer).notaryNumNeedExpectSelf ≤
        (g.readAnswer shareCount answer).otherNotaryIDs.length := hfew
    unfold Signing.Selected Signing.readAnswer at hs
    unfold Signing.readAnswer at hneed
    dsimp only at hs hneed
    rw [if_neg hneed] at hs
    split_ifs at hs
    · exact hs.1 rfl
    · exact hs.2 rfl

/-- The handler of the notary that starts the session. No request of the session is for that notary. -/
theorem Sound.own (h : Sound cfg s) (hg : s.signings sessionID = some g) {x : DSMObject C}
    (hx : g.Member g.notaryID x) : Part s.handled sessionID g g.notaryID (some x) where
  entry := fun _ hy => .inr (Option.some.inj hy ▸ hx)
  invited := fun m hm htarget hbody _ => by
    exact absurd htarget (h.sent hg (h.wire.ended _ hm) (by rw [hbody]; rfl)).1
  selected := fun m _ hm htarget hbody _ => by
    exact absurd htarget (h.sent hg (h.wire.ended _ hm) (by rw [hbody]; rfl)).1
  runs := fun _ _ => ⟨x, rfl, hx⟩

/-- The handler is stored, and its main loop is called. All that are selected know of it. -/
theorem Sound.run (h : Sound cfg s) (hg : s.signings sessionID = some g) (hstage : g.stage = .notifying)
    (hdone : ∀ j ∈ g.otherNotaryIDs, j ∈ g.notified.map Prod.fst) (herr : ∀ j, (j, false) ∉ g.notified)
    {ids : OtherDSMNotaryIDs g.notaryID} (hids : ids.ids = g.otherNotaryIDs) {gammaI kI : SPrivKey}
    (hsign : (s.maps g.notaryID).startDistributedSign (cfg.notary g.notaryID) sessionID g.message g.privateKeyInfo ids
      gammaI kI = .ok m) :
    Sound cfg ((s.setSigning sessionID { g with stage := .running }).setMap g.notaryID m) := by
  obtain ⟨dh, hreg, hm⟩ := sign_cases (h.table g.notaryID) hsign
  obtain ⟨hmessage, hothers, hS⟩ := Signing.terms_of_register hreg
  have hok := h.signing sessionID g hg
  have hselected : g.Selected := by
    rw [Signing.Selected, hstage]
    decide
  have hfilter : g.dsmNotaryIDs.filter (· ≠ g.notaryID) = g.otherNotaryIDs := by
    rw [Signing.dsmNotaryIDs, List.filter_append, List.filter_eq_self.mpr]
    · simp
    · intro j hj
      exact decide_eq_true fun heq => hok.notMem_others (heq ▸ hj)
  have hmem : g.notaryID ∈ g.dsmNotaryIDs := List.mem_append_right _ List.mem_cons_self
  let x : DSMObject C := { m := { dh := dh } }
  have hx : g.Member g.notaryID x := by
    have hidle : Progress.idle ≠ .refused := by decide
    refine ⟨hmem, hselected, hmessage, ?_, ?_, fun hcalled => absurd rfl hcalled, hidle⟩
    · rw [hfilter, ← hids]
      exact hothers
    · rw [hfilter, ← hids]
      exact hS
  -- the handler is there before it is called, so it may be called once the session runs
  have hstored := touches_store (h.table g.notaryID) sessionID x
  have h₁ : Sound cfg (s.setMap g.notaryID ((s.maps g.notaryID).store sessionID x)) :=
    h.touch hstored h.wire rfl rfl rfl (fun _ hp => hp) (fun _ hp => hp) (fun _ hp => .inl hp) (fun _ _ => ⟨g, hg⟩)
      fun g' hg' => Option.some.inj (hg.symm.trans hg') ▸ h.own hg hx
  have hcont : g.Continues { g with stage := .running } :=
    { Signing.Continues.refl g with
      selected := fun _ => ⟨Signing.selected_of_running rfl, rfl⟩
      running := fun _ => rfl }
  have htold : ∀ j ∈ g.otherNotaryIDs, (j, true) ∈ g.notified := by
    intro j hj
    obtain ⟨p, hp, rfl⟩ := List.mem_map.mp (hdone j hj)
    cases hsuccess : p.2 with
    | true =>
      rw [← hsuccess]
      exact hp
    | false => exact absurd (hsuccess ▸ hp) (herr p.1)
  have hentry : ((s.setMap g.notaryID ((s.maps g.notaryID).store sessionID x)).maps g.notaryID).entry sessionID =
      some x := by
    unfold setMap
    dsimp only
    rw [Function.update_self, hstored.entry, Function.update_self]
  have h₂ := h₁.setSigning hg hcont ⟨hok.accepted, hok.others, hok.nodup, hok.read, hok.read_le,
    fun _ => hok.enough hselected, hok.need, hok.told, fun _ => htold⟩ fun _ => ⟨x, hentry, hx.continues hcont⟩
  have hcalled : Touches ((s.maps g.notaryID).store sessionID x) m sessionID
      (some { m := { dh := dh }, progress := .called }) := by
    refine ⟨hm.table, ?_⟩
    rw [hm.entry, hstored.entry, Function.update_idem]
  have hy : Signing.Member { g with stage := .running } g.notaryID { x with progress := .called } := by
    have hcontinued := hx.continues hcont
    have henough : Progress.called ≠ .refused := by decide
    exact ⟨hcontinued.mem, hcontinued.selected, hcontinued.message, hcontinued.others, hcontinued.signers, fun _ => rfl,
      henough⟩
  have hg₂ : ((s.setMap g.notaryID ((s.maps g.notaryID).store sessionID x)).setSigning sessionID
      { g with stage := .running }).signings sessionID = some { g with stage := .running } := Function.update_self ..
  have htouches : Touches (Function.update s.maps g.notaryID ((s.maps g.notaryID).store sessionID x) g.notaryID) m
      sessionID (some { x with progress := .called }) := by
    rw [Function.update_self]
    exact hcalled
  refine h₂.touch (k := g.notaryID) htouches h₂.wire rfl ?_ rfl (fun _ hp => hp) (fun _ hp => hp)
    (fun _ hp => .inl hp) (fun _ _ => ⟨_, hg₂⟩) ?_
  · exact (Function.update_idem ..).symm
  · intro g' hg'
    obtain rfl := Option.some.inj (hg₂.symm.trans hg')
    exact h₂.own hg₂ hy

end Goroutines

section Requests

/-- Of a session, a notary is asked once. -/
theorem Sound.handleAsk (h : Sound cfg s) {message : ℕ} {req : DSMAskRequest C}
    (hparse : ∀ m ∈ req.msgToSign, m = message) (hperm : s.onRequest.Perm (asked :: rest))
    (hbody : asked.body = .ask sessionID message) (hok : ok = true ↔ HandlerMap.Accepted req)
    (hwrites : Writes s.net asked ok net') :
    Sound cfg
      { s.setMap asked.target ((s.maps asked.target).onDSMAskRequest (cfg.notary asked.target) sessionID req) with
        net := net'
        onRequest := rest
        handled := (asked, ok) :: s.handled } := by
  have hin : asked ∈ s.net.asks := h.wire.given asked (hperm.mem_iff.mpr List.mem_cons_self)
  have hsession : asked.body.sessionID = sessionID := by rw [hbody]; rfl
  obtain ⟨g, hg, hne, hsent⟩ := h.asked asked hin
  rw [hsession] at hg
  rw [hbody] at hsent
  obtain ⟨rfl, -⟩ := hsent
  have hold := h.part sessionID g asked.target hg
  have hfirst : ∀ p ∈ s.handled, p.1.target = asked.target → p.1.body ≠ .ask sessionID g.message :=
    fun p hp htarget hask => h.wire.notMem_handled hperm p hp
      (h.unique p.1 (h.wire.ended p hp) asked hin htarget (hask.trans hbody.symm))
  have hpart : ∀ e, (∀ x, e = some x → g.Fresh asked.target x ∧ asked.target ≠ g.notaryID ∨ g.Member asked.target x) →
      (ok = true → ∃ x, e = some x ∧ g.Fresh asked.target x) →
        Part ((asked, ok) :: s.handled) sessionID g asked.target e := by
    intro e hentry hfresh
    refine ⟨hentry, fun m hm htarget hask _ => ?_, fun m notaryIDs hm htarget hnotify hj => ?_, fun _ hown => ?_⟩
    · rcases List.mem_cons.mp hm with heq | hm
      · exact hfresh (Prod.mk.inj heq).2.symm
      · exact absurd hask (hfirst _ hm htarget)
    · obtain ⟨m', htarget', hask, hm'⟩ := (h.signing sessionID g hg).agreed hj
      exact absurd hask (hfirst _ hm' htarget')
    · exact absurd hown hne
  rcases ask_cases (n := cfg.notary asked.target) (h.table asked.target) sessionID req with
    ⟨hrefused, hsame⟩ | ⟨haccepted, privateKeyInfo, message, hmessage, hm⟩
  · rw [hsame]
    refine h.handle hperm hwrites hsession hg (touches_refl (h.table _) sessionID)
      (hpart _ hold.entry fun htrue => ?_)
    exact absurd (hok.mp htrue) hrefused
  · have hfresh : g.Fresh asked.target
        { m := { dh := newDSMHandler (cfg.notary asked.target).selfNotaryID message privateKeyInfo } } :=
      ⟨rfl, hparse message hmessage, rfl, rfl⟩
    refine h.handle hperm hwrites hsession hg hm (hpart _ (fun x hx => .inl ⟨?_, hne⟩) fun _ => ⟨_, rfl, hfresh⟩)
    exact Option.some.inj hx ▸ hfresh

/-- A notary that is selected has agreed, and hears of the selection once. -/
theorem Sound.handleNotify (h : Sound cfg s) {notaryIDs : List ℕ} {gammaI kI : SPrivKey}
    (hperm : s.onRequest.Perm (asked :: rest)) (hbody : asked.body = .notifySelection sessionID notaryIDs)
    (hm : (s.maps asked.target).onDSMNotifySelectionRequest (cfg.notary asked.target) sessionID true notaryIDs gammaI
      kI = .ok m) (hwrites : Writes s.net asked ok net') :
    Sound cfg { s.setMap asked.target m with
      net := net'
      onRequest := rest
      handled := (asked, ok) :: s.handled } := by
  have hin : asked ∈ s.net.asks := h.wire.given asked (hperm.mem_iff.mpr List.mem_cons_self)
  have hsession : asked.body.sessionID = sessionID := by rw [hbody]; rfl
  obtain ⟨g, hg, hne, hsent⟩ := h.asked asked hin
  rw [hsession] at hg
  rw [hbody] at hsent
  obtain ⟨rfl, hselected, -⟩ := hsent
  have hold := h.part sessionID g asked.target hg
  have hfirst : ∀ p ∈ s.handled, p.1.target = asked.target → ∀ notaryIDs,
      p.1.body ≠ .notifySelection sessionID notaryIDs := by
    intro p hp htarget notaryIDs hnotify
    obtain ⟨rfl, -⟩ := h.selected hg hp hnotify
    exact h.wire.notMem_handled hperm p hp
      (h.unique p.1 (h.wire.ended p hp) asked hin htarget (hnotify.trans hbody.symm))
  have hagreed : asked.target ∈ g.otherNotaryIDs →
      ∃ x, (s.maps asked.target).entry sessionID = some x ∧ g.Fresh asked.target x := by
    intro hj
    obtain ⟨m', htarget, hask, hm'⟩ := (h.signing sessionID g hg).agreed hj
    exact hold.invited m' hm' htarget hask hfirst
  have hothers : asked.target ∈ g.dsmNotaryIDs → asked.target ∈ g.otherNotaryIDs := by
    intro hj
    rcases List.mem_append.mp hj with hj | hj
    · exact hj
    · exact absurd (List.mem_singleton.mp hj) hne
  have hpart : ∀ e, (∀ x, e = some x → g.Fresh asked.target x ∧ asked.target ≠ g.notaryID ∨ g.Member asked.target x) →
      (asked.target ∈ g.otherNotaryIDs → ∃ x, e = some x ∧ g.Member asked.target x) →
        Part ((asked, ok) :: s.handled) sessionID g asked.target e :=
    fun e hentry hmember =>
      ⟨hentry, fun _ _ _ _ hfree => absurd hbody (hfree (asked, ok) List.mem_cons_self rfl _),
        fun _ _ _ _ _ => hmember, fun _ hown => absurd hown hne⟩
  rcases notify_cases (h.table asked.target) hm with
    ⟨hout, hm⟩ | ⟨hmem, hnone, rfl⟩ | ⟨hmem, x, dh, hx, hreg, hm⟩
  · refine h.handle hperm hwrites hsession hg hm (hpart none (fun x hx => by cases hx) fun hj => ?_)
    exact absurd (List.mem_append_left _ hj) hout
  · have hm : Touches (s.maps asked.target) (s.maps asked.target) sessionID none :=
      hnone ▸ touches_refl (h.table _) sessionID
    refine h.handle hperm hwrites hsession hg hm (hpart none (fun x hx => by cases hx) fun hj => ?_)
    obtain ⟨x, hx, -⟩ := hagreed hj
    exact absurd (hx.symm.trans hnone) (Option.some_ne_none x)
  · obtain ⟨y, hy, hfresh⟩ := hagreed (hothers hmem)
    obtain rfl := Option.some.inj (hx.symm.trans hy)
    obtain ⟨hmessage, hregistered, hS⟩ := Signing.terms_of_register hreg
    have hmember : g.Member asked.target { x with m := { x.m with dh := dh } } := by
      refine ⟨hmem, hselected, hmessage.trans hfresh.message, hregistered, ?_, ?_, ?_⟩
      · rw [hfresh.self] at hS
        exact hS
      · exact fun hcalled => absurd hfresh.idle hcalled
      · dsimp only
        rw [hfresh.idle]
        decide
    exact h.handle hperm hwrites hsession hg hm
      (hpart _ (fun y hy => .inr (Option.some.inj hy ▸ hmember)) fun _ => ⟨_, rfl, hmember⟩)

end Requests

section Phases

/-- Main loops leave the notaries of their session as they are. -/
theorem Sound.goes (h : Sound cfg s) {k : ℕ} (htable : m.Table)
    (hm : m.entry = (s.maps k).entry ∨ ∃ sessionID x x', (s.maps k).entry sessionID = some x ∧
      Touches (s.maps k) m sessionID (some x') ∧ Goes cfg.thresholdCount x x') : Sound cfg (s.setMap k m) := by
  rcases hm with hsame | ⟨sessionID, x, x', hx, hm, hgoes⟩
  · have hm : Touches (s.maps k) m 0 ((s.maps k).entry 0) :=
      ⟨htable, hsame.trans (Function.update_eq_self ..).symm⟩
    exact h.touch hm h.wire rfl rfl rfl (fun _ hp => hp) (fun _ hp => hp) (fun _ hp => .inl hp) (h.known k 0)
      fun g hg => h.part 0 g k hg
  · obtain ⟨g, hg, hmember, hrun⟩ := h.called hx hgoes.called
    have hmember' := hmember.goes hgoes ((h.signing sessionID g hg).length_signers hmember)
    exact h.touch hm h.wire rfl rfl rfl (fun _ hp => hp) (fun _ hp => hp) (fun _ hp => .inl hp) (fun _ _ => ⟨g, hg⟩)
      fun g' hg' => Option.some.inj (hg.symm.trans hg') ▸ (h.part sessionID g k hg).replace hx hmember hmember'

theorem Sound.sendPhase (h : Sound cfg s) {k o : ℕ} {x : DSMObject C} {req : DSMRequest C}
    (hx : (s.maps k).find sessionID = some (o, x)) (hstarted : x.progress = .started)
    (hj : j ∈ x.m.dh.otherNotaryIDs) :
    Sound cfg { s with phases := { sender := k, target := j, sessionID := sessionID, req := req } :: s.phases } := by
  have hcalled : x.progress ≠ .idle := by
    rw [hstarted]
    decide
  obtain ⟨g, hg, hmember, hrun⟩ := h.called (entry_of_find hx) hcalled
  have hothers : j ∈ g.dsmNotaryIDs.filter (· ≠ k) := hmember.others ▸ hj
  obtain ⟨hmem, hne⟩ := List.mem_filter.mp hothers
  refine ⟨h.wire, h.table, h.asked, h.unique, h.signing, h.known, h.part, fun p hp => ?_⟩
  rcases List.mem_cons.mp hp with rfl | hp
  · exact ⟨g, hg, hrun, hmember.mem, hmem, Ne.symm (of_decide_eq_true hne)⟩
  · exact h.phases p hp

/-- A message of the phases calls the main loop of a notary of the session. -/
theorem Sound.deliverPhase (h : Sound cfg s) {p : PhaseMessage C} {rest : List (PhaseMessage C)}
    (hperm : s.phases.Perm (p :: rest)) :
    Sound cfg { s.setMap p.target ((s.maps p.target).onDSMRequest (cfg.notary p.target) p.sessionID p.sender p.req) with
      phases := rest } := by
  obtain ⟨g, hg, hrun, -, hmem, -⟩ := h.phases p (hperm.mem_iff.mpr List.mem_cons_self)
  obtain ⟨x, hx, hmember⟩ := h.member hg hrun hmem
  rcases request_cases (n := cfg.notary p.target) (h.table p.target) p.sessionID p.sender p.req with
    ⟨hnone, -⟩ | ⟨y, x', hy, hm, hsame, hprogress⟩
  · exact absurd (hx.symm.trans hnone) (Option.some_ne_none x)
  · obtain rfl := Option.some.inj (hx.symm.trans hy)
    have hmember' : g.Member p.target x' := by
      refine ⟨hmember.mem, hmember.selected, ?_, ?_, ?_, fun _ => hrun, ?_⟩
      · exact hsame ▸ hmember.message
      · exact hsame ▸ hmember.others
      · exact hsame ▸ hmember.signers
      · rw [hprogress]
        split_ifs
        · decide
        · exact hmember.enough
    refine h.touch hm h.wire rfl rfl rfl ?_ (fun _ hp => hp) (fun _ hp => .inl hp) (fun _ _ => ⟨g, hg⟩)
      fun g' hg' => Option.some.inj (hg.symm.trans hg') ▸ (h.part _ g _ hg).replace hx hmember hmember'
    exact fun p hp => hperm.mem_iff.mpr (List.mem_cons_of_mem _ hp)

end Phases

theorem Sound.new (cfg : Config) : Sound cfg ({} : Notaries C) where
  wire := ⟨.new, by simp, by simp, by simp, by simp, by simp⟩
  table := fun _ => table_new
  asked := by simp [Exchange.asks]
  unique := by simp [Exchange.asks]
  signing := fun _ g hg => absurd hg.symm (Option.some_ne_none g)
  known := fun _ _ x hx => absurd hx.symm (Option.some_ne_none x)
  part := fun _ g _ hg => absurd hg.symm (Option.some_ne_none g)
  phases := by simp

/-- One step of one thread of one notary. -/
theorem Sound.step (hcount : cfg.thresholdCount < cfg.shareCount) (h : Sound cfg s) (hstep : Step eth cfg s s') :
    Sound cfg s' := by
  cases hstep with
  | quiet hquiet hstep =>
    exact h.flight (h.wire.quiet hquiet hstep) (quiet_cases h.wire.inv hquiet hstep).1
  | start sessionID notaryID message privateKeyInfo deploys hnew =>
    refine h.start hnew ⟨by simp, by simp, List.nodup_nil, rfl, Nat.zero_le _, fun hs => absurd rfl hs.1, ?_, by simp,
      fun hrun => ?_⟩ ?_
    · dsimp only
      split_ifs
      · exact Nat.le_sub_one_of_lt hcount
      · exact le_rfl
    · cases hrun
    · have hidle : Stage.asking ≠ .running := by decide
      exact hidle
  | sendAsk j requestID hg hj honce hid => exact h.sendAsk hg hj honce hid
  | askReturned hg hc hbody hback honce => exact h.askReturned hg hc hbody honce
  | readAnswer hg hstage hanswer => exact h.readAnswer hg hstage hanswer cfg.shareCount
  | sendNotify j requestID hg hselected hj honce hid => exact h.sendNotify hg hselected hj honce hid
  | notifyReturned hg hc hbody hback honce => exact h.notifyReturned hg hc hbody
  | @fail sessionID j g hg hstage hdone herr =>
    have hok := h.signing sessionID g hg
    have hselected : g.Selected := by
      rw [Signing.Selected, hstage]
      decide
    have hfailed : Stage.failed ≠ .asking ∧ Stage.failed ≠ .refused := by decide
    have hstopped : Stage.failed ≠ .running := by decide
    have hcont : g.Continues { g with stage := .failed } :=
      { Signing.Continues.refl g with
        selected := fun _ => ⟨hfailed, rfl⟩
        running := fun hrun => by
          rw [hstage] at hrun
          cases hrun }
    exact h.setSigning hg hcont ⟨hok.accepted, hok.others, hok.nodup, hok.read, hok.read_le,
      fun _ => hok.enough hselected, hok.need, hok.told, fun hrun => absurd hrun hstopped⟩
      fun hrun => absurd hrun hstopped
  | run gammaI kI hg hstage hdone herr ids hids hsign => exact h.run hg hstage hdone herr hids hsign
  | deliver hstep =>
    obtain ⟨hwire, hasks⟩ := h.wire.deliver hstep
    exact h.flight hwire hasks
  | handleAsk req hparse hperm hbody hok hwrites => exact h.handleAsk hparse hperm hbody hok hwrites
  | handleNotify gammaI kI hperm hbody hm hok hwrites => exact h.handleNotify hperm hbody hm hwrites
  | startDSM k o blindFactor hm =>
    obtain ⟨htable, hm⟩ := startDSM_cases eth (h.table k) hm
    exact h.goes htable hm
  | loop k o input hm =>
    obtain ⟨htable, hm⟩ := loop_cases (h.table k) hm
    exact h.goes htable hm
  | sendPhase j req hx hstarted hj => exact h.sendPhase hx hstarted hj
  | deliverPhase hperm => exact h.deliverPhase hperm
  | losePhase hperm =>
    exact ⟨h.wire, h.table, h.asked, h.unique, h.signing, h.known, h.part,
      fun p hp => h.phases p (hperm.mem_iff.mpr (List.mem_cons_of_mem _ hp))⟩

theorem Run.sound (hcount : cfg.thresholdCount < cfg.shareCount) (h : Run eth cfg s) : Sound cfg s := by
  refine Reachable.invariant ?_ ?_ h
  · rintro s rfl
    exact .new cfg
  · exact fun s s' _ hs hstep => hs.step hcount hstep

/-- What the notaries whose main loop has been called can rely on. -/
structure Established (cfg : Config) (s : Notaries C) : Prop where
  /-- The signers are enough, the notary is one of them, and the main loop is not over at its start. -/
  signers : ∀ i sessionID x, (s.maps i).entry sessionID = some x → x.progress ≠ .idle →
    i ∈ x.m.dh.terms.S ∧ x.m.dh.terms.S.Nodup ∧ cfg.thresholdCount < x.m.dh.terms.S.length ∧ x.progress ≠ .refused
  agree : ∀ i j sessionID x y, (s.maps i).entry sessionID = some x → (s.maps j).entry sessionID = some y →
    x.progress ≠ .idle → y.progress ≠ .idle →
      x.m.dh.terms.message = y.m.dh.terms.message ∧ x.m.dh.terms.S.Perm y.m.dh.terms.S
  /-- All signers have a handler for the session. -/
  complete : ∀ i sessionID x, (s.maps i).entry sessionID = some x → x.progress ≠ .idle → ∀ j ∈ x.m.dh.terms.S,
    ∃ y, (s.maps j).entry sessionID = some y ∧ y.m.dh.terms.message = x.m.dh.terms.message ∧
      y.m.dh.terms.S.Perm x.m.dh.terms.S
  /-- A message of the phases finds a handler that knows its sender. -/
  ready : ∀ p ∈ s.phases, ∃ y, (s.maps p.target).entry p.sessionID = some y ∧ p.sender ∈ y.m.dh.terms.otherNotaryIDs

/-- Whatever messages are delayed or lost and whichever thread goes on next, the notaries that sign together agree on
what they sign and with whom before any of them sends a message of the phases. -/
theorem sessions_established (hcount : cfg.thresholdCount < cfg.shareCount) (h : Run eth cfg s) :
    Established cfg s where
  signers := by
    intro i sessionID x hx hcalled
    obtain ⟨g, hg, hmember, -⟩ := (h.sound hcount).called hx hcalled
    have hok := (h.sound hcount).signing sessionID g hg
    have hperm := hok.signers hmember
    exact ⟨hperm.mem_iff.mpr hmember.mem, hperm.nodup_iff.mpr hok.nodup_dsmNotaryIDs, hok.length_signers hmember,
      hmember.enough⟩
  agree := by
    intro i j sessionID x y hx hy hcalled hcalled'
    obtain ⟨g, hg, hmember, -⟩ := (h.sound hcount).called hx hcalled
    obtain ⟨g', hg', hmember', -⟩ := (h.sound hcount).called hy hcalled'
    obtain rfl := Option.some.inj (hg.symm.trans hg')
    have hok := (h.sound hcount).signing sessionID g hg
    exact ⟨hmember.message.trans hmember'.message.symm, (hok.signers hmember).trans (hok.signers hmember').symm⟩
  complete := by
    intro i sessionID x hx hcalled j hj
    obtain ⟨g, hg, hmember, hrun⟩ := (h.sound hcount).called hx hcalled
    have hok := (h.sound hcount).signing sessionID g hg
    obtain ⟨y, hy, hmember'⟩ := (h.sound hcount).member hg hrun ((hok.signers hmember).mem_iff.mp hj)
    exact ⟨y, hy, hmember'.message.trans hmember.message.symm, (hok.signers hmember').trans (hok.signers hmember).symm⟩
  ready := by
    intro p hp
    obtain ⟨g, hg, hrun, hsender, htarget, hne⟩ := (h.sound hcount).phases p hp
    obtain ⟨y, hy, hmember⟩ := (h.sound hcount).member hg hrun htarget
    refine ⟨y, hy, ?_⟩
    rw [hmember.others]
    exact List.mem_filter.mpr ⟨hsender, decide_eq_true hne⟩

/-! ### A session of two notaries -/

/-- Nothing is on its way but a response to the newest request, which its service has written. -/
structure Served (net : Exchange Invitation) (asked : Asked Invitation) (resp : BaseResponse) (o : ℕ) : Prop where
  calls : net.calls[o]? = some { asked := asked }
  load : net.load asked.sender resp.requestID = some o
  requestID : resp.requestID = asked.requestID
  serving : net.serving = [(asked, some resp)]
  responses : net.responses = []
  loaded : net.loaded = []

/-- The response has reached the thread that waits for it. -/
structure Returned (net net' : Exchange Invitation) (asked : Asked Invitation) (resp : BaseResponse) (o : ℕ) :
    Prop where
  calls : net'.calls = net.calls.set o { asked := asked, thread := .returned resp }
  requests : net'.requests = net.requests
  serving : net'.serving = []
  responses : net'.responses = []
  loaded : net'.loaded = []

/-- A response that is written reaches the thread that waits for it. -/
theorem Run.returned (h : Run eth cfg s) {asked : Asked Invitation} {resp : BaseResponse} {o : ℕ}
    (hserved : Served s.net asked resp o) :
    ∃ net', Run eth cfg { s with net := net' } ∧ Returned s.net net' asked resp o := by
  have ho : o < s.net.calls.length := (List.getElem?_eq_some_iff.mp hserved.calls).1
  have hlook : s.net.look { asked := asked } = .waiting o := by
    unfold Exchange.look
    rw [← hserved.requestID, hserved.load]
  have hlooked := h.step (.quiet (a := .look o) trivial (.look hserved.calls rfl))
  rw [hlook] at hlooked
  have hresponded := hlooked.step (.quiet (a := .respond asked) trivial
    (.respond (List.Perm.of_eq hserved.serving)))
  have hloaded := hresponded.step (.quiet (a := .load asked.sender resp) trivial
    (.load (List.Perm.refl _)))
  have hkept : (s.net.setCall o { asked := asked, thread := .waiting o }).load asked.sender resp.requestID = some o :=
    hserved.load
  have hperm : (((s.net.setCall o { asked := asked, thread := .waiting o }).load asked.sender resp.requestID).map
      fun o => (asked.sender, o, resp)).toList ++ s.net.loaded = [(asked.sender, o, resp)] := by
    rw [hkept, hserved.loaded]
    rfl
  have hwritten := hloaded.step (.quiet (a := .write asked.sender resp) trivial
    (.write (o := o) (c := { asked := asked, thread := .waiting o }) (List.Perm.of_eq hperm)
      (List.getElem?_set_self ho) rfl))
  have hget : ((s.net.calls.set o { asked := asked, thread := .waiting o }).set o
      { asked := asked, responseChan := some resp, thread := .waiting o })[o]? =
        some { asked := asked, responseChan := some resp, thread := .waiting o } :=
    List.getElem?_set_self (by rw [List.length_set]; exact ho)
  have hreceived := hwritten.step (.quiet (a := .receive o) trivial
    (@Exchange.Step.receive _ _ o o _ _ resp hget rfl hget rfl))
  refine ⟨_, hreceived, ?_, rfl, rfl, hserved.responses, rfl⟩
  change (((s.net.calls.set o _).set o _).set o _).set o _ = _
  simp only [List.set_set, if_true]


def config5 : Config where
  shareCount := 3
  thresholdCount := 1

/-- The key of notary `j` of `session5`. -/
def privateKey5 (j : ℕ) : PrivateKeyInfo curve5 where
  xI := session5.xi j
  paillierPrivkey := (session5.paillier j).key
  paillierPubKeys := RangeMap.tabulate (List.range 3) fun j => (session5.paillier j).key.toPublicKey
  publicKey := session5.publicKey j
  vss := (share curve5 1 3 (session5.poly j)).1

def askReq5 : DSMAskRequest curve5 where
  knownSigner := true
  privateKeyInfo := some (privateKey5 1)
  msgToSign := some 78
  checkMsgToSign := true

def invite5 : Asked Invitation where
  requestID := "ask"
  sender := 0
  target := 1
  body := .ask 7 78

def select5 : Asked Invitation where
  requestID := "select"
  sender := 0
  target := 1
  body := .notifySelection 7 [1, 0]

def accept5 (requestID : String) : BaseResponse where
  requestID := requestID
  errorCode := errorCodeSuccess
  errorMsg := "success"

def signing5 : Signing curve5 where
  notaryID := 0
  message := 78
  privateKeyInfo := privateKey5 0
  notaryNumNeedExpectSelf := 1

/-- Notary 1 is selected. -/
def selecting5 : Signing curve5 :=
  { signing5 with
    stage := .notifying
    askedIDs := [1]
    answerChan := [(1, true)]
    answersRead := 1
    otherNotaryIDs := [1] }

theorem register5 (j : ℕ) (hj : j ∈ session5.S) : ∃ dh, (newDSMHandler j 78 (privateKey5 j)).registerOtherNotaryIDs
    (session5.others j) (session5.coins j).gammaI (session5.coins j).kI = .ok dh := by
  obtain ⟨key, -, hkey⟩ := Session.start_ok (s := session5) (i := j) hj
  exact ⟨_, hkey⟩

/-- Notary 0 has asked notary 1 to sign, and notary 1 has agreed. -/
structure Agreed5 (s : Notaries curve5) : Prop where
  run : Run ethereum5 config5 s
  served : Served s.net invite5 (accept5 "ask") 0
  calls : s.net.calls = [{ asked := invite5 }]
  requests : s.net.requests = []
  onRequest : s.onRequest = []
  signings : s.signings 7 = some { signing5 with askedIDs := [1] }
  maps : s.maps 1 = HandlerMap.store {} 7 { m := { dh := newDSMHandler 1 78 (privateKey5 1) } }
  own : s.maps 0 = {}

theorem exists_agreed5 : ∃ s, Agreed5 s := by
  have haccepted : Accepted askReq5 := ⟨rfl, rfl, rfl, rfl⟩
  have hstart : Run ethereum5 config5 ({} : Notaries curve5) := .init rfl
  have hstarted := hstart.step (.start 7 0 78 (privateKey5 0) false rfl)
  have hasked := hstarted.step (.sendAsk 1 "ask" (g := signing5) (Function.update_self ..) (by decide)
    List.not_mem_nil (fun _ hc => absurd hc List.not_mem_nil))
  have hdelivered := hasked.step (.deliver (.deliver (List.Perm.refl _)))
  have hhandled := hdelivered.step (.handleAsk askReq5
    (fun m hm => (Option.some.inj hm).symm) (List.Perm.refl _) rfl (iff_of_true rfl haccepted)
    (.written (accept5 "ask") (iff_of_true rfl rfl) (.serve (accept5 "ask") rfl (List.Perm.refl _))))
  exact ⟨_, hhandled, ⟨rfl, rfl, rfl, rfl, rfl, rfl⟩, rfl, rfl, rfl, rfl, rfl, rfl⟩

/-- Notary 1 has heard of the selection. -/
structure Selected5 (s : Notaries curve5) (dh : DSMHandler curve5) : Prop where
  run : Run ethereum5 config5 s
  served : Served s.net select5 (accept5 "select") 1
  signings : s.signings 7 = some { selecting5 with notifiedIDs := [1] }
  entry : (s.maps 1).entry 7 = some { m := { dh := dh } }
  own : s.maps 0 = {}

theorem exists_selected5 : ∃ s dh, Selected5 s dh := by
  obtain ⟨s, h⟩ := exists_agreed5
  obtain ⟨net', hrun, hnet⟩ := h.run.returned h.served
  have hcalls : net'.calls = [{ asked := invite5, thread := .returned (accept5 "ask") }] := by
    rw [hnet.calls, h.calls]
    rfl
  have hin : { asked := invite5, thread := .returned (accept5 "ask") } ∈ net'.calls := hcalls ▸ List.mem_cons_self
  have hreturned := hrun.step (.askReturned h.signings hin rfl (.inl ⟨_, rfl⟩) List.not_mem_nil)
  have hanswer : ([] ++ [(1, true)])[0]? = some (1, true) := rfl
  have hread := hreturned.step (.readAnswer (Function.update_self ..) rfl hanswer)
  have hid : ∀ c ∈ net'.calls, c.asked.requestID ≠ "select" := by
    intro c hc
    rw [hcalls] at hc
    rw [List.mem_singleton.mp hc]
    decide
  have hsent := hread.step (.sendNotify (g := selecting5) 1 "select" (Function.update_self ..) ⟨by decide, by decide⟩
    Nat.one_ne_zero List.not_mem_nil hid)
  have hload : (net'.sendWSReqToNotary select5).load 0 "select" = some 1 := by
    rw [Exchange.load_send (hrun.sound (by decide)).wire.inv hid, if_pos ⟨rfl, rfl⟩, hcalls]
    rfl
  have hdelivered := hsent.step (.deliver (.deliver
    (List.Perm.of_eq (congrArg (List.cons select5) (hnet.requests.trans h.requests)))))
  obtain ⟨dh, hreg⟩ := register5 1 (List.mem_cons_of_mem _ List.mem_cons_self)
  have hfind : (s.maps 1).find 7 = some (0, { m := { dh := newDSMHandler 1 78 (privateKey5 1) } }) := by
    rw [h.maps]
    exact find_eq_some.mpr ⟨AList.lookup_insert _, rfl⟩
  have hselect : (s.maps 1).onDSMNotifySelectionRequest (config5.notary 1) 7 true [1, 0] (session5.coins 1).gammaI
      (session5.coins 1).kI = .ok ((s.maps 1).update 0 { m := { dh := dh } }) := by
    unfold onDSMNotifySelectionRequest
    rw [if_neg (by decide), if_neg (by decide), hfind]
    exact bind_eq_ok.mpr ⟨dh, hreg, rfl⟩
  have hfound : ((s.maps 1).find 7).isSome = true := by
    rw [hfind]
    rfl
  have hhandled := hdelivered.step (.handleNotify _ _
    (List.Perm.of_eq (congrArg (List.cons select5) h.onRequest)) rfl hselect (iff_of_true rfl (.inr hfound))
    (.written (accept5 "select") (iff_of_true rfl rfl)
      (.serve (accept5 "select") rfl (List.Perm.refl _))))
  refine ⟨_, dh, hhandled, ⟨?_, hload, rfl, ?_, hnet.responses, hnet.loaded⟩, rfl, ?_, ?_⟩
  · change (net'.calls ++ [{ asked := select5 }])[1]? = _
    rw [hcalls]
    rfl
  · change (select5, _) :: net'.serving = _
    rw [hnet.serving]
    rfl
  · obtain ⟨hlookup, hobject⟩ := find_eq_some.mp hfind
    have hentry : ((s.maps 1).update 0 { m := { dh := dh } }).entry 7 = some { m := { dh := dh } } :=
      entry_of_find (o := 0) (find_eq_some.mpr ⟨hlookup, objects_update_self hobject⟩)
    exact (congrArg (fun m : HandlerMap curve5 => m.entry 7) (Function.update_self 1 _ s.maps)).trans hentry
  · have hother : Function.update s.maps 1 ((s.maps 1).update 0 { m := { dh := dh } }) 0 = s.maps 0 :=
      Function.update_of_ne Nat.zero_ne_one ..
    exact hother.trans h.own

def others5 : OtherDSMNotaryIDs 0 := HandlerMap.others5

theorem sessions_established_session5 : ∃ (s : Notaries curve5) (x y : DSMObject curve5),
    Established config5 s ∧ (s.maps 0).entry 7 = some x ∧ (s.maps 1).entry 7 = some y ∧ x.progress = .called := by
  obtain ⟨s, dh, h⟩ := exists_selected5
  obtain ⟨net', hrun, hnet⟩ := h.run.returned h.served
  have hin : { asked := select5, thread := .returned (accept5 "select") } ∈ net'.calls := by
    rw [hnet.calls]
    exact List.mem_set (List.getElem?_eq_some_iff.mp h.served.calls).1 _
  have hreturned := hrun.step (.notifyReturned h.signings hin rfl (.inl ⟨_, rfl⟩) List.not_mem_nil)
  obtain ⟨dh₀, hreg⟩ := register5 0 List.mem_cons_self
  have hsign : (s.maps 0).startDistributedSign (config5.notary 0) 7 78 (privateKey5 0) others5 (session5.coins 0).gammaI
      (session5.coins 0).kI = .ok (HandlerMap.store {} 7 { m := { dh := dh₀ }, progress := .called }) := by
    rw [h.own]
    exact bind_eq_ok.mpr ⟨dh₀, hreg, rfl⟩
  have herr : ∀ j, (j, false) ∉ [(1, true)] :=
    fun j hj => absurd (Prod.mk.inj (List.mem_singleton.mp hj)).2 Bool.false_ne_true
  have hruns := hreturned.step
    (.run _ _ (Function.update_self ..) rfl (fun _ hj => hj) herr others5 rfl hsign)
  refine ⟨_, { m := { dh := dh₀ }, progress := .called }, { m := { dh := dh } }, sessions_established (by decide) hruns,
    ?_, ?_, rfl⟩
  · have hentry : (HandlerMap.store {} 7 { m := { dh := dh₀ }, progress := .called }).entry 7 =
        some { m := { dh := dh₀ }, progress := .called } :=
      entry_of_find (o := 0) (find_eq_some.mpr ⟨AList.lookup_insert _, rfl⟩)
    exact (congrArg (fun m : HandlerMap curve5 => m.entry 7) (Function.update_self 0 _ s.maps)).trans hentry
  · have hother : Function.update s.maps 0 (HandlerMap.store {} 7 { m := { dh := dh₀ }, progress := .called }) 1 =
        s.maps 1 := Function.update_of_ne Nat.one_ne_zero ..
    exact (congrArg (fun m : HandlerMap curve5 => m.entry 7) hother).trans h.entry

end Notaries

end DistributedNotary.Mecdsa
