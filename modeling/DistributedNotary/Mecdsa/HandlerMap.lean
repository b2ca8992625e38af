import DistributedNotary.Mecdsa.Membership

/-! The table of the signing sessions of a notary, `dsmHandlerMap`, and the
requests that write it. Handlers are objects that the table points to: one that
is replaced in the table lives on as long as its main loop runs. Any notary can
send any request at any time, also for a session that exists. -/
namespace DistributedNotary.Mecdsa

open Library Share Feldman

variable {C : Curve} {eth : Ethereum C}

structure PrivateKeyInfo (C : Curve) where
  xI : SPrivKey
  paillierPrivkey : Paillier.PrivateKey
  paillierPubKeys : RangeMap ℕ Paillier.PublicKey
  publicKey : C.Point
  vss : VerifiableSS C

def newDSMHandler (selfNotaryID message : ℕ) (privateKeyInfo : PrivateKeyInfo C) : DSMHandler C where
  selfNotaryID := selfNotaryID
  xi := privateKeyInfo.xI
  paillierPubKeys := privateKeyInfo.paillierPubKeys
  paillierPrivateKey := privateKeyInfo.paillierPrivkey
  publicKey := privateKeyInfo.publicKey
  vss := privateKeyInfo.vss
  signMessage := { message := message }

/-- Where `StartDSMAndWaitFinish` of a handler stands: not called, called, over without a first phase, or in its
phases. `Running` is that it was called. -/
inductive Progress where
  | idle
  | called
  | refused
  | started
  deriving DecidableEq

structure DSMObject (C : Curve) where
  m : MainLoop C
  progress : Progress := .idle
  receiveChan : List (ℕ × DSMRequest C) := []

/-- The handlers and, for each session ID, the number of its handler. -/
structure HandlerMap (C : Curve) where
  objects : List (DSMObject C) := []
  dsmHandlerMap : RangeMap ℕ ℕ := ∅

/-- What a notary knows of itself and of the others. -/
structure NotaryConfig where
  selfNotaryID : ℕ
  shareCount : ℕ
  thresholdCount : ℕ

/-- The request to sign, with what its checks find: whether the signer is a notary, the private key, the message
that it parses to and whether the message is one to sign. -/
structure DSMAskRequest (C : Curve) where
  knownSigner : Bool
  privateKeyInfo : Option (PrivateKeyInfo C)
  msgToSign : Option ℕ
  checkMsgToSign : Bool

/-- The IDs of other notaries that answered `startDSMAsk`, of which each answers once. -/
structure OtherDSMNotaryIDs (selfNotaryID : ℕ) where
  ids : List ℕ
  nodup : ids.Nodup
  notMem : selfNotaryID ∉ ids

namespace HandlerMap

variable (s : HandlerMap C) (n : NotaryConfig)

/-- `dsmHandlerMap.Load`. -/
def find (sessionID : ℕ) : Option (ℕ × DSMObject C) :=
  (s.dsmHandlerMap.lookup sessionID).bind fun o => s.objects[o]?.map (Prod.mk o)

/-- `dsmHandlerMap.Store` of a new handler. -/
def store (sessionID : ℕ) (x : DSMObject C) : HandlerMap C where
  objects := s.objects ++ [x]
  dsmHandlerMap := s.dsmHandlerMap.insert sessionID s.objects.length

def update (o : ℕ) (x : DSMObject C) : HandlerMap C := { s with objects := s.objects.set o x }

def onDSMAskRequest (sessionID : ℕ) (req : DSMAskRequest C) : HandlerMap C :=
  if !req.knownSigner then s
  else
    match req.privateKeyInfo, req.msgToSign with
    | some privateKeyInfo, some msgToSign =>
      if !req.checkMsgToSign then s
      else s.store sessionID { m := { dh := newDSMHandler n.selfNotaryID msgToSign privateKeyInfo } }
    | _, _ => s

def onDSMNotifySelectionRequest (sessionID : ℕ) (knownSigner : Bool) (notaryIDs : List ℕ) (gammaI kI : SPrivKey) :
    Except String (HandlerMap C) :=
  if !knownSigner then .ok s
  -- not selected
  else if n.selfNotaryID ∉ notaryIDs then .ok { s with dsmHandlerMap := s.dsmHandlerMap.erase sessionID }
  else
    match s.find sessionID with
    | none => .ok s
    | some (o, x) => do
      let otherNotaryIDs := notaryIDs.filter (· ≠ n.selfNotaryID)
      let dh ← x.m.dh.registerOtherNotaryIDs otherNotaryIDs gammaI kI
      return s.update o { x with m := { x.m with dh := dh } }

/-- The channel holds ten requests a notary, and drops what it has no room for. -/
def onDSMRequest (sessionID index : ℕ) (req : DSMRequest C) : HandlerMap C :=
  match s.find sessionID with
  | none => s
  | some (o, x) =>
    s.update o { x with
      progress := if x.progress = .idle then .called else x.progress
      receiveChan :=
        if x.receiveChan.length < 10 * n.shareCount then x.receiveChan ++ [(index, req)] else x.receiveChan }

/-- The end of `startDistributedSignAndWait`, when the selected notaries have answered. -/
def startDistributedSign (sessionID message : ℕ) (privateKeyInfo : PrivateKeyInfo C)
    (otherDSMNotaryIDs : OtherDSMNotaryIDs n.selfNotaryID) (gammaI kI : SPrivKey) : Except String (HandlerMap C) := do
  let dh := newDSMHandler n.selfNotaryID message privateKeyInfo
  let dh ← dh.registerOtherNotaryIDs otherDSMNotaryIDs.ids gammaI kI
  return s.store sessionID { m := { dh := dh }, progress := .called }

/-- The start of `StartDSMAndWaitFinish`. -/
def startDSM (o : ℕ) (blindFactor : ℕ) : Except String (HandlerMap C) :=
  match s.objects[o]? with
  | none => .ok s
  | some x =>
    if x.progress = .called then do
      let m ← MainLoop.start n.thresholdCount x.m.dh blindFactor
      let progress : Progress := if x.m.dh.signMessage.S.length ≤ n.thresholdCount then .refused else .started
      return s.update o { x with m := m, progress := progress }
    else .ok s

/-- What happens next: one of the requests, a signature of the notary's own, or a step of a main loop. -/
inductive Action (C : Curve) (n : NotaryConfig) where
  | ask (sessionID : ℕ) (req : DSMAskRequest C)
  | notifySelection (sessionID : ℕ) (knownSigner : Bool) (notaryIDs : List ℕ) (gammaI kI : SPrivKey)
  | request (sessionID index : ℕ) (req : DSMRequest C)
  | sign (sessionID message : ℕ) (privateKeyInfo : PrivateKeyInfo C)
      (otherDSMNotaryIDs : OtherDSMNotaryIDs n.selfNotaryID) (gammaI kI : SPrivKey)
  | start (o blindFactor : ℕ)
  | loop (o : ℕ) (input : MainLoop.Input C)

/-- The main loop takes its requests from the channel. -/
def Takes (receiveChan : List (ℕ × DSMRequest C)) : MainLoop.Input C → List (ℕ × DSMRequest C) → Prop
  | .request index req _, rest => receiveChan = (index, req) :: rest
  | _, rest => receiveChan = rest

variable {s n}

/-- One step of the notary. Where a computation panics there is none. -/
inductive Step (eth : Ethereum C) (n : NotaryConfig) : HandlerMap C → Action C n → HandlerMap C → Prop
  | ask {s : HandlerMap C} (sessionID : ℕ) (req : DSMAskRequest C) :
      Step eth n s (.ask sessionID req) (s.onDSMAskRequest n sessionID req)
  | notifySelection {s s' : HandlerMap C} (sessionID : ℕ) (knownSigner : Bool) (notaryIDs : List ℕ)
      (gammaI kI : SPrivKey)
      (h : s.onDSMNotifySelectionRequest n sessionID knownSigner notaryIDs gammaI kI = .ok s') :
      Step eth n s (.notifySelection sessionID knownSigner notaryIDs gammaI kI) s'
  | request {s : HandlerMap C} (sessionID index : ℕ) (req : DSMRequest C) :
      Step eth n s (.request sessionID index req) (s.onDSMRequest n sessionID index req)
  | sign {s s' : HandlerMap C} (sessionID message : ℕ) (privateKeyInfo : PrivateKeyInfo C)
      (otherDSMNotaryIDs : OtherDSMNotaryIDs n.selfNotaryID) (gammaI kI : SPrivKey)
      (h : s.startDistributedSign n sessionID message privateKeyInfo otherDSMNotaryIDs gammaI kI = .ok s') :
      Step eth n s (.sign sessionID message privateKeyInfo otherDSMNotaryIDs gammaI kI) s'
  | start {s s' : HandlerMap C} (o blindFactor : ℕ) (h : s.startDSM n o blindFactor = .ok s') :
      Step eth n s (.start o blindFactor) s'
  | loop {s : HandlerMap C} {x : DSMObject C} {m : MainLoop C} {rest : List (ℕ × DSMRequest C)} (o : ℕ)
      (input : MainLoop.Input C) (hx : s.objects[o]? = some x) (hstarted : x.progress = .started)
      (htakes : Takes x.receiveChan input rest) (hstep : MainLoop.Step eth x.m input m) :
      Step eth n s (.loop o input) (s.update o { x with m := m, receiveChan := rest })

/-- The session has a handler in its phases. -/
def Started (s : HandlerMap C) (sessionID : ℕ) : Prop :=
  ∃ o x, s.find sessionID = some (o, x) ∧ x.progress = .started

def Accepted (req : DSMAskRequest C) : Prop :=
  req.knownSigner ∧ req.privateKeyInfo.isSome ∧ req.msgToSign.isSome ∧ req.checkMsgToSign

/-- Nothing is asked, selected or signed anew for a session in its phases, and the selection of a session that enters
them names nobody twice. -/
def Proper (s : HandlerMap C) : Action C n → Prop
  | .ask sessionID req => Accepted req → ¬ s.Started sessionID
  | .notifySelection sessionID knownSigner _ _ _ => knownSigner → ¬ s.Started sessionID
  | .sign sessionID _ _ _ _ _ => ¬ s.Started sessionID
  | .start o _ => ∀ x, s.objects[o]? = some x → x.m.dh.otherNotaryIDs.Nodup
  | _ => True

/-- The signers are nobody yet, or others and the notary itself. -/
def Registered (n : NotaryConfig) (t : Terms C) : Prop :=
  t.selfNotaryID = n.selfNotaryID ∧
    (t.S = [] ∨ t.S = t.otherNotaryIDs ++ [n.selfNotaryID] ∧ n.selfNotaryID ∉ t.otherNotaryIDs)

/-- What holds of the handlers: one in its phases has enough signers, each once. -/
structure Sound (n : NotaryConfig) (x : DSMObject C) : Prop where
  registered : Registered n x.m.dh.terms
  started : x.progress = .started → x.m.dh.terms.S.Nodup ∧ n.thresholdCount < x.m.dh.terms.S.length

/-- The handler is still in its phases, with what it signs, with whom and under which keys. -/
structure Same (x x' : DSMObject C) : Prop where
  started : x'.progress = .started
  terms : x'.m.dh.terms = x.m.dh.terms

section Tables

theorem find_eq_some {s : HandlerMap C} {sessionID o : ℕ} {x : DSMObject C} :
    s.find sessionID = some (o, x) ↔ s.dsmHandlerMap.lookup sessionID = some o ∧ s.objects[o]? = some x := by
  unfold find
  constructor
  · intro h
    obtain ⟨o', ho', h⟩ := Option.bind_eq_some_iff.mp h
    obtain ⟨x', hx', h⟩ := Option.map_eq_some_iff.mp h
    obtain ⟨rfl, rfl⟩ := Prod.mk.inj h
    exact ⟨ho', hx'⟩
  · rintro ⟨ho, hx⟩
    rw [ho, Option.bind_some, hx, Option.map_some]

theorem objects_store {s : HandlerMap C} {sessionID o : ℕ} {x y : DSMObject C} (h : s.objects[o]? = some x) :
    (s.store sessionID y).objects[o]? = some x := by
  have ho : o < s.objects.length := (List.getElem?_eq_some_iff.mp h).1
  rw [store, List.getElem?_append_left ho]
  exact h

theorem objects_update_self {s : HandlerMap C} {o : ℕ} {x y : DSMObject C} (hx : s.objects[o]? = some x) :
    (s.update o y).objects[o]? = some y := List.getElem?_set_self (List.getElem?_eq_some_iff.mp hx).1

end Tables

/-- A handler of the table before a step and after it. -/
inductive Moves (n : NotaryConfig) (s : HandlerMap C) : HandlerMap C → Prop
  | refl : Moves n s s
  /-- A new session, or one that is not in its phases anew. -/
  | store (sessionID : ℕ) (x : DSMObject C) (hnew : ¬ s.Started sessionID) (hsound : Sound n x) :
      Moves n s (s.store sessionID x)
  | erase (sessionID : ℕ) (hnew : ¬ s.Started sessionID) :
      Moves n s { s with dsmHandlerMap := s.dsmHandlerMap.erase sessionID }
  | update {o : ℕ} {x : DSMObject C} (x' : DSMObject C) (hx : s.objects[o]? = some x)
      (hsame : x.progress = .started → Same x x') (hsound : Sound n x → Sound n x') : Moves n s (s.update o x')

theorem Moves.sound {s' : HandlerMap C} (h : Moves n s s') (hs : ∀ x ∈ s.objects, Sound n x) :
    ∀ x ∈ s'.objects, Sound n x := by
  cases h with
  | refl => exact hs
  | store sessionID x hnew hsound =>
    intro y hy
    rcases List.mem_append.mp hy with hy | hy
    · exact hs y hy
    · rw [List.mem_singleton.mp hy]
      exact hsound
  | erase sessionID hnew => exact hs
  | update x' hx hsame hsound =>
    intro y hy
    rcases List.mem_or_eq_of_mem_set hy with hy | rfl
    · exact hs y hy
    · exact hsound (hs _ (List.mem_of_getElem? hx))

theorem Moves.same {s' : HandlerMap C} (h : Moves n s s') {sessionID o : ℕ} {x : DSMObject C}
    (hx : s.find sessionID = some (o, x)) (hstarted : x.progress = .started) :
    ∃ x', s'.find sessionID = some (o, x') ∧ Same x x' := by
  obtain ⟨hlookup, hobject⟩ := find_eq_some.mp hx
  have hs : s.Started sessionID := ⟨o, x, hx, hstarted⟩
  cases h with
  | refl => exact ⟨x, hx, hstarted, rfl⟩
  | store sessionID' y hnew =>
    have hne : sessionID ≠ sessionID' := fun heq => hnew (heq ▸ hs)
    refine ⟨x, find_eq_some.mpr ⟨?_, objects_store hobject⟩, hstarted, rfl⟩
    unfold HandlerMap.store
    dsimp only
    rw [AList.lookup_insert_ne hne]
    exact hlookup
  | erase sessionID' hnew =>
    have hne : sessionID ≠ sessionID' := fun heq => hnew (heq ▸ hs)
    refine ⟨x, find_eq_some.mpr ⟨?_, hobject⟩, hstarted, rfl⟩
    rw [AList.lookup_erase_ne hne]
    exact hlookup
  | @update o' y y' hy hsame hsound =>
    by_cases heq : o = o'
    · subst heq
      obtain rfl : y = x := Option.some.inj (hy.symm.trans hobject)
      exact ⟨y', find_eq_some.mpr ⟨hlookup, objects_update_self hy⟩, hsame hstarted⟩
    · refine ⟨x, find_eq_some.mpr ⟨hlookup, ?_⟩, hstarted, rfl⟩
      unfold HandlerMap.update
      dsimp only
      rw [List.getElem?_set_ne (Ne.symm heq)]
      exact hobject

section Terms

variable {dh dh' : DSMHandler C} {m m' : MainLoop C}

theorem registered_of_register {otherNotaryIDs : List ℕ} {gammaI kI : SPrivKey}
    (hself : dh.selfNotaryID = n.selfNotaryID) (hother : n.selfNotaryID ∉ otherNotaryIDs)
    (hreg : dh.registerOtherNotaryIDs otherNotaryIDs gammaI kI = .ok dh') : Registered n dh'.terms := by
  obtain ⟨lambdaI, -, hreg⟩ := bind_eq_ok.mp hreg
  rw [← pure_eq_ok.mp hreg]
  refine ⟨hself, .inr ⟨?_, hother⟩⟩
  exact congrArg (fun j => otherNotaryIDs ++ [j]) hself

theorem terms_start (eth : Ethereum C) {thresholdCount blindFactor : ℕ}
    (h : MainLoop.start thresholdCount dh blindFactor = .ok m) :
    m.dh.terms = dh.terms := by
  unfold MainLoop.start at h
  split at h
  · rw [← Except.ok.inj h]
  · obtain ⟨r, hr, h⟩ := bind_eq_ok.mp h
    rw [← pure_eq_ok.mp h]
    have hs : dh.Stored eth .phase1 _ r.1 := DSMHandler.generatePhase1Broadcast_stored hr
    exact hs.terms

/-- Nothing that a main loop does changes what it signs, with whom and under which keys. -/
theorem terms_step {input : MainLoop.Input C} (h : MainLoop.Step eth m input m') : m'.dh.terms = m.dh.terms := by
  cases h with
  | signal coins hrun hp hc hok => exact (MainLoop.makes_of_proceed hok).1.terms
  | quit hrun hq => rfl
  | request index req rg hrun hok =>
    rcases DSMHandler.onRequest_cases hok with ⟨-, rfl⟩ | ⟨p, -, ⟨-, hu⟩ | ⟨-, -, hs⟩⟩
    · rfl
    · exact hu.terms
    · exact hs.terms
  | answer index msg rg ha hok =>
    rcases DSMHandler.onAnswer_cases eth hok with ⟨-, hu⟩ | ⟨-, hs⟩
    · exact hu.terms
    · exact hs.terms
  | noAnswer index err ha => rfl

end Terms

section Steps

variable {s' : HandlerMap C}

theorem moves_ask {sessionID : ℕ} {req : DSMAskRequest C} (hp : Accepted req → ¬ s.Started sessionID) :
    Moves n s (s.onDSMAskRequest n sessionID req) := by
  unfold onDSMAskRequest
  split
  · exact .refl
  · next hsigner =>
    split
    · next p msg hkey hmsg =>
      split
      · exact .refl
      · next hcheck =>
        have haccepted : Accepted req := by simp_all [Accepted]
        exact .store sessionID _ (hp haccepted) ⟨⟨rfl, .inl rfl⟩, fun h => nomatch h⟩
    · exact .refl

theorem moves_notifySelection {sessionID : ℕ} {knownSigner : Bool} {notaryIDs : List ℕ} {gammaI kI : SPrivKey}
    (hp : knownSigner → ¬ s.Started sessionID)
    (h : s.onDSMNotifySelectionRequest n sessionID knownSigner notaryIDs gammaI kI = .ok s') : Moves n s s' := by
  unfold onDSMNotifySelectionRequest at h
  split_ifs at h with hsigner hin
  · rw [← Except.ok.inj h]
    exact .refl
  · have hnew := hp (by simpa using hsigner)
    split at h
    · rw [← Except.ok.inj h]
      exact .refl
    · next o x hfind =>
      obtain ⟨dh, hreg, h⟩ := bind_eq_ok.mp h
      rw [← pure_eq_ok.mp h]
      have hidle : x.progress ≠ .started := fun hstarted => hnew ⟨o, x, hfind, hstarted⟩
      refine .update _ (find_eq_some.mp hfind).2 (fun hstarted => absurd hstarted hidle) fun hsound => ⟨?_, ?_⟩
      · refine registered_of_register hsound.registered.1 ?_ hreg
        simp
      · exact fun hstarted => absurd hstarted hidle
  · rw [← Except.ok.inj h]
    exact .erase sessionID (hp (by simpa using hsigner))

theorem moves_request (sessionID index : ℕ) (req : DSMRequest C) :
    Moves n s (s.onDSMRequest n sessionID index req) := by
  unfold onDSMRequest
  split
  · exact .refl
  · next o x hfind =>
    have hprogress : (if x.progress = .idle then .called else x.progress) = .started ↔ x.progress = .started := by
      split_ifs with hidle
      · rw [hidle]
        decide
      · exact Iff.rfl
    refine .update _ (find_eq_some.mp hfind).2 (fun hstarted => ⟨hprogress.mpr hstarted, rfl⟩) fun hsound => ?_
    exact ⟨hsound.registered, fun hstarted => hsound.started (hprogress.mp hstarted)⟩

theorem moves_sign {sessionID message : ℕ} {privateKeyInfo : PrivateKeyInfo C}
    {otherDSMNotaryIDs : OtherDSMNotaryIDs n.selfNotaryID} {gammaI kI : SPrivKey} (hnew : ¬ s.Started sessionID)
    (h : s.startDistributedSign n sessionID message privateKeyInfo otherDSMNotaryIDs gammaI kI = .ok s') :
    Moves n s s' := by
  obtain ⟨dh, hreg, h⟩ := bind_eq_ok.mp h
  rw [← pure_eq_ok.mp h]
  exact .store sessionID _ hnew ⟨registered_of_register rfl otherDSMNotaryIDs.notMem hreg, fun h => nomatch h⟩

theorem moves_start (eth : Ethereum C) {o blindFactor : ℕ}
    (hp : ∀ x, s.objects[o]? = some x → x.m.dh.otherNotaryIDs.Nodup)
    (h : s.startDSM n o blindFactor = .ok s') : Moves n s s' := by
  unfold startDSM at h
  split at h
  · rw [← Except.ok.inj h]
    exact .refl
  · next x hx =>
    split at h
    · next hcalled =>
      obtain ⟨m, hm, h⟩ := bind_eq_ok.mp h
      rw [← pure_eq_ok.mp h]
      have hterms := terms_start eth hm
      refine .update _ hx (fun hstarted => absurd (hcalled.symm.trans hstarted) (by decide)) fun hsound => ⟨?_, ?_⟩
      · exact hterms ▸ hsound.registered
      · dsimp only
        rw [hterms]
        split_ifs with hfew
        · exact fun hstarted => nomatch hstarted
        · intro _
          refine ⟨?_, not_le.mp hfew⟩
          obtain ⟨-, hnone | ⟨hS, hother⟩⟩ := hsound.registered
          · rw [hnone]
            exact List.nodup_nil
          · rw [hS]
            refine List.Nodup.append (hp x hx) (List.nodup_singleton _) fun j hj hmem => ?_
            rw [List.mem_singleton.mp hmem] at hj
            exact hother hj
    · rw [← Except.ok.inj h]
      exact .refl

theorem moves_of_step {a : Action C n} (h : Step eth n s a s') (hp : Proper s a) : Moves n s s' := by
  cases h with
  | ask sessionID req => exact moves_ask hp
  | notifySelection sessionID knownSigner notaryIDs gammaI kI h => exact moves_notifySelection hp h
  | request sessionID index req => exact moves_request sessionID index req
  | sign sessionID message privateKeyInfo otherDSMNotaryIDs gammaI kI h => exact moves_sign hp h
  | start o blindFactor h => exact moves_start eth hp h
  | loop o input hx hstarted htakes hstep =>
    have hterms := terms_step hstep
    refine .update _ hx (fun _ => ⟨hstarted, hterms⟩) fun hsound => ⟨hterms ▸ hsound.registered, fun _ => ?_⟩
    exact hterms ▸ hsound.started hstarted

end Steps

/-- A step in which nothing is asked, selected or signed anew for a session in its phases. -/
def ProperStep (eth : Ethereum C) (n : NotaryConfig) (s : HandlerMap C) (a : Action C n) (s' : HandlerMap C) : Prop :=
  Step eth n s a s' ∧ Proper s a

theorem sound_of_runs {l : List (Action C n)} (h : Runs (ProperStep eth n) {} l s) : ∀ x ∈ s.objects, Sound n x := by
  refine h.invariant (fun _ s => ∀ x ∈ s.objects, Sound n x) (fun x hx => absurd hx List.not_mem_nil) ?_
  exact fun _ _ _ _ hs hstep => (moves_of_step hstep.1 hstep.2).sound hs

/-- In a run of proper steps, a session that has entered its phases keeps its handler, and the handler what it signs,
with whom and under which keys. The signers are enough, the notary is one of them, and none is there twice. -/
theorem session_immutable {l l' : List (Action C n)} {s' : HandlerMap C} {sessionID o : ℕ} {x : DSMObject C}
    (h : Runs (ProperStep eth n) {} l s) (hx : s.find sessionID = some (o, x)) (hstarted : x.progress = .started)
    (h' : Runs (ProperStep eth n) s l' s') :
    ∃ x', s'.find sessionID = some (o, x') ∧ Same x x' ∧ x'.m.dh.terms.S.Nodup ∧
      n.selfNotaryID ∈ x'.m.dh.terms.S ∧ n.thresholdCount < x'.m.dh.terms.S.length := by
  have hsound := sound_of_runs h x (List.mem_of_getElem? (find_eq_some.mp hx).2)
  obtain ⟨hnodup, hmany⟩ := hsound.started hstarted
  have hself : n.selfNotaryID ∈ x.m.dh.terms.S := by
    obtain ⟨-, hnone | ⟨hS, -⟩⟩ := hsound.registered
    · rw [hnone] at hmany
      exact absurd hmany (Nat.not_lt_zero _)
    · rw [hS]
      exact List.mem_append_right _ List.mem_cons_self
  obtain ⟨x', hfind, hsame⟩ := h'.invariant (fun _ s' => ∃ x', s'.find sessionID = some (o, x') ∧ Same x x')
    ⟨x, hx, hstarted, rfl⟩ fun _ _ _ _ hbefore hstep => by
      obtain ⟨y, hy, hsame⟩ := hbefore
      obtain ⟨y', hy', hsame'⟩ := (moves_of_step hstep.1 hstep.2).same hy hsame.started
      exact ⟨y', hy', hsame'.started, hsame'.terms.trans hsame.terms⟩
  refine ⟨x', hfind, hsame, ?_⟩
  rw [hsame.terms]
  exact ⟨hnodup, hself, hmany⟩

def notary5 : NotaryConfig where
  selfNotaryID := 0
  shareCount := 3
  thresholdCount := 1

def privateKeyInfo5 : PrivateKeyInfo curve5 where
  xI := session5.xi 0
  paillierPrivkey := (session5.paillier 0).key
  paillierPubKeys := RangeMap.tabulate (List.range 3) fun j => (session5.paillier j).key.toPublicKey
  publicKey := session5.publicKey 0
  vss := (share curve5 1 3 (session5.poly 0)).1

def others5 : OtherDSMNotaryIDs notary5.selfNotaryID where
  ids := [1]
  nodup := by decide
  notMem := by decide

def run5 : List (Action curve5 notary5) := [.start 0 5, .sign 7 78 privateKeyInfo5 others5 3 2]

/-- Notary 0 of `session5` is in its phases of session 7, which it signs with notary 1. -/
structure Started5 (s : HandlerMap curve5) (x : DSMObject curve5) : Prop where
  runs : Runs (ProperStep ethereum5 notary5) {} run5 s
  find : s.find 7 = some (0, x)
  length : s.objects.length = 1
  started : x.progress = .started
  selfNotaryID : x.m.dh.selfNotaryID = 0
  ki : x.m.dh.terms.signedKey.map (·.ki) = some 2
  share : ∃ d, x.m.dh.vss.mapShareToNewParams 0 [1, 0] = .ok d

theorem exists_started5 : ∃ s x, Started5 s x := by
  obtain ⟨key, hreg⟩ := MainLoop.register_session5
  obtain ⟨d, hd, hkey⟩ := bind_eq_ok.mp hreg
  have hki : key.ki = 2 := by
    have hsigned := congrArg (fun dh : DSMHandler curve5 => dh.signMessage.signedKey.map (·.ki)) (pure_eq_ok.mp hkey)
    exact (Option.some.inj hsigned).symm
  let com := Proofs.createCommitmentWithUserDefinedRandomNess (curve5.X (scalarBaseMult curve5 key.gammaI)) 5
  let m : MainLoop curve5 := {
    dh := (session5.handler 0 (session5.base 0 key)).setPhase1BroadCast
      (AList.insert 0 ({ com := com, blindFactor := 5 } : SignBroadcastPhase1) (∅ : RangeMap ℕ SignBroadcastPhase1)) }
  have hm : MainLoop.start 1 (session5.handler 0 (session5.base 0 key)) 5 = .ok m := rfl
  let x₀ : DSMObject curve5 := { m := { dh := session5.handler 0 (session5.base 0 key) }, progress := .called }
  let x : DSMObject curve5 := { m := m, progress := .started }
  have hsign : startDistributedSign {} notary5 7 78 privateKeyInfo5 others5 3 2 = .ok (store {} 7 x₀) :=
    bind_eq_ok.mpr ⟨_, hreg, rfl⟩
  have hstart : startDSM (store {} 7 x₀) notary5 0 5 = .ok ((store {} 7 x₀).update 0 x) :=
    bind_eq_ok.mpr ⟨m, hm, rfl⟩
  have hruns : Runs (ProperStep ethereum5 notary5) {} run5 ((store {} 7 x₀).update 0 x) := by
    refine .next _ (.next _ .start ⟨.sign _ _ _ _ _ _ hsign, ?_⟩) ⟨.start _ _ hstart, fun y hy => ?_⟩
    · rintro ⟨o, y, hy, -⟩
      cases hy
    · obtain rfl : x₀ = y := Option.some.inj hy
      exact List.nodup_singleton 1
  exact ⟨_, x, hruns, rfl, rfl, rfl, rfl, congrArg some hki, d, hd⟩

theorem session_immutable_session5 : ∃ s x x', Runs (ProperStep ethereum5 notary5) {} run5 s ∧
    s.find 7 = some (0, x) ∧ x.progress = .started ∧ s.find 7 = some (0, x') ∧ Same x x' ∧ x'.m.dh.terms.S.Nodup ∧
      0 ∈ x'.m.dh.terms.S ∧ 1 < x'.m.dh.terms.S.length := by
  obtain ⟨s, x, h⟩ := exists_started5
  obtain ⟨x', hsame⟩ := session_immutable h.runs h.find h.started .start
  exact ⟨s, x, x', h.runs, h.find, h.started, hsame⟩

def ask5 : DSMAskRequest curve5 where
  knownSigner := true
  privateKeyInfo := some privateKeyInfo5
  msgToSign := some 99
  checkMsgToSign := true

/-- A second request to sign replaces the handler of a session in its phases, and a second selection its keys. -/
theorem session_changes : ∃ s x, Runs (ProperStep ethereum5 notary5) {} run5 s ∧ s.find 7 = some (0, x) ∧
    x.progress = .started ∧
    (∃ s', Step ethereum5 notary5 s (.ask 7 ask5) s' ∧ ∀ x', s'.find 7 ≠ some (0, x')) ∧
    ∃ s' x', Step ethereum5 notary5 s (.notifySelection 7 true [0, 1] 4 6) s' ∧ s'.find 7 = some (0, x') ∧
      x'.m.dh.terms ≠ x.m.dh.terms := by
  obtain ⟨s, x, h⟩ := exists_started5
  refine ⟨s, x, h.runs, h.find, h.started, ⟨_, .ask 7 ask5, fun x' hx' => ?_⟩, ?_⟩
  · have hlookup : AList.lookup 7 (s.dsmHandlerMap.insert 7 s.objects.length) = some 0 := (find_eq_some.mp hx').1
    rw [AList.lookup_insert, h.length] at hlookup
    cases hlookup
  · obtain ⟨d, hd⟩ := h.share
    have hshare : x.m.dh.vss.mapShareToNewParams x.m.dh.selfNotaryID ([1] ++ [x.m.dh.selfNotaryID]) = .ok d := by
      rw [h.selfNotaryID]
      exact hd
    obtain ⟨dh, hreg, hki⟩ : ∃ dh, x.m.dh.registerOtherNotaryIDs [1] 4 6 = .ok dh ∧
        dh.terms.signedKey.map (·.ki) = some 6 := ⟨_, bind_eq_ok.mpr ⟨d, hshare, rfl⟩, rfl⟩
    have hselect : s.onDSMNotifySelectionRequest notary5 7 true [0, 1] 4 6 =
        .ok (s.update 0 { x with m := { x.m with dh := dh } }) := by
      unfold onDSMNotifySelectionRequest
      rw [if_neg (by decide), if_neg (by decide), h.find]
      exact bind_eq_ok.mpr ⟨dh, hreg, rfl⟩
    obtain ⟨hlookup, hobject⟩ := find_eq_some.mp h.find
    refine ⟨_, { x with m := { x.m with dh := dh } }, .notifySelection 7 true [0, 1] 4 6 hselect, ?_,
      fun hterms => ?_⟩
    · exact find_eq_some.mpr ⟨hlookup, objects_update_self hobject⟩
    · have hki' := h.ki
      rw [← hterms, hki] at hki'
      cases hki'

end HandlerMap

end DistributedNotary.Mecdsa
