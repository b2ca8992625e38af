import DistributedNotary.Pbft.Handlers
import DistributedNotary.Pbft.Quorums

/-! Invariants of all servers together. A reaction of one server is a sequence
of its moves while the other servers stand still, so a property of the servers
that no move destroys holds in every world that is reached. What a server may
take into account is what it has sent itself, what a correct server has sent,
what a malicious notary may say, and any request; `C` is what else holds of
every message that is handled. -/
namespace DistributedNotary.Pbft

open Library Relation Server

variable {A : Type}

theorem Move.mono {env : Env A} {K K' : Server A → Msg → Prop} {s s' : Server A} (h : ∀ msg, K s msg → K' s msg)
    (hm : Move env K s s') : Move env K' s s' := by
  have henter : ∀ {nv : NewViewArgs} {mins maxs : ℤ} {pps : List PrePrepareArgs},
      MayEnter K s nv mins maxs pps → MayEnter K' s nv mins maxs pps :=
    fun he => ⟨he.1, he.2.1, he.2.2.imp_right fun hk => ⟨h _ hk.1, hk.2⟩⟩
  cases hm with
  | idle monitor change count armed state seqmap => exact .idle s monitor change count armed state seqmap
  | service as h' => exact .service s as h'
  | newEntry n hnew => exact .newEntry s n hnew
  | relay args hk => exact .relay s args (h _ hk)
  | respond ref r hr => exact .respond s ref r hr
  | propose args digest as seqmap hk hc hl hnew hH has =>
      exact .propose s args digest as seqmap (h _ hk) hc hl hnew hH has
  | repropose n r pp hc hl hr hpp => exact .repropose s n r pp hc hl hr hpp
  | accept r pp hk hc hw hr ha => exact .accept s r pp (h _ hk) hc hw hr ha
  | sendBackground k p ps hb => exact .sendBackground s k p ps hb
  | addPrepare r args hk hc hw hr hm => exact .addPrepare s r args (h _ hk) hc hw hr hm
  | sendCommit r pp as hc hw hr hpp hs hp has => exact .sendCommit s r pp as hc hw hr hpp hs hp has
  | addCommit r args hk hc hw hr hm => exact .addCommit s r args (h _ hk) hc hw hr hm
  | enqueue r args queue hw hr hm hs hrep hcom hseq hq => exact .enqueue s r args queue hw hr hm hs hrep hcom hseq hq
  | runTask queue m pp as hq hturn hpp has => exact .runTask s queue m pp as hq hturn hpp has
  | runTaskAndVote queue m pp as reply digest digest' hq hturn hpp has hreply hdiv hslot =>
    exact .runTaskAndVote s queue m pp as reply digest digest' hq hturn hpp has hreply hdiv hslot
  | answerTask queue m pp as cp key hq hcp hstable hle hpp has =>
    exact .answerTask s queue m pp as cp key hq hcp hstable hle hpp has
  | touch n digest hdiv hslot => exact .touch s n digest hdiv hslot
  | vote cp args hk hdiv hcp hs => exact .vote s cp args (h _ hk) hdiv hcp hs
  | stabilize n cp proof hdiv hcp hs hq hv => exact .stabilize s n cp proof hdiv hcp hs hq hv
  | stabilizeAndResume n cp proof hdiv hcp hs hq hv => exact .stabilizeAndResume s n cp proof hdiv hcp hs hq hv
  | settled cp key hcp hstable => exact .settled s cp key hcp hstable
  | startChange => exact .startChange s
  | sendViewChange orders cp hc hcp => exact .sendViewChange s orders cp hc hcp
  | storeViewChange vc hk hv => exact .storeViewChange s vc (h _ hk) hv
  | sendNewView nv mins maxs hv hl hlen hvcs hnv => exact .sendNewView s nv mins maxs hv hl hlen hvcs hnv
  | catchUp nv scp cp2 mins maxs pps order he hscp hlt hseq hcp2 =>
    exact .catchUp s nv scp cp2 mins maxs pps order (henter he) hscp hlt hseq hcp2
  | enterView nv mins maxs pps he hmins => exact .enterView s nv mins maxs pps (henter he) hmins
  | takeOne v mins maxs pps pp he hnv hpp hview hnew => exact .takeOne s v mins maxs pps pp he hnv hpp hview hnew

/-- The messages of which a server handles its own at once. -/
def Msg.handledByItself : Msg → Bool
  | .prePrepare _ => true
  | .prepare _ => true
  | .viewChange _ => true
  | _ => false

def Msg.isRequest : Msg → Bool
  | .request _ => true
  | _ => false

section Servers

variable (n : ℕ) (byz : Finset ℤ) (servers : ℤ → Server A)

/-- The notaries whose servers run the protocol. -/
def Correct (i : ℤ) : Prop := i ∈ ids n ∧ i ∉ byz

/-- A message that the network may deliver to server `i`. -/
def Heard (i : ℤ) (msg : Msg) : Prop :=
  (∃ j, Correct n byz j ∧ (servers j).Sent msg ∧ (j = i → msg.isNewView = true)) ∨
    (∃ j ∈ byz, msg.checkMessageSender j = true) ∨ msg.isRequest = true

/-- What server `i` may take into account. -/
def Takes (C : (ℤ → Server A) → ℤ → Msg → Prop) (i : ℤ) (msg : Msg) : Prop :=
  (msg.handledByItself = true ∧ (servers i).Sent msg) ∨ (Heard n byz servers i msg ∧ C servers i msg)

/-- Server `i` is as it was configured, and its references are in order. -/
structure Configured (f : ℕ) (i : ℤ) (s : Server A) : Prop where
  id : s.id = i
  replicas : s.replicas = ids n
  f : s.f = f
  wf : s.WF

variable {n byz servers} {env : Env A} {C : (ℤ → Server A) → ℤ → Msg → Prop} {f : ℕ} {i : ℤ} {s' : Server A}

theorem Configured.moves {K : Server A → Msg → Prop} {s s' : Server A} (h : Configured n f i s)
    (hm : Moves env K s s') :
    Configured n f i s' := by
  obtain ⟨hid, hreplicas, hf⟩ := hm.fixed
  exact ⟨hid.trans h.id, hreplicas.trans h.replicas, hf.trans h.f, hm.wf h.wf⟩

theorem Configured.update (h : ∀ j, Configured n f j (servers j)) (hi : Configured n f i s') (j : ℤ) :
    Configured n f j (Function.update servers i s' j) := by
  by_cases e : j = i
  · subst e
    rwa [Function.update_self]
  · rw [Function.update_of_ne e]
    exact h j

theorem update_sent (ht : (servers i).trace <:+ s'.trace) {j : ℤ} {msg : Msg} (h : (servers j).Sent msg) :
    (Function.update servers i s' j).Sent msg := by
  by_cases e : j = i
  · subst e
    rw [Function.update_self]
    exact ht.subset h
  · rwa [Function.update_of_ne e]

theorem Heard.update (ht : (servers i).trace <:+ s'.trace) {j : ℤ} {msg : Msg} (h : Heard n byz servers j msg) :
    Heard n byz (Function.update servers i s') j msg :=
  h.imp_left fun ⟨k, hk, hs, hj⟩ => ⟨k, hk, update_sent ht hs, hj⟩

def Input.delivered : Input → Option Msg
  | .message msg => some msg
  | _ => none

/-- The condition `C` is met by the message that the action delivers, if it delivers one. -/
def Action.Meets (C : (ℤ → Server A) → ℤ → Msg → Prop) (servers : ℤ → Server A) (a : Action) : Prop :=
  ∀ msg ∈ a.input.delivered, C servers a.dst msg

instance instDecidableMeets (C : (ℤ → Server A) → ℤ → Msg → Prop) [hd : ∀ servers i msg, Decidable (C servers i msg)]
    (servers : ℤ → Server A) (a : Action) : Decidable (a.Meets C servers) :=
  @Option.decidableForallMem _ _ (hd servers a.dst) a.input.delivered

/-- In `s'` the message is still as new, so nothing that it was known by has changed. -/
def Lasting (C : (ℤ → Server A) → ℤ → Msg → Prop) : Prop :=
  ∀ servers i s' msg, C servers i msg → Before (servers i) s' msg → C (Function.update servers i s') i msg

theorem Before.trace_suffix {s s' : Server A} {msg : Msg} (h : Before s s' msg) : s.trace <:+ s'.trace := by
  cases msg with
  | request args => exact (h : s' = s) ▸ List.suffix_rfl
  | viewChange args => exact (h : s' = s) ▸ List.suffix_rfl
  | checkPoint args | newView args => exact h.2.1
  | _ => exact h.2

/-- The moves of one server among the others, each on the way from `servers i` to a trace `t`. -/
theorem inv_of_moves_within {Inv : (ℤ → Server A) → Prop} {t : List Event}
    (hmove : ∀ s₁ s₂, Moves env (fun s => Takes n byz (Function.update servers i s) C i) (servers i) s₁ →
      s₂.trace <:+ t → Inv (Function.update servers i s₁) →
      Move env (fun _ => Takes n byz (Function.update servers i s₁) C i) s₁ s₂ → Inv (Function.update servers i s₂))
    (hi : Inv servers) (hm : Moves env (fun s => Takes n byz (Function.update servers i s) C i) (servers i) s')
    (ht : s'.trace <:+ t) : Inv (Function.update servers i s') := by
  induction hm with
  | refl => rwa [Function.update_eq_self]
  | tail hm₁ hm₂ ih => exact hmove _ _ hm₁ ht (ih (hm₂.trace_suffix.trans ht)) (hm₂.mono fun msg hk => hk)

/-- The moves of one server among the others. -/
theorem inv_of_moves {Inv : (ℤ → Server A) → Prop}
    (hmove : ∀ servers s', Configured n f i (servers i) → Inv servers →
      Move env (fun _ => Takes n byz servers C i) (servers i) s' → Inv (Function.update servers i s'))
    (hs : Configured n f i (servers i)) (hi : Inv servers)
    (hm : Moves env (fun s => Takes n byz (Function.update servers i s) C i) (servers i) s') :
    Inv (Function.update servers i s') := by
  refine inv_of_moves_within (fun s₁ s₂ hm₁ _ hinv hm₂ => ?_) hi hm List.suffix_rfl
  have hat : Function.update servers i s₁ i = s₁ := Function.update_self ..
  have hstep := hmove (Function.update servers i s₁) s₂ (by rw [hat]; exact hs.moves hm₁) hinv
  rw [hat, Function.update_idem] at hstep
  exact hstep hm₂

/-- Whatever makes a server act, it makes moves that take nothing else into account. -/
theorem moves_of_react (hC : Lasting C) (hs : Configured n f i (servers i)) {orders : Orders} {a : Input}
    (ha : ∀ msg, a = .message msg → Heard n byz servers i msg ∧ C servers i msg) :
    Moves env (fun s => Takes n byz (Function.update servers i s) C i) (servers i)
      (after ((servers i).react env orders a)) := by
  refine moves_react ⟨?_, ?_⟩ hs.wf ?_ ?_
  · intro s pp hsent
    exact .inl ⟨rfl, by rwa [Function.update_self]⟩
  · intro s p hsent
    exact .inl ⟨rfl, by rwa [Function.update_self]⟩
  · intro msg hmsg s' hbefore
    obtain ⟨hheard, hc⟩ := ha msg hmsg
    exact .inr ⟨hheard.update hbefore.trace_suffix, hC servers i s' msg hc hbefore⟩
  · intro _ cp s' _ _ _ _ _ hsent
    exact .inl ⟨rfl, by rwa [Function.update_self]⟩

end Servers

namespace World

variable {env : Env A} {byz : Finset ℤ} {n f : ℕ} {initSeq : ℤ → ℕ} {as : ℤ → A} {ext : A → A → Prop}
  {ok : World A → Orders → Action → Prop} {C : (ℤ → Server A) → ℤ → Msg → Prop}

theorem correct_iff {w : World A} {i : ℤ} (h : ∀ j, (w.servers j).replicas = ids n) :
    w.correct byz i ↔ Correct n byz i := by
  unfold World.correct Correct ids
  rw [h, ids, List.length_map, List.length_range, List.mem_map, ← and_assoc]
  refine and_congr_left fun _ => ⟨?_, ?_⟩
  · rintro ⟨h0, hn⟩
    exact ⟨i.toNat, List.mem_range.mpr (by omega), Int.toNat_of_nonneg h0⟩
  · rintro ⟨j, hj, rfl⟩
    rw [List.mem_range] at hj
    exact ⟨Int.natCast_nonneg j, Int.ofNat_lt.mpr hj⟩

/-- What a server that may act hears, it may hear. -/
theorem heard_of_allowed {w : World A} (h : ∀ j, (w.servers j).replicas = ids n) {a : Action} {msg : Msg}
    (ha : w.allowed byz a) (hmsg : a.input = .message msg) : Heard n byz w.servers a.dst msg := by
  unfold allowed at ha
  rw [hmsg] at ha
  cases hsrc : a.src with
  | client =>
    rw [hsrc] at ha
    cases msg with
    | request args => exact .inr (.inr rfl)
    | _ => exact ha.elim
  | server src =>
    rw [hsrc] at ha
    exact .inl ⟨src, (correct_iff h).mp ha.1, ha.2.1, ha.2.2⟩
  | forger src =>
    rw [hsrc] at ha
    exact .inr (.inl ⟨src, ha⟩)

theorem servers_put (w : World A) (i : ℤ) (r : Run A (Server A)) :
    (w.put i r).servers = Function.update w.servers i (after r) := by
  cases r <;> rfl

theorem down_put (w : World A) (i : ℤ) (r : Run A (Server A)) {j : ℤ} (h : (w.put i r).down j = false) :
    w.down j = false ∧ (j = i → ∃ s, r = .ok s) := by
  cases r with
  | ok s => exact ⟨h, fun _ => ⟨s, rfl⟩⟩
  | error s =>
    have hne : j ≠ i := by
      rintro rfl
      simp [put] at h
    exact ⟨by simpa [put, hne] using h, fun heq => absurd heq hne⟩

/-- The invariant rule for worlds, one reaction of a correct server that has not panicked after the other. -/
theorem Reached.invariant_of_puts (Inv : World A → Prop) (hinit : Inv (World.new env n f initSeq as))
    (hput : ∀ (w : World A) orders (a : Action), Reached env byz n f initSeq as ok ext w →
      Reached env byz n f initSeq as ok ext (w.put a.dst ((w.servers a.dst).react env orders a.input)) →
      Correct n byz a.dst → (∀ j, Configured n f j (w.servers j)) → w.down a.dst = false → Inv w → ok w orders a →
      (∀ msg, a.input = .message msg → Heard n byz w.servers a.dst msg) →
      Inv (w.put a.dst ((w.servers a.dst).react env orders a.input)))
    (hext : ∀ (w : World A) i as, Inv w → ext (w.servers i).as as →
      Inv { w with servers := Function.update w.servers i { w.servers i with as := as } })
    {w : World A} (h : Reached env byz n f initSeq as ok ext w) :
    (∀ i, Configured n f i (w.servers i)) ∧ Inv w := by
  refine @Reachable.invariant _ _ _ (fun w => (∀ i, Configured n f i (w.servers i)) ∧ Inv w) ?_ ?_ w h
  · rintro w rfl
    exact ⟨fun i => ⟨rfl, rfl, rfl, WF.new ..⟩, hinit⟩
  · rintro w w' hreached ⟨hconf, hinv⟩ hstep
    have hreached' := Reachable.step hreached hstep
    cases hstep with
    | act orders a hok hexec =>
      unfold exec at hexec
      split_ifs at hexec with hcan
      obtain rfl := Option.some.inj hexec
      obtain ⟨hcorrect, hup, -, hallowed⟩ := hcan
      rw [correct_iff fun j => (hconf j).replicas] at hcorrect
      have hheard : ∀ msg, a.input = .message msg → Heard n byz w.servers a.dst msg := fun msg =>
        heard_of_allowed (fun j => (hconf j).replicas) hallowed
      have hmoves : Moves env (fun _ _ => True) (w.servers a.dst)
          (after ((w.servers a.dst).react env orders a.input)) :=
        moves_react ⟨fun _ _ _ => trivial, fun _ _ _ => trivial⟩ (hconf a.dst).wf (fun _ _ _ _ => trivial)
          fun _ _ _ _ _ _ _ _ _ => trivial
      refine ⟨?_, hput w orders a hreached hreached' hcorrect hconf hup hinv hok hheard⟩
      rw [servers_put]
      exact Configured.update hconf ((hconf _).moves hmoves)
    | external i as hext' =>
      refine ⟨Configured.update hconf ?_, hext w i as hinv hext'⟩
      exact ⟨(hconf i).id, (hconf i).replicas, (hconf i).f, (hconf i).wf.of_eq rfl rfl rfl rfl rfl rfl⟩

/-- The invariant rule for all servers together, one reaction of a correct server after the other. -/
theorem Reached.invariant_of_reacts (Inv : (ℤ → Server A) → Prop) (hinit : Inv (World.new env n f initSeq as).servers)
    (hreact : ∀ (w : World A) orders (a : Action), Correct n byz a.dst → (∀ j, Configured n f j (w.servers j)) →
      Inv w.servers → ok w orders a → (∀ msg, a.input = .message msg → Heard n byz w.servers a.dst msg) →
      Inv (Function.update w.servers a.dst (after ((w.servers a.dst).react env orders a.input))))
    (hext : ∀ servers i as, Inv servers → ext (servers i).as as →
      Inv (Function.update servers i { servers i with as := as }))
    {w : World A} (h : Reached env byz n f initSeq as ok ext w) :
    (∀ i, Configured n f i (w.servers i)) ∧ Inv w.servers := by
  refine h.invariant_of_puts (fun w => Inv w.servers) hinit (fun w orders a _ _ hcorrect hconf _ hinv hok hheard => ?_)
    fun w i as => hext w.servers i as
  rw [servers_put]
  exact hreact w orders a hcorrect hconf hinv hok hheard

/-- What no move of one server destroys holds of every server. -/
theorem Reached.forall_servers (p : Server A → Prop) (hnew : ∀ i, p (Server.new env i f (initSeq i) (ids n) (as i)))
    (hmove : ∀ s s', s.WF → p s → Move env (fun _ _ => True) s s' → p s') (hext : ∀ s as, p s → p { s with as := as })
    {w : World A} (h : Reached env byz n f initSeq as ok ext w) (i : ℤ) : p (w.servers i) := by
  have hupdate : ∀ {servers : ℤ → Server A} {i : ℤ} {s' : Server A}, (∀ j, p (servers j)) → p s' →
      ∀ j, p (Function.update servers i s' j) := by
    intro servers i s' hp hs' j
    rcases eq_or_ne j i with rfl | hne
    · rwa [Function.update_self]
    · rw [Function.update_of_ne hne]
      exact hp j
  refine (h.invariant_of_reacts (fun servers => ∀ j, p (servers j)) hnew (fun w orders a _ hconf hp _ _ => ?_)
    fun servers i as hp _ => hupdate hp (hext _ as (hp i))).2 i
  have hmoves : Moves env (fun _ _ => True) (w.servers a.dst) (after ((w.servers a.dst).react env orders a.input)) :=
    moves_react ⟨fun _ _ _ => trivial, fun _ _ _ => trivial⟩ (hconf a.dst).wf (fun _ _ _ _ => trivial)
      fun _ _ _ _ _ _ _ _ _ => trivial
  exact hupdate hp (Moves.invariant hmove hmoves (hconf a.dst).wf (hp a.dst))

/-- The invariant rule for all servers together, one move after the other. -/
theorem Reached.invariant_of_moves (Inv : (ℤ → Server A) → Prop) (hC : Lasting C)
    (hok : ∀ (w : World A) orders a, ok w orders a → a.Meets C w.servers)
    (hinit : Inv (World.new env n f initSeq as).servers)
    (hmove : ∀ servers i s', Correct n byz i → Configured n f i (servers i) → Inv servers →
      Move env (fun _ => Takes n byz servers C i) (servers i) s' → Inv (Function.update servers i s'))
    (hext : ∀ servers i as, Inv servers → ext (servers i).as as →
      Inv (Function.update servers i { servers i with as := as }))
    {w : World A} (h : Reached env byz n f initSeq as ok ext w) :
    (∀ i, Configured n f i (w.servers i)) ∧ Inv w.servers := by
  refine h.invariant_of_reacts Inv hinit (fun w orders a hcorrect hconf hinv hok' hheard => ?_) hext
  have hmoves : Moves env (fun s => Takes n byz (Function.update w.servers a.dst s) C a.dst) (w.servers a.dst)
      (after ((w.servers a.dst).react env orders a.input)) := moves_of_react hC (hconf a.dst)
    fun msg hmsg => ⟨hheard msg hmsg, by
      refine hok w orders a hok' msg ?_
      rw [hmsg]
      rfl⟩
  exact inv_of_moves (fun servers s' => hmove servers a.dst s' hcorrect) (hconf a.dst) hinv hmoves

/-- The world after a list of actions that are all `ok`. -/
def plays (env : Env A) (byz : Finset ℤ) (ok : World A → Orders → Action → Prop)
    [∀ w orders a, Decidable (ok w orders a)]
    (w : World A) (as : List Action) : Option (World A) :=
  as.foldlM (fun w a => if ok w .id a then w.exec env byz .id a else none) w

theorem reached_plays [∀ w orders a, Decidable (ok w orders a)] {w w' : World A} {l : List Action}
    (hw : Reached env byz n f initSeq as ok ext w) (h : w.plays env byz ok l = some w') :
    Reached env byz n f initSeq as ok ext w' := by
  induction l generalizing w with
  | nil =>
    obtain rfl := Option.some.inj h
    exact hw
  | cons a l ih =>
    obtain ⟨w₁, hexec, h⟩ := Option.bind_eq_some_iff.mp h
    simp only [] at hexec
    split_ifs at hexec with hok
    exact ih (hw.step (.act .id a hok hexec)) h

end World

section Scripts

/-- Client 1 asks server `dst`. -/
def Action.ask (dst : ℤ) (op : String) : Action := ⟨.client, dst, .message (.request { op := op, id := 1 })⟩

def Action.deliver (src dst : ℤ) (msg : Msg) : Action := ⟨.server src, dst, .message msg⟩

def Action.fire (i : ℤ) : Action := ⟨.server i, i, .timer⟩

def Action.proceed (i : ℤ) (k : ℕ) : Action := ⟨.server i, i, .background k⟩

/-- The proposal of an operation of client 1 by a server without a service. -/
def plainPP (view seq : ℤ) (op : String) : PrePrepareArgs :=
  { view := view, seq := seq, digest := Env.plain.digest op, message := { op := op, id := 1 } }

def plainPrepare (view seq : ℤ) (op : String) (rid : ℤ) : PrepareArgs :=
  { view := view, seq := seq, digest := Env.plain.digest op, rid := rid }

def plainCommit (view seq : ℤ) (op : String) (rid : ℤ) : CommitArgs :=
  { view := view, seq := seq, digest := Env.plain.digest op, rid := rid }

/-- The view change of a server that has no stable checkpoint yet. -/
def plainChange (view : ℤ) (p : List Pm) (rid : ℤ) : ViewChangeArgs :=
  { view := view, cp := some { seq := -1, digest := "#", rid := rid, view := 0 }, p := p, rid := rid }

end Scripts

end DistributedNotary.Pbft
