import DistributedNotary.Pbft.Carries

/-! How many numbers one operation gets. The number of an operation comes from
a leader that does not know the operation yet; view changes and checkpoints
only keep it. A leader forgets what was not prepared by the replicas that it
has heard of, or was executed long ago, so it may give an operation another
number. -/
namespace DistributedNotary.Pbft

open Library Server

variable {A : Type}

def Event.proposal : Event → Option PrePrepareArgs
  | .send (.prePrepare pp) => some pp
  | _ => none

/-- The preprepare messages that the server has sent. -/
def Server.proposals (s : Server A) : List PrePrepareArgs := s.trace.filterMap Event.proposal

theorem Server.mem_proposals {s : Server A} {pp : PrePrepareArgs} : pp ∈ s.proposals ↔ s.Sent (.prePrepare pp) := by
  unfold Server.proposals Sent
  rw [List.mem_filterMap]
  constructor
  · rintro ⟨e, he, hpp⟩
    unfold Event.proposal at hpp
    split at hpp
    · exact Option.some.inj hpp ▸ he
    · nomatch hpp
  · exact fun h => ⟨_, h, rfl⟩

section Numbers

variable (env : Env A) (n : ℕ) (servers : ℤ → Server A)

/-- A server has proposed the operation with the number. -/
def Numbered (seq : ℤ) (op : String) : Prop :=
  ∃ j ∈ ids n, ∃ pp ∈ (servers j).proposals, pp.seq = seq ∧ pp.message.op = op

/-- The operation is empty or has the number. -/
def Given (seq : ℤ) (op _ : String) : Prop := op = "" ∨ Numbered n servers seq op

/-- The request makes the server give its next number to the operation. -/
def Server.GivesNumber (s : Server A) (args : RequestArgs) : Prop :=
  s.changing = false ∧ s.isLeader = true ∧ s.seqmap.lookup args.op = none ∧ s.tSeq < s.H ∧
    (env.as.getOpAuxiliary s.as args.op s.id).2.isOk = true

instance instDecidableGivesNumber (s : Server A) (args : RequestArgs) : Decidable (s.GivesNumber env args) := by
  unfold Server.GivesNumber
  infer_instance

/-- A message that does not make server `i` give a number to an operation that has another one already. -/
def FirstNumber (servers : ℤ → Server A) (i : ℤ) : Msg → Prop
  | .request args => args.op ≠ "" → (servers i).GivesNumber env args →
      ∀ j ∈ ids n, ∀ pp ∈ (servers j).proposals, pp.message.op = args.op → pp.seq = (servers i).tSeq
  | _ => True

instance instDecidableFirstNumber (i : ℤ) (msg : Msg) : Decidable (FirstNumber env n servers i msg) := by
  unfold FirstNumber
  split <;> infer_instance

end Numbers

section Runs

variable {env : Env A} {n f : ℕ} {servers : ℤ → Server A} {i : ℤ} {s s' : Server A} {K : Server A → Msg → Prop}

theorem FirstNumber.lasting : Lasting (FirstNumber env n) := by
  intro servers i s' msg h hb
  cases msg with
  | request args =>
    obtain rfl : s' = servers i := hb
    rwa [Function.update_eq_self]
  | _ => trivial

/-- A move sends at most one preprepare message: for an entry, or when a request gets a number. -/
theorem Move.proposals_cases (hm : Move env K s s') :
    s'.proposals = s.proposals ∨ ∃ pp, s'.proposals = pp :: s.proposals ∧
      ((∃ r, (s.heap r).pp = some pp) ∨ (K s (.request pp.message) ∧ s.GivesNumber env pp.message ∧ pp.seq = s.tSeq ∧
        (env.as.getOpAuxiliary s.as pp.message.op s.id).2 = .ok pp.digest)) := by
  cases hm with
  | propose args digest as seqmap hk hc hl hnew hH has =>
    exact .inr ⟨_, rfl, .inr ⟨hk, ⟨hc, hl, hnew, hH, by rw [has]; rfl⟩, rfl, by rw [has]⟩⟩
  | repropose m r pp hc hl hr hpp => exact .inr ⟨pp, rfl, .inl ⟨r, hpp⟩⟩
  | _ => exact .inl rfl

/-- A preprepare message goes out for an entry, or when a request gets a number. -/
theorem Move.sent_prePrepare (hm : Move env K s s') {pp : PrePrepareArgs} (h : s'.Sent (.prePrepare pp)) :
    s.Sent (.prePrepare pp) ∨ (∃ r, (s.heap r).pp = some pp) ∨
      (K s (.request pp.message) ∧ s.GivesNumber env pp.message ∧ pp.seq = s.tSeq) := by
  rw [← mem_proposals] at h ⊢
  rcases hm.proposals_cases with hsame | ⟨pp', hcons, hpp⟩
  · exact .inl (hsame ▸ h)
  · rcases List.mem_cons.mp (hcons ▸ h) with rfl | h
    · exact .inr (hpp.imp_right fun ⟨hk, hgives, hseq, _⟩ => ⟨hk, hgives, hseq⟩)
    · exact .inl h

theorem Numbered.update (ht : (servers i).trace <:+ s'.trace) {seq : ℤ} {op : String} (h : Numbered n servers seq op) :
    Numbered n (Function.update servers i s') seq op := by
  obtain ⟨j, hj, pp, hs, hpp⟩ := h
  exact ⟨j, hj, pp, mem_proposals.mpr (update_sent ht (mem_proposals.mp hs)), hpp⟩

/-- What a server takes into account brings operations with their numbers. -/
theorem brings_of_takes {C : (ℤ → Server A) → ℤ → Msg → Prop} {G : ℤ → String → String → Prop} (hi : i ∈ ids n)
    (h : ∀ j ∈ ids n, Carries G (servers j)) {msg : Msg} (ht : Takes n ∅ servers C i msg) : msg.Brings G := by
  rcases ht with ⟨-, hs⟩ | ⟨⟨j, hj, hs, -⟩ | ⟨j, hj, -⟩ | hr, -⟩
  · exact (h i hi).events _ hs
  · exact (h j hj.1).events _ hs
  · exact absurd hj (Finset.notMem_empty j)
  · cases msg <;> simp_all [Msg.isRequest, Msg.Brings]

/-- Every operation comes with a number that it was given, and it was given no other. -/
structure NumbersOnce (n : ℕ) (servers : ℤ → Server A) : Prop where
  carries : ∀ i ∈ ids n, Carries (Given n servers) (servers i)
  unique : ∀ op, op ≠ "" → ∀ a b, Numbered n servers a op → Numbered n servers b op → a = b

theorem NumbersOnce.move (h : NumbersOnce n servers) (hi : i ∈ ids n) (hs : (servers i).WF)
    (hm : Move env (fun _ => Takes n ∅ servers (FirstNumber env n) i) (servers i) s') :
    NumbersOnce n (Function.update servers i s') := by
  have hmono : ∀ seq op auxiliary, Given n servers seq op auxiliary →
      Given n (Function.update servers i s') seq op auxiliary :=
    fun seq op _ hg => hg.imp_right (Numbered.update hm.trace_suffix)
  -- a number that is new was given by this move, to an operation that had no other one
  have hnew : ∀ {op a}, op ≠ "" → Numbered n (Function.update servers i s') a op →
      Numbered n servers a op ∨ a = (servers i).tSeq ∧ ∀ b, Numbered n servers b op → b = (servers i).tSeq := by
    rintro op a hop ⟨j, hj, pp, hsent, rfl, rfl⟩
    by_cases e : j = i
    · subst e
      rw [Function.update_self] at hsent
      rcases hm.sent_prePrepare (mem_proposals.mp hsent) with hsent | ⟨r, hr⟩ | ⟨hk, hgives, hseq⟩
      · exact .inl ⟨j, hj, pp, mem_proposals.mpr hsent, rfl, rfl⟩
      · exact .inl (((h.carries j hj).entries r pp hr).resolve_left hop)
      · rcases hk with ⟨hown, -⟩ | ⟨-, hfirst⟩
        · simp [Msg.handledByItself] at hown
        · refine .inr ⟨hseq, ?_⟩
          rintro b ⟨k, hk, pp', hsent', rfl, hop'⟩
          exact hfirst hop hgives k hk pp' hsent' hop'
    · rw [Function.update_of_ne e] at hsent
      exact .inl ⟨j, hj, pp, hsent, rfl, rfl⟩
  refine ⟨fun j hj => ?_, fun op hop a b ha hb => ?_⟩
  · by_cases e : j = i
    · subst e
      rw [Function.update_self]
      refine ((h.carries j hj).mono hmono).move hs (fun _ => .inl rfl) (fun msg hk => ?_) (fun pp hsent => ?_) hm
      · exact brings_of_takes hj (fun k hk => (h.carries k hk).mono hmono) hk
      · exact .inr ⟨j, hj, pp, mem_proposals.mpr (by rwa [Function.update_self]), rfl, rfl⟩
    · rw [Function.update_of_ne e]
      exact (h.carries j hj).mono hmono
  · rcases hnew hop ha with ha | ⟨hat, ha⟩ <;> rcases hnew hop hb with hb | ⟨hbt, hb⟩
    · exact h.unique op hop a b ha hb
    · exact (hb a ha).trans hbt.symm
    · exact hat.trans (ha b hb).symm
    · exact hat.trans hbt.symm

theorem NumbersOnce.external (h : NumbersOnce n servers) (as : A) :
    NumbersOnce n (Function.update servers i { servers i with as := as }) := by
  have hnum : ∀ {seq op}, Numbered n (Function.update servers i { servers i with as := as }) seq op →
      Numbered n servers seq op := by
    rintro seq op ⟨j, hj, pp, hsent, hpp⟩
    refine ⟨j, hj, pp, ?_, hpp⟩
    by_cases e : j = i
    · subst e
      rwa [Function.update_self] at hsent
    · rwa [Function.update_of_ne e] at hsent
  refine ⟨fun j hj => ?_, fun op hop a b ha hb => h.unique op hop a b (hnum ha) (hnum hb)⟩
  have ht : (servers i).trace <:+ ({ servers i with as := as } : Server A).trace := List.suffix_rfl
  have hmono : Carries (Given n (Function.update servers i { servers i with as := as })) (servers j) :=
    (h.carries j hj).mono fun seq op _ hg => hg.imp_right (Numbered.update ht)
  by_cases e : j = i
  · subst e
    rw [Function.update_self]
    exact hmono.of_eq hmono.entries rfl rfl
  · rwa [Function.update_of_ne e]

/-- In every run in which no leader gives a number to an operation that has another one already, whatever
the clients send and however the messages go, no operation is executed with two numbers. -/
theorem at_most_one_number (ext : A → A → Prop) {initSeq : ℤ → ℕ} {as : ℤ → A} {w : World A}
    (h : World.Reached env ∅ n f initSeq as
      (fun w _ a => a.Meets (FirstNumber env n) w.servers) ext w)
    {j : ℤ} (hi : i ∈ ids n) (hj : j ∈ ids n) {view view' seq seq' : ℤ}
    {op auxiliary auxiliary' : String} (hop : op ≠ "") (h₁ : .updateSeq view seq op auxiliary ∈ (w.servers i).trace)
    (h₂ : .updateSeq view' seq' op auxiliary' ∈ (w.servers j).trace) : seq = seq' := by
  have hinv : NumbersOnce n w.servers := by
    refine (World.Reached.invariant_of_moves (NumbersOnce n) FirstNumber.lasting (fun _ _ _ hok => hok) ?_
      (fun _ _ _ hi hs hinv hm => hinv.move hi.1 hs.wf hm) (fun _ _ as hinv _ => hinv.external as) h).2
    refine ⟨fun _ _ => Carries.new .., ?_⟩
    rintro _ _ _ _ ⟨_, _, _, hs, _⟩
    nomatch hs
  have h₁ := ((hinv.carries i hi).events _ h₁).resolve_left hop
  have h₂ := ((hinv.carries j hj).events _ h₂).resolve_left hop
  exact hinv.unique op hop seq seq' h₁ h₂

end Runs

/-- Only server 0 prepares `a` as number 0 of view 0. -/
def prepareFirst : List Action :=
  [.ask 0 "a", .deliver 0 1 (.prePrepare (plainPP 0 0 "a")), .deliver 0 2 (.prePrepare (plainPP 0 0 "a")),
    .deliver 1 0 (.prepare (plainPrepare 0 0 "a" 1)), .deliver 2 0 (.prepare (plainPrepare 0 0 "a" 2))]

def newView1 : NewViewArgs := { view := 1, v := [1, 2, 3].map (plainChange 1 []), o := [] }

/-- The other servers go into view 1, where `b` and `a` become the numbers 0 and 1 and server 2 prepares `a`. -/
def prepareAgain : List Action :=
  [1, 2, 3].map (.ask · "b") ++ [1, 2, 3].map .fire ++
    [.deliver 2 1 (.viewChange (plainChange 1 [] 2)), .deliver 3 1 (.viewChange (plainChange 1 [] 3))] ++
    [2, 3, 0].map (.deliver 1 · (.newView newView1)) ++ [.ask 1 "b", .ask 1 "a"] ++
    [2, 3].map (.deliver 1 · (.prePrepare (plainPP 1 1 "a"))) ++
    [1, 3].map fun i => .deliver i 2 (.prepare (plainPrepare 1 1 "a" i))

/-- The view change to view 2 of a server that prepared `a` as number `seq` of `view`. -/
def changeTo2 (view seq : ℤ) (senders : List ℤ) (rid : ℤ) : ViewChangeArgs :=
  plainChange 2 [{ pp := some (plainPP view seq "a"), p := senders.map (plainPrepare view seq "a") }] rid

def newView2 : NewViewArgs where
  view := 2
  v := [changeTo2 1 1 [2, 1, 3] 2, plainChange 2 [] 3, changeTo2 0 0 [0, 1, 2] 0]
  o := [plainPP 2 0 "a", plainPP 2 1 "a"]

/-- Servers 0, 2 and 3 go into view 2, in which `a` has both numbers, and server 0 executes both. -/
def executeBoth : List Action :=
  [0, 2, 3].map (.ask · "c") ++ [0, 2, 3].map .fire ++
    [.deliver 3 2 (.viewChange (plainChange 2 [] 3)), .deliver 0 2 (.viewChange (changeTo2 0 0 [0, 1, 2] 0))] ++
    [0, 3].map (.deliver 2 · (.newView newView2)) ++ [0, 2, 3, 0, 2, 3].map (.proceed · 1) ++
    [0, 1].flatMap fun seq =>
      [(2, 0), (3, 0), (0, 2), (3, 2), (0, 3), (2, 3)].map (fun ij : ℤ × ℤ =>
        .deliver ij.1 ij.2 (.prepare (plainPrepare 2 seq "a" ij.1))) ++
      [2, 3].map fun i => .deliver i 0 (.commit (plainCommit 2 seq "a" i))

/-- Four correct servers, of which one executes `a` both as number 0 and as number 1. -/
theorem executed_twice :
    (((World.new Env.plain 4 1 (fun _ => 0) fun _ => ()).play Env.plain ∅
      (prepareFirst ++ prepareAgain ++ executeBoth)).map fun w =>
        decide (.updateSeq 2 0 "a" "#a" ∈ (w.servers 0).trace) &&
          decide (.updateSeq 2 1 "a" "#a" ∈ (w.servers 0).trace)) = some true := by
  decide +kernel

/-- Two servers that tolerate no fault execute `a`. -/
def executeInBoth : List Action :=
  [.ask 0 "a", .deliver 0 1 (.prePrepare (plainPP 0 0 "a")), .deliver 1 0 (.commit (plainCommit 0 0 "a" 1)),
    .deliver 0 1 (.commit (plainCommit 0 0 "a" 0))]

theorem at_most_one_number_two :
    ∃ w : World Unit, .updateSeq 0 0 "a" "#a" ∈ (w.servers 0).trace ∧ .updateSeq 0 0 "a" "#a" ∈ (w.servers 1).trace ∧
      (0 : ℤ) = 0 := by
  have hrun : ((World.new Env.plain 2 0 (fun _ => 0) fun _ => ()).plays Env.plain ∅
      (fun w _ a => a.Meets (FirstNumber Env.plain 2) w.servers) executeInBoth).map (fun w =>
        decide (.updateSeq 0 0 "a" "#a" ∈ (w.servers 0).trace ∧ .updateSeq 0 0 "a" "#a" ∈ (w.servers 1).trace)) =
      some true := by
    decide +kernel
  obtain ⟨w, hw, hmem⟩ := Option.map_eq_some_iff.mp hrun
  obtain ⟨h₀, h₁⟩ := of_decide_eq_true hmem
  exact ⟨w, h₀, h₁, at_most_one_number Eq (World.reached_plays (.init rfl) hw) (by decide) (by decide) (by decide)
    h₀ h₁⟩

end DistributedNotary.Pbft
