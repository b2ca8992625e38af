import DistributedNotary.Mecdsa.KeySessions
import Mathlib.Data.List.ProdSigma

/-! What holds in every state of a session when no scalar of it is zero. A request
is on its way, held by a goroutine or in the channel of the handler until the
handler has its message, and in one of these places only. The handlers take the
steps of `Negotiation`, which follows them. -/
namespace DistributedNotary.Mecdsa

open Library Share Proofs

variable {C : Curve}

/-! ### What is sent and when -/

namespace KeyThread

def stage : KeyThread C → ℕ
  | .waiting k => k
  | .returned _ => 4
  | _ => 0

/-- The goroutine has sent its message of the first phase. -/
def begun : KeyThread C → Bool
  | .idle => false
  | .spawned _ => false
  | _ => true

/-- The goroutine has not failed, and it waits for one of the four phases if it waits. -/
def Fine : KeyThread C → Prop
  | .waiting k => k ≤ 3
  | .returned err => err = none
  | .panicked _ => False
  | _ => True

/-- The request that a goroutine is to start with. -/
def held : KeyThread C → List (KeyGenRequest C)
  | .spawned req => [req]
  | _ => []

end KeyThread

/-- The stage at which a notary sends the message of a phase. -/
def stageOf (p : Option KeyGenPhase) : ℕ := p.elim 3 KeyGenPhase.sentAt

theorem stageOf_le (p : Option KeyGenPhase) : stageOf p ≤ 3 := by
  cases p with
  | none => exact le_rfl
  | some k => cases k <;> decide

theorem stageOf_injective : Function.Injective stageOf := by
  intro p q
  cases p with
  | none => cases q with
    | none => exact fun _ => rfl
    | some k => cases k <;> exact fun h => absurd h (by decide)
  | some k => cases q with
    | none => cases k <;> exact fun h => absurd h (by decide)
    | some k' => cases k <;> cases k' <;> simp [stageOf, KeyGenPhase.sentAt]

def KeyGenRequest.key (r : KeyGenRequest C) : ℕ × Option KeyGenPhase := (r.senderNotaryID, r.body.phase)

namespace PKNSession

/-- The notary has sent its message of phase `p`. -/
def Sent (ph : PKNSession C) (p : Option KeyGenPhase) : Prop := ph.thread.begun = true ∧ stageOf p ≤ ph.thread.stage

/-- The handler has the message of phase `p` from `j`; `arrived` tells of the first three phases. -/
def Arrived (ph : PKNSession C) (arrived : KeyGenPhase → ℕ → Bool) : Option KeyGenPhase → ℕ → Prop
  | some k, j => arrived k j = true
  | none, j => (ph.lastPubkeyProof4.lookup j).isSome

end PKNSession

namespace KeyCommittee

variable (s : KeyCommittee C)

/-- The private share of a notary. -/
def finalShare (i : ℕ) : SPrivKey := (∑ j ∈ Finset.range s.n, s.dealt j i) % C.N

def message4 (i : ℕ) : DLogProof C := prove (s.finalShare i) (s.lastNonce i)

/-- What `j` sends to `i`. -/
def body (j : ℕ) (p : Option KeyGenPhase) (i : ℕ) : KeyGenBody C :=
  p.elim (.phase4 (s.message4 j)) fun k => .early (s.message j k i)

/-- No scalar is zero, those of the last phase included. -/
structure NoScalarZero : Prop where
  early : s.toDealers.NoZero
  share : ∀ i < s.n, s.finalShare i ≠ 0
  proof : ∀ i < s.n, (s.message4 i).challenge ≠ 0 ∧ (s.message4 i).challengeResponse ≠ 0

variable {s}

@[simp] theorem phase_body (j : ℕ) (p : Option KeyGenPhase) (i : ℕ) : (s.body j p i).phase = p := by
  cases p with
  | none => rfl
  | some k => cases k <;> rfl

theorem phase_message (j : ℕ) (k : KeyGenPhase) (i : ℕ) : (s.message j k i).phase = k := by cases k <;> rfl

end KeyCommittee

namespace KeyNode

variable (s : KeyCommittee C) (i : ℕ)

/-- The handler of the session, a new one where there is none. -/
def session (v : KeyNode C) : PKNSession C := v.pknHandler.getD (s.newPKNHandler i)

/-- The requests that the handler has not read. -/
def pending (v : KeyNode C) : List (KeyGenRequest C) :=
  v.incoming ++ v.creating ++ ((v.session s i).thread.held ++ (v.session s i).receiveChan)

/-- What was sent to the notary and has not arrived is pending, once. -/
structure Mail (v : KeyNode C) (arrived : Option KeyGenPhase → ℕ → Prop) (sent : ℕ → Option KeyGenPhase → Prop) :
    Prop where
  refused : v.refused = []
  dropped : v.dropped = []
  once : ((v.pending s i).map KeyGenRequest.key).Nodup
  expected : ∀ r ∈ v.pending s i, r.senderNotaryID ∈ s.others i ∧
    r.body = s.body r.senderNotaryID r.body.phase i ∧ ¬ arrived r.body.phase r.senderNotaryID
  accounted : ∀ j ∈ s.others i, ∀ p, sent j p ↔ (j, p) ∈ (v.pending s i).map KeyGenRequest.key ∨ arrived p j

variable {s i} {v v' : KeyNode C} {ph : PKNSession C} {req : KeyGenRequest C}
  {arrived arrived' : Option KeyGenPhase → ℕ → Prop} {sent sent' : ℕ → Option KeyGenPhase → Prop}

@[simp] theorem session_some (h : v.pknHandler = some ph) : v.session s i = ph := by rw [session, h, Option.getD_some]

@[simp] theorem session_none (h : v.pknHandler = none) : v.session s i = s.newPKNHandler i := by
  rw [session, h, Option.getD_none]

theorem created_some (h : ph.thread ≠ .idle) (ph' : PKNSession C) (heq : some ph = some ph') : ph'.thread ≠ .idle :=
  Option.some.inj heq ▸ h

namespace Mail

theorem empty (hsent : ∀ j ∈ s.others i, ∀ p, ¬ sent j p) (harr : ∀ p j, ¬ arrived p j) :
    ({} : KeyNode C).Mail s i arrived sent where
  refused := rfl
  dropped := rfl
  once := List.nodup_nil
  expected _ hr := absurd hr List.not_mem_nil
  accounted j hj p := ⟨fun h => absurd h (hsent j hj p), fun h => h.elim (fun h => absurd h List.not_mem_nil)
    fun h => absurd h (harr p j)⟩

theorem congr (h : v.Mail s i arrived sent) (hsent : ∀ j ∈ s.others i, ∀ p, sent' j p ↔ sent j p) :
    v.Mail s i arrived sent' :=
  ⟨h.refused, h.dropped, h.once, h.expected, fun j hj p => (hsent j hj p).trans (h.accounted j hj p)⟩

/-- Requests go from one place to another. -/
theorem move (h : v.Mail s i arrived sent) (hperm : (v'.pending s i).Perm (v.pending s i))
    (hrefused : v'.refused = v.refused) (hdropped : v'.dropped = v.dropped)
    (harr : ∀ j ∈ s.others i, ∀ p, arrived' p j ↔ arrived p j) : v'.Mail s i arrived' sent := by
  have hkeys := hperm.map KeyGenRequest.key
  refine ⟨hrefused.trans h.refused, hdropped.trans h.dropped, hkeys.nodup_iff.mpr h.once,
    fun r hr => ?_, fun j hj p => ?_⟩
  · have hold := h.expected r (hperm.mem_iff.mp hr)
    rw [harr _ hold.1]
    exact hold
  · rw [harr j hj, hkeys.mem_iff]
    exact h.accounted j hj p

/-- A new message is on its way. -/
theorem post (h : v.Mail s i arrived sent) {j : ℕ} {p : Option KeyGenPhase} (hj : j ∈ s.others i) (hnew : ¬ sent j p)
    (hperm : (v'.pending s i).Perm (⟨j, s.body j p i⟩ :: v.pending s i)) (hrefused : v'.refused = v.refused)
    (hdropped : v'.dropped = v.dropped) (hsent : ∀ k ∈ s.others i, ∀ q, sent' k q ↔ sent k q ∨ k = j ∧ q = p) :
    v'.Mail s i arrived sent' := by
  have hkeys : ((v'.pending s i).map KeyGenRequest.key).Perm ((j, p) :: (v.pending s i).map KeyGenRequest.key) := by
    simpa [KeyGenRequest.key] using hperm.map KeyGenRequest.key
  have haccounted := h.accounted j hj p
  refine ⟨hrefused.trans h.refused, hdropped.trans h.dropped, hkeys.nodup_iff.mpr (List.nodup_cons.mpr ⟨?_, h.once⟩),
    fun r hr => ?_, fun k hk q => ?_⟩
  · exact fun hmem => hnew (haccounted.mpr (.inl hmem))
  · rcases List.mem_cons.mp (hperm.mem_iff.mp hr) with rfl | hr
    · refine ⟨hj, by simp, fun harr => hnew (haccounted.mpr (.inr ?_))⟩
      simpa using harr
    · exact h.expected r hr
  · rw [hsent k hk, hkeys.mem_iff, List.mem_cons, h.accounted k hk, Prod.mk.injEq]
    tauto

/-- The handler has read a request. -/
theorem take (h : v.Mail s i arrived sent) (req : KeyGenRequest C)
    (hperm : (v.pending s i).Perm (req :: v'.pending s i))
    (hrefused : v'.refused = v.refused) (hdropped : v'.dropped = v.dropped)
    (harr : ∀ p j, arrived' p j ↔ arrived p j ∨ (j, p) = req.key) : v'.Mail s i arrived' sent := by
  have hkeys := hperm.map KeyGenRequest.key
  obtain ⟨hnot, honce⟩ := List.nodup_cons.mp (hkeys.nodup_iff.mp h.once)
  refine ⟨hrefused.trans h.refused, hdropped.trans h.dropped, honce, fun r hr => ?_, fun j hj p => ?_⟩
  · obtain ⟨hsender, hbody, hnew⟩ := h.expected r (hperm.mem_iff.mpr (List.mem_cons_of_mem _ hr))
    refine ⟨hsender, hbody, fun hr' => ?_⟩
    rcases (harr _ _).mp hr' with hold | heq
    · exact hnew hold
    · exact hnot (heq ▸ List.mem_map_of_mem (f := KeyGenRequest.key) hr)
  · rw [h.accounted j hj p, hkeys.mem_iff, List.map_cons, List.mem_cons, harr]
    tauto

/-- There is one request from each of the others in each phase at most. -/
theorem length_le (h : v.Mail s i arrived sent) : (v.pending s i).length ≤ (s.others i).length * 4 := by
  let phases : List (Option KeyGenPhase) := [some .phase1, some .phase2, some .phase3, none]
  have hphases : ∀ p : Option KeyGenPhase, p ∈ phases := by
    intro p
    cases p with
    | none => simp [phases]
    | some k => cases k <;> simp [phases]
  have hsub : (v.pending s i).map KeyGenRequest.key ⊆ s.others i ×ˢ phases := by
    intro κ hκ
    obtain ⟨r, hr, rfl⟩ := List.mem_map.mp hκ
    exact List.mem_product.mpr ⟨(h.expected r hr).1, hphases _⟩
  have hle := (List.subperm_of_subset h.once hsub).length_le
  rwa [List.length_map, List.length_product] at hle

/-- The channel of the handler has room. -/
theorem room (h : v.Mail s i arrived sent) (hi : i < s.n) (hph : v.pknHandler = some ph) :
    ph.receiveChan.length < 10 * s.n := by
  have hle := h.length_le
  have hothers := Dealers.length_others (s := s.toDealers) hi
  rw [pending, session_some hph] at hle
  simp only [List.length_append] at hle
  omega

end Mail

/-! ### What the goroutines of `onPKNRequest` do -/

theorem onRequest_eq (ph : PKNSession C) (h : ph.receiveChan.length < 10 * s.n) : v.onRequest s.n ph req =
    { v with pknHandler := some { ph with receiveChan := ph.receiveChan ++ [req] } } := if_pos h

theorem onPKNRequest_some {n : ℕ} (h : v.pknHandler = some ph) : v.onPKNRequest n req = v.onRequest n ph req := by
  rw [onPKNRequest, h]

theorem onPKNRequest_none {n : ℕ} (h : v.pknHandler = none) (hfirst : req.body.phase = some .phase1) :
    v.onPKNRequest n req = { v with creating := req :: v.creating } := by
  rw [onPKNRequest, h]
  exact if_pos hfirst

theorem loadOrStore_some (h : v.pknHandler = some ph) : v.loadOrStore s i req = v.onRequest s.n ph req := by
  rw [loadOrStore, h]

theorem loadOrStore_none (h : v.pknHandler = none) : v.loadOrStore s i req =
    { v with pknHandler := some { s.newPKNHandler i with thread := .spawned req } } := by
  rw [loadOrStore, h]

/-- A request that is taken out in one place and put in later. -/
theorem perm_shift {α : Type*} (l₁ l₂ l₃ : List α) (x : α) : (l₁ ++ (l₂ ++ x :: l₃)).Perm (l₁ ++ x :: (l₂ ++ l₃)) :=
  List.perm_middle.append_left l₁

end KeyNode

end DistributedNotary.Mecdsa
