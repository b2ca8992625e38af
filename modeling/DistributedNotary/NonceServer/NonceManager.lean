import DistributedNotary.Library.RangeMap
import DistributedNotary.Library.Transition

/-! The nonces of one account that the nonce server hands out. Requests are served
one after the other, but each nonce has a loop of its own that watches the chain,
and all of them share the next nonce and the table of the nonces in use. A step is
what happens without interruption: the answer of an endpoint, one access to the
table, or what is done under the lock. Zero stands for a next nonce that is not
known. -/
namespace DistributedNotary.NonceServer

open Library

def defaultTimeoutBlock : UInt64 := 15

/-- Where the loop of a nonce is, and how it has ended. -/
inductive ConfirmLoop where
  | start
  | sleep (startBlockNumber : UInt64)
  | unused (startBlockNumber : UInt64)
  | confirm
  | timeout
  | cancel
  | post (cancelURL : String)
  | success
  | returned
  | confirmed
  | cancelled
  | reused
  deriving DecidableEq

/-- The nonce is neither confirmed nor cancelled nor taken back. -/
def ConfirmLoop.outstanding : ConfirmLoop → Bool
  | .confirmed | .cancelled | .reused => false
  | _ => true

/-- Where the request is that is served. -/
inductive ApplyNonce where
  | idle
  | unknown (cancelURL : String)
  | ready (cancelURL : String)
  deriving DecidableEq

/-- `loops` has one entry for each nonce that was handed out, and `reported` is the answer of the chain when the
manager was made. -/
structure NonceManager where
  nextNonce : UInt64
  usedNonceToCancelURLMap : RangeMap UInt64 String := ∅
  applying : ApplyNonce := .idle
  loops : List (UInt64 × ConfirmLoop) := []
  reported : Option UInt64
  panicked : Bool := false

/-- The account's next nonce as the chain answers, zero after an error. -/
def newNonceManager (nonceAt : Option UInt64) : NonceManager := { nextNonce := nonceAt.getD 0, reported := nonceAt }

inductive Action where
  | request (cancelURL : String)
  | pendingNonceAt (reply : Option UInt64)
  | takeNonce
  | headerByNumber (i : ℕ) (reply : Option UInt64)
  | nonceAt (i : ℕ) (reply : Option UInt64)
  | confirmNonce (i : ℕ)
  | lock (i : ℕ)
  | cancelNonce (i : ℕ)
  | response (i : ℕ) (ok : Bool)
  | delete (i : ℕ)

namespace NonceManager

variable (nm : NonceManager)

def goto (i : ℕ) (n : UInt64) (l : ConfirmLoop) : NonceManager := { nm with loops := nm.loops.set i (n, l) }

def forget (n : UInt64) : NonceManager :=
  { nm with usedNonceToCancelURLMap := nm.usedNonceToCancelURLMap.erase n }

/-- The steps of `applyNonce`. The next nonce is read, and set to what the chain answers, without the lock. -/
def apply : Action → Option NonceManager
  | .request cancelURL =>
    match nm.applying with
    | .idle => some { nm with applying := if nm.nextNonce = 0 then .unknown cancelURL else .ready cancelURL }
    | _ => none
  | .pendingNonceAt reply =>
    match nm.applying with
    | .unknown cancelURL => some { nm with nextNonce := reply.getD 0, applying := .ready cancelURL }
    | _ => none
  | .takeNonce =>
    match nm.applying with
    | .ready cancelURL =>
      some { nm with
        nextNonce := nm.nextNonce + 1
        usedNonceToCancelURLMap := nm.usedNonceToCancelURLMap.insert nm.nextNonce cancelURL
        applying := .idle
        loops := nm.loops ++ [(nm.nextNonce, .start)] }
    | _ => none
  | _ => none

/-- The steps of `confirmLoop` in loop `i` for the nonce `n`. -/
def confirmLoop (i : ℕ) (n : UInt64) : ConfirmLoop → Action → Option NonceManager
  | .start, .headerByNumber _ reply =>
    match reply with
    | some startBlockNumber => some (nm.goto i n (.sleep startBlockNumber))
    | none => some (nm.goto i n .returned)
  | .sleep startBlockNumber, .nonceAt _ reply =>
    match reply with
    | some nonce => some (nm.goto i n (if n < nonce then .confirm else .unused startBlockNumber))
    | none => some nm
  | .confirm, .confirmNonce _ => some ((nm.forget n).goto i n .confirmed)
  | .unused startBlockNumber, .headerByNumber _ reply =>
    match reply with
    | some blockNumber =>
      some (nm.goto i n
        (if defaultTimeoutBlock ≤ blockNumber - startBlockNumber then .timeout else .sleep startBlockNumber))
    | none => some (nm.goto i n (.sleep startBlockNumber))
  | .timeout, .lock _ =>
    if nm.nextNonce - n = 1 then some (({ nm with nextNonce := n }.forget n).goto i n .reused)
    else some (nm.goto i n .cancel)
  | .cancel, .cancelNonce _ =>
    match nm.usedNonceToCancelURLMap.lookup n with
    | none => some { nm with panicked := true }
    | some cancelURL => some (nm.goto i n (.post cancelURL))
  | .post _, .response _ ok => some (nm.goto i n (if ok then .success else .returned))
  | .success, .delete _ => some ((nm.forget n).goto i n .cancelled)
  | _, _ => none

def loopOf : Action → Option ℕ
  | .headerByNumber i _ | .nonceAt i _ | .confirmNonce i | .lock i | .cancelNonce i | .response i _ | .delete i =>
      some i
  | _ => none

/-- After a panic nothing happens any more. -/
def step (a : Action) : Option NonceManager :=
  if nm.panicked then none
  else
    match loopOf a with
    | none => nm.apply a
    | some i =>
      match nm.loops[i]? with
      | none => none
      | some (n, l) => nm.confirmLoop i n l a

/-- The nonces that are in use, one for each time that it was handed out. -/
def outstanding : List UInt64 := (nm.loops.filter fun l => l.2.outstanding).map Prod.fst

/-- What the server promises. -/
structure Safe (nm : NonceManager) : Prop where
  nodup : nm.outstanding.Nodup
  reported : ∀ r, nm.reported = some r → ∀ n ∈ nm.outstanding, r ≤ n
  calm : nm.panicked = false

/-- The last nonce there is does not get handed out. -/
def Room (nm : NonceManager) (a : Action) : Prop := a = .takeNonce → nm.nextNonce + 1 ≠ 0

def Steps (ok : NonceManager → Action → Prop) (nm nm' : NonceManager) : Prop := ∃ a, ok nm a ∧ nm.step a = some nm'

def Starts (nm : NonceManager) : Prop := ∃ nonceAt, nm = newNonceManager nonceAt

section Invariant

/-- The nonces in use are smaller than the next one, different, in the table and not smaller than what the chain
has reported; while the next nonce is asked for, it is zero. -/
structure Inv (nm : NonceManager) : Prop where
  below : ∀ n ∈ nm.outstanding, n < nm.nextNonce
  nodup : nm.outstanding.Nodup
  used : ∀ n ∈ nm.outstanding, ∃ cancelURL, nm.usedNonceToCancelURLMap.lookup n = some cancelURL
  next : ∀ r, nm.reported = some r → r ≤ nm.nextNonce
  reported : ∀ r, nm.reported = some r → ∀ n ∈ nm.outstanding, r ≤ n
  unknown : ∀ cancelURL, nm.applying = .unknown cancelURL → nm.nextNonce = 0
  calm : nm.panicked = false

variable {nm} {nm' : NonceManager} {i : ℕ} {n : UInt64} {l l' : ConfirmLoop}

/-- Where one loop goes on the others stay. -/
theorem outstanding_goto (h : nm.loops[i]? = some (n, l)) (hl : l.outstanding = true) (l' : ConfirmLoop) :
    ∃ rest, nm.outstanding.Perm (n :: rest) ∧
      (nm.goto i n l').outstanding.Perm (if l'.outstanding then n :: rest else rest) := by
  obtain ⟨hi, hget⟩ := List.getElem?_eq_some_iff.mp h
  obtain ⟨before, after, hloops, -, hset⟩ : ∃ before after, nm.loops = before ++ nm.loops[i] :: after ∧
      before.length = i ∧ nm.loops.set i (n, l') = before ++ (n, l') :: after := List.exists_of_set hi
  rw [hget] at hloops
  refine ⟨((before.filter fun l => l.2.outstanding).map Prod.fst) ++
    ((after.filter fun l => l.2.outstanding).map Prod.fst), ?_, ?_⟩
  · unfold outstanding
    rw [hloops]
    simp [hl]
  · unfold outstanding goto
    simp only [hset]
    split_ifs with hl'
    · simp [hl']
    · simp [hl']

theorem Inv.goto (h : nm.Inv) (hi : nm.loops[i]? = some (n, l)) (hl : l.outstanding = true)
    (hl' : l'.outstanding = true) : (nm.goto i n l').Inv := by
  obtain ⟨rest, hperm, hperm'⟩ := outstanding_goto hi hl l'
  rw [if_pos hl'] at hperm'
  have hsame : (nm.goto i n l').outstanding.Perm nm.outstanding := hperm'.trans hperm.symm
  exact {
    below := fun m hm => h.below m (hsame.mem_iff.mp hm)
    nodup := hsame.nodup_iff.mpr h.nodup
    used := fun m hm => h.used m (hsame.mem_iff.mp hm)
    next := h.next
    reported := fun r hr m hm => h.reported r hr m (hsame.mem_iff.mp hm)
    unknown := h.unknown
    calm := h.calm }

/-- A nonce that is no longer in use leaves the table. -/
theorem Inv.finish (h : nm.Inv) (hi : nm.loops[i]? = some (n, l)) (hl : l.outstanding = true)
    (hl' : l'.outstanding = false) : ((nm.forget n).goto i n l').Inv := by
  have hforget : (nm.forget n).loops[i]? = some (n, l) := hi
  obtain ⟨rest, hperm, hperm'⟩ := outstanding_goto hforget hl l'
  rw [if_neg (by simp [hl'])] at hperm'
  have hnodup := hperm.nodup_iff.mp h.nodup
  have hmem : ∀ m ∈ ((nm.forget n).goto i n l').outstanding, m ∈ nm.outstanding ∧ m ≠ n := by
    intro m hm
    have hrest := hperm'.mem_iff.mp hm
    refine ⟨hperm.mem_iff.mpr (List.mem_cons_of_mem _ hrest), ?_⟩
    rintro rfl
    exact (List.nodup_cons.mp hnodup).1 hrest
  exact {
    below := fun m hm => h.below m (hmem m hm).1
    nodup := hperm'.nodup_iff.mpr (List.nodup_cons.mp hnodup).2
    used := fun m hm => by
      obtain ⟨cancelURL, hurl⟩ := h.used m (hmem m hm).1
      exact ⟨cancelURL, (AList.lookup_erase_ne (hmem m hm).2).trans hurl⟩
    next := h.next
    reported := fun r hr m hm => h.reported r hr m (hmem m hm).1
    unknown := h.unknown
    calm := h.calm }

theorem lt_add_one {x : UInt64} (h : x + 1 ≠ 0) : x < x + 1 := by
  have hne : (x + 1).toNat ≠ 0 := fun hzero => h (UInt64.toNat_inj.mp hzero)
  rw [UInt64.lt_iff_toNat_lt]
  rw [UInt64.toNat_add, UInt64.toNat_one] at hne ⊢
  have hx := x.toNat_lt
  omega

/-- With one nonce after it a nonce is the last one that was handed out. -/
theorem lt_of_sub_eq_one {x m : UInt64} (hsub : x - n = 1) (hn : n < x) (hm : m < x) (hne : m ≠ n) : m < n := by
  have hx : x = n + 1 := by rw [← hsub, UInt64.add_comm, UInt64.sub_add_cancel]
  have hne' : m.toNat ≠ n.toNat := fun h => hne (UInt64.toNat_inj.mp h)
  rw [UInt64.lt_iff_toNat_lt] at hn hm ⊢
  rw [hx, UInt64.toNat_add, UInt64.toNat_one] at hn hm
  omega

theorem Inv.reuse (h : nm.Inv) (hi : nm.loops[i]? = some (n, l)) (hl : l.outstanding = true)
    (hsub : nm.nextNonce - n = 1) : (({ nm with nextNonce := n }.forget n).goto i n .reused).Inv := by
  obtain ⟨rest, hperm, hperm'⟩ := outstanding_goto hi hl .reused
  have hn : n ∈ nm.outstanding := hperm.mem_iff.mpr (List.mem_cons_self ..)
  have hfinish : ((nm.forget n).goto i n .reused).Inv := h.finish hi hl rfl
  have hnotin : n ∉ ((nm.forget n).goto i n .reused).outstanding := fun hmem =>
    (List.nodup_cons.mp (hperm.nodup_iff.mp h.nodup)).1 (hperm'.mem_iff.mp hmem)
  exact {
    below := fun m hm => by
      have hne : m ≠ n := fun hmn => hnotin (hmn ▸ hm)
      exact lt_of_sub_eq_one hsub (h.below n hn) (hfinish.below m hm) hne
    nodup := hfinish.nodup
    used := hfinish.used
    next := fun r hr => h.reported r hr n hn
    reported := hfinish.reported
    unknown := fun cancelURL hurl => by
      -- While the next nonce is not known no nonce is in use.
      have hlt := h.below n hn
      rw [h.unknown cancelURL hurl] at hlt
      exact absurd hlt UInt64.not_lt_zero
    calm := hfinish.calm }

theorem Inv.take (h : nm.Inv) (hroom : nm.nextNonce + 1 ≠ 0) (cancelURL : String) :
    Inv { nm with
      nextNonce := nm.nextNonce + 1
      usedNonceToCancelURLMap := nm.usedNonceToCancelURLMap.insert nm.nextNonce cancelURL
      applying := .idle
      loops := nm.loops ++ [(nm.nextNonce, .start)] } := by
  have hlt := lt_add_one hroom
  have hout : outstanding { nm with
      nextNonce := nm.nextNonce + 1
      usedNonceToCancelURLMap := nm.usedNonceToCancelURLMap.insert nm.nextNonce cancelURL
      applying := .idle
      loops := nm.loops ++ [(nm.nextNonce, .start)] } = nm.outstanding ++ [nm.nextNonce] := by
    simp [outstanding, ConfirmLoop.outstanding]
  constructor
  · rw [hout]
    intro m hm
    rcases List.mem_append.mp hm with hm | hm
    · exact UInt64.lt_trans (h.below m hm) hlt
    · exact List.mem_singleton.mp hm ▸ hlt
  · rw [hout, List.nodup_append]
    refine ⟨h.nodup, List.nodup_singleton _, fun m hm m' hm' => ?_⟩
    rw [List.mem_singleton.mp hm']
    rintro rfl
    exact UInt64.lt_irrefl _ (h.below _ hm)
  · rw [hout]
    intro m hm
    rcases List.mem_append.mp hm with hm | hm
    · obtain ⟨url, hurl⟩ := h.used m hm
      have hne : m ≠ nm.nextNonce := UInt64.ne_of_lt (h.below m hm)
      exact ⟨url, (AList.lookup_insert_ne hne).trans hurl⟩
    · rw [List.mem_singleton.mp hm]
      exact ⟨cancelURL, AList.lookup_insert _⟩
  · exact fun r hr => UInt64.le_trans (h.next r hr) (UInt64.le_of_lt hlt)
  · rw [hout]
    intro r hr m hm
    rcases List.mem_append.mp hm with hm | hm
    · exact h.reported r hr m hm
    · exact List.mem_singleton.mp hm ▸ h.next r hr
  · intro url hurl
    cases hurl
  · exact h.calm

theorem Inv.new (nonceAt : Option UInt64) : (newNonceManager nonceAt).Inv where
  below n hn := by simp [newNonceManager, outstanding] at hn
  nodup := by simp [newNonceManager, outstanding]
  used n hn := by simp [newNonceManager, outstanding] at hn
  next r hr := by
    have hr' : nonceAt = some r := hr
    simp [newNonceManager, hr']
  reported r hr n hn := by simp [newNonceManager, outstanding] at hn
  unknown url hurl := by cases hurl
  calm := rfl

/-- A request or an answer to it. -/
theorem Inv.apply (h : nm.Inv) {a : Action} (hroom : nm.Room a) (ha : nm.apply a = some nm') : nm'.Inv := by
  unfold NonceManager.apply at ha
  cases a with
  | request cancelURL =>
    cases happly : nm.applying with
    | idle =>
      simp only [happly, Option.some.injEq] at ha
      subst ha
      refine ⟨h.below, h.nodup, h.used, h.next, h.reported, fun url hurl => ?_, h.calm⟩
      by_contra hzero
      simp [hzero] at hurl
    | unknown url => simp [happly] at ha
    | ready url => simp [happly] at ha
  | pendingNonceAt reply =>
    cases happly : nm.applying with
    | unknown url =>
      simp only [happly, Option.some.injEq] at ha
      subst ha
      have hzero := h.unknown url happly
      have hnone : ∀ m, m ∉ nm.outstanding := fun m hm => by
        have hlt := h.below m hm
        rw [hzero] at hlt
        exact absurd hlt UInt64.not_lt_zero
      refine ⟨fun m hm => absurd hm (hnone m), h.nodup, h.used, fun r hr => ?_, h.reported, fun url hurl => ?_, h.calm⟩
      · have hr0 := h.next r hr
        rw [hzero, UInt64.le_zero_iff] at hr0
        rw [hr0]
        exact UInt64.zero_le
      · cases hurl
    | idle => simp [happly] at ha
    | ready url => simp [happly] at ha
  | takeNonce =>
    cases happly : nm.applying with
    | ready url =>
      simp only [happly, Option.some.injEq] at ha
      subst ha
      exact h.take (hroom rfl) url
    | idle => simp [happly] at ha
    | unknown url => simp [happly] at ha
  | headerByNumber | nonceAt | confirmNonce | lock | cancelNonce | response | delete => cases ha

/-- A step of the loop of a nonce. -/
theorem Inv.confirmLoop (h : nm.Inv) (hi : nm.loops[i]? = some (n, l)) {a : Action}
    (ha : nm.confirmLoop i n l a = some nm') : nm'.Inv := by
  unfold NonceManager.confirmLoop at ha
  split at ha
  · split at ha <;> obtain rfl := Option.some.inj ha <;> exact h.goto hi rfl rfl
  · split at ha
    · obtain rfl := Option.some.inj ha
      exact h.goto hi rfl (by split <;> rfl)
    · obtain rfl := Option.some.inj ha
      exact h
  · obtain rfl := Option.some.inj ha
    exact h.finish hi rfl rfl
  · split at ha
    · obtain rfl := Option.some.inj ha
      exact h.goto hi rfl (by split <;> rfl)
    · obtain rfl := Option.some.inj ha
      exact h.goto hi rfl rfl
  · split_ifs at ha with hsub
    · obtain rfl := Option.some.inj ha
      exact h.reuse hi rfl hsub
    · obtain rfl := Option.some.inj ha
      exact h.goto hi rfl rfl
  · -- The nonce is in use, and so it is in the table.
    obtain ⟨rest, hperm, -⟩ := outstanding_goto hi rfl .cancel
    obtain ⟨cancelURL, hurl⟩ := h.used n (hperm.mem_iff.mpr (List.mem_cons_self ..))
    rw [hurl] at ha
    obtain rfl := Option.some.inj ha
    exact h.goto hi rfl rfl
  · obtain rfl := Option.some.inj ha
    exact h.goto hi rfl (by split <;> rfl)
  · obtain rfl := Option.some.inj ha
    exact h.finish hi rfl rfl
  · cases ha

theorem Inv.step (h : nm.Inv) {a : Action} (hroom : nm.Room a) (ha : nm.step a = some nm') : nm'.Inv := by
  unfold NonceManager.step at ha
  rw [if_neg (by simp [h.calm])] at ha
  split at ha
  · exact h.apply hroom ha
  · split at ha
    · cases ha
    · next hi => exact h.confirmLoop hi ha

end Invariant

/-- As long as the last nonce is not handed out, the nonces in use are different, none is smaller than what the chain
has reported at the start, and the server does not panic. -/
theorem safe_of_reachable {nm : NonceManager} (h : Reachable Starts (Steps Room) nm) : nm.Safe := by
  have hinv : nm.Inv := h.invariant
    (fun _ ⟨nonceAt, hnm⟩ => hnm ▸ Inv.new nonceAt)
    (fun _ _ _ hi ⟨_, hroom, ha⟩ => hi.step hroom ha)
  exact ⟨hinv.nodup, hinv.reported, hinv.calm⟩

section Runs

variable (ok : NonceManager → Action → Prop) [∀ nm a, Decidable (ok nm a)]

/-- The manager after the listed actions, all of which were `ok` at their time. -/
def run (nm : NonceManager) : List Action → Option NonceManager
  | [] => some nm
  | a :: l => if ok nm a then (nm.step a).bind fun nm => run nm l else none

theorem reachable_of_run {nm nm' : NonceManager} {l : List Action} (h : Reachable Starts (Steps ok) nm)
    (hl : nm.run ok l = some nm') : Reachable Starts (Steps ok) nm' := by
  induction l generalizing nm with
  | nil => exact Option.some.inj hl ▸ h
  | cons a l ih =>
    rw [run] at hl
    split_ifs at hl with hok
    obtain ⟨nm₁, hstep, hl⟩ := Option.bind_eq_some_iff.mp hl
    exact ih (h.step ⟨a, hok, hstep⟩) hl

end Runs

instance instDecidableRoom (nm : NonceManager) : (a : Action) → Decidable (nm.Room a)
  | .takeNonce => decidable_of_iff (nm.nextNonce + 1 ≠ 0) ⟨fun h _ => h, fun h => h rfl⟩
  | .request _ | .pendingNonceAt _ | .headerByNumber _ _ | .nonceAt _ _ | .confirmNonce _ | .lock _ | .cancelNonce _
  | .response _ _ | .delete _ => isTrue fun h => by cases h

/-- A request that is served without asking the chain. -/
def handOut : List Action := [.request "", .takeNonce]

/-- Fifteen blocks pass without a transaction with the nonce of loop `i`. -/
def waitFor (i : ℕ) : List Action :=
  [.headerByNumber i (some 0), .nonceAt i (some 0), .headerByNumber i (some 15), .lock i]

/-- The second of two nonces is taken back and handed out again. -/
theorem safe_of_reachable_six : ∃ nm : NonceManager, nm.outstanding = [5, 6] ∧ nm.Safe := by
  have hrun : ((newNonceManager (some 5)).run Room (handOut ++ handOut ++ waitFor 1 ++ handOut)).map outstanding =
      some [5, 6] := by decide +kernel
  obtain ⟨nm, hnm, hout⟩ := Option.map_eq_some_iff.mp hrun
  exact ⟨nm, hout, safe_of_reachable (reachable_of_run Room (.init ⟨some 5, rfl⟩) hnm)⟩

/-- The largest nonce; the next one would be zero again, which stands for unknown. -/
def lastNonce : UInt64 := 18446744073709551615

/-- The last nonce is handed out twice. -/
def twice : List Action := handOut ++ [.request "", .pendingNonceAt (some lastNonce), .takeNonce]

/-- One loop takes the last nonce back, and the other one does not find it in the table. -/
theorem unsafe_reachable :
    (∃ nm, Reachable Starts (Steps fun _ _ => True) nm ∧ ¬ nm.outstanding.Nodup) ∧
    ∃ nm, Reachable Starts (Steps fun _ _ => True) nm ∧ nm.panicked = true := by
  have hstart : Reachable Starts (Steps fun _ _ => True) (newNonceManager (some lastNonce)) := .init ⟨_, rfl⟩
  have htwice : ((newNonceManager (some lastNonce)).run (fun _ _ => True) twice).map outstanding =
      some [lastNonce, lastNonce] := by decide +kernel
  have hpanic : ((newNonceManager (some lastNonce)).run (fun _ _ => True)
      (twice ++ waitFor 0 ++ waitFor 1 ++ [.cancelNonce 1])).map panicked = some true := by decide +kernel
  obtain ⟨nm, hrun, hout⟩ := Option.map_eq_some_iff.mp htwice
  obtain ⟨nm', hrun', hpanicked⟩ := Option.map_eq_some_iff.mp hpanic
  refine ⟨⟨nm, reachable_of_run _ hstart hrun, ?_⟩, ⟨nm', reachable_of_run _ hstart hrun', hpanicked⟩⟩
  rw [hout]
  decide

end NonceManager

end DistributedNotary.NonceServer
