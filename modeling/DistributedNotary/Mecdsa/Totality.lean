import DistributedNotary.Library.Transition
import DistributedNotary.Mecdsa.Normalization
import DistributedNotary.Mecdsa.Wire

/-! What the receive handlers of a key negotiation make of any message at any time.
A handler comes to an end exactly when everything that it reads is there, and then it
has either stored the message or notified an error and changed nothing else. -/
namespace DistributedNotary.Mecdsa

open Library Share

inductive WireMessage where
  | phase1 (m : Option WireMessage1)
  | phase2 (m : Option WireMessage2)
  | phase3 (m : Option WireMessage3)
  | phase4 (m : Option WireMessage1)

/-- `PKNHandler` with the messages as they came. -/
structure WireHandler where
  selfNotaryID : ℕ
  ui : SPrivKey
  pubKeysProof1 : RangeMap ℕ WireMessage1 := ∅
  paillierKeysProof2 : RangeMap ℕ WireMessage2 := ∅
  secretShareMessage3 : RangeMap ℕ WireMessage3 := ∅
  lastPubkeyProof4 : RangeMap ℕ WireMessage1 := ∅
  publicKey : Option (ℤ × ℤ) := none
  xi : Option ℤ := none
  doneChan : List ℕ := []
  quitChan : List String := []

namespace WireHandler

variable (lib : WireCurve) (n : ℕ) (rg : Range ℕ)

def notifyError (ph : WireHandler) (err : String) : WireHandler :=
  { ph with quitChan := (ph.quitChan ++ [err, err]).take 2 }

def notifyDone (ph : WireHandler) (c : ℕ) : WireHandler :=
  if 2 ≤ ph.doneChan.count c then ph else { ph with doneChan := c :: ph.doneChan }

/-- The sum of the keys of the listed messages, which must be there. -/
def addKeys (acc : ℤ × ℤ) : List (Option WireMessage1) → Except String (ℤ × ℤ)
  | [] => .ok acc
  | m :: l => do
    let m ← deref m
    let key ← deref m.key
    let acc ← deref (lib.add acc key)
    addKeys acc l

def checkPhase1Done (ph : WireHandler) : Except String WireHandler := do
  if ph.pubKeysProof1.len + 1 = n then
    let own ← lib.scalarMult lib.G ph.ui
    let own ← deref own
    let key ← addKeys lib own ((ph.pubKeysProof1.range rg).map fun p => some p.2)
    return { ph with publicKey := some key }.notifyDone 1
  else return ph

def receivePhase1PubKeyProof (ph : WireHandler) (m : Option WireMessage1) (index : ℕ) : Except String WireHandler := do
  let m ← deref m
  if (← lib.verifyProof m.proof) = false then
    return ph.notifyError s!"pubkey roof for notary[ID={index}] verify not pass"
  if (ph.pubKeysProof1.lookup index).isSome then
    return ph.notifyError s!"pubkey roof for notary[ID={index}] already exist"
  checkPhase1Done lib n rg { ph with pubKeysProof1 := ph.pubKeysProof1.insert index m }

def checkPhase2Done (ph : WireHandler) : WireHandler :=
  if ph.paillierKeysProof2.len = n then ph.notifyDone 2 else ph

def receivePhase2PaillierPubKeyProof (ph : WireHandler) (m : Option WireMessage2) (index : ℕ) :
    Except String WireHandler := do
  let m ← deref m
  if (← verifyCorrectKey m.correctKeyProof m.paillierPubkey) = false then
    return ph.notifyError s!"paillier pubkey roof for notary[ID={index}] verify not pass"
  if (ph.paillierKeysProof2.lookup index).isSome then
    return ph.notifyError s!"paillier pubkey roof for notary[ID={index}] already exist"
  return checkPhase2Done n { ph with paillierKeysProof2 := ph.paillierKeysProof2.insert index m }

/-- The sum of the listed shares, which must be there. -/
def addShares (N : ℕ) (acc : ℤ) : List (ℕ × WireMessage3) → Except String ℤ
  | [] => .ok acc
  | (_, m) :: l => do
    let d ← deref m.secretShare
    addShares N ((acc % N + d % N) % N) l

def checkPhase3Done (ph : WireHandler) : Except String WireHandler := do
  if ph.secretShareMessage3.len = n then
    let xi ← addShares lib.N 0 (ph.secretShareMessage3.range rg)
    return { ph with xi := some xi }.notifyDone 3
  else return ph

/-- `equalGE`; the second coordinates are compared only if the first are equal. -/
def equalGE (pubGB : ℤ × ℤ) (mtaGB : Option WireKey) : Except String Bool := do
  let k ← deref mtaGB
  let x ← deref k.X
  if pubGB.1 = x then return pubGB.2 = (← deref k.Y) else return false

def receivePhase3SecretShare (ph : WireHandler) (msg : Option WireMessage3) (index : ℕ) :
    Except String WireHandler := do
  let own ← deref (ph.pubKeysProof1.lookup index)
  let key ← deref own.key
  let msg ← deref msg
  let commitments ← deref msg.vss
  -- an empty list panics as a nil key does
  let c ← deref commitments.head?
  if (← equalGE key c) = false then return ph.notifyError s!"pubkey not match for notary[ID={index}]"
  if (ph.secretShareMessage3.lookup index).isSome then
    return ph.notifyError s!"secret shares for notary[ID={index}] already received"
  if (← validateShare lib commitments msg.secretShare (ph.selfNotaryID + 1)) = false then
    return ph.notifyError s!"secret share error for notary[ID={index}]"
  checkPhase3Done lib n rg { ph with secretShareMessage3 := ph.secretShareMessage3.insert index msg }

/-- The sum over the numbers `0..n-1`, compared with the public key without consequence. -/
def checkPhase4Done (ph : WireHandler) : Except String WireHandler := do
  if ph.lastPubkeyProof4.len = n then
    let first ← deref (ph.lastPubkeyProof4.lookup 0)
    let start ← deref first.key
    let _ ← addKeys lib start ((List.range' 1 (n-1)).map ph.lastPubkeyProof4.lookup)
    let _ ← deref ph.publicKey
    return ph.notifyDone 4
  else return ph

def receivePhase4VerifyTotalPubKey (ph : WireHandler) (msg : Option WireMessage1) (index : ℕ) :
    Except String WireHandler := do
  let msg ← deref msg
  if (← lib.verifyProof msg.proof) = false then
    return ph.notifyError s!"last pubkey verify error for notary[ID={index}]"
  if (ph.lastPubkeyProof4.lookup index).isSome then
    return ph.notifyError s!"last pubkey for notary[ID={index}] already exist"
  checkPhase4Done lib n { ph with lastPubkeyProof4 := ph.lastPubkeyProof4.insert index msg }

def receive (ph : WireHandler) (index : ℕ) : WireMessage → Except String WireHandler
  | .phase1 m => receivePhase1PubKeyProof lib n rg ph m index
  | .phase2 m => receivePhase2PaillierPubKeyProof n ph m index
  | .phase3 m => receivePhase3SecretShare lib n rg ph m index
  | .phase4 m => receivePhase4VerifyTotalPubKey lib n ph m index

/-! ### What a handler needs -/

/-- What was stored before is there, as far as a handler reads it again. -/
structure Sound (w : WireHandler) : Prop where
  ui : 0 < w.ui ∧ w.ui < lib.N
  self : w.selfNotaryID < n
  shares : ∀ j m, w.secretShareMessage3.lookup j = some m → m.secretShare.isSome
  keys4 : ∀ j m, w.lastPubkeyProof4.lookup j = some m → j < n
  own4 : (w.lastPubkeyProof4.lookup w.selfNotaryID).isSome → w.publicKey.isSome

/-- The keys of the messages are there, and the library adds them up. -/
def Adds (start : ℤ × ℤ) (l : List (Option WireMessage1)) : Prop :=
  ∃ keys, l.mapM (· >>= WireMessage1.key) = some keys ∧ (keys.foldlM lib.add start).isSome

/-- The notary's own key share as a point. -/
def ownKey (w : WireHandler) : ℤ × ℤ := lib.mul (lib.G.1.natAbs % 2^256, lib.G.2.natAbs % 2^256) w.ui

/-- What a message must hold for its handler to come to an end; the last message of a phase also brings
the stored keys to addition. -/
def WellFormed (w : WireHandler) (j : ℕ) : WireMessage → Prop
  | .phase1 m => ∃ msg, m = some msg ∧ lib.ReadableProof msg.proof ∧
      (lib.verifyProof msg.proof = .ok true → w.pubKeysProof1.lookup j = none →
        RangeMap.len (w.pubKeysProof1.insert j msg) + 1 = n →
          Adds lib (ownKey lib w) ((RangeMap.range (w.pubKeysProof1.insert j msg) rg).map fun p => some p.2))
  | .phase2 m => ∃ msg, m = some msg ∧ ReadableKeyProof msg
  | .phase3 m => ∃ own key, w.pubKeysProof1.lookup j = some own ∧ own.key = some key ∧
      ∃ msg commitments k x, m = some msg ∧ msg.vss = some commitments ∧ commitments.head? = some (some k) ∧
        k.X = some x ∧ (key.1 = x → ∃ y, k.Y = some y ∧
          (key.2 = y → w.secretShareMessage3.lookup j = none →
            ReadableShare lib commitments msg.secretShare (w.selfNotaryID + 1)))
  | .phase4 m => ∃ msg, m = some msg ∧ lib.ReadableProof msg.proof ∧
      (lib.verifyProof msg.proof = .ok true → w.lastPubkeyProof4.lookup j = none →
        RangeMap.len (w.lastPubkeyProof4.insert j msg) = n →
          ∃ start, ((w.lastPubkeyProof4.insert j msg).lookup 0 >>= WireMessage1.key) = some start ∧
            Adds lib start ((List.range' 1 (n-1)).map (w.lastPubkeyProof4.insert j msg).lookup))

section Checks

variable {lib n rg} {w : WireHandler} {j : ℕ}

theorem returns_addKeys_iff {acc : ℤ × ℤ} {l : List (Option WireMessage1)} :
    Returns (addKeys lib acc l) ↔ Adds lib acc l := by
  induction l generalizing acc with
  | nil => exact iff_of_true (returns_ok _) ⟨[], rfl, rfl⟩
  | cons m l ih =>
    rw [addKeys]
    simp only [returns_deref_bind, ih, Adds, List.mapM_cons, Option.bind_eq_bind,
      Option.bind_eq_some_iff, Option.pure_def,
      Option.some.injEq]
    constructor
    · rintro ⟨msg, rfl, key, hkey, sum, hsum, keys, hkeys, hadd⟩
      refine ⟨key :: keys, ⟨key, ⟨msg, rfl, hkey⟩, keys, hkeys, rfl⟩, ?_⟩
      rw [List.foldlM_cons, hsum]
      exact hadd
    · rintro ⟨_, ⟨key, ⟨msg, rfl, hkey⟩, keys, hkeys, rfl⟩, hadd⟩
      rw [List.foldlM_cons, Option.bind_eq_bind, Option.isSome_bind] at hadd
      obtain ⟨sum, hsum, hadd⟩ := (Option.any_eq_true _ _).mp hadd
      exact ⟨msg, rfl, key, hkey, sum, hsum, keys, hkeys, hadd⟩

theorem returns_addShares {N : ℕ} {acc : ℤ} {l : List (ℕ × WireMessage3)} (h : ∀ p ∈ l, p.2.secretShare.isSome) :
    Returns (addShares N acc l) := by
  induction l generalizing acc with
  | nil => exact returns_ok _
  | cons p l ih =>
    obtain ⟨d, hd⟩ := Option.isSome_iff_exists.mp (h p (List.mem_cons_self ..))
    rw [addShares]
    exact returns_deref_bind.mpr ⟨d, hd, ih fun q hq => h q (List.mem_cons_of_mem _ hq)⟩

theorem returns_checkPhase1Done_iff (hui : 0 < w.ui ∧ w.ui < lib.N) :
    Returns (checkPhase1Done lib n rg w) ↔ (w.pubKeysProof1.len + 1 = n →
      Adds lib (ownKey lib w) ((w.pubKeysProof1.range rg).map fun p => some p.2)) := by
  rw [checkPhase1Done]
  split
  · next hlen =>
    rw [lib.returns_scalarMult_bind, returns_deref_bind, ← returns_addKeys_iff]
    simp only [hlen, true_implies, lib.ite_none_eq_some, hui, and_true]
    constructor
    · rintro ⟨-, own, ⟨-, rfl⟩, hadd⟩
      obtain ⟨key, hkey, -⟩ := returns_bind.mp hadd
      exact ⟨key, hkey⟩
    · rintro ⟨key, hkey⟩
      exact ⟨hui.2.trans_le lib.N_le, _, ⟨trivial, rfl⟩, returns_bind.mpr ⟨key, hkey, returns_pure _⟩⟩
  · next hlen => exact iff_of_true (returns_pure _) fun h => absurd h hlen

theorem returns_checkPhase3Done (h : ∀ j m, w.secretShareMessage3.lookup j = some m → m.secretShare.isSome) :
    Returns (checkPhase3Done lib n rg w) := by
  rw [checkPhase3Done]
  split
  · obtain ⟨xi, hxi⟩ := returns_addShares (N := lib.N) fun p hp => h p.1 p.2 (RangeMap.mem_range.mp hp)
    exact returns_bind.mpr ⟨xi, hxi, returns_pure _⟩
  · exact returns_pure _

/-- The keys of all numbers are there when as many are stored, the notary's own among them. -/
theorem returns_checkPhase4Done_iff (hself : w.selfNotaryID < n)
    (h : ∀ j m, w.lastPubkeyProof4.lookup j = some m → j < n)
    (hown : (w.lastPubkeyProof4.lookup w.selfNotaryID).isSome → w.publicKey.isSome) :
    Returns (checkPhase4Done lib n w) ↔ (w.lastPubkeyProof4.len = n →
      ∃ start, (w.lastPubkeyProof4.lookup 0 >>= WireMessage1.key) = some start ∧
        Adds lib start ((List.range' 1 (n-1)).map w.lastPubkeyProof4.lookup)) := by
  rw [checkPhase4Done]
  split
  · next hlen =>
    have hall : RangeMap.Collects w.lastPubkeyProof4 (List.range n) fun _ _ => True :=
      .of_len (fun j m hm => ⟨List.mem_range.mpr (h j m hm), trivial⟩) (by rw [hlen, List.length_range])
    obtain ⟨own, hlookup, -⟩ := hall.values _ (List.mem_range.mpr hself)
    obtain ⟨pk, hpk⟩ := Option.isSome_iff_exists.mp (hown (by rw [hlookup]; rfl))
    have hlast : ∀ start, Returns (do
        let _ ← addKeys lib start ((List.range' 1 (n-1)).map w.lastPubkeyProof4.lookup)
        let _ ← deref w.publicKey
        return w.notifyDone 4) ↔ Adds lib start ((List.range' 1 (n-1)).map w.lastPubkeyProof4.lookup) := by
      intro start
      rw [returns_bind, ← returns_addKeys_iff]
      exact exists_congr fun sum => and_iff_left (returns_deref_bind.mpr ⟨pk, hpk, returns_pure _⟩)
    simp only [returns_deref_bind, hlast, hlen, true_implies, Option.bind_eq_bind, Option.bind_eq_some_iff]
    constructor
    · rintro ⟨first, hfirst, start, hstart, hadd⟩
      exact ⟨start, ⟨first, hfirst, hstart⟩, hadd⟩
    · rintro ⟨start, ⟨first, hfirst, hstart⟩, hadd⟩
      exact ⟨first, hfirst, start, hstart, hadd⟩
  · next hlen => exact iff_of_true (returns_pure _) fun h => absurd h hlen

/-- What holds of the stored messages and of a new one holds after it was stored. -/
theorem forall_lookup_insert {ν : Type} {m : RangeMap ℕ ν} {P : ℕ → ν → Prop} {v : ν}
    (h : ∀ k v, m.lookup k = some v → P k v) (hv : P j v) : ∀ k v', (m.insert j v).lookup k = some v' → P k v' := by
  intro k v' hk
  rcases eq_or_ne k j with rfl | hne
  · rw [AList.lookup_insert] at hk
    exact Option.some.inj hk ▸ hv
  · rw [AList.lookup_insert_ne hne] at hk
    exact h k v' hk

end Checks

section Handlers

variable {lib n rg} {w : WireHandler} {j : ℕ}

/-- A handler that tests what it has verified goes on in any case. -/
theorem returns_verified {x : Except String Bool} {a b : WireHandler} {c : Prop} [Decidable c]
    {y : Except String WireHandler} :
    Returns (do
      if (← x) = false then return a
      if c then return b
      y) ↔ Returns x ∧ (x = .ok true → ¬ c → Returns y) := by
  have hrest : ∀ v : Bool, Returns (do
      if v = false then return a
      if c then return b
      y) ↔ (v = true → ¬ c → Returns y) := by
    intro v
    cases v with
    | false => exact iff_of_true (returns_pure _) fun h => absurd h Bool.false_ne_true
    | true =>
      by_cases hc : c
      · simp only [Bool.true_eq_false, if_false, if_pos hc]
        exact iff_of_true (returns_pure _) fun _ h => absurd hc h
      · simp only [Bool.true_eq_false, if_false, if_neg hc, true_implies]
        exact ⟨fun h _ => h, fun h => h hc⟩
  rw [returns_bind]
  constructor
  · rintro ⟨v, hv, hy⟩
    refine ⟨⟨v, hv⟩, fun htrue => (hrest v).mp hy ?_⟩
    exact Except.ok.inj (hv.symm.trans htrue)
  · rintro ⟨⟨v, hv⟩, hy⟩
    exact ⟨v, hv, (hrest v).mpr fun h => hy (h ▸ hv)⟩

theorem returns_receivePhase1_iff (h : Sound lib n w) (m : Option WireMessage1) :
    Returns (receivePhase1PubKeyProof lib n rg w m j) ↔ WellFormed lib n rg w j (.phase1 m) := by
  rw [receivePhase1PubKeyProof, returns_deref_bind]
  refine exists_congr fun msg => and_congr_right fun _ => ?_
  rw [returns_verified, lib.returns_verifyProof_iff, Option.not_isSome_iff_eq_none]
  exact and_congr_right fun _ => imp_congr_right fun _ => imp_congr_right fun _ => returns_checkPhase1Done_iff h.ui

theorem returns_receivePhase2_iff (m : Option WireMessage2) :
    Returns (receivePhase2PaillierPubKeyProof n w m j) ↔ WellFormed lib n rg w j (.phase2 m) := by
  rw [receivePhase2PaillierPubKeyProof, returns_deref_bind]
  refine exists_congr fun msg => and_congr_right fun _ => ?_
  rw [returns_verified, returns_verifyCorrectKey_iff]
  exact and_iff_left fun _ _ => returns_pure _

theorem returns_equalGE_bind {key : ℤ × ℤ} {c : Option WireKey} {a : WireHandler} {y : Except String WireHandler} :
    Returns (do
      if (← equalGE key c) = false then return a
      y) ↔ ∃ k, c = some k ∧ ∃ x, k.X = some x ∧ (key.1 = x → ∃ v, k.Y = some v ∧ (key.2 = v → Returns y)) := by
  simp only [equalGE, bind_assoc, returns_deref_bind]
  refine exists_congr fun k => and_congr_right fun _ => exists_congr fun x => and_congr_right fun _ => ?_
  by_cases hx : key.1 = x
  · rw [if_pos hx, bind_assoc, returns_deref_bind]
    simp only [hx, true_implies, pure_bind]
    refine exists_congr fun v => and_congr_right fun _ => ?_
    by_cases hv : key.2 = v
    · simp only [hv, decide_true, Bool.true_eq_false, if_false, true_implies]
    · simp only [hv, decide_false, if_true, false_implies, iff_true]
      exact returns_pure _
  · rw [if_neg hx]
    exact iff_of_true (returns_pure _) fun h => absurd h hx

theorem returns_receivePhase3_iff (h : Sound lib n w) (hself : 0 < (w.selfNotaryID + 1) % lib.N)
    (m : Option WireMessage3) :
    Returns (receivePhase3SecretShare lib n rg w m j) ↔ WellFormed lib n rg w j (.phase3 m) := by
  have hrest : ∀ (msg : WireMessage3) (commitments : List (Option WireKey)), Returns (do
      if (w.secretShareMessage3.lookup j).isSome then
        return w.notifyError s!"secret shares for notary[ID={j}] already received"
      if (← validateShare lib commitments msg.secretShare (w.selfNotaryID + 1)) = false then
        return w.notifyError s!"secret share error for notary[ID={j}]"
      checkPhase3Done lib n rg { w with secretShareMessage3 := w.secretShareMessage3.insert j msg }) ↔
      (w.secretShareMessage3.lookup j = none → ReadableShare lib commitments msg.secretShare (w.selfNotaryID + 1)) := by
    intro msg commitments
    by_cases hdup : (w.secretShareMessage3.lookup j).isSome
    · rw [if_pos hdup]
      refine iff_of_true (returns_pure _) fun hnone => ?_
      rw [hnone] at hdup
      exact absurd hdup Bool.false_ne_true
    · have hnone := Option.not_isSome_iff_eq_none.mp hdup
      rw [if_neg hdup, ← returns_validateShare_iff lib hself, returns_bind]
      constructor
      · rintro ⟨v, hv, -⟩ -
        exact ⟨v, hv⟩
      · intro hread
        obtain ⟨v, hv⟩ := hread hnone
        refine ⟨v, hv, ?_⟩
        cases v with
        | false => exact returns_pure _
        | true =>
          obtain ⟨⟨d, hd, -⟩, -⟩ := (returns_validateShare_iff lib hself _ _).mp ⟨_, hv⟩
          exact returns_checkPhase3Done (forall_lookup_insert h.shares (Option.isSome_iff_exists.mpr ⟨d, hd⟩))
  simp only [receivePhase3SecretShare, returns_deref_bind, returns_equalGE_bind, hrest, WellFormed]
  constructor
  · rintro ⟨own, hown, key, hkey, msg, hm, cs, hcs, c, hc, k, rfl, x, hx, hY⟩
    exact ⟨own, key, hown, hkey, msg, cs, k, x, hm, hcs, hc, hx, hY⟩
  · rintro ⟨own, key, hown, hkey, msg, cs, k, x, hm, hcs, hc, hx, hY⟩
    exact ⟨own, hown, key, hkey, msg, hm, cs, hcs, some k, hc, k, rfl, x, hx, hY⟩

theorem returns_receivePhase4_iff (h : Sound lib n w) (hj : j < n) (hself : j ≠ w.selfNotaryID)
    (m : Option WireMessage1) :
    Returns (receivePhase4VerifyTotalPubKey lib n w m j) ↔ WellFormed lib n rg w j (.phase4 m) := by
  rw [receivePhase4VerifyTotalPubKey, returns_deref_bind]
  refine exists_congr fun msg => and_congr_right fun _ => ?_
  rw [returns_verified, lib.returns_verifyProof_iff, Option.not_isSome_iff_eq_none]
  refine and_congr_right fun _ => imp_congr_right fun _ => imp_congr_right fun _ =>
    returns_checkPhase4Done_iff h.self (forall_lookup_insert h.keys4 hj) fun hown => h.own4 ?_
  rwa [AList.lookup_insert_ne hself.symm] at hown

/-- Once what is stored is sound, a handler comes to an end on the well-formed messages and on no others. -/
theorem returns_receive_iff (h : Sound lib n w) (hN : n < lib.N) (hj : j < n) (hself : j ≠ w.selfNotaryID)
    (msg : WireMessage) :
    Returns (receive lib n rg w j msg) ↔ WellFormed lib n rg w j msg := by
  cases msg with
  | phase1 m => exact returns_receivePhase1_iff h m
  | phase2 m => exact returns_receivePhase2_iff m
  | phase3 m =>
    have hlt := h.self
    exact returns_receivePhase3_iff h (by rw [Nat.mod_eq_of_lt (by omega)]; omega) m
  | phase4 m => exact returns_receivePhase4_iff h hj hself m

end Handlers

/-! ### What a handler leaves -/

/-- The messages that are kept. -/
def maps (w : WireHandler) :=
  (w.pubKeysProof1, w.paillierKeysProof2, w.secretShareMessage3, w.lastPubkeyProof4)

/-- The handler with one more message kept. -/
def store (w : WireHandler) (j : ℕ) : WireMessage → WireHandler
  | .phase1 (some m) => { w with pubKeysProof1 := w.pubKeysProof1.insert j m }
  | .phase2 (some m) => { w with paillierKeysProof2 := w.paillierKeysProof2.insert j m }
  | .phase3 (some m) => { w with secretShareMessage3 := w.secretShareMessage3.insert j m }
  | .phase4 (some m) => { w with lastPubkeyProof4 := w.lastPubkeyProof4.insert j m }
  | _ => w

/-- What the check after a stored message may change: the signals, the public key and the share of the private key. -/
structure AfterCheck (w w' : WireHandler) : Prop where
  maps : w'.maps = w.maps
  ui : w'.ui = w.ui
  self : w'.selfNotaryID = w.selfNotaryID
  publicKey : w.publicKey.isSome → w'.publicKey.isSome
  done : 1 ∈ w'.doneChan → 1 ∈ w.doneChan ∨ w'.publicKey.isSome

section Leaves

variable {lib n rg} {w w' : WireHandler} {j : ℕ}

theorem AfterCheck.refl : AfterCheck w w := ⟨rfl, rfl, rfl, id, .inl⟩

theorem AfterCheck.notifyDone {k : ℕ} (hk : k = 1 → w.publicKey.isSome) : AfterCheck w (w.notifyDone k) := by
  rw [WireHandler.notifyDone]
  split
  · exact .refl
  · refine ⟨rfl, rfl, rfl, id, fun h => ?_⟩
    rcases List.mem_cons.mp h with h1 | hmem
    · exact .inr (hk h1.symm)
    · exact .inl hmem

theorem checkPhase1Done_checked (h : checkPhase1Done lib n rg w = .ok w') : AfterCheck w w' := by
  rw [checkPhase1Done] at h
  split at h
  · obtain ⟨own, -, h⟩ := bind_eq_ok.mp h
    obtain ⟨own, -, h⟩ := bind_eq_ok.mp h
    obtain ⟨key, -, h⟩ := bind_eq_ok.mp h
    have hset : AfterCheck { w with publicKey := some key } w' := Except.ok.inj h ▸ AfterCheck.notifyDone fun _ => rfl
    exact ⟨hset.maps, hset.ui, hset.self, fun _ => hset.publicKey rfl, fun _ => .inr (hset.publicKey rfl)⟩
  · exact Except.ok.inj h ▸ .refl

theorem checkPhase2Done_checked : AfterCheck w (checkPhase2Done n w) := by
  rw [checkPhase2Done]
  split
  · exact .notifyDone nofun
  · exact .refl

theorem checkPhase3Done_checked (h : checkPhase3Done lib n rg w = .ok w') : AfterCheck w w' := by
  rw [checkPhase3Done] at h
  split at h
  · obtain ⟨xi, -, h⟩ := bind_eq_ok.mp h
    have hset : AfterCheck { w with xi := some xi } w' := Except.ok.inj h ▸ AfterCheck.notifyDone nofun
    exact ⟨hset.maps, hset.ui, hset.self, hset.publicKey, hset.done⟩
  · exact Except.ok.inj h ▸ .refl

theorem checkPhase4Done_checked (h : checkPhase4Done lib n w = .ok w') : AfterCheck w w' := by
  rw [checkPhase4Done] at h
  split at h
  · obtain ⟨first, -, h⟩ := bind_eq_ok.mp h
    obtain ⟨start, -, h⟩ := bind_eq_ok.mp h
    obtain ⟨sum, -, h⟩ := bind_eq_ok.mp h
    obtain ⟨pk, -, h⟩ := bind_eq_ok.mp h
    exact Except.ok.inj h ▸ .notifyDone nofun
  · exact Except.ok.inj h ▸ .refl

/-- A handler that came to an end has refused the message, or has stored it and checked what it holds. -/
theorem verified_cases {x : Except String Bool} {a b : WireHandler} {c : Prop} [Decidable c]
    {y : Except String WireHandler} (h : (do
      if (← x) = false then return a
      if c then return b
      y) = .ok w') : w' = a ∨ w' = b ∨ y = .ok w' := by
  obtain ⟨v, -, h⟩ := bind_eq_ok.mp h
  cases v with
  | false => exact .inl (Except.ok.inj h).symm
  | true =>
    by_cases hc : c
    · simp only [Bool.true_eq_false, if_false, if_pos hc] at h
      exact .inr (.inl (Except.ok.inj h).symm)
    · simp only [Bool.true_eq_false, if_false, if_neg hc] at h
      exact .inr (.inr h)

/-- A stored share is there. -/
def Shared : WireMessage → Prop
  | .phase3 m => ∃ msg, m = some msg ∧ msg.secretShare.isSome
  | _ => True

/-- The receive handler ends in one of two ways. -/
theorem receive_cases {msg : WireMessage} (h : receive lib n rg w j msg = .ok w') :
    (∃ err, w' = w.notifyError err) ∨ Shared msg ∧ AfterCheck (w.store j msg) w' := by
  cases msg with
  | phase1 m =>
    obtain ⟨m, hm, h⟩ := bind_eq_ok.mp h
    rw [deref_eq_ok.mp hm]
    rcases verified_cases h with h | h | h
    · exact .inl ⟨_, h⟩
    · exact .inl ⟨_, h⟩
    · exact .inr ⟨trivial, checkPhase1Done_checked h⟩
  | phase2 m =>
    obtain ⟨m, hm, h⟩ := bind_eq_ok.mp h
    rw [deref_eq_ok.mp hm]
    rcases verified_cases h with h | h | h
    · exact .inl ⟨_, h⟩
    · exact .inl ⟨_, h⟩
    · exact .inr ⟨trivial, Except.ok.inj h ▸ checkPhase2Done_checked⟩
  | phase3 m =>
    obtain ⟨own, -, h⟩ := bind_eq_ok.mp h
    obtain ⟨key, -, h⟩ := bind_eq_ok.mp h
    obtain ⟨m, hm, h⟩ := bind_eq_ok.mp h
    obtain ⟨commitments, -, h⟩ := bind_eq_ok.mp h
    obtain ⟨c, -, h⟩ := bind_eq_ok.mp h
    obtain ⟨v, -, h⟩ := bind_eq_ok.mp h
    rw [deref_eq_ok.mp hm]
    cases v with
    | false => exact .inl ⟨_, (Except.ok.inj h).symm⟩
    | true =>
      simp only [Bool.true_eq_false, if_false] at h
      split at h
      · exact .inl ⟨_, (Except.ok.inj h).symm⟩
      · obtain ⟨v, hv, h⟩ := bind_eq_ok.mp h
        cases v with
        | false => exact .inl ⟨_, (Except.ok.inj h).symm⟩
        | true =>
          obtain ⟨d, hd, -⟩ := bind_eq_ok.mp hv
          exact .inr ⟨⟨m, rfl, Option.isSome_iff_exists.mpr ⟨d, deref_eq_ok.mp hd⟩⟩, checkPhase3Done_checked h⟩
  | phase4 m =>
    obtain ⟨m, hm, h⟩ := bind_eq_ok.mp h
    rw [deref_eq_ok.mp hm]
    rcases verified_cases h with h | h | h
    · exact .inl ⟨_, h⟩
    · exact .inl ⟨_, h⟩
    · exact .inr ⟨trivial, checkPhase4Done_checked h⟩

namespace Sound

theorem checked (h : Sound lib n w) (hc : AfterCheck w w') : Sound lib n w' := by
  have hmaps := hc.maps
  simp only [maps, Prod.mk.injEq] at hmaps
  obtain ⟨-, -, hshares, hkeys⟩ := hmaps
  refine ⟨hc.ui ▸ h.ui, hc.self ▸ h.self, hshares ▸ h.shares, hkeys ▸ h.keys4, fun hown => ?_⟩
  rw [hkeys, hc.self] at hown
  exact hc.publicKey (h.own4 hown)

theorem store (h : Sound lib n w) (hj : j < n) (hne : j ≠ w.selfNotaryID) {msg : WireMessage} (hs : Shared msg) :
    Sound lib n (w.store j msg) := by
  cases msg with
  | phase1 m =>
    cases m with
    | none => exact h
    | some m => exact ⟨h.ui, h.self, h.shares, h.keys4, h.own4⟩
  | phase2 m =>
    cases m with
    | none => exact h
    | some m => exact ⟨h.ui, h.self, h.shares, h.keys4, h.own4⟩
  | phase3 m =>
    cases m with
    | none => exact h
    | some m =>
      obtain ⟨_, hm, hshare⟩ := hs
      exact ⟨h.ui, h.self, forall_lookup_insert h.shares (Option.some.inj hm ▸ hshare), h.keys4, h.own4⟩
  | phase4 m =>
    cases m with
    | none => exact h
    | some m =>
      refine ⟨h.ui, h.self, h.shares, forall_lookup_insert h.keys4 hj, fun hown => h.own4 ?_⟩
      rwa [WireHandler.store, AList.lookup_insert_ne hne.symm] at hown

end Sound

end Leaves

end WireHandler

/-! ### Runs -/

/-- One notary of a key negotiation. -/
structure WireSession (lib : WireCurve) where
  n : ℕ
  rg : Range ℕ
  selfNotaryID : ℕ
  ui : SPrivKey
  n_lt : n < lib.N
  self_lt : selfNotaryID < n
  ui_range : 0 < ui ∧ ui < lib.N

/-- The handler while `waitPhaseDone` waits for the end of a phase. -/
structure WireNegotiation where
  handler : WireHandler
  phase : ℕ := 1

namespace WireSession

open WireHandler

variable {lib : WireCurve} (s : WireSession lib)

def start : WireNegotiation where
  handler := { selfNotaryID := s.selfNotaryID, ui := s.ui }

/-- What the notary adds itself when it comes to a phase, whatever its own message is. The third phase compares the
blind factors first and may end in an error. -/
def Generates : ℕ → WireHandler → WireHandler → Prop
  | 2, w, w' => ∃ m, w' = checkPhase2Done s.n
      { w with paillierKeysProof2 := w.paillierKeysProof2.insert w.selfNotaryID m }
  | 3, w, w' => (∃ err, w' = w.notifyError err) ∨ ∃ m : WireMessage3, m.secretShare.isSome ∧
      checkPhase3Done lib s.n s.rg { w with secretShareMessage3 := w.secretShareMessage3.insert w.selfNotaryID m } =
        .ok w'
  | 4, w, w' => ∃ m, checkPhase4Done lib s.n { w with
      lastPubkeyProof4 := w.lastPubkeyProof4.insert w.selfNotaryID m } = .ok w'
  | _, _, _ => False

/-- A peer sends what it likes and when it likes; a run ends where a handler panics. -/
inductive Step : WireNegotiation → WireNegotiation → Prop
  | receive {w : WireNegotiation} {w' : WireHandler} (j : ℕ) (msg : WireMessage) (hj : j < s.n)
      (hne : j ≠ s.selfNotaryID)
    (h : w.handler.receive lib s.n s.rg j msg = .ok w') : Step w { w with handler := w' }
  | readError {w : WireNegotiation} {err : String} {rest : List String} (h : w.handler.quitChan = err :: rest) :
    Step w { w with handler := { w.handler with quitChan := rest } }
  | next {w : WireNegotiation} {w' : WireHandler} (hdone : w.phase ∈ w.handler.doneChan)
    (h : s.Generates (w.phase + 1) { w.handler with doneChan := w.handler.doneChan.erase w.phase } w') :
    Step w { handler := w', phase := w.phase + 1 }

abbrev Run : WireNegotiation → Prop := Reachable (fun w => w = s.start) s.Step

/-- A handler accepts the message or reports an error, and then nothing else has changed. -/
def Handled (w : WireHandler) (j : ℕ) (msg : WireMessage) : Prop :=
  ∃ w', w.receive lib s.n s.rg j msg = .ok w' ∧ ((∃ err, w' = w.notifyError err) ∨ w'.maps = (w.store j msg).maps)

/-- What holds in every run: the public key is there once its phase is over. -/
structure Inv (w : WireNegotiation) : Prop where
  sound : Sound lib s.n w.handler
  self : w.handler.selfNotaryID = s.selfNotaryID
  phase : 1 ≤ w.phase
  done : 1 ∈ w.handler.doneChan → w.handler.publicKey.isSome
  later : 2 ≤ w.phase → w.handler.publicKey.isSome

section Run

variable {s} {w w' : WireNegotiation} {w₁ : WireHandler}

namespace Inv

theorem start : Inv s s.start where
  sound := {
    ui := s.ui_range
    self := s.self_lt
    shares := nofun
    keys4 := nofun
    own4 := nofun }
  self := rfl
  phase := le_rfl
  done := nofun
  later := nofun

theorem checked (h : Inv s w) (hc : AfterCheck w.handler w₁) : Inv s { w with handler := w₁ } where
  sound := h.sound.checked hc
  self := hc.self.trans h.self
  phase := h.phase
  done := fun hmem => (hc.done hmem).elim (fun hold => hc.publicKey (h.done hold)) id
  later := fun hp => hc.publicKey (h.later hp)

theorem store (h : Inv s w) {j : ℕ} {msg : WireMessage} (hj : j < s.n) (hne : j ≠ s.selfNotaryID) (hs : Shared msg) :
    Inv s { w with handler := w.handler.store j msg } := by
  have hsound := h.sound.store hj (h.self ▸ hne) hs
  rcases msg with m | m | m | m <;> cases m <;> exact ⟨hsound, h.self, h.phase, h.done, h.later⟩

theorem notifyError (h : Inv s w) (err : String) : Inv s { w with handler := w.handler.notifyError err } :=
  ⟨⟨h.sound.ui, h.sound.self, h.sound.shares, h.sound.keys4, h.sound.own4⟩, h.self, h.phase, h.done, h.later⟩

/-- The end of a phase was signalled, so from the second phase on there is a public key. -/
theorem next (h : Inv s w) (hdone : w.phase ∈ w.handler.doneChan) :
    Inv s { handler := { w.handler with doneChan := w.handler.doneChan.erase w.phase }, phase := w.phase + 1 } := by
  have hkey : w.handler.publicKey.isSome := by
    rcases Nat.lt_or_ge 1 w.phase with hlt | hle
    · exact h.later hlt
    · exact h.done (Nat.le_antisymm hle h.phase ▸ hdone)
  exact ⟨⟨h.sound.ui, h.sound.self, h.sound.shares, h.sound.keys4, h.sound.own4⟩, h.self, Nat.le_add_left _ _,
    fun _ => hkey, fun _ => hkey⟩

theorem generates (h : Inv s w) (hkey : w.handler.publicKey.isSome) (hg : s.Generates w.phase w.handler w₁) :
    Inv s { w with handler := w₁ } := by
  obtain ⟨w, k⟩ := w
  unfold Generates at hg
  split at hg
  · obtain ⟨m, rfl⟩ := hg
    have hset : Inv s ⟨{ w with paillierKeysProof2 := w.paillierKeysProof2.insert w.selfNotaryID m }, k⟩ :=
      ⟨⟨h.sound.ui, h.sound.self, h.sound.shares, h.sound.keys4, h.sound.own4⟩, h.self, h.phase, h.done, h.later⟩
    exact hset.checked checkPhase2Done_checked
  · rcases hg with ⟨err, rfl⟩ | ⟨m, hm, hcheck⟩
    · exact h.notifyError err
    · have hset : Inv s ⟨{ w with secretShareMessage3 := w.secretShareMessage3.insert w.selfNotaryID m }, k⟩ :=
        ⟨⟨h.sound.ui, h.sound.self, forall_lookup_insert h.sound.shares hm, h.sound.keys4, h.sound.own4⟩,
          h.self, h.phase,
          h.done, h.later⟩
      exact hset.checked (checkPhase3Done_checked hcheck)
  · obtain ⟨m, hcheck⟩ := hg
    have hset : Inv s ⟨{ w with lastPubkeyProof4 := w.lastPubkeyProof4.insert w.selfNotaryID m }, k⟩ :=
      ⟨⟨h.sound.ui, h.sound.self, h.sound.shares, forall_lookup_insert h.sound.keys4 h.sound.self, fun _ => hkey⟩,
        h.self, h.phase, h.done, h.later⟩
    exact hset.checked (checkPhase4Done_checked hcheck)
  · exact hg.elim

theorem step (h : Inv s w) (hn : s.Step w w') : Inv s w' := by
  cases hn with
  | receive j msg hj hne hrecv =>
    rcases receive_cases hrecv with ⟨err, rfl⟩ | ⟨hs, hc⟩
    · exact h.notifyError err
    · exact (h.store hj hne hs).checked hc
  | readError hquit =>
    exact ⟨⟨h.sound.ui, h.sound.self, h.sound.shares, h.sound.keys4, h.sound.own4⟩, h.self, h.phase, h.done, h.later⟩
  | next hdone hg =>
    have hnext := h.next hdone
    exact hnext.generates (hnext.later (Nat.succ_le_succ h.phase)) hg

theorem of_run (h : s.Run w) : Inv s w :=
  Reachable.invariant (fun _ h0 => h0 ▸ start) (fun _ _ _ hi hn => hi.step hn) h

end Inv

/-- In every state of every run a handler accepts a message or reports an error exactly when the message is
well formed for it. -/
theorem Run.handled_iff (h : s.Run w) {j : ℕ} (hj : j < s.n) (hne : j ≠ s.selfNotaryID) (msg : WireMessage) :
    s.Handled w.handler j msg ↔ w.handler.WellFormed lib s.n s.rg j msg := by
  have hinv := Inv.of_run h
  rw [← returns_receive_iff hinv.sound s.n_lt hj (hinv.self ▸ hne)]
  constructor
  · rintro ⟨w', hw', -⟩
    exact ⟨w', hw'⟩
  · rintro ⟨w', hw'⟩
    refine ⟨w', hw', ?_⟩
    rcases receive_cases hw' with herr | ⟨-, hc⟩
    · exact .inl herr
    · exact .inr hc.maps

end Run

/-- A group of order seven, with the points on a line. -/
def wire7 : WireCurve where
  N := 7
  two_le := by decide
  N_le := by norm_num
  G := (1, 0)
  mul P k := (P.1 * k % 7, 0)
  add P Q := some ((P.1 + Q.1) % 7, 0)

def session7 : WireSession wire7 where
  n := 3
  rg := .id ℕ
  selfNotaryID := 0
  ui := 3
  n_lt := by decide
  self_lt := by decide
  ui_range := by decide

/-- A proof of a key with the given number of sigmas. -/
def shownRoots (k : ℕ) : WireMessage :=
  .phase2 (some {
    paillierPubkey := some (some 35)
    com := some 1
    correctKeyProof := some (List.replicate k (some 1))
    blindFactor := some 1 })

def earlyShare : WireMessage :=
  .phase3 (some { vss := some [some { X := some 1, Y := some 0 }], secretShare := some 1 })

/-- Eleven roots are read to the end, though they are the wrong ones. -/
theorem handled_iff_session7 : session7.Handled session7.start.handler 1 (shownRoots 11) :=
  (Run.handled_iff (.init rfl) (by decide) (by decide) _).mpr
    ⟨_, rfl, ⟨35, rfl, by decide⟩, _, rfl, fun i hi => ⟨1, by rw [List.getElem?_replicate]; exact if_pos hi⟩⟩

/-- Every message of a peer is handled at every time. -/
def Total : Prop :=
  ∀ w, s.Run w → ∀ j, j < s.n → j ≠ s.selfNotaryID → ∀ msg, s.Handled w.handler j msg

/-- A message without a proof, a proof with ten roots and a share that comes before the key all stop the notary. -/
theorem not_total_session7 : ¬ session7.Total ∧
    ¬ session7.Handled session7.start.handler 1 (.phase1 (some { proof := none })) ∧
    ¬ session7.Handled session7.start.handler 1 (shownRoots 10) ∧
    ¬ session7.Handled session7.start.handler 1 earlyShare := by
  have hno : ¬ session7.Handled session7.start.handler 1 (.phase1 (some { proof := none })) :=
    fun ⟨_, h, _⟩ => nomatch h
  refine ⟨fun h => hno (h _ (.init rfl) 1 (by decide) (by decide) _), hno,
    fun ⟨w', h, _⟩ => ?_, fun ⟨_, h, _⟩ => nomatch h⟩
  have hread : WellFormed wire7 3 (.id ℕ) session7.start.handler 1 (shownRoots 10) :=
    (returns_receivePhase2_iff _).mp ⟨w', h⟩
  obtain ⟨_, hm, _, sigma, hsigma, hall⟩ := hread
  obtain ⟨v, hv⟩ := hall 10 (by decide)
  cases hm
  rw [← Option.some.inj hsigma] at hv
  cases hv

end WireSession

end DistributedNotary.Mecdsa
