import DistributedNotary.Mecdsa.EndToEnd

/-! The scalars one signer sees up to the end of phase 2. The message `MessageB`
carries the sender's `beta` next to the ciphertext of `alpha`, so a signer can add
the two halves of every product of its own `k` with another signer's key share:
what it sees determines all key shares and the group key. -/
namespace DistributedNotary.Mecdsa

open Library Share Feldman Proofs

/-- The scalars a signer chooses, receives and decrypts; the functions are maps from ids. -/
structure ScalarView where
  ki : SPrivKey
  gammaI : SPrivKey
  wi : SPrivKey
  alphaGamma : ℕ → Option SPrivKey
  alphaWI : ℕ → Option SPrivKey
  betaGamma : ℕ → Option SPrivKey
  betaWi : ℕ → Option SPrivKey

def DSMHandler.scalarView {C : Curve} (dh : DSMHandler C) : Except String ScalarView := do
  let k ← deref dh.signMessage.signedKey
  return {
    ki := k.ki, gammaI := k.gammaI, wi := k.wi
    alphaGamma := fun j => dh.signMessage.alphaGamma.lookup j
    alphaWI := fun j => dh.signMessage.alphaWI.lookup j
    betaGamma := fun j => (dh.signMessage.phase2MessageB.lookup j).map (·.messageBGamma.beta)
    betaWi := fun j => (dh.signMessage.phase2MessageB.lookup j).bind fun mb => mb.messageBWi.map (·.beta) }

namespace Session

variable {C : Curve} (s : Session C)

/-- What signer `i` sees up to the end of phase 2; in the group, so that every session has a view. -/
def view (i : ℕ) : Except String ScalarView := do
  let dh ← s.phase2InGroup i
  dh.scalarView

/-- The key share that `createSignKeys` computes at signer `j`. -/
def wi (j : ℕ) : Except String SPrivKey := do
  let dh ← s.start j
  let k ← deref dh.signMessage.signedKey
  return k.wi

/-- Another run with the same view of signer `i` has a different key share of signer `j` and a
different group key. -/
def Hides (i j : ℕ) : Prop :=
  ∃ s' : Session C, i ∈ s'.S ∧ j ∈ s'.S ∧ s'.view i = s.view i ∧ s'.wi j ≠ s.wi j ∧ s'.groupKey ≠ s.groupKey

variable {s} {i j : ℕ}

theorem wi_ok (hj : j ∈ s.S) : ∃ d, s.wi j = .ok d ∧ d < C.N ∧ (d : ZMod C.N) = s.w j := by
  obtain ⟨key, hk, hstart⟩ := start_ok hj
  exact ⟨key.wi, (bind_ok hstart _).trans (bind_ok (deref_some _) _), hk.wi_lt, hk.wi⟩

/-- The view pairs the two halves of every product with a key share. -/
theorem view_ok (hi : i ∈ s.S) : ∃ v, s.view i = .ok v ∧ v.ki = (s.coins i).kI ∧ (v.wi : ZMod C.N) = s.w i ∧
    (∀ j, (v.alphaWI j).isSome ↔ j ∈ s.others i) ∧
    ∀ j ∈ s.others i, ∃ a b, v.alphaWI j = some a ∧ v.betaWi j = some b ∧
      (a : ZMod C.N) + (b : ZMod C.N) = s.k i * s.w j := by
  obtain ⟨_, hrun, ⟨key, p1, ma, p2, aG, aW, hk, _, _, h2, hG, hW⟩⟩ := phase2InGroup_ok hi
  refine ⟨_, (bind_ok hrun _).trans (bind_ok (deref_some _) _), hk.ki, hk.wi, fun j => ⟨?_, ?_⟩, ?_⟩
  · intro h
    obtain ⟨a, ha⟩ := Option.isSome_iff_exists.mp h
    exact (hW.of_lookup ha).1
  · intro hj
    obtain ⟨a, ha, _⟩ := hW.values j hj
    exact Option.isSome_iff_exists.mpr ⟨a, ha⟩
  · intro j hj
    obtain ⟨a, ha, _, mb, mbw, hmb, hmbw, hsum⟩ := hW.values j hj
    refine ⟨a, mbw.beta, ha, ?_, hsum⟩
    change (p2.lookup j).bind (fun mb => mb.messageBWi.map (·.beta)) = some mbw.beta
    rw [hmb, Option.bind_some, hmbw, Option.map_some]

/-- Equal views have the same signers and the same residues of every key share. -/
theorem w_eq_of_view {s' : Session C} (hi : i ∈ s.S) (hi' : i ∈ s'.S) (h : s'.view i = s.view i) :
    s'.S.toFinset = s.S.toFinset ∧ ∀ j ∈ s.S, s'.w j = s.w j := by
  obtain ⟨v, hv, hki, hwi, hdom, hsum⟩ := view_ok hi
  obtain ⟨v', hv', hki', hwi', hdom', hsum'⟩ := view_ok hi'
  obtain rfl : v' = v := by
    rw [hv, hv'] at h
    exact Except.ok.inj h
  have hmem : ∀ j, j ∈ s'.others i ↔ j ∈ s.others i := fun j => (hdom' j).symm.trans (hdom j)
  refine ⟨?_, fun j hj => ?_⟩
  · ext j
    rw [List.mem_toFinset, List.mem_toFinset]
    rcases eq_or_ne j i with rfl | hne
    · exact ⟨fun _ => hi, fun _ => hi'⟩
    · have hm := hmem j
      rw [mem_others, mem_others] at hm
      exact ⟨fun hj => (hm.mp ⟨hne, hj⟩).2, fun hj => (hm.mpr ⟨hne, hj⟩).2⟩
  · rcases eq_or_ne j i with rfl | hne
    · rw [← hwi, ← hwi']
    · have hjo : j ∈ s.others i := mem_others.mpr ⟨hne, hj⟩
      obtain ⟨a, b, ha, hb, hab⟩ := hsum j hjo
      obtain ⟨a', b', ha', hb', hab'⟩ := hsum' j ((hmem j).mpr hjo)
      obtain rfl : a' = a := Option.some.inj (ha'.symm.trans ha)
      obtain rfl : b' = b := Option.some.inj (hb'.symm.trans hb)
      have hk : s'.k i = s.k i := by rw [k, k, ← hki, ← hki']
      -- the own `k` is invertible, so the sum of the two halves gives the key share
      have hmul : s.k i * s'.w j = s.k i * s.w j := by rw [← hab, ← hk, ← hab']
      exact mul_left_cancel₀ (RandomPrivateKey.cast_ne_zero _) hmul

theorem view_determines {s' : Session C} (hi : i ∈ s.S) (hi' : i ∈ s'.S) (h : s'.view i = s.view i) :
    s'.groupKey = s.groupKey ∧ ∀ j ∈ s.S, s'.wi j = s.wi j := by
  obtain ⟨hS, hw⟩ := w_eq_of_view hi hi' h
  refine ⟨?_, fun j hj => ?_⟩
  · refine eq_of_cast (modSum_lt (NeZero.pos C.N) _) (modSum_lt (NeZero.pos C.N) _) ?_
    have hsum : ∑ j ∈ s'.S.toFinset, s'.w j = ∑ j ∈ s.S.toFinset, s.w j := by
      rw [hS]
      exact Finset.sum_congr rfl fun j hj => hw j (List.mem_toFinset.mp hj)
    rwa [s'.sum_w, s.sum_w] at hsum
  · have hj' : j ∈ s'.S := by
      rw [← List.mem_toFinset, hS]
      exact List.mem_toFinset.mpr hj
    obtain ⟨d, hd, hlt, hd'⟩ := wi_ok hj
    obtain ⟨e, he, hlt', he'⟩ := wi_ok hj'
    rw [hd, he, eq_of_cast hlt' hlt (he'.trans ((hw j hj).trans hd'.symm))]

/-- No run hides the key share of any other signer from a signer, nor the group key: the view
determines both. -/
theorem view_reveals_keys (s : Session C) (i j : ℕ) (hi : i ∈ s.S) (hj : j ∈ s.S) :
    ¬ s.Hides i j ∧
      ∀ s' : Session C, i ∈ s'.S → s'.view i = s.view i → s'.wi j = s.wi j ∧ s'.groupKey = s.groupKey := by
  refine ⟨?_, fun s' hi' h => ?_⟩
  · rintro ⟨s', hi', _, h, _, hkey⟩
    exact hkey (view_determines hi hi' h).1
  · obtain ⟨hkey, hw⟩ := view_determines hi hi' h
    exact ⟨hw j hj, hkey⟩

theorem view_reveals_keys_session5 : (0 ∈ session5.S ∧ 1 ∈ session5.S) ∧ ¬ session5.Hides 0 1 :=
  ⟨by decide, (view_reveals_keys session5 0 1 (by decide) (by decide)).1⟩

/-- Two signers suffice for the loss. -/
theorem session5_not_hides : ¬ session5.Hides 0 1 := by
  rintro ⟨s', hi', _, h, _, hkey⟩
  exact hkey (view_determines (by decide) hi' h).1

end Session

end DistributedNotary.Mecdsa
