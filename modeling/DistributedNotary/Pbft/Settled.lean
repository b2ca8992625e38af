import DistributedNotary.Pbft.Handlers

/-! The stable checkpoint of a server. It is set and cleared at four places, one
of them inside a call of another, and the server looks for it whenever its timer
fires or a new view begins. Whatever messages a server handles, it has exactly
one stable checkpoint, which is its oldest and lies behind what it has executed. -/
namespace DistributedNotary.Pbft

open Library

variable {A : Type}

namespace Server

/-- Exactly one checkpoint is stable; it has the smallest number, which `apply` has reached, and the
bounds are as far apart as they should be. -/
def StableFirst (s : Server A) : Prop :=
  ∃ key cp, s.cps.lookup key = some cp ∧ cp.stable = true ∧
    (∀ key' cp', s.cps.lookup key' = some cp' → (cp'.stable = true → key' = key) ∧ cp.seq ≤ cp'.seq) ∧
    cp.seq ≤ s.apply ∧ s.H = s.h + 2 * checkpointDiv

/-- The checkpoint `cp` under `key` is the stable one. -/
structure SettledAt (s : Server A) (key : ℤ) (cp : CheckPoint) : Prop where
  here : s.cps.lookup key = some cp
  stable : cp.stable = true
  keys : ∀ k c, s.cps.lookup k = some c → c.seq = k
  votes : ∀ k c, s.cps.lookup k = some c → ∀ vote ∈ c.proof, vote.seq = k
  only : ∀ k c, s.cps.lookup k = some c → c.stable = true → k = key
  least : ∀ k c, s.cps.lookup k = some c → key ≤ k
  lower : -1 ≤ key
  passed : key ≤ s.apply
  bounds : s.H = s.h + 2 * checkpointDiv

def Settled (s : Server A) : Prop := ∃ key cp, s.SettledAt key cp

namespace SettledAt

variable {s s' : Server A} {key n : ℤ} {cp : CheckPoint}

theorem seq (h : s.SettledAt key cp) : cp.seq = key := h.keys key cp h.here

theorem stableFirst (h : s.SettledAt key cp) : s.StableFirst := by
  refine ⟨key, cp, h.here, h.stable, fun k c hc => ⟨h.only k c hc, ?_⟩, ?_, h.bounds⟩
  · rw [h.seq, h.keys k c hc]
    exact h.least k c hc
  · rw [h.seq]
    exact h.passed

/-- The checkpoints and the bounds stay, and nothing executed is forgotten. -/
theorem frame (h : s.SettledAt key cp) (hcps : s'.cps = s.cps) (happly : s.apply ≤ s'.apply) (hh : s'.h = s.h)
    (hH : s'.H = s.H) : s'.SettledAt key cp where
  here := hcps ▸ h.here
  stable := h.stable
  keys := hcps ▸ h.keys
  votes := hcps ▸ h.votes
  only := hcps ▸ h.only
  least := hcps ▸ h.least
  lower := h.lower
  passed := h.passed.trans happly
  bounds := by rw [hh, hH, h.bounds]

/-- A later checkpoint is not stable. -/
theorem slot_later (h : s.SettledAt key cp) (hn : key < n) :
    (s.slot n).stable = false ∧ ∀ vote ∈ (s.slot n).proof, vote.seq = n := by
  unfold slot
  cases hc : s.cps.lookup n with
  | none => simp
  | some c =>
    refine ⟨?_, h.votes n c hc⟩
    by_contra hs
    exact hn.ne' (h.only n c hc (by simpa using hs))

/-- A checkpoint other than the stable one is stored. -/
theorem setCheckPoint (h : s.SettledAt key cp) (hn : key < n) {c : CheckPoint} (hseq : c.seq = n)
    (hs : c.stable = false) (hvotes : ∀ vote ∈ c.proof, vote.seq = n) : (s.setCheckPoint n c).SettledAt key cp := by
  have hlookup : ∀ k, (s.setCheckPoint n c).cps.lookup k = if k = n then some c else s.cps.lookup k :=
    fun k => RangeMap.lookup_insert_eq ..
  refine ⟨?_, h.stable, ?_, ?_, ?_, ?_, h.lower, h.passed, h.bounds⟩
  · rw [hlookup, if_neg hn.ne, h.here]
  all_goals
    intro k c' hc'
    rw [hlookup] at hc'
    split at hc'
    · next hk =>
      subst hk
      obtain rfl := Option.some.inj hc'
      first
        | exact hseq
        | exact hvotes
        | exact hn.le
        | simp [hs]
    · first
        | exact h.keys k c' hc'
        | exact h.votes k c' hc'
        | exact h.only k c' hc'
        | exact h.least k c' hc'

/-- The stable checkpoint is stored with another digest. -/
theorem setDigest (h : s.SettledAt key cp) (digest : String) :
    (s.setCheckPoint key { cp with digest := digest }).SettledAt key { cp with digest := digest } := by
  have hlookup : ∀ k, (s.setCheckPoint key { cp with digest := digest }).cps.lookup k =
      if k = key then some { cp with digest := digest } else s.cps.lookup k := fun k => RangeMap.lookup_insert_eq ..
  refine ⟨by rw [hlookup, if_pos rfl], h.stable, ?_, ?_, ?_, ?_, h.lower, h.passed, h.bounds⟩
  all_goals
    intro k c' hc'
    rw [hlookup] at hc'
    split at hc'
    · next hk =>
      subst hk
      obtain rfl := Option.some.inj hc'
      first
        | exact h.seq
        | exact h.votes k cp h.here
        | exact le_rfl
        | exact fun _ => rfl
    · first
        | exact h.keys k c' hc'
        | exact h.votes k c' hc'
        | exact h.only k c' hc'
        | exact h.least k c' hc'

/-- A checkpoint that is not stable comes after the stable one. -/
theorem lt_of_not_stable (h : s.SettledAt key cp) {c : CheckPoint} (hc : s.cps.lookup n = some c)
    (hs : c.stable = false) : key < n := by
  refine lt_of_le_of_ne (h.least n c hc) ?_
  rintro rfl
  obtain rfl := Option.some.inj (hc.symm.trans h.here)
  exact absurd h.stable (by simp [hs])

/-- `getCheckPoint` computes the digest of a checkpoint again, or makes a new one after the stable one. -/
theorem touch (h : s.SettledAt key cp) (hslot : s.hasSlot n = true) (digest : String) :
    ∃ c, (s.setCheckPoint n { s.slot n with digest := digest }).SettledAt key c := by
  rcases eq_or_ne n key with rfl | hne
  · have hs : s.slot n = cp := by rw [slot, h.here, Option.getD_some]
    exact ⟨_, hs ▸ h.setDigest digest⟩
  · have hn : key < n := by
      refine lt_of_le_of_ne ?_ hne.symm
      cases hc : s.cps.lookup n with
      | some c => exact h.least n c hc
      | none =>
        by_contra hlt
        have hlater : s.hasLaterStable n = true :=
          List.any_eq_true.mpr ⟨(key, cp), RangeMap.mem_range.mpr h.here, by simpa [h.stable] using hlt⟩
        simp [hasSlot, hc, hlater] at hslot
    have hseq : (s.slot n).seq = n := by
      unfold slot
      cases hc : s.cps.lookup n with
      | none => rfl
      | some c => exact h.keys n c hc
    exact ⟨cp, h.setCheckPoint hn hseq (h.slot_later hn).1 (h.slot_later hn).2⟩

/-- A later checkpoint takes the place of the stable one, and everything older goes. -/
theorem settle (h : s.SettledAt key cp) (hn : key < n) {c : CheckPoint} {proof : CheckPointArgs} (hseq : c.seq = n)
    (hproof : proof.seq = n) (hvotes : ∀ vote ∈ c.proof, vote.seq = n) :
    (s.settle n c proof).SettledAt n { c with stable := true, digest := proof.digest } := by
  have hlookup : ∀ k c', (s.settle n c proof).cps.lookup k = some c' →
      (k = n ∧ c' = { c with stable := true, digest := proof.digest }) ∨
        (k ≠ n ∧ n ≤ k ∧ s.cps.lookup k = some c') := by
    intro k c' hc'
    obtain ⟨h1, h2⟩ := RangeMap.lookup_of_lookup_filter hc'
    rw [RangeMap.lookup_insert_eq] at h1
    split at h1
    · next hk => exact .inl ⟨hk, (Option.some.inj h1).symm⟩
    · next hk =>
      refine .inr ⟨hk, ?_, h1⟩
      rw [h.keys k c' h1, hseq] at h2
      simpa using h2
  refine ⟨?_, rfl, ?_, ?_, ?_, ?_, h.lower.trans hn.le, ?_, ?_⟩
  · change (removeOldCheckPoint c.seq (s.cps.insert n _)).lookup n = _
    rw [removeOldCheckPoint, RangeMap.lookup_filter, AList.lookup_insert]
    simp [Option.filter]
  · rintro k c' hc'
    rcases hlookup k c' hc' with ⟨rfl, rfl⟩ | ⟨-, -, hold⟩
    · exact hseq
    · exact h.keys k c' hold
  · rintro k c' hc'
    rcases hlookup k c' hc' with ⟨rfl, rfl⟩ | ⟨-, -, hold⟩
    · exact hvotes
    · exact h.votes k c' hold
  · rintro k c' hc' hstable
    rcases hlookup k c' hc' with ⟨rfl, rfl⟩ | ⟨-, hle, hold⟩
    · rfl
    · exact absurd (h.only k c' hold hstable) (hn.trans_le hle).ne'
  · rintro k c' hc'
    rcases hlookup k c' hc' with ⟨rfl, rfl⟩ | ⟨-, hle, -⟩
    · exact le_rfl
    · exact hle
  · change n ≤ if s.apply < proof.seq then c.seq else s.apply
    split_ifs <;> omega
  · change c.seq + 2 * checkpointDiv = c.seq + 2 * checkpointDiv
    rfl

/-- There always is a stable checkpoint to be found. -/
theorem exists_getStableCheckPoint (h : s.SettledAt key cp) (order : Range ℤ) :
    ∃ c, s.getStableCheckPoint order = some c := by
  refine Option.isSome_iff_exists.mp (List.find?_isSome.mpr ⟨cp, ?_, h.stable⟩)
  exact List.mem_map_of_mem (f := Prod.snd) (RangeMap.mem_range.mpr h.here)

/-- The stable checkpoint that is found is the one that there is. -/
theorem of_getStableCheckPoint (h : s.SettledAt key cp) {order : Range ℤ} {c : CheckPoint}
    (hc : s.getStableCheckPoint order = some c) : c = cp := by
  obtain ⟨⟨k, c'⟩, hmem, rfl⟩ := List.mem_map.mp (List.mem_of_find?_eq_some hc)
  have hk : s.cps.lookup k = some c' := RangeMap.mem_range.mp hmem
  obtain rfl := h.only k c' hk (getStableCheckPoint_stable hc)
  exact Option.some.inj (hk.symm.trans h.here)

/-- The stable checkpoint is the latest one that there is to reach. -/
theorem of_reaches (h : s.SettledAt key cp) (hn : s.Reaches n) : n ≤ key := by
  obtain ⟨key', cp', hc, hstable, hle⟩ := hn
  obtain rfl := h.only key' cp' hc hstable
  rwa [h.keys key' cp' hc] at hle

end SettledAt

theorem Settled.proof_seq {s : Server A} {n : ℤ} {c : CheckPoint} {proof : CheckPointArgs} (h : s.Settled)
    (hc : s.cps.lookup n = some c) (hq : quorumVote s.f [] c.proof = some proof) : proof.seq = c.seq := by
  obtain ⟨key, cp, h⟩ := h
  rw [h.keys n c hc]
  exact h.votes n c hc proof (quorumVote_spec hq).1

/-- A checkpoint becomes stable on the votes for it. -/
theorem SettledAt.stabilize {s : Server A} {key n : ℤ} {cp c : CheckPoint} {proof : CheckPointArgs}
    (h : s.SettledAt key cp) (hc : s.cps.lookup n = some c) (hs : c.stable = false)
    (hq : quorumVote s.f [] c.proof = some proof) :
    (s.settle n c proof).SettledAt n { c with stable := true, digest := proof.digest } :=
  h.settle (h.lt_of_not_stable hc hs) (h.keys n c hc) (h.votes n c hc proof (quorumVote_spec hq).1) (h.votes n c hc)

/-- The stable checkpoint moves forward, and the lower bound with it; only what it covers is dropped. -/
structure Forward (s s' : Server A) (key key' : ℤ) : Prop where
  le : key ≤ key'
  bound : key' = key ∧ s'.h = s.h ∨ s'.h = key'
  log : ∀ id r, key' ≤ id.n → s.log.lookup id = some r → s'.log.lookup id = some r

theorem Forward.stay {s s' : Server A} (key : ℤ) (hh : s'.h = s.h) (hlog : s'.log = s.log) : Forward s s' key key where
  le := le_rfl
  bound := .inl ⟨rfl, hh⟩
  log _ _ _ hr := hlog ▸ hr

theorem Forward.insert {s s' : Server A} (key : ℤ) {id : EntryID} {r : ℕ} (hh : s'.h = s.h)
    (hlog : s'.log = s.log.insert id r) (hnew : s.log.lookup id = none) : Forward s s' key key where
  le := le_rfl
  bound := .inl ⟨rfl, hh⟩
  log id' r' _ hr := by
    have hne : id' ≠ id := by
      rintro rfl
      exact Option.some_ne_none _ (hr.symm.trans hnew)
    rw [hlog, RangeMap.lookup_insert_eq, if_neg hne]
    exact hr

/-- Older entries are dropped, but none that the stable checkpoint does not cover. -/
theorem Forward.remove {s s' : Server A} {key key' n : ℤ} (hle : key ≤ key')
    (hbound : key' = key ∧ s'.h = s.h ∨ s'.h = key')
    (hn : n ≤ key') (hlog : s'.log = removeOldLog n s.log) : Forward s s' key key' where
  le := hle
  bound := hbound
  log id r hid hr := by
    rw [hlog, removeOldLog, RangeMap.lookup_filter, hr]
    simpa using hn.trans hid

theorem Forward.settle {s s' : Server A} {key n : ℤ} (hn : key < n) (hh : s'.h = n)
    (hlog : s'.log = removeOldLog n s.log) :
    Forward s s' key n := .remove hn.le (.inr hh) le_rfl hlog

theorem SettledAt.move {env : Env A} {K : Server A → Msg → Prop} {s s' : Server A} {key : ℤ} {cp : CheckPoint}
    (h : s.SettledAt key cp) (hm : Move env K s s') : ∃ key' cp', s'.SettledAt key' cp' ∧ Forward s s' key key' := by
  cases hm with
  | newEntry n hnew => exact ⟨key, cp, h.frame rfl le_rfl rfl rfl, .insert key rfl rfl hnew⟩
  | runTask queue m pp as hq hturn hpp has =>
    exact ⟨key, cp, h.frame rfl (Int.le_add_one le_rfl) rfl rfl, .stay key rfl rfl⟩
  | runTaskAndVote queue m pp as reply digest digest' hq hturn hpp has hreply hdiv hslot =>
    have hn : key < m.pri := by
      have := h.passed
      omega
    have hrun : ((s.runTask queue m pp as).send (.response reply)).SettledAt key cp :=
      h.frame rfl (Int.le_add_one le_rfl) rfl rfl
    have hvotes : ∀ vote ∈ (s.slot m.pri).proof ++
        [{ seq := m.pri, digest := digest, rid := s.id, view := s.view : CheckPointArgs }], vote.seq = m.pri := by
      intro vote hvote
      rcases List.mem_append.mp hvote with hvote | hvote
      · exact (h.slot_later hn).2 vote hvote
      · rw [List.mem_singleton.mp hvote]
    exact ⟨key, cp, (hrun.setCheckPoint hn rfl rfl hvotes).frame rfl le_rfl rfl rfl, .stay key rfl rfl⟩
  | touch n digest hdiv hslot =>
    obtain ⟨c, hc⟩ := h.touch hslot digest
    exact ⟨key, c, hc, .stay key rfl rfl⟩
  | vote c args hk hdiv hc hs =>
    have hn := h.lt_of_not_stable hc hs
    refine ⟨key, cp, h.setCheckPoint hn (h.keys _ c hc) hs fun vote hvote => ?_, .stay key rfl rfl⟩
    rcases List.mem_append.mp hvote with hvote | hvote
    · exact h.votes _ c hc vote hvote
    · rw [List.mem_singleton.mp hvote]
  | stabilize n c proof hdiv hc hs hq hv =>
    have hnote : (s.note (.stable proof c.proof)).SettledAt key cp := h.frame rfl le_rfl rfl rfl
    have hseq := h.keys n c hc
    exact ⟨n, _, hnote.stabilize hc hs hq, .settle (h.lt_of_not_stable hc hs) hseq
      (congrArg (removeOldLog · s.log) hseq)⟩
  | stabilizeAndResume n c proof hdiv hc hs hq hv =>
    have hresume : ((s.note (.stable proof c.proof)).resumeIn proof.view).SettledAt key cp :=
      h.frame rfl le_rfl rfl rfl
    have hseq := h.keys n c hc
    exact ⟨n, _, hresume.stabilize hc hs hq, .settle (h.lt_of_not_stable hc hs) hseq
      (congrArg (removeOldLog · s.log) hseq)⟩
  | catchUp nv scp cp2 mins maxs pps order henter hscp hlt hseq hcp2 =>
    obtain rfl := h.of_getStableCheckPoint hscp
    rw [h.seq] at hlt
    exact ⟨mins, _, h.settle hlt rfl rfl (fun vote hvote => nomatch hvote), .settle hlt rfl rfl⟩
  | enterView nv mins maxs pps henter hmins =>
    exact ⟨key, cp, h.frame rfl le_rfl rfl rfl, .remove le_rfl (.inl ⟨rfl, rfl⟩) (h.of_reaches hmins) rfl⟩
  | takeOne v mins maxs pps pp henter hnv hpp hview hnew =>
    exact ⟨key, cp, h.frame rfl le_rfl rfl rfl, .insert key rfl rfl hnew⟩
  | idle | service | relay | respond | propose | repropose | accept | sendBackground | addPrepare | sendCommit
  | addCommit | enqueue | answerTask | settled | startChange | sendViewChange | storeViewChange | sendNewView =>
    exact ⟨key, cp, h.frame rfl le_rfl rfl rfl, .stay key rfl rfl⟩

theorem Settled.move {env : Env A} {K : Server A → Msg → Prop} {s s' : Server A} (h : s.Settled)
    (hm : Move env K s s') : s'.Settled := by
  obtain ⟨key, cp, h⟩ := h
  obtain ⟨key', cp', h', -⟩ := h.move hm
  exact ⟨key', cp', h'⟩

theorem SettledAt.new (env : Env A) (rid : ℤ) (f : ℕ) {initSeq : ℤ} (nodes : List ℤ) (as : A) (h : 0 ≤ initSeq) :
    ∃ cp, (Server.new env rid f initSeq nodes as).SettledAt (-1) cp := by
  have hlookup : ∀ k c, (Server.new env rid f initSeq nodes as).cps.lookup k = some c →
      k = -1 ∧ c = { seq := -1, stable := true, digest := (invalidState env).digest } := by
    intro k c hc
    have hmem := AList.mem_lookup_iff.mp hc
    simp only [Server.new, AList.singleton_entries, List.mem_singleton, Sigma.mk.injEq, heq_eq_eq] at hmem
    exact hmem
  refine ⟨{ seq := -1, stable := true, digest := (invalidState env).digest }, rfl, rfl, ?_, ?_, ?_, ?_, le_rfl, ?_, rfl⟩
  · rintro k c hc
    obtain ⟨rfl, rfl⟩ := hlookup k c hc
    rfl
  · rintro k c hc vote hvote
    obtain ⟨rfl, rfl⟩ := hlookup k c hc
    exact absurd hvote List.not_mem_nil
  · exact fun k c hc _ => (hlookup k c hc).1
  · exact fun k c hc => (hlookup k c hc).1.ge
  · change -1 ≤ initSeq - 1
    omega

theorem Settled.new (env : Env A) (rid : ℤ) (f : ℕ) {initSeq : ℤ} (nodes : List ℤ) (as : A) (h : 0 ≤ initSeq) :
    (Server.new env rid f initSeq nodes as).Settled := ⟨-1, SettledAt.new env rid f nodes as h⟩

end Server

section Runs

variable {env : Env A} {ext : A → A → Prop} {allowed : Server A → Orders → Input → Prop} {rid initSeq : ℤ} {f : ℕ}
  {nodes : List ℤ} {as : A}

/-- Whatever messages a server has handled, and whenever its timer has fired, exactly one of its checkpoints is
stable, that is its oldest one, and its number was executed or skipped. -/
theorem stable_checkpoint (h0 : 0 ≤ initSeq) {l : List Input} {s : Server A}
    (h : Server.History env ext allowed (Server.new env rid f initSeq nodes as) l s) : s.StableFirst := by
  have hinv := h.invariant_of_moves Server.Settled (Server.WF.new ..) (Server.Settled.new env rid f nodes as h0)
    (fun _ _ _ hi hm => hi.move hm) fun s as ⟨key, cp, hi⟩ => ⟨key, cp, hi.frame rfl le_rfl rfl rfl⟩
  obtain ⟨key, cp, hs⟩ := hinv.2
  exact hs.stableFirst

end Runs

/-- The votes of replicas of view 0 for the checkpoint `seq`. -/
def votesFor (seq : ℤ) (digest : String) (l : List ℤ) : List Input :=
  l.map fun i => .message (.checkPoint { seq := seq, digest := digest, rid := i, view := 0 })

theorem stable_checkpoint_100 :
    ((Server.new Env.plain 1 1 100 [0, 1, 2, 3] ()).reacts Env.plain (votesFor 100 "d" [3, 2, 0])).StableFirst := by
  have h : Server.History Env.plain Eq (fun s _ a => s.offers a) (Server.new Env.plain 1 1 100 [0, 1, 2, 3] ())
      (votesFor 100 "d" [3, 2, 0]) _ :=
    Server.history_reacts _ _ (by decide +kernel)
  exact stable_checkpoint (by decide) h

end DistributedNotary.Pbft
