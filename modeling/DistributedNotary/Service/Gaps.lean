import DistributedNotary.Pbft.NewViews
import DistributedNotary.Service.Auxiliary

/-! The empty requests of a new view. The protocol fills every gap with a request
that has neither an operation nor a digest, and each notary asks its service
about it like about any other request. The service of a Bitcoin account refuses
every one of them, and that of an account with nonces all but those for one
number, as the key of an empty request depends on the view only. -/
namespace DistributedNotary.Service

open Library Pbft

/-- The request fills a gap. -/
def Null (pp : PrePrepareArgs) : Prop := pp.message.op = "" ∧ pp.digest = ""

/-- When the requests of the list are prepared one after the other, the service accepts those that are empty. -/
def NullsAccepted (as : PBFTAuxiliary AuxiliaryDB) (a : AuxiliaryDB) : List PrePrepareArgs → Prop
  | [] => True
  | pp :: pps =>
    (Null pp → (as.commitSeq a pp.view pp.seq pp.message.op pp.digest).2 = .ok ()) ∧
      NullsAccepted as (as.commitSeq a pp.view pp.seq pp.message.op pp.digest).1 pps

section Refusal

variable {A : Type} (env : Env A) {s : Server A}

/-- A refused request starts another view change. -/
theorem prepareEntry_refused {args : PrepareArgs} {r : ℕ} {pp : PrePrepareArgs} {as : A} {text : String}
    (hpp : (s.heap r).pp = some pp) (hdigest : pp.digest = args.digest) (hcommit : (s.heap r).sendCommit = false)
    (hprepared : s.prepared { s.heap r with p := (s.heap r).p ++ [args] } = true)
    (hrefused : env.as.commitSeq s.as s.view pp.seq pp.message.op pp.digest = (as, .error (.error text))) :
    ∃ s', s.prepareEntry env args r = .ok s' ∧ s'.armed = s.armed + 1 ∧ s'.trace = s.trace := by
  have hmatches : Server.matchesPP (s.heap r) args.digest = true := by simp [Server.matchesPP, hpp, hdigest]
  unfold Server.prepareEntry
  rw [if_pos hmatches]
  simp only [hpp]
  simp only [hpp] at hprepared
  rw [if_pos ⟨by simp [hcommit], hprepared⟩]
  unfold Server.sendCommit
  simp only [Server.setEntry, hrefused]
  exact ⟨_, rfl, rfl, rfl⟩

end Refusal

section Key

variable {ps : PBFTService} {a : AuxiliaryDB} {view nonce n : ℤ} {op key : String}

/-- The key of an operation in a view. -/
def PBFTService.opKey (ps : PBFTService) (op : String) (view : ℤ) : String := op ++ ps.chain ++ toString view

theorem opKey_inj {op' : String} (h : ps.opKey op view = ps.opKey op' view) : op = op' := by
  unfold PBFTService.opKey at h
  rw [String.append_left_inj, String.append_left_inj] at h
  exact h

theorem newNonceForOp_of_none (h : a.opNonces.lookup (ps.opKey op view) = none) :
    ps.newNonceForOp a view nonce op = ({ a with opNonces := a.opNonces.insert (ps.opKey op view) nonce }, .ok ()) := by
  unfold PBFTService.opKey at h
  simp only [PBFTService.newNonceForOp, PBFTService.opKey, h]

theorem newNonceForOp_of_some (h : a.opNonces.lookup (ps.opKey op view) = some n) :
    ps.newNonceForOp a view nonce op = (a, if n ≠ nonce then .error (.error "duplicate nonce") else .ok ()) := by
  unfold PBFTService.opKey at h
  simp only [PBFTService.newNonceForOp, h]

theorem newNonceForOp_ok_iff :
    (ps.newNonceForOp a view nonce op).2 = .ok () ↔ ∀ n, a.opNonces.lookup (ps.opKey op view) = some n → n = nonce := by
  cases hlookup : a.opNonces.lookup (ps.opKey op view) with
  | none => simp [newNonceForOp_of_none hlookup]
  | some n =>
    rw [newNonceForOp_of_some hlookup]
    by_cases hn : n = nonce <;> simp [hn]

/-- The table afterwards: only a free key of the operation is taken. -/
theorem lookup_newNonceForOp :
    (ps.newNonceForOp a view nonce op).1.opNonces.lookup key =
      if key = ps.opKey op view then some ((a.opNonces.lookup key).getD nonce) else a.opNonces.lookup key := by
  cases hlookup : a.opNonces.lookup (ps.opKey op view) with
  | none =>
    rw [newNonceForOp_of_none hlookup]
    split_ifs with hkey
    · rw [hkey, hlookup]
      exact AList.lookup_insert _
    · exact AList.lookup_insert_ne hkey
  | some n =>
    rw [newNonceForOp_of_some hlookup]
    by_cases hkey : key = ps.opKey op view
    · subst hkey
      simp [hlookup]
    · rw [if_neg hkey]

/-- A key that stands for a number does so for good. -/
theorem lookup_newNonceForOp_of_some (h : a.opNonces.lookup key = some n) :
    (ps.newNonceForOp a view nonce op).1.opNonces.lookup key = some n := by
  rw [lookup_newNonceForOp, h]
  simp

end Key

section Nonces

variable {ps : PBFTService} {a : AuxiliaryDB} {view n : ℤ} {l pps : List PrePrepareArgs} {k : PrePrepareArgs}

/-- The key of the empty requests stands for their number, or is free and wanted for no other one. -/
def NullsFit (ps : PBFTService) (a : AuxiliaryDB) (view : ℤ) (pps : List PrePrepareArgs) : Prop :=
  ∀ k ∈ pps, Null k → a.opNonces.lookup (ps.opKey "" view) = some k.seq ∨
    (a.opNonces.lookup (ps.opKey "" view) = none ∧ ∀ m ∈ pps, m.message.op = "" → m.seq = k.seq)

theorem NullsFit.commit (h : NullsFit ps a view pps) (hk : k ∈ pps) :
    NullsFit ps (ps.newNonceForOp a view k.seq k.message.op).1 view pps := by
  intro k' hk' hnull
  rcases h k' hk' hnull with hsome | ⟨hnone, hall⟩
  · exact .inl (lookup_newNonceForOp_of_some hsome)
  · rw [lookup_newNonceForOp, hnone]
    by_cases hop : k.message.op = ""
    · refine .inl ?_
      rw [hop, if_pos rfl, Option.getD_none, hall k hk hop]
    · refine .inr ⟨if_neg fun hkey => hop (opKey_inj hkey).symm, hall⟩

theorem NullsFit.accepted (h : NullsFit ps a view pps) (hl : ∀ k ∈ l, k ∈ pps ∧ k.view = view) :
    NullsAccepted ps.ethereum a l := by
  induction l generalizing a with
  | nil => trivial
  | cons k l ih =>
    obtain ⟨hk, rfl⟩ := hl k (List.mem_cons_self ..)
    refine ⟨fun hnull => ?_, ih (h.commit hk) fun k' hk' => hl k' (List.mem_cons_of_mem _ hk')⟩
    refine newNonceForOp_ok_iff.mpr fun n hn => ?_
    rw [hnull.1] at hn
    rcases h k hk hnull with hsome | ⟨hnone, -⟩
    · exact Option.some.inj (hn.symm.trans hsome)
    · rw [hnone] at hn
      cases hn

/-- Once the key is taken only empty requests for its number are accepted. -/
theorem NullsAccepted.seq_eq (h : NullsAccepted ps.ethereum a l) (hsome : a.opNonces.lookup (ps.opKey "" view) = some n)
    (hk : k ∈ l) (hview : k.view = view) (hnull : Null k) : n = k.seq := by
  induction l generalizing a with
  | nil => cases hk
  | cons k' l ih =>
    rcases List.mem_cons.mp hk with rfl | hk
    · refine newNonceForOp_ok_iff.mp (h.1 hnull) n ?_
      rw [hview, hnull.1]
      exact hsome
    · exact ih h.2 (lookup_newNonceForOp_of_some hsome) hk

theorem nullsFit_iff (hview : ∀ k ∈ pps, k.view = view) :
    (∀ l : List PrePrepareArgs, l.Perm pps → NullsAccepted ps.ethereum a l) ↔ NullsFit ps a view pps := by
  constructor
  · intro h k hk hnull
    cases hlookup : a.opNonces.lookup (ps.opKey "" view) with
    | some n =>
      refine .inl (congrArg some ?_)
      exact (h pps (.refl _)).seq_eq hlookup hk (hview k hk) hnull
    | none =>
      refine .inr ⟨rfl, fun m hm hop => ?_⟩
      by_cases heq : k = m
      · rw [heq]
      · -- The request `m` gets the key first.
        have hfirst := (h (m :: pps.erase m) (List.perm_cons_erase hm).symm).2
        have hkey : ((ps.ethereum.commitSeq a m.view m.seq m.message.op m.digest).1).opNonces.lookup
            (ps.opKey "" view) = some m.seq := by
          refine lookup_newNonceForOp.trans ?_
          rw [hop, hview m hm, if_pos rfl, hlookup, Option.getD_none]
        exact hfirst.seq_eq hkey ((List.mem_erase_of_ne heq).mpr hk) (hview k hk) hnull
  · intro h l hl
    exact h.accepted fun k hk => ⟨hl.subset hk, hview k (hl.subset hk)⟩

end Nonces

section Outputs

variable {ps : PBFTService} {asc : Btc.AmountAsc} {desc : Btc.AmountDesc} {a : AuxiliaryDB}
    {l pps : List PrePrepareArgs}

theorem NullsAccepted.not_null (h : NullsAccepted (ps.bitcoin asc desc) a l) : ∀ k ∈ l, ¬ Null k := by
  induction l generalizing a with
  | nil => simp
  | cons k l ih =>
    refine List.forall_mem_cons.mpr ⟨fun hnull => ?_, ih h.2⟩
    have hok := h.1 hnull
    simp [PBFTService.bitcoin, PBFTService.btcCommitSeq, hnull.2] at hok

theorem nullsAccepted_of_not_null {as : PBFTAuxiliary AuxiliaryDB} (h : ∀ k ∈ l, ¬ Null k) : NullsAccepted as a l := by
  induction l generalizing a with
  | nil => trivial
  | cons k l ih =>
    obtain ⟨hk, hl⟩ := List.forall_mem_cons.mp h
    exact ⟨fun hnull => absurd hnull hk, ih hl⟩

theorem not_null_iff :
    (∀ l : List PrePrepareArgs, l.Perm pps → NullsAccepted (ps.bitcoin asc desc) a l) ↔ ∀ k ∈ pps, ¬ Null k := by
  refine ⟨fun h => (h pps (.refl _)).not_null, fun h l hl => ?_⟩
  exact nullsAccepted_of_not_null fun k hk => h k (hl.subset hk)

end Outputs

section Gaps

/-- The new view has a request without operation for the number: nobody has prepared the number, or what comes last
for it has none. -/
def EmptyAt (v : List ViewChangeArgs) (n : ℤ) : Prop :=
  Fills v n ∧ ∀ pp, lastPP v n = some pp → pp.message.op = ""

/-- The new view has an empty request for the number. -/
def NullAt (v : List ViewChangeArgs) (n : ℤ) : Prop := Fills v n ∧ ∀ pp, lastPP v n = some pp → Null pp

variable {v : List ViewChangeArgs} {mins maxs view : ℤ} {pprepared : RangeMap ℤ PrePrepareArgs}

/-- What the new view has for a number comes from what was prepared last for it. -/
theorem exists_mem_calcPPS_iff (hcalc : Server.calcMinMaxspp v = some (mins, maxs, pprepared))
    {Q : String → String → Prop}
    (hQ : Q "" "") (n : ℤ) :
    (∃ pp ∈ Server.calcPPS view mins maxs pprepared, pp.seq = n ∧ Q pp.message.op pp.digest) ↔
      Fills v n ∧ ∀ pp, lastPP v n = some pp → Q pp.message.op pp.digest := by
  constructor
  · rintro ⟨pp, hpp, rfl, hq⟩
    obtain ⟨hfills, heq⟩ := (mem_calcPPS_iff_fills hcalc).mp hpp
    refine ⟨hfills, fun pp' hpp' => ?_⟩
    rw [hpp'] at heq
    rw [heq] at hq
    exact hq
  · rintro ⟨hfills, hq⟩
    refine ⟨renumber view n (lastPP v n), ?_, ?_, ?_⟩
    · refine (mem_calcPPS_iff_fills hcalc).mpr ?_
      rw [renumber_seq]
      exact ⟨hfills, rfl⟩
    · exact renumber_seq view n _
    · cases hlast : lastPP v n with
      | none => exact hQ
      | some pp => exact hq pp hlast

/-- In whatever order the requests of a new view are prepared, all empty ones are accepted for an account with nonces
exactly when the key of the view stands for their number, or is free and there is no second number without operation,
and for a Bitcoin account exactly when there is none. -/
theorem nulls_accepted_iff (hcalc : Server.calcMinMaxspp v = some (mins, maxs, pprepared)) (ps : PBFTService)
    (asc : Btc.AmountAsc) (desc : Btc.AmountDesc) (a : AuxiliaryDB) (view : ℤ) :
    ((∀ l : List PrePrepareArgs, l.Perm (Server.calcPPS view mins maxs pprepared) → NullsAccepted ps.ethereum a l) ↔
      ∀ n, NullAt v n → a.opNonces.lookup (ps.opKey "" view) = some n ∨
        (a.opNonces.lookup (ps.opKey "" view) = none ∧ ∀ m, EmptyAt v m → m = n)) ∧
    ((∀ l : List PrePrepareArgs, l.Perm (Server.calcPPS view mins maxs pprepared) →
        NullsAccepted (ps.bitcoin asc desc) a l) ↔ ∀ n, ¬ NullAt v n) := by
  have hnull : ∀ n, (∃ pp ∈ Server.calcPPS view mins maxs pprepared, pp.seq = n ∧ Null pp) ↔ NullAt v n := fun n =>
    exists_mem_calcPPS_iff (Q := fun op digest => op = "" ∧ digest = "") hcalc ⟨rfl, rfl⟩ n
  have hempty : ∀ n, (∃ pp ∈ Server.calcPPS view mins maxs pprepared, pp.seq = n ∧ pp.message.op = "") ↔ EmptyAt v n :=
    fun n => exists_mem_calcPPS_iff (Q := fun op _ => op = "") hcalc rfl n
  constructor
  · rw [nullsFit_iff fun k hk => (Server.of_mem_calcPPS hk).1]
    constructor
    · intro h n hn
      obtain ⟨k, hk, rfl, hknull⟩ := (hnull n).mpr hn
      refine (h k hk hknull).imp_right fun ⟨hnone, hall⟩ => ⟨hnone, fun m hm => ?_⟩
      obtain ⟨k', hk', rfl, hop⟩ := (hempty m).mpr hm
      exact hall k' hk' hop
    · intro h k hk hknull
      refine (h k.seq ((hnull k.seq).mp ⟨k, hk, rfl, hknull⟩)).imp_right fun ⟨hnone, hall⟩ =>
        ⟨hnone, fun m hm hop => ?_⟩
      exact hall m.seq ((hempty m.seq).mp ⟨m, hm, rfl, hop⟩)
  · rw [not_null_iff]
    constructor
    · intro h n hn
      obtain ⟨k, hk, -, hknull⟩ := (hnull n).mpr hn
      exact h k hk hknull
    · intro h k hk hknull
      exact h k.seq ((hnull k.seq).mp ⟨k, hk, rfl, hknull⟩)

/-- The view changes of three notaries, of which all have prepared number `n` only. -/
def changesAt (n : ℤ) : List ViewChangeArgs :=
  [1, 2, 3].map (plainChange 1 [{ pp := some (plainPP 0 n "b"), p := [] }])

theorem nulls_accepted_iff_gap : ∃ mins maxs pprepared,
    Server.calcMinMaxspp (changesAt 1) = some (mins, maxs, pprepared) ∧
      ((∀ l : List PrePrepareArgs, l.Perm (Server.calcPPS 1 mins maxs pprepared) →
          NullsAccepted service1.ethereum {} l) ↔
        ∀ n, NullAt (changesAt 1) n → AList.lookup (service1.opKey "" 1) (∅ : RangeMap String ℤ) = some n ∨
          (AList.lookup (service1.opKey "" 1) (∅ : RangeMap String ℤ) = none ∧ ∀ m, EmptyAt (changesAt 1) m → m = n)) :=
  ⟨_, _, _, rfl, (nulls_accepted_iff rfl service1 .stable .stable {} 1).1⟩

/-- With number 2 prepared there are two gaps, of which no service accepts both. -/
theorem nulls_refused : ∃ mins maxs pprepared,
    Server.calcMinMaxspp (changesAt 2) = some (mins, maxs, pprepared) ∧
      ¬ (∀ l : List PrePrepareArgs, l.Perm (Server.calcPPS 1 mins maxs pprepared) →
        NullsAccepted service1.ethereum {} l) ∧
      ¬ ∀ l : List PrePrepareArgs, l.Perm (Server.calcPPS 1 mins maxs pprepared) →
        NullsAccepted (service1.bitcoin .stable .stable) {} l := by
  refine ⟨_, _, _, rfl, fun h => ?_, fun h => ?_⟩
  · have hsecond := (h _ (.refl _)).2.1 ⟨rfl, rfl⟩
    exact absurd hsecond (by decide +kernel)
  · have hfirst := (h _ (.refl _)).1 ⟨rfl, rfl⟩
    exact absurd hfirst (by decide +kernel)

end Gaps

end DistributedNotary.Service
