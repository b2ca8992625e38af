import DistributedNotary.Pbft.Delivery
import DistributedNotary.Pbft.Panics

/-! What a new view starts with. Its preprepare messages follow from its view
changes: there is one for each number above all checkpoints, up to the last
number that a replica has prepared. A follower computes them again and compares
them with those of the leader, one place after the other, but it does not look at
the operations, nor at what is left over, and it does not expect that a part of
a message is missing. -/
namespace DistributedNotary.Pbft

open Library Server

variable {A : Type}

section Recomputed

/-- The preprepare messages in the view changes. -/
def preprepared (v : List ViewChangeArgs) : List PrePrepareArgs := (v.flatMap ViewChangeArgs.p).filterMap Pm.pp

/-- The last of them for a number. -/
def lastPP (v : List ViewChangeArgs) (n : ℤ) : Option PrePrepareArgs :=
  (preprepared v).reverse.find? fun pp => pp.seq = n

/-- The new view has a message for the number. -/
def Fills (v : List ViewChangeArgs) (n : ℤ) : Prop :=
  0 ≤ n ∧ (∀ vc ∈ v, ∀ cp, vc.cp = some cp → cp.seq < n) ∧ ∃ pp ∈ preprepared v, n ≤ pp.seq

/-- A preprepare message as the new view has it, an empty one where there is none. -/
def renumber (view n : ℤ) : Option PrePrepareArgs → PrePrepareArgs
  | some pp => { view := view, seq := n, digest := pp.digest, message := pp.message }
  | none => { view := view, seq := n, digest := "" }

@[simp] theorem renumber_seq (view n : ℤ) (pp : Option PrePrepareArgs) : (renumber view n pp).seq = n := by
  cases pp <;> rfl

theorem foldl_max_lt_iff (l : List ℤ) (a n : ℤ) : l.foldl max a < n ↔ a < n ∧ ∀ b ∈ l, b < n := by
  induction l generalizing a with
  | nil => simp
  | cons b l ih => simp [ih, and_assoc]

theorem calcPPS_eq (view mins maxs : ℤ) (pprepared : RangeMap ℤ PrePrepareArgs) :
    calcPPS view mins maxs pprepared = (List.range (maxs - mins).toNat).map fun j : ℕ =>
      renumber view (mins + 1 + (j : ℤ)) (pprepared.lookup (mins + 1 + (j : ℤ))) := by
  unfold calcPPS
  refine List.map_congr_left fun j _ => ?_
  simp only []
  cases pprepared.lookup (mins + 1 + (j : ℤ)) <;> rfl

theorem mem_calcPPS_iff {view mins maxs : ℤ} {pprepared : RangeMap ℤ PrePrepareArgs} {pp : PrePrepareArgs} :
    pp ∈ calcPPS view mins maxs pprepared ↔
      (mins < pp.seq ∧ pp.seq ≤ maxs) ∧ pp = renumber view pp.seq (pprepared.lookup pp.seq) := by
  rw [calcPPS_eq, List.mem_map]
  constructor
  · rintro ⟨j, hj, rfl⟩
    rw [List.mem_range] at hj
    rw [renumber_seq]
    exact ⟨by omega, rfl⟩
  · rintro ⟨hrange, hpp⟩
    refine ⟨(pp.seq - mins - 1).toNat, List.mem_range.mpr (by omega), ?_⟩
    have hn : mins + 1 + ((pp.seq - mins - 1).toNat : ℤ) = pp.seq := by omega
    rw [hn]
    exact hpp.symm

/-- The messages of a new view, by its view changes. -/
theorem mem_calcPPS_iff_fills {v : List ViewChangeArgs} {mins maxs : ℤ} {pprepared : RangeMap ℤ PrePrepareArgs}
    (hcalc : calcMinMaxspp v = some (mins, maxs, pprepared)) {view : ℤ} {pp : PrePrepareArgs} :
    pp ∈ calcPPS view mins maxs pprepared ↔ Fills v pp.seq ∧ pp = renumber view pp.seq (lastPP v pp.seq) := by
  unfold calcMinMaxspp at hcalc
  obtain ⟨cps, hcps, hcalc⟩ := Option.bind_eq_some_iff.mp hcalc
  obtain ⟨pps, hpps, hcalc⟩ := Option.bind_eq_some_iff.mp hcalc
  simp only [Option.pure_def, Option.some.injEq, Prod.mk.injEq] at hcalc
  obtain ⟨rfl, rfl, rfl⟩ := hcalc
  obtain ⟨hcps, -⟩ := filterMap_of_mapM_eq_some hcps
  obtain ⟨rfl, -⟩ := filterMap_of_mapM_eq_some hpps
  have hlower : (cps.map CheckPointArgs.seq).foldl max (-1) < pp.seq ↔
      0 ≤ pp.seq ∧ ∀ vc ∈ v, ∀ cp, vc.cp = some cp → cp.seq < pp.seq := by
    rw [foldl_max_lt_iff, ← hcps]
    refine and_congr (by omega) ⟨fun h vc hvc cp hcp => ?_, fun h n hn => ?_⟩
    · exact h cp.seq (List.mem_map_of_mem (List.mem_filterMap.mpr ⟨vc, hvc, hcp⟩))
    · obtain ⟨cp, hcp, rfl⟩ := List.mem_map.mp hn
      obtain ⟨vc, hvc, hcp⟩ := List.mem_filterMap.mp hcp
      exact h vc hvc cp hcp
  have hupper : ((preprepared v).map PrePrepareArgs.seq).foldl max (-1) < pp.seq ↔
      0 ≤ pp.seq ∧ ∀ pp' ∈ preprepared v, pp'.seq < pp.seq := by
    rw [foldl_max_lt_iff]
    refine and_congr (by omega) ?_
    simp
  have hfills : ((cps.map CheckPointArgs.seq).foldl max (-1) < pp.seq ∧
      pp.seq ≤ max (((preprepared v).map PrePrepareArgs.seq).foldl max (-1))
        ((cps.map CheckPointArgs.seq).foldl max (-1))) ↔ Fills v pp.seq := by
    constructor
    · rintro ⟨hlo, hhi⟩
      obtain ⟨h0, hcp⟩ := hlower.mp hlo
      refine ⟨h0, hcp, ?_⟩
      by_contra hno
      push Not at hno
      have hlt := hupper.mpr ⟨h0, hno⟩
      omega
    · rintro ⟨h0, hcp, pp', hpp', hle⟩
      have hlo := hlower.mpr ⟨h0, hcp⟩
      refine ⟨hlo, ?_⟩
      by_contra hlt
      have hlt' := (hupper.mp (by omega)).2 pp' hpp'
      omega
  rw [mem_calcPPS_iff, RangeMap.lookup_foldl_insert]
  refine and_congr hfills ?_
  rw [AList.lookup_empty, Option.or_none]
  rfl

/-- The messages of a new view can be computed exactly where no part of its view changes is missing. -/
theorem calcMinMaxspp_eq_none_iff {v : List ViewChangeArgs} : calcMinMaxspp v = none ↔ ∃ vc ∈ v, ¬ vc.Whole := by
  constructor
  · intro hnone
    by_contra hwhole
    push Not at hwhole
    exact minsOf_isSome hwhole (by simp [minsOf, hnone])
  · rintro ⟨vc, hvc, hwhole⟩
    by_contra hsome
    obtain ⟨r, hr⟩ := Option.ne_none_iff_exists'.mp hsome
    unfold calcMinMaxspp at hr
    obtain ⟨cps, hcps, hr⟩ := Option.bind_eq_some_iff.mp hr
    obtain ⟨pps, hpps, -⟩ := Option.bind_eq_some_iff.mp hr
    refine hwhole ⟨(filterMap_of_mapM_eq_some hcps).2 vc hvc, fun pm hpm => ?_⟩
    exact (filterMap_of_mapM_eq_some hpps).2 pm (List.mem_flatMap.mpr ⟨vc, hvc, hpm⟩)

theorem exists_calcMinMaxspp {v : List ViewChangeArgs} (h : ∀ vc ∈ v, vc.Whole) : ∃ r, calcMinMaxspp v = some r := by
  refine Option.ne_none_iff_exists'.mp fun hnone => ?_
  obtain ⟨vc, hvc, hpart⟩ := calcMinMaxspp_eq_none_iff.mp hnone
  exact hpart (h vc hvc)

end Recomputed

section Rounds

/-- The largest `int`, after which a counter goes on with the smallest one. -/
def maxInt : ℤ := 2^63 - 1

/-- The loop of `calcPPS` from `i` on, with its counter in an `int` and for at most `fuel` rounds; none while it
goes on. -/
def calcPPSFrom (view maxs : ℤ) (pprepared : RangeMap ℤ PrePrepareArgs) : ℕ → ℤ → Option (List PrePrepareArgs)
  | 0, _ => none
  | fuel + 1, i =>
    if i ≤ maxs then
      (calcPPSFrom view maxs pprepared fuel ((i+1).bmod (2^64))).map (renumber view i (pprepared.lookup i) :: ·)
    else some []

def calcPPSWithin (fuel : ℕ) (view mins maxs : ℤ) (pprepared : RangeMap ℤ PrePrepareArgs) :
    Option (List PrePrepareArgs) := calcPPSFrom view maxs pprepared fuel ((mins+1).bmod (2^64))

/-- `ViewChange` with that loop. -/
def Server.viewChangeWithin (fuel : ℕ) (env : Env A) (s : Server A) (order : Range ℤ) (args : ViewChangeArgs) :
    Option (Run A (Server A)) :=
  if args.view ≤ s.view then some (.ok s)
  else
    let v := (s.vcs.lookup args.view).getD [] ++ [args]
    let s := { s with vcs := s.vcs.insert args.view v }
    if args.view.tmod s.replicas.length = s.id ∧ 2 * s.f + 1 ≤ v.length then
      match calcMinMaxspp v with
      | none => some (.error s)
      | some (mins, maxs, pprepared) =>
        (calcPPSWithin fuel args.view mins maxs pprepared).map fun pps =>
          let nvArgs : NewViewArgs := { view := args.view, v := v, o := pps }
          (s.send (.newView nvArgs)).enteringNewView env order nvArgs mins maxs pps
    else some (.ok s)

/-- `NewView` with that loop. -/
def Server.newViewWithin (fuel : ℕ) (env : Env A) (s : Server A) (order : Range ℤ) (args : NewViewArgs) :
    Option (Run A (Server A)) :=
  if args.view ≤ s.view then some (.ok s)
  else
    let vcs := ((args.v.filter fun vc => vc.view = args.view).map ViewChangeArgs.rid).dedup
    if vcs.length ≤ 2 * s.f then some (.ok s)
    else
      match calcMinMaxspp args.v with
      | none => some (.error s)
      | some (mins, maxs, pprepared) =>
        (calcPPSWithin fuel args.view mins maxs pprepared).map fun pps =>
          match sameO pps args.o with
          | none => .error s
          | some false => .ok s
          | some true => s.enteringNewView env order args mins maxs pps

/-- No checkpoint and no preprepare message has the largest number. -/
structure Bounded (v : List ViewChangeArgs) : Prop where
  cp : ∀ vc ∈ v, ∀ cp, vc.cp = some cp → cp.seq < maxInt
  pp : ∀ pp ∈ preprepared v, pp.seq < maxInt

variable {view mins maxs i : ℤ} {pprepared : RangeMap ℤ PrePrepareArgs}

/-- The numbers of a new view are bounded when its view changes are. -/
theorem calcMinMaxspp_lt_iff {v : List ViewChangeArgs} (hcalc : calcMinMaxspp v = some (mins, maxs, pprepared)) :
    -1 ≤ mins ∧ mins ≤ maxs ∧ (maxs < maxInt ↔ Bounded v) := by
  unfold calcMinMaxspp at hcalc
  obtain ⟨cps, hcps, hcalc⟩ := Option.bind_eq_some_iff.mp hcalc
  obtain ⟨pps, hpps, hcalc⟩ := Option.bind_eq_some_iff.mp hcalc
  simp only [Option.pure_def, Option.some.injEq, Prod.mk.injEq] at hcalc
  obtain ⟨rfl, rfl, -⟩ := hcalc
  obtain ⟨hcps, -⟩ := filterMap_of_mapM_eq_some hcps
  obtain ⟨hpps, -⟩ := filterMap_of_mapM_eq_some hpps
  have hlower := foldl_max_lt_iff (cps.map CheckPointArgs.seq) (-1) (-1)
  have hone : (-1 : ℤ) < maxInt := by decide
  refine ⟨by simp at hlower; omega, le_max_right _ _, ?_⟩
  rw [max_lt_iff, foldl_max_lt_iff, foldl_max_lt_iff, and_iff_right hone, and_iff_right hone]
  constructor
  · rintro ⟨hpp, hcp⟩
    refine ⟨fun vc hvc cp hcp' => ?_, fun pp hpp' => ?_⟩
    · exact hcp _ (List.mem_map_of_mem (hcps ▸ List.mem_filterMap.mpr ⟨vc, hvc, hcp'⟩))
    · exact hpp _ (List.mem_map_of_mem (hpps ▸ hpp'))
  · rintro ⟨hcp, hpp⟩
    refine ⟨fun n hn => ?_, fun n hn => ?_⟩
    · obtain ⟨pp, hpp', rfl⟩ := List.mem_map.mp hn
      rw [← hpps] at hpp'
      exact hpp pp hpp'
    · obtain ⟨cp, hcp', rfl⟩ := List.mem_map.mp hn
      rw [← hcps] at hcp'
      obtain ⟨vc, hvc, hvcp⟩ := List.mem_filterMap.mp hcp'
      exact hcp vc hvc cp hvcp

/-- Up to the largest number the loop does not come to an end. -/
theorem calcPPSFrom_eq_none (hmaxs : maxInt ≤ maxs) (hi : i ≤ maxInt) (fuel : ℕ) :
    calcPPSFrom view maxs pprepared fuel i = none := by
  induction fuel generalizing i with
  | zero => rfl
  | succ fuel ih =>
    have hnext : (i+1).bmod (2^64) ≤ maxInt := by
      have hlt := Int.bmod_lt (x := i+1) (m := 2^64) (by decide)
      unfold maxInt
      omega
    rw [calcPPSFrom, if_pos (hi.trans hmaxs), ih hnext, Option.map_none]

/-- Up to any other number it makes the messages of the new view. -/
theorem calcPPSFrom_eq_some (hmins : -1 ≤ mins) (hmaxs : maxs < maxInt) {k : ℕ} (hk : (maxs - mins).toNat = k) :
    calcPPSFrom view maxs pprepared (k+1) (mins+1) = some (calcPPS view mins maxs pprepared) := by
  induction k generalizing mins with
  | zero =>
    have hempty : calcPPS view mins maxs pprepared = [] := by rw [calcPPS_eq, hk]; rfl
    rw [calcPPSFrom, if_neg (by omega), hempty]
  | succ k ih =>
    have hbmod : (mins+1+1).bmod (2^64) = mins+1+1 := by
      unfold maxInt at hmaxs
      exact Int.bmod_eq_of_le (by omega) (by omega)
    have hcons : calcPPS view mins maxs pprepared =
        renumber view (mins+1) (pprepared.lookup (mins+1)) :: calcPPS view (mins+1) maxs pprepared := by
      rw [calcPPS_eq, calcPPS_eq, hk, show (maxs - (mins+1)).toNat = k by omega, List.range_succ_eq_map, List.map_cons,
        List.map_map, Nat.cast_zero, add_zero]
      refine congrArg _ (List.map_congr_left fun j _ => ?_)
      have hnext : mins + 1 + ((j.succ : ℕ) : ℤ) = mins + 1 + 1 + j := by omega
      rw [Function.comp_apply, hnext]
    rw [calcPPSFrom, if_pos (by omega), hbmod, ih (by omega) (by omega), hcons, Option.map_some]

theorem calcPPSWithin_eq_none {v : List ViewChangeArgs} (hcalc : calcMinMaxspp v = some (mins, maxs, pprepared))
    (hv : ¬ Bounded v) (fuel : ℕ) : calcPPSWithin fuel view mins maxs pprepared = none := by
  refine calcPPSFrom_eq_none ?_ ?_ fuel
  · exact not_lt.mp fun h => hv ((calcMinMaxspp_lt_iff hcalc).2.2.mp h)
  · have hlt := Int.bmod_lt (x := mins+1) (m := 2^64) (by decide)
    unfold maxInt
    omega

theorem calcPPSWithin_eq_some (view : ℤ) {v : List ViewChangeArgs}
    (hcalc : calcMinMaxspp v = some (mins, maxs, pprepared)) (hv : Bounded v) :
    ∃ fuel, calcPPSWithin fuel view mins maxs pprepared = some (calcPPS view mins maxs pprepared) := by
  obtain ⟨hmins, hle, hbounded⟩ := calcMinMaxspp_lt_iff hcalc
  have hmaxs := hbounded.mpr hv
  have hbmod : (mins+1).bmod (2^64) = mins+1 := by
    unfold maxInt at hmaxs
    exact Int.bmod_eq_of_le (by omega) (by omega)
  refine ⟨(maxs - mins).toNat + 1, ?_⟩
  unfold calcPPSWithin
  rw [hbmod]
  exact calcPPSFrom_eq_some hmins hmaxs rfl

theorem calcPPSFrom_succ {fuel : ℕ} {l : List PrePrepareArgs} (h : calcPPSFrom view maxs pprepared fuel i = some l) :
    calcPPSFrom view maxs pprepared (fuel+1) i = some l := by
  induction fuel generalizing i l with
  | zero => cases h
  | succ fuel ih =>
    rw [calcPPSFrom] at h ⊢
    split_ifs at h ⊢ with hi
    · obtain ⟨l', hl', rfl⟩ := Option.map_eq_some_iff.mp h
      rw [ih hl', Option.map_some]
    · exact h

theorem calcPPSWithin_le {fuel fuel' : ℕ} (hle : fuel ≤ fuel') {l : List PrePrepareArgs}
    (h : calcPPSWithin fuel view mins maxs pprepared = some l) :
    calcPPSWithin fuel' view mins maxs pprepared = some l := by
  induction fuel', hle using Nat.le_induction with
  | base => exact h
  | succ fuel' _ ih => exact calcPPSFrom_succ ih

/-- When the loop comes to its end, it has made the messages of the new view. -/
theorem calcPPSWithin_sound {v : List ViewChangeArgs} (hcalc : calcMinMaxspp v = some (mins, maxs, pprepared))
    {fuel : ℕ} {l : List PrePrepareArgs} (h : calcPPSWithin fuel view mins maxs pprepared = some l) :
    l = calcPPS view mins maxs pprepared := by
  by_cases hv : Bounded v
  · obtain ⟨fuel', h'⟩ := calcPPSWithin_eq_some view hcalc hv
    have hl := calcPPSWithin_le (le_max_left fuel fuel') h
    rw [calcPPSWithin_le (le_max_right fuel fuel') h'] at hl
    exact (Option.some.inj hl).symm
  · rw [calcPPSWithin_eq_none hcalc hv] at h
    cases h

end Rounds

section Comparison

/-- What the comparison of two preprepare messages looks at. -/
def PrePrepareArgs.Agrees (pp o : PrePrepareArgs) : Prop := pp.view = o.view ∧ pp.seq = o.seq ∧ pp.digest = o.digest

/-- At some place of both lists the messages do not agree. -/
def Deviates (pps os : List PrePrepareArgs) : Prop :=
  ∃ (i : ℕ) (pp o : PrePrepareArgs), pps[i]? = some pp ∧ os[i]? = some o ∧ ¬ pp.Agrees o

theorem deviates_cons (pp o : PrePrepareArgs) (pps os : List PrePrepareArgs) :
    Deviates (pp :: pps) (o :: os) ↔ ¬ pp.Agrees o ∨ Deviates pps os := by
  constructor
  · rintro ⟨i, pp', o', hpp, ho, hne⟩
    cases i with
    | zero =>
      obtain rfl : pp = pp' := by simpa using hpp
      obtain rfl : o = o' := by simpa using ho
      exact .inl hne
    | succ i => exact .inr ⟨i, pp', o', by simpa using hpp, by simpa using ho, hne⟩
  · rintro (hne | ⟨i, pp', o', hpp, ho, hne⟩)
    · exact ⟨0, pp, o, rfl, rfl, hne⟩
    · exact ⟨i + 1, pp', o', by simpa using hpp, by simpa using ho, hne⟩

/-- The comparison fails exactly where it meets messages that do not agree. -/
theorem sameO_eq_false_iff (pps os : List PrePrepareArgs) : sameO pps os = some false ↔ Deviates pps os := by
  induction pps generalizing os with
  | nil => simp [sameO, Deviates]
  | cons pp pps ih =>
    cases os with
    | nil => simp [sameO, Deviates]
    | cons o os =>
      rw [sameO, deviates_cons]
      by_cases hagrees : pp.Agrees o
      · obtain ⟨hview, hseq, hdigest⟩ := hagrees
        rw [if_neg (by simp [hview, hseq, hdigest]), ih]
        exact (or_iff_right (not_not_intro ⟨hview, hseq, hdigest⟩)).symm
      · have hne : pp.view ≠ o.view ∨ pp.seq ≠ o.seq ∨ pp.digest ≠ o.digest := by
          unfold PrePrepareArgs.Agrees at hagrees
          tauto
        rw [if_pos hne]
        simp [hagrees]

end Comparison

section Totality

/-- Every number that the service is told of gets recorded. -/
def PBFTAuxiliary.Records (as : PBFTAuxiliary A) : Prop :=
  ∀ a seq op auxiliary as', as.updateSeq a seq op auxiliary ≠ .error as'

/-- The same servers over a service that does nothing but to record numbers. -/
def Env.recording (env : Env A) : Env A where
  as := {
    updateSeq := env.as.updateSeq
    getOpAuxiliary := fun a op _ => (a, .ok op)
    prepareSeq := fun a _ _ _ _ => (a, .ok ())
    commitSeq := fun a _ _ _ _ => (a, .ok ()) }
  digest := env.digest
  digestStates := env.digestStates
  digest2 := env.digest2

variable {env : Env A} {s : Server A}

theorem recording_calm (hrecords : env.as.Records) : ¬ env.recording.as.Panics := by
  rintro (⟨a, seq, op, auxiliary, as', h⟩ | ⟨_, _, _, _, _, h⟩ | ⟨_, _, _, _, _, _, _, h⟩ | ⟨_, _, _, _, _, _, _, h⟩)
  · exact hrecords a seq op auxiliary as' h
  all_goals simp [Env.recording] at h

/-! Nothing else is asked of the service on the way into a new view. -/

theorem replyUpTo_recording : replyUpTo env = replyUpTo env.recording := by
  funext seq k
  induction k with
  | zero => rfl
  | succ k ih =>
    funext s
    unfold replyUpTo
    rw [ih]
    rfl

theorem stablizeCP_recording : stablizeCP env = stablizeCP env.recording := by
  funext s key cp proof
  unfold stablizeCP
  rw [replyUpTo_recording]

theorem enteringNewView_recording : enteringNewView env = enteringNewView env.recording := by
  funext s order nv mins maxs pps
  unfold enteringNewView catchUp
  rw [stablizeCP_recording]

theorem viewChange_recording : viewChange env = viewChange env.recording := by
  funext s order vc
  unfold viewChange
  rw [enteringNewView_recording]

theorem viewChange_ok_iff (hrecords : env.as.Records) (hs : s.Steady) (order : Range ℤ) (vc : ViewChangeArgs) :
    (∃ s', s.viewChange env order vc = .ok s') ↔ (s.leads vc = true → ∀ vc' ∈ s.collected vc, vc'.Whole) := by
  have hmins : minsOf (s.collected vc) = none ↔ ∃ vc' ∈ s.collected vc, ¬ vc'.Whole := by
    rw [minsOf, Option.map_eq_none_iff, calcMinMaxspp_eq_none_iff]
  constructor
  · rintro ⟨s', hs'⟩ hleads
    by_contra hpart
    push Not at hpart
    have hnone : calcMinMaxspp (s.collected vc) = none := calcMinMaxspp_eq_none_iff.mpr hpart
    have hcollected : (s.vcs.lookup vc.view).getD [] ++ [vc] = s.collected vc := rfl
    simp only [leads, decide_eq_true_eq] at hleads
    unfold viewChange at hs'
    rw [if_neg (not_le.mpr hleads.1)] at hs'
    simp only [hcollected, hnone] at hs'
    rw [if_pos hleads.2] at hs'
    cases hs'
  · intro hwhole
    cases hr : s.viewChange env order vc with
    | ok s' => exact ⟨s', rfl⟩
    | error s' =>
      rw [viewChange_recording] at hr
      rcases (viewChange_ends hs order vc).of_error hr with hpanic | ⟨hleads, hnone⟩
      · exact absurd hpanic (recording_calm hrecords)
      · obtain ⟨vc', hvc', hpart⟩ := hmins.mp hnone
        exact absurd (hwhole hleads vc' hvc') hpart

theorem enteringNewView_view {order : Range ℤ} {nv : NewViewArgs} {mins maxs : ℤ} {pps : List PrePrepareArgs}
    {s' : Server A} (h : s.enteringNewView env order nv mins maxs pps = .ok s') : s'.view = nv.view := by
  unfold enteringNewView at h
  obtain ⟨s₁, -, h⟩ := bind_eq_ok.mp h
  obtain rfl := Except.ok.inj h
  rfl

/-- What `ViewChange` returns when its loop comes to an end. -/
theorem viewChangeWithin_sound {fuel : ℕ} {order : Range ℤ} {vc : ViewChangeArgs} {r : Run A (Server A)}
    (h : s.viewChangeWithin fuel env order vc = some r) : s.viewChange env order vc = r := by
  unfold viewChangeWithin at h
  unfold viewChange
  split_ifs at h ⊢ with hle
  · exact Option.some.inj h
  · simp only [] at h ⊢
    split_ifs at h ⊢ with hlead
    · cases hcalc : calcMinMaxspp ((s.vcs.lookup vc.view).getD [] ++ [vc]) with
      | none =>
        rw [hcalc] at h
        exact Option.some.inj h
      | some r' =>
        rw [hcalc] at h
        obtain ⟨pps, hpps, hr⟩ := Option.map_eq_some_iff.mp h
        rw [calcPPSWithin_sound hcalc hpps] at hr
        exact hr
    · exact Option.some.inj h

theorem newViewWithin_sound {fuel : ℕ} {order : Range ℤ} {nv : NewViewArgs} {r : Run A (Server A)}
    (h : s.newViewWithin fuel env order nv = some r) : s.newView env order nv = r := by
  unfold newViewWithin at h
  unfold newView
  split_ifs at h ⊢ with hle
  · exact Option.some.inj h
  · simp only [] at h ⊢
    split_ifs at h ⊢ with hcount
    · exact Option.some.inj h
    · cases hcalc : calcMinMaxspp nv.v with
      | none =>
        rw [hcalc] at h
        exact Option.some.inj h
      | some r' =>
        rw [hcalc] at h
        obtain ⟨pps, hpps, hr⟩ := Option.map_eq_some_iff.mp h
        rw [calcPPSWithin_sound hcalc hpps] at hr
        exact hr

/-- The loop comes to its end where the view changes are bounded. -/
theorem exists_viewChangeWithin (env : Env A) (order : Range ℤ) (vc : ViewChangeArgs)
    (hv : s.leads vc = true → Bounded (s.collected vc)) :
    ∃ fuel, s.viewChangeWithin fuel env order vc = some (s.viewChange env order vc) := by
  have hcollected : (s.vcs.lookup vc.view).getD [] ++ [vc] = s.collected vc := rfl
  unfold viewChangeWithin viewChange
  simp only [hcollected]
  split_ifs with hle hlead
  · exact ⟨0, rfl⟩
  · have hleads : s.leads vc = true := by
      simp only [leads, decide_eq_true_eq]
      exact ⟨not_le.mp hle, hlead⟩
    cases hcalc : calcMinMaxspp (s.collected vc) with
    | none => exact ⟨0, rfl⟩
    | some r =>
      obtain ⟨fuel, hfuel⟩ := calcPPSWithin_eq_some vc.view hcalc (hv hleads)
      refine ⟨fuel, ?_⟩
      simp only [hfuel, Option.map_some]
  · exact ⟨0, rfl⟩

theorem exists_newViewWithin (env : Env A) (order : Range ℤ) (nv : NewViewArgs)
    (hv : s.backed nv = true → Bounded nv.v) :
    ∃ fuel, s.newViewWithin fuel env order nv = some (s.newView env order nv) := by
  unfold newViewWithin newView
  simp only []
  split_ifs with hle hcount
  · exact ⟨0, rfl⟩
  · exact ⟨0, rfl⟩
  · have hbacked : s.backed nv = true := by simpa [backed] using ⟨not_le.mp hle, not_le.mp hcount⟩
    cases hcalc : calcMinMaxspp nv.v with
    | none => exact ⟨0, rfl⟩
    | some r =>
      obtain ⟨fuel, hfuel⟩ := calcPPSWithin_eq_some nv.view hcalc (hv hbacked)
      refine ⟨fuel, ?_⟩
      dsimp only
      rw [hfuel]
      rfl

/-- A view change or a new view with the largest number in it keeps its handler in the loop. -/
theorem viewChangeWithin_eq_none {order : Range ℤ} {vc : ViewChangeArgs} (hleads : s.leads vc = true)
    (hwhole : ∀ vc' ∈ s.collected vc, vc'.Whole) (hv : ¬ Bounded (s.collected vc)) (fuel : ℕ) :
    s.viewChangeWithin fuel env order vc = none := by
  have hcollected : (s.vcs.lookup vc.view).getD [] ++ [vc] = s.collected vc := rfl
  obtain ⟨⟨mins, maxs, pprepared⟩, hcalc⟩ := exists_calcMinMaxspp hwhole
  simp only [leads, decide_eq_true_eq] at hleads
  unfold viewChangeWithin
  rw [if_neg (not_le.mpr hleads.1)]
  simp only [hcollected, hcalc]
  rw [if_pos hleads.2, calcPPSWithin_eq_none hcalc hv, Option.map_none]

theorem newViewWithin_eq_none {order : Range ℤ} {nv : NewViewArgs} (hbacked : s.backed nv = true)
    (hwhole : ∀ vc ∈ nv.v, vc.Whole) (hv : ¬ Bounded nv.v) (fuel : ℕ) :
    s.newViewWithin fuel env order nv = none := by
  obtain ⟨⟨mins, maxs, pprepared⟩, hcalc⟩ := exists_calcMinMaxspp hwhole
  simp only [backed, decide_eq_true_eq] at hbacked
  unfold newViewWithin
  rw [if_neg (not_le.mpr hbacked.1)]
  simp only [hcalc]
  rw [if_neg (not_le.mpr hbacked.2), calcPPSWithin_eq_none hcalc hv, Option.map_none]

/-- `ViewChange` comes to its end. -/
def Server.ViewChangeEnds (env : Env A) (s : Server A) (order : Range ℤ) (vc : ViewChangeArgs) : Prop :=
  ∃ fuel s', s.viewChangeWithin fuel env order vc = some (.ok s')

theorem viewChangeEnds_iff (hrecords : env.as.Records) (hs : s.Steady) (order : Range ℤ) (vc : ViewChangeArgs) :
    s.ViewChangeEnds env order vc ↔
      (s.leads vc = true → (∀ vc' ∈ s.collected vc, vc'.Whole) ∧ Bounded (s.collected vc)) := by
  have hok := viewChange_ok_iff hrecords hs order vc
  constructor
  · rintro ⟨fuel, s', hs'⟩ hleads
    have hwhole := hok.mp ⟨s', viewChangeWithin_sound hs'⟩ hleads
    refine ⟨hwhole, ?_⟩
    by_contra hv
    rw [viewChangeWithin_eq_none hleads hwhole hv] at hs'
    cases hs'
  · intro h
    obtain ⟨s', hs'⟩ := hok.mpr fun hleads => (h hleads).1
    obtain ⟨fuel, hfuel⟩ := exists_viewChangeWithin env order vc fun hleads => (h hleads).2
    exact ⟨fuel, s', hfuel.trans (congrArg some hs')⟩

theorem newView_ok_iff (hrecords : env.as.Records) (hs : s.Steady) (order : Range ℤ) (nv : NewViewArgs) :
    (∃ s', s.newView env order nv = .ok s' ∧
        (s'.view ≠ s.view → ∃ mins maxs, newViewOf nv.view nv.v = some (mins, maxs, nv.o))) ↔
      (s.backed nv = true → (∀ vc ∈ nv.v, vc.Whole) ∧
        ∀ mins maxs pps, newViewOf nv.view nv.v = some (mins, maxs, pps) → Deviates pps nv.o ∨ nv.o = pps) := by
  unfold newView
  by_cases hbacked : s.backed nv = true
  · rw [imp_iff_right hbacked]
    simp only [backed, decide_eq_true_eq] at hbacked
    rw [if_neg (not_le.mpr hbacked.1)]
    simp only []
    rw [if_neg (not_le.mpr hbacked.2)]
    cases hcalc : calcMinMaxspp nv.v with
    | none =>
      obtain ⟨vc, hvc, hpart⟩ := calcMinMaxspp_eq_none_iff.mp hcalc
      refine iff_of_false ?_ fun h => absurd (h.1 vc hvc) hpart
      rintro ⟨s', hs', -⟩
      cases hs'
    | some r =>
      obtain ⟨mins, maxs, pprepared⟩ := r
      have hwhole : ∀ vc ∈ nv.v, vc.Whole := by
        by_contra hpart
        rw [calcMinMaxspp_eq_none_iff.mpr (by simpa using hpart)] at hcalc
        cases hcalc
      have hiff : (∀ mins' maxs' pps, newViewOf nv.view nv.v = some (mins', maxs', pps) →
          Deviates pps nv.o ∨ nv.o = pps) ↔ Deviates (calcPPS nv.view mins maxs pprepared) nv.o ∨
            nv.o = calcPPS nv.view mins maxs pprepared := by
        rw [newViewOf_eq nv.view hcalc]
        refine ⟨fun h => h mins maxs _ rfl, fun h mins' maxs' pps heq => ?_⟩
        obtain ⟨rfl, rfl, rfl⟩ : mins = mins' ∧ maxs = maxs' ∧ calcPPS nv.view mins maxs pprepared = pps := by
          simpa using heq
        exact h
      rw [hiff, and_iff_right hwhole, ← sameO_eq_false_iff, newViewOf_eq nv.view hcalc]
      simp only []
      cases hsame : sameO (calcPPS nv.view mins maxs pprepared) nv.o with
      | none =>
        -- The messages of the leader run out.
        refine iff_of_false ?_ ?_
        · rintro ⟨s', hs', -⟩
          cases hs'
        · rintro (h | h)
          · cases h
          · rw [← h, sameO_self] at hsame
            cases hsame
      | some same =>
        cases same with
        | false => exact ⟨fun _ => .inl rfl, fun _ => ⟨s, rfl, fun h => absurd rfl h⟩⟩
        | true =>
          simp only [Option.some.injEq, Prod.mk.injEq, Bool.true_eq_false, false_or]
          constructor
          · rintro ⟨s', hs', henter⟩
            have hview := enteringNewView_view hs'
            obtain ⟨_, _, -, -, heq⟩ := henter (by rw [hview]; exact hbacked.1.ne')
            exact heq.symm
          · intro heq
            cases hr : s.enteringNewView env order nv mins maxs (calcPPS nv.view mins maxs pprepared) with
            | ok s' => exact ⟨s', rfl, fun _ => ⟨mins, maxs, rfl, rfl, heq.symm⟩⟩
            | error s' =>
              rw [enteringNewView_recording] at hr
              exact absurd ((enteringNewView_ends hs order nv hcalc _).of_error hr) (recording_calm hrecords)
  · rw [iff_true_right (fun h => absurd h hbacked)]
    refine ⟨s, ?_, fun h => absurd rfl h⟩
    simp only [backed, decide_eq_true_eq, not_and_or, not_lt] at hbacked
    split_ifs with hle
    · rfl
    · simp only []
      rw [if_pos (hbacked.resolve_left hle)]

/-- The handler comes to its end, and goes into the new view only on the messages that it has computed itself. -/
def Server.Strict (env : Env A) (s : Server A) (order : Range ℤ) (nv : NewViewArgs) : Prop :=
  ∃ fuel s', s.newViewWithin fuel env order nv = some (.ok s') ∧
    (s'.view ≠ s.view → ∃ mins maxs, newViewOf nv.view nv.v = some (mins, maxs, nv.o))

theorem strict_iff (hrecords : env.as.Records) (hs : s.Steady) (order : Range ℤ) (nv : NewViewArgs) :
    s.Strict env order nv ↔
      (s.backed nv = true → (∀ vc ∈ nv.v, vc.Whole) ∧ Bounded nv.v ∧
        ∀ mins maxs pps, newViewOf nv.view nv.v = some (mins, maxs, pps) → Deviates pps nv.o ∨ nv.o = pps) := by
  have hok := newView_ok_iff hrecords hs order nv
  constructor
  · rintro ⟨fuel, s', hs', henter⟩ hbacked
    obtain ⟨hwhole, hpps⟩ := hok.mp ⟨s', newViewWithin_sound hs', henter⟩ hbacked
    refine ⟨hwhole, ?_, hpps⟩
    by_contra hv
    rw [newViewWithin_eq_none hbacked hwhole hv] at hs'
    cases hs'
  · intro h
    obtain ⟨s', hs', henter⟩ := hok.mpr fun hbacked => ⟨(h hbacked).1, (h hbacked).2.2⟩
    obtain ⟨fuel, hfuel⟩ := exists_newViewWithin env order nv fun hbacked => (h hbacked).2.1
    exact ⟨fuel, s', hfuel.trans (congrArg some hs'), henter⟩

variable {ext : A → A → Prop} {allowed : Server A → Orders → Input → Prop} {rid initSeq : ℤ} {f : ℕ}
  {nodes : List ℤ} {as : A}

/-- Whatever a server has gone through: it handles a view change to the end unless that makes it the leader of the view
with a part of some view change missing or with the largest number in one, and a new view that has a quorum behind it
is treated as it should be exactly where nothing is missing, no number is the largest one, and the messages of the
leader are its own or differ at a place that both have. -/
theorem view_handlers_total_iff (hrecords : env.as.Records) (h0 : 0 ≤ initSeq) {l : List Input}
    (h : History env ext allowed (Server.new env rid f initSeq nodes as) l s) (order : Range ℤ) :
    (∀ vc, s.ViewChangeEnds env order vc ↔
      (s.leads vc = true → (∀ vc' ∈ s.collected vc, vc'.Whole) ∧ Bounded (s.collected vc))) ∧
    ∀ nv, s.Strict env order nv ↔
      (s.backed nv = true → (∀ vc ∈ nv.v, vc.Whole) ∧ Bounded nv.v ∧
        ∀ mins maxs pps, newViewOf nv.view nv.v = some (mins, maxs, pps) → Deviates pps nv.o ∨ nv.o = pps) :=
  ⟨viewChangeEnds_iff hrecords (steady_history h0 h) order, strict_iff hrecords (steady_history h0 h) order⟩

end Totality

/-- Server 1 of four, which has two view changes to view 1, that it leads. -/
def twoChanges : List Input := [3, 2].map fun rid => .message (.viewChange (plainChange 1 [] rid))

def server1 : Server Unit := (Server.new Env.plain 1 1 0 [0, 1, 2, 3] ()).reacts Env.plain twoChanges

theorem server1_reached :
    History Env.plain Eq (fun _ _ _ => True) (Server.new Env.plain 1 1 0 [0, 1, 2, 3] ()) twoChanges server1 :=
  history_reacts _ _ ⟨⟨trivial, trivial⟩, trivial⟩

theorem Env.plain_records : Env.plain.as.Records := by
  intro a seq op auxiliary as' h
  cases h

/-- A view change without its checkpoint. -/
def bareChange : ViewChangeArgs := { view := 1, cp := none, p := [], rid := 0 }

/-- A new view 2 in which `b` has number 1, with the messages `o` of its leader. -/
def newViewWith (o : List PrePrepareArgs) : NewViewArgs where
  view := 2
  v := [0, 2, 3].map (plainChange 2 [{ pp := some (plainPP 0 1 "b"), p := [] }])
  o := o

/-- The digest of `b` over the operation `c`. -/
def swappedPP : PrePrepareArgs := { plainPP 2 1 "b" with message := { op := "c" } }

/-- A new view 2 in which `b` has the largest number. -/
def lastNewView : NewViewArgs where
  view := 2
  v := [0, 2, 3].map (plainChange 2 [{ pp := some (plainPP 0 maxInt "b"), p := [] }])
  o := []

theorem lastNewView_not_bounded : ¬ Bounded lastNewView.v := by
  intro h
  have hmem : plainPP 0 maxInt "b" ∈ preprepared lastNewView.v := List.mem_cons_self
  exact absurd (h.pp _ hmem) (lt_irrefl _)

/-- A view change without checkpoint and a new view without messages end in a panic, a new view with the largest
number does not end, and the server goes into a view with another operation. -/
theorem view_handlers_not_total :
    (∀ fuel s', server1.viewChangeWithin fuel Env.plain (Range.id ℤ) bareChange ≠ some (.ok s')) ∧
    (∀ fuel s', server1.newViewWithin fuel Env.plain (Range.id ℤ) (newViewWith []) ≠ some (.ok s')) ∧
    (∀ fuel, server1.newViewWithin fuel Env.plain (Range.id ℤ) lastNewView = none) ∧
    ∃ fuel s', server1.newViewWithin fuel Env.plain (Range.id ℤ)
        (newViewWith [{ view := 2, seq := 0, digest := "" }, swappedPP]) = some (.ok s') ∧ s'.view ≠ server1.view ∧
      ∀ mins maxs pps, newViewOf 2 (newViewWith []).v = some (mins, maxs, pps) →
        pps ≠ [{ view := 2, seq := 0, digest := "" }, swappedPP] := by
  have hbare : (server1.viewChange Env.plain (Range.id ℤ) bareChange).isOk = false := by decide +kernel
  have hshort : (server1.newView Env.plain (Range.id ℤ) (newViewWith [])).isOk = false := by decide +kernel
  have hbacked : server1.backed lastNewView = true := by decide +kernel
  have hwhole : ∀ vc ∈ lastNewView.v, vc.Whole := by
    intro vc hvc
    obtain ⟨rid, -, rfl⟩ := List.mem_map.mp hvc
    exact ⟨rfl, fun pm hpm => by rw [List.mem_singleton.mp hpm]; rfl⟩
  have henter : ((server1.newViewWithin 3 Env.plain (Range.id ℤ)
      (newViewWith [{ view := 2, seq := 0, digest := "" }, swappedPP])).bind Except.toOption).map Server.view =
        some 2 := by
    decide +kernel
  have hpps : (newViewOf 2 (newViewWith []).v).map (fun r => r.2.2) =
      some [{ view := 2, seq := 0, digest := "" }, plainPP 2 1 "b"] := by
    decide +kernel
  refine ⟨fun fuel s' hs' => ?_, fun fuel s' hs' => ?_,
    newViewWithin_eq_none hbacked hwhole lastNewView_not_bounded, ?_⟩
  · rw [viewChangeWithin_sound hs'] at hbare
    cases hbare
  · rw [newViewWithin_sound hs'] at hshort
    cases hshort
  · obtain ⟨s', hs', hview⟩ := Option.map_eq_some_iff.mp henter
    obtain ⟨r, hr, hok⟩ := Option.bind_eq_some_iff.mp hs'
    obtain rfl : r = .ok s' := by
      cases r with
      | error _ => cases hok
      | ok _ => rw [Option.some.inj hok]
    refine ⟨3, s', hr, ?_, ?_⟩
    · rw [hview]
      decide +kernel
    · rintro mins maxs pps heq rfl
      rw [heq] at hpps
      have hswap : swappedPP = plainPP 2 1 "b" := by simpa using hpps
      exact absurd hswap (by decide)

theorem view_handlers_total_server1 :
    (∀ vc, server1.ViewChangeEnds Env.plain (Range.id ℤ) vc ↔
      (server1.leads vc = true → (∀ vc' ∈ server1.collected vc, vc'.Whole) ∧ Bounded (server1.collected vc))) ∧
    ∀ nv, server1.Strict Env.plain (Range.id ℤ) nv ↔
      (server1.backed nv = true → (∀ vc ∈ nv.v, vc.Whole) ∧ Bounded nv.v ∧
        ∀ mins maxs pps, newViewOf nv.view nv.v = some (mins, maxs, pps) → Deviates pps nv.o ∨ nv.o = pps) :=
  view_handlers_total_iff Env.plain_records le_rfl server1_reached (Range.id ℤ)

end DistributedNotary.Pbft
