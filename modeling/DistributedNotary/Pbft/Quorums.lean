import DistributedNotary.Library.Quorum
import DistributedNotary.Pbft.Network
import Mathlib.Data.Finset.Image
import Mathlib.Algebra.Order.Ring.Int

/-! The quorums of the protocol: whose messages make an entry prepared or
committed, whose view changes carry a new view, and how much two such sets have
in common under the number of faults that the service configures. -/
namespace DistributedNotary.Pbft

open Library

variable {A : Type}

/-- The number of faults for `n` notaries, as `NewPBFTService` computes it. -/
def faults (n : ℕ) : ℕ := n / 3

/-- The ids of `n` notaries. -/
def ids (n : ℕ) : List ℤ := (List.range n).map Int.ofNat

/-- The replicas whose prepare messages match the preprepare message. -/
def Entry.prepareSenders (ent : Entry) : Finset ℤ :=
  match ent.pp with
  | none => ∅
  | some pp =>
    ((ent.p.filter fun p => p.view = pp.view ∧ p.seq = pp.seq ∧ p.digest = pp.digest).map PrepareArgs.rid).toFinset

def Entry.commitSenders (ent : Entry) : Finset ℤ :=
  match ent.pp with
  | none => ∅
  | some pp =>
    ((ent.c.filter fun c => c.view = pp.view ∧ c.seq = pp.seq ∧ c.digest = pp.digest).map CommitArgs.rid).toFinset

/-- The replicas whose view changes to `view` are in the list. -/
def changeSenders (view : ℤ) (v : List ViewChangeArgs) : Finset ℤ :=
  ((v.filter fun vc => vc.view = view).map ViewChangeArgs.rid).toFinset

/-- Counting the senders of the messages that match makes counting all messages superfluous. -/
theorem lt_length_and_lt_senders {β : Type*} (k : ℕ) (l : List β) (q : β → Bool) (rid : β → ℤ) :
    (k < l.length ∧ k < ((l.filter q).map rid).dedup.length) ↔ k < ((l.filter q).map rid).toFinset.card := by
  rw [List.card_toFinset, and_iff_right_iff_imp]
  intro h
  calc k < ((l.filter q).map rid).dedup.length := h
    _ ≤ ((l.filter q).map rid).length := (List.dedup_sublist _).length_le
    _ = (l.filter q).length := List.length_map _
    _ ≤ l.length := List.length_filter_le _ _

theorem Server.prepared_iff (s : Server A) (ent : Entry) :
    s.prepared ent = true ↔ 2 * s.f < ent.prepareSenders.card := by
  unfold Server.prepared Entry.prepareSenders
  cases ent.pp with
  | none => simp
  | some pp =>
    simp only [decide_eq_true_eq]
    exact lt_length_and_lt_senders _ _ _ _

theorem Server.committed_iff (s : Server A) (ent : Entry) :
    s.committed ent = true ↔ 2 * s.f < ent.commitSenders.card := by
  unfold Server.committed Entry.commitSenders
  cases ent.pp with
  | none => simp
  | some pp =>
    simp only [decide_eq_true_eq]
    exact lt_length_and_lt_senders _ _ _ _

section Accepted

variable (A) (env : Env A) (n : ℕ)

/-- The set of the replicas whose prepare messages satisfy `prepared` for number `seq` of `view`. -/
def PreparedBy (view seq : ℤ) (S : Finset ℤ) : Prop :=
  ∃ (s : Server A) (ent : Entry) (pp : PrePrepareArgs), s.f = faults n ∧ ent.pp = some pp ∧ pp.view = view ∧
    pp.seq = seq ∧ (∀ p ∈ ent.p, p.rid ∈ ids n) ∧ s.prepared ent = true ∧ S = ent.prepareSenders

def CommittedBy (view seq : ℤ) (S : Finset ℤ) : Prop :=
  ∃ (s : Server A) (ent : Entry) (pp : PrePrepareArgs), s.f = faults n ∧ ent.pp = some pp ∧ pp.view = view ∧
    pp.seq = seq ∧ (∀ c ∈ ent.c, c.rid ∈ ids n) ∧ s.committed ent = true ∧ S = ent.commitSenders

variable {A}

/-- The set of the replicas whose view changes make `NewView` enter `view`. -/
def NewViewBy (view : ℤ) (S : Finset ℤ) : Prop :=
  ∃ (s : Server A) (order : Range ℤ) (args : NewViewArgs), s.f = faults n ∧ s.replicas = ids n ∧ args.view = view ∧
    s.view < view ∧ (∀ vc ∈ args.v, vc.rid ∈ ids n) ∧ (Server.after (s.newView env order args)).view = view ∧
    S = changeSenders view args.v

/-- Any two accepted sets of replicas have more than the number of faults in common. -/
def Overlap (accepted : Finset ℤ → Prop) : Prop :=
  ∀ S S' : Finset ℤ, accepted S → accepted S' → faults n + 1 ≤ (S ∩ S').card

end Accepted

theorem card_ids (n : ℕ) : (ids n).toFinset.card = n := by
  rw [List.card_toFinset, List.dedup_eq_self.mpr, ids, List.length_map, List.length_range]
  exact List.Nodup.map (fun _ _ h => Int.ofNat.inj h) List.nodup_range

theorem overlap_faults_iff {n : ℕ} {accepted : Finset ℤ → Prop}
    (h : Threshold accepted (ids n).toFinset (2 * faults n + 1)) (hn : 2 ≤ n) : Overlap n accepted ↔ n % 3 ≠ 2 := by
  have hq : 2 * faults n + 1 ≤ (ids n).toFinset.card := by
    rw [card_ids]
    unfold faults
    omega
  unfold Overlap
  rw [h.overlap_iff hq, card_ids]
  unfold faults
  omega

section Thresholds

variable (A) (env : Env A) (n : ℕ)

theorem toFinset_senders {β : Type*} (S : Finset ℤ) (msg : ℤ → β) (q : β → Bool) (rid : β → ℤ)
    (hq : ∀ i, q (msg i) = true) (hrid : ∀ i, rid (msg i) = i) :
    (((S.toList.map msg).filter q).map rid).toFinset = S := by
  have hall : (S.toList.map msg).filter q = S.toList.map msg := by
    rw [List.filter_eq_self]
    intro m hm
    obtain ⟨i, -, rfl⟩ := List.mem_map.mp hm
    exact hq i
  have hid : (S.toList.map msg).map rid = S.toList := by
    rw [List.map_map]
    conv_rhs => rw [← List.map_id S.toList]
    exact List.map_congr_left fun i _ => hrid i
  rw [hall, hid, Finset.toList_toFinset]

theorem senders_subset {β : Type*} {l : List β} {q : β → Bool} {rid : β → ℤ} {U : List ℤ}
    (h : ∀ m ∈ l, rid m ∈ U) : ((l.filter q).map rid).toFinset ⊆ U.toFinset := by
  intro i hi
  simp only [List.mem_toFinset, List.mem_map, List.mem_filter] at hi ⊢
  obtain ⟨m, ⟨hm, -⟩, rfl⟩ := hi
  exact h m hm

theorem preparedBy_threshold (view seq : ℤ) (s : Server A) :
    Threshold (PreparedBy A n view seq) (ids n).toFinset (2 * faults n + 1) where
  sound S h := by
    obtain ⟨s, ent, pp, hf, hpp, -, -, hp, hprep, rfl⟩ := h
    rw [s.prepared_iff, hf] at hprep
    refine ⟨?_, hprep⟩
    simp only [Entry.prepareSenders, hpp]
    exact senders_subset hp
  complete S hS hcard := by
    let pp : PrePrepareArgs := { view := view, seq := seq, digest := "" }
    let ent : Entry :=
      { id := ⟨view, seq⟩, pp := some pp
        p := S.toList.map fun i => { view := view, seq := seq, digest := "", rid := i } }
    have hsenders : ent.prepareSenders = S := toFinset_senders _ _ _ _ (by simp [pp]) fun _ => rfl
    refine ⟨{ s with f := faults n }, ent, pp, rfl, rfl, rfl, rfl, ?_, ?_, hsenders.symm⟩
    · intro p hp
      obtain ⟨i, hi, rfl⟩ := List.mem_map.mp hp
      exact List.mem_toFinset.mp (hS (Finset.mem_toList.mp hi))
    · rw [Server.prepared_iff, hsenders, hcard]
      exact Nat.lt_succ_self _

theorem committedBy_threshold (view seq : ℤ) (s : Server A) :
    Threshold (CommittedBy A n view seq) (ids n).toFinset (2 * faults n + 1) where
  sound S h := by
    obtain ⟨s, ent, pp, hf, hpp, -, -, hc, hcom, rfl⟩ := h
    rw [s.committed_iff, hf] at hcom
    refine ⟨?_, hcom⟩
    simp only [Entry.commitSenders, hpp]
    exact senders_subset hc
  complete S hS hcard := by
    let pp : PrePrepareArgs := { view := view, seq := seq, digest := "" }
    let ent : Entry :=
      { id := ⟨view, seq⟩, pp := some pp
        c := S.toList.map fun i => { view := view, seq := seq, digest := "", rid := i } }
    have hsenders : ent.commitSenders = S := toFinset_senders _ _ _ _ (by simp [pp]) fun _ => rfl
    refine ⟨{ s with f := faults n }, ent, pp, rfl, rfl, rfl, rfl, ?_, ?_, hsenders.symm⟩
    · intro c hc
      obtain ⟨i, hi, rfl⟩ := List.mem_map.mp hc
      exact List.mem_toFinset.mp (hS (Finset.mem_toList.mp hi))
    · rw [Server.committed_iff, hsenders, hcard]
      exact Nat.lt_succ_self _

variable {A}

/-- A new view whose view changes count too few senders leaves the server in its view. -/
theorem Server.newView_senders {s : Server A} {order : Range ℤ} {args : NewViewArgs} (hview : s.view < args.view)
    (h : (Server.after (s.newView env order args)).view = args.view) :
    2 * s.f < (changeSenders args.view args.v).card := by
  rw [changeSenders, List.card_toFinset]
  by_contra hle
  rw [not_lt] at hle
  unfold Server.newView at h
  rw [if_neg (not_le.mpr hview), if_pos hle] at h
  exact hview.ne h

/-- View changes of replicas that have prepared nothing. -/
def blankChange (view i : ℤ) : ViewChangeArgs where
  view := view
  cp := some { seq := -1, digest := "", rid := i, view := 0 }
  p := []
  rid := i

theorem mapM_cp_blank (view : ℤ) (l : List ℤ) :
    (l.map (blankChange view)).mapM ViewChangeArgs.cp =
      some (l.map fun i => { seq := -1, digest := "", rid := i, view := 0 }) := by
  induction l with
  | nil => rfl
  | cons i l ih =>
    rw [List.map_cons, List.mapM_cons, ih]
    rfl

theorem calcMinMaxspp_blank (view : ℤ) (l : List ℤ) :
    Server.calcMinMaxspp (l.map (blankChange view)) = some (-1, -1, ∅) := by
  have hp : (l.map (blankChange view)).flatMap ViewChangeArgs.p = [] := by
    rw [List.flatMap_eq_nil_iff]
    intro vc hvc
    obtain ⟨i, -, rfl⟩ := List.mem_map.mp hvc
    rfl
  have hmax : ((l.map fun i => ({ seq := -1, digest := "", rid := i, view := 0 } : CheckPointArgs)).map
      CheckPointArgs.seq).foldl max (-1) = -1 := by
    clear hp
    induction l with
    | nil => rfl
    | cons i l ih => simpa using ih
  unfold Server.calcMinMaxspp
  rw [mapM_cp_blank, hp]
  simp only [Option.bind_eq_bind, Option.bind_some, hmax]
  rfl

theorem newViewBy_threshold (as : A) (view : ℤ) :
    Threshold (NewViewBy env n view) (ids n).toFinset (2 * faults n + 1) where
  sound S h := by
    obtain ⟨s, order, args, hf, -, rfl, hview, hrid, hafter, rfl⟩ := h
    have h := Server.newView_senders env hview hafter
    rw [hf] at h
    exact ⟨senders_subset hrid, h⟩
  complete S hS hcard := by
    let args : NewViewArgs := { view := view, v := S.toList.map (blankChange view), o := [] }
    let s : Server A := { Server.new env 0 (faults n) 0 (ids n) as with view := view - 1 }
    have hsenders : changeSenders view args.v = S := toFinset_senders _ _ _ _ (by simp [blankChange]) fun _ => rfl
    refine ⟨s, Range.id ℤ, args, rfl, rfl, rfl, sub_one_lt view, ?_, ?_, hsenders.symm⟩
    · intro vc hvc
      obtain ⟨i, hi, rfl⟩ := List.mem_map.mp hvc
      exact List.mem_toFinset.mp (hS (Finset.mem_toList.mp hi))
    · have hlen : ¬ ((args.v.filter fun vc => vc.view = args.view).map ViewChangeArgs.rid).dedup.length ≤ 2 * s.f := by
        have hc : (changeSenders view args.v).card = 2 * faults n + 1 := hsenders.symm ▸ hcard
        rw [changeSenders, List.card_toFinset] at hc
        change ¬ ((args.v.filter fun vc => vc.view = view).map ViewChangeArgs.rid).dedup.length ≤ 2 * faults n
        omega
      unfold Server.newView
      rw [if_neg (not_le.mpr (sub_one_lt view)), if_neg hlen]
      simp only [args, calcMinMaxspp_blank]
      rfl

end Thresholds

/-- Two quorums for the configured number of faults are sure to share a correct replica, whatever they
vote on, exactly where the number of notaries does not leave the remainder 2. -/
theorem quorums_overlap_iff (env : Env A) (as : A) (n : ℕ) (hn : 2 ≤ n) :
    (∀ view seq, Overlap n (PreparedBy A n view seq) ↔ n % 3 ≠ 2) ∧
    (∀ view seq, Overlap n (CommittedBy A n view seq) ↔ n % 3 ≠ 2) ∧
    (∀ view, Overlap n (NewViewBy env n view) ↔ n % 3 ≠ 2) := by
  have s : Server A := Server.new env 0 (faults n) 0 (ids n) as
  refine ⟨fun view seq => ?_, fun view seq => ?_, fun view => ?_⟩
  · exact overlap_faults_iff (preparedBy_threshold A n view seq s) hn
  · exact overlap_faults_iff (committedBy_threshold A n view seq s) hn
  · exact overlap_faults_iff (newViewBy_threshold env n as view) hn

/-- Of five notaries one may be malicious, and it may be the only one that two prepared sets share. -/
theorem five_overlap_in_one :
    PreparedBy Unit 5 0 0 {0, 1, 2} ∧ PreparedBy Unit 5 0 0 {2, 3, 4} ∧
      (({0, 1, 2} : Finset ℤ) ∩ {2, 3, 4}).card < faults 5 + 1 := by
  have h := preparedBy_threshold Unit 5 0 0 (Server.new Env.plain 0 1 0 (ids 5) ())
  exact ⟨h.complete _ (by decide) (by decide), h.complete _ (by decide) (by decide), by decide⟩

theorem quorums_overlap_four :
    (2 ≤ 4) ∧ (∀ view seq, Overlap 4 (PreparedBy Unit 4 view seq)) :=
  ⟨by decide, fun view seq => ((quorums_overlap_iff Env.plain () 4 (by decide)).1 view seq).mpr (by decide)⟩

end DistributedNotary.Pbft
