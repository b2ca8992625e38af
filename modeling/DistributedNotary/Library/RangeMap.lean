import Mathlib.Data.List.AList
import Mathlib.Data.List.Perm.Basic

/-! Finite maps whose iteration order is not fixed. A map is an association
list with distinct keys; a loop over it visits the keys in an order supplied by
a `Range`, of which only that it is a permutation is known. `Collects` says
that a map holds exactly the keys of a list, each with a value of a known kind,
and is what a sequence of insertions establishes. -/
namespace DistributedNotary.Library

universe v

variable {κ : Type*} {ν : Type v} [DecidableEq κ]

abbrev RangeMap (κ ν : Type*) [DecidableEq κ] := AList (fun _ : κ => ν)

/-- The order in which one loop visits the keys of a map. -/
structure Range (κ : Type*) where
  visit : List κ → List κ
  perm : ∀ ks, (visit ks).Perm ks

/-- Visiting the keys in the order of the association list. -/
def Range.id (κ : Type*) : Range κ where
  visit := fun ks => ks
  perm := List.Perm.refl

/-- A loop that visits one key first, if it is there. -/
def Range.first (k : κ) : Range κ where
  visit ks := if k ∈ ks then k :: ks.erase k else ks
  perm ks := by
    split_ifs with hk
    · exact (List.perm_cons_erase hk).symm
    · exact List.Perm.refl _

namespace RangeMap

/-- The number of keys. -/
def len (m : RangeMap κ ν) : ℕ := m.keys.length

/-- The pairs of the map in the order in which a loop visits them. -/
def range (m : RangeMap κ ν) (rg : Range κ) : List (κ × ν) :=
  (rg.visit m.keys).filterMap fun k => (m.lookup k).map (Prod.mk k)

@[simp] theorem len_empty : len (∅ : RangeMap κ ν) = 0 := rfl

theorem mem_keys_of_lookup {m : RangeMap κ ν} {k : κ} {v : ν} (h : m.lookup k = some v) : k ∈ m.keys := by
  rw [← AList.mem_keys, ← AList.lookup_isSome, h]
  rfl

theorem mem_range {m : RangeMap κ ν} {rg : Range κ} {k : κ} {v : ν} :
    (k,v) ∈ m.range rg ↔ m.lookup k = some v := by
  simp only [range, List.mem_filterMap, Option.map_eq_some_iff, Prod.mk.injEq]
  constructor
  · rintro ⟨k', _, v', h, rfl, rfl⟩
    exact h
  · intro h
    exact ⟨k, (rg.perm _).mem_iff.mpr (mem_keys_of_lookup h), v, h, rfl, rfl⟩

theorem range_first {m : RangeMap κ ν} {k : κ} {v : ν} (h : m.lookup k = some v) :
    ∃ rest, m.range (Range.first k) = (k, v) :: rest := by
  refine ⟨(m.keys.erase k).filterMap fun k => (m.lookup k).map (Prod.mk k), ?_⟩
  rw [range, Range.first]
  dsimp only
  rw [if_pos (mem_keys_of_lookup h)]
  simp only [List.filterMap_cons, h, Option.map_some]

theorem len_insert_of_lookup_none {m : RangeMap κ ν} {k : κ} (v : ν) (h : m.lookup k = none) :
    len (m.insert k v) = len m + 1 := by
  have hk : k ∉ m := AList.lookup_eq_none.mp h
  simp [len, AList.keys_insert, List.erase_of_not_mem (fun hm => hk (AList.mem_keys.mpr hm))]

theorem erase_of_lookup_none {m : RangeMap κ ν} {k : κ} (h : m.lookup k = none) : m.erase k = m :=
  AList.ext (List.kerase_of_notMem_keys (AList.lookup_eq_none.mp h))

/-- The map holds exactly the keys `l`, each with a value that satisfies `P`. -/
structure Collects (m : RangeMap κ ν) (l : List κ) (P : κ → ν → Prop) : Prop where
  keys : m.keys.Perm l
  values : ∀ k ∈ l, ∃ v, m.lookup k = some v ∧ P k v

namespace Collects

variable {m : RangeMap κ ν} {l l' : List κ} {P Q : κ → ν → Prop}

theorem empty (P : κ → ν → Prop) : Collects (∅ : RangeMap κ ν) [] P :=
  ⟨List.Perm.refl _, by simp⟩

theorem len (h : Collects m l P) : RangeMap.len m = l.length := h.keys.length_eq

theorem perm (h : Collects m l P) (hl : l.Perm l') : Collects m l' P :=
  ⟨h.keys.trans hl, fun k hk => h.values k (hl.mem_iff.mpr hk)⟩

theorem lookup_none (h : Collects m l P) {k : κ} (hk : k ∉ l) : m.lookup k = none := by
  rw [AList.lookup_eq_none, AList.mem_keys]
  exact fun hm => hk (h.keys.mem_iff.mp hm)

theorem of_lookup (h : Collects m l P) {k : κ} {v : ν} (hk : m.lookup k = some v) : k ∈ l ∧ P k v := by
  have hkl : k ∈ l := h.keys.mem_iff.mp (mem_keys_of_lookup hk)
  obtain ⟨v', hv', hP⟩ := h.values k hkl
  rw [hk, Option.some.injEq] at hv'
  exact ⟨hkl, hv' ▸ hP⟩

theorem insert (h : Collects m l P) {k : κ} {v : ν} (hk : k ∉ l) (hv : P k v) :
    Collects (m.insert k v) (k :: l) P := by
  have hm : k ∉ m.keys := fun hm => hk (h.keys.mem_iff.mp hm)
  refine ⟨?_, fun k' hk' => ?_⟩
  · rw [AList.keys_insert, List.erase_of_not_mem hm]
    exact h.keys.cons k
  · rcases eq_or_ne k' k with rfl | hne
    · exact ⟨v, AList.lookup_insert m, hv⟩
    · rw [AList.lookup_insert_ne hne]
      exact h.values k' ((List.mem_cons.mp hk').resolve_left hne)

/-- A map with no other keys that is as large holds all of them. -/
theorem of_len (h : ∀ k v, m.lookup k = some v → k ∈ l ∧ P k v) (hlen : RangeMap.len m = l.length) :
    Collects m l P := by
  have hsub : m.keys ⊆ l := by
    intro k hk
    obtain ⟨v, hv⟩ := Option.isSome_iff_exists.mp (AList.lookup_isSome.mpr (AList.mem_keys.mpr hk))
    exact (h k v hv).1
  have hperm : m.keys.Perm l := (List.subperm_of_subset m.keys_nodup hsub).perm_of_length_le (Nat.le_of_eq hlen.symm)
  refine ⟨hperm, fun k hk => ?_⟩
  obtain ⟨v, hv⟩ := Option.isSome_iff_exists.mp (AList.lookup_isSome.mpr (AList.mem_keys.mpr (hperm.mem_iff.mpr hk)))
  exact ⟨v, hv, (h k v hv).2⟩

/-- A loop over such a map visits the listed keys in some order. -/
theorem range_fst_perm (h : Collects m l P) (rg : Range κ) : ((m.range rg).map Prod.fst).Perm l := by
  have hp : (rg.visit m.keys).Perm l := (rg.perm _).trans h.keys
  have hvisit : ∀ ks : List κ, (∀ k ∈ ks, k ∈ l) →
      (ks.filterMap fun k => (m.lookup k).map (Prod.mk k)).map Prod.fst = ks := by
    intro ks
    induction ks with
    | nil => exact fun _ => rfl
    | cons k ks ih =>
      intro hk
      obtain ⟨v, hv, _⟩ := h.values k (hk k (List.mem_cons_self ..))
      rw [List.filterMap_cons_some (b := (k,v)) (by rw [hv]; rfl), List.map_cons,
        ih fun k' hk' => hk k' (List.mem_cons_of_mem _ hk')]
  rw [range, hvisit _ fun k hk => hp.mem_iff.mp hk]
  exact hp

theorem of_mem_range (h : Collects m l P) {rg : Range κ} {p : κ × ν} (hp : p ∈ m.range rg) : P p.1 p.2 :=
  (h.of_lookup (mem_range.mp hp)).2

/-- What a loop reads off the values, when it depends on the keys alone. -/
theorem range_map_perm {α : Type*} (h : Collects m l P) (rg : Range κ) {f : κ × ν → α} {g : κ → α}
    (hfg : ∀ k v, P k v → f (k,v) = g k) : ((m.range rg).map f).Perm (l.map g) := by
  have hf : (m.range rg).map f = ((m.range rg).map Prod.fst).map g := by
    rw [List.map_map]
    exact List.map_congr_left fun p hp => hfg p.1 p.2 (h.of_mem_range hp)
  rw [hf]
  exact (h.range_fst_perm rg).map g

/-- The same for a loop that skips some keys. -/
theorem range_filter_map_perm {α : Type*} (h : Collects m l P) (rg : Range κ) (q : κ → Bool) {f : κ × ν → α}
    {g : κ → α} (hfg : ∀ k v, P k v → f (k,v) = g k) :
    (((m.range rg).filter fun p => q p.1).map f).Perm ((l.filter q).map g) := by
  have hf : ((m.range rg).filter fun p => q p.1).map f = (((m.range rg).map Prod.fst).filter q).map g := by
    rw [List.filter_map, List.map_map]
    exact List.map_congr_left fun p hp => hfg p.1 p.2 (h.of_mem_range (List.mem_filter.mp hp).1)
  rw [hf]
  exact ((h.range_fst_perm rg).filter q).map g

theorem mono (h : Collects m l P) (hPQ : ∀ k v, P k v → Q k v) : Collects m l Q :=
  ⟨h.keys, fun k hk => by
    obtain ⟨v, hv, hP⟩ := h.values k hk
    exact ⟨v, hv, hPQ k v hP⟩⟩

end Collects

/-- The map holds those keys of `l` for which `q` holds, each with a value that satisfies `P`. -/
structure Gathers (m : RangeMap κ ν) (l : List κ) (P : κ → ν → Prop) (q : κ → Prop) : Prop where
  values : ∀ k v, m.lookup k = some v → k ∈ l ∧ P k v
  keys : ∀ k ∈ l, (m.lookup k).isSome ↔ q k

namespace Gathers

variable {m : RangeMap κ ν} {l : List κ} {P P' : κ → ν → Prop} {q q' : κ → Prop}

theorem empty (l : List κ) (P : κ → ν → Prop) (h : ∀ k ∈ l, ¬ q k) : Gathers (∅ : RangeMap κ ν) l P q := by
  refine ⟨fun k v hk => ?_, fun k hk => ?_⟩
  · rw [AList.lookup_empty] at hk
    cases hk
  · rw [AList.lookup_empty]
    exact ⟨fun hs => absurd hs Bool.false_ne_true, fun hq => absurd hq (h k hk)⟩

theorem mono (h : Gathers m l P q) (hP : ∀ k v, m.lookup k = some v → P k v → P' k v) (hq : ∀ k ∈ l, q k ↔ q' k) :
    Gathers m l P' q' :=
  ⟨fun k v hk => ⟨(h.values k v hk).1, hP k v hk (h.values k v hk).2⟩, fun k hk => (h.keys k hk).trans (hq k hk)⟩

theorem insert (h : Gathers m l P q) {k : κ} {v : ν} (hk : k ∈ l) (hP : P k v) (hq : q' k)
    (hsame : ∀ k' ∈ l, k' ≠ k → (q k' ↔ q' k')) : Gathers (m.insert k v) l P q' := by
  refine ⟨fun k' v' hk' => ?_, fun k' hk' => ?_⟩
  · rcases eq_or_ne k' k with rfl | hne
    · rw [AList.lookup_insert] at hk'
      obtain rfl := Option.some.inj hk'
      exact ⟨hk, hP⟩
    · rw [AList.lookup_insert_ne hne] at hk'
      exact h.values k' v' hk'
  · rcases eq_or_ne k' k with rfl | hne
    · rw [AList.lookup_insert]
      exact ⟨fun _ => hq, fun _ => rfl⟩
    · rw [AList.lookup_insert_ne hne]
      exact (h.keys k' hk').trans (hsame k' hk' hne)

theorem lookup_none (h : Gathers m l P q) {k : κ} (hk : k ∈ l) (hq : ¬ q k) : m.lookup k = none := by
  rw [← Option.not_isSome_iff_eq_none]
  exact fun hs => hq ((h.keys k hk).mp hs)

theorem collects (h : Gathers m l P q) (hlen : len m = l.length) : Collects m l P := .of_len h.values hlen

theorem keys_subset (h : Gathers m l P q) : m.keys ⊆ l := by
  intro k hk
  obtain ⟨v, hv⟩ := Option.isSome_iff_exists.mp (AList.lookup_isSome.mpr (AList.mem_keys.mpr hk))
  exact (h.values k v hv).1

/-- A map that misses a key is not complete. -/
theorem len_lt (h : Gathers m l P q) {k : κ} (hk : k ∈ l) (hnone : m.lookup k = none) : len m < l.length := by
  have hnot : k ∉ m.keys := fun hm => AList.lookup_eq_none.mp hnone (AList.mem_keys.mpr hm)
  have hsub : k :: m.keys ⊆ l := List.cons_subset.mpr ⟨hk,h.keys_subset⟩
  exact (List.subperm_of_subset (List.nodup_cons.mpr ⟨hnot,m.keys_nodup⟩) hsub).length_le

/-- A map is complete when every key has its value. -/
theorem len_eq (h : Gathers m l P q) (hl : l.Nodup) (hall : ∀ k ∈ l, q k) : len m = l.length := by
  refine List.Perm.length_eq (List.Subperm.antisymm (List.subperm_of_subset m.keys_nodup h.keys_subset) ?_)
  refine List.subperm_of_subset hl fun k hk => ?_
  obtain ⟨v, hv⟩ := Option.isSome_iff_exists.mp ((h.keys k hk).mpr (hall k hk))
  exact mem_keys_of_lookup hv

end Gathers

/-- A fold that stores one value for each key and tests for completion after every insertion
amounts to one test on the complete map. -/
theorem foldlM_collect {σ : Type v} {ε : Type*} (set : RangeMap κ ν → σ) (recv : σ → ν → κ → Except ε σ)
    (check : σ → Except ε σ) (msg : κ → Except ε ν) {P : κ → ν → Prop} {total : ℕ}
    (hrecv : ∀ m v j, m.lookup j = none → P j v → recv (set m) v j = check (set (m.insert j v)))
    (hcheck : ∀ m, len m < total → check (set m) = .ok (set m))
    {order l : List κ} {m : RangeMap κ ν} (hm : Collects m l P) (hmsg : ∀ j ∈ order, ∃ v, msg j = .ok v ∧ P j v)
    (hnd : order.Nodup) (hdisj : ∀ j ∈ order, j ∉ l) (hne : order ≠ [])
    (htotal : l.length + order.length = total) :
    ∃ m', Collects m' (order ++ l) P ∧
      order.foldlM (fun h j => do recv h (← msg j) j) (set m) = check (set m') := by
  induction order generalizing m l with
  | nil => exact absurd rfl hne
  | cons j order ih =>
    obtain ⟨hj, hnd⟩ := List.nodup_cons.mp hnd
    obtain ⟨v, hv, hP⟩ := hmsg j (List.mem_cons_self ..)
    have hjl : j ∉ l := hdisj j (List.mem_cons_self ..)
    have hstep : (do recv (set m) (← msg j) j) = check (set (m.insert j v)) := by
      rw [hv]
      exact hrecv m v j (hm.lookup_none hjl) hP
    have hm' := hm.insert hjl hP
    rw [List.foldlM_cons, hstep]
    rcases eq_or_ne order [] with rfl | hne'
    · refine ⟨m.insert j v, hm', ?_⟩
      cases check (set (m.insert j v)) <;> rfl
    · have hlen : len (m.insert j v) < total := by
        rw [hm'.len]
        have := List.length_pos_of_ne_nil hne'
        simp only [List.length_cons] at htotal ⊢
        omega
      rw [hcheck _ hlen]
      obtain ⟨m', h1, h2⟩ := ih hm' (fun k hk => hmsg k (List.mem_cons_of_mem _ hk)) hnd
        (fun k hk => by
          rw [List.mem_cons, not_or]
          exact ⟨fun h => hj (h ▸ hk), hdisj k (List.mem_cons_of_mem _ hk)⟩) hne'
        (by simp only [List.length_cons] at htotal ⊢; omega)
      exact ⟨m', h1.perm List.perm_middle, h2⟩

/-- The map without the keys whose entry fails the test. -/
def filter (m : RangeMap κ ν) (q : κ → ν → Bool) : RangeMap κ ν where
  entries := m.entries.filter fun e => q e.1 e.2
  nodupKeys := m.nodupKeys.sublist List.filter_sublist

theorem lookup_filter (m : RangeMap κ ν) (q : κ → ν → Bool) (k : κ) :
    (m.filter q).lookup k = (m.lookup k).filter (q k) := by
  ext v
  rw [Option.filter_eq_some_iff]
  change v ∈ (m.filter q).lookup k ↔ v ∈ m.lookup k ∧ _
  rw [AList.mem_lookup_iff, AList.mem_lookup_iff]
  exact List.mem_filter

theorem lookup_insert_eq (m : RangeMap κ ν) (k j : κ) (v : ν) :
    (m.insert k v).lookup j = if j = k then some v else m.lookup j := by
  split
  · next h =>
    subst h
    exact AList.lookup_insert m
  · next h => exact AList.lookup_insert_ne h

/-- The members of a list are stored one after the other: of those with the same key the last one stays. -/
theorem lookup_foldl_insert_map {α : Type*} (key : α → κ) (value : α → ν) (l : List α) (m : RangeMap κ ν) (k : κ) :
    (l.foldl (fun m a => m.insert (key a) (value a)) m).lookup k =
      ((l.reverse.find? fun a => key a = k).map value).or (m.lookup k) := by
  induction l generalizing m with
  | nil => rfl
  | cons a l ih =>
    rw [List.foldl_cons, ih, List.reverse_cons, List.find?_append, Option.map_or, Option.or_assoc, lookup_insert_eq]
    by_cases hkey : key a = k
    · simp [hkey]
    · simp [hkey, Ne.symm hkey]

theorem lookup_foldl_insert (key : ν → κ) (l : List ν) (m : RangeMap κ ν) (k : κ) :
    (l.foldl (fun m v => m.insert (key v) v) m).lookup k = (l.reverse.find? fun v => key v = k).or (m.lookup k) := by
  have hmap := lookup_foldl_insert_map key (fun v => v) l m k
  rwa [Option.map_id'] at hmap

/-- The keys of a list are deleted one after the other. -/
theorem lookup_foldl_erase (l : List κ) (m : RangeMap κ ν) (k : κ) :
    (l.foldl (fun m j => m.erase j) m).lookup k = if k ∈ l then none else m.lookup k := by
  induction l generalizing m with
  | nil => simp
  | cons j l ih =>
    rw [List.foldl_cons, ih]
    by_cases hk : k = j
    · subst hk
      simp
    · simp [hk, AList.lookup_erase_ne hk]

/-- A loop visits every key once. -/
theorem nodup_range_fst (m : RangeMap κ ν) (rg : Range κ) : ((m.range rg).map Prod.fst).Nodup := by
  have hcollects : Collects m m.keys fun _ _ => True := by
    refine ⟨List.Perm.refl _, fun k hk => ?_⟩
    obtain ⟨v, hv⟩ := Option.isSome_iff_exists.mp (AList.lookup_isSome.mpr (AList.mem_keys.mpr hk))
    exact ⟨v, hv, trivial⟩
  exact (hcollects.range_fst_perm rg).nodup_iff.mpr m.nodupKeys

/-- What holds of the members of all lists holds of those of a list with one more. -/
theorem forall_mem_append {α : Type*} {m : RangeMap κ (List α)} {P : α → Prop}
    (h : ∀ k l, m.lookup k = some l → ∀ a ∈ l, P a) (k : κ) {a : α} (ha : P a) :
    ∀ b ∈ (m.lookup k).getD [] ++ [a], P b := by
  intro b hb
  rcases List.mem_append.mp hb with hb | hb
  · cases hl : m.lookup k with
    | none =>
      rw [hl] at hb
      exact absurd hb List.not_mem_nil
    | some l =>
      rw [hl] at hb
      exact h k l hl b hb
  · exact List.mem_singleton.mp hb ▸ ha

theorem lookup_of_lookup_filter {m : RangeMap κ ν} {q : κ → ν → Bool} {k : κ} {v : ν}
    (h : (m.filter q).lookup k = some v) : m.lookup k = some v ∧ q k v = true := by
  rw [lookup_filter, Option.filter_eq_some_iff] at h
  exact h

/-- Filtering does not touch a pair that is inserted afresh and passes the test. -/
theorem filter_insert {m : RangeMap κ ν} {q : κ → ν → Bool} {k : κ} {v : ν} (hq : q k v = true)
    (hk : m.lookup k = none) : filter (m.insert k v) q = (m.filter q).insert k v := by
  have hk' : (m.filter q).lookup k = none := by
    rw [lookup_filter, hk]
    rfl
  apply AList.ext
  change ((m.insert k v).entries.filter fun e => q e.1 e.2) = ((m.filter q).insert k v).entries
  rw [AList.entries_insert_of_notMem (AList.lookup_eq_none.mp hk),
    AList.entries_insert_of_notMem (AList.lookup_eq_none.mp hk'), List.filter_cons_of_pos (by exact hq)]
  rfl

/-- The map with the given keys and the values of a function. -/
def tabulate (l : List κ) (f : κ → ν) : RangeMap κ ν := l.foldr (fun k m => m.insert k (f k)) ∅

theorem lookup_tabulate {l : List κ} {f : κ → ν} {k : κ} (hk : k ∈ l) :
    (tabulate l f).lookup k = some (f k) := by
  induction l with
  | nil => exact absurd hk (List.not_mem_nil)
  | cons k' l ih =>
    rcases eq_or_ne k k' with rfl | hne
    · exact AList.lookup_insert _
    · exact (AList.lookup_insert_ne hne).trans (ih ((List.mem_cons.mp hk).resolve_left hne))

end RangeMap

end DistributedNotary.Library
