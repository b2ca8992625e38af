import Mathlib
import DistributedNotary.Library.Transition
import DistributedNotary.Pbft.Client

/-! What a client's results rest on. A client counts the replicas that agree on
the number of a request, and delivers the number and the auxiliary of the last
of their responses, so the auxiliary may be the word of one replica. -/
namespace DistributedNotary.Pbft

open Library

/-- Responses for the same request are counted together when their numbers agree. -/
theorem Client.key_eq_iff {r r' : ResponseArgs} (h : r.res = r'.res) :
    Client.key r = Client.key r' ↔ r.seq = r'.seq := by
  constructor
  · intro hk
    unfold Client.key at hk
    rw [h, String.append_right_inj] at hk
    exact Int.repr_injective hk
  · intro hs
    unfold Client.key
    rw [h, hs]

/-- The replicas whose responses in the list pass the test. -/
def responders (l : List ResponseArgs) (q : ResponseArgs → Bool) : Finset ℤ :=
  ((l.filter q).map ResponseArgs.rid).toFinset

theorem mem_responders {l : List ResponseArgs} {q : ResponseArgs → Bool} {i : ℤ} :
    i ∈ responders l q ↔ ∃ r ∈ l, q r = true ∧ r.rid = i := by
  simp [responders, and_assoc]

theorem responders_mono {l l' : List ResponseArgs} {q : ResponseArgs → Bool} (h : l ⊆ l') :
    responders l q ⊆ responders l' q := by
  intro i hi
  obtain ⟨r, hr, hq, rfl⟩ := mem_responders.mp hi
  exact mem_responders.mpr ⟨r, h hr, hq, rfl⟩

namespace Client

theorem length_dedup_count (l : List ResponseArgs) (q : ResponseArgs → Bool) :
    ((l.filter q).map ResponseArgs.rid).dedup.length = (responders l q).card := by
  rw [responders, List.card_toFinset]

/-- A group that is reached belongs to a response of the list. -/
theorem exists_of_reached {f : ℕ} {seen l : List ResponseArgs} (h : reached f seen l = true) :
    ∃ r ∈ l, f < (responders (seen ++ l) fun r' => key r' = key r).card := by
  induction l generalizing seen with
  | nil => simp [reached] at h
  | cons r rs ih =>
    unfold reached at h
    simp only [length_dedup_count] at h
    split_ifs at h with hr
    · refine ⟨r, List.mem_cons_self .., hr.2.trans_le (Finset.card_le_card (responders_mono ?_))⟩
      intro x hx
      rw [List.mem_append, List.mem_cons]
      rcases List.mem_cons.mp hx with rfl | hx
      · exact .inr (.inl rfl)
      · exact .inl hx
    · obtain ⟨r', hr', hcard⟩ := ih h
      refine ⟨r', List.mem_cons_of_mem _ hr', hcard.trans_le (Finset.card_le_card (responders_mono ?_))⟩
      intro x hx
      simp only [List.cons_append, List.mem_cons, List.mem_append] at hx ⊢
      tauto

theorem lt_length_of_reached {f : ℕ} {l : List ResponseArgs} (h : reached f [] l = true) : f < l.length := by
  obtain ⟨r, -, hcard⟩ := exists_of_reached h
  rw [List.nil_append, ← length_dedup_count] at hcard
  refine hcard.trans_le ((List.dedup_sublist _).length_le.trans ?_)
  rw [List.length_map]
  exact List.length_filter_le _ _

/-- No group is complete where none is reached. -/
theorem card_le_of_not_reached {f : ℕ} {seen l : List ResponseArgs} (h : reached f seen l = false)
    (hseen : ∀ r ∈ seen, (responders seen fun r' => key r' = key r).card ≤ f) :
    ∀ r ∈ seen ++ l, (responders (seen ++ l) fun r' => key r' = key r).card ≤ f := by
  induction l generalizing seen with
  | nil => simpa using hseen
  | cons r rs ih =>
    unfold reached at h
    simp only [length_dedup_count] at h
    split_ifs at h with hr
    have hself : (responders (r :: seen) fun r' => key r' = key r).card ≤ f := by
      by_contra hlt
      refine hr ⟨?_, not_le.mp hlt⟩
      rw [not_le, ← length_dedup_count] at hlt
      exact hlt.trans_le (List.dedup_sublist _).length_le
    have hseen' : ∀ r' ∈ r :: seen, (responders (r :: seen) fun x => key x = key r').card ≤ f := by
      intro r' hr'
      by_cases hk : key r' = key r
      · rw [hk]
        exact hself
      · -- the new response belongs to another group
        have hmem : r' ∈ seen := (List.mem_cons.mp hr').resolve_left fun e => hk (e ▸ rfl)
        refine (Finset.card_le_card fun i hi => ?_).trans (hseen r' hmem)
        obtain ⟨x, hx, hq, rfl⟩ := mem_responders.mp hi
        rw [decide_eq_true_eq] at hq
        refine mem_responders.mpr ⟨x, (List.mem_cons.mp hx).resolve_left ?_, decide_eq_true hq, rfl⟩
        rintro rfl
        exact hk hq.symm
    have hall := ih h hseen'
    have hset : ∀ x, x ∈ (r :: seen) ++ rs ↔ x ∈ seen ++ (r :: rs) := by
      intro x
      simp only [List.cons_append, List.mem_cons, List.mem_append]
      tauto
    intro r' hr'
    refine (Finset.card_le_card (responders_mono fun x hx => (hset x).mpr hx)).trans (hall r' ((hset r').mpr hr'))

/-- The group that a response completes is its own. -/
theorem lt_card_of_reached {f : ℕ} {op : String} {res : List ResponseArgs} {args : ResponseArgs}
    (hres : ∀ a ∈ res, a.res = op) (hargs : args.res = op) (hopen : reached f [] res = false)
    (h : reached f [] (res ++ [args]) = true) : f < (responders (res ++ [args]) fun a => a.seq = args.seq).card := by
  have hop : ∀ a ∈ res ++ [args], a.res = op := by
    intro a ha
    rcases List.mem_append.mp ha with ha | ha
    · exact hres a ha
    · exact List.mem_singleton.mp ha ▸ hargs
  have hseq : ∀ r ∈ res ++ [args], responders (res ++ [args]) (fun a => key a = key r) =
      responders (res ++ [args]) fun a => a.seq = r.seq := by
    intro r hr
    ext i
    simp only [mem_responders, decide_eq_true_eq]
    refine exists_congr fun a => and_congr_right fun ha => ?_
    rw [key_eq_iff ((hop a ha).trans (hop r hr).symm)]
  obtain ⟨r, hr, hcard⟩ := exists_of_reached h
  rw [List.nil_append, hseq r hr] at hcard
  rcases List.mem_append.mp hr with hmem | hmem
  · by_cases heq : r.seq = args.seq
    · rw [heq] at hcard
      exact hcard
    · -- without the last response that group was not complete
      have hle := card_le_of_not_reached hopen (by simp) r hmem
      rw [List.nil_append] at hle
      refine absurd (hcard.trans_le (Finset.card_le_card fun i hi => ?_)) (not_lt.mpr hle)
      obtain ⟨a, ha, hs, rfl⟩ := mem_responders.mp hi
      rw [decide_eq_true_eq] at hs
      have ha : a ∈ res := (List.mem_append.mp ha).resolve_right fun e =>
        heq (hs.symm.trans (congrArg ResponseArgs.seq (List.mem_singleton.mp e)))
      refine mem_responders.mpr ⟨a, ha, decide_eq_true ?_, rfl⟩
      exact (key_eq_iff ((hres a ha).trans (hres r hmem).symm)).mpr hs
  · rw [List.mem_singleton.mp hmem] at hcard
    exact hcard

end Client

/-- The responses among the inputs of a client. -/
def responses (l : List ClientInput) : List ResponseArgs :=
  l.filterMap fun a => match a with
    | .response args => some args
    | _ => none

/-- The replicas that gave, for the request of a result, its number and its auxiliary. -/
def backers (l : List ClientInput) (o : OpResult) : Finset ℤ :=
  responders (responses l) fun a => a.res = o.cmd ∧ a.seq = o.seq ∧ a.auxiliary = o.auxiliary

/-- Where a response makes a group of more than `f` replicas with its number, each replica of the group gave
its auxiliary as well. -/
def Client.AgreesOnAuxiliary (c : Client) : ClientInput → Prop
  | .response args =>
    ∀ r ∈ c.log.lookup args.res, c.f < (responders ((c.heap r).res ++ [args]) fun a => a.seq = args.seq).card →
      ∀ a ∈ (c.heap r).res, a.seq = args.seq →
        ∃ a' ∈ (c.heap r).res ++ [args], a'.rid = a.rid ∧ a'.seq = args.seq ∧ a'.auxiliary = args.auxiliary
  | _ => True

theorem mem_responses {l : List ClientInput} {args : ResponseArgs} : args ∈ responses l ↔ .response args ∈ l := by
  unfold responses
  rw [List.mem_filterMap]
  constructor
  · rintro ⟨a, ha, h⟩
    cases a with
    | response args' =>
      obtain rfl := Option.some.inj h
      exact ha
    | _ => nomatch h
  · intro h
    exact ⟨_, h, rfl⟩

theorem backers_mono {l l' : List ClientInput} {o : OpResult} (h : l ⊆ l') : backers l o ⊆ backers l' o :=
  responders_mono fun _ ha => mem_responses.mpr (h (mem_responses.mp ha))

/-- What a client for `f` faults keeps of the inputs `l` that it has taken. -/
structure Client.Kept (f : ℕ) (l : List ClientInput) (c : Client) : Prop where
  fault : c.f = f
  refs : ∀ op r, c.log.lookup op = some r → r < c.next
  unshared : ∀ op op' r, c.log.lookup op = some r → c.log.lookup op' = some r → op = op'
  res : ∀ op r, c.log.lookup op = some r → ∀ a ∈ (c.heap r).res, a.res = op ∧ .response a ∈ l
  unfinished : ∀ op r, c.log.lookup op = some r → reached f [] (c.heap r).res = false
  backed : ∀ o ∈ c.apply, o.error = none → f + 1 ≤ (backers l o).card

namespace Client.Kept

variable {f : ℕ} {l l' : List ClientInput} {c c' : Client}

theorem mono (h : Kept f l c) (hl : l ⊆ l') (hf : c'.f = c.f) (hnext : c.next ≤ c'.next)
    (hlog : ∀ op r, c'.log.lookup op = some r → c.log.lookup op = some r)
    (hheap : ∀ op r, c'.log.lookup op = some r → (c'.heap r).res = (c.heap r).res)
    (happly : ∀ o ∈ c'.apply, o.error = none → o ∈ c.apply) : Kept f l' c' where
  fault := hf.trans h.fault
  refs op r hr := (h.refs op r (hlog op r hr)).trans_le hnext
  unshared op op' r hr hr' := h.unshared op op' r (hlog op r hr) (hlog op' r hr')
  res op r hr a ha := by
    rw [hheap op r hr] at ha
    exact ⟨(h.res op r (hlog op r hr) a ha).1, hl (h.res op r (hlog op r hr) a ha).2⟩
  unfinished op r hr := by
    rw [hheap op r hr]
    exact h.unfinished op r (hlog op r hr)
  backed o ho he := (h.backed o (happly o ho he) he).trans (Finset.card_le_card (backers_mono hl))

theorem lookup_erase {log : RangeMap String ℕ} {cmd op : String} {r : ℕ}
    (h : (AList.erase cmd log).lookup op = some r) : log.lookup op = some r := by
  by_cases hop : op = cmd
  · subst hop
    rw [AList.lookup_erase] at h
    nomatch h
  · rw [AList.lookup_erase_ne hop] at h
    exact h

/-- A result that reports an error, or one that is backed. -/
theorem notifyResult (h : Kept f l c) {cmd auxiliary : String} {seq : ℤ} {err : Option String}
    (hb : err = none → f + 1 ≤ (backers l ⟨cmd, auxiliary, seq, err⟩).card) :
    Kept f l (c.notifyResult cmd auxiliary seq err) where
  fault := h.fault
  refs op r hr := h.refs op r (lookup_erase hr)
  unshared op op' r hr hr' := h.unshared op op' r (lookup_erase hr) (lookup_erase hr')
  res op r hr := h.res op r (lookup_erase hr)
  unfinished op r hr := h.unfinished op r (lookup_erase hr)
  backed o ho he := by
    unfold Client.notifyResult at ho
    simp only at ho
    split_ifs at ho
    · rcases List.mem_append.mp ho with ho | ho
      · exact h.backed o ho he
      · obtain rfl := List.mem_singleton.mp ho
        exact hb he
    · exact h.backed o ho he

theorem setEntry (h : Kept f l c) (r : ℕ) (ent : CEntry) (hres : ent.res = (c.heap r).res) :
    Kept f l (c.setEntry r ent) :=
  h.mono (List.Subset.refl l) rfl le_rfl (fun _ _ hr => hr)
    (fun _ r' _ => by
      unfold Client.setEntry
      by_cases e : r' = r
      · subst e
        simpa using hres
      · simp [e])
    fun _ ho _ => ho

theorem newEntry (h : Kept f l c) (op : String) :
    Kept f l { c with
      log := c.log.insert op c.next, heap := Function.update c.heap c.next {}, next := c.next + 1 } where
  fault := h.fault
  refs op' r hr := by
    simp only [RangeMap.lookup_insert_eq] at hr
    split at hr
    · exact Option.some.inj hr ▸ Nat.lt_succ_self _
    · exact Nat.lt_succ_of_lt (h.refs op' r hr)
  unshared op₁ op₂ r hr hr' := by
    simp only [RangeMap.lookup_insert_eq] at hr hr'
    split at hr <;> split at hr'
    · next h1 h2 => exact h1.trans h2.symm
    · exact absurd (h.refs _ _ hr') (Option.some.inj hr ▸ lt_irrefl _)
    · exact absurd (h.refs _ _ hr) (Option.some.inj hr' ▸ lt_irrefl _)
    · exact h.unshared _ _ r hr hr'
  res op' r hr := by
    simp only [RangeMap.lookup_insert_eq] at hr
    split at hr
    · obtain rfl := Option.some.inj hr
      simp
    · have := (h.refs op' r hr).ne
      simpa [this] using h.res op' r hr
  unfinished op' r hr := by
    simp only [RangeMap.lookup_insert_eq] at hr
    split at hr
    · obtain rfl := Option.some.inj hr
      simp [reached]
    · have := (h.refs op' r hr).ne
      simpa [this] using h.unfinished op' r hr
  backed := h.backed

end Client.Kept

namespace Client

variable {f : ℕ} {l : List ClientInput} {c c' : Client}

theorem Kept.start (h : Kept f l c) {cmd : String} {timestamp : ℤ} {canOpSuccess : Option String}
    (hs : c.step (.start cmd timestamp canOpSuccess) = .ok c') :
    Kept f (.start cmd timestamp canOpSuccess :: l) c' := by
  have h : Kept f (.start cmd timestamp canOpSuccess :: l) c :=
    h.mono (List.subset_cons_self _ _) rfl le_rfl (fun _ _ hr => hr) (fun _ _ _ => rfl) fun _ ho _ => ho
  unfold step startInternal newCEntry at hs
  simp only [] at hs
  cases hl : c.log.lookup cmd with
  | some r =>
    simp only [hl, if_true] at hs
    obtain rfl := Except.ok.inj hs
    exact h.notifyResult fun he => nomatch he
  | none =>
    simp only [hl, Bool.false_eq_true, if_false] at hs
    cases canOpSuccess with
    | some err =>
      obtain rfl := Except.ok.inj hs
      exact (h.newEntry cmd).notifyResult fun he => nomatch he
    | none =>
      have hreq := (h.newEntry cmd).setEntry c.next
        { Function.update c.heap c.next {} c.next with
          req := some { op := cmd, id := c.id, timestamp := timestamp } } rfl
      simp only [] at hs
      split_ifs at hs
      · obtain rfl := Except.ok.inj hs
        exact hreq.mono (List.Subset.refl _) rfl le_rfl (fun _ _ hr => hr) (fun _ _ _ => rfl) fun _ ho _ => ho
      · obtain rfl := Except.ok.inj hs
        exact hreq.mono (List.Subset.refl _) rfl le_rfl (fun _ _ hr => hr) (fun _ _ _ => rfl) fun _ ho _ => ho

theorem Kept.addResponse (h : Kept f l c) {r : ℕ} {args : ResponseArgs} (hr : c.log.lookup args.res = some r)
    (hopen : reached f [] ((c.heap r).res ++ [args]) = false) {ent : CEntry}
    (hent : ent.res = (c.heap r).res ++ [args]) : Kept f (.response args :: l) (c.setEntry r ent) where
  fault := h.fault
  refs := h.refs
  unshared := h.unshared
  res op r' hr' a ha := by
    by_cases e : r' = r
    · subst e
      obtain rfl := h.unshared _ _ _ hr hr'
      simp only [Client.setEntry, Function.update_self, hent] at ha
      rcases List.mem_append.mp ha with ha | ha
      · exact ⟨(h.res _ r' hr a ha).1, List.mem_cons_of_mem _ (h.res _ r' hr a ha).2⟩
      · obtain rfl := List.mem_singleton.mp ha
        exact ⟨rfl, List.mem_cons_self ..⟩
    · simp only [Client.setEntry, ne_eq, e, not_false_eq_true, Function.update_of_ne] at ha
      exact ⟨(h.res op r' hr' a ha).1, List.mem_cons_of_mem _ (h.res op r' hr' a ha).2⟩
  unfinished op r' hr' := by
    by_cases e : r' = r
    · subst e
      simpa [Client.setEntry, hent] using hopen
    · simpa [Client.setEntry, e] using h.unfinished op r' hr'
  backed o ho he := (h.backed o ho he).trans (Finset.card_le_card (backers_mono (List.subset_cons_self _ _)))

/-- The group with the number of the last response gave its auxiliary. -/
theorem Kept.lt_card_backers (h : Kept f l c) {r : ℕ} {args : ResponseArgs} (hr : c.log.lookup args.res = some r)
    (hagree : c.AgreesOnAuxiliary (.response args)) (hdone : reached f [] ((c.heap r).res ++ [args]) = true) :
    f < (backers (.response args :: l) ⟨args.res, args.auxiliary, args.seq, none⟩).card := by
  have hgroup := lt_card_of_reached (fun a ha => (h.res _ r hr a ha).1) rfl (h.unfinished _ r hr) hdone
  refine hgroup.trans_le (Finset.card_le_card fun i hi => ?_)
  have hreceived : ∀ a ∈ (c.heap r).res ++ [args], a.res = args.res ∧ .response a ∈ .response args :: l := by
    intro a ha
    rcases List.mem_append.mp ha with ha | ha
    · exact ⟨(h.res _ r hr a ha).1, List.mem_cons_of_mem _ (h.res _ r hr a ha).2⟩
    · obtain rfl := List.mem_singleton.mp ha
      exact ⟨rfl, List.mem_cons_self ..⟩
  obtain ⟨a, ha, hseq, rfl⟩ := mem_responders.mp hi
  rw [decide_eq_true_eq] at hseq
  obtain ⟨a', ha', hrid, hseq', haux⟩ : ∃ a' ∈ (c.heap r).res ++ [args],
      a'.rid = a.rid ∧ a'.seq = args.seq ∧ a'.auxiliary = args.auxiliary := by
    rcases List.mem_append.mp ha with hmem | hmem
    · exact hagree r hr (h.fault ▸ hgroup) a hmem hseq
    · obtain rfl := List.mem_singleton.mp hmem
      exact ⟨a, ha, rfl, rfl, rfl⟩
  obtain ⟨hres, hin⟩ := hreceived a' ha'
  refine mem_responders.mpr ⟨a', mem_responses.mpr hin, decide_eq_true ⟨hres, hseq', haux⟩, hrid⟩

theorem Kept.countResponse (h : Kept f l c) {r : ℕ} {args : ResponseArgs} (hr : c.log.lookup args.res = some r)
    (hagree : c.AgreesOnAuxiliary (.response args)) (hs : c.countResponse r args = .ok c') :
    Kept f (.response args :: l) c' := by
  have hl : Kept f (.response args :: l) c :=
    h.mono (List.subset_cons_self _ _) rfl le_rfl (fun _ _ hr => hr) (fun _ _ _ => rfl) fun _ ho _ => ho
  unfold Client.countResponse at hs
  split_ifs at hs with happly
  · obtain rfl := Except.ok.inj hs
    exact hl
  · have hfault : (c.setEntry r { c.heap r with res := (c.heap r).res ++ [args] }).f = f := h.fault
    simp only [hfault] at hs
    split_ifs at hs with hdone
    · obtain ⟨reqQueue, backupQueue, retry, rfl⟩ := complete_frame hs
      have hbacked := h.lt_card_backers hr hagree hdone.2
      -- the entry is deleted before the result goes out, so nothing refers to its responses
      have hkept : Kept f (.response args :: l) { c with log := AList.erase args.res c.log } :=
        hl.mono (List.Subset.refl _) rfl le_rfl (fun _ _ hr' => Kept.lookup_erase hr') (fun _ _ _ => rfl)
          fun _ ho _ => ho
      have herased : ∀ op r', (AList.erase args.res c.log).lookup op = some r' → r' ≠ r := by
        rintro op r' hr' rfl
        obtain rfl := h.unshared _ _ _ (Kept.lookup_erase hr') hr
        rw [AList.lookup_erase] at hr'
        nomatch hr'
      refine ⟨hkept.fault, hkept.refs, hkept.unshared, fun op r' hr' => ?_, fun op r' hr' => ?_, fun o ho he => ?_⟩
      · have hres := hkept.res op r' hr'
        simpa [Client.notifyResult, Client.setEntry, herased op r' hr'] using hres
      · have hopen := hkept.unfinished op r' hr'
        simpa [Client.notifyResult, Client.setEntry, herased op r' hr'] using hopen
      · simp only [Client.notifyResult] at ho
        split_ifs at ho
        · rcases List.mem_append.mp ho with ho | ho
          · exact hkept.backed o ho he
          · obtain rfl := List.mem_singleton.mp ho
            exact hbacked
        · exact hkept.backed o ho he
    · obtain rfl := Except.ok.inj hs
      refine h.addResponse hr ?_ rfl
      by_contra hreach
      rw [Bool.not_eq_false] at hreach
      exact hdone ⟨lt_length_of_reached hreach, hreach⟩

theorem Kept.response (h : Kept f l c) {args : ResponseArgs} (hagree : c.AgreesOnAuxiliary (.response args))
    (hs : c.response args = .ok c') : Kept f (.response args :: l) c' := by
  unfold Client.response at hs
  split at hs
  · obtain rfl := Except.ok.inj hs
    exact h.mono (List.subset_cons_self _ _) rfl le_rfl (fun _ _ hr => hr) (fun _ _ _ => rfl) fun _ ho _ => ho
  · next r hr =>
    have hview : Kept f l { c with view := max args.view c.view } :=
      h.mono (List.Subset.refl l) rfl le_rfl (fun _ _ hr => hr) (fun _ _ _ => rfl) fun _ ho _ => ho
    have hstop := hview.setEntry r { c.heap r with t := false } rfl
    refine hstop.countResponse hr ?_ hs
    intro r' hr'
    obtain rfl : r' = r := Option.some.inj (hr'.symm.trans hr)
    have hres : (({ c with view := max args.view c.view } : Client).setEntry r' { c.heap r' with t := false }).heap r' =
        { c.heap r' with t := false } := Function.update_self ..
    rw [hres]
    exact hagree r' hr

theorem Kept.sendRequest (h : Kept f l c) (r : ℕ) : Kept f l (c.sendRequest r) := by
  unfold Client.sendRequest
  simp only []
  split_ifs
  · exact h.setEntry _ _ rfl
  · exact (h.setEntry r { c.heap r with t := true, ft := false } rfl).mono (List.Subset.refl l) rfl le_rfl
      (fun _ _ hr => hr) (fun _ _ _ => rfl) fun _ ho _ => ho
  · exact (h.setEntry r { c.heap r with t := true, ft := false } rfl).mono (List.Subset.refl l) rfl le_rfl
      (fun _ _ hr => hr) (fun _ _ _ => rfl) fun _ ho _ => ho

theorem Kept.step (h : Kept f l c) {a : ClientInput} (hagree : c.AgreesOnAuxiliary a) (hs : c.step a = .ok c') :
    Kept f (a :: l) c' := by
  have hl : Kept f (a :: l) c :=
    h.mono (List.subset_cons_self _ _) rfl le_rfl (fun _ _ hr => hr) (fun _ _ _ => rfl) fun _ ho _ => ho
  cases a with
  | start cmd timestamp canOpSuccess => exact h.start hs
  | response args => exact h.response hagree hs
  | retry k =>
    unfold Client.step at hs
    simp only [] at hs
    split at hs
    · next r hr =>
      obtain rfl := Except.ok.inj hs
      have htaken : Kept f (.retry k :: l) { c with retry := c.retry.eraseIdx k } :=
        hl.mono (List.Subset.refl _) rfl le_rfl (fun _ _ hr => hr) (fun _ _ _ => rfl) fun _ ho _ => ho
      exact htaken.sendRequest r
    · obtain rfl := Except.ok.inj hs
      exact hl
  | timeout r =>
    unfold Client.step at hs
    simp only [] at hs
    split_ifs at hs
    · obtain rfl := Except.ok.inj hs
      exact (hl.setEntry r { c.heap r with t := false } rfl).mono (List.Subset.refl _) rfl le_rfl
        (fun _ _ hr => hr) (fun _ _ _ => rfl) fun _ ho _ => ho
    · obtain rfl := Except.ok.inj hs
      exact hl
  | take =>
    obtain rfl := Except.ok.inj hs
    exact hl.mono (List.Subset.refl _) rfl le_rfl (fun _ _ hr => hr) (fun _ _ _ => rfl)
      fun _ ho _ => List.mem_of_mem_tail ho

theorem Kept.new (cid : ℤ) (f : ℕ) (nodes : List ℤ) : Kept f [] (Client.new cid f nodes) where
  fault := rfl
  refs op r hr := by simp [Client.new] at hr
  unshared op op' r hr := by simp [Client.new] at hr
  res op r hr := by simp [Client.new] at hr
  unfinished op r hr := by simp [Client.new] at hr
  backed o ho := by simp [Client.new] at ho

/-- In every run in which the replicas that agree on the number of a request when it is complete agree on its
auxiliary as well, more than `f` replicas gave the number and the auxiliary of each result, so one that is
not malicious did. -/
theorem result_backed {cid : ℤ} {f : ℕ} {nodes : List ℤ} {l : List ClientInput} {c : Client}
    (h : Runs (fun c a c' => c.AgreesOnAuxiliary a ∧ c.step a = .ok c') (Client.new cid f nodes) l c) {o : OpResult}
    (ho : o ∈ c.apply) (he : o.error = none) :
    f + 1 ≤ (backers l o).card ∧ ∀ byz : Finset ℤ, byz.card ≤ f → ∃ i ∈ backers l o, i ∉ byz := by
  have hkept : Kept f l c := by
    refine Runs.invariant (Kept f) (Kept.new ..) ?_ h
    intro l c a c' hc hs
    exact hc.step hs.1 hs.2
  have hcard := hkept.backed o ho he
  refine ⟨hcard, fun byz hbyz => ?_⟩
  by_contra hall
  push Not at hall
  have := Finset.card_le_card (show backers l o ⊆ byz from hall)
  omega

/-- The client after the inputs of a list, latest first, if each of them has the property. -/
def plays (P : Client → ClientInput → Prop) [∀ c a, Decidable (P c a)] (c : Client) : List ClientInput → Option Client
  | [] => some c
  | a :: l => (plays P c l).bind fun c => if P c a then (c.step a).toOption else none

theorem runs_of_plays {P : Client → ClientInput → Prop} [∀ c a, Decidable (P c a)]
    (h : plays P c l = some c') : Runs (fun c a c' => P c a ∧ c.step a = .ok c') c l c' := by
  induction l generalizing c' with
  | nil =>
    obtain rfl := Option.some.inj h
    exact .start
  | cons a l ih =>
    obtain ⟨c₁, hc₁, hstep⟩ := Option.bind_eq_some_iff.mp h
    split_ifs at hstep with hP
    refine .next a (ih hc₁) ⟨hP, ?_⟩
    cases hs : c₁.step a with
    | error e => simp [hs, Except.toOption] at hstep
    | ok c₂ =>
      simp only [hs, Except.toOption, Option.some.injEq] at hstep
      rw [hstep]

instance instDecidableAgrees (c : Client) (a : ClientInput) : Decidable (c.AgreesOnAuxiliary a) := by
  unfold Client.AgreesOnAuxiliary
  split <;> infer_instance

/-- The response of replica `i` to the request `a`. -/
def answerOf (i : ℤ) (auxiliary : String) : ClientInput :=
  .response { view := 0, seq := 0, cid := 0, rid := i, res := "a", auxiliary := auxiliary }

/-- Of two replicas that agree on the number the last one alone decides about the auxiliary. -/
theorem result_of_one_replica :
    ∃ c, Runs (fun c a c' => True ∧ c.step a = .ok c') (Client.new 0 1 ((List.range 4).map Int.ofNat))
        [answerOf 2 "y", answerOf 1 "x", .start "a" 0 none] c ∧
      (⟨"a", "y", 0, none⟩ : OpResult) ∈ c.apply ∧
      (backers [answerOf 2 "y", answerOf 1 "x", .start "a" 0 none] ⟨"a", "y", 0, none⟩).card < 1 + 1 := by
  have hplay : ((Client.new 0 1 ((List.range 4).map Int.ofNat)).plays (fun _ _ => True)
      [answerOf 2 "y", answerOf 1 "x", .start "a" 0 none]).map Client.apply = some [⟨"a", "y", 0, none⟩] := by
    decide +kernel
  obtain ⟨c, hc, happly⟩ := Option.map_eq_some_iff.mp hplay
  exact ⟨c, runs_of_plays hc, by simp [happly], by decide +kernel⟩

theorem result_backed_two :
    1 + 1 ≤ (backers [answerOf 2 "x", answerOf 1 "x", .start "a" 0 none] ⟨"a", "x", 0, none⟩).card := by
  have hplay : ((Client.new 0 1 ((List.range 4).map Int.ofNat)).plays Client.AgreesOnAuxiliary
      [answerOf 2 "x", answerOf 1 "x", .start "a" 0 none]).map Client.apply = some [⟨"a", "x", 0, none⟩] := by
    decide +kernel
  obtain ⟨c, hc, happly⟩ := Option.map_eq_some_iff.mp hplay
  exact (result_backed (runs_of_plays hc) (by simp [happly]) rfl).1

end Client

end DistributedNotary.Pbft
