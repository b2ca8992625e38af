import DistributedNotary.Pbft.Bookkeeping

/-! What a client notifies. A step hands over a result where it ends a request, once
for each request that it takes out of the log or does not put there; whether there is
room for the result decides only if the channel gets it. -/
namespace DistributedNotary.Pbft

open Library

/-- The operation that an input asks the client to start. -/
def ClientInput.starts : ClientInput → Option String
  | .start cmd _ _ => some cmd
  | _ => none

namespace Client

/-- The results that a step notifies, had the channel room for them. -/
def emits (c : Client) (a : ClientInput) : List OpResult :=
  match ({ c with apply := [] } : Client).step a with
  | .ok c' => c'.apply
  | .error _ => []

/-- The channel after results were notified. -/
def offered (apply l : List OpResult) : List OpResult := if apply.length < outstanding * 10 then apply ++ l else apply

/-- One for an operation that is pending. -/
def logged (c : Client) (op : String) : ℕ := if (c.log.lookup op).isSome then 1 else 0

/-- How many results are about the operation. -/
def about (l : List OpResult) (op : String) : ℕ := l.countP fun r => r.cmd = op

/-- What a step leaves: each request that is started is then in the log, or a result of it was notified. -/
structure Accounts (c : Client) (a : ClientInput) (l : List OpResult) (c' : Client) : Prop where
  step : c.step a = .ok c'
  tidy : c'.Tidy
  apply : c'.apply = offered c.apply l
  logged : ∀ op, c'.logged op + about l op = c.logged op + if a.starts = some op then 1 else 0

variable {c : Client} {a : ClientInput} {op : String} {r : ℕ}

theorem Tidy.setApply (h : c.Tidy) (apply : List OpResult) : ({ c with apply := apply } : Client).Tidy :=
  h.frame (fun _ => rfl) rfl rfl fun _ _ _ hp => hp.mono le_rfl rfl rfl rfl rfl

theorem offered_nil (apply : List OpResult) : offered apply [] = apply := by
  rw [offered, List.append_nil, ite_self]

theorem about_singleton (res : OpResult) (op : String) : about [res] op = if res.cmd = op then 1 else 0 := by
  rw [about, List.countP_singleton]
  simp only [decide_eq_true_eq]

theorem logged_of_none (h : c.log.lookup op = none) : c.logged op = 0 := by
  rw [logged, h]
  rfl

theorem logged_congr {c' : Client} (h : c'.log.lookup op = c.log.lookup op) : c'.logged op = c.logged op := by
  rw [logged, logged, h]

/-- A start ends in an error at once, or the request is in the log. -/
theorem Tidy.start_accounts (h : c.Tidy) {cmd : String} (timestamp : ℤ) (canOpSuccess : Option String)
    (hop : c.log.lookup cmd = none) :
    ∃ c', c.Accounts (.start cmd timestamp canOpSuccess)
      (canOpSuccess.toList.map fun err => { cmd := cmd, auxiliary := "", seq := -1, error := some err }) c' := by
  obtain ⟨c', hstep, htidy⟩ := h.start timestamp canOpSuccess hop
  refine ⟨c', hstep, htidy, ?_, fun op => ?_⟩
  · rw [start_eq timestamp canOpSuccess hop] at hstep
    cases canOpSuccess with
    | some err => rw [← Except.ok.inj hstep]; rfl
    | none =>
      simp only [] at hstep
      split_ifs at hstep <;> rw [← Except.ok.inj hstep] <;> exact (offered_nil _).symm
  · rw [start_eq timestamp canOpSuccess hop] at hstep
    cases canOpSuccess with
    | some err =>
      have hlog : c'.log = AList.erase cmd (c.log.insert cmd c.next) := by rw [← Except.ok.inj hstep]; rfl
      have hsame : c'.log.lookup op = c.log.lookup op := by
        rw [hlog]
        by_cases heq : op = cmd
        · rw [heq, AList.lookup_erase, hop]
        · rw [AList.lookup_erase_ne heq, RangeMap.lookup_insert_eq, if_neg heq]
      rw [logged_congr hsame]
      simp only [Option.toList_some, List.map_cons, List.map_nil, about_singleton,
        ClientInput.starts, Option.some.injEq]
    | none =>
      have hlog : c'.log = c.log.insert cmd c.next := by
        simp only [] at hstep
        split_ifs at hstep <;> rw [← Except.ok.inj hstep] <;> rfl
      rw [logged, hlog, RangeMap.lookup_insert_eq]
      simp only [Option.toList_none, List.map_nil, about, List.countP_nil, Nat.add_zero, ClientInput.starts,
        Option.some.injEq]
      by_cases heq : op = cmd
      · rw [heq, logged_of_none hop]
        simp
      · rw [if_neg heq, if_neg (Ne.symm heq)]
        rfl

/-- A response ends the request that it completes, and otherwise nothing. -/
theorem Tidy.response_accounts (h : c.Tidy) {args : ResponseArgs} (ha : c.Orderly (.response args)) :
    ∃ c', c.Accounts (.response args)
      (if c.Finishes args then [{ cmd := args.res, auxiliary := args.auxiliary, seq := args.seq, error := none }]
        else [])
      c' := by
  obtain ⟨c', hstep, htidy⟩ := h.response ha
  suffices hrest : c'.apply = offered c.apply (if c.Finishes args then
      [{ cmd := args.res, auxiliary := args.auxiliary, seq := args.seq, error := none }] else []) ∧
      ∀ op, c'.logged op + about (if c.Finishes args then
        [{ cmd := args.res, auxiliary := args.auxiliary, seq := args.seq, error := none }] else []) op =
          c.logged op from
    ⟨c', hstep, htidy, hrest.1, hrest.2⟩
  cases hr : c.log.lookup args.res with
  | none =>
    have hno : ¬ c.Finishes args := fun ⟨r, hmem, _⟩ => by
      rw [hr] at hmem
      cases hmem
    have hsame : c' = c := by
      rw [Client.response, hr] at hstep
      exact (Except.ok.inj hstep).symm
    rw [if_neg hno, hsame]
    exact ⟨(offered_nil _).symm, fun op => rfl⟩
  | some r =>
    rw [h.response_eq hr] at hstep
    simp only [] at hstep
    by_cases hf : c.Finishes args
    · rw [if_pos hf] at hstep ⊢
      obtain ⟨reqQueue, backupQueue, retry, rfl⟩ := complete_frame hstep
      refine ⟨rfl, fun op => ?_⟩
      rw [about_singleton]
      by_cases heq : op = args.res
      · have hgone : AList.lookup args.res (AList.erase args.res c.log) = none := AList.lookup_erase ..
        have hthere : c.logged args.res = 1 := by
          rw [logged, hr]
          rfl
        rw [heq, hthere, logged_of_none hgone, if_pos rfl]
      · have hstay : AList.lookup op (AList.erase args.res c.log) = c.log.lookup op := AList.lookup_erase_ne heq
        rw [logged_congr hstay, if_neg (Ne.symm heq)]
        rfl
    · rw [if_neg hf] at hstep ⊢
      rw [← Except.ok.inj hstep]
      exact ⟨(offered_nil _).symm, fun op => rfl⟩

/-- The retries notify nothing. -/
theorem Tidy.retry_accounts (h : c.Tidy) (ha : a = .retry r ∨ a = .timeout r) : ∃ c', c.Accounts a [] c' := by
  have horderly : c.Orderly a := by rcases ha with rfl | rfl <;> trivial
  obtain ⟨c', hstep, htidy⟩ := h.step horderly
  have hsame : c'.apply = c.apply ∧ c'.log = c.log := by
    rcases ha with rfl | rfl
    · unfold Client.step at hstep
      simp only [] at hstep
      split at hstep
      · rw [← Except.ok.inj hstep]
        unfold Client.sendRequest
        simp only []
        split_ifs <;> exact ⟨rfl, rfl⟩
      · rw [← Except.ok.inj hstep]
        exact ⟨rfl, rfl⟩
    · unfold Client.step at hstep
      simp only [] at hstep
      split_ifs at hstep <;> rw [← Except.ok.inj hstep] <;> exact ⟨rfl, rfl⟩
  have hstarts : a.starts = none := by rcases ha with rfl | rfl <;> rfl
  refine ⟨c', hstep, htidy, hsame.1.trans (offered_nil _).symm, fun op => ?_⟩
  rw [logged_congr (congrArg (AList.lookup op) hsame.2), hstarts]
  rfl

theorem emits_eq {l : List OpResult} {c₀ : Client} (h : ({ c with apply := [] } : Client).Accounts a l c₀) :
    c.emits a = l := by
  rw [emits, h.step]
  exact h.apply

theorem Tidy.emits_of_retry (h : c.Tidy) (ha : a = .retry r ∨ a = .timeout r) : c.emits a = [] := by
  obtain ⟨c₀, hc₀⟩ := (h.setApply []).retry_accounts ha
  exact emits_eq hc₀

/-- What an orderly step accounts for is what it notifies. -/
theorem Tidy.accounts (h : c.Tidy) (ha : c.Orderly a) (hne : a ≠ .take) : ∃ c', c.Accounts a (c.emits a) c' := by
  have hempty := h.setApply []
  cases a with
  | start cmd timestamp canOpSuccess =>
    obtain ⟨c₀, hc₀⟩ := hempty.start_accounts timestamp canOpSuccess ha
    rw [emits_eq hc₀]
    exact h.start_accounts timestamp canOpSuccess ha
  | response args =>
    obtain ⟨c₀, hc₀⟩ := hempty.response_accounts ha
    rw [emits_eq hc₀]
    exact h.response_accounts ha
  | retry k =>
    rw [h.emits_of_retry (.inl rfl)]
    exact h.retry_accounts (.inl rfl)
  | timeout r =>
    rw [h.emits_of_retry (.inr rfl)]
    exact h.retry_accounts (.inr rfl)
  | take => exact absurd rfl hne

end Client

end DistributedNotary.Pbft
