import DistributedNotary.Chain.Listener

/-! Delivery of contract events. When no transaction carries two logs of the
registered contracts and a round that fails to decode a log fails before it
delivers another one, each log of a translated event whose block becomes
confirmed is put on the channel exactly once, over any number of rounds. The
record by transaction, and the record of a round that fails half way, make the
listener drop logs it never delivered. -/
namespace DistributedNotary.Chain

open Library

variable {ν : Type} (cfg : Config ν) (chain : Blockchain) (contracts : List ℕ)

/-- A chain on which the record by transaction identifies a log. -/
def SingleLogs : Prop :=
  ∀ l l', Registered chain contracts l → Registered chain contracts l' → l.txHash = l'.txHash → l = l'

/-- The log is of an event that the service translates. -/
def translated (l : Log) : Bool := (cfg.topicToEventName l.topic).isSome

/-- The logs of a batch that the parser turns into events. -/
def pending (done : RangeMap ℕ ℕ) (logs : List Log) : List Log :=
  logs.filter fun l => !isDone done l && translated cfg l

/-- A round that fails to decode a log fails at the first one it would deliver. -/
def FailsAtFirst (ss : Service ν) : Round → Prop
  | .headerError => True
  | .polled lastedBlock mined _ unpacks =>
    ∀ l rest, pending cfg ss.eventsDone (batch cfg chain contracts ss lastedBlock mined) = l :: rest →
      unpacks l = true → ∀ l' ∈ rest, unpacks l' = true

def started (lastBlockNumber : ℕ) : Service ν := { currentBlock := lastBlockNumber }

/-- Rounds that meet the condition on failures. -/
def Polls (ss ss' : Service ν) : Prop :=
  ∃ r, FailsAtFirst cfg chain contracts ss r ∧ ss' = loopRound cfg chain contracts ss r

/-- The block of the log becomes confirmed while the listener runs. -/
def Confirmed (lastBlockNumber : ℕ) (ss : Service ν) (l : Log) : Prop :=
  lastBlockNumber < l.blockNumber + cfg.confirmBlockNumber ∧ l.blockNumber + cfg.confirmBlockNumber ≤ ss.currentBlock

instance (lastBlockNumber : ℕ) (ss : Service ν) (l : Log) : Decidable (Confirmed cfg lastBlockNumber ss l) :=
  inferInstanceAs (Decidable (_ ∧ _))

/-- Every log whose block becomes confirmed is on the channel exactly once. -/
def ExactlyOnce (lastBlockNumber : ℕ) (ss : Service ν) : Prop :=
  ∀ l, Registered chain contracts l → Confirmed cfg lastBlockNumber ss l → ss.emitted.count l = 1

section Parser

variable {cfg chain contracts}

theorem fromBlockNumber_eq (b : ℕ) : fromBlockNumber cfg b = b - 2 * cfg.confirmBlockNumber := by
  rw [fromBlockNumber]
  split <;> omega

theorem toBlockNumber_eq (b : ℕ) : toBlockNumber cfg b = b - cfg.confirmBlockNumber := by
  rw [toBlockNumber]
  split <;> omega

theorem mem_pending {done : RangeMap ℕ ℕ} {logs : List Log} {l : Log} :
    l ∈ pending cfg done logs ↔ l ∈ logs ∧ isDone done l = false ∧ translated cfg l = true := by
  simp [pending]

theorem isDone_insert_self {done : RangeMap ℕ ℕ} {l : Log} :
    isDone (done.insert l.txHash l.blockNumber) l = true := by simp [isDone]

theorem isDone_insert {done : RangeMap ℕ ℕ} {l l' : Log} {b : ℕ} (h : l'.txHash ≠ l.txHash) :
    isDone (done.insert l.txHash b) l' = isDone done l' := by
  rw [isDone, isDone, AList.lookup_insert_ne h]

variable (cfg chain contracts) in
/-- The record `done'` after the logs `new` were delivered. -/
structure Extends (done done' : RangeMap ℕ ℕ) (new : List Log) : Prop where
  recorded : ∀ l, Registered chain contracts l → translated cfg l = true → isDone done' l = true →
    isDone done l = true ∨ l ∈ new
  kept : ∀ l, Registered chain contracts l → isDone done l = true → isDone done' l = true
  new : ∀ l ∈ new, isDone done' l = true

theorem Extends.refl (done : RangeMap ℕ ℕ) : Extends cfg chain contracts done done [] :=
  ⟨fun _ _ _ h => .inl h, fun _ _ h => h, fun _ h => absurd h List.not_mem_nil⟩

/-- Recording one log. -/
theorem Extends.insert (hs : SingleLogs chain contracts) {done done' : RangeMap ℕ ℕ} {l : Log} {new : List Log}
    (hl : Registered chain contracts l)
    (h : Extends cfg chain contracts (done.insert l.txHash l.blockNumber) done' new) {new' : List Log}
    (hnew : ∀ l', l' ∈ new' ↔ l' = l ∧ translated cfg l = true ∨ l' ∈ new) :
    Extends cfg chain contracts done done' new' where
  recorded := by
    intro l' hl' ht hd
    by_cases htx : l'.txHash = l.txHash
    · obtain rfl := hs l' l hl' hl htx
      exact .inr ((hnew l').mpr (.inl ⟨rfl, ht⟩))
    · rw [← isDone_insert htx]
      exact (h.recorded l' hl' ht hd).imp_right fun hm => (hnew l').mpr (.inr hm)
  kept := by
    intro l' hl' hd
    by_cases htx : l'.txHash = l.txHash
    · obtain rfl := hs l' l hl' hl htx
      exact h.kept l' hl' isDone_insert_self
    · exact h.kept l' hl' ((isDone_insert htx).trans hd)
  new := by
    intro l' hl'
    rcases (hnew l').mp hl' with ⟨rfl, _⟩ | hl'
    · exact h.kept l' hl isDone_insert_self
    · exact h.new l' hl'

/-- Recording one log leaves the other logs of the batch as they were. -/
theorem pending_insert (hs : SingleLogs chain contracts) {done : RangeMap ℕ ℕ} {l : Log} {rest : List Log}
    (hl : ∀ l' ∈ l :: rest, Registered chain contracts l') (hnd : (l :: rest).Nodup) :
    pending cfg (done.insert l.txHash l.blockNumber) rest = pending cfg done rest := by
  refine List.filter_congr fun l' hl' => ?_
  have hne : l'.txHash ≠ l.txHash := fun h =>
    (List.nodup_cons.mp hnd).1 (hs l' l (hl l' (List.mem_cons_of_mem _ hl')) (hl l (List.mem_cons_self ..)) h ▸ hl')
  rw [isDone_insert hne]

/-- A batch all of whose pending logs decode. -/
theorem parser_ok (hs : SingleLogs chain contracts) {unpacks : Log → Bool} {logs : List Log}
    (hl : ∀ l ∈ logs, Registered chain contracts l) (hnd : logs.Nodup) {done : RangeMap ℕ ℕ}
    (hu : ∀ l ∈ pending cfg done logs, unpacks l = true) :
    ∃ done' es, parserLogsToEventsAndSort cfg unpacks done logs = (done', some es) ∧
      es.filterMap Event.log? = pending cfg done logs ∧
      Extends cfg chain contracts done done' (pending cfg done logs) := by
  induction logs generalizing done with
  | nil => exact ⟨done, [], rfl, rfl, Extends.refl done⟩
  | cons l rest ih =>
    have hrest : ∀ l' ∈ rest, Registered chain contracts l' := fun l' h => hl l' (List.mem_cons_of_mem _ h)
    have hnd' := (List.nodup_cons.mp hnd).2
    by_cases hd : isDone done l = true
    · have hf : pending cfg done (l :: rest) = pending cfg done rest := List.filter_cons_of_neg (by simp [hd])
      rw [hf] at hu ⊢
      obtain ⟨done', es, h1, h2, h3⟩ := ih hrest hnd' hu
      exact ⟨done', es, by rw [parserLogsToEventsAndSort, if_pos hd, h1], h2, h3⟩
    have hins : pending cfg _ rest = pending cfg done rest := pending_insert hs hl hnd
    have hreg := hl l (List.mem_cons_self ..)
    cases hname : cfg.topicToEventName l.topic with
    | none =>
      have ht : ¬ translated cfg l = true := by simp [translated, hname]
      have hf : pending cfg done (l :: rest) = pending cfg done rest := List.filter_cons_of_neg (by simp [ht])
      rw [hf] at hu ⊢
      obtain ⟨done', es, h1, h2, h3⟩ := ih hrest hnd' (hins ▸ hu)
      rw [hins] at h2 h3
      refine ⟨done', es, ?_, h2, h3.insert hs hreg fun l' => by simp [ht]⟩
      rw [parserLogsToEventsAndSort, if_neg hd, hname]
      exact h1
    | some name =>
      have ht : translated cfg l = true := by simp [translated, hname]
      have hf : pending cfg done (l :: rest) = l :: pending cfg done rest :=
        List.filter_cons_of_pos (by simp [hd, ht])
      rw [hf] at hu ⊢
      obtain ⟨done', es, h1, h2, h3⟩ := ih hrest hnd' fun l' h => hu l' (List.mem_cons_of_mem _ (hins ▸ h))
      rw [hins] at h2 h3
      refine ⟨done', .contract name l :: es, ?_, ?_, h3.insert hs hreg fun l' => by simp [ht]⟩
      · rw [parserLogsToEventsAndSort, if_neg hd, hname]
        simp only [hu l (List.mem_cons_self ..), h1, if_true, Option.map_some]
      · rw [← h2]
        rfl

/-- A batch whose first pending log does not decode records no log it owes. -/
theorem parser_error (hs : SingleLogs chain contracts) {unpacks : Log → Bool} {logs : List Log}
    (hl : ∀ l ∈ logs, Registered chain contracts l) (hnd : logs.Nodup) {done : RangeMap ℕ ℕ} {l : Log}
    {rest : List Log} (hf : pending cfg done logs = l :: rest) (hu : unpacks l = false) :
    ∃ done', parserLogsToEventsAndSort cfg unpacks done logs = (done', none) ∧
      Extends cfg chain contracts done done' [] := by
  induction logs generalizing done with
  | nil => cases hf
  | cons l' logs ih =>
    have hrest : ∀ l ∈ logs, Registered chain contracts l := fun l h => hl l (List.mem_cons_of_mem _ h)
    have hnd' := (List.nodup_cons.mp hnd).2
    by_cases hd : isDone done l' = true
    · rw [pending, List.filter_cons_of_neg (by simp [hd])] at hf
      obtain ⟨done', h1, h2⟩ := ih hrest hnd' hf
      exact ⟨done', by rw [parserLogsToEventsAndSort, if_pos hd, h1], h2⟩
    cases hname : cfg.topicToEventName l'.topic with
    | none =>
      have ht : ¬ translated cfg l' = true := by simp [translated, hname]
      rw [pending, List.filter_cons_of_neg (by simp [ht])] at hf
      obtain ⟨done', h1, h2⟩ := ih hrest hnd' ((pending_insert hs hl hnd).trans hf)
      refine ⟨done', ?_, h2.insert hs (hl l' (List.mem_cons_self ..)) fun l' => by simp [ht]⟩
      rw [parserLogsToEventsAndSort, if_neg hd, hname]
      exact h1
    | some name =>
      have ht : translated cfg l' = true := by simp [translated, hname]
      rw [pending, List.filter_cons_of_pos (by simp [hd, ht])] at hf
      obtain ⟨rfl, _⟩ := List.cons.inj hf
      refine ⟨done, ?_, Extends.refl done⟩
      rw [parserLogsToEventsAndSort, if_neg hd, hname]
      simp [hu]

end Parser

section Invariant

/-- What every round keeps: a recorded log is on the channel, and a log on the channel is either
recorded or below the windows to come. -/
structure Inv (lastBlockNumber : ℕ) (ss : Service ν) : Prop where
  started_le : lastBlockNumber ≤ ss.currentBlock
  emitted : ∀ l ∈ ss.emitted, Registered chain contracts l ∧ translated cfg l = true
  nodup : ss.emitted.Nodup
  recorded : ∀ l, Registered chain contracts l → translated cfg l = true → isDone ss.eventsDone l = true →
    l ∈ ss.emitted
  kept : ∀ l ∈ ss.emitted, isDone ss.eventsDone l = true ∨ l.blockNumber < fromBlockNumber cfg ss.currentBlock
  complete : ∀ l, Registered chain contracts l → translated cfg l = true →
    fromBlockNumber cfg lastBlockNumber ≤ l.blockNumber →
    l.blockNumber + cfg.confirmBlockNumber ≤ ss.currentBlock → ss.currentBlock ≠ lastBlockNumber → l ∈ ss.emitted

variable {cfg chain contracts} {lastBlockNumber : ℕ} {ss : Service ν}

theorem inv_started : Inv cfg chain contracts lastBlockNumber (started lastBlockNumber : Service ν) where
  started_le := le_rfl
  emitted := fun l hl => absurd hl List.not_mem_nil
  nodup := List.nodup_nil
  recorded := fun l _ _ h => by simp [started, isDone] at h
  kept := fun l hl => absurd hl List.not_mem_nil
  complete := fun l _ _ _ _ h => absurd rfl h

theorem Registered.pos {l : Log} (h : Registered chain contracts l) : 0 < l.blockNumber := by
  refine Nat.pos_of_ne_zero fun h0 => ?_
  have hl := h.1
  rw [h0, chain.genesis] at hl
  exact List.not_mem_nil hl

/-- A round that stops at a log it cannot decode. -/
theorem inv_undecoded (h : Inv cfg chain contracts lastBlockNumber ss) {done' : RangeMap ℕ ℕ}
    (he : Extends cfg chain contracts ss.eventsDone done' []) :
    Inv cfg chain contracts lastBlockNumber { ss with eventsDone := done' } where
  started_le := h.started_le
  emitted := h.emitted
  nodup := h.nodup
  recorded := fun l hl ht hd => h.recorded l hl ht ((he.recorded l hl ht hd).resolve_right List.not_mem_nil)
  kept := fun l hl => (h.kept l hl).imp_left (he.kept l (h.emitted l hl).1)
  complete := h.complete

/-- What is dropped of the record lies below the window of the next round, block `0` being empty. -/
theorem isDone_prune {done : RangeMap ℕ ℕ} {l : Log} (hl : Registered chain contracts l) {b b' : ℕ} (hlt : b < b')
    (h : isDone done l = true ∨ l.blockNumber < fromBlockNumber cfg b) :
    isDone (done.filter fun _ blockNumber => !decide (blockNumber ≤ fromBlockNumber cfg b)) l = true ∨
      l.blockNumber < fromBlockNumber cfg b' := by
  have hpos := hl.pos
  by_cases hkeep : l.blockNumber ≤ fromBlockNumber cfg b
  · refine .inr ?_
    rw [fromBlockNumber_eq] at hkeep ⊢
    omega
  · rcases h with hd | hb
    · refine .inl ?_
      rw [isDone, decide_eq_true_eq] at hd
      rw [isDone, decide_eq_true_eq, RangeMap.lookup_filter, Option.filter_eq_some_iff]
      exact ⟨hd, by simpa using hkeep⟩
    · exact absurd (Nat.le_of_lt hb) hkeep

/-- A round that delivers its batch. -/
theorem inv_delivered (h : Inv cfg chain contracts lastBlockNumber ss)
    {lastedBlock mined : ℕ} (hlt : ss.currentBlock < lastedBlock) {done' : RangeMap ℕ ℕ} {es : List (Event ν)}
    (hes : es.filterMap Event.log? =
      pending cfg ss.eventsDone (batch cfg chain contracts ss lastedBlock mined))
    (he : Extends cfg chain contracts ss.eventsDone done'
      (pending cfg ss.eventsDone (batch cfg chain contracts ss lastedBlock mined))) :
    Inv cfg chain contracts lastBlockNumber
      { currentBlock := lastedBlock
        eventChan := ss.eventChan ++ .newBlock lastedBlock :: es
        eventsDone := done'.filter fun _ b => !decide (b ≤ fromBlockNumber cfg ss.currentBlock) } := by
  set logs := batch cfg chain contracts ss lastedBlock mined with hlogs
  have hemit : (ss.eventChan ++ .newBlock lastedBlock :: es).filterMap Event.log? =
      ss.emitted ++ pending cfg ss.eventsDone logs := by
    rw [← hes, Service.emitted, List.filterMap_append, List.filterMap_cons_none rfl]
  have hmem : ∀ l ∈ logs, Registered chain contracts l ∧ fromBlockNumber cfg ss.currentBlock ≤ l.blockNumber :=
    fun l hl => ⟨(mem_filterLogs.mp hl).1, (mem_filterLogs.mp hl).2.1⟩
  have hfrom : ∀ b, fromBlockNumber cfg b = _ := fromBlockNumber_eq
  have hemitted : ∀ l ∈ ss.emitted ++ pending cfg ss.eventsDone logs,
      Registered chain contracts l ∧ translated cfg l = true := fun l hl => by
    rcases List.mem_append.mp hl with hl | hl
    · exact h.emitted l hl
    · exact ⟨(hmem l (mem_pending.mp hl).1).1, (mem_pending.mp hl).2.2⟩
  refine ⟨Nat.le_trans h.started_le (Nat.le_of_lt hlt), ?_, ?_, ?_, ?_, ?_⟩ <;> rw [Service.emitted, hemit]
  · exact hemitted
  · refine List.nodup_append'.mpr ⟨h.nodup, (nodup_filterLogs ..).filter _, fun l hl hl' => ?_⟩
    obtain ⟨hlog, hnot, _⟩ := mem_pending.mp hl'
    rcases h.kept l hl with hd | hb
    · rw [hnot] at hd
      cases hd
    · exact absurd (hmem l hlog).2 (not_le.mpr hb)
  · intro l hl ht hd
    rw [isDone, decide_eq_true_eq, RangeMap.lookup_filter, Option.filter_eq_some_iff] at hd
    rcases he.recorded l hl ht (by rw [isDone, decide_eq_true_eq]; exact hd.1) with hd | hnew
    · exact List.mem_append_left _ (h.recorded l hl ht hd)
    · exact List.mem_append_right _ hnew
  · intro l hl
    refine isDone_prune (hemitted l hl).1 hlt ?_
    rcases List.mem_append.mp hl with hl | hl
    · exact (h.kept l hl).imp_left (he.kept l (h.emitted l hl).1)
    · exact .inl (he.new l hl)
  · intro l hreg ht h1 h2 _
    by_cases hb : l.blockNumber < fromBlockNumber cfg ss.currentBlock
    · refine List.mem_append_left _ (h.complete l hreg ht h1 ?_ ?_)
      · rw [hfrom] at hb
        omega
      · intro heq
        rw [heq] at hb
        omega
    · have hto : toBlockNumber cfg lastedBlock = _ := toBlockNumber_eq lastedBlock
      have hl : l ∈ logs := mem_filterLogs.mpr ⟨hreg, not_lt.mp hb, by
        dsimp only at h2
        split <;> omega⟩
      by_cases hd : isDone ss.eventsDone l = true
      · exact List.mem_append_left _ (h.recorded l hreg ht hd)
      · exact List.mem_append_right _ (mem_pending.mpr ⟨hl, by simpa using hd, ht⟩)

theorem inv_loopRound (hs : SingleLogs chain contracts) (h : Inv cfg chain contracts lastBlockNumber ss) {r : Round}
    (hr : FailsAtFirst cfg chain contracts ss r) :
    Inv cfg chain contracts lastBlockNumber (loopRound cfg chain contracts ss r) := by
  cases r with
  | headerError => exact h
  | polled lastedBlock mined rpcError unpacks =>
    rw [loopRound]
    by_cases hge : ss.currentBlock ≥ lastedBlock
    · rwa [if_pos hge]
    rw [if_neg hge]
    cases rpcError with
    | true => exact h
    | false =>
      rw [if_neg Bool.false_ne_true]
      have hreg : ∀ l ∈ batch cfg chain contracts ss lastedBlock mined, Registered chain contracts l :=
        fun l hl => (mem_filterLogs.mp hl).1
      by_cases hu : ∀ l ∈ pending cfg ss.eventsDone (batch cfg chain contracts ss lastedBlock mined),
          unpacks l = true
      · obtain ⟨done', es, h1, h2, h3⟩ := parser_ok hs hreg (nodup_filterLogs ..) hu
        rw [h1]
        exact inv_delivered h (not_le.mp hge) h2 h3
      · cases hf : pending cfg ss.eventsDone (batch cfg chain contracts ss lastedBlock mined) with
        | nil => exact absurd (by simp [hf]) hu
        | cons l rest =>
          have hfirst : unpacks l = false := by
            by_contra hne
            have hl : unpacks l = true := by simpa using hne
            refine hu fun l' hl' => ?_
            rw [hf] at hl'
            rcases List.mem_cons.mp hl' with rfl | hl'
            · exact hl
            · exact hr l rest hf hl l' hl'
          obtain ⟨done', h1, h2⟩ := parser_error hs hreg (nodup_filterLogs ..) hf hfirst
          rw [h1]
          exact inv_undecoded h h2

theorem inv_of_reachable (hs : SingleLogs chain contracts)
    (hr : Reachable (· = started lastBlockNumber) (Polls cfg chain contracts) ss) :
    Inv cfg chain contracts lastBlockNumber ss :=
  hr.invariant (fun _ hs => hs ▸ inv_started) fun _ _ _ ih ⟨_, hfirst, heq⟩ => heq ▸ inv_loopRound hs ih hfirst

/-- Over every run, a log whose block becomes confirmed is delivered once if its event is one of
those the service translates and never otherwise. -/
theorem count_emitted (hs : SingleLogs chain contracts)
    (hr : Reachable (· = started lastBlockNumber) (Polls cfg chain contracts) ss) {l : Log}
    (hl : Registered chain contracts l) (hc : Confirmed cfg lastBlockNumber ss l) :
    ss.emitted.count l = if translated cfg l then 1 else 0 := by
  have h := inv_of_reachable hs hr
  by_cases ht : translated cfg l = true
  · rw [if_pos ht]
    refine List.count_eq_one_of_mem h.nodup (h.complete l hl ht ?_ hc.2 fun heq => ?_)
    · have := hc.1
      rw [fromBlockNumber_eq]
      omega
    · have := hc.1
      have := hc.2
      omega
  · rw [if_neg ht]
    exact List.count_eq_zero_of_not_mem fun hmem => ht (h.emitted l hmem).2

/-- Exactly once, over every run whose rounds meet the conditions. -/
theorem exactlyOnce_of_reachable (hs : SingleLogs chain contracts)
    (ht : ∀ l, Registered chain contracts l → translated cfg l = true)
    (hr : Reachable (· = started lastBlockNumber) (Polls cfg chain contracts) ss) :
    ExactlyOnce cfg chain contracts lastBlockNumber ss :=
  fun l hl hc => by rw [count_emitted hs hr hl hc, if_pos (ht l hl)]

end Invariant

section Runs

/-- The chain that has logs in block `1` only. -/
def chain1 (logs : List Log) (hb : ∀ l ∈ logs, l.blockNumber = 1) (hnd : logs.Nodup) : Blockchain where
  logs b := if b = 1 then logs else []
  blockNumber := by
    intro b l hl
    split at hl
    · next h => exact h ▸ hb l hl
    · exact absurd hl List.not_mem_nil
  nodup b := by
    split
    · exact hnd
    · exact List.nodup_nil
  genesis := rfl

/-- The side chain service that knows topic `8` as `LockinSecret`, at depth `1`. -/
def config8 : Config AtmosphereTokenEvent where
  confirmBlockNumber := 1
  topicToEventName topic := if topic = 8 then some .lockinSecret else none

/-- A `LockinSecret` log of the token at address `5`. -/
def secretLog (txHash index : ℕ) : Log :=
  { address := 5, topic := 8, txHash := txHash, blockNumber := 1, index := index, data := [] }

theorem registered_chain1 {logs : List Log} {hb hnd} {l : Log} (h : Registered (chain1 logs hb hnd) contracts l) :
    l ∈ logs := by
  have hl : l ∈ if l.blockNumber = 1 then logs else [] := h.1
  split at hl
  · exact hl
  · exact absurd hl List.not_mem_nil

/-- One secret, a call of the node that fails and a round that does not decode the log. -/
theorem exactlyOnce_of_reachable_secretLog :
    ExactlyOnce config8 (chain1 [secretLog 7 0] (by decide) (by decide)) [5] 0
      ([.polled 1 0 true fun _ => true, .polled 1 0 false fun _ => false, .polled 2 1 false fun _ => true,
        .polled 3 0 false fun _ => true].foldl
          (loopRound config8 (chain1 [secretLog 7 0] (by decide) (by decide)) [5]) (started 0)) := by
  refine exactlyOnce_of_reachable (fun l l' hl hl' _ => ?_) (fun l hl => ?_)
    (.step (.step (.step (.step (.init rfl) ⟨.polled 1 0 true fun _ => true, ?_, rfl⟩)
      ⟨.polled 1 0 false fun _ => false, ?_, rfl⟩) ⟨.polled 2 1 false fun _ => true, ?_, rfl⟩)
      ⟨.polled 3 0 false fun _ => true, ?_, rfl⟩)
  · rw [List.mem_singleton.mp (registered_chain1 [5] hl), List.mem_singleton.mp (registered_chain1 [5] hl')]
  · rw [List.mem_singleton.mp (registered_chain1 [5] hl)]
    decide
  · exact fun _ _ _ _ _ _ => rfl
  · exact fun _ _ _ h => nomatch h
  · exact fun _ _ _ _ _ _ => rfl
  · exact fun _ _ _ _ _ _ => rfl

/-- Of two secrets in one transaction the second is lost, and so is the first of two secrets when
the second one does not decode. -/
theorem exactlyOnce_fails :
    ¬ ExactlyOnce config8 (chain1 [secretLog 7 0, secretLog 7 1] (by decide) (by decide)) [5] 0
        (loopRound config8 (chain1 [secretLog 7 0, secretLog 7 1] (by decide) (by decide)) [5] (started 0)
          (.polled 2 0 false fun _ => true)) ∧
      ¬ ExactlyOnce config8 (chain1 [secretLog 7 0, secretLog 9 1] (by decide) (by decide)) [5] 0
        ([.polled 2 0 false fun l => l.txHash == 7, .polled 2 0 false fun _ => true].foldl
          (loopRound config8 (chain1 [secretLog 7 0, secretLog 9 1] (by decide) (by decide)) [5]) (started 0)) := by
  refine ⟨fun h => ?_, fun h => ?_⟩
  · exact absurd (h (secretLog 7 1) (by decide) (by decide)) (by decide)
  · exact absurd (h (secretLog 7 0) (by decide) (by decide)) (by decide)

end Runs

end DistributedNotary.Chain
