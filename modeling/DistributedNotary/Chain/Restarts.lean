import DistributedNotary.Chain.Delivery

/-! Delivery of contract events by a notary that can stop at any time. The
dispatcher takes the events from the channel of the listener, saves the number of a
new block before the logs of that round reach it, and starts a goroutine for each
log. What is on the channel or in a goroutine is lost when the notary stops, and the
next listener starts from the saved number, with a window that reaches back twice
the number of confirmations. -/
namespace DistributedNotary.Chain

open Library

/-- A notary with its database: the number of events that the dispatcher has taken, the saved block number, whether the
lock of the block numbers is held for good, and the logs whose goroutines run and have finished. -/
structure Node (ν : Type) where
  service : Service ν
  dispatched : ℕ := 0
  lastBlockNumber : ℕ
  mLock : Bool := false
  onEvent : List Log := []
  handled : List Log := []

namespace Node

variable {ν : Type} (cfg : Config ν) (chain : Blockchain) (contracts : List ℕ)

/-- The first start, with no block number in the database. -/
def new : Node ν where
  service := started 0
  lastBlockNumber := 0

/-- What happens next. `lock` is that the block number of another chain could not be saved. -/
inductive Input where
  | poll (r : Round)
  | dispatch (saves : Bool)
  | lock
  | finish (l : Log)
  | restart

/-- One event of `chainEventDispatcherLoop`. `NewBlockNumber` does not release its lock when it cannot save. -/
def dispatch (n : Node ν) (saves : Bool) : Node ν :=
  match n.service.eventChan[n.dispatched]? with
  | none => n
  | some (.newBlock blockNumber) =>
    if n.mLock then n
    else if saves then { n with dispatched := n.dispatched + 1, lastBlockNumber := blockNumber }
    else { n with dispatched := n.dispatched + 1, mLock := true }
  | some (.contract _ l) => { n with dispatched := n.dispatched + 1, onEvent := l :: n.onEvent }

/-- A start with the number that the database has. -/
def restart (n : Node ν) : Node ν where
  service := started n.lastBlockNumber
  lastBlockNumber := n.lastBlockNumber
  handled := n.handled

def next (n : Node ν) : Input → Node ν
  | .poll r => { n with service := loopRound cfg chain contracts n.service r }
  | .dispatch saves => n.dispatch saves
  | .lock => { n with mLock := true }
  | .finish l => if l ∈ n.onEvent then { n with onEvent := n.onEvent.erase l, handled := l :: n.handled } else n
  | .restart => n.restart

/-- The logs on the channel. -/
def waiting (n : Node ν) : List Log := (n.service.eventChan.drop n.dispatched).filterMap Event.log?

/-- The log has been handled, or is on its way, or will be in a window to come once it is confirmed. -/
def Followed (n : Node ν) (l : Log) : Prop :=
  l ∈ n.handled ∨ l ∈ n.onEvent ∨ l ∈ n.waiting ∨
    l ∉ n.service.emitted ∧ fromBlockNumber cfg n.service.currentBlock ≤ l.blockNumber

/-- No log has been lost. -/
def Complete (n : Node ν) : Prop := ∀ l, Registered chain contracts l → translated cfg l = true → n.Followed cfg l

/-- Rounds that fail to decode a log fail before they deliver one. -/
def Decodes (n : Node ν) : Input → Prop
  | .poll r => FailsAtFirst cfg chain contracts n.service r
  | _ => True

/-- The notary stops when all delivered logs below the window of the next start have been handled. -/
def Careful (n : Node ν) : Input → Prop
  | .restart => ∀ l ∈ n.service.emitted, l.blockNumber < fromBlockNumber cfg n.lastBlockNumber → l ∈ n.handled
  | _ => True

/-- What every step keeps; `start` is the number that the listener started with. -/
structure Sound (n : Node ν) : Prop where
  listener : ∃ start, Inv cfg chain contracts start n.service ∧
    ∀ l, Registered chain contracts l → translated cfg l = true → l.blockNumber < fromBlockNumber cfg start →
      l ∈ n.handled
  delivered : ∀ l ∈ n.service.emitted, l ∈ n.handled ∨ l ∈ n.onEvent ∨ l ∈ n.waiting
  numbers : ∀ b, Event.newBlock b ∈ n.service.eventChan → b ≤ n.service.currentBlock
  saved : n.lastBlockNumber ≤ n.service.currentBlock
  dispatched_le : n.dispatched ≤ n.service.eventChan.length

section Rounds

variable {cfg chain contracts}

/-- The parser makes contract events only. -/
theorem newBlock_notMem_events {unpacks : Log → Bool} {done : RangeMap ℕ ℕ} {logs : List Log} {es : List (Event ν)}
    (h : (parserLogsToEventsAndSort cfg unpacks done logs).2 = some es) (b : ℕ) : Event.newBlock b ∉ es := by
  induction logs generalizing done es with
  | nil =>
    rw [← Option.some.inj h]
    exact List.not_mem_nil
  | cons l rest ih =>
    rw [parserLogsToEventsAndSort] at h
    split at h
    · exact ih h
    · split at h
      · split at h
        · obtain ⟨es', hes', rfl⟩ := Option.map_eq_some_iff.mp h
          have hrest := ih hes'
          simp [hrest]
        · cases h
      · exact ih h

variable (cfg chain contracts) in
/-- What a round does to the channel. -/
theorem loopRound_eventChan (ss : Service ν) (r : Round) : ∃ es, (loopRound cfg chain contracts ss r).eventChan =
    ss.eventChan ++ es ∧ (∀ b, Event.newBlock b ∈ es → b ≤ (loopRound cfg chain contracts ss r).currentBlock) ∧
      ss.currentBlock ≤ (loopRound cfg chain contracts ss r).currentBlock := by
  cases r with
  | headerError => exact ⟨[], by simp [loopRound]⟩
  | polled lastedBlock mined rpcError unpacks =>
    unfold loopRound
    dsimp only
    split
    · exact ⟨[], by simp⟩
    · split
      · exact ⟨[], by simp⟩
      · rename_i hlt hrpc
        rcases hparser : parserLogsToEventsAndSort cfg unpacks ss.eventsDone
          (batch cfg chain contracts ss lastedBlock mined) with ⟨done, _ | es⟩
        · exact ⟨[], by simp⟩
        · refine ⟨.newBlock lastedBlock :: es, rfl, ?_, Nat.le_of_lt (not_le.mp hlt)⟩
          intro b hb
          rcases List.mem_cons.mp hb with hb | hb
          · cases hb
            exact le_rfl
          · exact absurd hb (newBlock_notMem_events (congrArg Prod.snd hparser) b)

end Rounds

section Steps

variable {cfg chain contracts} {n : Node ν}

theorem sound_new : Sound cfg chain contracts (new : Node ν) where
  listener := ⟨0, inv_started, fun l _ _ hl => absurd hl (by rw [fromBlockNumber_eq]; omega)⟩
  delivered := fun l hl => absurd hl List.not_mem_nil
  numbers := fun b hb => absurd hb List.not_mem_nil
  saved := le_rfl
  dispatched_le := le_rfl

/-- A sound state has lost no log: one that is not delivered yet lies in the windows to come. -/
theorem Sound.complete (h : Sound cfg chain contracts n) : n.Complete cfg chain contracts := by
  intro l hl ht
  obtain ⟨start, hinv, hbelow⟩ := h.listener
  by_cases hstart : l.blockNumber < fromBlockNumber cfg start
  · exact .inl (hbelow l hl ht hstart)
  · by_cases hemitted : l ∈ n.service.emitted
    · rcases h.delivered l hemitted with hhandled | hrunning | hwaiting
      · exact .inl hhandled
      · exact .inr (.inl hrunning)
      · exact .inr (.inr (.inl hwaiting))
    · refine .inr (.inr (.inr ⟨hemitted, ?_⟩))
      by_contra hwindow
      have hfrom : fromBlockNumber cfg n.service.currentBlock = _ := fromBlockNumber_eq _
      refine hemitted (hinv.complete l hl ht (not_lt.mp hstart) (by omega) ?_)
      rintro heq
      exact hwindow (heq ▸ not_lt.mp hstart)

theorem Sound.poll (hs : SingleLogs chain contracts) (h : Sound cfg chain contracts n) {r : Round}
    (hr : FailsAtFirst cfg chain contracts n.service r) :
    Sound cfg chain contracts { n with service := loopRound cfg chain contracts n.service r } := by
  obtain ⟨start, hinv, hbelow⟩ := h.listener
  obtain ⟨es, hes, hnumbers, hle⟩ := loopRound_eventChan cfg chain contracts n.service r
  have hwaiting : ({ n with service := loopRound cfg chain contracts n.service r } : Node ν).waiting =
      n.waiting ++ es.filterMap Event.log? := by
    unfold waiting
    dsimp only
    rw [hes, List.drop_append_of_le_length h.dispatched_le, List.filterMap_append]
  refine ⟨⟨start, inv_loopRound hs hinv hr, hbelow⟩, ?_, ?_, h.saved.trans hle, ?_⟩
  · intro l hl
    rw [hwaiting]
    have hemitted : (loopRound cfg chain contracts n.service r).emitted =
        n.service.emitted ++ es.filterMap Event.log? := by
      rw [Service.emitted, hes, List.filterMap_append, Service.emitted]
    rcases List.mem_append.mp (hemitted ▸ hl) with hl | hl
    · rcases h.delivered l hl with hhandled | hrunning | hold
      · exact .inl hhandled
      · exact .inr (.inl hrunning)
      · exact .inr (.inr (List.mem_append_left _ hold))
    · exact .inr (.inr (List.mem_append_right _ hl))
  · intro b hb
    rcases List.mem_append.mp (hes ▸ hb) with hb | hb
    · exact (h.numbers b hb).trans hle
    · exact hnumbers b hb
  · dsimp only
    rw [hes, List.length_append]
    exact h.dispatched_le.trans (Nat.le_add_right _ _)

/-- The dispatcher takes an event from the channel. -/
theorem waiting_eq {e : Event ν} (he : n.service.eventChan[n.dispatched]? = some e) :
    n.waiting = e.log?.toList ++ ({ n with dispatched := n.dispatched + 1 } : Node ν).waiting := by
  obtain ⟨hlt, rfl⟩ := List.getElem?_eq_some_iff.mp he
  unfold waiting
  dsimp only
  rw [List.drop_eq_getElem_cons hlt, List.filterMap_cons]
  cases n.service.eventChan[n.dispatched].log? <;> rfl

theorem Sound.dispatch (h : Sound cfg chain contracts n) (saves : Bool) :
    Sound cfg chain contracts (n.dispatch saves) := by
  unfold Node.dispatch
  cases he : n.service.eventChan[n.dispatched]? with
  | none => exact h
  | some e =>
    have hlt : n.dispatched < n.service.eventChan.length := (List.getElem?_eq_some_iff.mp he).1
    have hwaiting := waiting_eq he
    cases e with
    | newBlock b =>
      have hsame : n.waiting = ({ n with dispatched := n.dispatched + 1 } : Node ν).waiting := hwaiting
      have hdelivered : ∀ l ∈ n.service.emitted, l ∈ n.handled ∨ l ∈ n.onEvent ∨
          l ∈ ({ n with dispatched := n.dispatched + 1 } : Node ν).waiting :=
        hsame ▸ h.delivered
      dsimp only
      split
      · exact h
      · split
        · exact ⟨h.listener, hdelivered, h.numbers, h.numbers b (List.mem_of_getElem? he), hlt⟩
        · exact ⟨h.listener, hdelivered, h.numbers, h.saved, hlt⟩
    | contract name l =>
      refine ⟨h.listener, ?_, h.numbers, h.saved, hlt⟩
      intro l' hl'
      rcases h.delivered l' hl' with hhandled | hrunning | hold
      · exact .inl hhandled
      · exact .inr (.inl (List.mem_cons_of_mem _ hrunning))
      · rw [hwaiting] at hold
        rcases List.mem_cons.mp hold with rfl | hold
        · exact .inr (.inl List.mem_cons_self)
        · exact .inr (.inr hold)

theorem Sound.finish (h : Sound cfg chain contracts n) (l : Log) :
    Sound cfg chain contracts { n with onEvent := n.onEvent.erase l, handled := l :: n.handled } := by
  obtain ⟨start, hinv, hbelow⟩ := h.listener
  refine ⟨⟨start, hinv, ?_⟩, ?_, h.numbers, h.saved, h.dispatched_le⟩
  · exact fun l' hl' ht hlt => List.mem_cons_of_mem _ (hbelow l' hl' ht hlt)
  · intro l' hl'
    by_cases heq : l' = l
    · exact .inl (heq ▸ List.mem_cons_self)
    · rcases h.delivered l' hl' with hhandled | hrunning | hwaiting
      · exact .inl (List.mem_cons_of_mem _ hhandled)
      · exact .inr (.inl ((List.mem_erase_of_ne heq).mpr hrunning))
      · exact .inr (.inr hwaiting)

/-- What lies below the window of the next start has been delivered by this listener or handled before it. -/
theorem Sound.restart (h : Sound cfg chain contracts n)
    (hcareful : ∀ l ∈ n.service.emitted, l.blockNumber < fromBlockNumber cfg n.lastBlockNumber → l ∈ n.handled) :
    Sound cfg chain contracts n.restart := by
  obtain ⟨start, hinv, hbelow⟩ := h.listener
  refine ⟨⟨n.lastBlockNumber, inv_started, ?_⟩, fun l hl => absurd hl List.not_mem_nil,
    fun b hb => absurd hb List.not_mem_nil, le_rfl, le_rfl⟩
  intro l hl ht hlt
  by_cases hstart : l.blockNumber < fromBlockNumber cfg start
  · exact hbelow l hl ht hstart
  · have hsaved := h.saved
    have hfrom : fromBlockNumber cfg n.lastBlockNumber = _ := fromBlockNumber_eq _
    have hfrom' : fromBlockNumber cfg start = _ := fromBlockNumber_eq _
    refine hcareful l (hinv.complete l hl ht (not_lt.mp hstart) ?_ ?_) hlt
    · omega
    · omega

theorem Sound.next (hs : SingleLogs chain contracts) (h : Sound cfg chain contracts n) {a : Input}
    (hdecodes : n.Decodes cfg chain contracts a) (hcareful : n.Careful cfg a) :
    Sound cfg chain contracts (n.next cfg chain contracts a) := by
  cases a with
  | poll r => exact h.poll hs hdecodes
  | dispatch saves => exact h.dispatch saves
  | lock => exact ⟨h.listener, h.delivered, h.numbers, h.saved, h.dispatched_le⟩
  | finish l =>
    unfold Node.next
    dsimp only
    split
    · exact h.finish l
    · exact h
  | restart => exact h.restart hcareful

/-- A log that is below the window after a restart and has not been handled is lost. -/
theorem careful_of_complete (h : Sound cfg chain contracts n) {a : Input}
    (hcomplete : (n.next cfg chain contracts a).Complete cfg chain contracts) : n.Careful cfg a := by
  cases a with
  | restart =>
    intro l hl hlt
    obtain ⟨start, hinv, -⟩ := h.listener
    obtain ⟨hreg, ht⟩ := hinv.emitted l hl
    rcases hcomplete l hreg ht with hhandled | hrunning | hwaiting | ⟨-, hwindow⟩
    · exact hhandled
    · exact absurd hrunning List.not_mem_nil
    · exact absurd hwaiting List.not_mem_nil
    · exact absurd hlt (not_lt.mpr hwindow)
  | poll r => trivial
  | dispatch saves => trivial
  | lock => trivial
  | finish l => trivial

/-- Over any rounds, dispatches, failures to save and restarts, no confirmed log is lost if and only if every restart
finds the delivered logs below the window of the next start handled. -/
theorem complete_iff_careful (hs : SingleLogs chain contracts) (inputs : List Input) :
    Along (Node.next cfg chain contracts) (fun (n : Node ν) a => n.Decodes cfg chain contracts a ∧
        (n.next cfg chain contracts a).Complete cfg chain contracts) new inputs ↔
      Along (Node.next cfg chain contracts) (fun n a => n.Decodes cfg chain contracts a ∧ n.Careful cfg a) new
        inputs := by
  refine along_iff (Sound cfg chain contracts) ?_ ?_ sound_new inputs
  · intro n a h
    constructor
    · rintro ⟨hdecodes, hcomplete⟩
      exact ⟨hdecodes, careful_of_complete h hcomplete⟩
    · rintro ⟨hdecodes, hcareful⟩
      exact ⟨hdecodes, (h.next hs hdecodes hcareful).complete⟩
  · rintro n a h ⟨hdecodes, hcomplete⟩
    exact h.next hs hdecodes (careful_of_complete h hcomplete)

end Steps

section Runs

/-- The notary catches up by four blocks, saves the number of the last one and stops. -/
def catchUp : List Input := [.poll (.polled 4 0 false fun _ => true), .dispatch true, .restart]

/-- The log of block `1`, behind the number on the channel, is below the next window. -/
theorem complete_iff_careful_catchUp :
    ¬ Along (Node.next config8 (chain1 [secretLog 7 0] (by decide) (by decide)) [5])
      (fun (n : Node AtmosphereTokenEvent) a =>
        n.Decodes config8 (chain1 [secretLog 7 0] (by decide) (by decide)) [5] a ∧
          (n.next config8 (chain1 [secretLog 7 0] (by decide) (by decide)) [5] a).Complete config8
            (chain1 [secretLog 7 0] (by decide) (by decide)) [5]) new catchUp := by
  have hsingle : SingleLogs (chain1 [secretLog 7 0] (by decide) (by decide)) [5] := by
    intro l l' hl hl' _
    rw [List.mem_singleton.mp (registered_chain1 [5] hl), List.mem_singleton.mp (registered_chain1 [5] hl')]
  intro h
  obtain ⟨-, -, ⟨-, hcareful⟩, -⟩ := (complete_iff_careful hsingle catchUp).mp h
  exact absurd (hcareful (secretLog 7 0) (by decide) (by decide)) List.not_mem_nil

end Runs

end Node

end DistributedNotary.Chain
