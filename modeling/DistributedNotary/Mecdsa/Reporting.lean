import DistributedNotary.Library.Transition
import Mathlib.Logic.Function.Basic

/-! How a key negotiation reports a failure. A handler signals the end of a phase and
an error on different channels, and `waitPhaseDone`, which keeps the last error it has
read, ends only with the phase. An error that is not read before the end of the last
phase is lost, and one in a phase that never ends is not reported. -/
namespace DistributedNotary.Mecdsa

open Library

/-- The main goroutine of `StartPKNAndWaitFinish` in the `waitPhaseDone` of a phase. The last fields are the
history: the phases whose end has been signalled, whether an error has been notified at all and before the end
of the last phase, whether one has been read, and whether a phase has been started after that. -/
structure KeyNegotiation where
  phase : ℕ := 1
  doneChan : ℕ → ℕ := fun _ => 0
  quitChan : List String := []
  err : Option String := none
  result : Option (Option String) := none
  saved : Bool := false
  completed : ℕ → Bool := fun _ => false
  notified : Bool := false
  failed : Bool := false
  read : Bool := false
  late : Bool := false

/-- What happens next: a handler, whether it runs in the wait or at the start of a phase, notifies the end of a phase
or an error, or the select takes what one of the channels holds. -/
inductive Signal where
  | done (k : ℕ)
  | error (err : String)
  | takeDone
  | takeError
  deriving DecidableEq

namespace KeyNegotiation

def lastPhase : ℕ := 4

/-- `notify(c, nil)` on a channel of capacity two. -/
def notifyDone (w : KeyNegotiation) (k : ℕ) : KeyNegotiation := { w with
  doneChan := Function.update w.doneChan k (min 2 (w.doneChan k + 1))
  completed := Function.update w.completed k true }

/-- `notify(nil, err)`: the error is offered twice to a channel of capacity two. -/
def notifyError (w : KeyNegotiation) (err : String) : KeyNegotiation := { w with
  quitChan := (w.quitChan ++ [err, err]).take 2
  notified := true
  failed := w.failed || !w.completed lastPhase }

def readError (w : KeyNegotiation) (err : String) (rest : List String) : KeyNegotiation := { w with
  quitChan := rest
  err := some err
  read := true }

/-- What follows the end of a phase; `dbErr` is what saving the key returns. -/
def phaseDone (dbErr : Option String) (w : KeyNegotiation) : KeyNegotiation :=
  let w := { w with doneChan := Function.update w.doneChan w.phase (w.doneChan w.phase - 1) }
  match w.err with
  | some err => { w with result := some (some err) }
  | none =>
    if w.phase < lastPhase then { w with phase := w.phase + 1, late := w.late || w.read }
    else { w with result := some dbErr, saved := dbErr.isNone }

/-- The select may take either channel when both are ready. -/
inductive Step (dbErr : Option String) : KeyNegotiation → Signal → KeyNegotiation → Prop
  | done {w : KeyNegotiation} (k : ℕ) (hrun : w.result = none) : Step dbErr w (.done k) (w.notifyDone k)
  | error {w : KeyNegotiation} (err : String) (hrun : w.result = none) : Step dbErr w (.error err) (w.notifyError err)
  | takeDone {w : KeyNegotiation} (hrun : w.result = none) (hready : 0 < w.doneChan w.phase) :
    Step dbErr w .takeDone (w.phaseDone dbErr)
  | takeError {w : KeyNegotiation} {err : String} {rest : List String} (hrun : w.result = none)
    (hquit : w.quitChan = err :: rest) : Step dbErr w .takeError (w.readError err rest)

/-- The states of all runs. -/
abbrev Run (dbErr : Option String) : KeyNegotiation → Prop :=
  Reachable (fun w => w = {}) fun w w' => ∃ a, Step dbErr w a w'

/-- The runs in which no end of a phase is taken while an error waits. -/
abbrev CarefulRun (dbErr : Option String) : KeyNegotiation → Prop :=
  Reachable (fun w => w = {}) fun w w' => ∃ a, Step dbErr w a w' ∧ (a = .takeDone → w.quitChan = [])

/-- The select has nothing to take. -/
def Stuck (w : KeyNegotiation) : Prop := w.doneChan w.phase = 0 ∧ w.quitChan = []

/-- A failure in time is reported, no key is saved and no phase started after it was read; without a failure
no error is returned. -/
structure Reports (w : KeyNegotiation) : Prop where
  returned : w.failed = true → w.result ≠ some none ∧ (w.result = none → ¬ w.Stuck)
  unsaved : w.failed = true → w.saved = false
  early : w.late = false
  clean : w.notified = false → ∀ err, w.result ≠ some (some err)

/-! ### What holds in every run -/

/-- An error is read only after it was notified, and the end of a phase waits until it is taken. -/
structure Inv (dbErr : Option String) (w : KeyNegotiation) : Prop where
  failed : w.failed = true → w.notified = true
  quit : w.quitChan ≠ [] → w.notified = true
  err : w.err ≠ none → w.notified = true
  read : w.read = true → w.err ≠ none
  late : w.late = false
  result : ∀ err, w.result = some (some err) → w.notified = true ∨ dbErr ≠ none
  saved : w.saved = true → w.result = some none
  completed : ∀ k, w.completed k = true → k < w.phase ∨ 0 < w.doneChan k ∨ w.result ≠ none

namespace Inv

variable {dbErr : Option String} {w w' : KeyNegotiation} {a : Signal}

theorem start : Inv dbErr {} where
  failed h := nomatch h
  quit h := absurd rfl h
  err h := absurd rfl h
  read h := nomatch h
  late := rfl
  result _ h := nomatch h
  saved h := nomatch h
  completed _ h := nomatch h

theorem notifyDone (h : Inv dbErr w) (k : ℕ) : Inv dbErr (w.notifyDone k) := by
  refine ⟨h.failed, h.quit, h.err, h.read, h.late, h.result, h.saved, fun j hj => ?_⟩
  simp only [KeyNegotiation.notifyDone, Function.update_apply] at hj ⊢
  split at hj
  · next heq =>
    rw [if_pos heq]
    exact .inr (.inl (by omega))
  · next hne =>
    rw [if_neg hne]
    exact h.completed j hj

theorem notifyError (h : Inv dbErr w) (err : String) : Inv dbErr (w.notifyError err) :=
  ⟨fun _ => rfl, fun _ => rfl, fun _ => rfl, h.read, h.late, fun _ _ => .inl rfl, h.saved, h.completed⟩

theorem readError (h : Inv dbErr w) {err : String} {rest : List String} (hquit : w.quitChan = err :: rest) :
    Inv dbErr (w.readError err rest) := by
  have hn : w.notified = true := h.quit (by rw [hquit]; exact List.cons_ne_nil _ _)
  exact ⟨h.failed, fun _ => hn, fun _ => hn, fun _ => Option.some_ne_none _, h.late, h.result, h.saved, h.completed⟩

/-- The signal that is taken is that of the phase which ends. -/
theorem phaseDone (h : Inv dbErr w) (hrun : w.result = none) : Inv dbErr (w.phaseDone dbErr) := by
  have hsaved : w.saved ≠ true := fun hs => by
    rw [h.saved hs] at hrun
    exact nomatch hrun
  cases herr : w.err with
  | some err =>
    have hn : w.notified = true := h.err (by rw [herr]; exact Option.some_ne_none _)
    have heq : w.phaseDone dbErr = { w with
        doneChan := Function.update w.doneChan w.phase (w.doneChan w.phase - 1)
        result := some (some err) } := by
      simp only [KeyNegotiation.phaseDone, herr]
    rw [heq]
    exact ⟨h.failed, h.quit, h.err, h.read, h.late, fun _ _ => .inl hn, fun hs => absurd hs hsaved,
      fun _ _ => .inr (.inr (Option.some_ne_none _))⟩
  | none =>
    have hread : w.read = false := Bool.eq_false_iff.mpr fun hr => h.read hr herr
    by_cases hlast : w.phase < lastPhase
    · have heq : w.phaseDone dbErr = { w with
          doneChan := Function.update w.doneChan w.phase (w.doneChan w.phase - 1)
          phase := w.phase + 1
          late := w.late || w.read } := by
        simp only [KeyNegotiation.phaseDone, herr, if_pos hlast]
      rw [heq]
      refine ⟨h.failed, h.quit, h.err, h.read, ?_, h.result, h.saved, fun k hk => ?_⟩
      · simp only [h.late, hread, Bool.or_self]
      · simp only [Function.update_apply]
        obtain hlt | hpos | hres := h.completed k hk
        · exact .inl (Nat.lt_succ_of_lt hlt)
        · rcases eq_or_ne k w.phase with rfl | hne
          · exact .inl (Nat.lt_succ_self _)
          · rw [if_neg hne]
            exact .inr (.inl hpos)
        · exact absurd hrun hres
    · have heq : w.phaseDone dbErr = { w with
          doneChan := Function.update w.doneChan w.phase (w.doneChan w.phase - 1)
          result := some dbErr
          saved := dbErr.isNone } := by
        simp only [KeyNegotiation.phaseDone, herr, if_neg hlast]
      rw [heq]
      refine ⟨h.failed, h.quit, h.err, h.read, h.late, fun err hres => .inr fun hnone => ?_, fun hs => ?_,
        fun _ _ => .inr (.inr (Option.some_ne_none _))⟩
      · rw [Option.some.inj hres] at hnone
        exact nomatch hnone
      · rw [Option.isNone_iff_eq_none.mp hs]

theorem step (h : Inv dbErr w) (hstep : Step dbErr w a w') : Inv dbErr w' := by
  cases hstep with
  | done k => exact h.notifyDone k
  | error err => exact h.notifyError err
  | takeDone hrun => exact h.phaseDone hrun
  | takeError _ hquit => exact h.readError hquit

theorem of_run (h : Run dbErr w) : Inv dbErr w :=
  h.invariant (fun _ hw => hw ▸ start) fun _ _ _ hinv ⟨_, hstep⟩ => hinv.step hstep

theorem of_carefulRun (h : CarefulRun dbErr w) : Inv dbErr w :=
  h.invariant (fun _ hw => hw ▸ start) fun _ _ _ hinv ⟨_, hstep, _⟩ => hinv.step hstep

end Inv

/-- In a careful run an error stays in sight until it is returned. -/
def InSight (w : KeyNegotiation) : Prop :=
  w.notified = true → w.quitChan ≠ [] ∨ w.err ≠ none ∨ ∃ err, w.result = some (some err)

variable {dbErr : Option String} {w w' : KeyNegotiation} {a : Signal}

theorem InSight.step (h : InSight w) (hstep : Step dbErr w a w') (hcare : a = .takeDone → w.quitChan = []) :
    InSight w' := by
  cases hstep with
  | done k => exact h
  | error err =>
    intro _
    left
    change (w.quitChan ++ [err, err]).take 2 ≠ []
    cases w.quitChan <;> simp
  | takeError => exact fun _ => .inr (.inl (Option.some_ne_none _))
  | takeDone hrun hready =>
    intro hn
    cases herr : w.err with
    | some err =>
      right; right
      exact ⟨err, by simp only [phaseDone, herr]⟩
    | none =>
      have hn' : w.notified = true := by
        simp only [phaseDone, herr] at hn
        split at hn <;> exact hn
      obtain hquit | herr' | ⟨err, hres⟩ := h hn'
      · exact absurd (hcare rfl) hquit
      · exact absurd herr herr'
      · rw [hrun] at hres
        exact nomatch hres

theorem CarefulRun.inSight (h : CarefulRun dbErr w) : InSight w :=
  h.invariant (fun _ hw hn => by rw [hw] at hn; exact nomatch hn) fun _ _ _ hinv ⟨_, hstep, hcare⟩ =>
    hinv.step hstep hcare

/-- A negotiation that is over without an error has not been notified of one. -/
theorem CarefulRun.not_notified (h : CarefulRun dbErr w) (hres : w.result = some none) : w.notified = false := by
  refine h.invariant (p := fun w => w.result = some none → w.notified = false)
    (fun w hw hres => by rw [hw] at hres; exact nomatch hres) (fun w w' hreach _ ⟨a, hstep, hcare⟩ hres => ?_) hres
  have hinv := Inv.of_carefulRun hreach
  cases hstep with
  | done k hrun => exact nomatch hrun.symm.trans hres
  | error err hrun => exact nomatch hrun.symm.trans hres
  | takeError hrun => exact nomatch hrun.symm.trans hres
  | takeDone hrun hready =>
    cases herr : w.err with
    | some err =>
      simp only [phaseDone, herr] at hres
      exact nomatch hres
    | none =>
      have hn : (w.phaseDone dbErr).notified = w.notified := by
        simp only [phaseDone, herr]
        split <;> rfl
      rw [hn, Bool.eq_false_iff]
      intro hn'
      obtain hquit | herr' | ⟨err, hres'⟩ := CarefulRun.inSight hreach hn'
      · exact hquit (hcare rfl)
      · exact herr' herr
      · rw [hrun] at hres'
        exact nomatch hres'

/-- The phase that is waited for when nothing is left to take has been signalled. -/
def Completes (w : KeyNegotiation) : Prop := w.result = none → w.Stuck → w.completed w.phase = true

/-- Failures are reported in every run in which no end of a phase is taken while an error waits, every phase comes to
its end, and the key can be saved. -/
theorem CarefulRun.reports (h : CarefulRun none w) (hend : w.Completes) : Reports w := by
  have hinv := Inv.of_carefulRun h
  have hfailed : w.failed = true → w.result ≠ some none := fun hf hres => by
    have hn := hinv.failed hf
    rw [CarefulRun.not_notified h hres] at hn
    exact nomatch hn
  refine ⟨fun hf => ⟨hfailed hf, fun hres hstuck => ?_⟩, fun hf => ?_, hinv.late, fun hn err hres => ?_⟩
  · obtain hlt | hpos | hne := hinv.completed _ (hend hres hstuck)
    · exact absurd hlt (lt_irrefl _)
    · exact hpos.ne' hstuck.1
    · exact hne hres
  · exact Bool.eq_false_iff.mpr fun hs => hfailed hf (hinv.saved hs)
  · obtain hn' | hdb := hinv.result err hres
    · rw [hn] at hn'
      exact nomatch hn'
    · exact hdb rfl

section Example

/-- A phase that ends without an error. -/
def ended (w : KeyNegotiation) (k : ℕ) : KeyNegotiation := (w.notifyDone k).phaseDone none

/-- Three phases end. -/
def lastWait : KeyNegotiation := ended (ended (ended {} 1) 2) 3

/-- In the last phase an error is notified, and the select takes the end of the phase instead. -/
def lostError : KeyNegotiation := ended (lastWait.notifyError "last pubkey verify error for notary[ID=1]") 4

/-- In the first phase an error is notified and read, and the phase does not end. -/
def endlessWait : KeyNegotiation :=
  let err := "pubkey roof for notary[ID=1] verify not pass"
  (((({} : KeyNegotiation).notifyError err).readError err [err]).readError err [])

/-- The phase ends after all, and the error is returned. -/
def reportedError : KeyNegotiation := ended endlessWait 1

theorem CarefulRun.ended {w : KeyNegotiation} (h : CarefulRun none w) (hrun : w.result = none)
    (hquit : w.quitChan = []) :
    CarefulRun none (ended w w.phase) := by
  have hdone : CarefulRun none (w.notifyDone w.phase) := h.step ⟨_, .done w.phase hrun, nofun⟩
  refine hdone.step ⟨_, .takeDone hrun ?_, fun _ => hquit⟩
  simp only [notifyDone, Function.update_self]
  omega

theorem careful_endlessWait : CarefulRun none endlessWait := by
  have h0 : CarefulRun none {} := .init rfl
  have h1 : CarefulRun none (({} : KeyNegotiation).notifyError "pubkey roof for notary[ID=1] verify not pass") :=
    h0.step ⟨_, .error _ rfl, nofun⟩
  exact (h1.step ⟨_, .takeError rfl rfl, nofun⟩).step ⟨_, .takeError rfl rfl, nofun⟩

theorem Run.of_careful {w : KeyNegotiation} (h : CarefulRun none w) : Run none w := by
  induction h with
  | init h => exact .init h
  | step _ hn ih => exact ih.step (hn.imp fun _ h => h.1)

theorem run_lostError : Run none lostError := by
  have h0 : CarefulRun none {} := .init rfl
  have h1 : CarefulRun none (ended {} 1) := h0.ended rfl rfl
  have h2 : CarefulRun none lastWait := (h1.ended rfl rfl).ended rfl rfl
  have h3 := (Run.of_careful h2).step ⟨_, .error "last pubkey verify error for notary[ID=1]" rfl⟩
  exact (h3.step ⟨_, .done 4 rfl⟩).step ⟨_, .takeDone rfl (by decide)⟩

theorem reports_reportedError : reportedError.failed = true ∧ Reports reportedError :=
  ⟨rfl, CarefulRun.reports (careful_endlessWait.ended rfl rfl) fun h => nomatch h⟩

/-- Whatever the select takes, failures are reported. -/
def AlwaysReports : Prop := ∀ w, Run none w → Reports w

/-- The lost error lets a key be saved, and the endless phase returns nothing. -/
theorem not_alwaysReports : ¬ AlwaysReports ∧ (Run none endlessWait ∧ ¬ Reports endlessWait) ∧
    Run none lostError ∧ lostError.failed = true ∧ lostError.saved = true := by
  refine ⟨fun h => ?_, ⟨Run.of_careful careful_endlessWait, fun h => ?_⟩, run_lostError, rfl, rfl⟩
  · exact (h _ run_lostError).returned rfl |>.1 rfl
  · exact (h.returned rfl).2 rfl ⟨rfl, rfl⟩

end Example

end KeyNegotiation

end DistributedNotary.Mecdsa
