import DeviceProgramming.Machine.Deadlock
import DeviceProgramming.Xv6.Locks

namespace DeviceProgramming.Xv6

variable {Pid : Type*} [DecidableEq Pid] [Fintype Pid]

/-- The number of processes that are asleep in `cond_wait` until a signal. -/
def waiters (s : State Pid) (cond : CondIx) : ℕ := s.sleepers (.alarmClock cond)

/-- What the comments promise about a step: `cond_signal` awakes one waiting
process, if there is one, and `cond_broadcast` all of them. -/
def AwakesAsStated (s : State Pid) (label : Pid × Call) (t : State Pid) : Prop :=
  ∀ cond, 1 ≤ waiters s cond →
    (s.thread label.1 = .run (.condSignal cond) → waiters t cond = waiters s cond - 1) ∧
    (s.thread label.1 = .run (.condBroadcast cond) → waiters t cond = 0)

/-- A signal finds at most one waiting process. -/
def SignalsOne (s : State Pid) (label : Pid × Call) : Prop :=
  ∀ cond, s.thread label.1 = .run (.condSignal cond) → waiters s cond ≤ 1

/-- `cond_signal` and `cond_broadcast` awake every waiting process. -/
theorem awakesAsStated_iff {s t : State Pid} {label : Pid × Call} (step : (program Pid).Step label.1 label.2 s t) :
    AwakesAsStated s label t ↔ SignalsOne s label := by
  have signalled (cond : CondIx) (at' : s.thread label.1 = .run (.condSignal cond)) : waiters t cond = 0 :=
    step.sleepers_woken at' rfl
  constructor
  · intro stated cond at'
    by_contra many
    have left := (stated cond (by omega)).1 at'
    have none := signalled cond at'
    omega
  · intro one cond some
    refine ⟨fun at' => ?_, fun at' => step.sleepers_woken at' rfl⟩
    have most := one cond at'
    have none := signalled cond at'
    omega

/-- In a run of any number of processes the signals and broadcasts do what their
comments say exactly when each signal finds at most one waiting process. -/
theorem signal_awakes_one_iff {path : List (State Pid × Pid × Call)} {s : State Pid}
    (run : ((program Pid).system Quiet).Run path s) :
    System.Steps AwakesAsStated path s ↔ ∀ step ∈ path, SignalsOne step.1 step.2 :=
  run.steps_iff fun _ _ _ moved => awakesAsStated_iff (Program.step_of_next moved).2

/-- Two processes wait, and a third one is about to signal. -/
def twoWaiters (first second signaller : Pid) (cond : CondIx) : List (Pid × Call) := schedule
  [(first, .condAlloc, 7), (first, .condLock cond, 6), (first, .condWait cond, 6),
   (second, .condLock cond, 6), (second, .condWait cond, 6), (signaller, .condSignal cond, 1)]

set_option maxRecDepth 10000 in
theorem twoWaiters_signal :
    ∃ s, ((program (Fin 3)).system Quiet).run (twoWaiters 0 1 2 0) (boot (Fin 3)) = some s ∧
      waiters s 0 = 2 ∧ s.thread 2 = .run (.condSignal 0) := by
  have computed : (((program (Fin 3)).system Quiet).run (twoWaiters 0 1 2 0) (boot (Fin 3))).map
      (fun s => (waiters s 0, s.thread 2)) = some (2, .run (.condSignal 0)) := by decide
  obtain ⟨s, reached, state⟩ := Option.map_eq_some_iff.mp computed
  simp only [Prod.mk.injEq] at state
  exact ⟨s, reached, state⟩

/-- The signal is executed, and breaks both sides. -/
theorem signal_awakes_one_iff_two :
    ∃ (path : List (State (Fin 3) × Fin 3 × Call)) (s : State (Fin 3)),
      path.map Prod.snd = (2, .condSignal 0) :: (twoWaiters 0 1 2 0).reverse ∧ waiters s 0 = 0 ∧
      (System.Steps AwakesAsStated path s ↔ ∀ step ∈ path, SignalsOne step.1 step.2) ∧
      ¬ ∀ step ∈ path, SignalsOne step.1 step.2 := by
  obtain ⟨s, computed, two, at'⟩ := twoWaiters_signal
  obtain ⟨path, run, _, labels⟩ := (System.Run.start (quiet_boot (Fin 3))).of_run (by simp) computed
  have step : (program (Fin 3)).Step 2 (.condSignal 0) s _ := .wakeup at' rfl
  have moved : ((program (Fin 3)).system Quiet).next s (2, .condSignal 0) = some _ := Program.step_iff.mpr ⟨rfl, step⟩
  refine ⟨_, _, by simpa using labels, step.sleepers_woken at' rfl, signal_awakes_one_iff (run.next moved), fun one => ?_⟩
  have most : waiters s 0 ≤ 1 := one _ (List.mem_cons_self ..) 0 at'
  omega

/-- With two processes waiting a signal leaves none of them asleep. -/
theorem signal_awakes_both : ∃ s t : State (Fin 3), ((program (Fin 3)).system Quiet).Reach s ∧
    ((program (Fin 3)).system Quiet).next s (2, .condSignal 0) = some t ∧
    s.thread 2 = .run (.condSignal 0) ∧ waiters s 0 = 2 ∧ waiters t 0 = 0 ∧
    ¬ AwakesAsStated s (2, .condSignal 0) t := by
  obtain ⟨s, computed, two, at'⟩ := twoWaiters_signal
  have step : (program (Fin 3)).Step 2 (.condSignal 0) s _ := .wakeup at' rfl
  refine ⟨s, _, .of_run (.start (quiet_boot (Fin 3))) computed, Program.step_iff.mpr ⟨rfl, step⟩, at', two,
    step.sleepers_woken at' rfl, fun stated => ?_⟩
  have most := (awakesAsStated_iff step).mp stated 0 at'
  omega

end DeviceProgramming.Xv6
