import Mathlib.Data.Nat.Notation
import Mathlib.Tactic.Tauto

namespace DeviceProgramming

/-- A labelled transition system with computed steps: a label says who moves
and with which outside choice, and `none` means that this move is blocked. -/
structure System (σ α : Type*) where
  start : σ → Prop
  next : σ → α → Option σ

namespace System
variable {σ α : Type*} (S : System σ α)

/-- The states of the runs all of whose steps meet `ok`, a condition on the
state before the step and its label. -/
inductive ReachUnder (ok : σ → α → Prop) : σ → Prop
  | start {s} : S.start s → ReachUnder ok s
  | next {s t a} : ReachUnder ok s → ok s a → S.next s a = some t → ReachUnder ok t

/-- The states of all runs. -/
abbrev Reach : σ → Prop := S.ReachUnder fun _ _ => True

/-- The labels in `labels` taken one after the other while they are allowed. -/
def runUnder (ok : σ → α → Prop) [∀ s a, Decidable (ok s a)] (labels : List α) (s : σ) : Option σ :=
  labels.foldlM (fun s a => if ok s a then S.next s a else none) s

abbrev run (labels : List α) (s : σ) : Option σ := S.runUnder (fun _ _ => True) labels s

variable {S}

theorem ReachUnder.mono {ok weaker : σ → α → Prop} {s : σ} (reach : S.ReachUnder ok s)
    (weaken : ∀ s a, ok s a → weaker s a) : S.ReachUnder weaker s := by
  induction reach with
  | start initial => exact .start initial
  | next _ allowed step ih => exact .next ih (weaken _ _ allowed) step

/-- What holds at the start and survives every allowed step from a reached
state holds in every state of an allowed run. -/
theorem ReachUnder.invariant {ok : σ → α → Prop} {motive : σ → Prop} (initial : ∀ s, S.start s → motive s)
    (preserved : ∀ s t a, S.ReachUnder ok s → motive s → ok s a → S.next s a = some t → motive t)
    {s : σ} (reach : S.ReachUnder ok s) : motive s := by
  induction reach with
  | start begun => exact initial _ begun
  | next earlier allowed step ih => exact preserved _ _ _ earlier ih allowed step

theorem runUnder_cons {ok : σ → α → Prop} [∀ s a, Decidable (ok s a)] {label : α} {rest : List α}
    {s t : σ} (computed : S.runUnder ok (label :: rest) s = some t) :
    ok s label ∧ ∃ middle, S.next s label = some middle ∧ S.runUnder ok rest middle = some t := by
  obtain ⟨middle, first, later⟩ := Option.bind_eq_some_iff.mp computed
  change (if ok s label then S.next s label else none) = some middle at first
  by_cases allowed : ok s label
  · rw [if_pos allowed] at first
    exact ⟨allowed, middle, first, later⟩
  · rw [if_neg allowed] at first
    cases first

theorem runUnder_next {ok : σ → α → Prop} [∀ s a, Decidable (ok s a)] {label : α} {rest : List α} {s middle : σ}
    (allowed : ok s label) (first : S.next s label = some middle) :
    S.runUnder ok (label :: rest) s = S.runUnder ok rest middle := by
  simp [runUnder, allowed, first]

theorem runUnder_append {ok : σ → α → Prop} [∀ s a, Decidable (ok s a)] {labels : List α} {s middle : σ}
    (first : S.runUnder ok labels s = some middle) (rest : List α) :
    S.runUnder ok (labels ++ rest) s = S.runUnder ok rest middle := by
  rw [runUnder] at first
  rw [runUnder, List.foldlM_append, first]
  rfl

/-- A run computed label by label reaches its last state. -/
theorem ReachUnder.of_run {ok : σ → α → Prop} [∀ s a, Decidable (ok s a)] {s t : σ}
    (reach : S.ReachUnder ok s) {labels : List α} (computed : S.runUnder ok labels s = some t) :
    S.ReachUnder ok t := by
  induction labels generalizing s with
  | nil => cases Option.some.inj computed; exact reach
  | cons label rest ih =>
    obtain ⟨allowed, middle, first, later⟩ := runUnder_cons computed
    exact ih (reach.next allowed first) later

/-- A run with all its steps, the last one first: the state before each step
and its label. -/
inductive Run (S : System σ α) : List (σ × α) → σ → Prop
  | start {s} : S.start s → Run S [] s
  | next {path s t a} : Run S path s → S.next s a = some t → Run S ((s, a) :: path) t

/-- A property holds throughout a run. -/
def Throughout (holds : σ → Prop) (path : List (σ × α)) (s : σ) : Prop :=
  (∀ step ∈ path, holds step.1) ∧ holds s

theorem Run.reachUnder {ok : σ → α → Prop} {path : List (σ × α)} {s : σ} (run : S.Run path s)
    (allowed : ∀ step ∈ path, ok step.1 step.2) : S.ReachUnder ok s := by
  induction run with
  | start begun => exact .start begun
  | next earlier step ih =>
    have before := ih fun e member => allowed e (List.mem_cons_of_mem _ member)
    exact before.next (allowed _ (List.mem_cons_self ..)) step

theorem Run.reachUnder_of_mem {ok : σ → α → Prop} {path : List (σ × α)} {s : σ} (run : S.Run path s)
    (allowed : ∀ step ∈ path, ok step.1 step.2) {step : σ × α} (member : step ∈ path) :
    S.ReachUnder ok step.1 := by
  induction run with
  | start => simp at member
  | next earlier moved ih =>
    obtain ⟨_, before⟩ := List.forall_mem_cons.mp allowed
    rcases List.mem_cons.mp member with rfl | old
    · exact earlier.reachUnder before
    · exact ih before old

theorem Run.of_run {ok : σ → α → Prop} [∀ s a, Decidable (ok s a)] {path : List (σ × α)} {s t : σ}
    (run : S.Run path s) (before : ∀ step ∈ path, ok step.1 step.2) {labels : List α}
    (computed : S.runUnder ok labels s = some t) :
    ∃ later, S.Run later t ∧ (∀ step ∈ later, ok step.1 step.2) ∧
      later.map Prod.snd = labels.reverse ++ path.map Prod.snd := by
  induction labels generalizing s path with
  | nil => cases Option.some.inj computed; exact ⟨path, run, before, rfl⟩
  | cons label rest ih =>
    obtain ⟨allowed, middle, first, later⟩ := runUnder_cons computed
    obtain ⟨whole, reached, all, taken⟩ :=
      ih (run.next first) (List.forall_mem_cons.mpr ⟨allowed, before⟩) later
    exact ⟨whole, reached, all, by simpa using taken⟩

variable (S) in
/-- The run with the labels in `labels` after `path`, computed with all its steps. -/
def trace (labels : List α) (path : List (σ × α)) (s : σ) : Option (List (σ × α) × σ) := match labels with
  | [] => some (path, s)
  | label :: rest => (S.next s label).bind fun t => trace rest ((s, label) :: path) t

theorem Run.of_trace {path later : List (σ × α)} {s t : σ} (run : S.Run path s) {labels : List α}
    (computed : S.trace labels path s = some (later, t)) : S.Run later t := by
  induction labels generalizing path s with
  | nil => cases Option.some.inj computed; exact run
  | cons label rest ih =>
    obtain ⟨middle, first, after⟩ := Option.bind_eq_some_iff.mp computed
    exact ih (run.next first) after

/-- A relation between the state before a step, its label and the state after it
holds of every step of a run. -/
def Steps (holds : σ → α → σ → Prop) : List (σ × α) → σ → Prop
  | [], _ => True
  | (s, a) :: earlier, t => holds s a t ∧ Steps holds earlier s

theorem Run.steps_iff {holds : σ → α → σ → Prop} {ok : σ → α → Prop} {path : List (σ × α)} {s : σ}
    (run : S.Run path s) (each : ∀ s a t, S.next s a = some t → (holds s a t ↔ ok s a)) :
    Steps holds path s ↔ ∀ step ∈ path, ok step.1 step.2 := by
  induction run with
  | start => simp [Steps]
  | next earlier moved ih => rw [Steps, List.forall_mem_cons, each _ _ _ moved, ih]

/-- When, within `scope`, `ok` steps never leave `holds` and every other step
does, `ok` is the exact condition on the steps of a run for `holds` to hold
throughout it. -/
theorem Run.throughout_iff {scope ok : σ → α → Prop} {holds : σ → Prop}
    (safe : ∀ s, S.ReachUnder (fun s a => scope s a ∧ ok s a) s → holds s)
    (necessary : ∀ s a t, S.ReachUnder scope s → scope s a → S.next s a = some t → ¬ ok s a → ¬ holds t)
    {path : List (σ × α)} {s : σ} (run : S.Run path s) (within : ∀ step ∈ path, scope step.1 step.2) :
    Throughout holds path s ↔ ∀ step ∈ path, ok step.1 step.2 := by
  induction run with
  | start begun => simpa [Throughout] using safe _ (.start begun)
  | @next path s t a earlier step ih =>
    have split : Throughout holds ((s, a) :: path) t ↔ Throughout holds path s ∧ holds t := by
      simp only [Throughout, List.forall_mem_cons]
      tauto
    rw [List.forall_mem_cons] at within
    obtain ⟨here, before⟩ := within
    simp only [split, ih before, List.forall_mem_cons]
    constructor
    · rintro ⟨allowed, now⟩
      have reached : S.ReachUnder scope s := earlier.reachUnder before
      exact ⟨Classical.byContradiction fun broken => necessary s a t reached here step broken now, allowed⟩
    · rintro ⟨good, allowed⟩
      have reached : S.ReachUnder (fun s a => scope s a ∧ ok s a) s :=
        earlier.reachUnder fun e member => ⟨before e member, allowed e member⟩
      exact ⟨allowed, safe t (reached.next ⟨here, good⟩ step)⟩

end System

/-- The labels of a schedule: each entry lets a thread go on with an input for a
number of steps. -/
def schedule {Tid Input : Type*} (turns : List (Tid × Input × ℕ)) : List (Tid × Input) :=
  turns.flatMap fun (t, input, steps) => List.replicate steps (t, input)

end DeviceProgramming
