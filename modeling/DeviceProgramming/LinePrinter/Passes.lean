import DeviceProgramming.LinePrinter.Printer

namespace DeviceProgramming.LinePrinter

open Lines

variable {file unread read rest line : List UInt8} {number : ℤ} {s s' : State} {event : Event} {events : List Event}

theorem fgets_length (result : fgets 100 unread = some (read, rest)) : rest.length < unread.length := by
  unfold fgets at result
  split at result
  · cases result
  · rename_i some
    have pair : piece newline 99 unread = (read, rest) := Option.some.inj result
    have whole := congrArg List.length (piece_append newline 99 unread)
    have filled := List.length_pos_iff.mpr (piece_some newline some (show 0 < 99 by omega))
    rw [List.length_append] at whole
    simp only [pair] at whole filled
    omega

/-- What a pass prints of the rest of the file. -/
def printed (number : ℤ) (unread : List UInt8) : List UInt8 :=
  match _result : fgets 100 unread with
  | none => []
  | some (read, rest) => printf (int32 (number + 1)) read ++ printed (int32 (number + 1)) rest
termination_by unread.length
decreasing_by exact fgets_length _result

theorem printed_none (ends : fgets 100 unread = none) (number : ℤ) : printed number unread = [] := by
  rw [printed]
  split
  · rfl
  · rename_i more
    rw [ends] at more
    cases more

theorem printed_some (result : fgets 100 unread = some (read, rest)) (number : ℤ) :
    printed number unread = printf (int32 (number + 1)) read ++ printed (int32 (number + 1)) rest := by
  rw [printed]
  split
  · rename_i ends
    rw [result] at ends
    cases ends
  · rename_i more
    rw [result] at more
    cases more
    rfl

/-- The terminator ends what has been stored. -/
theorem string_store (read line : List UInt8) : string (store read line) = string read := by
  unfold string store
  generalize line.drop (read.length + 1) = behind
  induction read with
  | nil => rfl
  | cons c read ih => rw [List.cons_append, List.takeWhile_cons, List.takeWhile_cons, ih]

theorem printf_store (number : ℤ) (read line : List UInt8) : printf number (store read line) = printf number read := by
  rw [printf, printf, string_store]

/-- What a statement does. -/
inductive Moved (file : List UInt8) (s : State) : State → Prop
  | ends : s.stmt = .fgets → fgets 100 s.unread = none → Moved file s { s with stmt := .reset }
  | read {read rest : List UInt8} : s.stmt = .fgets → fgets 100 s.unread = some (read, rest) →
      Moved file s { s with stmt := .increment, line := store read s.line, unread := rest }
  | increment : s.stmt = .increment → Moved file s { s with stmt := .test, lineNumber := int32 (s.lineNumber + 1) }
  | disabled : s.stmt = .test → s.print = 0 → Moved file s { s with stmt := .fgets }
  | enabled : s.stmt = .test → s.print ≠ 0 → Moved file s { s with stmt := .printf }
  | printf : s.stmt = .printf →
      Moved file s { s with stmt := .fgets, output := s.output ++ printf s.lineNumber s.line }
  | reset : s.stmt = .reset → Moved file s { s with stmt := .rewind, lineNumber := 0 }
  | rewind : s.stmt = .rewind → Moved file s { s with stmt := .fgets, unread := file }

theorem moved_of_step (run : step file s = some s') : Moved file s s' := by
  unfold step at run
  split at run
  · rename_i here
    split at run
    · rename_i ends
      cases Option.some.inj run
      exact .ends here ends
    · rename_i result
      cases Option.some.inj run
      exact .read here result
  · rename_i here
    cases Option.some.inj run
    exact .increment here
  · rename_i here
    split at run
    · rename_i disabled
      cases Option.some.inj run
      exact .disabled here disabled
    · rename_i enabled
      cases Option.some.inj run
      exact .enabled here enabled
  · rename_i here
    cases Option.some.inj run
    exact .printf here
  · rename_i here
    cases Option.some.inj run
    exact .reset here
  · rename_i here
    cases Option.some.inj run
    exact .rewind here
  · cases run

theorem next_cases (run : next file s event = some s') : event = .goes ∧ Moved file s s' ∨
    s' = { s with print := 1 - s.print } ∨ s' = { s with stmt := .ended } := by
  cases event with
  | goes => exact Or.inl ⟨rfl, moved_of_step run⟩
  | altern =>
    rw [next] at run
    split at run
    · cases run
    · exact Or.inr (Or.inl (Option.some.inj run).symm)
  | endParent =>
    rw [next] at run
    split at run
    · cases run
    · exact Or.inr (Or.inr (Option.some.inj run).symm)

/-- The parent can go on until it has been ended. -/
theorem step_goes (file : List UInt8) (alive : s.stmt ≠ .ended) : ∃ s', step file s = some s' := by
  unfold step
  split
  · split <;> exact ⟨_, rfl⟩
  all_goals first | exact ⟨_, rfl⟩ | contradiction

/-- What a pass prints from a statement of the inner loop on. -/
def State.coming (s : State) : List UInt8 := match s.stmt with
  | .fgets => printed s.lineNumber s.unread
  | .increment => printf (int32 (s.lineNumber + 1)) s.line ++ printed (int32 (s.lineNumber + 1)) s.unread
  | .test | .printf => printf s.lineNumber s.line ++ printed s.lineNumber s.unread
  | .reset | .rewind | .ended => []

/-- A state of a pass that prints `total` in the end. -/
structure Pass (total : List UInt8) (s : State) : Prop where
  inside : s.stmt ≠ .rewind
  output : s.stmt ≠ .ended → s.output ++ s.coming = total

theorem Moved.pass {total : List UInt8} (moved : Moved file s s') (pass : Pass total s) (printing : Printing s .goes) :
    Pass total s' := by
  obtain ⟨inside, output⟩ := pass
  obtain ⟨more, enabled⟩ := printing
  cases moved with
  | ends here result =>
    have total := output (by simp [here])
    rw [State.coming, here, printed_none result] at total
    exact ⟨by simp, fun _ => total⟩
  | read here result =>
    have total := output (by simp [here])
    rw [State.coming, here, printed_some result] at total
    refine ⟨by simp, fun _ => ?_⟩
    simp only [State.coming, printf_store]
    exact total
  | increment here =>
    have total := output (by simp [here])
    rw [State.coming, here] at total
    exact ⟨by simp, fun _ => total⟩
  | disabled _ off => exact absurd off enabled
  | enabled here =>
    have total := output (by simp [here])
    rw [State.coming, here] at total
    exact ⟨by simp, fun _ => total⟩
  | printf here =>
    have total := output (by simp [here])
    rw [State.coming, here, ← List.append_assoc] at total
    exact ⟨by simp, fun _ => total⟩
  | reset here => exact absurd here more
  | rewind here => exact absurd here inside

/-- A signal changes nothing about a pass, or ends it. -/
theorem Pass.next {total : List UInt8} (pass : Pass total s) (printing : Printing s event)
    (run : LinePrinter.next file s event = some s') : Pass total s' := by
  rcases next_cases run with ⟨rfl, moved⟩ | rfl | rfl
  · exact moved.pass pass printing
  · exact ⟨pass.inside, pass.output⟩
  · exact ⟨by simp, fun alive => absurd rfl alive⟩

theorem Pass.run {total : List UInt8} (pass : Pass total s) (run : (printer file).runUnder Printing events s = some s') :
    Pass total s' := by
  induction events generalizing s with
  | nil =>
    cases Option.some.inj run
    exact pass
  | cons event events ih =>
    obtain ⟨printing, middle, moved, later⟩ := System.runUnder_cons run
    exact ih (pass.next printing moved) later

/-- What is left to do until the inner loop ends. -/
def State.left (file : List UInt8) (s : State) : ℕ := match s.stmt with
  | .increment => 4 * s.unread.length + 4
  | .test => 4 * s.unread.length + 3
  | .printf => 4 * s.unread.length + 2
  | .fgets => 4 * s.unread.length + 1
  | .rewind => 4 * file.length + 2
  | .reset | .ended => 0

theorem Moved.left_lt (moved : Moved file s s') (more : s.stmt ≠ .reset) : s'.left file < s.left file := by
  cases moved with
  | read here result =>
    have shorter := fgets_length result
    simp only [State.left, here]
    omega
  | reset here => exact absurd here more
  | ends here | increment here | disabled here | enabled here | printf here | rewind here => simp [State.left, here]

/-- A statement of the parent neither ends it nor changes `print`. -/
theorem Moved.frame (moved : Moved file s s') : s'.stmt ≠ .ended ∧ s'.print = s.print := by
  cases moved <;> exact ⟨by simp, rfl⟩

/-- The inner loop ends when no more signals come. -/
theorem pass_ends (file : List UInt8) (alive : s.stmt ≠ .ended) :
    (printer file).Inevitable (fun _ event => event = .goes) (fun s => s.stmt = .reset) s := by
  refine System.Inevitable.of_rank (fun s => s.stmt ≠ .ended) (State.left file) ?_ ?_ ?_ alive
  · rintro s event s' _ rfl moved
    exact (moved_of_step moved).frame.1
  · intro s alive _
    obtain ⟨s', moved⟩ := step_goes file alive
    exact ⟨.goes, s', moved⟩
  · rintro s event s' _ more rfl moved
    exact (moved_of_step moved).left_lt more

/-- A pass that prints comes to its end. -/
theorem exists_pass (file : List UInt8) (alive : s.stmt ≠ .ended) (enabled : s.print ≠ 0) :
    ∃ events s', (printer file).runUnder Printing events s = some s' ∧ s'.stmt = .reset := by
  refine (pass_ends file alive).exists_run (fun s => s.stmt ≠ .ended ∧ s.print ≠ 0) ?_ ⟨alive, enabled⟩
  rintro s ⟨alive, enabled⟩ more
  obtain ⟨s', moved⟩ := step_goes file alive
  obtain ⟨alive', same⟩ := (moved_of_step moved).frame
  exact ⟨.goes, s', rfl, ⟨more, enabled⟩, moved, alive', by rwa [same]⟩

/-- A pass prints the file with its line numbers if and only if its calls of `fgets` do. -/
theorem printsNumbered_iff (begins : Begins file s) (enabled : s.print ≠ 0) :
    PrintsNumbered file s ↔ printed 0 file = numbered file := by
  have alive : s.stmt ≠ .ended := by
    rw [begins.stmt]
    nofun
  have pass : Pass (s.output ++ printed 0 file) s := by
    refine ⟨by simp [begins.stmt], fun _ => ?_⟩
    rw [State.coming, begins.stmt, begins.lineNumber, begins.unread]
  have all {events : List Event} {s' : State} (run : (printer file).runUnder Printing events s = some s')
      (here : s'.stmt = .reset) : s'.output = s.output ++ printed 0 file := by
    have total := (pass.run run).output (by simp [here])
    rwa [State.coming, here, List.append_nil] at total
  constructor
  · intro prints
    obtain ⟨events, s', run, here⟩ := exists_pass file alive enabled
    have same := prints.output events s' run here
    rw [all run here] at same
    exact List.append_cancel_left same
  · intro same
    refine ⟨pass_ends file alive, fun events s' run here => ?_⟩
    rw [all run here, same]

theorem Launch.begins (launch : Launch file s) : Begins file s := ⟨launch.stmt, launch.lineNumber, launch.unread⟩

/-- After a `rewind` the next pass begins with the first line and its number. -/
theorem begins_of_rewind (reach : (printer file).Reach s) (here : s.stmt = .rewind) (run : step file s = some s') :
    Begins file s' := by
  have reset : s.stmt = .rewind → s.lineNumber = 0 := by
    refine reach.invariant (motive := fun s => s.stmt = .rewind → s.lineNumber = 0) ?_ ?_
    · intro s launch _
      exact launch.lineNumber
    · intro s s' event _ before _ moved
      rcases next_cases moved with ⟨_, moved⟩ | rfl | rfl
      · cases moved <;> simp
      · exact before
      · simp
  have number := reset here
  cases moved_of_step run with
  | rewind => exact ⟨rfl, number, rfl⟩
  | ends there | read there | increment there | disabled there | enabled there | printf there | reset there =>
    rw [here] at there
    cases there

end DeviceProgramming.LinePrinter
