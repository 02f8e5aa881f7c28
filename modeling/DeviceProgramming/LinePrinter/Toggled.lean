import DeviceProgramming.LinePrinter.Numbers

namespace DeviceProgramming.LinePrinter

open Lines

variable {file unread line : List UInt8} {k r : ℕ} {decided : List Bool} {path : List (State × Event)} {s s' : State}

/-- What a test of `print` finds. -/
def decision : State × Event → Option Bool
  | (s, .goes) => if s.stmt = .test then some (decide (s.print ≠ 0)) else none
  | (_, .altern) | (_, .endParent) => none

/-- What the tests of `print` have found, from the first one on. -/
def decisions (path : List (State × Event)) : List Bool := path.reverse.filterMap decision

/-- The line that comes after `k` others, when the file is read again and again, with its number. -/
def entry (file : List UInt8) (k : ℕ) : List UInt8 :=
  decimal (k % (lines newline file).length + 1 : ℕ) ++
    space :: (lines newline file).getD (k % (lines newline file).length) []

/-- The lines that have been let through, each with its number. -/
def shown (file : List UInt8) (decided : List Bool) : List UInt8 :=
  decided.zipIdx.flatMap fun (on, k) => if on then entry file k else []

theorem shown_append (file : List UInt8) (decided : List Bool) (on : Bool) :
    shown file (decided ++ [on]) = shown file decided ++ if on then entry file decided.length else [] := by
  simp [shown, List.zipIdx_append]

theorem decisions_cons (step : State × Event) (path : List (State × Event)) :
    decisions (step :: path) = decisions path ++ (decision step).toList := by
  rw [decisions, List.reverse_cons, List.filterMap_append]
  cases found : decision step <;> simp [decisions, found]

theorem mem_of_mem_lines {c : UInt8} (member : line ∈ lines newline file) (inside : c ∈ line) : c ∈ file := by
  induction file using lines_induction newline with
  | nil => cases member
  | last body some free =>
    rw [lines_last some free, List.mem_singleton] at member
    exact member ▸ inside
  | line body rest free ih =>
    rw [lines_append free, List.mem_cons] at member
    rw [List.append_cons, List.mem_append]
    rcases member with rfl | later
    · exact Or.inl inside
    · exact Or.inr (ih later)

/-- `fgets` reads one line where it fits. -/
theorem fgets_lines (short : ∀ line ∈ lines newline unread, line.length ≤ 99) {read rest : List UInt8}
    (result : fgets 100 unread = some (read, rest)) : lines newline unread = read :: lines newline rest := by
  induction unread using lines_induction newline with
  | nil => cases result
  | last body some free =>
    rw [lines_last some free, List.forall_mem_singleton] at short
    rw [fgets_last free some short] at result
    cases result
    exact lines_last some free
  | line body rest free =>
    rw [lines_append free, List.forall_mem_cons, List.length_append, List.length_singleton] at short
    rw [fgets_line free (by omega)] at result
    cases result
    exact lines_append free _

theorem fgets_none (ends : fgets 100 unread = none) : unread = [] := by
  rw [fgets] at ends
  split at ends
  · assumption
  · cases ends

/-- After `k` lines, `r` of them in this pass. -/
structure InPass (file : List UInt8) (k r : ℕ) : Prop where
  least : r ≤ (lines newline file).length
  passes : ∃ passes, k = passes * (lines newline file).length + r

theorem InPass.again (inPass : InPass file k (lines newline file).length) : InPass file k 0 := by
  obtain ⟨passes, count⟩ := inPass.passes
  exact ⟨Nat.zero_le _, passes + 1, by rw [count, Nat.add_zero, Nat.succ_mul]⟩

/-- The line in the array, before those that are still to be read. -/
def Reads (file : List UInt8) (r : ℕ) (s : State) : Prop :=
  (lines newline file).drop r = string s.line :: lines newline s.unread

theorem Reads.lt (reads : Reads file r s) : r < (lines newline file).length := by
  have some := congrArg List.length reads
  rw [List.length_drop, List.length_cons] at some
  omega

theorem Reads.rest (reads : Reads file r s) : lines newline s.unread = (lines newline file).drop (r + 1) := by
  rw [← List.drop_drop, reads, List.drop_one, List.tail_cons]

theorem Reads.passed (reads : Reads file r s) (inPass : InPass file k r) : InPass file (k + 1) (r + 1) := by
  obtain ⟨passes, count⟩ := inPass.passes
  exact ⟨reads.lt, passes, by omega⟩

theorem Reads.entry_eq (reads : Reads file r s) (inPass : InPass file k r) :
    entry file k = decimal (r + 1 : ℕ) ++ space :: string s.line := by
  obtain ⟨passes, rfl⟩ := inPass.passes
  have index : (passes * (lines newline file).length + r) % (lines newline file).length = r := by
    rw [Nat.mul_add_mod', Nat.mod_eq_of_lt reads.lt]
  have here : (lines newline file).getD r [] = string s.line := by
    rw [List.getD_eq_getElem?_getD, ← List.head?_drop, reads]
    rfl
  rw [entry, index, here]

/-- Where the parent is in its pass, and what it has shown: all that has been let through, but
perhaps not the line of the last test. -/
abbrev Shows (file : List UInt8) (decided : List Bool) (s : State) : Prop := match s.stmt with
  | .fgets => ∃ r : ℕ, InPass file decided.length r ∧ s.lineNumber = r ∧
      lines newline s.unread = (lines newline file).drop r ∧ s.output = shown file decided
  | .increment => ∃ r : ℕ, InPass file decided.length r ∧ s.lineNumber = r ∧ Reads file r s ∧
      s.output = shown file decided
  | .test => ∃ r : ℕ, InPass file decided.length r ∧ s.lineNumber = (r + 1 : ℕ) ∧ Reads file r s ∧
      s.output = shown file decided
  | .printf => ∃ earlier, decided = earlier ++ [true] ∧ ∃ r : ℕ, InPass file earlier.length r ∧
      s.lineNumber = (r + 1 : ℕ) ∧ Reads file r s ∧ s.output = shown file earlier
  | .reset => InPass file decided.length (lines newline file).length ∧ s.output = shown file decided
  | .rewind => InPass file decided.length (lines newline file).length ∧ s.lineNumber = 0 ∧
      s.output = shown file decided
  | .ended => ∃ earlier, (decided = earlier ∨ decided = earlier ++ [true]) ∧ s.output = shown file earlier

theorem Shows.output (shows' : Shows file decided s) : s.output = shown file decided ∨
    (s.stmt = .printf ∨ s.stmt = .ended) ∧ ∃ earlier, decided = earlier ++ [true] ∧ s.output = shown file earlier := by
  unfold Shows at shows'
  split at shows'
  · obtain ⟨_, _, _, _, output⟩ := shows'
    exact Or.inl output
  · obtain ⟨_, _, _, _, output⟩ := shows'
    exact Or.inl output
  · obtain ⟨_, _, _, _, output⟩ := shows'
    exact Or.inl output
  · rename_i here
    obtain ⟨earlier, last, _, _, _, _, output⟩ := shows'
    exact Or.inr ⟨Or.inl here, earlier, last, output⟩
  · exact Or.inl shows'.2
  · exact Or.inl shows'.2.2
  · rename_i here
    obtain ⟨earlier, rfl | last, output⟩ := shows'
    · exact Or.inl output
    · exact Or.inr ⟨Or.inr here, earlier, last, output⟩

theorem Shows.endParent (shows' : Shows file decided s) : Shows file decided { s with stmt := .ended } := by
  rcases shows'.output with output | ⟨_, earlier, last, output⟩
  · exact ⟨decided, Or.inl rfl, output⟩
  · exact ⟨earlier, Or.inr last, output⟩

/-- A statement of the parent keeps its place in the pass, and a test decides on the line in the array. -/
theorem Moved.shows (moved : Moved file s s') (text : 0 ∉ file) (short : ∀ line ∈ lines newline file, line.length ≤ 99)
    (few : (lines newline file).length < 2 ^ 31) (shows' : Shows file decided s) :
    Shows file (decided ++ (decision (s, .goes)).toList) s' := by
  cases moved with
  | ends here result =>
    simp only [Shows, here] at shows'
    obtain ⟨r, inPass, _, rest, output⟩ := shows'
    rw [fgets_none result] at rest
    have last : (lines newline file).length ≤ r := List.drop_eq_nil_iff.mp rest.symm
    have all : r = (lines newline file).length := le_antisymm inPass.least last
    simp only [decision, here, reduceCtorEq, if_false, Option.toList_none, List.append_nil]
    exact ⟨all ▸ inPass, output⟩
  | read here result =>
    simp only [Shows, here] at shows'
    obtain ⟨r, inPass, number, rest, output⟩ := shows'
    have inside {line : List UInt8} (member : line ∈ lines newline s.unread) : line ∈ lines newline file :=
      List.mem_of_mem_drop (rest ▸ member)
    have split := fgets_lines (fun line member => short line (inside member)) result
    have member : _ ∈ lines newline file := inside (split ▸ List.mem_cons_self ..)
    have plain := string_eq fun zero => text (mem_of_mem_lines member zero)
    simp only [decision, here, reduceCtorEq, if_false, Option.toList_none, List.append_nil]
    refine ⟨r, inPass, number, ?_, output⟩
    rw [Reads, ← rest, split, string_store, plain]
  | increment here =>
    simp only [Shows, here] at shows'
    obtain ⟨r, inPass, number, reads, output⟩ := shows'
    have fits : r + 1 < 2 ^ 31 := lt_of_le_of_lt reads.lt few
    simp only [decision, here, reduceCtorEq, if_false, Option.toList_none, List.append_nil]
    exact ⟨r, inPass, number ▸ int32_succ fits, reads, output⟩
  | disabled here off =>
    simp only [Shows, here] at shows'
    obtain ⟨r, inPass, number, reads, output⟩ := shows'
    have found : decide (s.print ≠ 0) = false := by simp [off]
    simp only [decision, here, if_true, found, Option.toList_some]
    refine ⟨r + 1, ?_, number, reads.rest, ?_⟩
    · rw [List.length_append, List.length_singleton]
      exact reads.passed inPass
    · rw [shown_append, if_neg Bool.false_ne_true, List.append_nil]
      exact output
  | enabled here on =>
    simp only [Shows, here] at shows'
    simp only [decision, here, if_true, decide_eq_true on, Option.toList_some]
    exact ⟨decided, rfl, shows'⟩
  | printf here =>
    simp only [Shows, here] at shows'
    obtain ⟨earlier, rfl, r, inPass, number, reads, output⟩ := shows'
    simp only [decision, here, reduceCtorEq, if_false, Option.toList_none, List.append_nil]
    refine ⟨r + 1, ?_, number, reads.rest, ?_⟩
    · rw [List.length_append, List.length_singleton]
      exact reads.passed inPass
    · rw [shown_append, if_pos rfl, reads.entry_eq inPass, ← number, ← output]
      rfl
  | reset here =>
    simp only [Shows, here] at shows'
    simp only [decision, here, reduceCtorEq, if_false, Option.toList_none, List.append_nil]
    exact ⟨shows'.1, rfl, shows'.2⟩
  | rewind here =>
    simp only [Shows, here] at shows'
    obtain ⟨inPass, number, output⟩ := shows'
    simp only [decision, here, reduceCtorEq, if_false, Option.toList_none, List.append_nil]
    exact ⟨0, inPass.again, number, rfl, output⟩

theorem Launch.shows (launch : Launch file s) : Shows file [] s := by
  simp only [Shows, launch.stmt]
  exact ⟨0, ⟨Nat.zero_le _, 0, by simp⟩, launch.lineNumber, by rw [launch.unread, List.drop_zero], launch.output⟩

/-- However the child switches the printing on and off, the parent has printed those lines for which
it has found it on, in their order and each with its own number in its pass, or lacks only the
line of its last test. -/
theorem shown_of_run (text : 0 ∉ file) (short : ∀ line ∈ lines newline file, line.length ≤ 99)
    (few : (lines newline file).length < 2 ^ 31) (run : (printer file).Run path s) :
    s.output = shown file (decisions path) ∨ (s.stmt = .printf ∨ s.stmt = .ended) ∧
      ∃ earlier, decisions path = earlier ++ [true] ∧ s.output = shown file earlier := by
  suffices all : Shows file (decisions path) s from all.output
  induction run with
  | start launch => exact launch.shows
  | @next path s s' event earlier moved ih =>
    rw [decisions_cons]
    cases event with
    | goes => exact (moved_of_step moved).shows text short few ih
    | altern =>
      rw [decision, Option.toList_none, List.append_nil]
      simp only [next] at moved
      split at moved
      · cases moved
      · cases Option.some.inj moved
        exact ih
    | endParent =>
      rw [decision, Option.toList_none, List.append_nil]
      simp only [next] at moved
      split at moved
      · cases moved
      · cases Option.some.inj moved
        exact ih.endParent

/-- The child turns the printing off for the second line, and on again before the next pass. -/
def skipSecond : List Event :=
  List.replicate 4 .goes ++ .altern :: List.replicate 6 .goes ++ .altern :: List.replicate 4 .goes

theorem shown_of_run_skipSecond : ∃ path s, (printer twoLines).Run path s ∧ s.stmt = .fgets ∧
    s.output = [49, space, 104, 105, newline, 49, space, 104, 105, newline] ∧
    s.output = shown twoLines (decisions path) := by
  have computed : ((printer twoLines).run skipSecond (launch twoLines)).map (fun s => (s.stmt, s.output)) =
      some (.fgets, [49, space, 104, 105, newline, 49, space, 104, 105, newline]) := by decide
  obtain ⟨s, reached, state⟩ := Option.map_eq_some_iff.mp computed
  obtain ⟨here, output⟩ := Prod.mk.inj state
  obtain ⟨path, run, _⟩ := System.Run.of_run (.start (launched twoLines)) (by simp) reached
  refine ⟨path, s, run, here, output, ?_⟩
  refine (shown_of_run (by decide) (by decide) (by decide) run).resolve_right fun late => ?_
  rcases late.1 with there | there <;> (rw [here] at there; cases there)

end DeviceProgramming.LinePrinter
