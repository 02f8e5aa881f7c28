import DeviceProgramming.VectorMatrix.Reduction

namespace DeviceProgramming.VectorMatrix

section
variable {F : Type*} [Zero F] [Add F] [Mul F] {k : ℕ} {v1 v2 : ℕ → F} {rows : ℕ → ℕ → F} {mat : ℤ → F}
  {s s' : State F k} {t u : Fin k} {next : Pc F} {path : List (State F k × (Fin k × Unit))}

omit [Zero F] [Add F] [Mul F] in
theorem reducers_found (path : List (State F k × (Fin k × Unit))) (at' : s.pc t = .test) (zero : s.mem.cnt = 0) :
    reducers ((s, t, ()) :: path) = t :: reducers path := by
  simp only [reducers, at', zero, if_true]

omit [Zero F] [Add F] [Mul F] in
theorem reducers_other (path : List (State F k × (Fin k × Unit))) (not : ¬ (s.pc t = .test ∧ s.mem.cnt = 0)) :
    reducers ((s, t, ()) :: path) = reducers path := by
  cases at' : s.pc t with
  | test =>
    have more : s.mem.cnt ≠ 0 := fun zero => not ⟨at', zero⟩
    simp only [reducers, at', more, if_false]
  | clear | load | store | lock | decrement | reduce | print | unlock | done => simp only [reducers, at']

/-- The reduction begins with the thread that finds the counter at zero. -/
theorem stage_of_before
    (move : Move v1 v2 mat t s.mem s.owner (s.pc t) s'.mem s'.owner next)
    (moved : s'.pc = Function.update s.pc t next) (who : reducers path = []) (printed : s.mem.printed = [])
    (tests : s.mem.cnt = 0 → ∃ u, s.pc u = .test) (none : ∀ u, (s.pc u).reducing = false) :
    Stage (running (resultTerm v1 v2 rows k) k) (reducers ((s, t, ()) :: path)) s' := by
  have own : s'.pc t = next := by rw [moved, Function.update_self]
  have other (u : Fin k) (elsewhere : u ≠ t) : s'.pc u = s.pc u := by rw [moved, Function.update_of_ne elsewhere]
  have idle (quiet : next.reducing = false) (u : Fin k) : (s'.pc u).reducing = false := by
    by_cases here : u = t
    · rw [here, own, quiet]
    · rw [other u here, none u]
  have tester (away : s.pc t ≠ .test) (zero : s.mem.cnt = 0) : ∃ u, s'.pc u = .test := by
    obtain ⟨u, at'⟩ := tests zero
    exact ⟨u, by rw [other u fun same => away (same ▸ at'), at']⟩
  have mine := none t
  have same (not : ¬ (s.pc t = .test ∧ s.mem.cnt = 0)) := (reducers_other path not).trans who
  have found (at' : s.pc t = .test) (zero : s.mem.cnt = 0) := reducers_found path at' zero
  generalize at' : s.pc t = here at move mine same found tester
  generalize written : s'.mem = mem at move
  generalize s'.owner = owner at move
  cases move with
  | clear | store | load | loaded | lock =>
    refine .before (same (by simp)) (by rw [written]; exact printed) ?_ (idle rfl)
    rw [written]
    exact tester (by simp)
  | unlock =>
    refine .before (same (by simp)) (by rw [written]; exact printed) ?_ (idle rfl)
    rw [written]
    exact tester (by simp)
  | decrement => exact .before (same (by simp)) (by rw [written]; exact printed) (fun _ => ⟨t, own⟩) (idle rfl)
  | notLast more =>
    refine .before (same (by simp [more])) (by rw [written]; exact printed) ?_ (idle rfl)
    intro zero
    rw [written] at zero
    exact absurd zero more
  | last zero =>
    have one := (found rfl zero).trans (by rw [who])
    refine .during t one (by rw [written]; exact printed) (by rw [written]; exact zero) ?_
    rw [own]
    rfl
  | reduce | reduced | print => cases mine

/-- While one thread reduces, the others have finished. -/
theorem Inv.stage_of_during (inv : Inv v1 v2 rows s)
    (move : Move v1 v2 mat t s.mem s.owner (s.pc t) s'.mem s'.owner next)
    (moved : s'.pc = Function.update s.pc t next) (who : reducers path = [u]) (printed : s.mem.printed = [])
    (zero : s.mem.cnt = 0) (reducing : (s.pc u).reducing = true) :
    Stage (running (resultTerm v1 v2 rows k) k) (reducers ((s, t, ()) :: path)) s' := by
  have own : s'.pc t = next := by rw [moved, Function.update_self]
  have alone (w : Fin k) (holds : (s.pc w).holds = true) : w = u := inv.holder (Pc.holds_of_reducing reducing) holds
  have done := inv.not_counted zero t
  have mine := alone t
  have same (not : ¬ (s.pc t = .test ∧ s.mem.cnt = 0)) := (reducers_other path not).trans who
  have reduced := inv.reduced t
  have reduces : t = u → (s.pc t).reducing = true := by rintro rfl; exact reducing
  have others (w : Fin k) (elsewhere : w ≠ t) (only : t = u) : s'.pc w ≠ .test ∧ (s'.pc w).reducing = false := by
    have free : (s.pc w).holds = false := Bool.eq_false_iff.mpr fun holds => elsewhere ((alone w holds).trans only.symm)
    rw [moved, Function.update_of_ne elsewhere]
    refine ⟨fun test => ?_, Bool.eq_false_iff.mpr fun active => ?_⟩
    · rw [test] at free
      cases free
    · rw [Pc.holds_of_reducing active] at free
      cases free
  generalize s.pc t = here at move done mine same reduced reduces
  generalize written : s'.mem = mem at move
  generalize s'.owner = owner at move
  cases move with
  | clear | load | loaded | store | lock | decrement => cases done
  | last | notLast | unlock => cases reduces (mine rfl)
  | reduce | reduced =>
    obtain rfl := mine rfl
    refine .during t (same (by simp)) (by rw [written]; exact printed) (by rw [written]; exact zero) ?_
    rw [own]
    rfl
  | print =>
    obtain rfl := mine rfl
    refine .after t (same (by simp)) ?_ (by rw [written]; exact zero) fun w => ?_
    · rw [written, ← reduced.2, printed]
      rfl
    · by_cases here : w = t
      · rw [here, own]
        exact ⟨by simp, rfl⟩
      · exact others w here rfl

/-- Afterwards the threads only have to leave. -/
theorem Inv.stage_of_after {result : F} (inv : Inv v1 v2 rows s)
    (move : Move v1 v2 mat t s.mem s.owner (s.pc t) s'.mem s'.owner next)
    (moved : s'.pc = Function.update s.pc t next) (who : reducers path = [u]) (printed : s.mem.printed = [result])
    (zero : s.mem.cnt = 0) (idle : ∀ w, s.pc w ≠ .test ∧ (s.pc w).reducing = false) :
    Stage result (reducers ((s, t, ()) :: path)) s' := by
  have own : s'.pc t = next := by rw [moved, Function.update_self]
  have done := inv.not_counted zero t
  have mine := idle t
  have same (not : ¬ (s.pc t = .test ∧ s.mem.cnt = 0)) := (reducers_other path not).trans who
  generalize s.pc t = here at move done mine same
  generalize written : s'.mem = mem at move
  generalize s'.owner = owner at move
  cases move with
  | clear | load | loaded | store | lock | decrement => cases done
  | last | notLast => exact absurd rfl mine.1
  | reduce | reduced | print => cases mine.2
  | unlock =>
    refine .after u (same (by simp)) (by rw [written]; exact printed) (by rw [written]; exact zero) fun w => ?_
    by_cases here : w = t
    · rw [here, own]
      exact ⟨by simp, rfl⟩
    · rw [moved, Function.update_of_ne here]
      exact idle w

theorem stage_of_run (rowMajor : RowMajor mat rows k) (fits : (k : ℤ) * k ≤ 2 ^ 31 - 1) (some : 1 ≤ k)
    (run : (threads v1 v2 mat k).Run path s) : Stage (running (resultTerm v1 v2 rows k) k) (reducers path) s := by
  induction run with
  | @start s opening =>
    have point (t : Fin k) : s.pc t = .clear := by
      rw [Threads.pc, opening.thread]
      rfl
    refine .before rfl opening.printed (fun zero => ?_) fun t => ?_
    · rw [opening.cnt] at zero
      omega
    · rw [point t]
      rfl
  | @next path s s' label earlier step ih =>
    obtain ⟨t, _⟩ := label
    have reach : (threads v1 v2 mat k).Reach s := earlier.reachUnder fun _ _ => trivial
    have inv : Inv v1 v2 rows s := inv_of_reach rowMajor fits reach
    obtain ⟨next, move, moved⟩ := move_of_step (running_of_reach reach) (Program.step_of_next step).2
    cases ih with
    | before who printed tests none => exact stage_of_before move moved who printed tests none
    | during u who printed zero reducing => exact inv.stage_of_during move moved who printed zero reducing
    | after u who printed zero idle => exact inv.stage_of_after move moved who printed zero idle

omit [Zero F] [Add F] [Mul F] in
/-- From the beginning of the reduction on the rows are done. -/
theorem Stage.cnt_eq {result : F} {who : List (Fin k)} (stage : Stage result who s) (begun : who ≠ []) :
    s.mem.cnt = 0 := by
  cases stage with
  | before none => exact absurd none begun
  | during t one printed zero => exact zero
  | after t one printed zero => exact zero

omit [Zero F] [Add F] [Mul F] in
theorem Stage.length_le {result : F} {who : List (Fin k)} (stage : Stage result who s) : who.length ≤ 1 := by
  cases stage with
  | before none => simp [none]
  | during t one => simp [one]
  | after t one => simp [one]

omit [Zero F] [Add F] [Mul F] in
theorem Stage.printed_eq {result : F} {who : List (Fin k)} (stage : Stage result who s) :
    ∀ r ∈ s.mem.printed, r = result := by
  cases stage with
  | before who printed => simp [printed]
  | during t who printed => simp [printed]
  | after t who printed => simp [printed]

/-- When all threads have finished, one of them has printed the result. -/
theorem Stage.of_done {result : F} {who : List (Fin k)} (stage : Stage result who s)
    (inv : Inv v1 v2 rows s) (done : ∀ t, s.pc t = .done) : who.length = 1 ∧ s.mem.printed = [result] := by
  have zero : s.mem.cnt = 0 := by
    have nobody : countAt Pc.counted s.pc = 0 := countAt_eq_zero.mpr fun t => by rw [done t]; rfl
    rw [inv.counter, nobody]
    rfl
  cases stage with
  | before who printed tests =>
    obtain ⟨t, at'⟩ := tests zero
    cases at'.symm.trans (done t)
  | during t who printed _ reducing =>
    rw [done t] at reducing
    cases reducing
  | after t who printed => exact ⟨by rw [who]; rfl, printed⟩

/-- While a thread has not finished, some thread can go on. -/
theorem Inv.canMove (inv : Inv v1 v2 rows s) (running : ∀ u, s.thread u = .run (s.pc u)) (unfinished : s.pc t ≠ .done) :
    ∃ u s', (program v1 v2 mat k).step s u () = some s' := by
  by_contra blocked
  have stuck (u : Fin k) : (program v1 v2 mat k).step s u () = none :=
    Option.eq_none_iff_forall_ne_some.mpr fun s' moves => blocked ⟨u, s', moves⟩
  have waits (u : Fin k) (more : s.pc u ≠ .done) : s.pc u = .lock ∧ s.owner () ≠ none := by
    rcases Program.stuck_cases (running u) rfl (fun _ => stuck u) with ⟨lock, next, here, taken⟩ | ⟨effect, here, never⟩
    · cases at' : s.pc u <;> rw [at'] at here <;> cases here
      exact ⟨rfl, taken⟩
    · cases at' : s.pc u <;> rw [at'] at here <;> cases here
      case done.refl => exact absurd at' more
      all_goals cases never ()
  obtain ⟨w, owner⟩ := Option.ne_none_iff_exists'.mp (waits t unfinished).2
  have holds := (inv.busy w).mp owner
  have unfinished2 : s.pc w ≠ .done := fun at' => by
    rw [at'] at holds
    cases holds
  rw [(waits w unfinished2).1] at holds
  cases holds

/-- A bound on the steps that a thread has still to take. -/
def Pc.left (k : ℕ) : Pc F → ℕ
  | clear => 3 * k + 8
  | load j => 2 * (k - j) + k + 7
  | store j _ => 2 * (k - j) + k + 6
  | lock => k + 6
  | decrement => k + 5
  | test => k + 4
  | reduce i _ => k - i + 3
  | print _ => 2
  | unlock => 1
  | done => 0

theorem Inv.left_lt (inv : Inv v1 v2 rows s)
    (move : Move v1 v2 mat t s.mem s.owner (s.pc t) s'.mem s'.owner next) : next.left k < (s.pc t).left k := by
  have row := inv.row t
  generalize s.pc t = here at move row
  generalize s'.mem = mem, s'.owner = owner at move
  cases move with
  | store =>
    have more := row.1
    simp only [Pc.left]
    omega
  | clear | load | loaded | lock | decrement | last | notLast | reduce | reduced | print | unlock =>
    simp only [Pc.left]
    omega

theorem length_le_of_run (rowMajor : RowMajor mat rows k) (fits : (k : ℤ) * k ≤ 2 ^ 31 - 1)
    (run : (threads v1 v2 mat k).Run path s) :
    path.length + total (fun _ => Pc.left k) s.pc ≤ k * (3 * k + 8) := by
  induction run with
  | @start s opening =>
    have point (t : Fin k) : s.pc t = .clear := by
      rw [Threads.pc, opening.thread]
      rfl
    have all := total_const s.pc (3 * k + 8)
    have same : total (fun _ => Pc.left k) s.pc = total (fun _ _ => 3 * k + 8) s.pc :=
      total_congr fun t => by rw [point t]; rfl
    rw [Fintype.card_fin] at all
    rw [same, all, List.length_nil, Nat.zero_add]
  | @next path s s' label earlier step ih =>
    obtain ⟨t, _⟩ := label
    have reach : (threads v1 v2 mat k).Reach s := earlier.reachUnder fun _ _ => trivial
    have inv : Inv v1 v2 rows s := inv_of_reach rowMajor fits reach
    obtain ⟨next, move, moved⟩ := move_of_step (running_of_reach reach) (Program.step_of_next step).2
    have less := inv.left_lt move
    have changed := total_update (fun _ => Pc.left k) s.pc t next
    dsimp only at moved less
    rw [moved, List.length_cons]
    omega

/-- The threads compute what the sequential program does: whatever the order of
their steps and the meaning of the operations, one thread reduces, after all
rows are done, and prints the sequential result; the threads always finish. -/
theorem threads_compute_sequential (v1 v2 : ℕ → F) (rows : ℕ → ℕ → F) (mat : ℤ → F) (v : ℕ → F) (k : ℕ)
    (some : 1 ≤ k) (fits : (k : ℤ) * k ≤ 2 ^ 31 - 1) (rowMajor : RowMajor mat rows k)
    {path : List (State F k × (Fin k × Unit))} {s : State F k} (run : (threads v1 v2 mat k).Run path s) :
    (reducers path).length ≤ 1 ∧
    (reducers path ≠ [] → ∀ i < k, s.mem.v i = productLoop rows v2 k 0 v i) ∧
    (∀ r ∈ s.mem.printed, r = main v1 v2 rows k v) ∧
    ((∃ t, s.pc t ≠ .done) → ∃ u s', (threads v1 v2 mat k).next s (u, ()) = .some s') ∧
    path.length ≤ k * (3 * k + 8) ∧
    ((∀ t, s.pc t = .done) → (reducers path).length = 1 ∧ s.mem.printed = [main v1 v2 rows k v]) := by
  have reach : (threads v1 v2 mat k).Reach s := run.reachUnder fun _ _ => trivial
  have inv : Inv v1 v2 rows s := inv_of_reach rowMajor fits reach
  have stage := stage_of_run rowMajor fits some run
  have length := length_le_of_run rowMajor fits run
  rw [main_eq]
  refine ⟨stage.length_le, fun begun i inside => ?_, stage.printed_eq, fun ⟨t, unfinished⟩ => ?_, by omega,
    stage.of_done inv⟩
  · rw [inv.rows_done (stage.cnt_eq begun) inside, productLoop_eq (Nat.zero_le i) inside]
  · exact inv.canMove (running_of_reach reach) unfinished

set_option maxRecDepth 10000 in
/-- Two threads one after the other. -/
theorem threads_compute_sequential_two : ∃ path, ∃ s : State ℤ 2,
    (threads (fun i => (i : ℤ) + 1) (fun j => j + 3) (fun x => x + 5) 2).Run path s ∧
      s.mem.printed = [main (fun i => (i : ℤ) + 1) (fun j => j + 3) (fun i j => 2 * i + j + 5) 2 fun _ => 7] := by
  let start : State ℤ 2 := ⟨⟨fun _ => 7, 2, []⟩, fun _ => none, fun _ => .run .clear⟩
  have opening : Opening 2 start := ⟨rfl, rfl, rfl, rfl⟩
  have computed : ((threads (fun i => (i : ℤ) + 1) (fun j => j + 3) (fun x => x + 5) 2).run
      (schedule [(0, (), 10), (1, (), 14)]) start).map
      (fun s => decide (∀ t, (s.pc t).left 2 = 0)) = some true := by decide
  obtain ⟨s, reached, finished⟩ := Option.map_eq_some_iff.mp computed
  obtain ⟨path, run, _⟩ := System.Run.of_run (.start opening) (by simp) reached
  obtain ⟨_, _, _, _, _, ended⟩ := threads_compute_sequential (fun i => (i : ℤ) + 1) (fun j => j + 3)
    (fun i j => 2 * i + j + 5) (fun x => x + 5) (fun _ => 7) 2 (by decide) (by decide) (fun _ _ _ _ => rfl) run
  refine ⟨path, s, run, (ended fun t => ?_).2⟩
  have ends := of_decide_eq_true finished t
  cases at' : s.pc t <;> rw [at'] at ends <;> first | rfl | cases ends

end

end DeviceProgramming.VectorMatrix
