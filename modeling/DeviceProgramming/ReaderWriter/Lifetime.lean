import DeviceProgramming.ReaderWriter.Main
import DeviceProgramming.Machine.Alone

namespace DeviceProgramming.ReaderWriter

variable {readers writers : ℕ}

section
variable {p : Process readers writers} {m : Memory} {thread : Tid readers writers → Activity Lock Empty Pc}
  {t : Tid readers writers}

/-- A process with its threads in another state. -/
def Process.put (p : Process readers writers) (threads : State readers writers) : Process readers writers :=
  { p with threads := threads }

theorem reach_thread {threads threads' : State readers writers} (reach : (process readers writers).Reach (p.put threads))
    (created : p.created t = true) (runs : p.at' ≠ .returned)
    (step : (program readers writers).step threads t () = some threads') :
    (process readers writers).Reach (p.put threads') := by
  refine reach.next (a := .thread t) trivial ?_
  change (if p.created t = true ∧ p.at' ≠ .returned then
    ((program readers writers).step threads t ()).map fun threads => p.put threads else none) = _
  rw [if_pos ⟨created, runs⟩, step]
  rfl

/-- A writer that finds the library free runs to its end. -/
theorem reach_writer {i : Fin writers} (created : p.created (.writer i) = true) (runs : p.at' ≠ .returned)
    (reach : (process readers writers).Reach
      (p.put (Program.alone m (fun _ => none) thread (.writer i) (.writer .lock)))) :
    (process readers writers).Reach (p.put (Program.alone { m with library := m.library + 1 } (fun _ => none) thread
      (.writer i) (.writer .done))) := by
  have locked := reach_thread reach created runs (Program.step_alone_acquire rfl rfl rfl)
  have updated := reach_thread locked created runs (Program.step_alone_exec rfl rfl rfl)
  have unlocked := reach_thread updated created runs (Program.step_alone_release rfl rfl)
  rw [Function.update_idem, Function.update_eq_self] at unlocked
  exact unlocked

/-- A reader that finds both locks free and nobody inside runs to its end. -/
theorem reach_reader {i : Fin readers} (created : p.created (.reader i) = true) (runs : p.at' ≠ .returned)
    (nobody : m.count = 0)
    (reach : (process readers writers).Reach
      (p.put (Program.alone m (fun _ => none) thread (.reader i) (.reader .lockCount)))) :
    (process readers writers).Reach (p.put (Program.alone { m with printed := m.printed ++ [m.library] }
      (fun _ => none) thread (.reader i) (.reader .done))) := by
  obtain ⟨library, count, printed⟩ := m
  obtain rfl : count = 0 := nobody
  have busy := reach_thread reach created runs (Program.step_alone_acquire rfl rfl rfl)
  have counted := reach_thread busy created runs
    (Program.step_alone_exec rfl rfl (rfl : _ = some ((⟨library, 1, printed⟩ : Memory), Pc.reader .lockLibrary)))
  have locked := reach_thread counted created runs (Program.step_alone_acquire rfl rfl rfl)
  have inside := reach_thread locked created runs (Program.step_alone_release rfl rfl)
  have read := reach_thread inside created runs (Program.step_alone_exec rfl rfl rfl)
  have busy2 := reach_thread read created runs (Program.step_alone_acquire rfl rfl rfl)
  have lowered := reach_thread busy2 created runs
    (Program.step_alone_exec rfl rfl (rfl : _ = some ((⟨library, 0, printed ++ [library]⟩ : Memory), Pc.reader .unlockLibrary)))
  have unlocked := reach_thread lowered created runs (Program.step_alone_release rfl rfl)
  have left := reach_thread unlocked created runs (Program.step_alone_release rfl rfl)
  convert left using 3
  funext lock
  cases lock <;> rfl

/-- Where a thread is at its end. -/
def Tid.exit : Tid readers writers → Pc
  | reader _ => .reader .done
  | writer _ => .writer .done

/-- The locks are free, some threads have run to their end and the others have
not yet begun. -/
def idle (m : Memory) (done : Tid readers writers → Bool) : State readers writers :=
  ⟨m, fun _ => none, fun u => .run (if done u then u.exit else u.entry)⟩

theorem idle_eq_alone {done : Tid readers writers → Bool} (fresh : done t = false) :
    idle m done = Program.alone m (fun _ => none) (fun u => .run (if done u then u.exit else u.entry)) t t.entry := by
  have same : Function.update (fun u => Activity.run (if done u then u.exit else u.entry)) t (.run t.entry) =
      (fun u => .run (if done u then u.exit else u.entry) : Tid readers writers → Activity Lock Empty Pc) :=
    Function.update_eq_self_iff.mpr (by rw [fresh]; rfl)
  rw [Program.alone, same, idle]

theorem alone_eq_idle {done : Tid readers writers → Bool} :
    Program.alone m (fun _ => none) (fun u => .run (if done u then u.exit else u.entry)) t t.exit =
      idle m (Function.update done t true) := by
  have same : Function.update (fun u => Activity.run (if done u then u.exit else u.entry)) t (.run t.exit) =
      (fun u => .run (if Function.update done t true u then u.exit else u.entry) :
        Tid readers writers → Activity Lock Empty Pc) := by
    funext u
    by_cases own : u = t
    · subst own
      rw [Function.update_self, Function.update_self, if_pos rfl]
    · rw [Function.update_of_ne own, Function.update_of_ne own]
  rw [Program.alone, same, idle]

/-- A thread that has not begun runs to its end. -/
theorem reach_idle {done : Tid readers writers → Bool} (created : p.created t = true) (runs : p.at' ≠ .returned)
    (nobody : m.count = 0) (fresh : done t = false)
    (reach : (process readers writers).Reach (p.put (idle m done))) :
    ∃ m', m'.count = 0 ∧ (process readers writers).Reach (p.put (idle m' (Function.update done t true))) := by
  rw [idle_eq_alone fresh] at reach
  cases t with
  | reader i =>
    refine ⟨{ m with printed := m.printed ++ [m.library] }, nobody, ?_⟩
    rw [← alone_eq_idle]
    exact reach_reader created runs nobody reach
  | writer i =>
    refine ⟨{ m with library := m.library + 1 }, nobody, ?_⟩
    rw [← alone_eq_idle]
    exact reach_writer created runs reach

/-- The threads of a list run to their ends one after the other. -/
theorem reach_all (created : ∀ t, p.created t = true) (runs : p.at' ≠ .returned) (nobody : m.count = 0)
    (reach : (process readers writers).Reach (p.put (idle m fun _ => false))) (threads : List (Tid readers writers)) :
    ∃ m', m'.count = 0 ∧ (process readers writers).Reach (p.put (idle m' fun u => decide (u ∈ threads))) := by
  induction threads with
  | nil => exact ⟨m, nobody, by simpa using reach⟩
  | cons t threads ih =>
    obtain ⟨m', nobody', reach'⟩ := ih
    by_cases again : t ∈ threads
    · refine ⟨m', nobody', ?_⟩
      have same (u : Tid readers writers) : u ∈ t :: threads ↔ u ∈ threads := by
        rw [List.mem_cons]
        exact ⟨fun member => member.elim (fun here => here ▸ again) id, Or.inr⟩
      simpa only [same] using reach'
    · obtain ⟨m2, nobody2, reach2⟩ := reach_idle (created t) runs nobody' (decide_eq_false again) reach'
      refine ⟨m2, nobody2, ?_⟩
      have same : Function.update (fun u => decide (u ∈ threads)) t true =
          fun u => decide (u ∈ t :: threads) := by
        funext u
        by_cases own : u = t
        · subst own
          rw [Function.update_self]
          simp
        · rw [Function.update_of_ne own]
          simp [own]
      rwa [same] at reach2

end

/-- A loop of `main` that is never blocked comes to its end. -/
theorem loop_ends (threads : State readers writers) (stage : ℕ → MainAt) (n : ℕ) (after : MainAt)
    (body : ∀ p i, (process readers writers).Reach p → p.threads = threads → p.at' = stage i → i < n →
      ∃ p', mainStep true p = some p' ∧ p'.threads = threads ∧ p'.at' = stage (i + 1))
    (leave : ∀ p, p.threads = threads → p.at' = stage n →
      ∃ p', mainStep true p = some p' ∧ p'.threads = threads ∧ p'.at' = after)
    {p : Process readers writers} {i : ℕ} (le : i ≤ n) (reach : (process readers writers).Reach p)
    (same : p.threads = threads) (here : p.at' = stage i) :
    ∃ p', (process readers writers).Reach p' ∧ p'.threads = threads ∧ p'.at' = after := by
  induction left : n - i generalizing p i with
  | zero =>
    obtain rfl : i = n := by omega
    obtain ⟨p', step, same', there⟩ := leave p same here
    exact ⟨p', reach.next (a := .main true) trivial step, same', there⟩
  | succ left ih =>
    obtain ⟨p', step, same', there⟩ := body p i reach same here (by omega)
    exact ih (by omega) (reach.next (a := .main true) trivial step) same' there (by omega)

/-- `main` creates all its threads, of which none need have begun. -/
theorem reach_created : ∃ p, (process readers writers).Reach p ∧ p.threads = launch readers writers ∧
    p.at' = .joinReader 0 := by
  have first := loop_ends (launch readers writers) .createReader readers (.createWriter 0)
    (p := begin readers writers)
    (fun p i _ same here inside => by
      simp only [mainStep, here, inside, dif_pos, Option.some.injEq, exists_eq_left', same, and_self])
    (fun p same here => by
      simp only [mainStep, here, lt_irrefl, dif_neg, not_false_eq_true, Option.some.injEq, exists_eq_left', same,
        and_self])
    (Nat.zero_le readers) (.start rfl) rfl rfl
  obtain ⟨p, reach, same, here⟩ := first
  exact loop_ends (launch readers writers) .createWriter writers (.joinReader 0)
    (fun p i _ same here inside => by
      simp only [mainStep, here, inside, dif_pos, Option.some.injEq, exists_eq_left', same, and_self])
    (fun p same here => by
      simp only [mainStep, here, lt_irrefl, dif_neg, not_false_eq_true, Option.some.injEq, exists_eq_left', same,
        and_self])
    (Nat.zero_le writers) reach same here

theorem finished_exit (t : Tid readers writers) : t.exit.finished = true := by cases t <;> rfl

/-- `main` gets through its join loops although the first reader has not begun, when
`pthread_join` comes back from the handles that were never stored. -/
theorem reach_freed (some : 1 ≤ writers) {p : Process readers writers} {m : Memory}
    {first : Tid readers writers} {zero : 0 < readers} (isFirst : first = .reader ⟨0, zero⟩)
    (reach : (process readers writers).Reach p) (same : p.threads = idle m fun u => decide (u ≠ first))
    (here : p.at' = .joinReader 0) :
    ∃ p', (process readers writers).Reach p' ∧ p'.threads = idle m (fun u => decide (u ≠ first)) ∧
      p'.at' = .return' ∧ p'.countFreed = true := by
  obtain ⟨p1, reach1, same1, here1⟩ := loop_ends _ .joinReader readers (.joinWriter 0)
    (fun p i reach same here inside => by
      have stored := (accounted_of_reach reach).1.threads_reader i
      rw [here] at stored
      obtain ⟨t, found⟩ := Option.ne_none_iff_exists'.mp (handle_ne_none writers inside)
      have other : t ≠ first := by
        rintro rfl
        rcases index_of_handle found with ⟨j, there, _⟩ | ⟨j, there, at', beyond⟩
        · cases isFirst.symm.trans there
        · cases isFirst.symm.trans there
          dsimp only at at'
          omega
      have ended : (p.threads.pc t).finished = true := by
        rw [same]
        simp only [idle, Threads.pc, other, ne_eq, not_false_eq_true, decide_true, if_true, Activity.pc_run]
        exact finished_exit t
      have joins : p.threads_reader i = .some t := stored.trans found
      refine ⟨{ p with joined := p.joined ++ [.some t], at' := .joinReader (i + 1) }, ?_, same, rfl⟩
      simp only [mainStep, here, inside, if_true, joins, Process.join, Option.elim_some, ended])
    (fun p same here => by
      simp only [mainStep, here, lt_irrefl, if_false, Option.some.injEq, exists_eq_left', same, and_self])
    (Nat.zero_le readers) reach same here
  obtain ⟨p2, reach2, same2, here2⟩ := loop_ends _ .joinWriter writers .freeLibrary
    (fun p i reach same here inside => by
      have never := (accounted_of_reach reach).1.threads_writer i
      simp only [mainStep, here, inside, if_true, never, Process.join, Option.elim_none, Option.some.injEq,
        exists_eq_left', same, and_self])
    (fun p same here => by
      simp only [mainStep, here, lt_irrefl, if_false, Option.some.injEq, exists_eq_left', same, and_self])
    (Nat.zero_le writers) reach1 same1 here1
  let p3 : Process readers writers := { p2 with libraryFreed := true, at' := .freeCount }
  have free : mainStep true p2 = .some p3 := by simp only [mainStep, here2, p3]
  have free2 : mainStep true p3 = .some { p3 with countFreed := true, at' := .return' } := rfl
  have reach3 : (process readers writers).Reach p3 := reach2.next (a := .main true) trivial free
  exact ⟨_, reach3.next (a := .main true) trivial free2, same2, rfl, rfl⟩

/-- With one writer or more, and at least as many readers, the first reader can
come to a freed counter. -/
theorem exists_use_after_free (some : 1 ≤ writers) (le : writers ≤ readers) :
    ∃ p t p', (process readers writers).Reach p ∧ (process readers writers).next p (.thread t) = .some p' ∧
      p.countFreed = true ∧ (p.threads.pc t).usesCount = true := by
  have zero : 0 < readers := by omega
  obtain ⟨p, reach, same, here⟩ := @reach_created readers writers
  have created (t : Tid readers writers) : p.created t = true := by
    rw [(accounted_of_reach reach).1.created t, here]
    cases t with
    | reader i => exact decide_eq_true i.isLt
    | writer i => exact decide_eq_true i.isLt
  have runs : p.at' ≠ .returned := by rw [here]; simp
  have asleep : (process readers writers).Reach (p.put (idle ⟨0, 0, []⟩ fun _ => false)) := by
    have put : p = p.put (idle ⟨0, 0, []⟩ fun _ => false) := by
      rw [Process.put, ← show p.threads = idle ⟨0, 0, []⟩ (fun _ => false) from same]
    rwa [← put]
  obtain ⟨m, _, ran⟩ := reach_all created runs rfl asleep
    (Finset.univ.filter fun u : Tid readers writers => u ≠ .reader ⟨0, zero⟩).toList
  simp only [Finset.mem_toList, Finset.mem_filter, Finset.mem_univ, true_and] at ran
  obtain ⟨p', reach', same', here', freed⟩ := reach_freed some rfl ran rfl here
  have created' : p'.created (.reader ⟨0, zero⟩) = true := by
    rw [(accounted_of_reach reach').1.created, here']
    exact decide_eq_true zero
  have waits := @idle_eq_alone readers writers m (.reader ⟨0, zero⟩) (fun u => decide (u ≠ .reader ⟨0, zero⟩)) (by simp)
  obtain ⟨threads, takes⟩ : ∃ threads,
      (program readers writers).step p'.threads (.reader ⟨0, zero⟩) () = .some threads := by
    rw [same', waits]
    exact ⟨_, Program.step_alone_acquire rfl rfl rfl⟩
  refine ⟨p', .reader ⟨0, zero⟩, p'.put threads, reach', ?_, freed, ?_⟩
  · change (if p'.created _ = true ∧ p'.at' ≠ .returned then
      ((program readers writers).step p'.threads _ ()).map fun threads => p'.put threads else none) = _
    rw [if_pos ⟨created', by rw [here']; simp⟩, takes]
    rfl
  · rw [same']
    simp [idle, Threads.pc, Tid.entry, Pc.usesCount]

/-- `main` never outlives its workers. Every run that gets past the join loops
has joined a handle that was never stored and has not joined the first readers;
up to there all is well until the first handle of `threads_writer`; and a run
exists in which a reader uses the counter after it has been freed. -/
theorem main_never_outlives (readers writers : ℕ) (some : 1 ≤ writers) (le : writers ≤ readers) :
    (∀ p, (process readers writers).Reach p → p.at'.afterJoins = true → ¬ Outlives p ∧ none ∈ p.joined ∧
      ∀ i : Fin readers, (i : ℕ) < writers → p.created (.reader i) = true ∧ .some (.reader i) ∉ p.joined) ∧
    (∀ p, (process readers writers).Reach p → (Outlives p ↔ p.at'.beforeWriters = true)) ∧
    ∃ p t p', (process readers writers).Reach p ∧ (process readers writers).next p (.thread t) = .some p' ∧
      p.countFreed = true ∧ (p.threads.pc t).usesCount = true := by
  refine ⟨fun p reach after => ⟨fun outlives => ?_, unjoined_of_after some reach after⟩,
    fun p reach => outlives_iff_before some reach, exists_use_after_free some le⟩
  exact outlives.stored (unjoined_of_after some reach after).1

/-- One reader and one writer. -/
theorem main_never_outlives_one :
    (∀ p, (process 1 1).Reach p → p.at'.afterJoins = true → ¬ Outlives p ∧ none ∈ p.joined ∧
      ∀ i : Fin 1, (i : ℕ) < 1 → p.created (.reader i) = true ∧ .some (.reader i) ∉ p.joined) ∧
    (∀ p, (process 1 1).Reach p → (Outlives p ↔ p.at'.beforeWriters = true)) ∧
    ∃ p t p', (process 1 1).Reach p ∧ (process 1 1).next p (.thread t) = .some p' ∧
      p.countFreed = true ∧ (p.threads.pc t).usesCount = true :=
  main_never_outlives 1 1 le_rfl le_rfl

set_option maxRecDepth 10000 in
/-- The writer's handle lies in `threads_reader[0]`, so `main` joins the writer
and a handle that was never stored. -/
theorem main_joins_unstored :
    ¬ ∀ (readers writers : ℕ), 1 ≤ writers → writers ≤ readers → ∀ p, (process readers writers).Reach p → Outlives p := by
  intro always
  have computed : ((process 1 1).run
      [.main true, .main true, .main true, .main true, .thread (.writer 0), .thread (.writer 0), .thread (.writer 0),
        .main true, .main true, .main true]
      (begin 1 1)).map (fun p => p.joined) = some [some (.writer 0), none] := by decide
  obtain ⟨p, reached, joined⟩ := Option.map_eq_some_iff.mp computed
  have outlives := always 1 1 le_rfl le_rfl p (System.ReachUnder.of_run (.start rfl) reached)
  refine outlives.stored ?_
  rw [joined]
  simp

end DeviceProgramming.ReaderWriter
