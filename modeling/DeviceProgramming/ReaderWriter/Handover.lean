import DeviceProgramming.ReaderWriter.Exclusion

namespace DeviceProgramming.ReaderWriter

variable {readers writers : ℕ}

/-- Whether a first reader has taken the library's lock and the matching last
reader has not yet released it, read off a run, last step first. -/
def readersHave : List (State readers writers × (Tid readers writers × Unit)) → Bool
  | [] => false
  | (s, t, _) :: path => match s.pc t with
    | .reader .lockLibrary => true
    | .reader .unlockLibrary => false
    | _ => readersHave path

section
variable {s s' : State readers writers} {t : Tid readers writers}

/-- The readers' hold on the library begins with the first reader's lock and
ends with the last reader's unlock. -/
theorem readersHave_iff {path : List (State readers writers × (Tid readers writers × Unit))}
    (run : (library readers writers).Run path s) :
    readersHave path = true ↔ ∃ t, (s.pc t).inside = true := by
  induction run with
  | start begun =>
    cases begun
    exact ⟨fun none => (Bool.false_ne_true none).elim, fun ⟨t, inside⟩ => by cases t <;> cases inside⟩
  | @next path s s' label earlier step ih =>
    obtain ⟨t, _⟩ := label
    have reach : (library readers writers).Reach s := earlier.reachUnder fun _ _ => trivial
    have inv := inv_of_reach reach
    have after := (inv_of_reach (reach.next trivial step)).shared.reader
    have before := inv.shared.reader
    obtain ⟨next, move, moved⟩ := move_of_step (running_of_reach reach) (Program.step_of_next step).2
    have role := inv.role t
    change (match s.pc t with
      | .reader .lockLibrary => true
      | .reader .unlockLibrary => false
      | _ => readersHave path) = true ↔ _
    generalize at' : s.pc t = here at move role
    generalize s'.mem = mem at move
    generalize s'.owner = owner at move after
    rw [← after]
    cases move with
    | first | join | read | last | leave | update => rw [ih, ← before]
    | lockCount | enter | lockCount2 | unlockCount2 =>
      rw [ih, ← before]
      simp
    | takeLibrary => simp [← role, Pc.isReader]
    | giveLibrary => simp
    | lock free =>
      rw [ih, ← before]
      simp [free, ← role, Pc.isReader]
    | unlock =>
      have holder : s.owner .library = some t := (inv.shared.writer t role.symm).mpr (by rw [at']; rfl)
      rw [ih, ← before]
      simp [holder, ← role, Pc.isReader]

/-- A thread that holds a lock has not finished. -/
theorem Pc.not_finished {at' : Pc} (busy : at'.holdsCount = true ∨ at'.inside = true ∨ at'.writing = true) :
    at'.finished = false := by
  revert busy
  cases at' with
  | reader r => cases r <;> decide
  | writer w => cases w <;> decide

/-- What an unfinished thread that cannot move waits for. -/
theorem waits_of_stuck (running : s.thread t = .run (s.pc t))
    (stuck : (program readers writers).step s t () = none) (unfinished : (s.pc t).finished = false) :
    ((s.pc t = .reader .lockCount ∨ s.pc t = .reader .lockCount2) ∧ s.owner .count ≠ none) ∨
    ((s.pc t = .reader .lockLibrary ∨ s.pc t = .writer .lock) ∧ s.owner .library ≠ none) := by
  rcases Program.stuck_cases running rfl (fun _ => stuck) with
    ⟨lock, next, here, taken⟩ | ⟨effect, here, never⟩
  · cases at' : s.pc t with
    | reader r =>
      rw [at'] at here
      cases r <;> cases here
      case reader.lockCount.refl => exact Or.inl ⟨Or.inl rfl, taken⟩
      case reader.lockLibrary.refl => exact Or.inr ⟨Or.inl rfl, taken⟩
      case reader.lockCount2.refl => exact Or.inl ⟨Or.inr rfl, taken⟩
    | writer w =>
      rw [at'] at here
      cases w <;> cases here
      exact Or.inr ⟨Or.inr rfl, taken⟩
  · cases at' : s.pc t with
    | reader r =>
      rw [at'] at here unfinished
      cases r <;> cases here
      case reader.done.refl => cases unfinished
      all_goals cases never ()
    | writer w =>
      rw [at'] at here unfinished
      cases w <;> cases here
      case writer.done.refl => cases unfinished
      cases never ()

/-- A writer in the library can go on. -/
theorem not_stuck_of_writing (running : s.thread t = .run (s.pc t)) (writing : (s.pc t).writing = true) :
    (program readers writers).step s t () ≠ none := by
  intro stuck
  have unfinished : (s.pc t).finished = false := Pc.not_finished (Or.inr (Or.inr writing))
  rcases waits_of_stuck running stuck unfinished with ⟨here | here, _⟩ | ⟨here | here, _⟩ <;>
    rw [here] at writing <;> cases writing

/-- When no unfinished thread can move, a taken library is taken by readers. -/
theorem Inv.inside_of_stuck (inv : Inv s) (running : ∀ u, s.thread u = .run (s.pc u))
    (stuck : ∀ u, (s.pc u).finished = false → (program readers writers).step s u () = none)
    (taken : s.owner .library ≠ none) : ∃ u, (s.pc u).inside = true := by
  obtain ⟨v, owner⟩ := Option.ne_none_iff_exists'.mp taken
  refine inv.shared.reader.mp ⟨v, owner, ?_⟩
  by_contra writes
  have writing := (inv.shared.writer v (Bool.eq_false_iff.mpr writes)).mp owner
  have unfinished : (s.pc v).finished = false := Pc.not_finished (Or.inr (Or.inr writing))
  exact not_stuck_of_writing (running v) writing (stuck v unfinished)

/-- In a state in which no unfinished thread can move, `count->lock` is free:
a first reader that waits with it for the library is the only counted one. -/
theorem Inv.count_free (inv : Inv s) (running : ∀ u, s.thread u = .run (s.pc u))
    (stuck : ∀ u, (s.pc u).finished = false → (program readers writers).step s u () = none) :
    s.owner .count = none := by
  by_contra taken
  obtain ⟨t, owner⟩ := Option.ne_none_iff_exists'.mp taken
  have holds := (inv.busy t).mp owner
  have unfinished : (s.pc t).finished = false := Pc.not_finished (Or.inl holds)
  rcases waits_of_stuck (running t) (stuck t unfinished) unfinished with
    ⟨here | here, _⟩ | ⟨here | here, held⟩
  · rw [here] at holds
    cases holds
  · rw [here] at holds
    cases holds
  · obtain ⟨u, inside⟩ := inv.inside_of_stuck running stuck held
    have counted : (s.pc u).counted = true := by
      refine Pc.counted_of_inside inside fun gives => ?_
      have same := inv.holder holds (by rw [gives]; rfl)
      rw [same, here] at gives
      cases gives
    have one := inv.counter
    rw [inv.first t here] at one
    have same : u = t := eq_of_countAt_le_one (by omega) counted (by rw [here]; rfl)
    rw [same, here] at inside
    cases inside
  · rw [here] at holds
    cases holds

/-- While a thread is unfinished, an unfinished thread can move. -/
theorem Inv.canMove (inv : Inv s) (running : ∀ u, s.thread u = .run (s.pc u))
    (unfinished : (s.pc t).finished = false) :
    ∃ u s', (s.pc u).finished = false ∧ (program readers writers).step s u () = some s' := by
  by_contra blocked
  have stuck (u : Tid readers writers) (more : (s.pc u).finished = false) :
      (program readers writers).step s u () = none := by
    refine Option.eq_none_iff_forall_ne_some.mpr fun s' moves => blocked ⟨u, s', more, moves⟩
  have free := inv.count_free running stuck
  rcases waits_of_stuck (running t) (stuck t unfinished) unfinished with ⟨_, taken⟩ | ⟨_, taken⟩
  · exact taken free
  · obtain ⟨u, inside⟩ := inv.inside_of_stuck running stuck taken
    have more : (s.pc u).finished = false := Pc.not_finished (Or.inr (Or.inl inside))
    rcases waits_of_stuck (running u) (stuck u more) more with ⟨_, held⟩ | ⟨here | here, _⟩
    · exact held free
    · rw [here] at inside
      cases inside
    · rw [here] at inside
      cases inside

theorem Pc.updated_of_finished {at' : Pc} (finished : at'.finished = true) : at'.updated = !at'.isReader := by
  revert finished
  cases at' with
  | reader r => cases r <;> decide
  | writer w => cases w <;> decide

theorem Pc.updated_of_isReader {at' : Pc} (reads : at'.isReader = true) : at'.updated = false := by
  cases at' with
  | reader r => rfl
  | writer w => cases reads

theorem card_writers : (Finset.univ.filter fun t : Tid readers writers => t.isReader = false).card = writers := by
  have image : (Finset.univ.filter fun t : Tid readers writers => t.isReader = false) =
      Finset.univ.image Tid.writer := by
    ext t
    rw [Finset.mem_filter, Finset.mem_image]
    cases t with
    | reader i => simp [Tid.isReader]
    | writer i => exact ⟨fun _ => ⟨i, Finset.mem_univ i, rfl⟩, fun _ => ⟨Finset.mem_univ _, rfl⟩⟩
  rw [image, Finset.card_image_of_injective _ fun i j same => Tid.writer.inj same, Finset.card_univ,
    Fintype.card_fin]

/-- Once all writers have finished, the library counts them. -/
theorem Inv.library_of_done (inv : Inv s) (done : ∀ i, (s.pc (.writer i)).finished = true) :
    s.mem.library = writers := by
  have wrote (t : Tid readers writers) : (s.pc t).updated = true ↔ t.isReader = false := by
    have role := inv.role t
    cases t with
    | reader i => simp [Pc.updated_of_isReader role, Tid.isReader]
    | writer i => simp [Pc.updated_of_finished (done i), role]
  rw [inv.updates, countAt]
  simp only [wrote, card_writers]

end

/-- Readers and writers exclude each other, the lock and the counter stand for
the threads inside, nobody is stuck, and no update is lost. -/
theorem readers_writers {path : List (State readers writers × (Tid readers writers × Unit))}
    {s : State readers writers} (run : (library readers writers).Run path s) :
    (∀ t u, (s.pc t).writing = true → ((s.pc u).writing = true ∨ (s.pc u).reading = true) → u = t) ∧
    ((∃ t, s.owner .library = some t) ↔ (∃ t, (s.pc t).writing = true) ∨ readersHave path = true) ∧
    s.mem.count = countAt Pc.counted s.pc ∧
    (∀ t, (s.pc t).finished = false →
      ∃ u s', (s.pc u).finished = false ∧ (library readers writers).next s (u, ()) = some s') ∧
    ((∀ i, (s.pc (.writer i)).finished = true) → s.mem.library = writers) := by
  have reach : (library readers writers).Reach s := run.reachUnder fun _ _ => trivial
  have inv := inv_of_reach reach
  refine ⟨fun t u writing other => ?_, ?_, inv.counter,
    fun t unfinished => inv.canMove (running_of_reach reach) unfinished, inv.library_of_done⟩
  · obtain ⟨writes, owner⟩ := inv.owner_of_writing writing
    rcases other with writing2 | reading
    · exact Option.some.inj ((inv.owner_of_writing writing2).2.symm.trans owner)
    · obtain ⟨v, owner2, reads⟩ := inv.shared.reader.mpr ⟨u, Pc.inside_of_reading reading⟩
      cases Option.some.inj (owner.symm.trans owner2)
      cases writes.symm.trans reads
  · rw [readersHave_iff run, ← inv.shared.reader]
    constructor
    · rintro ⟨t, owner⟩
      cases role : t.isReader with
      | true => exact Or.inr ⟨t, owner, role⟩
      | false => exact Or.inl ⟨t, (inv.shared.writer t role).mp owner⟩
    · rintro (⟨t, writing⟩ | ⟨t, owner, _⟩)
      · exact ⟨t, (inv.owner_of_writing writing).2⟩
      · exact ⟨t, owner⟩

set_option maxRecDepth 10000 in
/-- A reader comes and goes, then a writer does. -/
theorem readers_writers_readerFirst : ∃ path, ∃ s : State 1 1, (library 1 1).Run path s ∧ s.mem.library = 1 := by
  have computed : ((library 1 1).run (schedule [(.reader 0, (), 9), (.writer 0, (), 3)]) (launch 1 1)).map
      (fun s => (s.pc (.writer 0)).finished) = some true := by decide
  obtain ⟨s, reached, finished⟩ := Option.map_eq_some_iff.mp computed
  obtain ⟨path, run, _⟩ := System.Run.of_run (.start rfl) (by simp) reached
  obtain ⟨_, _, _, _, written⟩ := readers_writers run
  refine ⟨path, s, run, written fun i => ?_⟩
  rw [Subsingleton.elim i 0, finished]

end DeviceProgramming.ReaderWriter
