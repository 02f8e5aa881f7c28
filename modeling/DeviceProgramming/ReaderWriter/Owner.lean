import DeviceProgramming.ReaderWriter.Exclusion

namespace DeviceProgramming.ReaderWriter

variable {readers writers : ℕ}

/-- Every thread that is about to release a lock owns it. -/
def Releasable (s : State readers writers) : Prop :=
  ∀ t lock next, (program readers writers).instr t (s.pc t) = .release lock next → s.owner lock = some t

/-- The reader that has last raised the counter from zero, read off a run, last step first. -/
def firstReader : List (State readers writers × (Tid readers writers × Unit)) → Option (Tid readers writers)
  | [] => none
  | (s, t, _) :: path => if s.pc t = .reader .increment ∧ s.mem.count = 0 then some t else firstReader path

/-- Whenever a reader lowers the counter to zero, it is the one that last raised
it from zero: the last reader to leave is the first that came. -/
def LastIsFirst : List (State readers writers × (Tid readers writers × Unit)) → Prop
  | [] => True
  | (s, t, _) :: path =>
    (s.pc t = .reader .decrement → s.mem.count = 1 → firstReader path = some t) ∧ LastIsFirst path

/-- The first reader is the owner of the library's lock while readers are inside. -/
structure Opened (first : Option (Tid readers writers)) (s : State readers writers) : Prop where
  inside : ∀ t, (s.pc t).inside = true → s.owner .library = first
  waits : ∀ t, s.pc t = .reader .lockLibrary → first = some t

section
variable {s s' : State readers writers} {t u : Tid readers writers} {next : Pc}
  {path : List (State readers writers × (Tid readers writers × Unit))}

theorem firstReader_found (path : List (State readers writers × (Tid readers writers × Unit)))
    (here : s.pc t = .reader .increment) (zero : s.mem.count = 0) :
    firstReader ((s, t, ()) :: path) = some t := by
  rw [firstReader, if_pos ⟨here, zero⟩]

theorem firstReader_other (path : List (State readers writers × (Tid readers writers × Unit)))
    (not : ¬ (s.pc t = .reader .increment ∧ s.mem.count = 0)) :
    firstReader ((s, t, ()) :: path) = firstReader path := by
  rw [firstReader, if_neg not]

/-- With the counter at zero and its lock taken by a reader that has yet to
count itself, nobody is inside. -/
theorem Inv.outside_of_first (inv : Inv s) (here : s.pc t = .reader .increment) (zero : s.mem.count = 0)
    (u : Tid readers writers) : (s.pc u).inside = false := by
  have counter := inv.counter
  have nobody := countAt_eq_zero.mp (Int.ofNat_eq_zero.mp (counter.symm.trans zero)) u
  refine Bool.eq_false_iff.mpr fun inside => ?_
  refine Bool.eq_false_iff.mp nobody (Pc.counted_of_inside inside fun gives => ?_)
  have same := inv.holder (t := t) (u := u) (by rw [here]; rfl) (by rw [gives]; rfl)
  rw [same, here] at gives
  cases gives

/-- While a writer is in the library no reader is. -/
theorem Inv.outside_of_writing (inv : Inv s) (writing : (s.pc t).writing = true) (u : Tid readers writers) :
    (s.pc u).inside = false := by
  refine Bool.eq_false_iff.mpr fun inside => ?_
  obtain ⟨v, owner, reads⟩ := inv.shared.reader.mpr ⟨u, inside⟩
  obtain ⟨writes, owner2⟩ := inv.owner_of_writing writing
  cases Option.some.inj (owner.symm.trans owner2)
  cases writes.symm.trans reads

theorem opened_step (inv : Inv s) (opened : Opened (firstReader path) s)
    (move : Move t s.mem s.owner (s.pc t) s'.mem s'.owner next) (moved : s'.pc = Function.update s.pc t next) :
    Opened (firstReader ((s, t, ()) :: path)) s' := by
  have places := update_cases moved
  -- nobody comes to the lock of the library, and whoever is inside finds the same owner
  have keep (same : firstReader ((s, t, ()) :: path) = firstReader path)
      (owner : s'.owner .library = s.owner .library) (inside : next.inside = true → ∃ v, (s.pc v).inside = true)
      (elsewhere : next ≠ .reader .lockLibrary) : Opened (firstReader ((s, t, ()) :: path)) s' := by
    refine ⟨fun u enters => ?_, fun u waits => ?_⟩
    · have some : ∃ v, (s.pc v).inside = true := by
        rcases places u with ⟨_, now⟩ | ⟨_, now⟩
        · exact inside (now ▸ enters)
        · exact ⟨u, now ▸ enters⟩
      obtain ⟨v, inside⟩ := some
      rw [owner, same, opened.inside v inside]
    · rcases places u with ⟨_, now⟩ | ⟨_, now⟩
      · exact absurd (now.symm.trans waits) elsewhere
      · rw [same, opened.waits u (now.symm.trans waits)]
  -- nobody is inside any more
  have closed (same : firstReader ((s, t, ()) :: path) = firstReader path)
      (outside : ∀ u, u ≠ t → (s.pc u).inside = false) (leaves : next.inside = false)
      (elsewhere : next ≠ .reader .lockLibrary) : Opened (firstReader ((s, t, ()) :: path)) s' := by
    refine ⟨fun u enters => ?_, fun u waits => ?_⟩
    · rcases places u with ⟨_, now⟩ | ⟨differ, now⟩
      · cases leaves.symm.trans (now ▸ enters)
      · cases (outside u differ).symm.trans (now ▸ enters)
    · rcases places u with ⟨_, now⟩ | ⟨_, now⟩
      · exact absurd (now.symm.trans waits) elsewhere
      · rw [same, opened.waits u (now.symm.trans waits)]
  have other (not : ¬ (s.pc t = .reader .increment ∧ s.mem.count = 0)) := firstReader_other path not
  generalize at' : s.pc t = here at move other
  generalize s'.mem = mem at move
  generalize owned : s'.owner = owner at move
  cases move with
  | lockCount | enter | lockCount2 | unlockCount2 =>
    have same : s'.owner .library = s.owner .library := by rw [owned, Function.update_of_ne (by decide)]
    exact keep (other (by simp)) same (fun inside => ⟨t, by rw [at']; exact inside⟩) (by simp)
  | read | last | update =>
    exact keep (other (by simp)) (by rw [owned]) (fun inside => ⟨t, by rw [at']; exact inside⟩) (by simp)
  | leave => exact keep (other (by simp)) (by rw [owned]) (fun inside => by cases inside) (by simp)
  | join many =>
    have raised : ¬ s.mem.count = 0 := by omega
    exact keep (other (by simp [raised])) (by rw [owned]) (fun _ => inv.inside_of_join at' many) (by simp)
  | first one =>
    have zero : s.mem.count = 0 := by omega
    refine ⟨fun u enters => ?_, fun u waits => ?_⟩
    · rcases places u with ⟨_, now⟩ | ⟨_, now⟩
      · rw [now] at enters
        cases enters
      · cases (inv.outside_of_first at' zero u).symm.trans (now ▸ enters)
    · rw [firstReader_found path at' zero]
      rcases places u with ⟨rfl, _⟩ | ⟨differ, now⟩
      · rfl
      · have holds : (s.pc u).holdsCount = true := by rw [now.symm.trans waits]; rfl
        exact absurd (inv.holder (by rw [at']; rfl) holds) differ
  | takeLibrary =>
    have mine := opened.waits t at'
    refine ⟨fun u _ => ?_, fun u waits => ?_⟩
    · rw [owned, Function.update_self, other (by simp), mine]
    · rcases places u with ⟨_, now⟩ | ⟨_, now⟩
      · cases now.symm.trans waits
      · rw [other (by simp), opened.waits u (now.symm.trans waits)]
  | giveLibrary => exact closed (other (by simp)) (fun u differ => inv.outside_of_give at' differ) rfl (by simp)
  | lock free => exact closed (other (by simp)) (fun u _ => (inv.empty free u).1) rfl (by simp)
  | unlock =>
    have writing : (s.pc t).writing = true := by rw [at']; rfl
    exact closed (other (by simp)) (fun u _ => inv.outside_of_writing writing u) rfl (by simp)

theorem opened_of_run (run : (library readers writers).Run path s) : Opened (firstReader path) s := by
  induction run with
  | start begun =>
    subst begun
    refine ⟨fun t inside => ?_, fun t waits => ?_⟩
    · cases t <;> cases inside
    · cases t <;> cases waits
  | @next path s s' label earlier step ih =>
    have reach : (library readers writers).Reach s := earlier.reachUnder fun _ _ => trivial
    obtain ⟨next, move, moved⟩ := move_of_step (running_of_reach reach) (Program.step_of_next step).2
    exact opened_step (inv_of_reach reach) ih move moved

/-- All releases but that of the library by the last reader are by the owner. -/
theorem releasable_iff (inv : Inv s) :
    Releasable s ↔ ∀ t, s.pc t = .reader .unlockLibrary → s.owner .library = some t := by
  constructor
  · intro releasable t at'
    exact releasable t .library (.reader .unlockCount2) (by rw [at']; rfl)
  · intro last t lock next here
    have role := inv.role t
    have counted := (inv.busy t).mpr
    have writes := (inv.shared.writer t)
    cases at' : s.pc t with
    | reader r =>
      rw [at'] at here counted
      cases r <;> cases here
      case unlockCount.refl => exact counted rfl
      case unlockCount2.refl => exact counted rfl
      case unlockLibrary.refl => exact last t at'
    | writer w =>
      rw [at'] at here role writes
      cases w <;> cases here
      exact (writes role.symm).mpr rfl

theorem releasable_iff_first (run : (library readers writers).Run path s) :
    Releasable s ↔ ∀ t, s.pc t = .reader .unlockLibrary → firstReader path = some t := by
  have reach : (library readers writers).Reach s := run.reachUnder fun _ _ => trivial
  have opened := opened_of_run run
  rw [releasable_iff (inv_of_reach reach)]
  refine forall_congr' fun t => ⟨fun owns at' => ?_, fun first at' => ?_⟩
  · rw [← opened.inside t (by rw [at']; rfl), owns at']
  · rw [opened.inside t (by rw [at']; rfl), first at']

/-- The mutexes are released by their owners exactly in the runs in which the
last reader to leave is always the one that came first. -/
theorem releasable_throughout_iff (run : (library readers writers).Run path s) :
    System.Throughout Releasable path s ↔ LastIsFirst path := by
  induction run with
  | @start s begun =>
    have nobody : Releasable s := (releasable_iff_first (.start begun)).mpr fun t at' => by
      rw [begun] at at'
      cases t <;> cases at'
    exact ⟨fun _ => trivial, fun _ => ⟨List.forall_mem_nil _, nobody⟩⟩
  | @next path s s' label earlier step ih =>
    obtain ⟨t, _⟩ := label
    have reach : (library readers writers).Reach s := earlier.reachUnder fun _ _ => trivial
    have inv := inv_of_reach reach
    have first := releasable_iff_first earlier
    have first' := releasable_iff_first (earlier.next step)
    obtain ⟨next, move, moved⟩ := move_of_step (running_of_reach reach) (Program.step_of_next step).2
    have own : s'.pc t = next := by rw [moved, Function.update_self]
    have other := firstReader_other (s := s) (t := t) path
    generalize written : s'.mem = mem at move
    generalize s'.owner = owner at move
    constructor
    · rintro ⟨before, now⟩
      obtain ⟨here, earlier⟩ := List.forall_mem_cons.mp before
      refine ⟨fun at' one => ?_, ih.mp ⟨earlier, here⟩⟩
      rw [at'] at move
      cases move with
      | last => rw [← first'.mp now t own, other (by simp [at'])]
      | leave many => omega
    · rintro ⟨lowered, later⟩
      obtain ⟨before, now⟩ := ih.mpr later
      refine ⟨List.forall_mem_cons.mpr ⟨now, before⟩, first'.mpr fun u at' => ?_⟩
      rcases update_cases moved u with ⟨rfl, there⟩ | ⟨differ, there⟩
      · obtain rfl : next = .reader .unlockLibrary := there.symm.trans at'
        generalize before' : s.pc u = here at move lowered
        cases move with
        | last zero =>
          rw [other (by simp [before'])]
          exact lowered rfl (by omega)
      · have still := there.symm.trans at'
        have notThere : ¬ (s.pc t = .reader .increment ∧ s.mem.count = 0) := by
          rintro ⟨counts, _⟩
          exact differ (inv.holder (by rw [counts]; rfl) (by rw [still]; rfl))
        rw [other notThere]
        exact first.mp now u still

set_option maxRecDepth 10000 in
/-- Two readers come, and the one that came first leaves last. -/
theorem releasable_throughout_iff_overlapping : ∃ path, ∃ s : State 2 0, (library 2 0).Run path s ∧
    s.pc (.reader 0) = .reader .unlockLibrary ∧ s.pc (.reader 1) = .reader .done ∧
    (System.Throughout Releasable path s ↔ LastIsFirst path) := by
  have computed : ((library 2 0).run
      (schedule [(.reader 0, (), 5), (.reader 1, (), 7), (.reader 0, (), 2)])
      (launch 2 0)).map (fun s => (s.pc (.reader 0), s.pc (.reader 1))) =
        some (.reader .unlockLibrary, .reader .done) := by decide
  obtain ⟨s, reached, state⟩ := Option.map_eq_some_iff.mp computed
  obtain ⟨path, run, _⟩ := System.Run.of_run (.start rfl) (by simp) reached
  rw [Prod.mk.injEq] at state
  exact ⟨path, s, run, state.1, state.2, releasable_throughout_iff run⟩

set_option maxRecDepth 10000 in
/-- Two readers come, the first one leaves before the second, which then
releases the library's lock in place of the first. -/
theorem second_reader_releases :
    ¬ ∀ (readers writers : ℕ) (path : List (State readers writers × (Tid readers writers × Unit)))
      (s : State readers writers), (library readers writers).Run path s → System.Throughout Releasable path s := by
  intro always
  have computed : ((library 2 0).run
      (schedule [(.reader 0, (), 5), (.reader 1, (), 4), (.reader 0, (), 3), (.reader 1, (), 2)])
      (launch 2 0)).map (fun s => (s.pc (.reader 1), s.owner .library)) =
        some (.reader .unlockLibrary, some (.reader 0)) := by decide
  obtain ⟨s, reached, state⟩ := Option.map_eq_some_iff.mp computed
  obtain ⟨path, run, _⟩ := System.Run.of_run (.start rfl) (by simp) reached
  rw [Prod.mk.injEq] at state
  have owns := (always 2 0 path s run).2 (.reader 1) .library (.reader .unlockCount2) (by rw [state.1]; rfl)
  rw [state.2] at owns
  cases owns

end

end DeviceProgramming.ReaderWriter
