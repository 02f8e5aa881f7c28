import DeviceProgramming.ReaderWriter.Moves

namespace DeviceProgramming.ReaderWriter

variable {readers writers : ℕ}

/-- The part of the invariant about the library's lock: it belongs to the writer
or to the readers that are in it. -/
structure Shared (owner : Option (Tid readers writers)) (pc : Tid readers writers → Pc) : Prop where
  writer : ∀ t, t.isReader = false → (owner = some t ↔ (pc t).writing = true)
  reader : (∃ t, owner = some t ∧ t.isReader = true) ↔ ∃ t, (pc t).inside = true

theorem Shared.congr {owner : Option (Tid readers writers)} {pc pc' : Tid readers writers → Pc}
    (shared : Shared owner pc) (inside : ∀ u, (pc' u).inside = (pc u).inside)
    (writing : ∀ u, (pc' u).writing = (pc u).writing) : Shared owner pc' where
  writer := by simpa only [writing] using shared.writer
  reader := by simpa only [inside] using shared.reader

/-- A free lock: nobody is inside or writing. -/
theorem Shared.free {pc : Tid readers writers → Pc} (inside : ∀ u, (pc u).inside = false)
    (writing : ∀ u, (pc u).writing = false) : Shared none pc where
  writer u _ := by simp [writing]
  reader := by simp [inside]

/-- What holds in every reached state: who owns the two locks and what the
counters count. -/
structure Inv (s : State readers writers) : Prop where
  role : ∀ t, (s.pc t).isReader = t.isReader
  busy : ∀ t, s.owner .count = some t ↔ (s.pc t).holdsCount = true
  counter : s.mem.count = countAt Pc.counted s.pc
  shared : Shared (s.owner .library) s.pc
  first : ∀ t, s.pc t = .reader .lockLibrary → s.mem.count = 1
  last : ∀ t, s.pc t = .reader .unlockLibrary → s.mem.count = 0
  updates : s.mem.library = countAt Pc.updated s.pc

section
variable {s s' : State readers writers} {t u : Tid readers writers} {next : Pc}

theorem Inv.holder (inv : Inv s) (own : (s.pc t).holdsCount = true) (other : (s.pc u).holdsCount = true) : u = t :=
  Option.some.inj (((inv.busy u).mpr other).symm.trans ((inv.busy t).mpr own))

/-- A counted reader is already inside, or it is the one that holds the counter
while it waits for the library. -/
theorem Pc.inside_of_counted {at' : Pc} (counted : at'.counted = true) (elsewhere : at' ≠ .reader .lockLibrary) :
    at'.inside = true := by
  cases at' with
  | reader r => cases r <;> first | rfl | exact absurd rfl elsewhere | cases counted
  | writer w => cases w <;> cases counted

theorem Pc.counted_of_inside {at' : Pc} (inside : at'.inside = true) (elsewhere : at' ≠ .reader .unlockLibrary) :
    at'.counted = true := by
  cases at' with
  | reader r => cases r <;> first | rfl | exact absurd rfl elsewhere | cases inside
  | writer w => cases w <;> cases inside

theorem Pc.inside_of_reading {at' : Pc} (reading : at'.reading = true) : at'.inside = true := by
  cases at' with
  | reader r => cases r <;> first | rfl | cases reading
  | writer w => cases reading

theorem Pc.not_isReader_of_writing {at' : Pc} (writing : at'.writing = true) : at'.isReader = false := by
  cases at' with
  | reader r => cases writing
  | writer w => rfl

/-- Whoever writes is a writer and owns the library's lock. -/
theorem Inv.owner_of_writing (inv : Inv s) (writing : (s.pc t).writing = true) :
    t.isReader = false ∧ s.owner .library = some t := by
  have writes : t.isReader = false := (inv.role t).symm.trans (Pc.not_isReader_of_writing writing)
  exact ⟨writes, (inv.shared.writer t writes).mpr writing⟩

/-- With the library's lock free nobody is inside or writing. -/
theorem Inv.empty (inv : Inv s) (free : s.owner .library = none) (t : Tid readers writers) :
    (s.pc t).inside = false ∧ (s.pc t).writing = false := by
  constructor
  · refine Bool.eq_false_iff.mpr fun inside => ?_
    obtain ⟨u, owner, _⟩ := inv.shared.reader.mpr ⟨t, inside⟩
    cases free.symm.trans owner
  · refine Bool.eq_false_iff.mpr fun writing => ?_
    cases free.symm.trans (inv.owner_of_writing writing).2

/-- A later reader finds another one inside. -/
theorem Inv.inside_of_join (inv : Inv s) (here : s.pc t = .reader .increment) (many : s.mem.count + 1 ≠ 1) :
    ∃ u, (s.pc u).inside = true := by
  have counter := inv.counter
  have some : countAt Pc.counted s.pc ≠ 0 := by omega
  rw [ne_eq, countAt_eq_zero, not_forall] at some
  obtain ⟨u, counted⟩ := some
  refine ⟨u, Pc.inside_of_counted (by simpa using counted) fun waits => ?_⟩
  have same := inv.holder (t := t) (u := u) (by rw [here]; rfl) (by rw [waits]; rfl)
  rw [same, here] at waits
  cases waits

/-- Whoever leaves while the counter is not yet zero leaves another reader inside. -/
theorem Inv.inside_of_leave (inv : Inv s) (here : s.pc t = .reader .decrement) (many : s.mem.count - 1 ≠ 0) :
    ∃ u, u ≠ t ∧ (s.pc u).inside = true := by
  have counter := inv.counter
  have own : 0 < countAt Pc.counted s.pc := countAt_pos (i := t) (by rw [here]; rfl)
  obtain ⟨u, other, counted⟩ := exists_other_of_countAt (p := Pc.counted) (f := s.pc) (by omega) t
  refine ⟨u, other, Pc.inside_of_counted counted fun waits => other ?_⟩
  exact inv.holder (by rw [here]; rfl) (by rw [waits]; rfl)

/-- The last reader leaves nobody inside. -/
theorem Inv.outside_of_give (inv : Inv s) (here : s.pc t = .reader .unlockLibrary) (other : u ≠ t) :
    (s.pc u).inside = false := by
  have zero := inv.last t here
  rw [inv.counter] at zero
  have nobody := countAt_eq_zero.mp (Int.ofNat_eq_zero.mp zero) u
  refine Bool.eq_false_iff.mpr fun inside => ?_
  refine Bool.eq_false_iff.mp nobody (Pc.counted_of_inside inside fun gives => other ?_)
  exact inv.holder (by rw [here]; rfl) (by rw [gives]; rfl)

theorem Inv.step_shared (inv : Inv s) (move : Move t s.mem s.owner (s.pc t) s'.mem s'.owner next)
    (moved : s'.pc = Function.update s.pc t next) : Shared (s'.owner .library) s'.pc := by
  have own : s'.pc t = next := by rw [moved, Function.update_self]
  have other (u : Tid readers writers) (elsewhere : u ≠ t) : s'.pc u = s.pc u := by
    rw [moved, Function.update_of_ne elsewhere]
  have keeps (f : Pc → Bool) (same : f next = f (s.pc t)) (u : Tid readers writers) :
      f (s'.pc u) = f (s.pc u) := by
    by_cases here : u = t
    · rw [here, own, same]
    · rw [other u here]
  have role := inv.role t
  generalize at' : s.pc t = here at move keeps role
  generalize s'.mem = mem, s'.owner = owner at move
  cases move with
  | lockCount | first | enter | read | lockCount2 | last | update | unlockCount2 =>
    simpa using inv.shared.congr (keeps Pc.inside rfl) (keeps Pc.writing rfl)
  | join many =>
    have before := inv.inside_of_join at' many
    have after : ∃ u, (s'.pc u).inside = true := ⟨t, by rw [own]; rfl⟩
    refine ⟨by simpa only [keeps Pc.writing rfl] using inv.shared.writer, ?_⟩
    exact inv.shared.reader.trans ⟨fun _ => after, fun _ => before⟩
  | leave many =>
    obtain ⟨u, elsewhere, inside⟩ := inv.inside_of_leave at' many
    have before : ∃ u, (s.pc u).inside = true := ⟨u, inside⟩
    have after : ∃ u, (s'.pc u).inside = true := ⟨u, by rw [other u elsewhere, inside]⟩
    refine ⟨by simpa only [keeps Pc.writing rfl] using inv.shared.writer, ?_⟩
    exact inv.shared.reader.trans ⟨fun _ => after, fun _ => before⟩
  | takeLibrary free =>
    refine ⟨fun u writer => ?_, ?_⟩
    · rw [Function.update_self, keeps Pc.writing rfl, (inv.empty free u).2]
      have differ : t ≠ u := by
        rintro rfl
        cases writer.symm.trans role.symm
      simp [differ]
    · have reader : (some t : Option (Tid readers writers)) = some t ∧ t.isReader = true := ⟨rfl, role.symm⟩
      have inside : (s'.pc t).inside = true := by rw [own]; rfl
      rw [Function.update_self]
      exact ⟨fun _ => ⟨t, inside⟩, fun _ => ⟨t, reader⟩⟩
  | giveLibrary =>
    obtain ⟨v, holder, reads⟩ := inv.shared.reader.mpr ⟨t, by rw [at']; rfl⟩
    rw [Function.update_self]
    refine Shared.free (fun u => ?_) fun u => ?_
    · by_cases here : u = t
      · rw [here, own]
        rfl
      · rw [other u here, inv.outside_of_give at' here]
    · rw [keeps Pc.writing rfl]
      refine Bool.eq_false_iff.mpr fun writing => ?_
      obtain ⟨writes, owner⟩ := inv.owner_of_writing writing
      cases Option.some.inj (holder.symm.trans owner)
      cases writes.symm.trans reads
  | lock free =>
    refine ⟨fun u writer => ?_, ?_⟩
    · rw [Function.update_self]
      by_cases here : u = t
      · simp [here, own, Pc.writing]
      · simp [Ne.symm here, other u here, (inv.empty free u).2]
    · rw [Function.update_self]
      simp only [Option.some.injEq, keeps Pc.inside rfl, (inv.empty free _).1]
      simp [← role, Pc.isReader]
  | unlock =>
    have holder : s.owner .library = some t := (inv.shared.writer t role.symm).mpr (by rw [at']; rfl)
    rw [Function.update_self]
    refine Shared.free (fun u => ?_) fun u => ?_
    · rw [keeps Pc.inside rfl]
      refine Bool.eq_false_iff.mpr fun inside => ?_
      obtain ⟨v, owner, reads⟩ := inv.shared.reader.mpr ⟨u, inside⟩
      cases Option.some.inj (holder.symm.trans owner)
      cases reads.symm.trans role.symm
    · by_cases here : u = t
      · rw [here, own]
        rfl
      · rw [other u here]
        refine Bool.eq_false_iff.mpr fun writing => here ?_
        exact Option.some.inj ((inv.owner_of_writing writing).2.symm.trans holder)

theorem inv_launch : Inv (launch readers writers) where
  role t := by cases t <;> rfl
  busy t := by cases t <;> simp [launch, Threads.pc, Tid.entry, Pc.holdsCount]
  counter := by
    have nobody : countAt Pc.counted (launch readers writers).pc = 0 :=
      countAt_eq_zero.mpr fun t => by cases t <;> rfl
    rw [nobody]
    rfl
  shared := Shared.free (fun t => by cases t <;> rfl) fun t => by cases t <;> rfl
  first t := by cases t <;> simp [launch, Threads.pc, Tid.entry]
  last t := by cases t <;> simp [launch, Threads.pc, Tid.entry]
  updates := by
    have nobody : countAt Pc.updated (launch readers writers).pc = 0 :=
      countAt_eq_zero.mpr fun t => by cases t <;> rfl
    rw [nobody]
    rfl

theorem Inv.step (inv : Inv s) (move : Move t s.mem s.owner (s.pc t) s'.mem s'.owner next)
    (moved : s'.pc = Function.update s.pc t next) : Inv s' := by
  have places := update_cases moved
  have still (u : Tid readers writers) (other : u ≠ t) (holds : (s.pc u).holdsCount = true) :
      s'.mem.count = s.mem.count := by
    refine move.count_eq (Bool.eq_false_iff.mpr fun own => other ?_)
    exact inv.holder own holds
  refine ⟨fun u => ?_, fun u => ?_, ?_, inv.step_shared move moved, fun u at' => ?_, fun u at' => ?_, ?_⟩
  · rcases places u with ⟨rfl, now⟩ | ⟨_, now⟩
    · rw [now, move.isReader, inv.role]
    · rw [now, inv.role]
  · rw [moved]
    exact move.busy inv.busy u
  · rw [moved]
    exact move.counter inv.counter
  · rcases places u with ⟨rfl, now⟩ | ⟨other, now⟩
    · exact move.count_of_first (now.symm.trans at')
    · rw [now] at at'
      rw [still u other (by rw [at']; rfl), inv.first u at']
  · rcases places u with ⟨rfl, now⟩ | ⟨other, now⟩
    · exact move.count_of_last (now.symm.trans at')
    · rw [now] at at'
      rw [still u other (by rw [at']; rfl), inv.last u at']
  · rw [moved]
    exact move.updates inv.updates

end

theorem inv_of_reach {ok : State readers writers → Tid readers writers × Unit → Prop}
    {s : State readers writers} (reach : (library readers writers).ReachUnder ok s) : Inv s := by
  refine reach.invariant ?_ ?_
  · rintro s rfl
    exact inv_launch
  · intro s s' label earlier inv _ step
    obtain ⟨next, move, moved⟩ := move_of_step (running_of_reach earlier) (Program.step_of_next step).2
    exact inv.step move moved

end DeviceProgramming.ReaderWriter
