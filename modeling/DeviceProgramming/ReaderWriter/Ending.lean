import DeviceProgramming.Machine.Inevitable
import DeviceProgramming.ReaderWriter.Handover

namespace DeviceProgramming.ReaderWriter

variable {readers writers : ℕ}

/-- The statements that a thread has still ahead of it. -/
def Pc.left : Pc → ℕ
  | reader .lockCount => 9
  | reader .increment => 8
  | reader .lockLibrary => 7
  | reader .unlockCount => 6
  | reader .read => 5
  | reader .lockCount2 => 4
  | reader .decrement => 3
  | reader .unlockLibrary => 2
  | reader .unlockCount2 => 1
  | reader .done => 0
  | writer .lock => 3
  | writer .update => 2
  | writer .unlock => 1
  | writer .done => 0

/-- A reader that has printed what it has found in the library. -/
def Pc.looked : Pc → Bool
  | reader .lockCount2 | reader .decrement | reader .unlockLibrary | reader .unlockCount2 | reader .done => true
  | _ => false

section
variable {t : Tid readers writers} {m m' : Memory} {owner owner' : Lock → Option (Tid readers writers)}
  {pc : Tid readers writers → Pc} {next : Pc}

theorem Move.left_lt (move : Move t m owner (pc t) m' owner' next) : next.left < (pc t).left := by
  generalize pc t = here at move
  cases move <;> decide

/-- One line for each reader that has looked, with numbers that never get smaller and
that the library has reached. -/
structure Lines (m : Memory) (pc : Tid readers writers → Pc) : Prop where
  length : m.printed.length = countAt Pc.looked pc
  ordered : m.printed.Pairwise (· ≤ ·)
  range : ∀ x ∈ m.printed, 0 ≤ x ∧ x ≤ m.library

theorem Lines.move (lines : Lines m pc) (positive : 0 ≤ m.library) (move : Move t m owner (pc t) m' owner' next) :
    Lines m' (Function.update pc t next) := by
  have moved := countAt_update Pc.looked pc t next
  have length := lines.length
  generalize pc t = here at move moved
  cases move with
  | read =>
    refine ⟨?_, ?_, fun x member => ?_⟩
    · simp only [Pc.looked, Bool.toNat_true, Bool.toNat_false] at moved
      rw [List.length_append, List.length_singleton]
      omega
    · refine List.pairwise_append.mpr ⟨lines.ordered, List.pairwise_singleton .., fun x member y last => ?_⟩
      rw [List.mem_singleton.mp last]
      exact (lines.range x member).2
    · rcases List.mem_append.mp member with old | last
      · exact lines.range x old
      · rw [List.mem_singleton.mp last]
        exact ⟨positive, le_rfl⟩
  | update =>
    refine ⟨?_, lines.ordered, fun x member => ?_⟩
    · simp only [Pc.looked, Bool.toNat_false] at moved
      change m.printed.length = _
      omega
    · obtain ⟨lower, upper⟩ := lines.range x member
      exact ⟨lower, upper.trans (Int.le.intro 1 rfl)⟩
  | _ =>
    refine ⟨?_, lines.ordered, lines.range⟩
    simp only [Pc.looked, Bool.toNat_true, Bool.toNat_false] at moved
    change m.printed.length = _
    omega

end

section
variable {s s' : State readers writers} {t : Tid readers writers}

theorem lines_of_reach (reach : (library readers writers).Reach s) : Lines s.mem s.pc := by
  induction reach with
  | start begun =>
    subst begun
    have nobody : countAt Pc.looked (launch readers writers).pc = 0 :=
      countAt_eq_zero.mpr fun t => by cases t <;> rfl
    exact ⟨nobody.symm, List.Pairwise.nil, nofun⟩
  | @next s s' label earlier _ step ih =>
    obtain ⟨next, move, moved⟩ := move_of_step (running_of_reach earlier) (Program.step_of_next step).2
    have positive : 0 ≤ s.mem.library := by
      rw [(inv_of_reach earlier).updates]
      exact Int.natCast_nonneg _
    rw [moved]
    exact ih.move positive move

/-- What all threads have still ahead of them. -/
def State.left (s : State readers writers) : ℕ := total (fun _ => Pc.left) s.pc

theorem left_step (reach : (library readers writers).Reach s)
    (step : (library readers writers).next s (t, ()) = some s') : State.left s' < State.left s := by
  obtain ⟨next, move, moved⟩ := move_of_step (running_of_reach reach) (Program.step_of_next step).2
  have less : next.left < (s.pc t).left := move.left_lt
  have whole := total_update (fun _ => Pc.left) s.pc t next
  rw [← moved] at whole
  unfold State.left
  omega

theorem card_readers : (Finset.univ.filter fun t : Tid readers writers => t.isReader = true).card = readers := by
  have image : (Finset.univ.filter fun t : Tid readers writers => t.isReader = true) =
      Finset.univ.image Tid.reader := by
    ext t
    rw [Finset.mem_filter, Finset.mem_image]
    cases t with
    | reader i => exact ⟨fun _ => ⟨i, Finset.mem_univ i, rfl⟩, fun _ => ⟨Finset.mem_univ _, rfl⟩⟩
    | writer i => simp [Tid.isReader]
  rw [image, Finset.card_image_of_injective _ fun i j same => Tid.reader.inj same, Finset.card_univ,
    Fintype.card_fin]

theorem Pc.looked_of_finished {at' : Pc} (finished : at'.finished = true) : at'.looked = at'.isReader := by
  revert finished
  cases at' with
  | reader r => cases r <;> decide
  | writer w => cases w <;> decide

/-- Once all threads have finished, nobody has a lock. -/
theorem Inv.free_of_done (inv : Inv s) (done : ∀ t, (s.pc t).finished = true) (l : Lock) : s.owner l = none := by
  have idle (t : Tid readers writers) (busy : (s.pc t).holdsCount = true ∨ (s.pc t).inside = true ∨
      (s.pc t).writing = true) : False := by
    have finished := done t
    rw [Pc.not_finished busy] at finished
    cases finished
  cases owner : s.owner l with
  | none => rfl
  | some t =>
    cases l with
    | count => exact (idle t (Or.inl ((inv.busy t).mp owner))).elim
    | library =>
      cases reads : t.isReader with
      | false => exact (idle t (Or.inr (Or.inr ((inv.shared.writer t reads).mp owner)))).elim
      | true =>
        obtain ⟨u, inside⟩ := inv.shared.reader.mp ⟨t, owner, reads⟩
        exact (idle u (Or.inr (Or.inl inside))).elim

theorem Inv.count_of_done (inv : Inv s) (done : ∀ t, (s.pc t).finished = true) : s.mem.count = 0 := by
  have nobody : countAt Pc.counted s.pc = 0 := by
    refine countAt_eq_zero.mpr fun t => ?_
    have finished := done t
    cases at' : s.pc t with
    | reader r => cases r <;> first | rfl | (rw [at'] at finished; cases finished)
    | writer w => rfl
  rw [inv.counter, nobody]
  rfl

theorem length_of_done (reach : (library readers writers).Reach s) (done : ∀ t, (s.pc t).finished = true) :
    s.mem.printed.length = readers := by
  have looks (t : Tid readers writers) : (s.pc t).looked = t.isReader := by
    rw [Pc.looked_of_finished (done t), (inv_of_reach reach).role]
  rw [(lines_of_reach reach).length, countAt]
  simp only [looks, card_readers]

end

/-- Every run of the readers and the writers ends: with all of them finished, both locks free,
one line for each reader, and the library as the writers have left it, which the lines never
run ahead of. -/
theorem readers_writers_end (readers writers : ℕ) : (library readers writers).Inevitable (fun _ _ => True)
    (fun s => (∀ t, (s.pc t).finished = true) ∧ (∀ l, s.owner l = none) ∧ s.mem.count = 0 ∧
      s.mem.library = writers ∧ s.mem.printed.length = readers ∧ s.mem.printed.Pairwise (· ≤ ·) ∧
      ∀ x ∈ s.mem.printed, 0 ≤ x ∧ x ≤ writers) (launch readers writers) := by
  refine System.Inevitable.of_rank (fun s => (library readers writers).Reach s) State.left
    (fun s label s' reach _ step => reach.next trivial step) (fun s reach away => ?_)
    (fun s label s' reach _ _ step => left_step reach step) (.start rfl)
  have inv := inv_of_reach reach
  by_cases done : ∀ t, (s.pc t).finished = true
  · have library := inv.library_of_done fun i => done (.writer i)
    have lines := lines_of_reach reach
    exact absurd ⟨done, inv.free_of_done done, inv.count_of_done done, library, length_of_done reach done,
      lines.ordered, library ▸ lines.range⟩ away
  · obtain ⟨t, more⟩ := not_forall.mp done
    obtain ⟨u, s', _, step⟩ := inv.canMove (running_of_reach reach) (Bool.eq_false_iff.mpr more)
    exact ⟨(u, ()), s', step⟩

end DeviceProgramming.ReaderWriter
