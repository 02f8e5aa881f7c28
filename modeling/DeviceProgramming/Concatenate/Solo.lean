import DeviceProgramming.Concatenate.Contents

namespace DeviceProgramming.Concatenate

/-- One statement after the critical section. A thread that runs alone does the
same whatever the outside chooses. -/
def advance (c : Memory × Point) : Memory × Point :=
  let l := c.2.locals
  match c.2.stmt with
  | .open1 => open1 l c.1
  | .open2 => open2 l c.1
  | .unlink1 => (c.1.unlink (l.filehead1.getD []), ⟨.unlink2, l⟩)
  | .unlink2 => (c.1.unlink (l.filehead2.getD []), ⟨.openDest, l⟩)
  | .openDest => openDest l c.1
  | .read1 => (c.1, read1 l c.1)
  | .write1 buffer => writeDest l buffer .read1 c.1
  | .read2 => (c.1, read2 l c.1)
  | .write2 none => (c.1, ⟨.read2, l⟩)
  | .write2 (some buffer) => writeDest l buffer .read2 c.1
  | .link => (c.1.link l.filename, ⟨.unlinkTmp, l⟩)
  | .unlinkTmp => (c.1.unlinkTmp l.filename, ⟨.lock, l⟩)
  | _ => c

/-- A thread after its critical section or at the end of the iteration, with two
files selected. -/
structure Steady (c : Memory × Point) : Prop where
  live : c.1.crashed = false
  first : c.2.locals.filehead1 ≠ none
  second : c.2.locals.filehead2 ≠ none
  stage : c.2.stmt = .lock ∨ c.2.stmt.works = true

variable {c : Memory × Point} {name : Name}

theorem threadFunc_of_works {p : Point} (works : p.stmt.works = true) :
    threadFunc p = .exec fun _ m => some (advance (m, p)) := by
  obtain ⟨stmt, l⟩ := p
  cases stmt with
  | write2 buffer => cases buffer <;> rfl
  | lock | scan1 | scan2 | unlock | left => cases works
  | _ => rfl

theorem advance_lock (here : c.2.stmt = .lock) : advance c = c := by
  rw [advance, here]

theorem Steady.advance (steady : Steady c) : Steady (advance c) := by
  obtain ⟨m, stmt, l⟩ := c
  obtain ⟨live, first, second, stage⟩ := steady
  dsimp only at live first second stage
  cases stmt with
  | scan1 | scan2 | unlock | left => simp [Stmt.works] at stage
  | lock => exact ⟨live, first, second, stage⟩
  | open1 =>
    obtain ⟨name, some⟩ := Option.ne_none_iff_exists'.mp first
    simp only [Concatenate.advance, open1, some]
    cases m.dir.lookup name <;> refine ⟨live, by simp, second, ?_⟩ <;> dsimp only <;> split <;> simp [Stmt.works]
  | open2 =>
    obtain ⟨name, some⟩ := Option.ne_none_iff_exists'.mp second
    simp only [Concatenate.advance, open2, some]
    cases m.dir.lookup name <;> refine ⟨live, first, by simp, ?_⟩ <;> dsimp only <;> split <;> simp [Stmt.works]
  | unlink1 => exact ⟨by simpa [Concatenate.advance] using live, first, second, Or.inr rfl⟩
  | unlink2 => exact ⟨by simpa [Concatenate.advance] using live, first, second, Or.inr rfl⟩
  | openDest => exact ⟨by simpa [Concatenate.advance, openDest] using live, first, second, Or.inr rfl⟩
  | read1 =>
    simp only [Concatenate.advance, read1]
    split
    · exact ⟨live, first, second, Or.inr rfl⟩
    · refine ⟨live, first, second, Or.inr ?_⟩
      dsimp only
      split <;> rfl
  | read2 =>
    simp only [Concatenate.advance, read2]
    split
    · exact ⟨live, first, second, Or.inr rfl⟩
    · refine ⟨live, first, second, Or.inr ?_⟩
      dsimp only
      split <;> rfl
  | write1 => exact ⟨live, first, second, Or.inr rfl⟩
  | write2 buffer => cases buffer <;> exact ⟨live, first, second, Or.inr rfl⟩
  | link => exact ⟨by simpa [Concatenate.advance] using live, first, second, Or.inr rfl⟩
  | unlinkTmp => exact ⟨live, first, second, Or.inl rfl⟩

/-- After the `link` there is only the last `unlink`. -/
theorem stmt_after_link (here : c.2.stmt = .link) : (Concatenate.advance c).2.stmt = .unlinkTmp ∧
    ∀ n, (Concatenate.advance^[n + 2] c).2.stmt = .lock := by
  have last : (Concatenate.advance c).2.stmt = .unlinkTmp := by rw [Concatenate.advance, here]
  have ended : (Concatenate.advance (Concatenate.advance c)).2.stmt = .lock := by
    generalize Concatenate.advance c = c at last
    rw [Concatenate.advance, last]
  refine ⟨last, fun n => ?_⟩
  rw [Function.iterate_add_apply]
  change (Concatenate.advance^[n] (Concatenate.advance (Concatenate.advance c))).2.stmt = .lock
  rw [Function.iterate_fixed (advance_lock ended), ended]

theorem mem_after_link (here : c.2.stmt = .link) : (Concatenate.advance^[2] c).1 =
    (c.1.link c.2.locals.filename).unlinkTmp c.2.locals.filename := by
  obtain ⟨m, stmt, l⟩ := c
  cases here
  rfl

/-- There is one `link` in an iteration. -/
theorem link_once {i n : ℕ} (earlier : (Concatenate.advance^[i] c).2.stmt = .link) (less : i < n) :
    (Concatenate.advance^[n] c).2.stmt ≠ .link := by
  obtain ⟨last, ended⟩ := stmt_after_link earlier
  obtain ⟨k, rfl⟩ := Nat.exists_eq_add_of_lt less
  cases k with
  | zero =>
    rw [Nat.add_zero, Function.iterate_succ_apply', last]
    exact nofun
  | succ k =>
    rw [show i + (k + 1) + 1 = k + 2 + i by omega, Function.iterate_add_apply, ended]
    exact nofun

theorem filename_advance (works : c.2.stmt.works = true) :
    (Concatenate.advance c).2.locals.filename = c.2.locals.filename := by
  obtain ⟨m, stmt, l⟩ := c
  cases stmt with
  | lock | scan1 | scan2 | unlock | left => cases works
  | open1 =>
    simp only [Concatenate.advance, open1]
    split
    · rfl
    · cases m.dir.lookup _ <;> rfl
  | open2 =>
    simp only [Concatenate.advance, open2]
    split
    · rfl
    · cases m.dir.lookup _ <;> rfl
  | read1 =>
    simp only [Concatenate.advance, read1]
    split <;> rfl
  | read2 =>
    simp only [Concatenate.advance, read2]
    split <;> rfl
  | write2 buffer => cases buffer <;> rfl
  | unlink1 | unlink2 | openDest | write1 | link | unlinkTmp => rfl

theorem move_advance (works : c.2.stmt.works = true) (input : Input) :
    Move input c.1 c.2.locals c.2.stmt (Concatenate.advance c).1 (Concatenate.advance c).2 :=
  move_of_exec (threadFunc_of_works works) rfl

end DeviceProgramming.Concatenate
