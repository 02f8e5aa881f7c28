import DeviceProgramming.Concatenate.Solo
import DeviceProgramming.FileConcatenate.Keeping
import DeviceProgramming.Machine.Alone

namespace DeviceProgramming.FileConcatenate

open Concatenate (Name Inode Lock Stmt special)

/-- Only thread `t` runs, its calls succeed, and it is not yet back at the beginning of its
loop. -/
def UntilLock {K : ℕ} (t : Fin K) (s : State K) (label : Fin K × Input) : Prop :=
  label.1 = t ∧ (s.pc t).stmt ≠ .lock ∧ (s.pc t).Succeeds label.2

instance {K : ℕ} (t : Fin K) (s : State K) (label : Fin K × Input) : Decidable (UntilLock t s label) :=
  inferInstanceAs (Decidable (_ ∧ _ ∧ _))

/-- An input with which the statement at a point succeeds. -/
def Point.success (p : Point) : Input := { Input.plain [] [] 0 with written := (writing p.stmt).length }

/-- One statement after the critical section, when its call succeeds. -/
def advance (layout : Layout) (c : Memory × Point) : Memory × Point :=
  if c.1.crashed then c
  else match threadFunc layout c.2 with
    | .exec effect => if c.2.stmt.works then (effect c.2.success c.1).getD c else c
    | _ => c

variable {layout : Layout} {K : ℕ} {s s' : State K} {t : Fin K} {input : Input} {m : Memory} {l : Locals} {p : Point}
  {c : Memory × Point} {owner : Lock → Option (Fin K)} {thread : Fin K → Activity Lock Empty Point}
  {effect : Input → Memory → Option (Memory × Point)}

theorem Point.succeeds_success (p : Point) : p.Succeeds p.success := ⟨fun _ => rfl, le_rfl⟩

theorem advance_crashed (crashed : c.1.crashed = true) : advance layout c = c := by
  rw [advance, if_pos crashed]

theorem advance_lock (here : c.2.stmt = .lock) : advance layout c = c := by
  unfold advance
  split
  · rfl
  · rw [threadFunc, here]

theorem advance_of_exec (live : c.1.crashed = false) (works : c.2.stmt.works = true)
    (here : threadFunc layout c.2 = .exec effect) : advance layout c = (effect c.2.success c.1).getD c := by
  rw [advance, if_neg (by simp [live]), here]
  dsimp only
  rw [if_pos works]

/-- A `write` that takes all bytes does not depend on the outside. -/
theorem writeDest_eq {buffer : List UInt8} {next : Stmt} {other : Input} (fine : input.fails = false)
    (whole : buffer.length ≤ input.written) (fine' : other.fails = false) (whole' : buffer.length ≤ other.written) :
    writeDest l input buffer next m = writeDest l other buffer next m := by
  unfold writeDest
  split
  · rfl
  · rw [fine, fine', List.take_of_length_le whole, List.take_of_length_le whole']

/-- A statement after the critical section whose call succeeds always does the same. -/
theorem exec_eq_advance (live : m.crashed = false) (works : p.stmt.works = true)
    (here : threadFunc layout p = .exec effect) (succeeds : p.Succeeds input) :
    effect input m = some (advance layout (m, p)) := by
  rw [advance_of_exec (c := (m, p)) live works here]
  have fine := succeeds.calls works
  have whole := succeeds.writes
  obtain ⟨stmt, l⟩ := p
  cases stmt with
  | lock | scan1 | scan2 | unlock | left => cases works
  | write1 buffer =>
    cases here
    exact congrArg some (writeDest_eq fine whole rfl le_rfl)
  | write2 buffer =>
    cases buffer with
    | none => cases here; rfl
    | some buffer =>
      cases here
      exact congrArg some (writeDest_eq fine whole rfl le_rfl)
  | open1 | open2 | unlink1 | unlink2 | openDest | read1 | read2 | link | unlinkTmp =>
    cases here
    dsimp only
    rw [fine]
    rfl

theorem exec_of_works (layout : Layout) (works : p.stmt.works = true) : ∃ effect, threadFunc layout p = .exec effect := by
  obtain ⟨stmt, l⟩ := p
  cases stmt with
  | lock | scan1 | scan2 | unlock | left => cases works
  | write2 buffer => cases buffer <;> exact ⟨_, rfl⟩
  | open1 | open2 | unlink1 | unlink2 | openDest | read1 | write1 | read2 | link | unlinkTmp => exact ⟨_, rfl⟩

theorem works_advance (layout : Layout) (live : m.crashed = false) (works : p.stmt.works = true) :
    Works m p (advance layout (m, p)).1 (advance layout (m, p)).2 := by
  obtain ⟨effect, here⟩ := exec_of_works layout works
  have run := exec_eq_advance live works here p.succeeds_success
  rcases move_of_exec here run with scan | ⟨_, effect⟩
  · rcases scan.scans with scans | scans <;> rw [scans] at works <;> cases works
  · exact effect

theorem advance_openDest (live : c.1.crashed = false) (here : c.2.stmt = .openDest)
    (full : layout.filename ("tmp/".length + (c.2.locals.joined c.1).length) ≠ .unused) :
    advance layout c = (c.1.crash, c.2) := by
  obtain ⟨m, stmt, l⟩ := c
  cases here
  rw [advance_of_exec live rfl rfl]
  dsimp only
  rw [openDest, if_pos full]
  rfl

theorem advance_link_other (live : c.1.crashed = false) (here : c.2.stmt = .link)
    (full : layout.hardlink (c.2.locals.joined c.1).length = .other) : advance layout c = (c.1.crash, c.2) := by
  obtain ⟨m, stmt, l⟩ := c
  cases here
  rw [advance_of_exec live rfl rfl]
  dsimp only at full ⊢
  rw [link, full]
  rfl

/-- Where the zero of `hardlink` has made `filename` empty, nothing is linked and nothing is
unlinked. -/
theorem advance_link_filename (live : c.1.crashed = false) (here : c.2.stmt = .link)
    (full : layout.hardlink (c.2.locals.joined c.1).length = .filename) :
    (advance layout)^[2] c = (c.1, ⟨.lock, { c.2.locals with filename := none }⟩) := by
  obtain ⟨m, stmt, l⟩ := c
  cases here
  dsimp only at live full
  have first : advance layout (m, ⟨.link, l⟩) = (m, ⟨.unlinkTmp, { l with filename := none }⟩) := by
    rw [advance_of_exec live rfl rfl]
    dsimp only
    rw [link, full]
    rfl
  change advance layout (advance layout (m, ⟨.link, l⟩)) = _
  rw [first, advance_of_exec live rfl rfl]
  rfl

/-- After the critical section, or at the end of the iteration. -/
def AtWork (c : Memory × Point) : Prop := c.2.stmt = .lock ∨ c.2.stmt.works = true

theorem AtWork.advance (here : AtWork c) : AtWork (advance layout c) := by
  by_cases crashed : c.1.crashed = true
  · rw [advance_crashed crashed]
    exact here
  · rcases here with lock | works
    · rw [advance_lock lock]
      exact Or.inl lock
    · exact (works_advance layout (Bool.eq_false_iff.mpr crashed) works).stmt.imp_left And.left

theorem next_advance (live : c.1.crashed = false) (works : c.2.stmt.works = true) (succeeds : c.2.Succeeds input) :
    (selection layout K).next (Program.alone c.1 owner thread t c.2) (t, input) =
      some (Program.alone (advance layout c).1 owner thread t (advance layout c).2) := by
  obtain ⟨effect, here⟩ := exec_of_works layout works
  exact Program.step_alone_exec (P := program layout K) live here (exec_eq_advance live works here succeeds)

/-- A run of the thread alone goes on by `advance`. -/
theorem runs_advance {labels : List (Fin K × Input)} (stage : AtWork c)
    (computed : (selection layout K).runUnder (UntilLock t) labels (Program.alone c.1 owner thread t c.2) = some s) :
    s = Program.alone ((advance layout)^[labels.length] c).1 owner thread t ((advance layout)^[labels.length] c).2 := by
  induction labels generalizing c with
  | nil => exact (Option.some.inj computed).symm
  | cons label rest ih =>
    obtain ⟨⟨own, away, succeeds⟩, middle, moved, later⟩ := System.runUnder_cons computed
    obtain ⟨u, input⟩ := label
    dsimp only at own succeeds
    subst own
    rw [Threads.pc_of_run (Program.thread_alone ..)] at away succeeds
    have live : c.1.crashed = false := (Program.step_of_next moved).1
    rw [next_advance live (stage.resolve_left away) succeeds] at moved
    cases Option.some.inj moved
    exact ih stage.advance later

/-- Where `advance` comes to the end of the iteration a run of the thread alone
comes there too. -/
theorem advance_runs (n : ℕ) (live : c.1.crashed = false) (stage : AtWork c)
    (ended : ((advance layout)^[n] c).2.stmt = .lock) :
    ∃ labels, (selection layout K).runUnder (UntilLock t) labels (Program.alone c.1 owner thread t c.2) =
      some (Program.alone ((advance layout)^[n] c).1 owner thread t ((advance layout)^[n] c).2) := by
  induction n generalizing c with
  | zero => exact ⟨[], rfl⟩
  | succ n ih =>
    rcases stage with here | works
    · refine ⟨[], ?_⟩
      rw [Function.iterate_fixed (advance_lock here)]
      rfl
    · have still : (advance layout c).1.crashed = false := by
        rcases (works_advance layout live works).stmt with ⟨_, same⟩ | works'
        · rw [same, live]
        · by_contra crashed
          rw [Function.iterate_succ_apply,
            Function.iterate_fixed (advance_crashed (Bool.not_eq_false _ ▸ crashed))] at ended
          rw [ended] at works'
          cases works'
      obtain ⟨labels, computed⟩ := ih still (AtWork.advance (Or.inr works)) ended
      have allowed : UntilLock t (Program.alone c.1 owner thread t c.2) (t, c.2.success) := by
        refine ⟨rfl, ?_, ?_⟩ <;> rw [Threads.pc_of_run (Program.thread_alone ..)]
        · intro here
          rw [here] at works
          cases works
        · exact c.2.succeeds_success
      refine ⟨(t, c.2.success) :: labels, ?_⟩
      rw [System.runUnder_next allowed (next_advance live works c.2.succeeds_success)]
      exact computed

end DeviceProgramming.FileConcatenate
