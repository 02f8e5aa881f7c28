import DeviceProgramming.FileConcatenate.Moves
import DeviceProgramming.Machine.Ownership

namespace DeviceProgramming.FileConcatenate

open Concatenate (Lock Stmt dot dotdot tmpName)

/-- The loop is only left by `break`, with `dir_lock` still held. -/
def held (p : Point) : List Lock := match p.stmt with
  | .scan1 | .scan2 | .unlock | .left => [.dirLock]
  | _ => []

variable {layout : Layout} {K : ℕ} {s s' : State K} {t : Fin K} {input : Input} {m m' : Memory} {l : Locals}
  {p next : Point} {stmt : Stmt}

theorem held_selected (l : Locals) : held (selected l) = [.dirLock] := by
  unfold selected
  split <;> rfl

theorem held_of_works (works : p.stmt.works = true) : held p = [] := by
  obtain ⟨stmt, l⟩ := p
  cases stmt with
  | scan1 | scan2 | unlock | left => cases works
  | _ => rfl

theorem Scan.held (scan : Scan input m l stmt m' next) :
    FileConcatenate.held next = [.dirLock] ∧ (stmt = .scan1 ∨ stmt = .scan2) := by
  cases scan with
  | error1 | end1 | skip1 | found1 => exact ⟨rfl, Or.inl rfl⟩
  | end2 | skip2 | null2 | same2 => exact ⟨rfl, Or.inr rfl⟩
  | rewind1 =>
    refine ⟨?_, Or.inl rfl⟩
    split <;> rfl
  | error2 | rewind2 =>
    refine ⟨?_, Or.inr rfl⟩
    split
    · rfl
    · exact held_selected _
  | found2 => exact ⟨held_selected _, Or.inr rfl⟩

theorem disciplined : (program layout K).Disciplined fun _ => held := by
  refine Program.Disciplined.of_stack ?acquire ?release ?sleep ?wakeup ?exec
  case acquire =>
    intro t p lock next here
    obtain ⟨stmt, l⟩ := p
    cases stmt with
    | lock => cases here; rfl
    | write2 buffer => cases buffer <;> cases here
    | _ => cases here
  case release =>
    intro t p lock next here
    obtain ⟨stmt, l⟩ := p
    cases stmt with
    | unlock => cases here; simp [held]
    | write2 buffer => cases buffer <;> cases here
    | _ => cases here
  case sleep => intro t p chan; exact nomatch chan
  case wakeup => intro t p chan; exact nomatch chan
  case exec =>
    intro t p effect input m m' next here run
    rcases move_of_exec here run with scan | ⟨works, effect⟩
    · obtain ⟨after, before⟩ := scan.held
      rw [after, held]
      rcases before with at' | at' <;> rw [at']
    · rw [held_of_works works]
      rcases effect.stmt with ⟨back, _⟩ | works'
      · rw [held, back]
      · exact held_of_works works'

theorem owned_of_reach {start : State K → Prop} (started : ∀ s, start s → Started s)
    {ok : State K → Fin K × Input → Prop} (reach : ((program layout K).system start).ReachUnder ok s) :
    s.Owned fun _ => held := by
  refine Program.owned_of_reach disciplined (fun s begun => ?_) reach
  refine Threads.owned_start (fun lock => ?_) fun t => ?_
  · cases lock
    exact (started s begun).free
  · obtain ⟨isDir, at'⟩ := (started s begun).thread t
    exact ⟨_, at', rfl⟩

/-- A thread that has left its loop holds no lock, and does not keep the others
from getting `dir_lock` and from leaving theirs. -/
def HandedBack (layout : Layout) (s : State K) : Prop :=
  ∀ t, (s.pc t).stmt = .left → s.owner .dirLock ≠ some t ∧
    (∀ u, (s.pc u).stmt = .lock →
      ∃ labels s', (concatenation layout K).run labels s = some s' ∧ (s'.pc u).stmt ≠ .lock) ∧
    ∃ labels s', (concatenation layout K).run labels s = some s' ∧ ∀ u, (s'.pc u).stmt = .left

/-- No scan comes to the end of the directory a second time, and no `readdir`
fails and changes `errno`. -/
def ScansGoOn (s : State K) (label : Fin K × Input) : Prop :=
  (s.pc label.1).stmt = .scan1 ∨ (s.pc label.1).stmt = .scan2 →
    label.2.isError = false ∧ (s.mem.atEnd label.2 = true → (s.pc label.1).locals.rewinded = false)

instance (s : State K) (label : Fin K × Input) : Decidable (ScansGoOn s label) :=
  inferInstanceAs (Decidable (_ → _ ∧ (_ → _)))

/-- A thread that goes on. -/
def Point.GoesOn (p : Point) : Prop := p.locals.cont = true ∧ p.stmt ≠ .left

theorem Point.GoesOn.selected {l : Locals} (cont : l.cont = true) : (selected l).GoesOn := by
  simp [GoesOn, FileConcatenate.selected, cont]

theorem Scan.goesOn (scan : Scan input m l stmt m' next) (cont : l.cont = true)
    (scans : input.isError = false ∧ (m.atEnd input = true → l.rewinded = false)) : next.GoesOn := by
  obtain ⟨fine, once⟩ := scans
  cases scan with
  | error1 error | error2 error =>
    rw [error] at fine
    cases fine
  | end1 _ ends again | end2 _ ends again =>
    rw [once ends] at again
    cases again
  | rewind1 => split <;> simp [Point.GoesOn, cont]
  | rewind2 =>
    split
    · simp [Point.GoesOn, cont]
    · exact .selected cont
  | found2 => exact .selected cont
  | skip1 | found1 | skip2 | null2 | same2 => exact ⟨cont, by simp⟩

theorem goesOn_of_reach (reach : (concatenation layout K).ReachUnder ScansGoOn s) (t : Fin K) : (s.pc t).GoesOn := by
  refine reach.invariant (motive := fun s => ∀ t, (s.pc t).GoesOn) ?_ ?_ t
  · intro s launch t
    obtain ⟨isDir, at'⟩ := launch.thread t
    rw [Threads.pc, at']
    exact ⟨rfl, by simp⟩
  · intro s s' label earlier before ok moved u
    have running := running_of_reach (fun _ => Launch.toStarted) earlier
    obtain ⟨next, turn, points⟩ := turn_of_step running (Program.step_of_next moved).2
    rcases update_cases points u with ⟨rfl, now⟩ | ⟨_, now⟩
    · rw [now]
      obtain ⟨cont, _⟩ := before label.1
      cases turn with
      | lock _ _ _ _ there => rw [there]; exact ⟨cont, by simp⟩
      | unlock _ _ _ there => rw [there]; exact ⟨cont, by simp⟩
      | scan scan => exact scan.goesOn cont (ok scan.held.2)
      | work _ _ _ _ effect =>
        refine ⟨effect.cont.trans cont, fun left => ?_⟩
        rcases effect.stmt with ⟨back, _⟩ | works <;> rw [left] at *
        · cases back
        · cases works
    · rw [now]
      exact before u

/-- A thread that has left its loop owns the lock. -/
theorem owner_of_left (reach : (concatenation layout K).Reach s) (left : (s.pc t).stmt = .left) :
    s.owner .dirLock = some t := by
  rw [(owned_of_reach (fun _ => Launch.toStarted) reach).owner_iff, running_of_reach (fun _ => Launch.toStarted) reach]
  simp [Activity.Holds, held, left]

/-- The lock is handed back as long as no scan ends the loop; and in each
reachable state it is handed back only if no thread has left its loop. -/
theorem lock_handed_back {path : List (State K × (Fin K × Input))} (run : (concatenation layout K).Run path s) :
    ((∀ step ∈ path, ScansGoOn step.1 step.2) → HandedBack layout s) ∧
      (HandedBack layout s ↔ ∀ t, (s.pc t).stmt ≠ .left) := by
  have vacuous (going : ∀ t, (s.pc t).stmt ≠ .left) : HandedBack layout s := fun t left => absurd left (going t)
  refine ⟨fun ok => vacuous fun t => (goesOn_of_reach (run.reachUnder ok) t).2, fun back t left => ?_, vacuous⟩
  exact (back t left).1 (owner_of_left (run.reachUnder fun _ _ => trivial) left)

/-- An empty directory. -/
def emptyDirectory : Memory where
  dir := []
  tmp := []
  node _ := .regular []
  fresh := 0
  stream := [dot, dotdot]
  crashed := false
  dName _ := []

theorem opened_emptyDirectory : emptyDirectory.Opened where
  nodup := List.nodup_nil
  ordinary := by simp [emptyDirectory]
  stream := Or.inr (List.Perm.refl _)
  inodes := by simp [emptyDirectory]
  live := rfl

/-- A thread takes the lock and scans the empty directory to its end and again. -/
def scanning (t : Fin 2) : List (Fin 2 × Input) :=
  steps t [dot, dotdot, tmpName] [dot, dotdot, tmpName] [0, 0, 1, 0, 0, 1, 2]

set_option maxRecDepth 10000 in
/-- Two threads in an empty directory, while the first one scans it again. -/
theorem lock_handed_back_scanning : ∃ path, ∃ s : State 2, (concatenation rounded 2).Run path s ∧
    s.owner .dirLock = some 0 ∧ HandedBack rounded s := by
  have computed : ((concatenation rounded 2).runUnder ScansGoOn (scanning 0) (launchOf 2 emptyDirectory)).map
      (fun s => s.owner .dirLock) = some (some 0) := by decide
  obtain ⟨s, reached, owner⟩ := Option.map_eq_some_iff.mp computed
  obtain ⟨path, run, ok, _⟩ := System.Run.of_run (.start (launch_launchOf opened_emptyDirectory)) (by simp) reached
  exact ⟨path, s, run, owner, (lock_handed_back run).1 ok⟩

set_option maxRecDepth 10000 in
/-- At the end of the second scan the first thread leaves its loop with `dir_lock`. -/
theorem lock_not_handed_back : ∃ s : State 2, (concatenation rounded 2).Reach s ∧ ¬ HandedBack rounded s := by
  have computed : ((concatenation rounded 2).run (scanning 0 ++ steps 0 [] [] [0]) (launchOf 2 emptyDirectory)).map
      (fun s => ((s.pc 0).stmt, s.owner .dirLock)) = some (.left, some 0) := by decide
  obtain ⟨s, reached, state⟩ := Option.map_eq_some_iff.mp computed
  simp only [Prod.mk.injEq] at state
  refine ⟨s, .of_run (.start (launch_launchOf opened_emptyDirectory)) reached, fun back => ?_⟩
  exact (back 0 state.1).1 state.2

end DeviceProgramming.FileConcatenate
