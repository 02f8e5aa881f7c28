import DeviceProgramming.Concatenate.Moves

namespace DeviceProgramming.Concatenate

/-- The loop is only left by `break`, with `dir_lock` still held. -/
def held (p : Point) : List Lock := match p.stmt with
  | .scan1 | .scan2 | .unlock | .left => [.dirLock]
  | _ => []

variable {K : ℕ} {s s' : State K} {t : Fin K} {input : Input} {m m' : Memory} {l : Locals} {next : Point}
  {stmt : Stmt}

theorem held_selected (l : Locals) : held (selected l) = [.dirLock] := by
  unfold selected
  split <;> rfl

theorem Move.held (move : Move input m l stmt m' next) : Concatenate.held next = Concatenate.held ⟨stmt, l⟩ := by
  cases move with
  | error1 | end1 | skip1 | found1 | end2 | skip2 | crash2 => rfl
  | rewind1 => split <;> rfl
  | error2 | rewind2 =>
    split
    · rfl
    · rw [held_selected]
      rfl
  | found2 =>
    rw [held_selected]
    rfl
  | missing1 | opened1 | missing2 | opened2 => split <;> rfl
  | null1 | null2 | unlink1 | unlink2 | openDest | bad1 | end1File | read1 | write1 | bad2 | end2File | read2
  | write2Fails | write2 | link | unlinkTmp => rfl

theorem disciplined : (program K).Disciplined fun _ => held := by
  refine Program.Disciplined.of_stack ?acquire ?release ?sleep ?wakeup ?exec
  case acquire =>
    intro t p lock next here
    obtain ⟨stmt, l⟩ := p
    cases stmt with
    | lock => cases here; rfl
    | write2 buffer => cases buffer <;> cases here
    | _ => cases here
  case release =>
    intro t p lock next here
    obtain ⟨stmt, l⟩ := p
    cases stmt with
    | unlock => cases here; simp [held]
    | write2 buffer => cases buffer <;> cases here
    | _ => cases here
  case sleep => intro t p chan; exact nomatch chan
  case wakeup => intro t p chan; exact nomatch chan
  case exec =>
    intro t p effect input m m' next here run
    exact (move_of_exec here run).held

theorem owned_of_reach {start : State K → Prop} (started : ∀ s, start s → Started s)
    {ok : State K → Fin K × Input → Prop} (reach : ((program K).system start).ReachUnder ok s) :
    s.Owned fun _ => held := by
  refine Program.owned_of_reach disciplined (fun s begun => ?_) reach
  refine Threads.owned_start (fun lock => ?_) fun t => ?_
  · cases lock
    exact (started s begun).free
  · obtain ⟨isDir, at'⟩ := (started s begun).thread t
    exact ⟨_, at', rfl⟩

end DeviceProgramming.Concatenate
