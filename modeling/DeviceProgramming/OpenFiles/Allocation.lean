import DeviceProgramming.OpenFiles.References

namespace DeviceProgramming.OpenFiles

section
variable {Pid Inode Pipe : Type*}

/-- The lock that a process holds at each statement. -/
def held : Pc Pid Inode Pipe → List Lock
  | .filedupRef _ _ | .filedupUnlock _ _ | .filecloseRef _ _ | .filecloseUnlock _ _ | .fileallocScan _ _ _
  | .fileallocUnlock _ _ _ => [.ftable]
  | _ => []

/-- What the loop of `filealloc` has found out about the files before its index. -/
def Scanned (m : Memory Pid Inode Pipe) : Pc Pid Inode Pipe → Prop
  | .fileallocScan k _ _ => ∀ f : Slot, (f : ℕ) < k → (m.file f).ref ≠ 0
  | .fileallocUnlock none _ _ => ∀ f, (m.file f).ref ≠ 0
  | _ => True

/-- The descriptor that `sys_open` or `sys_dup` is about to return, and its file. -/
def Pc.result : Pc Pid Inode Pipe → Option (Fd × Slot)
  | openSet fd f _ _ | filedupLock f (.sysDup fd) | filedupRef f (.sysDup fd) | filedupUnlock f (.sysDup fd) =>
    some (fd, f)
  | _ => none

/-- A descriptor stands for a file, and no descriptor below it is free. -/
def Reserved (ofile : Fd → Option Slot) (fd : Fd) (f : Slot) : Prop :=
  ofile fd = some f ∧ ∀ lower < fd, ofile lower ≠ none

theorem reserved_of_lowest {ofile : Fd → Option Slot} {fd : Fd} (lowest : Lowest ofile fd) (f : Slot) :
    Reserved (Function.update ofile fd (some f)) fd f := by
  refine ⟨Function.update_self .., fun lower before => ?_⟩
  rw [Function.update_of_ne before.ne]
  exact lowest.2 lower before

theorem Reserved.store {ofile : Fd → Option Slot} {fd fd' : Fd} {f f' : Slot} (reserved : Reserved ofile fd f)
    (empty : ofile fd' = none) : Reserved (Function.update ofile fd' (some f')) fd f := by
  have keeps (at' : Fd) (taken : ofile at' ≠ none) : Function.update ofile fd' (some f') at' = ofile at' :=
    Function.update_of_ne (fun same => taken (by rw [same, empty])) ..
  refine ⟨?_, fun lower before => ?_⟩
  · rw [keeps fd (by rw [reserved.1]; exact Option.some_ne_none f)]
    exact reserved.1
  · rw [keeps lower (reserved.2 lower before)]
    exact reserved.2 lower before

end

variable {Pid Inode Pipe : Type*} [DecidableEq Pid] [DecidableEq Inode] [DecidableEq Pipe]

section
variable {p : Pid} {pc next : Pc Pid Inode Pipe} {m m' : Memory Pid Inode Pipe} {f : Slot}

theorem held_exec {input : Input Pid Inode Pipe}
    {effect : Input Pid Inode Pipe → Memory Pid Inode Pipe → Option (Memory Pid Inode Pipe × Pc Pid Inode Pipe)}
    (here : instr p pc = .exec effect) (run : effect input m = some (m', next)) : held next = held pc := by
  cases effect_of_exec here run with
  | @filecloseGive ff after => cases after <;> rfl
  | _ => rfl

theorem disciplined : (program Pid Inode Pipe).Disciplined fun _ => held := by
  apply Program.Disciplined.of_stack
  case acquire =>
    intro p pc lock next here
    cases pc <;> cases here <;> rfl
  case release =>
    intro p pc lock next here
    cases pc <;> cases here
    case filedupUnlock f after => cases after <;> simp [held, Dup.pc]
    case filecloseUnlock ff after =>
      cases ff with
      | none => cases after <;> simp [held, Closing.pc]
      | some ff => simp [held]
    case fileallocUnlock f ip omode => cases f <;> simp [held]
  case sleep =>
    intro p pc chan lock next here
    cases chan
  case wakeup =>
    intro p pc chan next here
    cases chan
  case exec => exact held_exec

/-- The loop of `filealloc` goes past a file that is in use only. -/
theorem Effect.scanned (effect : Effect p m pc m' next) (scanned : Scanned m pc) : Scanned m' next := by
  cases effect
  case fileallocSkip k ip omode used =>
    intro f before
    rcases Nat.lt_succ_iff_lt_or_eq.mp before with earlier | same
    · exact scanned f earlier
    · rwa [Fin.ext same]
  case fileallocEnd k ip omode after =>
    intro f
    exact scanned f (f.isLt.trans_le after)
  case panic text panics => exact scanned
  case filecloseGive ff after => cases after <;> trivial
  all_goals trivial

/-- What another process does leaves the files that are in use so, while the lock is held. -/
theorem Effect.scanned_other {pc' : Pc Pid Inode Pipe} (effect : Effect p m pc m' next) (scanned : Scanned m pc')
    (apart : held pc' ≠ [] → held pc = []) : Scanned m' pc' := by
  have keeps (holding : held pc' ≠ []) (g : Slot) (used : (m.file g).ref ≠ 0) : (m'.file g).ref ≠ 0 := by
    refine effect.ref_ne_zero used fun after at' => ?_
    have none := apart holding
    rw [at'] at none
    cases none
  cases pc'
  case fileallocScan k ip omode =>
    intro f before
    exact keeps (by simp [held]) f (scanned f before)
  case fileallocUnlock g ip omode =>
    cases g with
    | none =>
      intro f
      exact keeps (by simp [held]) f (scanned f)
    | some g => trivial
  all_goals trivial

theorem scanned_of_target (target : (instr p pc).target = some next) : Scanned m next := by
  cases pc
  case fileallocLock ip omode =>
    cases target
    intro f before
    cases before
  case filedupUnlock g after => cases after <;> cases target <;> trivial
  case filecloseUnlock ff after =>
    cases ff with
    | none => cases after <;> cases target <;> trivial
    | some ff => cases target; trivial
  case fileallocUnlock g ip omode => cases g <;> cases target <;> trivial
  case filedupLock | filecloseLock => cases target; trivial
  all_goals cases target

theorem result_of_target (target : (instr p pc).target = some next) {fd : Fd} (result : next.result = some (fd, f)) :
    pc.result = some (fd, f) := by
  cases pc
  case filedupLock g after =>
    cases target
    cases after with
    | sysDup => exact result
    | fork => cases result
  case filedupUnlock g after => cases after <;> cases target <;> cases result
  case filecloseUnlock ff after =>
    cases ff with
    | none => cases after <;> cases target <;> cases result
    | some ff => cases target; cases result
  case fileallocUnlock g ip omode => cases g <;> cases target <;> cases result
  case filecloseLock | fileallocLock => cases target; cases result
  all_goals cases target

/-- A process comes to return a descriptor that was the lowest free one. -/
theorem Effect.reserved (effect : Effect p m pc m' next)
    (reserved : ∀ fd g, pc.result = some (fd, g) → Reserved (m.ofile p) fd g) {fd : Fd}
    (result : next.result = some (fd, f)) : Reserved (m'.ofile p) fd f := by
  cases effect
  case dup src fd' g here lowest =>
    cases result
    have stored := reserved_of_lowest lowest f
    simpa only [Memory.setOfile, Function.update_self] using stored
  case openFdSome g ip omode fd' lowest =>
    cases result
    have stored := reserved_of_lowest lowest f
    simpa only [Memory.setOfile, Function.update_self] using stored
  case filedupRef g after live =>
    cases after with
    | sysDup fd' =>
      cases result
      exact reserved fd f rfl
    | fork => cases result
  case filecloseGive ff after => cases after <;> cases result
  case panic text panics => exact reserved fd f result
  all_goals cases result

/-- A process comes to return a descriptor when it stores its file there, where the lowest
free place was. -/
theorem Effect.result_cases (effect : Effect p m pc m' next) {fd : Fd} (result : next.result = some (fd, f)) :
    pc.result = some (fd, f) ∨ pc.result = none ∧ Lowest (m.ofile p) fd := by
  cases effect
  case dup src fd' g here lowest =>
    cases result
    exact Or.inr ⟨rfl, lowest⟩
  case openFdSome g ip omode fd' lowest =>
    cases result
    exact Or.inr ⟨rfl, lowest⟩
  case filedupRef g after live =>
    cases after with
    | sysDup fd' => exact Or.inl result
    | fork => cases result
  case filecloseGive ff after => cases after <;> cases result
  case panic text panics => exact Or.inl result
  all_goals cases result

/-- What another process does to the descriptors leaves the reserved one alone. -/
theorem Effect.reserved_other {q : Pid} {fd : Fd} (effect : Effect p m pc m' next) (other : q ≠ p)
    (reserved : Reserved (m.ofile q) fd f) : Reserved (m'.ofile q) fd f := by
  rcases effect.ofile_cases other with same | ⟨g, fd', _, empty, stored⟩
  · rwa [same]
  · rw [stored]
    exact reserved.store empty

end

section
variable {s s' : State Pid Inode Pipe} {p : Pid} {ok : State Pid Inode Pipe → Pid × Input Pid Inode Pipe → Prop}

theorem owned_of_reach (reach : ((program Pid Inode Pipe).system Boot).ReachUnder ok s) : s.Owned fun _ => held :=
  Program.owned_of_reach disciplined
    (fun _ boot => Threads.owned_start boot.owner fun q => ⟨.user, boot.thread q, rfl⟩) reach

/-- At most one process is at a statement that holds the lock. -/
theorem apart_of_reach (reach : ((program Pid Inode Pipe).system Boot).ReachUnder ok s) {q : Pid} (other : q ≠ p)
    (holding : held (s.pc q) ≠ []) : held (s.pc p) = [] := by
  by_contra both
  have owned := owned_of_reach reach
  have one (r : Pid) (some' : held (s.pc r) ≠ []) : Lock.ftable ∈ held (s.pc r) := by
    obtain ⟨l, member⟩ := List.exists_mem_of_ne_nil _ some'
    cases l
    exact member
  exact other (owned.unique_run (running_of_reach reach q) (running_of_reach reach p) (one q holding) (one p both))

theorem scanned_of_reach (reach : ((program Pid Inode Pipe).system Boot).ReachUnder ok s) (q : Pid) :
    Scanned s.mem (s.pc q) := by
  refine reach.invariant (motive := fun s => ∀ q, Scanned s.mem (s.pc q)) (fun s boot q => ?_) ?_ q
  · rw [Threads.pc_of_run (boot.thread q)]
    trivial
  intro s s' label earlier scanned _ moved q
  obtain ⟨live, step⟩ := Program.step_of_next moved
  obtain ⟨next, moves, ⟨same, target⟩ | effect⟩ := step_cases (running_of_reach earlier) step
  · rcases update_cases moves q with ⟨rfl, now⟩ | ⟨_, now⟩ <;> rw [now]
    · exact scanned_of_target target
    · rw [same]
      exact scanned q
  · rcases update_cases moves q with ⟨rfl, now⟩ | ⟨other, now⟩ <;> rw [now]
    · exact effect.scanned (scanned _)
    · exact effect.scanned_other (scanned q) (apart_of_reach earlier other)

theorem reserved_of_reach (reach : ((program Pid Inode Pipe).system Boot).ReachUnder ok s) {q : Pid} {fd : Fd}
    {f : Slot} (result : (s.pc q).result = some (fd, f)) : Reserved (s.mem.ofile q) fd f := by
  refine reach.invariant
    (motive := fun s => ∀ q fd f, (s.pc q).result = some (fd, f) → Reserved (s.mem.ofile q) fd f)
    (fun s boot q fd f result => ?_) ?_ q fd f result
  · rw [Threads.pc_of_run (boot.thread q)] at result
    cases result
  intro s s' label earlier reserved _ moved q fd f result
  obtain ⟨live, step⟩ := Program.step_of_next moved
  obtain ⟨next, moves, ⟨same, target⟩ | effect⟩ := step_cases (running_of_reach earlier) step
  · rw [same]
    rcases update_cases moves q with ⟨rfl, now⟩ | ⟨_, now⟩ <;> rw [now] at result
    · exact reserved _ fd f (result_of_target target result)
    · exact reserved q fd f result
  · rcases update_cases moves q with ⟨rfl, now⟩ | ⟨other, now⟩ <;> rw [now] at result
    · exact effect.reserved (reserved _) result
    · exact effect.reserved_other other (reserved q fd f result)

/-- Where the descriptor of a call comes from: an earlier statement of the same call found
it free and every lower one taken. -/
theorem result_origin {path : List (State Pid Inode Pipe × Pid × Input Pid Inode Pipe)}
    (run : ((program Pid Inode Pipe).system Boot).Run path s) {q : Pid} {fd : Fd} {f : Slot}
    (result : (s.pc q).result = some (fd, f)) :
    ∃ after r input before, path = after ++ (r, q, input) :: before ∧ (r.pc q).result = none ∧
      Lowest (r.mem.ofile q) fd ∧ ∀ step ∈ after, (step.1.pc q).result = some (fd, f) := by
  induction run with
  | start boot =>
    rw [Threads.pc_of_run (boot.thread q)] at result
    cases result
  | @next path s t label earlier moved ih =>
    have lift (still : (s.pc q).result = some (fd, f)) : ∃ after r input before,
        (s, label) :: path = after ++ (r, q, input) :: before ∧ (r.pc q).result = none ∧
          Lowest (r.mem.ofile q) fd ∧ ∀ step ∈ after, (step.1.pc q).result = some (fd, f) := by
      obtain ⟨after, r, input, before, split, none, lowest, since⟩ := ih still
      exact ⟨(s, label) :: after, r, input, before, by rw [split, List.cons_append], none, lowest,
        List.forall_mem_cons.mpr ⟨still, since⟩⟩
    have reached : ((program Pid Inode Pipe).system Boot).Reach s := earlier.reachUnder fun _ _ => trivial
    obtain ⟨_, step⟩ := Program.step_of_next moved
    obtain ⟨next, moves, ⟨_, target⟩ | effect⟩ := step_cases (running_of_reach reached) step
    · rcases update_cases moves q with ⟨rfl, now⟩ | ⟨_, now⟩ <;> rw [now] at result
      · exact lift (result_of_target target result)
      · exact lift result
    · rcases update_cases moves q with ⟨rfl, now⟩ | ⟨_, now⟩ <;> rw [now] at result
      · rcases effect.result_cases result with still | ⟨none, lowest⟩
        · exact lift still
        · exact ⟨[], s, label.2, path, rfl, none, lowest, by simp⟩
      · exact lift result

end
end DeviceProgramming.OpenFiles
