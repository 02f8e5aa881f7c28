import DeviceProgramming.OpenFiles.References

namespace DeviceProgramming.OpenFiles

variable {Pid Inode Pipe : Type*} [DecidableEq Pid] [DecidableEq Inode] [DecidableEq Pipe]

/-- The number of open files that refer to a target. -/
def inTable (m : Memory Pid Inode Pipe) (target : Target Inode Pipe) : ℕ :=
  countAt (fun f => decide (f.target = some target)) m.file

/-- 1 for a reference to a target, 0 for anything else. -/
def refers (own : Option (Target Inode Pipe)) (target : Target Inode Pipe) : ℕ := (decide (own = some target)).toNat

def Closing.carries (target : Target Inode Pipe) : Closing Inode → ℕ
  | put ip => refers (some (.inode ip)) target
  | _ => 0

/-- The references to a target that a process has in hand: the inode that `sys_open` has
got from `create` or `namei`, until it is in the table or given back, and what `fileclose` has
taken out of the table. -/
def Pc.carries (target : Target Inode Pipe) : Pc Pid Inode Pipe → ℕ
  | openType ip _ | openPut ip | fileallocLock ip _ | fileallocScan _ ip _ | fileallocUnlock _ ip _ | openFd _ ip _
  | openSet _ _ ip _ => refers (some (.inode ip)) target
  | filecloseLock _ after | filecloseRef _ after => after.carries target
  | filecloseUnlock ff after => refers (ff.bind File.target) target + after.carries target
  | filecloseGive ff after => refers ff.target target + after.carries target
  | _ => 0

section
variable {p : Pid} {pc next : Pc Pid Inode Pipe} {m m' : Memory Pid Inode Pipe} {f : Slot} {file : File Inode Pipe}

omit [DecidableEq Pid] [DecidableEq Inode] [DecidableEq Pipe] in
theorem target_of_none (none : file.type = .none) : file.target = Option.none := by
  rw [File.target, none]

omit [DecidableEq Pid] in
theorem inTable_setFile (m : Memory Pid Inode Pipe) (f : Slot) (file : File Inode Pipe) (target : Target Inode Pipe) :
    inTable (m.setFile f file) target + refers (m.file f).target target = inTable m target + refers file.target target :=
  countAt_update (fun f : File Inode Pipe => decide (f.target = some target)) m.file f file

omit [DecidableEq Pid] in
theorem inTable_same (same : file.target = (m.file f).target) (target : Target Inode Pipe) :
    inTable (m.setFile f file) target = inTable m target := by
  have moved := inTable_setFile m f file target
  rw [same] at moved
  omega

omit [DecidableEq Pid] in
theorem inTable_ref (m : Memory Pid Inode Pipe) (f : Slot) (ref : ℤ) (target : Target Inode Pipe) :
    inTable (m.setFile f { m.file f with ref := ref }) target = inTable m target := by
  have same : ({ m.file f with ref := ref } : File Inode Pipe).target = (m.file f).target := rfl
  exact inTable_same same target

omit [DecidableEq Pid] in
theorem inTable_off (m : Memory Pid Inode Pipe) (f : Slot) (off : BitVec 32) (target : Target Inode Pipe) :
    inTable (m.setFile f { m.file f with off := off }) target = inTable m target := by
  have same : ({ m.file f with off := off } : File Inode Pipe).target = (m.file f).target := rfl
  exact inTable_same same target

omit [DecidableEq Pid] in
theorem inTable_offset (moved : m.Offset f m') (target : Target Inode Pipe) : inTable m' target = inTable m target := by
  rcases moved with rfl | ⟨r, rfl⟩
  · rfl
  · exact inTable_off m f _ target

omit [DecidableEq Pid] [DecidableEq Inode] [DecidableEq Pipe] in
theorem history_offset (moved : m.Offset f m') : m'.taken = m.taken ∧ m'.given = m.given := by
  rcases moved with rfl | ⟨r, rfl⟩ <;> exact ⟨rfl, rfl⟩

omit [DecidableEq Pid] in
@[simp] theorem Closing.carries_pc (target : Target Inode Pipe) (after : Closing Inode) :
    (after.pc : Pc Pid Inode Pipe).carries target = after.carries target := by
  cases after <;> rfl

@[simp] theorem refers_none (t : Target Inode Pipe) : refers none t = 0 := rfl

/-- One more reference to a target has been taken or given back. -/
theorem count_update (count : Target Inode Pipe → ℕ) (target : Target Inode Pipe) (t : Target Inode Pipe) :
    Function.update count target (count target + 1) t = count t + refers (some target) t := by
  by_cases same : t = target
  · subst same
    simp [refers]
  · simp [refers, same, Ne.symm same]

omit [DecidableEq Pid] in
@[simp] theorem taken_take (target t : Target Inode Pipe) :
    (m.take target).taken t = m.taken t + refers (some target) t :=
  count_update ..

omit [DecidableEq Pid] in
@[simp] theorem given_give (target t : Target Inode Pipe) :
    (m.give target).given t = m.given t + refers (some target) t :=
  count_update ..

omit [DecidableEq Pid] in
/-- The reference that `sys_open` has in hand becomes that of the file. -/
theorem inTable_openSet (empty : (m.file f).type = .none) (ip : Inode) (omode : BitVec 32) (t : Target Inode Pipe) :
    inTable (m.openSet f ip omode) t = inTable m t + refers (some (.inode ip)) t := by
  have moved := inTable_setFile m f
    { m.file f with
      type := .inode
      ip := ip
      off := 0
      readable := !(omode &&& oWronly != 0)
      writable := omode &&& oWronly != 0 || omode &&& oRdwr != 0 } t
  rw [target_of_none empty] at moved
  exact moved

omit [DecidableEq Pid] in
/-- Two files that were none refer to the two ends of a pipe. -/
theorem inTable_two {rf wf : Slot} (differ : wf ≠ rf) (read : (m.file rf).type = .none) (write : (m.file wf).type = .none)
    (first second : File Inode Pipe) (t : Target Inode Pipe) :
    inTable ((m.setFile rf first).setFile wf second) t =
      inTable m t + refers first.target t + refers second.target t := by
  have one := inTable_setFile m rf first t
  have two := inTable_setFile (m.setFile rf first) wf second t
  have kept : (m.setFile rf first).file wf = m.file wf := Function.update_of_ne differ ..
  rw [target_of_none read, refers_none] at one
  rw [kept, target_of_none write, refers_none] at two
  omega

theorem carries_of_target (target : (instr p pc).target = some next) (t : Target Inode Pipe) :
    next.carries t = pc.carries t := by
  cases pc
  case filedupUnlock f after => cases after <;> cases target <;> rfl
  case filecloseUnlock ff after =>
    cases ff with
    | none =>
      cases target
      rw [Closing.carries_pc]
      exact (Nat.zero_add _).symm
    | some ff =>
      cases target
      rfl
  case fileallocUnlock g ip omode => cases g <;> cases target <;> rfl
  case filedupLock | filecloseLock | fileallocLock => cases target; rfl
  all_goals cases target

/-- What is taken is in hand or in the table until it is given back. -/
theorem Effect.balance (effect : Effect p m pc m' next) (calm : ∀ text, ¬ Panics m pc text)
    (free : ∀ g, (m.file g).ref = 0 → (m.file g).type = .none)
    (fresh : ∀ g, pc.fresh = some g → (m.file g).type = .none) (t : Target Inode Pipe) :
    m'.taken t + (m.given t + inTable m t + pc.carries t) =
      m.taken t + (m'.given t + inTable m' t + next.carries t) := by
  cases effect
  case panic text panics => exact absurd panics (calm text)
  case filedupRef f after live =>
    rw [inTable_ref m f]
    rfl
  case filecloseMore f after more =>
    rw [inTable_ref m f]
    simp [Pc.carries, Memory.setFile]
  case filecloseLast f after last =>
    -- The open file becomes what the process gives back.
    have moved := inTable_setFile m f { m.file f with ref := 0, type := .none } t
    have out : ({ m.file f with ref := 0, type := .none } : File Inode Pipe).target = none := rfl
    have kept : ({ m.file f with ref := (m.file f).ref - 1 } : File Inode Pipe).target = (m.file f).target := rfl
    rw [out, refers_none, add_zero] at moved
    simp only [Pc.carries, Option.bind_some, kept, Memory.setFile] at moved ⊢
    omega
  case filecloseGive ff after =>
    rw [Closing.carries_pc]
    unfold Memory.filecloseGive
    split
    · rename_i none
      simp only [Pc.carries, none, refers_none, zero_add]
    · rename_i target here
      simp only [given_give, Pc.carries, here]
      change _ = m.taken t + (m.given t + refers (some target) t + inTable m t + after.carries t)
      change m.taken t + _ = _
      omega
  case openCreate omode ip | openName omode ip =>
    rw [taken_take]
    change _ + (m.given t + inTable m t + 0) = m.taken t + (m.given t + inTable m t + refers (some (.inode ip)) t)
    omega
  case openPut ip =>
    rw [given_give]
    change m.taken t + (m.given t + inTable m t + refers (some (.inode ip)) t) =
      m.taken t + (m.given t + refers (some (.inode ip)) t + inTable m t + 0)
    omega
  case fileallocTake k ip omode zero =>
    rw [inTable_ref m k]
    rfl
  case openSet fd f ip omode =>
    rw [inTable_openSet (fresh f rfl)]
    change m.taken t + (m.given t + inTable m t + refers (some (.inode ip)) t) = m.taken t + (m.given t + _ + 0)
    omega
  case pipeSome rf wf pipe differ read write run =>
    rw [Memory.pipeAlloc, if_pos ⟨differ, read, write⟩] at run
    cases run
    have ends := inTable_two differ.symm (free rf read) (free wf write)
      { m.file rf with type := .pipe, ref := 1, readable := true, writable := false, pipe := pipe }
      { (Function.update m.file rf
          { m.file rf with type := .pipe, ref := 1, readable := true, writable := false, pipe := pipe }) wf with
        type := .pipe, ref := 1, readable := false, writable := true, pipe := pipe } t
    dsimp only [Pc.carries]
    rw [count_update _ _ t, count_update _ _ t]
    change _ = m.taken t + (m.given t + inTable ((m.setFile rf _).setFile wf _) t + 0)
    rw [ends]
    dsimp only [File.target]
    omega
  case short f n i m' moved =>
    have same := history_offset moved
    have kept := inTable_offset moved t
    change m'.taken t + (m.given t + inTable m t + 0) = m.taken t + (m'.given t + inTable m' t + 0)
    rw [same.1, same.2, kept]
  case fileread f r moved | loopRet f n i r moved | loopNext f n i r moved =>
    have same := history_offset moved
    rw [same.1, same.2, inTable_offset moved]
    rfl
  all_goals rfl

end

variable [Fintype Pid]

section
variable {s s' : State Pid Inode Pipe} {ok : State Pid Inode Pipe → Pid × Input Pid Inode Pipe → Prop}

theorem balance_of_reach (reach : ((program Pid Inode Pipe).system Boot).ReachUnder ok s) (t : Target Inode Pipe) :
    s.mem.taken t = s.mem.given t + inTable s.mem t + total (fun _ pc => pc.carries t) s.pc := by
  refine reach.invariant (motive := fun s => s.mem.taken t = s.mem.given t + inTable s.mem t +
    total (fun _ pc => pc.carries t) s.pc) (fun s boot => ?_) ?_
  · have user (q : Pid) : s.pc q = .user := Threads.pc_of_run (boot.thread q)
    have none : total (fun _ pc => Pc.carries t pc) s.pc = 0 := total_eq_zero.mpr fun q => by rw [user]; rfl
    have empty : inTable s.mem t = 0 := countAt_eq_zero.mpr fun f => by simp [target_of_none (boot.type f)]
    rw [boot.taken, boot.given, none, empty]
  intro s s' label earlier balance _ moved
  obtain ⟨live, step⟩ := Program.step_of_next moved
  obtain ⟨next, moves, ⟨same, target⟩ | effect⟩ := step_cases (running_of_reach earlier) step
  · have changed := total_update (fun _ pc => Pc.carries t pc) s.pc label.1 next
    have kept := carries_of_target target t
    rw [moves, same]
    omega
  · have inv := inv_of_reach earlier
    have changed := total_update (fun _ pc => Pc.carries t pc) s.pc label.1 next
    have step := effect.balance inv.not_panics inv.free (fun g fresh => (inv.fresh _ g fresh).1) t
    rw [moves]
    omega

end
end DeviceProgramming.OpenFiles
