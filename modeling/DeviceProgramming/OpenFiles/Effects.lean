import DeviceProgramming.Machine.Ownership
import DeviceProgramming.OpenFiles.Table

namespace DeviceProgramming.OpenFiles

open Xv6.Sysfile (Proc argint argptr argstr)

variable {Pid Inode Pipe : Type*} [DecidableEq Pid] [DecidableEq Inode] [DecidableEq Pipe]

/-- At most the offset of one file differs. -/
def Memory.Offset (m : Memory Pid Inode Pipe) (f : Slot) (m' : Memory Pid Inode Pipe) : Prop :=
  m' = m ∨ ∃ r, m' = m.addOff f r

/-- Where the file table or a file is not as it should be, and the text of the panic. -/
inductive Panics (m : Memory Pid Inode Pipe) : Pc Pid Inode Pipe → String → Prop
  | filedup {f after} : (m.file f).ref < 1 → Panics m (.filedupRef f after) "filedup"
  | fileclose {f after} : (m.file f).ref < 1 → Panics m (.filecloseRef f after) "fileclose"
  | fileread {f} : (m.file f).type = .none → Panics m (.fileread f) "fileread"
  | filewrite {f n} : (m.file f).type = .none → Panics m (.filewrite f n) "filewrite"

/-- The first free descriptor. -/
def Lowest (ofile : Fd → Option Slot) (fd : Fd) : Prop := ofile fd = none ∧ ∀ lower < fd, ofile lower ≠ none

/-- What an executed statement of process `p` does to the memory and where it leads. -/
inductive Effect (p : Pid) (m : Memory Pid Inode Pipe) :
    Pc Pid Inode Pipe → Memory Pid Inode Pipe → Pc Pid Inode Pipe → Prop
  | fail : Effect p m .user m (.ret (-1))
  | dup {src fd f} : m.ofile p src = some f → Lowest (m.ofile p) fd →
      Effect p m .user (m.setOfile p (Function.update (m.ofile p) fd (some f))) (.filedupLock f (.sysDup fd))
  | read {fd f} : m.ofile p fd = some f → Effect p m .user m (.fileread f)
  | write {fd f n} : m.ofile p fd = some f → Effect p m .user m (.filewrite f n)
  | fstat {fd f} : m.ofile p fd = some f → Effect p m .user m (.filestat f)
  | close {fd f} : m.ofile p fd = some f →
      Effect p m .user (m.setOfile p (Function.update (m.ofile p) fd none)) (.filecloseLock f (.ret 0))
  | openCall {omode} : Effect p m .user m (.openPath omode)
  | pipeCall : Effect p m .user m .pipeAlloc
  | forkNone : Effect p m .user m (.ret 0)
  | fork {child fd f} : m.ofile p fd = some f → m.ofile child fd = none →
      Effect p m .user m (.filedupLock f (.fork child fd))
  | ret {val} : Effect p m (.ret val) { m with ret := Function.update m.ret p val } .user
  | panic {pc text} : Panics m pc text → Effect p m pc (m.panic text pc).1 pc
  | short {f n i m'} : m.Offset f m' → Effect p m (.filewriteLoop f n i)
      (m'.panic "short filewrite" (.filewriteLoop f n i)).1 (.filewriteLoop f n i)
  | filedupRef {f after} : 1 ≤ (m.file f).ref →
      Effect p m (.filedupRef f after) (m.setFile f { m.file f with ref := (m.file f).ref + 1 })
        (.filedupUnlock f after)
  | forkStore {f child fd} : m.ofile child fd = none → Effect p m (.forkStore f child fd)
      (m.setOfile child (Function.update (m.ofile child) fd (some f))) (.ret 0)
  | filecloseMore {f after} : 1 < (m.file f).ref → Effect p m (.filecloseRef f after)
      (m.setFile f { m.file f with ref := (m.file f).ref - 1 }) (.filecloseUnlock none after)
  | filecloseLast {f after} : (m.file f).ref = 1 → Effect p m (.filecloseRef f after)
      (m.setFile f { m.file f with ref := 0, type := .none })
      (.filecloseUnlock (some { m.file f with ref := (m.file f).ref - 1 }) after)
  | filecloseGive {ff after} : Effect p m (.filecloseGive ff after) (m.filecloseGive ff) after.pc
  | openNone {omode} : Effect p m (.openPath omode) m (.ret (-1))
  | openCreate {omode ip} : Effect p m (.openPath omode) (m.take (.inode ip)) (.fileallocLock ip omode)
  | openName {omode ip} : Effect p m (.openPath omode) (m.take (.inode ip)) (.openType ip omode)
  | openDir {ip omode} : Effect p m (.openType ip omode) m (.openPut ip)
  | openFile {ip omode} : Effect p m (.openType ip omode) m (.fileallocLock ip omode)
  | openPut {ip} : Effect p m (.openPut ip) (m.give (.inode ip)) (.ret (-1))
  | fileallocTake {k : Slot} {ip omode} : (m.file k).ref = 0 → Effect p m (.fileallocScan k ip omode)
      (m.setFile k { m.file k with ref := 1 }) (.fileallocUnlock (some k) ip omode)
  | fileallocSkip {k : Slot} {ip omode} : (m.file k).ref ≠ 0 →
      Effect p m (.fileallocScan k ip omode) m (.fileallocScan (k + 1) ip omode)
  | fileallocEnd {k ip omode} : nfile ≤ k → Effect p m (.fileallocScan k ip omode) m (.fileallocUnlock none ip omode)
  | openFdNone {f ip omode} : (∀ fd, m.ofile p fd ≠ none) →
      Effect p m (.openFd f ip omode) m (.filecloseLock f (.put ip))
  | openFdSome {f ip omode fd} : Lowest (m.ofile p) fd → Effect p m (.openFd f ip omode)
      (m.setOfile p (Function.update (m.ofile p) fd (some f))) (.openSet fd f ip omode)
  | openSet {fd f ip omode} : Effect p m (.openSet fd f ip omode) (m.openSet f ip omode) (.ret fd)
  | pipeNone : Effect p m .pipeAlloc m (.ret (-1))
  | pipeSome {rf wf pipe m'} : rf ≠ wf → (m.file rf).ref = 0 → (m.file wf).ref = 0 →
      m.pipeAlloc (some (rf, wf, pipe)) = some (m', .pipeFd rf wf) → Effect p m .pipeAlloc m' (.pipeFd rf wf)
  | pipeFdNone {rf wf} : Effect p m (.pipeFd rf wf) m (.filecloseLock rf (.next wf))
  | pipeFdSome {rf wf fd0 fd1} : Lowest (m.ofile p) fd0 → Lowest (Function.update (m.ofile p) fd0 (some rf)) fd1 →
      Effect p m (.pipeFd rf wf)
        { m.setOfile p (Function.update (Function.update (m.ofile p) fd0 (some rf)) fd1 (some wf)) with
          stored := Function.update m.stored p (some (fd0, fd1)) } (.ret 0)
  | fileread {f r m'} : m.Offset f m' → Effect p m (.fileread f) m' (.ret r)
  | filewriteRet {f n r} : Effect p m (.filewrite f n) m (.ret r)
  | filewriteLoop {f n} : Effect p m (.filewrite f n) m (.filewriteLoop f n 0)
  | loopRet {f n i r m'} : m.Offset f m' → Effect p m (.filewriteLoop f n i) m' (.ret r)
  | loopNext {f n i r m'} : m.Offset f m' → Effect p m (.filewriteLoop f n i) m' (.filewriteLoop f n (i + r))
  | filestat {f r} : Effect p m (.filestat f) m (.ret r)

theorem fdalloc_eq_some {ofile ofile' : Fd → Option Slot} {f : Slot} {fd : Fd}
    (found : fdalloc ofile f = some (fd, ofile')) : Lowest ofile fd ∧ ofile' = Function.update ofile fd (some f) := by
  obtain ⟨first, at', same⟩ := Option.map_eq_some_iff.mp found
  cases same
  refine ⟨⟨by simpa using List.find?_some at', fun lower before taken => ?_⟩, rfl⟩
  obtain ⟨_, i, bound, here, others⟩ := List.find?_eq_some_iff_getElem.mp at'
  have place : (fd : ℕ) = i := by rw [← here]; simp
  have earlier := others lower (by rw [← place]; exact before)
  simp [taken] at earlier

theorem fdalloc_eq_none {ofile : Fd → Option Slot} {f : Slot} (full : fdalloc ofile f = none) (fd : Fd) :
    ofile fd ≠ none := by
  have all := List.find?_eq_none.mp (Option.map_eq_none_iff.mp full) fd (List.mem_finRange fd)
  simpa using all

theorem argfd_eq_some {ofile : Fd → Option Slot} {proc : Proc} {n : ℕ} {fd : Fd} {f : Slot}
    (fetched : argfd ofile proc n = some (fd, f)) : ofile fd = some f := by
  unfold argfd at fetched
  split at fetched
  · cases fetched
  · split at fetched
    · obtain ⟨slot, at', same⟩ := Option.map_eq_some_iff.mp fetched
      cases same
      exact at'
    · cases fetched

section
variable (p : Pid) (m : Memory Pid Inode Pipe) (proc : Proc)

theorem effect_sysDup : Effect p m .user (m.sysDup p proc).1 (m.sysDup p proc).2 := by
  unfold Memory.sysDup
  split
  · exact .fail
  · rename_i fetched
    split
    · exact .fail
    · rename_i found
      obtain ⟨lowest, rfl⟩ := fdalloc_eq_some found
      exact .dup (argfd_eq_some fetched) lowest

theorem effect_sysBytes {entry : Slot → ℤ → Pc Pid Inode Pipe}
    (uses : ∀ {fd f n}, m.ofile p fd = some f → Effect p m .user m (entry f n)) :
    Effect p m .user (m.sysBytes entry p proc).1 (m.sysBytes entry p proc).2 := by
  unfold Memory.sysBytes
  split
  · rename_i fetched _
    split
    · exact .fail
    · exact uses (argfd_eq_some fetched)
  · exact .fail

theorem effect_sysClose : Effect p m .user (m.sysClose p proc).1 (m.sysClose p proc).2 := by
  unfold Memory.sysClose
  split
  · exact .fail
  · rename_i fetched
    exact .close (argfd_eq_some fetched)

theorem effect_sysFstat : Effect p m .user (m.sysFstat p proc).1 (m.sysFstat p proc).2 := by
  unfold Memory.sysFstat
  split
  · exact .fail
  · rename_i fetched
    split
    · exact .fail
    · exact .fstat (argfd_eq_some fetched)

theorem effect_sysOpen : Effect p m .user (m.sysOpen proc).1 (m.sysOpen proc).2 := by
  unfold Memory.sysOpen
  split
  · exact .openCall
  · exact .fail

theorem effect_sysPipe : Effect p m .user (m.sysPipe proc).1 (m.sysPipe proc).2 := by
  unfold Memory.sysPipe
  split
  · exact .fail
  · exact .pipeCall

variable {p m proc} {m' : Memory Pid Inode Pipe} {next : Pc Pid Inode Pipe}

theorem effect_forkDup {child : Pid} {fd : Fd} (run : m.forkDup p child fd = some (m', next)) :
    Effect p m .user m' next := by
  unfold Memory.forkDup at run
  split at run
  · cases run
    exact .forkNone
  · rename_i at'
    split at run
    · rename_i empty
      cases run
      exact .fork at' empty
    · cases run

theorem effect_of_some {pc : Pc Pid Inode Pipe} {done : Memory Pid Inode Pipe × Pc Pid Inode Pipe}
    (effect : Effect p m pc done.1 done.2) (run : some done = some (m', next)) : Effect p m pc m' next := by
  cases Option.some.inj run
  exact effect

theorem effect_enter {call : SysCall Pid} (run : m.enter p proc call = some (m', next)) : Effect p m .user m' next := by
  cases call with
  | dup => exact effect_of_some (effect_sysDup ..) run
  | read => exact effect_of_some (effect_sysBytes p m proc .read) run
  | write => exact effect_of_some (effect_sysBytes p m proc .write) run
  | close => exact effect_of_some (effect_sysClose ..) run
  | fstat => exact effect_of_some (effect_sysFstat ..) run
  | «open» => exact effect_of_some (effect_sysOpen ..) run
  | pipe => exact effect_of_some (effect_sysPipe ..) run
  | fork => exact effect_forkDup run

theorem effect_filedupRef (p : Pid) (m : Memory Pid Inode Pipe) (f : Slot) (after : Dup Pid) :
    Effect p m (.filedupRef f after) (m.filedupRef f after).1 (m.filedupRef f after).2 := by
  unfold Memory.filedupRef
  split
  · rename_i low
    exact .panic (.filedup low)
  · exact .filedupRef (by omega)

theorem effect_filecloseRef (p : Pid) (m : Memory Pid Inode Pipe) (f : Slot) (after : Closing Inode) :
    Effect p m (.filecloseRef f after) (m.filecloseRef f after).1 (m.filecloseRef f after).2 := by
  unfold Memory.filecloseRef
  dsimp only
  split
  · rename_i low
    exact .panic (.fileclose low)
  · split
    · exact .filecloseMore (by omega)
    · exact .filecloseLast (by omega)

theorem effect_openPath (p : Pid) (m : Memory Pid Inode Pipe) (omode : BitVec 32) (ip : Option Inode) :
    Effect p m (.openPath omode) (m.openPath omode ip).1 (m.openPath omode ip).2 := by
  cases ip with
  | none => exact .openNone
  | some ip =>
    by_cases create : omode &&& oCreate ≠ 0
    · rw [Memory.openPath, if_pos create]
      exact .openCreate
    · rw [Memory.openPath, if_neg create]
      exact .openName

theorem effect_openType (p : Pid) (m : Memory Pid Inode Pipe) (ip : Inode) (omode : BitVec 32) (dir : Bool) :
    Effect p m (.openType ip omode) (m.openType ip omode dir).1 (m.openType ip omode dir).2 := by
  by_cases refused : dir ∧ omode ≠ oRdonly
  · rw [Memory.openType, if_pos refused]
    exact .openDir
  · rw [Memory.openType, if_neg refused]
    exact .openFile

theorem effect_fileallocScan (p : Pid) (m : Memory Pid Inode Pipe) (k : ℕ) (ip : Inode) (omode : BitVec 32) :
    Effect p m (.fileallocScan k ip omode) (m.fileallocScan k ip omode).1 (m.fileallocScan k ip omode).2 := by
  unfold Memory.fileallocScan
  split
  · rename_i within
    split
    · rename_i free
      exact .fileallocTake (k := ⟨k, within⟩) free
    · rename_i taken
      exact .fileallocSkip (k := ⟨k, within⟩) taken
  · exact .fileallocEnd (by omega)

theorem effect_openFd (p : Pid) (m : Memory Pid Inode Pipe) (f : Slot) (ip : Inode) (omode : BitVec 32) :
    Effect p m (.openFd f ip omode) (m.openFd p f ip omode).1 (m.openFd p f ip omode).2 := by
  unfold Memory.openFd
  split
  · rename_i full
    exact .openFdNone (fdalloc_eq_none full)
  · rename_i found
    obtain ⟨lowest, rfl⟩ := fdalloc_eq_some found
    exact .openFdSome lowest

theorem effect_pipeAlloc {ends : Option (Slot × Slot × Pipe)} (run : m.pipeAlloc ends = some (m', next)) :
    Effect p m .pipeAlloc m' next := by
  have done := run
  unfold Memory.pipeAlloc at run
  split at run
  · cases run
    exact .pipeNone
  · split at run
    · rename_i free
      obtain ⟨differ, read, write⟩ := free
      cases run
      exact .pipeSome differ read write done
    · cases run

theorem effect_pipeFd (p : Pid) (m : Memory Pid Inode Pipe) (rf wf : Slot) :
    Effect p m (.pipeFd rf wf) (m.pipeFd p rf wf).1 (m.pipeFd p rf wf).2 := by
  unfold Memory.pipeFd
  split
  · exact .pipeFdNone
  · rename_i fd0 _ found
    obtain ⟨lowest, rfl⟩ := fdalloc_eq_some found
    split
    · -- The only free descriptor is cleared again.
      have same : Function.update (Function.update (m.ofile p) fd0 (some rf)) fd0 none = m.ofile p := by
        rw [Function.update_idem, Function.update_eq_self_iff, lowest.1]
      rw [same]
      have back : m.setOfile p (m.ofile p) = m := by
        simp [Memory.setOfile]
      rw [back]
      exact .pipeFdNone
    · rename_i second
      obtain ⟨lowest', rfl⟩ := fdalloc_eq_some second
      exact .pipeFdSome lowest lowest'

omit [DecidableEq Pid] [DecidableEq Inode] [DecidableEq Pipe] in
theorem offset_of_read (m : Memory Pid Inode Pipe) (f : Slot) (r : ℤ) :
    m.Offset f (if r > 0 then m.addOff f r else m) := by
  split
  · exact Or.inr ⟨r, rfl⟩
  · exact Or.inl rfl

theorem effect_fileread (p : Pid) (m : Memory Pid Inode Pipe) (f : Slot) (r : ℤ) :
    Effect p m (.fileread f) (m.fileread f r).1 (m.fileread f r).2 := by
  unfold Memory.fileread
  split
  · exact .fileread (Or.inl rfl)
  · split
    · exact .fileread (Or.inl rfl)
    · exact .fileread (offset_of_read m f r)
    · rename_i none
      exact .panic (.fileread none)

theorem effect_filewrite (p : Pid) (m : Memory Pid Inode Pipe) (f : Slot) (n r : ℤ) :
    Effect p m (.filewrite f n) (m.filewrite f n r).1 (m.filewrite f n r).2 := by
  unfold Memory.filewrite
  split
  · exact .filewriteRet
  · split
    · exact .filewriteRet
    · exact .filewriteLoop
    · rename_i none
      exact .panic (.filewrite none)

theorem effect_filewriteLoop (p : Pid) (m : Memory Pid Inode Pipe) (f : Slot) (n i r : ℤ) :
    Effect p m (.filewriteLoop f n i) (m.filewriteLoop f n i r).1 (m.filewriteLoop f n i r).2 := by
  unfold Memory.filewriteLoop
  split
  · dsimp only
    generalize (if n - i > Memory.writeMax then Memory.writeMax else n - i) = n1
    by_cases negative : r < 0
    · rw [if_pos negative]
      exact .loopRet (offset_of_read m f r)
    · rw [if_neg negative]
      split
      · exact .short (offset_of_read m f r)
      · exact .loopNext (offset_of_read m f r)
  · exact .loopRet (Or.inl rfl)

end

/-- Every executed statement is one of these branches. -/
theorem effect_of_exec {p : Pid} {pc next : Pc Pid Inode Pipe} {input : Input Pid Inode Pipe}
    {m m' : Memory Pid Inode Pipe}
    {effect : Input Pid Inode Pipe → Memory Pid Inode Pipe → Option (Memory Pid Inode Pipe × Pc Pid Inode Pipe)}
    (here : instr p pc = .exec effect) (run : effect input m = some (m', next)) : Effect p m pc m' next := by
  cases pc <;> cases here
  case user =>
    cases input with
    | call call proc => exact effect_enter run
    | path | type | pipes | bytes => cases run
  case ret => cases run; exact .ret
  case filedupRef f after => exact effect_of_some (effect_filedupRef ..) run
  case forkStore f child fd =>
    dsimp only [Memory.forkStore] at run
    split at run
    · rename_i empty
      cases run
      exact .forkStore empty
    · cases run
  case filecloseRef f after => exact effect_of_some (effect_filecloseRef ..) run
  case filecloseGive ff after => cases run; exact .filecloseGive
  case openPath omode =>
    cases input with
    | path ip => exact effect_of_some (effect_openPath ..) run
    | call | type | pipes | bytes => cases run
  case openType ip omode =>
    cases input with
    | type dir => exact effect_of_some (effect_openType ..) run
    | call | path | pipes | bytes => cases run
  case openPut ip => cases run; exact .openPut
  case fileallocScan k ip omode => exact effect_of_some (effect_fileallocScan ..) run
  case openFd f ip omode => exact effect_of_some (effect_openFd ..) run
  case openSet fd f ip omode => cases run; exact .openSet
  case pipeAlloc =>
    cases input with
    | pipes ends => exact effect_pipeAlloc run
    | call | path | type | bytes => cases run
  case pipeFd rf wf => exact effect_of_some (effect_pipeFd ..) run
  case fileread f =>
    cases input with
    | bytes r => exact effect_of_some (effect_fileread ..) run
    | call | path | type | pipes => cases run
  case filewrite f n =>
    cases input with
    | bytes r => exact effect_of_some (effect_filewrite ..) run
    | call | path | type | pipes => cases run
  case filewriteLoop f n i =>
    cases input with
    | bytes r => exact effect_of_some (effect_filewriteLoop ..) run
    | call | path | type | pipes => cases run
  case filestat f => cases run; exact .filestat

theorem awake : (program Pid Inode Pipe).Awake where
  sleep {_ _ chan} := nomatch chan
  wakeup {_ _ chan} := nomatch chan

variable {s s' : State Pid Inode Pipe} {p : Pid} {input : Input Pid Inode Pipe}

/-- A step passes a lock operation or executes a statement. -/
theorem step_cases (running : ∀ q, s.thread q = .run (s.pc q)) (step : (program Pid Inode Pipe).Step p input s s') :
    ∃ next, s'.pc = Function.update s.pc p next ∧
      ((s'.mem = s.mem ∧ (instr p (s.pc p)).target = some next) ∨ Effect p s.mem (s.pc p) s'.mem next) := by
  obtain ⟨next, done, moved⟩ := awake.step_cases running step
  refine ⟨next, moved, ?_⟩
  cases done with
  | acquire here _ same | release here same =>
    refine Or.inl ⟨same, ?_⟩
    change ((program Pid Inode Pipe).instr p (s.pc p)).target = some next
    rw [here]
    rfl
  | exec here run => exact Or.inr (effect_of_exec here run)

theorem running_of_reach {ok : State Pid Inode Pipe → Pid × Input Pid Inode Pipe → Prop}
    (reach : ((program Pid Inode Pipe).system Boot).ReachUnder ok s) (q : Pid) : s.thread q = .run (s.pc q) :=
  awake.running_of_reach (fun _ boot u => by rw [Threads.pc_of_run (boot.thread u), boot.thread u]) reach q

end DeviceProgramming.OpenFiles
