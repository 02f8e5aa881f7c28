import DeviceProgramming.Machine.Awake
import DeviceProgramming.Xv6.Arguments

namespace DeviceProgramming.OpenFiles

open Xv6.Sysfile (Proc argint argptr argstr)

abbrev nofile : ℕ := 16

abbrev nfile : ℕ := 100

abbrev logSize : ℕ := 10

/-- A file descriptor, an index of `proc->ofile`. -/
abbrev Fd := Fin nofile

/-- An index of `ftable.file`. -/
abbrev Slot := Fin nfile

/-- `FD_NONE`, `FD_PIPE` and `FD_INODE`. -/
inductive FileType
  | none
  | pipe
  | inode
  deriving DecidableEq

structure File (Inode Pipe : Type*) where
  type : FileType
  ref : ℤ
  readable : Bool
  writable : Bool
  pipe : Pipe
  ip : Inode
  off : BitVec 32
  deriving DecidableEq

/-- What an open file refers to: an inode or an end of a pipe. -/
inductive Target (Inode Pipe : Type*)
  | inode (ip : Inode)
  | pipe (pipe : Pipe) (writable : Bool)
  deriving DecidableEq

def File.target {Inode Pipe : Type*} (f : File Inode Pipe) : Option (Target Inode Pipe) := match f.type with
  | .none => Option.none
  | .pipe => some (.pipe f.pipe f.writable)
  | .inode => some (.inode f.ip)

/-- The file table, the descriptors of every process, what its last call
returned and what its last `sys_pipe` stored in its memory. The last two fields
are history: how often `create`, `namei` or `pipealloc` has taken a reference to a
target, and how often `iput` or `pipeclose` has given one back. -/
structure Memory (Pid Inode Pipe : Type*) where
  file : Slot → File Inode Pipe
  ofile : Pid → Fd → Option Slot
  ret : Pid → ℤ
  stored : Pid → Option (Fd × Fd)
  panicked : Option String
  taken : Target Inode Pipe → ℕ
  given : Target Inode Pipe → ℕ

/-- The calls that use descriptors. `fork child fd` is what `fork` of `proc.c` does
with one descriptor: the child gets a duplicate. -/
inductive SysCall (Pid : Type*)
  | dup
  | read
  | write
  | close
  | fstat
  | open
  | pipe
  | fork (child : Pid) (fd : Fd)

/-- The outside choices: the call that a process makes with its memory, the inode
to which `create` or `namei` comes in `sys_open` and whether it is a directory,
what `pipealloc` allocates, and what a read or a write returns. -/
inductive Input (Pid Inode Pipe : Type*)
  | call (call : SysCall Pid) (proc : Proc)
  | path (ip : Option Inode)
  | type (dir : Bool)
  | pipes (ends : Option (Slot × Slot × Pipe))
  | bytes (r : ℤ)

/-- What comes after `filedup`: `sys_dup` returns, or `fork` stores the duplicate. -/
inductive Dup (Pid : Type*)
  | sysDup (fd : Fd)
  | fork (child : Pid) (fd : Fd)
  deriving DecidableEq

/-- What comes after `fileclose`: a return, or `sys_pipe` closes its other file, or
`sys_open` gives back the inode that it could not open. -/
inductive Closing (Inode : Type*)
  | ret (val : ℤ)
  | next (f : Slot)
  | put (ip : Inode)
  deriving DecidableEq

/-- The statements of `file.c` and of the calls of `sysfile.c` that use it. -/
inductive Pc (Pid Inode Pipe : Type*)
  | user
  | ret (val : ℤ)
  | filedupLock (f : Slot) (after : Dup Pid)
  | filedupRef (f : Slot) (after : Dup Pid)
  | filedupUnlock (f : Slot) (after : Dup Pid)
  | forkStore (f : Slot) (child : Pid) (fd : Fd)
  | filecloseLock (f : Slot) (after : Closing Inode)
  | filecloseRef (f : Slot) (after : Closing Inode)
  | filecloseUnlock (ff : Option (File Inode Pipe)) (after : Closing Inode)
  | filecloseGive (ff : File Inode Pipe) (after : Closing Inode)
  | openPath (omode : BitVec 32)
  | openType (ip : Inode) (omode : BitVec 32)
  | openPut (ip : Inode)
  | fileallocLock (ip : Inode) (omode : BitVec 32)
  | fileallocScan (k : ℕ) (ip : Inode) (omode : BitVec 32)
  | fileallocUnlock (f : Option Slot) (ip : Inode) (omode : BitVec 32)
  | openFd (f : Slot) (ip : Inode) (omode : BitVec 32)
  | openSet (fd : Fd) (f : Slot) (ip : Inode) (omode : BitVec 32)
  | pipeAlloc
  | pipeFd (rf wf : Slot)
  | fileread (f : Slot)
  | filewrite (f : Slot) (n : ℤ)
  | filewriteLoop (f : Slot) (n i : ℤ)
  | filestat (f : Slot)
  deriving DecidableEq

def Dup.pc {Pid Inode Pipe : Type*} (f : Slot) : Dup Pid → Pc Pid Inode Pipe
  | sysDup fd => .ret fd
  | fork child fd => .forkStore f child fd

def Closing.pc {Pid Inode Pipe : Type*} : Closing Inode → Pc Pid Inode Pipe
  | ret val => .ret val
  | next f => .filecloseLock f (.ret (-1))
  | put ip => .openPut ip

inductive Lock
  | ftable
  deriving DecidableEq

/-- The access modes of `fcntl.h`. -/
def oRdonly : BitVec 32 := 0x000

def oWronly : BitVec 32 := 0x001

def oRdwr : BitVec 32 := 0x002

def oCreate : BitVec 32 := 0x200

theorem toNat_lt_nofile {fd : ℤ} (within : 0 ≤ fd ∧ fd < nofile) : fd.toNat < nofile := by omega

/-- The descriptor and the file of argument `n`; `none` stands for -1. -/
def argfd (ofile : Fd → Option Slot) (proc : Proc) (n : ℕ) : Option (Fd × Slot) := match argint proc n with
  | none => none
  | some fd =>
    if within : 0 ≤ fd ∧ fd < nofile then
      (ofile ⟨fd.toNat, toNat_lt_nofile within⟩).map fun f => (⟨fd.toNat, toNat_lt_nofile within⟩, f)
    else none

/-- The first descriptor that is free, and the descriptors once it stands for `f`. -/
def fdalloc (ofile : Fd → Option Slot) (f : Slot) : Option (Fd × (Fd → Option Slot)) :=
  ((List.finRange nofile).find? fun fd => ofile fd = none).map fun fd => (fd, Function.update ofile fd (some f))

namespace Memory
variable {Pid Inode Pipe : Type*} [DecidableEq Pid] [DecidableEq Inode] [DecidableEq Pipe]
variable (m : Memory Pid Inode Pipe)

def setFile (f : Slot) (file : File Inode Pipe) : Memory Pid Inode Pipe :=
  { m with file := Function.update m.file f file }

def setOfile (p : Pid) (ofile : Fd → Option Slot) : Memory Pid Inode Pipe :=
  { m with ofile := Function.update m.ofile p ofile }

/-- The process stays where it is, with the locks that it holds. -/
def panic (text : String) (pc : Pc Pid Inode Pipe) : Memory Pid Inode Pipe × Pc Pid Inode Pipe :=
  ({ m with panicked := some text }, pc)

/-- One more reference to a target is in hand. -/
def take (target : Target Inode Pipe) : Memory Pid Inode Pipe :=
  { m with taken := Function.update m.taken target (m.taken target + 1) }

/-- `iput` or `pipeclose`. -/
def give (target : Target Inode Pipe) : Memory Pid Inode Pipe :=
  { m with given := Function.update m.given target (m.given target + 1) }

omit [DecidableEq Pid] in
@[simp] theorem file_take (target : Target Inode Pipe) : (m.take target).file = m.file := rfl

omit [DecidableEq Pid] in
@[simp] theorem file_give (target : Target Inode Pipe) : (m.give target).file = m.file := rfl

omit [DecidableEq Pid] in
@[simp] theorem ofile_take (target : Target Inode Pipe) : (m.take target).ofile = m.ofile := rfl

omit [DecidableEq Pid] in
@[simp] theorem ofile_give (target : Target Inode Pipe) : (m.give target).ofile = m.ofile := rfl

/-- The test of `filedup` and `f->ref++`, under the lock. -/
def filedupRef (f : Slot) (after : Dup Pid) : Memory Pid Inode Pipe × Pc Pid Inode Pipe :=
  if (m.file f).ref < 1 then m.panic "filedup" (.filedupRef f after)
  else (m.setFile f { m.file f with ref := (m.file f).ref + 1 }, .filedupUnlock f after)

/-- The test of `fileclose` and `--f->ref`, under the lock; the last reference
takes what the file was with it. -/
def filecloseRef (f : Slot) (after : Closing Inode) : Memory Pid Inode Pipe × Pc Pid Inode Pipe :=
  let ff := { m.file f with ref := (m.file f).ref - 1 }
  if (m.file f).ref < 1 then m.panic "fileclose" (.filecloseRef f after)
  else if ff.ref > 0 then (m.setFile f ff, .filecloseUnlock none after)
  else (m.setFile f { ff with ref := 0, type := .none }, .filecloseUnlock (some ff) after)

/-- `pipeclose` or `iput` with what the closed file was. -/
def filecloseGive (ff : File Inode Pipe) : Memory Pid Inode Pipe := match ff.target with
  | none => m
  | some target => m.give target

/-- `create` or `namei` in `sys_open`, which come back with a reference to the inode
if there is one. Only what `namei` finds can be a directory. -/
def openPath (omode : BitVec 32) : Option Inode → Memory Pid Inode Pipe × Pc Pid Inode Pipe
  | none => (m, .ret (-1))
  | some ip => (m.take (.inode ip), if omode &&& oCreate ≠ 0 then .fileallocLock ip omode else .openType ip omode)

/-- A directory is opened for reading only. -/
def openType (ip : Inode) (omode : BitVec 32) (dir : Bool) : Memory Pid Inode Pipe × Pc Pid Inode Pipe :=
  (m, if dir ∧ omode ≠ oRdonly then .openPut ip else .fileallocLock ip omode)

/-- One turn of the loop of `filealloc`, and where it goes on. -/
def fileallocScan (k : ℕ) (ip : Inode) (omode : BitVec 32) : Memory Pid Inode Pipe × Pc Pid Inode Pipe :=
  if within : k < nfile then
    if (m.file ⟨k, within⟩).ref = 0 then
      (m.setFile ⟨k, within⟩ { m.file ⟨k, within⟩ with ref := 1 }, .fileallocUnlock (some ⟨k, within⟩) ip omode)
    else (m, .fileallocScan (k + 1) ip omode)
  else (m, .fileallocUnlock none ip omode)

/-- `fdalloc` in `sys_open`; without a descriptor the file is closed again and the
inode given back. -/
def openFd (p : Pid) (f : Slot) (ip : Inode) (omode : BitVec 32) : Memory Pid Inode Pipe × Pc Pid Inode Pipe :=
  match fdalloc (m.ofile p) f with
  | none => (m, .filecloseLock f (.put ip))
  | some (fd, ofile) => (m.setOfile p ofile, .openSet fd f ip omode)

/-- The fields that `sys_open` sets in the end. -/
def openSet (f : Slot) (ip : Inode) (omode : BitVec 32) : Memory Pid Inode Pipe :=
  m.setFile f { m.file f with
    type := .inode
    ip := ip
    off := 0
    readable := !(omode &&& oWronly != 0)
    writable := omode &&& oWronly != 0 || omode &&& oRdwr != 0 }

/-- What is assumed of `pipealloc` of `pipe.c`, which is not part of the source, when it
succeeds: it has allocated the two files with `filealloc`. -/
structure Allocates (rf wf : Slot) : Prop where
  differ : rf ≠ wf
  read : (m.file rf).ref = 0
  write : (m.file wf).ref = 0

instance (rf wf : Slot) : Decidable (m.Allocates rf wf) :=
  decidable_of_iff (rf ≠ wf ∧ (m.file rf).ref = 0 ∧ (m.file wf).ref = 0)
    ⟨fun ⟨differ, read, write⟩ => ⟨differ, read, write⟩, fun free => ⟨free.differ, free.read, free.write⟩⟩

/-- What `pipealloc` may do: it fails, or allocates two files for the ends of a pipe. -/
def pipeAlloc (ends : Option (Slot × Slot × Pipe)) : Option (Memory Pid Inode Pipe × Pc Pid Inode Pipe) :=
  match ends with
  | none => some (m, .ret (-1))
  | some (rf, wf, pipe) =>
    if m.Allocates rf wf then
      let file := Function.update m.file rf
        { m.file rf with type := .pipe, ref := 1, readable := true, writable := false, pipe := pipe }
      let taken := Function.update m.taken (.pipe pipe false) (m.taken (.pipe pipe false) + 1)
      some ({ m with
        file := Function.update file wf
          { file wf with type := .pipe, ref := 1, readable := false, writable := true, pipe := pipe }
        taken := Function.update taken (.pipe pipe true) (taken (.pipe pipe true) + 1) }, .pipeFd rf wf)
    else none

/-- The two calls of `fdalloc` in `sys_pipe`; without two descriptors the first one
is cleared and both files are closed. -/
def pipeFd (p : Pid) (rf wf : Slot) : Memory Pid Inode Pipe × Pc Pid Inode Pipe := match fdalloc (m.ofile p) rf with
  | none => (m, .filecloseLock rf (.next wf))
  | some (fd0, ofile) => match fdalloc ofile wf with
    | none => (m.setOfile p (Function.update ofile fd0 none), .filecloseLock rf (.next wf))
    | some (fd1, ofile) =>
      ({ m.setOfile p ofile with stored := Function.update m.stored p (some (fd0, fd1)) }, .ret 0)

/-- `f->off += r`. -/
def addOff (f : Slot) (r : ℤ) : Memory Pid Inode Pipe :=
  m.setFile f { m.file f with off := (m.file f).off + BitVec.ofInt 32 r }

/-- `fileread`, where `r` is what `piperead` or `readi` returns. -/
def fileread (f : Slot) (r : ℤ) : Memory Pid Inode Pipe × Pc Pid Inode Pipe :=
  if (m.file f).readable = false then (m, .ret (-1))
  else match (m.file f).type with
    | .pipe => (m, .ret r)
    | .inode => (if r > 0 then m.addOff f r else m, .ret r)
    | .none => m.panic "fileread" (.fileread f)

/-- `filewrite` before its loop, where `r` is what `pipewrite` returns. -/
def filewrite (f : Slot) (n r : ℤ) : Memory Pid Inode Pipe × Pc Pid Inode Pipe :=
  if (m.file f).writable = false then (m, .ret (-1))
  else match (m.file f).type with
    | .pipe => (m, .ret r)
    | .inode => (m, .filewriteLoop f n 0)
    | .none => m.panic "filewrite" (.filewrite f n)

/-- The most bytes that one transaction writes. -/
def writeMax : ℤ := ((logSize - 1 - 1 - 2) / 2 * 512 : ℕ)

/-- One turn of the loop of `filewrite`, where `r` is what `writei` returns. -/
def filewriteLoop (f : Slot) (n i r : ℤ) : Memory Pid Inode Pipe × Pc Pid Inode Pipe :=
  if i < n then
    let n1 := if n - i > writeMax then writeMax else n - i
    let wrote := if r > 0 then m.addOff f r else m
    if r < 0 then (wrote, .ret (if i = n then n else -1))
    else if r ≠ n1 then wrote.panic "short filewrite" (.filewriteLoop f n i)
    else (wrote, .filewriteLoop f n (i + r))
  else (m, .ret (if i = n then n else -1))

def sysDup (p : Pid) (proc : Proc) : Memory Pid Inode Pipe × Pc Pid Inode Pipe := match argfd (m.ofile p) proc 0 with
  | none => (m, .ret (-1))
  | some (_, f) => match fdalloc (m.ofile p) f with
    | none => (m, .ret (-1))
    | some (fd, ofile) => (m.setOfile p ofile, .filedupLock f (.sysDup fd))

/-- `sys_read` and `sys_write` up to the call of `fileread` or `filewrite`. -/
def sysBytes (entry : Slot → ℤ → Pc Pid Inode Pipe) (p : Pid) (proc : Proc) :
    Memory Pid Inode Pipe × Pc Pid Inode Pipe :=
  match argfd (m.ofile p) proc 0, argint proc 2 with
  | some (_, f), some n => if (argptr proc 1 n).isNone then (m, .ret (-1)) else (m, entry f n)
  | _, _ => (m, .ret (-1))

def sysRead : Pid → Proc → Memory Pid Inode Pipe × Pc Pid Inode Pipe := m.sysBytes fun f _ => .fileread f

def sysWrite : Pid → Proc → Memory Pid Inode Pipe × Pc Pid Inode Pipe := m.sysBytes .filewrite

def sysClose (p : Pid) (proc : Proc) : Memory Pid Inode Pipe × Pc Pid Inode Pipe := match argfd (m.ofile p) proc 0 with
  | none => (m, .ret (-1))
  | some (fd, f) => (m.setOfile p (Function.update (m.ofile p) fd none), .filecloseLock f (.ret 0))

/-- The size of `struct stat` of `stat.h`. -/
abbrev statSize : ℤ := 20

def sysFstat (p : Pid) (proc : Proc) : Memory Pid Inode Pipe × Pc Pid Inode Pipe := match argfd (m.ofile p) proc 0 with
  | none => (m, .ret (-1))
  | some (_, f) => if (argptr proc 1 statSize).isNone then (m, .ret (-1)) else (m, .filestat f)

def sysOpen (proc : Proc) : Memory Pid Inode Pipe × Pc Pid Inode Pipe := match argstr proc 0, argint proc 1 with
  | some _, some omode => (m, .openPath (BitVec.ofInt 32 omode))
  | _, _ => (m, .ret (-1))

def sysPipe (proc : Proc) : Memory Pid Inode Pipe × Pc Pid Inode Pipe :=
  if (argptr proc 0 8).isNone then (m, .ret (-1)) else (m, .pipeAlloc)

/-- What is assumed of `fork` of `proc.c`, which is not part of the source: the child that
it makes has nothing at the descriptor that it copies. -/
def Unused (child : Pid) (fd : Fd) : Prop := m.ofile child fd = none

instance (child : Pid) (fd : Fd) : Decidable (m.Unused child fd) := inferInstanceAs (Decidable (m.ofile child fd = none))

def forkDup (p child : Pid) (fd : Fd) : Option (Memory Pid Inode Pipe × Pc Pid Inode Pipe) := match m.ofile p fd with
  | none => some (m, .ret 0)
  | some f => if m.Unused child fd then some (m, .filedupLock f (.fork child fd)) else none

def forkStore (f : Slot) (child : Pid) (fd : Fd) : Option (Memory Pid Inode Pipe × Pc Pid Inode Pipe) :=
  if m.Unused child fd then
    some (m.setOfile child (Function.update (m.ofile child) fd (some f)), .ret 0)
  else none

/-- A process in user mode makes a call. -/
def enter (p : Pid) (proc : Proc) : SysCall Pid → Option (Memory Pid Inode Pipe × Pc Pid Inode Pipe)
  | .dup => some (m.sysDup p proc)
  | .read => some (m.sysRead p proc)
  | .write => some (m.sysWrite p proc)
  | .close => some (m.sysClose p proc)
  | .fstat => some (m.sysFstat p proc)
  | .open => some (m.sysOpen proc)
  | .pipe => some (m.sysPipe proc)
  | .fork child fd => m.forkDup p child fd

end Memory

section
variable {Pid Inode Pipe : Type*} [DecidableEq Pid] [DecidableEq Inode] [DecidableEq Pipe]

def instr (p : Pid) :
    Pc Pid Inode Pipe → Instr Lock Empty (Memory Pid Inode Pipe) (Pc Pid Inode Pipe) (Input Pid Inode Pipe)
  | .user => .exec fun input m => match input with
    | .call call proc => m.enter p proc call
    | _ => none
  | .ret val => .exec fun _ m => some ({ m with ret := Function.update m.ret p val }, .user)
  | .filedupLock f after => .acquire .ftable (.filedupRef f after)
  | .filedupRef f after => .exec fun _ m => some (m.filedupRef f after)
  | .filedupUnlock f after => .release .ftable (after.pc f)
  | .forkStore f child fd => .exec fun _ m => m.forkStore f child fd
  | .filecloseLock f after => .acquire .ftable (.filecloseRef f after)
  | .filecloseRef f after => .exec fun _ m => some (m.filecloseRef f after)
  | .filecloseUnlock ff after => .release .ftable (match ff with
    | none => after.pc
    | some ff => .filecloseGive ff after)
  | .filecloseGive ff after => .exec fun _ m => some (m.filecloseGive ff, after.pc)
  | .openPath omode => .exec fun input m => match input with
    | .path ip => some (m.openPath omode ip)
    | _ => none
  | .openType ip omode => .exec fun input m => match input with
    | .type dir => some (m.openType ip omode dir)
    | _ => none
  | .openPut ip => .exec fun _ m => some (m.give (.inode ip), .ret (-1))
  | .fileallocLock ip omode => .acquire .ftable (.fileallocScan 0 ip omode)
  | .fileallocScan k ip omode => .exec fun _ m => some (m.fileallocScan k ip omode)
  | .fileallocUnlock f ip omode => .release .ftable (match f with
    | none => .openPut ip
    | some f => .openFd f ip omode)
  | .openFd f ip omode => .exec fun _ m => some (m.openFd p f ip omode)
  | .openSet fd f ip omode => .exec fun _ m => some (m.openSet f ip omode, .ret fd)
  | .pipeAlloc => .exec fun input m => match input with
    | .pipes ends => m.pipeAlloc ends
    | _ => none
  | .pipeFd rf wf => .exec fun _ m => some (m.pipeFd p rf wf)
  | .fileread f => .exec fun input m => match input with
    | .bytes r => some (m.fileread f r)
    | _ => none
  | .filewrite f n => .exec fun input m => match input with
    | .bytes r => some (m.filewrite f n r)
    | _ => none
  | .filewriteLoop f n i => .exec fun input m => match input with
    | .bytes r => some (m.filewriteLoop f n i r)
    | _ => none
  | .filestat f => .exec fun _ m => some (m, .ret (if (m.file f).type = .inode then 0 else -1))

/-- The calls of all processes, until the kernel panics. -/
def program (Pid Inode Pipe : Type*) [DecidableEq Pid] [DecidableEq Inode] [DecidableEq Pipe] :
    Program Pid Lock Empty (Memory Pid Inode Pipe) (Pc Pid Inode Pipe) (Input Pid Inode Pipe) where
  instr := instr
  halted m := m.panicked.isSome

end

abbrev State (Pid Inode Pipe : Type*) := Threads Pid Lock Empty (Memory Pid Inode Pipe) (Pc Pid Inode Pipe)

/-- The table as it is in the beginning: no process is inside a call, no file is
open and nobody has a descriptor. -/
structure Boot {Pid Inode Pipe : Type*} (s : State Pid Inode Pipe) : Prop where
  thread : ∀ p, s.thread p = .run .user
  owner : ∀ l, s.owner l = none
  ref : ∀ f, (s.mem.file f).ref = 0
  type : ∀ f, (s.mem.file f).type = .none
  ofile : ∀ p fd, s.mem.ofile p fd = none
  panicked : s.mem.panicked = none
  taken : ∀ target, s.mem.taken target = 0
  given : ∀ target, s.mem.given target = 0

end DeviceProgramming.OpenFiles
