import DeviceProgramming.Machine.Calls
import DeviceProgramming.Machine.Segment
import DeviceProgramming.Machine.Transfers
import DeviceProgramming.OpenFiles.Table

namespace DeviceProgramming.FileData

open OpenFiles (File)
open Transfers (Event overwrite)

/-- What the functions of `fs.c`, `log.c` and `pipe.c` work on: the bytes of every inode and of
every process, who holds the lock of an inode and who is in a transaction. -/
structure Store (Pid Inode β : Type) where
  data : Inode → List β
  user : Pid → ℤ → β
  lock : Inode → Option Pid
  trans : Option Pid

/-- The functions of `fs.c`, `log.c` and `pipe.c` that `fileread` and `filewrite` call, which
the repository has only the names of. What they do may depend on anything else, which `Ext`
stands for; `none` is a call that waits. `pipewrite` also tells how many bytes it has put into
the pipe. -/
structure Functions (Pid Inode Pipe β Ext : Type) where
  beginTrans : Pid → Ext → Store Pid Inode β → Option (Store Pid Inode β)
  commitTrans : Pid → Ext → Store Pid Inode β → Option (Store Pid Inode β)
  ilock : Pid → Inode → Ext → Store Pid Inode β → Option (Store Pid Inode β)
  iunlock : Pid → Inode → Ext → Store Pid Inode β → Option (Store Pid Inode β)
  readi : Pid → Inode → ℤ → BitVec 32 → BitVec 32 → Ext → Store Pid Inode β → Option (ℤ × Store Pid Inode β)
  writei : Pid → Inode → ℤ → BitVec 32 → BitVec 32 → Ext → Store Pid Inode β → Option (ℤ × Store Pid Inode β)
  piperead : Pid → Pipe → ℤ → ℤ → Ext → Store Pid Inode β → Option (ℤ × Store Pid Inode β)
  pipewrite : Pid → Pipe → ℤ → ℤ → Ext → Store Pid Inode β → Option ((ℤ × ℕ) × Store Pid Inode β)

namespace Store
variable {Pid Inode β : Type} [DecidableEq Pid] [DecidableEq Inode] (s : Store Pid Inode β)

def setLock (ip : Inode) (owner : Option Pid) : Store Pid Inode β :=
  { s with lock := Function.update s.lock ip owner }

/-- Bytes come to a process. -/
def give (p : Pid) (addr : ℤ) (bytes : List β) : Store Pid Inode β :=
  { s with user := Function.update s.user p (store (s.user p) addr bytes) }

/-- Bytes are written over those of an inode. -/
def put (ip : Inode) (off : ℕ) (bytes : List β) : Store Pid Inode β :=
  { s with data := Function.update s.data ip (overwrite (s.data ip) off bytes) }

end Store

/-- What the functions are documented to do when the inodes are not those of devices. -/
structure Documented {Pid Inode Pipe β Ext : Type} [DecidableEq Pid] [DecidableEq Inode]
    (fs : Functions Pid Inode Pipe β Ext) : Prop where
  /-- There is one transaction at a time. -/
  beginTrans {p ext s s'} : fs.beginTrans p ext s = some s' → s.trans = none ∧ s' = { s with trans := some p }
  commitTrans {p ext s s'} : s.trans = some p → fs.commitTrans p ext s = some s' → s' = { s with trans := none }
  /-- The lock of an inode has one holder. -/
  ilock {p ip ext s s'} : fs.ilock p ip ext s = some s' → s.lock ip = none ∧ s' = s.setLock ip (some p)
  iunlock {p ip ext s s'} : s.lock ip = some p → fs.iunlock p ip ext s = some s' → s' = s.setLock ip none
  /-- `readi` copies `n` bytes from an offset on, or those up to the end. -/
  readi {p ip addr off n ext s r s'} : s.lock ip = some p → fs.readi p ip addr off n ext s = some (r, s') →
    r = -1 ∧ s' = s ∨ off.toNat ≤ (s.data ip).length ∧
      ∃ bytes, bytes = ((s.data ip).drop off.toNat).take n.toNat ∧ r = bytes.length ∧ s' = s.give p addr bytes
  /-- `writei` writes all `n` bytes or none. -/
  writei {p ip addr off n ext s r s'} : s.lock ip = some p → s.trans = some p →
    fs.writei p ip addr off n ext s = some (r, s') →
    r = -1 ∧ s' = s ∨ off.toNat ≤ (s.data ip).length ∧ off.toNat + n.toNat < 2 ^ 32 ∧ r = n.toNat ∧
      s' = s.put ip off.toNat (cells (s.user p) addr (addr + n.toNat))
  /-- `piperead` copies at most `n` bytes. -/
  piperead {p pipe addr n ext s r s'} : fs.piperead p pipe addr n ext s = some (r, s') →
    r = -1 ∧ s' = s ∨ ∃ bytes, (bytes.length ≤ n ∨ bytes = []) ∧ r = bytes.length ∧ s' = s.give p addr bytes
  /-- `pipewrite` writes all `n` bytes, or returns -1 before. -/
  pipewrite {p pipe addr n ext s r k s'} : fs.pipewrite p pipe addr n ext s = some ((r, k), s') →
    s' = s ∧ (r = -1 ∧ k < n ∨ r = n ∧ k = n.toNat)

/-- The open files with what the functions work on. The rest is history: what has gone through
the files of an inode, how many bytes have been moved that the offset of a file does not
count yet, the memory of a process when it made its last call, and the bytes that
this call has moved. -/
structure Memory (Pid F Inode Pipe β : Type) extends Store Pid Inode β where
  file : F → File Inode Pipe
  events : Inode → List (Event F β)
  due : F → ℕ
  before : Pid → ℤ → β
  did : Pid → List β

/-- The functions of `fs.c`, `log.c` and `pipe.c` that `fileread` and `filewrite` use, and
what they read and write themselves. `readi` and `writei` get the inode and the offset
of a file, and `syscall` is the entry into the kernel. -/
inductive Call (F Inode Pipe : Type)
  | syscall
  | beginTrans
  | commitTrans
  | ilock (ip : Inode)
  | iunlock (ip : Inode)
  | file (f : F)
  | setOff (f : F) (off : BitVec 32)
  | readi (f : F) (ip : Inode) (addr : ℤ) (off n : BitVec 32)
  | writei (f : F) (ip : Inode) (addr : ℤ) (off n : BitVec 32)
  | piperead (pipe : Pipe) (addr n : ℤ)
  | pipewrite (pipe : Pipe) (addr n : ℤ)
  deriving DecidableEq

abbrev Answer {F Inode Pipe : Type} : Call F Inode Pipe → Type
  | .file _ => File Inode Pipe
  | .readi .. | .writei .. | .piperead .. | .pipewrite .. => ℤ
  | _ => Unit

/-- A system call with its fetched arguments: the file of the descriptor, the address
and the size; `none` stands for arguments that cannot be fetched. -/
inductive SysCall (F : Type)
  | read (args : Option (F × ℤ × ℤ))
  | write (args : Option (F × ℤ × ℤ))
  deriving DecidableEq

/-- The outside choices: the call that a process makes, and what the functions depend on. -/
inductive Input (F Ext : Type)
  | enter (call : SysCall F)
  | go (ext : Ext)

section
variable {Pid F Inode Pipe β Ext : Type} [DecidableEq Pid] [DecidableEq F] [DecidableEq Inode]

namespace Memory
variable (m : Memory Pid F Inode Pipe β)

/-- After a function of `fs.c`, `log.c` or `pipe.c`. -/
def after (s : Store Pid Inode β) : Memory Pid F Inode Pipe β := { m with toStore := s }

def setOff (f : F) (off : BitVec 32) : Memory Pid F Inode Pipe β :=
  { m with file := Function.update m.file f { m.file f with off := off }, due := Function.update m.due f 0 }

/-- Bytes that a process has moved, in its history. -/
def move (p : Pid) (bytes : List β) : Memory Pid F Inode Pipe β :=
  { m with did := Function.update m.did p (m.did p ++ bytes) }

/-- A transfer through a file in the history of its inode. -/
def record (p : Pid) (f : F) (ip : Inode) (write : Bool) (off : BitVec 32) (bytes : List β) :
    Memory Pid F Inode Pipe β :=
  { m.move p bytes with
    events := Function.update m.events ip (⟨f, write, off.toNat, bytes⟩ :: m.events ip)
    due := Function.update m.due f (m.due f + bytes.length) }

end Memory

/-- What a call does. The bytes that it has moved are told from its result and the memory of
the process. -/
def answer (fs : Functions Pid Inode Pipe β Ext) (p : Pid) : (c : Call F Inode Pipe) → Input F Ext →
    Memory Pid F Inode Pipe β → Option (Answer c × Memory Pid F Inode Pipe β)
  | .syscall, _, m => some ((), { m with
      before := Function.update m.before p (m.user p)
      did := Function.update m.did p [] })
  | .file f, _, m => some (m.file f, m)
  | .setOff f off, _, m => some ((), m.setOff f off)
  | .beginTrans, .go ext, m => (fs.beginTrans p ext m.toStore).map fun s => ((), m.after s)
  | .commitTrans, .go ext, m => (fs.commitTrans p ext m.toStore).map fun s => ((), m.after s)
  | .ilock ip, .go ext, m => (fs.ilock p ip ext m.toStore).map fun s => ((), m.after s)
  | .iunlock ip, .go ext, m => (fs.iunlock p ip ext m.toStore).map fun s => ((), m.after s)
  | .readi f ip addr off n, .go ext, m => (fs.readi p ip addr off n ext m.toStore).map fun (r, s) =>
    (r, if r < 0 then m.after s else (m.after s).record p f ip false off (cells (s.user p) addr (addr + r)))
  | .writei f ip addr off n, .go ext, m => (fs.writei p ip addr off n ext m.toStore).map fun (r, s) =>
    (r, if r < 0 then m.after s else (m.after s).record p f ip true off (cells (m.user p) addr (addr + r)))
  | .piperead pipe addr n, .go ext, m => (fs.piperead p pipe addr n ext m.toStore).map fun (r, s) =>
    (r, (m.after s).move p (cells (s.user p) addr (addr + r)))
  | .pipewrite pipe addr n, .go ext, m => (fs.pipewrite p pipe addr n ext m.toStore).map fun ((r, k), s) =>
    (r, (m.after s).move p (cells (m.user p) addr (addr + k)))
  | _, .enter _, _ => none

end

section
variable {F Inode Pipe : Type}

abbrev Prog (F Inode Pipe α : Type) := Calls (Call F Inode Pipe) Answer α

abbrev ask (c : Call F Inode Pipe) : Prog F Inode Pipe (Answer c) := Calls.ask c

/-- `f->off += r`, if `r` is positive. -/
def addOff (f : F) (r : ℤ) : Prog F Inode Pipe Unit :=
  if r > 0 then do
    let file ← ask (.file f)
    ask (.setOff f (file.off + BitVec.ofInt 32 r))
  else return ()

/-- `fileread` of an inode. -/
def readInode (f : F) (ip : Inode) (addr n : ℤ) : Prog F Inode Pipe ℤ := do
  ask (.ilock ip)
  let file ← ask (.file f)
  let r ← ask (.readi f ip addr file.off (BitVec.ofInt 32 n))
  addOff f r
  ask (.iunlock ip)
  return r

def fileread (f : F) (addr n : ℤ) : Prog F Inode Pipe ℤ := do
  let file ← ask (.file f)
  if file.readable = false then return -1
  else match file.type with
    | .pipe => ask (.piperead file.pipe addr n)
    | .inode => readInode f file.ip addr n
    | .none => .panic "fileread"

/-- The transaction in a turn of the loop of `filewrite`. -/
def writeInode (f : F) (ip : Inode) (addr n1 : ℤ) : Prog F Inode Pipe ℤ := do
  ask .beginTrans
  ask (.ilock ip)
  let file ← ask (.file f)
  let r ← ask (.writei f ip addr file.off (BitVec.ofInt 32 n1))
  addOff f r
  ask (.iunlock ip)
  ask .commitTrans
  return r

/-- The loop of `filewrite`, which takes at most `n` turns. -/
def filewriteLoop (f : F) (ip : Inode) (addr n : ℤ) : ℕ → ℤ → Prog F Inode Pipe ℤ
  | 0, i => if i < n then .panic "too many turns" else return if i = n then n else -1
  | turns + 1, i =>
    if i < n then do
      let n1 := if n - i > OpenFiles.Memory.writeMax then OpenFiles.Memory.writeMax else n - i
      let r ← writeInode f ip (addr + i) n1
      if r < 0 then return if i = n then n else -1
      else if r ≠ n1 then .panic "short filewrite"
      else filewriteLoop f ip addr n turns (i + r)
    else return if i = n then n else -1

def filewrite (f : F) (addr n : ℤ) : Prog F Inode Pipe ℤ := do
  let file ← ask (.file f)
  if file.writable = false then return -1
  else match file.type with
    | .pipe => ask (.pipewrite file.pipe addr n)
    | .inode => filewriteLoop f file.ip addr n n.toNat 0
    | .none => .panic "filewrite"

/-- `sys_read` and `sys_write` after the arguments have been fetched. -/
def SysCall.prog : SysCall F → Prog F Inode Pipe ℤ
  | read (some (f, addr, n)) => fileread f addr n
  | write (some (f, addr, n)) => filewrite f addr n
  | read none | write none => return -1

/-- A system call, which ends with its result. -/
def syscall (call : SysCall F) : Prog F Inode Pipe (SysCall F × ℤ) := do
  ask .syscall
  let result ← call.prog
  return (call, result)

end

/-- The processes that read and write files in the kernel. -/
def kernel {Pid Inode Pipe β Ext : Type} (fs : Functions Pid Inode Pipe β Ext) (F : Type) [DecidableEq Pid]
    [DecidableEq F] [DecidableEq Inode] :
    Service Pid (Call F Inode Pipe) Answer (Memory Pid F Inode Pipe β) (Input F Ext) (SysCall F × ℤ) where
  answer := answer fs
  enter _ input := match input with
    | .enter call => some (syscall call)
    | .go _ => none

abbrev State (Pid F Inode Pipe β : Type) :=
  Service.State Pid (Call F Inode Pipe) Answer (Memory Pid F Inode Pipe β) (SysCall F × ℤ)

end DeviceProgramming.FileData
