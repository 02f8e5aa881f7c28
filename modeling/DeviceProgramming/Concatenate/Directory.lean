import DeviceProgramming.Machine.Awake
import Mathlib.Data.List.Perm.Basic
import Mathlib.Logic.Function.Basic
import Mathlib.Tactic.Common

namespace DeviceProgramming.Concatenate

abbrev Name := List Char

instance : LawfulBEq Name := inferInstanceAs (LawfulBEq (List Char))

abbrev Inode := ℕ

abbrev dot : Name := ['.']
abbrev dotdot : Name := ['.', '.']
abbrev tmpName : Name := ['t', 'm', 'p']

/-- The names that `thread_func` skips. -/
def special (name : Name) : Bool := name = dot ∨ name = dotdot ∨ name = tmpName

/-- The files in a listing. -/
def files (listing : List Name) : List Name := listing.filter fun name => !special name

theorem files_tail {entry : Name} {rest : List Name} (nothing : files (entry :: rest) = []) : files rest = [] := by
  rw [files, List.filter_eq_nil_iff] at nothing ⊢
  exact fun name member => nothing name (List.mem_cons_of_mem _ member)

/-- What an inode stands for. -/
inductive Node
  | regular (data : List UInt8)
  | directory

def Node.data : Node → List UInt8
  | regular data => data
  | directory => []

def Node.isDirectory : Node → Bool
  | regular _ => false
  | directory => true

/-- The abstract model of the directory: its entries without the special ones, the directory
`tmp` in it, the inodes, and what `readdir` has still to return from the stream. `crashed` is
set when a null pointer is used. -/
structure Memory where
  dir : List (Name × Inode)
  tmp : List (Name × Inode)
  node : Inode → Node
  fresh : Inode
  stream : List Name
  crashed : Bool

/-- A system call in which the outside has a part: whether `readdir` fails, and
then whether `errno` changes, and in which order a rewound stream lists the
directory. -/
structure Input where
  fails : Bool
  changes : Bool
  listing : List Name

/-- The variables of the abstract model, in which the selected files are names and not entries
in the buffer of the stream. `isDir` is the bit `S_IFDIR` of `status`, and a descriptor is an
inode with an offset; it is `none` when `open` failed. -/
structure Locals where
  cont : Bool
  next1 : Bool
  next2 : Bool
  rewinded : Bool
  filehead1 : Option Name
  filehead2 : Option Name
  isDir : Bool
  file1 : Option (Inode × ℕ)
  file2 : Option (Inode × ℕ)
  dest : Inode × ℕ

/-- The statements of `thread_func`. The bytes of a `write` are those of the
`read` before it; `none` is a `read` that returned -1. -/
inductive Stmt
  | lock
  | scan1
  | scan2
  | unlock
  | open1
  | open2
  | unlink1
  | unlink2
  | openDest
  | read1
  | write1 (buffer : List UInt8)
  | read2
  | write2 (buffer : Option (List UInt8))
  | link
  | unlinkTmp
  | left
  deriving DecidableEq

namespace Stmt

/-- The statements of an iteration after the critical section. -/
def works : Stmt → Bool
  | open1 | open2 | unlink1 | unlink2 | openDest | read1 | write1 _ | read2 | write2 _ | link | unlinkTmp => true
  | _ => false

/-- From the `open` of `dest` to the `link`. -/
def copies : Stmt → Bool
  | read1 | write1 _ | read2 | write2 _ | link => true
  | _ => false

/-- While the new file has its name in `tmp`. -/
def hasTmp : Stmt → Bool
  | unlinkTmp => true
  | stmt => stmt.copies

end Stmt

/-- Where a thread is, with its variables. -/
structure Point where
  stmt : Stmt
  locals : Locals

inductive Lock
  | dirLock
  deriving DecidableEq

namespace Memory

def crash (m : Memory) : Memory := { m with crashed := true }

/-- The names of all entries. -/
def names (m : Memory) : List Name := dot :: dotdot :: tmpName :: m.dir.map Prod.fst

/-- `rewinddir`: the stream lists what is now in the directory, in any order. -/
def rewinddir (m : Memory) (listing : List Name) : Option Memory :=
  if listing.Perm m.names then some { m with stream := listing } else none

def unlink (m : Memory) (name : Name) : Memory := match m.dir.lookup name with
  | none => m
  | some i => if (m.node i).isDirectory then m else { m with dir := m.dir.filter (·.1 ≠ name) }

/-- `open` of a name in `tmp` with `O_WRONLY | O_CREAT`. -/
def create (m : Memory) (name : Name) : Inode × Memory := match m.tmp.lookup name with
  | some i => (i, m)
  | none => (m.fresh, { m with
      tmp := (name, m.fresh) :: m.tmp
      node := Function.update m.node m.fresh (.regular [])
      fresh := m.fresh + 1 })

/-- `write` of `buffer` at an offset. -/
def write (m : Memory) (i : Inode) (offset : ℕ) (buffer : List UInt8) : Memory :=
  let old := (m.node i).data
  let data := old.take offset ++ buffer ++ old.drop (offset + buffer.length)
  { m with node := Function.update m.node i (.regular data) }

/-- `read` of at most 1024 bytes from an offset on. -/
def read (m : Memory) (i : Inode) (offset : ℕ) : List UInt8 := ((m.node i).data.drop offset).take 1024

/-- `link` of a file in `tmp` to the same name in the directory. -/
def link (m : Memory) (name : Name) : Memory := match m.tmp.lookup name with
  | none => m
  | some i => if name ∈ m.names then m else { m with dir := (name, i) :: m.dir }

def unlinkTmp (m : Memory) (name : Name) : Memory := { m with tmp := m.tmp.filter (·.1 ≠ name) }

section
variable (m : Memory) (name : Name)

theorem unlink_frame : m.unlink name = { m with dir := (m.unlink name).dir } := by
  unfold unlink
  split
  · rfl
  · split <;> rfl

theorem link_frame : m.link name = { m with dir := (m.link name).dir } := by
  unfold link
  split
  · rfl
  · split <;> rfl

@[simp] theorem unlink_tmp : (m.unlink name).tmp = m.tmp := by rw [unlink_frame]
@[simp] theorem unlink_node : (m.unlink name).node = m.node := by rw [unlink_frame]
@[simp] theorem unlink_fresh : (m.unlink name).fresh = m.fresh := by rw [unlink_frame]
@[simp] theorem unlink_stream : (m.unlink name).stream = m.stream := by rw [unlink_frame]
@[simp] theorem unlink_crashed : (m.unlink name).crashed = m.crashed := by rw [unlink_frame]

@[simp] theorem link_tmp : (m.link name).tmp = m.tmp := by rw [link_frame]
@[simp] theorem link_node : (m.link name).node = m.node := by rw [link_frame]
@[simp] theorem link_fresh : (m.link name).fresh = m.fresh := by rw [link_frame]
@[simp] theorem link_stream : (m.link name).stream = m.stream := by rw [link_frame]
@[simp] theorem link_crashed : (m.link name).crashed = m.crashed := by rw [link_frame]

@[simp] theorem create_dir : (m.create name).2.dir = m.dir := by
  unfold create
  split <;> rfl

@[simp] theorem create_stream : (m.create name).2.stream = m.stream := by
  unfold create
  split <;> rfl

@[simp] theorem create_crashed : (m.create name).2.crashed = m.crashed := by
  unfold create
  split <;> rfl

end

end Memory

namespace Locals

def init (isDir : Bool) : Locals where
  cont := true
  next1 := true
  next2 := true
  rewinded := false
  filehead1 := none
  filehead2 := none
  isDir := isDir
  file1 := none
  file2 := none
  dest := (0, 0)

/-- `filename` without its directory. -/
def filename (l : Locals) : Name := l.filehead1.getD [] ++ l.filehead2.getD []

end Locals

/-- A `readdir` that returns a null pointer and leaves `errno` as it was. -/
def Memory.atEnd (m : Memory) (input : Input) : Bool :=
  if input.fails then !input.changes else m.stream = []

/-- A `readdir` that returns a null pointer and changes `errno`. -/
def Input.isError (input : Input) : Bool := input.fails && input.changes

/-- One round of the first `do` loop. -/
def scan1 (l : Locals) (input : Input) (m : Memory) : Option (Memory × Point) :=
  if input.isError then some (m, ⟨.left, { l with cont := false, next1 := false, filehead1 := none }⟩)
  else if m.atEnd input then
    if l.rewinded then some (m, ⟨.left, { l with cont := false, filehead1 := none }⟩)
    else (m.rewinddir input.listing).map fun m =>
      (m, if l.next1 then ⟨.scan1, { l with rewinded := true, filehead1 := none }⟩
        else ⟨.scan2, { l with rewinded := false, filehead1 := none }⟩)
  else match m.stream with
    | [] => none
    | entry :: rest =>
      let m := { m with stream := rest }
      if special entry then some (m, ⟨.scan1, { l with next1 := true, filehead1 := some entry }⟩)
      else some (m, ⟨.scan2, { l with next1 := false, rewinded := false, filehead1 := some entry }⟩)

/-- After the second `do` loop. -/
def selected (l : Locals) : Point := ⟨if l.cont then .unlock else .left, l⟩

/-- One round of the second `do` loop; `strcmp` uses `filehead1` only when the
entry is not one that is skipped. -/
def scan2 (l : Locals) (input : Input) (m : Memory) : Option (Memory × Point) :=
  if input.isError then
    let l := { l with cont := false, filehead2 := none }
    some (m, if l.next2 then ⟨.scan2, l⟩ else selected l)
  else if m.atEnd input then
    if l.rewinded then some (m, ⟨.left, { l with cont := false, filehead2 := none }⟩)
    else (m.rewinddir input.listing).map fun m =>
      let l := { l with rewinded := true, filehead2 := none }
      (m, if l.next2 then ⟨.scan2, l⟩ else selected l)
  else match m.stream with
    | [] => none
    | entry :: rest =>
      let m := { m with stream := rest }
      let l := { l with filehead2 := some entry }
      if special entry then some (m, ⟨.scan2, { l with next2 := true }⟩)
      else match l.filehead1 with
        | none => some (m.crash, ⟨.scan2, l⟩)
        | some name1 =>
          if name1 = entry then some (m, ⟨.scan2, { l with next2 := true }⟩)
          else some (m, selected { l with next2 := false })

/-- `open` and `fstat` of the first file; a failing `fstat` leaves `status` as
it was. -/
def open1 (l : Locals) (m : Memory) : Memory × Point := match l.filehead1 with
  | none => (m.crash, ⟨.open1, l⟩)
  | some name =>
    let l := match m.dir.lookup name with
      | none => { l with file1 := none }
      | some i => { l with file1 := some (i, 0), isDir := (m.node i).isDirectory }
    (m, ⟨if l.isDir then .lock else .open2, l⟩)

def open2 (l : Locals) (m : Memory) : Memory × Point := match l.filehead2 with
  | none => (m.crash, ⟨.open2, l⟩)
  | some name =>
    let l := match m.dir.lookup name with
      | none => { l with file2 := none }
      | some i => { l with file2 := some (i, 0), isDir := (m.node i).isDirectory }
    (m, ⟨if l.isDir then .lock else .unlink1, l⟩)

def openDest (l : Locals) (m : Memory) : Memory × Point :=
  let (i, m) := m.create l.filename
  (m, ⟨.read1, { l with dest := (i, 0) }⟩)

/-- `read` and the condition of the first copy loop. -/
def read1 (l : Locals) (m : Memory) : Point := match l.file1 with
  | none => ⟨.read2, l⟩
  | some (i, offset) =>
    let buffer := m.read i offset
    ⟨if buffer = [] then .read2 else .write1 buffer, { l with file1 := some (i, offset + buffer.length) }⟩

/-- `read` and the condition of the second copy loop, which goes on after -1. -/
def read2 (l : Locals) (m : Memory) : Point := match l.file2 with
  | none => ⟨.write2 none, l⟩
  | some (i, offset) =>
    let buffer := m.read i offset
    ⟨if buffer = [] then .link else .write2 (some buffer), { l with file2 := some (i, offset + buffer.length) }⟩

/-- A `write` to `dest` and the statement after it. -/
def writeDest (l : Locals) (buffer : List UInt8) (next : Stmt) (m : Memory) : Memory × Point :=
  (m.write l.dest.1 l.dest.2 buffer, ⟨next, { l with dest := (l.dest.1, l.dest.2 + buffer.length) }⟩)

/-- What `thread_func` is meant to do from the statement at a point on: names have room, the
selected names stay what they are, and the calls after the critical section succeed. A `write`
of -1 bytes fails. -/
def threadFunc (p : Point) : Instr Lock Empty Memory Point Input := match p.stmt with
  | .lock => .acquire .dirLock ⟨.scan1, { p.locals with rewinded := false }⟩
  | .scan1 => .exec fun input m => scan1 p.locals input m
  | .scan2 => .exec fun input m => scan2 p.locals input m
  | .unlock => .release .dirLock ⟨.open1, p.locals⟩
  | .open1 => .exec fun _ m => some (open1 p.locals m)
  | .open2 => .exec fun _ m => some (open2 p.locals m)
  | .unlink1 => .exec fun _ m => some (m.unlink (p.locals.filehead1.getD []), ⟨.unlink2, p.locals⟩)
  | .unlink2 => .exec fun _ m => some (m.unlink (p.locals.filehead2.getD []), ⟨.openDest, p.locals⟩)
  | .openDest => .exec fun _ m => some (openDest p.locals m)
  | .read1 => .exec fun _ m => some (m, read1 p.locals m)
  | .write1 buffer => .exec fun _ m => some (writeDest p.locals buffer .read1 m)
  | .read2 => .exec fun _ m => some (m, read2 p.locals m)
  | .write2 none => .exec fun _ m => some (m, ⟨.read2, p.locals⟩)
  | .write2 (some buffer) => .exec fun _ m => some (writeDest p.locals buffer .read2 m)
  | .link => .exec fun _ m => some (m.link p.locals.filename, ⟨.unlinkTmp, p.locals⟩)
  | .unlinkTmp => .exec fun _ m => some (m.unlinkTmp p.locals.filename, ⟨.lock, p.locals⟩)
  | .left => .exec fun _ _ => none

section
variable (K : ℕ)

/-- The `K` threads that `main` creates. -/
def program : Program (Fin K) Lock Empty Memory Point Input where
  instr _ p := threadFunc p
  halted m := m.crashed

abbrev State := Threads (Fin K) Lock Empty Memory Point

end

/-- A directory as `main` finds it: distinct names, none of them special, and a
stream that `opendir` has made before `mkdir` makes `tmp`. -/
structure Memory.Opened (m : Memory) : Prop where
  nodup : (m.dir.map Prod.fst).Nodup
  ordinary : ∀ entry ∈ m.dir, special entry.1 = false
  stream : m.stream.Perm m.names ∨ m.stream.Perm (dot :: dotdot :: m.dir.map Prod.fst)
  inodes : ∀ entry ∈ m.dir ++ m.tmp, entry.2 < m.fresh
  live : m.crashed = false

/-- The threads at their start, with any directory, any stream and any bytes in
`status`. -/
structure Started {K : ℕ} (s : State K) : Prop where
  free : s.owner .dirLock = none
  thread : ∀ t, ∃ isDir, s.thread t = .run ⟨.lock, .init isDir⟩

/-- The threads at their start in a directory as `main` finds it. -/
structure Launch {K : ℕ} (s : State K) : Prop where
  opened : s.mem.Opened
  free : s.owner .dirLock = none
  thread : ∀ t, ∃ isDir, s.thread t = .run ⟨.lock, .init isDir⟩

theorem Launch.started {K : ℕ} {s : State K} (launch : Launch s) : Started s := ⟨launch.free, launch.thread⟩

abbrev concatenation (K : ℕ) : System (State K) (Fin K × Input) := (program K).system Launch

end DeviceProgramming.Concatenate
