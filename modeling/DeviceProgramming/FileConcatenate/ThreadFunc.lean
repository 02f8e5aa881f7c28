import DeviceProgramming.Concatenate.Directory

namespace DeviceProgramming.FileConcatenate

open Concatenate (Name Inode Stmt Lock special)

/-- The directory, and the buffer of the stream `directory->dir`: the `d_name` that is now at
each address at which `readdir` has returned an entry. -/
structure Memory extends Concatenate.Memory where
  dName : ℕ → Name

/-- The outside choices of a statement: whether its system call fails, and whether a
`readdir` that fails changes `errno`; in which order a rewound stream lists the directory; at
which address `readdir` returns its entry, and the buffer after it, in which entries returned
before may be overwritten; and how many bytes a `write` takes. -/
structure Input extends Concatenate.Input where
  slot : ℕ
  dName : ℕ → Name
  written : ℕ

/-- What the byte behind an array on the stack belongs to. -/
inductive Behind
  | unused
  | filename
  | other
  deriving DecidableEq

/-- What the compiler has put behind the arrays `filename` and `hardlink`, by their lengths.
They have no element for the zero that ends the string, which is stored there. -/
structure Layout where
  filename : ℕ → Behind
  hardlink : ℕ → Behind

/-- The variables of `thread_func`. `filehead1` and `filehead2` are addresses in the buffer of
the stream, `filename` is without its `tmp/` and `none` when it is the empty string, and a
descriptor is `none` when `open` failed. -/
structure Locals where
  cont : Bool
  next1 : Bool
  next2 : Bool
  rewinded : Bool
  filehead1 : Option ℕ
  filehead2 : Option ℕ
  isDir : Bool
  file1 : Option (Inode × ℕ)
  file2 : Option (Inode × ℕ)
  filename : Option Name
  dest : Option (Inode × ℕ)

/-- Where a thread is, with its variables. -/
structure Point where
  stmt : Stmt
  locals : Locals

namespace Memory
variable (m : Memory)

def crash : Memory := { m with crashed := true }

/-- `filehead->d_name`. -/
def name (filehead : Option ℕ) : Name := filehead.elim [] m.dName

def rewinddir (listing : List Name) : Option Memory :=
  (m.toMemory.rewinddir listing).map fun directory => { m with toMemory := directory }

/-- `open` for reading and `fstat`: the descriptor, and the bit `S_IFDIR` where `fstat` sets it.
The special entries are directories, from which nobody reads. -/
def openFile (fails : Bool) (name : Name) : Option (Inode × ℕ) × Option Bool :=
  if fails then (none, none)
  else if special name then (none, some true)
  else match m.dir.lookup name with
    | none => (none, none)
    | some i => (some (i, 0), some (m.node i).isDirectory)

def unlink (fails : Bool) (name : Name) : Memory := if fails then m else { m with toMemory := m.toMemory.unlink name }

def isTmpDirectory (name : Name) : Bool := (m.tmp.lookup name).any fun i => (m.node i).isDirectory

/-- `open` of a name in `tmp` with `O_WRONLY | O_CREAT`. -/
def create (fails : Bool) (name : Name) : Option (Inode × ℕ) × Memory :=
  if fails || m.isTmpDirectory name then (none, m)
  else (some ((m.toMemory.create name).1, 0), { m with toMemory := (m.toMemory.create name).2 })

/-- `read` of at most 1024 bytes; `none` stands for -1. -/
def read (fails : Bool) (file : Option (Inode × ℕ)) : Option (List UInt8) :=
  if fails then none else file.map fun d => m.toMemory.read d.1 d.2

/-- `link` of a file in `tmp` to a name in the directory. -/
def link (fails : Bool) (filename : Option Name) (hardlink : Name) : Memory :=
  match filename.bind fun name => m.tmp.lookup name with
  | none => m
  | some i =>
    if fails || (m.node i).isDirectory || hardlink ∈ m.names then m else { m with dir := (hardlink, i) :: m.dir }

def unlinkTmp (fails : Bool) (filename : Option Name) : Memory := match filename with
  | none => m
  | some name => if fails || m.isTmpDirectory name then m else { m with toMemory := m.toMemory.unlinkTmp name }

/-- A `readdir` that returns a null pointer and leaves `errno` as it was. -/
def atEnd (input : Input) : Bool := m.toMemory.atEnd input.toInput

end Memory

namespace Locals

def init (isDir : Bool) : Locals where
  cont := true
  next1 := true
  next2 := true
  rewinded := false
  filehead1 := none
  filehead2 := none
  isDir := isDir
  file1 := none
  file2 := none
  filename := none
  dest := none

/-- The concatenation of the two names as they are in the buffer now. -/
def joined (l : Locals) (m : Memory) : Name := m.name l.filehead1 ++ m.name l.filehead2

end Locals

/-- One round of the first `do` loop. -/
def scan1 (l : Locals) (input : Input) (m : Memory) : Option (Memory × Point) :=
  let m := { m with dName := input.dName }
  if input.isError then some (m, ⟨.left, { l with cont := false, next1 := false, filehead1 := none }⟩)
  else if m.atEnd input then
    if l.rewinded then some (m, ⟨.left, { l with cont := false, filehead1 := none }⟩)
    else (m.rewinddir input.listing).map fun m =>
      (m, if l.next1 then ⟨.scan1, { l with rewinded := true, filehead1 := none }⟩
        else ⟨.scan2, { l with rewinded := false, filehead1 := none }⟩)
  else match m.stream with
    | [] => none
    | entry :: rest =>
      let m := { m with stream := rest }
      if m.dName input.slot ≠ entry then none
      else if special entry then some (m, ⟨.scan1, { l with next1 := true, filehead1 := some input.slot }⟩)
      else some (m, ⟨.scan2, { l with next1 := false, rewinded := false, filehead1 := some input.slot }⟩)

/-- After the second `do` loop. -/
def selected (l : Locals) : Point := ⟨if l.cont then .unlock else .left, l⟩

/-- One round of the second `do` loop; `strcmp` uses `filehead1->d_name`, as `readdir` has left
it, only when the entry is not one that is skipped. -/
def scan2 (l : Locals) (input : Input) (m : Memory) : Option (Memory × Point) :=
  let m := { m with dName := input.dName }
  if input.isError then
    let l := { l with cont := false, filehead2 := none }
    some (m, if l.next2 then ⟨.scan2, l⟩ else selected l)
  else if m.atEnd input then
    if l.rewinded then some (m, ⟨.left, { l with cont := false, filehead2 := none }⟩)
    else (m.rewinddir input.listing).map fun m =>
      let l := { l with rewinded := true, filehead2 := none }
      (m, if l.next2 then ⟨.scan2, l⟩ else selected l)
  else match m.stream with
    | [] => none
    | entry :: rest =>
      let m := { m with stream := rest }
      let l := { l with filehead2 := some input.slot }
      if m.dName input.slot ≠ entry then none
      else if special entry then some (m, ⟨.scan2, { l with next2 := true }⟩)
      else match l.filehead1 with
        | none => some (m.crash, ⟨.scan2, l⟩)
        | some first =>
          if m.dName first = entry then some (m, ⟨.scan2, { l with next2 := true }⟩)
          else some (m, selected { l with next2 := false })

/-- `open` and `fstat` of the first file; a failing `fstat` leaves `status` as it was. -/
def open1 (l : Locals) (fails : Bool) (m : Memory) : Memory × Point := match l.filehead1 with
  | none => (m.crash, ⟨.open1, l⟩)
  | some filehead =>
    let (file, bit) := m.openFile fails (m.dName filehead)
    let isDir := bit.getD l.isDir
    (m, ⟨if isDir then .lock else .open2, { l with file1 := file, isDir := isDir }⟩)

def open2 (l : Locals) (fails : Bool) (m : Memory) : Memory × Point := match l.filehead2 with
  | none => (m.crash, ⟨.open2, l⟩)
  | some filehead =>
    let (file, bit) := m.openFile fails (m.dName filehead)
    let isDir := bit.getD l.isDir
    (m, ⟨if isDir then .lock else .unlink1, { l with file2 := file, isDir := isDir }⟩)

/-- The array `filename` and `open`. Where the byte behind the array is in use, the process is
taken for lost. -/
def openDest (layout : Layout) (l : Locals) (fails : Bool) (m : Memory) : Memory × Point :=
  if layout.filename ("tmp/".length + (l.joined m).length) ≠ .unused then (m.crash, ⟨.openDest, l⟩)
  else ((m.create fails (l.joined m)).2,
    ⟨.read1, { l with filename := some (l.joined m), dest := (m.create fails (l.joined m)).1 }⟩)

/-- The condition `count != 0 && count != -1` of the first copy loop. -/
def afterRead1 : Option (List UInt8) → Stmt
  | none => .read2
  | some buffer => if buffer = [] then .read2 else .write1 buffer

/-- The condition `count` of the second copy loop. -/
def afterRead2 : Option (List UInt8) → Stmt
  | none => .write2 none
  | some buffer => if buffer = [] then .link else .write2 (some buffer)

/-- A descriptor after a `read`. -/
def afterRead (file : Option (Inode × ℕ)) (result : Option (List UInt8)) : Option (Inode × ℕ) :=
  file.map fun d => (d.1, d.2 + (result.getD []).length)

def read1 (l : Locals) (fails : Bool) (m : Memory) : Point :=
  ⟨afterRead1 (m.read fails l.file1), { l with file1 := afterRead l.file1 (m.read fails l.file1) }⟩

def read2 (l : Locals) (fails : Bool) (m : Memory) : Point :=
  ⟨afterRead2 (m.read fails l.file2), { l with file2 := afterRead l.file2 (m.read fails l.file2) }⟩

/-- A `write` to `dest` and the statement after it. -/
def writeDest (l : Locals) (input : Input) (buffer : List UInt8) (next : Stmt) (m : Memory) : Memory × Point :=
  match l.dest with
  | none => (m, ⟨next, l⟩)
  | some (i, offset) =>
    let bytes := buffer.take input.written
    if input.fails then (m, ⟨next, l⟩)
    else ({ m with toMemory := m.toMemory.write i offset bytes },
      ⟨next, { l with dest := some (i, offset + bytes.length) }⟩)

/-- The array `hardlink` and `link`. The zero of `hardlink` may make `filename` the empty
string. -/
def link (layout : Layout) (l : Locals) (fails : Bool) (m : Memory) : Memory × Point :=
  match layout.hardlink (l.joined m).length with
  | .unused => (m.link fails l.filename (l.joined m), ⟨.unlinkTmp, l⟩)
  | .filename => (m.link fails none (l.joined m), ⟨.unlinkTmp, { l with filename := none }⟩)
  | .other => (m.crash, ⟨.link, l⟩)

/-- `thread_func` from the statement at a point on. A `write` of -1 bytes fails. -/
def threadFunc (layout : Layout) (p : Point) : Instr Lock Empty Memory Point Input := match p.stmt with
  | .lock => .acquire .dirLock ⟨.scan1, { p.locals with rewinded := false }⟩
  | .scan1 => .exec fun input m => scan1 p.locals input m
  | .scan2 => .exec fun input m => scan2 p.locals input m
  | .unlock => .release .dirLock ⟨.open1, p.locals⟩
  | .open1 => .exec fun input m => some (open1 p.locals input.fails m)
  | .open2 => .exec fun input m => some (open2 p.locals input.fails m)
  | .unlink1 => .exec fun input m => some (m.unlink input.fails (m.name p.locals.filehead1), ⟨.unlink2, p.locals⟩)
  | .unlink2 => .exec fun input m => some (m.unlink input.fails (m.name p.locals.filehead2), ⟨.openDest, p.locals⟩)
  | .openDest => .exec fun input m => some (openDest layout p.locals input.fails m)
  | .read1 => .exec fun input m => some (m, read1 p.locals input.fails m)
  | .write1 buffer => .exec fun input m => some (writeDest p.locals input buffer .read1 m)
  | .read2 => .exec fun input m => some (m, read2 p.locals input.fails m)
  | .write2 none => .exec fun _ m => some (m, ⟨.read2, p.locals⟩)
  | .write2 (some buffer) => .exec fun input m => some (writeDest p.locals input buffer .read2 m)
  | .link => .exec fun input m => some (link layout p.locals input.fails m)
  | .unlinkTmp => .exec fun input m => some (m.unlinkTmp input.fails p.locals.filename, ⟨.lock, p.locals⟩)
  | .left => .exec fun _ _ => none

section
variable (layout : Layout) (K : ℕ)

/-- The `K` threads that `main` creates. -/
def program : Program (Fin K) Lock Empty Memory Point Input where
  instr _ p := threadFunc layout p
  halted m := m.crashed

abbrev State := Threads (Fin K) Lock Empty Memory Point

end

/-- The threads at their start, with any directory, any stream and any bytes in `status`. -/
structure Started {K : ℕ} (s : State K) : Prop where
  free : s.owner .dirLock = none
  thread : ∀ t, ∃ isDir, s.thread t = .run ⟨.lock, .init isDir⟩

/-- The threads at their start in a directory as `main` finds it. -/
structure Launch {K : ℕ} (s : State K) : Prop extends Started s where
  opened : s.mem.Opened

/-- The runs of all threads from any directory and any stream. -/
abbrev selection (layout : Layout) (K : ℕ) : System (State K) (Fin K × Input) := (program layout K).system Started

abbrev concatenation (layout : Layout) (K : ℕ) : System (State K) (Fin K × Input) := (program layout K).system Launch

/-- A compiler that rounds the arrays up to multiples of 16 bytes and puts `hardlink` below
`filename`. -/
def rounded : Layout where
  filename n := if n % 16 = 0 then .other else .unused
  hardlink n := if n % 16 = 0 then .filename else .unused

/-- No call fails, and the buffer holds `names`, with the next entry at `slot`. -/
def Input.plain (names listing : List Name) (slot : ℕ) : Input where
  fails := false
  changes := false
  listing := listing
  slot := slot
  dName at' := names.getD at' []
  written := 1024

/-- The steps of a thread with the entries at `slots`. -/
def steps {K : ℕ} (t : Fin K) (names listing : List Name) (slots : List ℕ) : List (Fin K × Input) :=
  slots.map fun slot => (t, .plain names listing slot)

/-- The threads at their start, with `status` zeroed. -/
def launchOf (K : ℕ) (m : Memory) : State K where
  mem := m
  owner _ := none
  thread _ := .run ⟨.lock, .init false⟩

theorem launch_launchOf {K : ℕ} {m : Memory} (opened : m.Opened) : Launch (launchOf K m) where
  opened := opened
  free := rfl
  thread _ := ⟨false, rfl⟩

end DeviceProgramming.FileConcatenate
