import DeviceProgramming.Machine.Awake
import Mathlib.Data.Fintype.Sum
import Mathlib.Tactic.DeriveFintype

namespace DeviceProgramming.ReaderWriter

/-- The reader and the writer threads. -/
inductive Tid (readers writers : ℕ)
  | reader (i : Fin readers)
  | writer (i : Fin writers)
  deriving DecidableEq, Fintype

/-- `library->lock` and `count->lock`. A lock can be released by any thread. -/
inductive Lock
  | library
  | count
  deriving DecidableEq

/-- The two counters, and what the readers have printed. -/
structure Memory where
  library : ℤ
  count : ℤ
  printed : List ℤ

/-- The statements of `reader`. -/
inductive ReaderAt
  | lockCount
  | increment
  | lockLibrary
  | unlockCount
  | read
  | lockCount2
  | decrement
  | unlockLibrary
  | unlockCount2
  | done
  deriving DecidableEq

/-- The statements of `writer`. -/
inductive WriterAt
  | lock
  | update
  | unlock
  | done
  deriving DecidableEq

inductive Pc
  | reader (at' : ReaderAt)
  | writer (at' : WriterAt)
  deriving DecidableEq

def readerInstr : ReaderAt → Instr Lock Empty Memory Pc Unit
  | .lockCount => .acquire .count (.reader .increment)
  | .increment => .exec fun _ m =>
      some ({ m with count := m.count + 1 },
        .reader (if m.count + 1 = 1 then .lockLibrary else .unlockCount))
  | .lockLibrary => .acquire .library (.reader .unlockCount)
  | .unlockCount => .release .count (.reader .read)
  | .read => .exec fun _ m => some ({ m with printed := m.printed ++ [m.library] }, .reader .lockCount2)
  | .lockCount2 => .acquire .count (.reader .decrement)
  | .decrement => .exec fun _ m =>
      some ({ m with count := m.count - 1 },
        .reader (if m.count - 1 = 0 then .unlockLibrary else .unlockCount2))
  | .unlockLibrary => .release .library (.reader .unlockCount2)
  | .unlockCount2 => .release .count (.reader .done)
  | .done => .exec fun _ _ => none

def writerInstr : WriterAt → Instr Lock Empty Memory Pc Unit
  | .lock => .acquire .library (.writer .update)
  | .update => .exec fun _ m => some ({ m with library := m.library + 1 }, .writer .unlock)
  | .unlock => .release .library (.writer .done)
  | .done => .exec fun _ _ => none

section
variable {readers writers : ℕ}

def Tid.entry : Tid readers writers → Pc
  | reader _ => .reader .lockCount
  | writer _ => .writer .lock

end

section
variable (readers writers : ℕ)

/-- The threads that `main` creates; all of them run `reader` or `writer`. -/
def program : Program (Tid readers writers) Lock Empty Memory Pc Unit where
  instr _ pc := match pc with
    | .reader at' => readerInstr at'
    | .writer at' => writerInstr at'
  halted _ := false

abbrev State := Threads (Tid readers writers) Lock Empty Memory Pc

/-- The counters as `counter_init` makes them, and all threads at their start. -/
def launch : State readers writers where
  mem := { library := 0, count := 0, printed := [] }
  owner _ := none
  thread t := .run t.entry

abbrev library : System (State readers writers) (Tid readers writers × Unit) :=
  (program readers writers).system (· = launch readers writers)

end

end DeviceProgramming.ReaderWriter
