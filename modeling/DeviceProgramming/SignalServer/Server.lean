import DeviceProgramming.Machine.System
import DeviceProgramming.Machine.Int32
import Mathlib.Data.Fintype.Sum
import Mathlib.Logic.Function.Basic
import Mathlib.Tactic.DeriveFintype

namespace DeviceProgramming.SignalServer

/-- The two threads that run `thread_func`, with `id` 1 and 2. -/
inductive Client
  | client1
  | client2
  deriving DecidableEq

instance : Fintype Client where
  elems := {.client1, .client2}
  complete i := by cases i <;> decide

/-- The threads of the process; the handler can interrupt any of them. -/
inductive Tid
  | main
  | client (i : Client)
  deriving DecidableEq, Fintype

/-- The statements of `main` from the first `pthread_create` on. -/
inductive MainAt
  | create1
  | create2
  | join1
  | join2
  | print
  | returned
  deriving DecidableEq

/-- The statements of `thread_func`; a client is `absent` until it is created. -/
inductive ClientAt
  | absent
  | fopen
  | waitMutex
  | fread
  | postMutexEnd
  | fclose
  | postMutex
  | kill
  | waitReady
  | waitMutex2
  | print
  | postMutex2
  | done
  deriving DecidableEq

/-- The statements of `server_func`. -/
inductive HandlerAt
  | waitMutex
  | double
  | count
  | postMutex
  | postReady
  | signal
  deriving DecidableEq

/-- The variables, what is left of each client's stream, what has been printed,
and where each thread is; `handler` is the `server_func` that runs on top of a
thread and suspends it, and `pending` the one bit for `SIGUSR1`. -/
structure State where
  number : ℤ
  requestNb : ℤ
  ready : ℕ
  mutex : ℕ
  pending : Bool
  stream : Client → List UInt8
  printed : List (Client × ℤ)
  reported : Option ℤ
  main : MainAt
  client : Client → ClientAt
  handler : Tid → Option HandlerAt

/-- `run` lets a thread, or the handler on top of it, go on; `left` is what a
read that fails in the middle of a number leaves in `number`. `deliver` starts
the handler on a thread. -/
inductive Label
  | run (t : Tid) (left : ℤ)
  | deliver (t : Tid)
  deriving DecidableEq

/-- An `int` of four bytes, the lowest first. -/
def intOfBytes (b0 b1 b2 b3 : UInt8) : ℤ :=
  int32 (b0.toNat + 2 ^ 8 * b1.toNat + 2 ^ 16 * b2.toNat + 2 ^ 24 * b3.toNat)

/-- The first `int` of a stream and the bytes behind it. -/
def readInt : List UInt8 → Option (ℤ × List UInt8)
  | b0 :: b1 :: b2 :: b3 :: rest => some (intOfBytes b0 b1 b2 b3, rest)
  | _ => none

/-- The ints in a file. -/
def ints : List UInt8 → List ℤ
  | b0 :: b1 :: b2 :: b3 :: rest => intOfBytes b0 b1 b2 b3 :: ints rest
  | _ => []

namespace State

def goto (s : State) (i : Client) (at' : ClientAt) : State := { s with client := Function.update s.client i at' }

def handle (s : State) (t : Tid) (at' : Option HandlerAt) : State :=
  { s with handler := Function.update s.handler t at' }

/-- Threads that exist and have not returned. -/
def alive (s : State) : Tid → Bool
  | .main => true
  | .client i => s.client i ≠ .absent ∧ s.client i ≠ .done

end State

def mainStep (s : State) : Option State := match s.main with
  | .create1 => some ({ s with main := .create2 }.goto .client1 .fopen)
  | .create2 => some ({ s with main := .join1 }.goto .client2 .fopen)
  | .join1 => if s.client .client1 = .done then some { s with main := .join2 } else none
  | .join2 => if s.client .client2 = .done then some { s with main := .print } else none
  | .print => some { s with reported := some s.requestNb, main := .returned }
  | .returned => none

/-- The files `fv1.b` and `fv2.b`, as far as they can be opened. -/
abbrev Files := Client → Option (List UInt8)

def clientStep (files : Files) (i : Client) (left : ℤ) (s : State) : Option State := match s.client i with
  | .absent | .done => none
  | .fopen => match files i with
    | none => some (s.goto i .done)
    | some bytes => some ({ s with stream := Function.update s.stream i bytes }.goto i .waitMutex)
  | .waitMutex => if s.mutex = 0 then none else some ({ s with mutex := s.mutex - 1 }.goto i .fread)
  | .fread => match readInt (s.stream i) with
    | some (x, rest) =>
      some ({ s with number := x, stream := Function.update s.stream i rest }.goto i .postMutex)
    | none =>
      some ({ s with number := if s.stream i = [] then s.number else int32 left
                     stream := Function.update s.stream i [] }.goto i .postMutexEnd)
  | .postMutexEnd => some ({ s with mutex := s.mutex + 1 }.goto i .fclose)
  | .fclose => some (s.goto i .done)
  | .postMutex => some ({ s with mutex := s.mutex + 1 }.goto i .kill)
  | .kill => some ({ s with pending := true }.goto i .waitReady)
  | .waitReady => if s.ready = 0 then none else some ({ s with ready := s.ready - 1 }.goto i .waitMutex2)
  | .waitMutex2 => if s.mutex = 0 then none else some ({ s with mutex := s.mutex - 1 }.goto i .print)
  | .print => some ({ s with printed := s.printed ++ [(i, s.number)] }.goto i .postMutex2)
  | .postMutex2 => some ({ s with mutex := s.mutex + 1 }.goto i .waitMutex)

def handlerStep (t : Tid) (s : State) : HandlerAt → Option State
  | .waitMutex =>
    if s.mutex = 0 then none else some ({ s with mutex := s.mutex - 1 }.handle t (some .double))
  | .double => some ({ s with number := int32 (s.number * 2) }.handle t (some .count))
  | .count => some ({ s with requestNb := int32 (s.requestNb + 1) }.handle t (some .postMutex))
  | .postMutex => some ({ s with mutex := s.mutex + 1 }.handle t (some .postReady))
  | .postReady => some ({ s with ready := s.ready + 1 }.handle t (some .signal))
  | .signal => some (s.handle t none)

/-- A step of the process, which ends when `main` returns. -/
def next (files : Files) (s : State) : Label → Option State
  | .run t left =>
    if s.main = .returned then none
    else match s.handler t with
      | some at' => handlerStep t s at'
      | none => match t with
        | .main => mainStep s
        | .client i => clientStep files i left s
  | .deliver t =>
    if s.main ≠ .returned ∧ s.pending = true ∧ s.handler t = none ∧ s.alive t = true then
      some ({ s with pending := false }.handle t (some .waitMutex))
    else none

/-- The variables as `main` sets them before it creates the clients. -/
def launch : State where
  number := 0
  requestNb := 0
  ready := 0
  mutex := 1
  pending := false
  stream _ := []
  printed := []
  reported := none
  main := .create1
  client _ := .absent
  handler _ := none

def server (files : Files) : System State Label where
  start := (· = launch)
  next := next files

end DeviceProgramming.SignalServer
