import DeviceProgramming.Machine.Fifo
import DeviceProgramming.Machine.Sleep
import DeviceProgramming.Offices.Office

namespace DeviceProgramming.Buffers

open Offices (SendAt ReceiveAt numOffices)

/-- An `Info` with any values. -/
structure Info where
  id : ℤ
  officeNo : ℤ
  urgent : ℤ
  deriving DecidableEq

/-- The variable that points to the buffer. -/
inductive Queue
  | normal
  | special
  | urgent (o : ℤ)
  | answer
  deriving DecidableEq

structure Cond where
  urgent : ℤ → ℤ
  normal : ℤ

/-- One buffer and `cond`. `events` is history: what has been put into the buffer
and taken out of it. -/
structure Memory where
  buf : RingBuffer Info
  cond : Cond
  events : List (Fifo.Event Info)

inductive Lock
  | buffer
  | cond
  deriving DecidableEq

/-- The condition variables of the buffer and of `cond`. -/
inductive Chan
  | notfull
  | notempty
  | cond
  deriving DecidableEq

/-- Outside of `send` and `receive`, or at one of their statements. -/
inductive Pc
  | outside
  | send (info : Info) (at' : SendAt)
  | receive (at' : ReceiveAt Info)
  deriving DecidableEq

/-- Setting the value in `cond` when `info` has been put into the buffer. -/
def Cond.token (q : Queue) (info : Info) (c : Cond) : Cond :=
  if info.urgent = 1 then
    if q = .urgent info.officeNo then
      { c with urgent := Function.update c.urgent info.officeNo (c.urgent info.officeNo + 1) }
    else if q = .special then { c with urgent := Function.update c.urgent numOffices (c.urgent numOffices + 1) }
    else c
  else if q = .normal then { c with normal := c.normal + 1 }
  else c

namespace Memory

def fill (m : Memory) (info : Info) : Memory :=
  { m with buf := m.buf.fill info, events := m.events ++ [.put info] }

def take (m : Memory) : Memory := { m with buf := m.buf.take, events := m.events ++ [.get m.buf.first] }

/-- What `send` has stored. -/
def sent (m : Memory) : List Info := Fifo.puts m.events

/-- What `receive` has read. -/
def received (m : Memory) : List Info := Fifo.gets m.events

end Memory

/-- The buffer. -/
def buffer : Offices.Buffer Lock Chan Memory Info := ⟨.buffer, .notfull, .notempty, fun m => m.buf⟩

@[simp] theorem buffer_lock : buffer.lock = .buffer := rfl

/-- The statements of `send(buf, info)`. -/
def sendInstr (q : Queue) (info : Info) : SendAt → Instr Lock Chan Memory Pc (Option Info) :=
  buffer.send .cond .cond (fun m => m.fill info) (fun m => { m with cond := m.cond.token q info }) (.send info) .outside

/-- The statements of `receive(buf)`. -/
def receiveInstr : ReceiveAt Info → Instr Lock Chan Memory Pc (Option Info) :=
  buffer.receive (fun m => m.take) .receive fun _ => .outside

/-- A thread outside calls `send` with any `info`, or `receive`. -/
def instr (q : Queue) : Pc → Instr Lock Chan Memory Pc (Option Info)
  | .outside => .exec fun
    | some info, m => some (m, .send info .lock)
    | none, m => some (m, .receive .lock)
  | .send info at' => sendInstr q info at'
  | .receive at' => receiveInstr at'

section
variable (Tid : Type*) (q : Queue) (dim : ℕ)

/-- Any senders and receivers. -/
def program : Program Tid Lock Chan Memory Pc (Option Info) where
  instr _ := instr q
  halted _ := false

abbrev State := Threads Tid Lock Chan Memory Pc

/-- The buffer as `B_init(dim)` makes it, and no call yet. -/
structure Fresh (s : State Tid) : Prop where
  thread : ∀ t, s.thread t = .run .outside
  owner : ∀ l, s.owner l = none
  buf : ∃ memory, s.mem.buf = .create memory dim
  events : s.mem.events = []

variable [DecidableEq Tid]

/-- The runs of all threads on one buffer. -/
abbrev exchange : System (State Tid) (Tid × Option Info) := (program Tid q).system (Fresh Tid dim)

end

end DeviceProgramming.Buffers
