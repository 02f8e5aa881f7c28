import DeviceProgramming.Offices.Calls
import Mathlib.Data.Fintype.Sum
import Mathlib.Tactic.DeriveFintype

namespace DeviceProgramming.Offices

abbrev numOffices : ℕ := 4

/-- The infos about a student. -/
structure Info (k : ℕ) where
  id : Fin k
  officeNo : ℕ
  urgent : ℕ
  deriving DecidableEq

/-- What a student asks for, one after the other. -/
inductive Service
  | normal
  | special
  | urgent
  deriving DecidableEq

/-- The calls of `send`: of a student, of office `o` after a request from
`urgent_Q` or `normal_Q`, and of the special office. -/
inductive Site
  | ask (service : Service)
  | officeReply (urgent : Bool) (o : Fin numOffices)
  | specialReply
  deriving DecidableEq

/-- What a queue holds: an `Info`, and as history the call that sent it. -/
structure Message (k : ℕ) where
  info : Info k
  site : Site
  deriving DecidableEq

/-- `normal_Q`, `special_Q` and the entries of `urgent_Q` and `answer_Q`. -/
inductive Queue (k : ℕ)
  | normal
  | special
  | urgent (o : ℕ)
  | answer (i : Fin k)
  deriving DecidableEq

inductive Tid (k : ℕ)
  | student (i : Fin k)
  | office (o : Fin numOffices)
  | specialOffice
  deriving DecidableEq, Fintype

inductive Lock (k : ℕ)
  | buffer (q : Queue k)
  | cond
  | numStudents
  deriving DecidableEq

/-- The condition variables of the queues and of `cond`. -/
inductive Chan (k : ℕ)
  | notfull (q : Queue k)
  | notempty (q : Queue k)
  | cond
  deriving DecidableEq

/-- The shared variables. The last two fields are history: whether a queue has
been created, and the messages each thread has received. -/
structure Memory (k : ℕ) where
  buf : Queue k → RingBuffer (Message k)
  urgent : ℕ → ℤ
  normal : ℤ
  num : ℤ
  killed : Bool
  ready : Queue k → Bool
  received : Tid k → List (Message k)

/-- The statements of a student that has got its last answer. -/
inductive FinishAt
  | lock
  | decrement
  | unlockLast
  | kill
  | unlock
  | done
  deriving DecidableEq

/-- The calls of `receive`: of a student with `info` that waits for an answer, of
office `o` that has claimed a request, and of the special office. -/
inductive Receiver (k : ℕ)
  | await (service : Service) (info : Info k)
  | officeTake (urgent : Bool) (o : Fin numOffices)
  | specialTake
  deriving DecidableEq

/-- The statements of the threads. -/
inductive Pc (k : ℕ)
  | studentInit (studentNumber : Fin k)
  | finish (info : Info k) (at' : FinishAt)
  | officeInit (o : Fin numOffices)
  | officeLock (o : Fin numOffices)
  | officeTest (o : Fin numOffices)
  | officeWait (o : Fin numOffices)
  | officeClaim (o : Fin numOffices)
  | officeUnlock (urgent : Bool) (o : Fin numOffices)
  | officeServe (o : Fin numOffices) (info : Info k)
  | specialLock
  | specialTest
  | specialWait
  | specialClaim
  | specialUnlock
  | send (site : Site) (info : Info k) (at' : SendAt)
  | receive (receiver : Receiver k) (at' : ReceiveAt (Message k))
  deriving DecidableEq

section
variable {k : ℕ}

/-- The queue that a call of `send` is given. -/
def Site.queue (info : Info k) : Site → Queue k
  | ask .normal => .normal
  | ask .special => .special
  | ask .urgent => .urgent info.officeNo
  | officeReply _ _ | specialReply => .answer info.id

/-- Where a call of `send` returns to. -/
def Site.after (info : Info k) : Site → Pc k
  | ask service => .receive (.await service info) .lock
  | officeReply _ o => .officeLock o
  | specialReply => .specialLock

/-- The queue that a call of `receive` is given. -/
def Receiver.queue : Receiver k → Queue k
  | await _ info => .answer info.id
  | officeTake true o => .urgent o
  | officeTake false _ => .normal
  | specialTake => .special

/-- Where a call of `receive` returns to with a message. -/
def Receiver.after (message : Message k) : Receiver k → Pc k
  | await .normal _ =>
      if message.info.urgent = 1 then .send (.ask .special) message.info .lock
      else .finish message.info .lock
  | await .special _ => .send (.ask .urgent) message.info .lock
  | await .urgent _ => .finish message.info .lock
  | officeTake true o => .send (.officeReply true o) { message.info with urgent := 0 } .lock
  | officeTake false o => .officeServe o message.info
  | specialTake => .send .specialReply message.info .lock

namespace Memory

/-- `B_init(dim)` for queue `q`. -/
def create (m : Memory k) (q : Queue k) (dim : ℕ) : Memory k :=
  { m with buf := Function.update m.buf q (.create (m.buf q).buffer dim)
           ready := Function.update m.ready q true }

def fill (m : Memory k) (q : Queue k) (message : Message k) : Memory k :=
  { m with buf := Function.update m.buf q ((m.buf q).fill message) }

/-- Thread `t` reads the first message of queue `q`. -/
def take (m : Memory k) (q : Queue k) (t : Tid k) : Memory k :=
  { m with buf := Function.update m.buf q (m.buf q).take
           received := Function.update m.received t (m.received t ++ [(m.buf q).first]) }

/-- Setting the value in `cond` when `info` has been put into `q`. -/
def token (m : Memory k) (q : Queue k) (info : Info k) : Memory k :=
  if info.urgent = 1 then
    if q = .urgent info.officeNo then
      { m with urgent := Function.update m.urgent info.officeNo (m.urgent info.officeNo + 1) }
    else if q = .special then
      { m with urgent := Function.update m.urgent numOffices (m.urgent numOffices + 1) }
    else m
  else if q = .normal then { m with normal := m.normal + 1 }
  else m

theorem create_self (m : Memory k) (q : Queue k) (dim : ℕ) :
    (m.create q dim).buf q = .create (m.buf q).buffer dim := Function.update_self ..

theorem create_other (m : Memory k) {q other : Queue k} (differ : other ≠ q) (dim : ℕ) :
    (m.create q dim).buf other = m.buf other := Function.update_of_ne differ ..

theorem fill_self (m : Memory k) (q : Queue k) (message : Message k) :
    (m.fill q message).buf q = (m.buf q).fill message := Function.update_self ..

theorem fill_other (m : Memory k) {q other : Queue k} (differ : other ≠ q) (message : Message k) :
    (m.fill q message).buf other = m.buf other := Function.update_of_ne differ ..

theorem take_self (m : Memory k) (q : Queue k) (t : Tid k) : (m.take q t).buf q = (m.buf q).take :=
  Function.update_self ..

theorem take_other (m : Memory k) {q other : Queue k} (differ : other ≠ q) (t : Tid k) :
    (m.take q t).buf other = m.buf other := Function.update_of_ne differ ..

end Memory

/-- The buffer of a queue. -/
def Queue.buffer (q : Queue k) : Buffer (Lock k) (Chan k) (Memory k) (Message k) :=
  ⟨.buffer q, .notfull q, .notempty q, fun m => m.buf q⟩

@[simp] theorem Queue.fields_buffer (q : Queue k) (m : Memory k) : q.buffer.fields m = m.buf q := rfl

/-- The statements of `send(buf, info)`. -/
def sendInstr (site : Site) (info : Info k) : SendAt → Instr (Lock k) (Chan k) (Memory k) (Pc k) ℕ :=
  (site.queue info).buffer.send .cond .cond (fun m => m.fill (site.queue info) ⟨info, site⟩)
    (fun m => m.token (site.queue info) info) (.send site info) (site.after info)

/-- The statements of `receive(buf)` by thread `t`. -/
def receiveInstr (t : Tid k) (receiver : Receiver k) :
    ReceiveAt (Message k) → Instr (Lock k) (Chan k) (Memory k) (Pc k) ℕ :=
  receiver.queue.buffer.receive (fun m => m.take receiver.queue t) (.receive receiver) receiver.after

/-- The statements of a student with `info` after its last answer. -/
def finishInstr (info : Info k) : FinishAt → Instr (Lock k) (Chan k) (Memory k) (Pc k) ℕ
  | .lock => .acquire .numStudents (.finish info .decrement)
  | .decrement => .exec fun _ m =>
      some ({ m with num := m.num - 1 },
        if m.num - 1 = 0 then .finish info .unlockLast else .finish info .unlock)
  | .unlockLast => .release .numStudents (.finish info .kill)
  | .kill => .exec fun _ m => some ({ m with killed := true }, .finish info .done)
  | .unlock => .release .numStudents (.finish info .done)
  | .done => .exec fun _ _ => none

/-- The statements of thread `t`. The input is what `rand()` returns to an office
that decides whether a student is urgent. -/
def instr (t : Tid k) : Pc k → Instr (Lock k) (Chan k) (Memory k) (Pc k) ℕ
  | .studentInit i => .exec fun _ m =>
      some (m.create (.answer i) 2, .send (.ask .normal) ⟨i, numOffices, 0⟩ .lock)
  | .finish info at' => finishInstr info at'
  | .officeInit o => .exec fun _ m => some (m.create (.urgent o) (k / 2), .officeLock o)
  | .officeLock o => .acquire .cond (.officeTest o)
  | .officeTest o => .exec fun _ m =>
      some (m, if m.urgent o = 0 ∧ m.normal = 0 then .officeWait o else .officeClaim o)
  | .officeWait o => .sleep .cond .cond (.officeTest o)
  | .officeClaim o => .exec fun _ m =>
      some (if m.urgent o ≠ 0 then
          ({ m with urgent := Function.update m.urgent o (m.urgent o - 1) }, .officeUnlock true o)
        else ({ m with normal := m.normal - 1 }, .officeUnlock false o))
  | .officeUnlock urgent o => .release .cond (.receive (.officeTake urgent o) .lock)
  | .officeServe o info => .exec fun rand m =>
      some (m, .send (.officeReply false o)
        { info with officeNo := o, urgent := if rand % 10 < 4 then 1 else 0 } .lock)
  | .specialLock => .acquire .cond .specialTest
  | .specialTest => .exec fun _ m =>
      some (m, if m.urgent numOffices = 0 then .specialWait else .specialClaim)
  | .specialWait => .sleep .cond .cond .specialTest
  | .specialClaim => .exec fun _ m =>
      some ({ m with urgent := Function.update m.urgent numOffices (m.urgent numOffices - 1) },
        .specialUnlock)
  | .specialUnlock => .release .cond (.receive .specialTake .lock)
  | .send site info at' => sendInstr site info at'
  | .receive receiver at' => receiveInstr t receiver at'

/-- The first statement of each thread. -/
def Tid.entry : Tid k → Pc k
  | student i => .studentInit i
  | office o => .officeInit o
  | specialOffice => .specialLock

end

/-- The threads as a concurrent program, which `SIGTERM` ends as a whole. -/
def program (k : ℕ) : Program (Tid k) (Lock k) (Chan k) (Memory k) (Pc k) ℕ where
  instr := instr
  halted m := m.killed

abbrev State (k : ℕ) := Threads (Tid k) (Lock k) (Chan k) (Memory k) (Pc k)

/-- The threads as `main` starts them, with `cond->urgent` at zero and memory
from `malloc` with any contents. -/
structure Opening {k : ℕ} (s : State k) : Prop where
  thread : ∀ t, s.thread t = .run t.entry
  owner : ∀ l, s.owner l = none
  normalQ : ∃ memory, s.mem.buf .normal = .create memory k
  specialQ : ∃ memory, s.mem.buf .special = .create memory k
  ready : ∀ q, s.mem.ready q = true ↔ q = .normal ∨ q = .special
  urgent : ∀ o, s.mem.urgent o = 0
  normal : s.mem.normal = 0
  num : s.mem.num = k
  killed : s.mem.killed = false
  received : ∀ t, s.mem.received t = []

/-- The runs of the simulation with `k` students. -/
abbrev simulation (k : ℕ) : System (State k) (Tid k × ℕ) := (program k).system Opening

/-- The threads as `main` starts them, with all memory from `malloc` as it comes:
nothing writes the entries of `cond->urgent`. -/
structure Launched {k : ℕ} (s : State k) : Prop where
  thread : ∀ t, s.thread t = .run t.entry
  owner : ∀ l, s.owner l = none
  normalQ : ∃ memory, s.mem.buf .normal = .create memory k
  specialQ : ∃ memory, s.mem.buf .special = .create memory k
  ready : ∀ q, s.mem.ready q = true ↔ q = .normal ∨ q = .special
  normal : s.mem.normal = 0
  num : s.mem.num = k
  killed : s.mem.killed = false
  received : ∀ t, s.mem.received t = []

theorem Opening.launched {k : ℕ} {s : State k} (opening : Opening s) : Launched s where
  thread := opening.thread
  owner := opening.owner
  normalQ := opening.normalQ
  specialQ := opening.specialQ
  ready := opening.ready
  normal := opening.normal
  num := opening.num
  killed := opening.killed
  received := opening.received

/-- The runs from any contents of the memory that `malloc` returns. -/
abbrev launches (k : ℕ) : System (State k) (Tid k × ℕ) := (program k).system Launched

theorem launches_of_simulation {k : ℕ} {ok : State k → Tid k × ℕ → Prop} {s : State k}
    (reach : (simulation k).ReachUnder ok s) : (launches k).ReachUnder ok s := by
  induction reach with
  | start opening => exact .start opening.launched
  | next _ allowed moved ih => exact ih.next allowed moved

/-- A state in which `main` has started the threads. -/
def boot (k : ℕ) (memory : ℕ → Message k) : State k where
  mem :=
    { buf := fun _ => .create memory k
      urgent := fun _ => 0
      normal := 0
      num := k
      killed := false
      ready := fun q => q = .normal || q = .special
      received := fun _ => [] }
  owner _ := none
  thread t := .run t.entry

theorem opening_boot (k : ℕ) (memory : ℕ → Message k) : Opening (boot k memory) where
  thread _ := rfl
  owner _ := rfl
  normalQ := ⟨memory, rfl⟩
  specialQ := ⟨memory, rfl⟩
  ready q := by simp [boot]
  urgent _ := rfl
  normal := rfl
  num := rfl
  killed := rfl
  received _ := rfl

end DeviceProgramming.Offices
