import DeviceProgramming.Offices.Delivery

namespace DeviceProgramming.Offices

/-- The fields of a `Buffer`. -/
inductive Field
  | buffer
  | lock
  | notfull
  | notempty
  | into
  | out
  | count
  | dim
  deriving DecidableEq

/-- The fields of `*cond`. -/
inductive CondField
  | lock
  | cond
  | urgent
  | normal
  deriving DecidableEq

/-- The heap cells that the threads use: `*student_number`, `*office_number`, the
entries of `urgent_Q` and `answer_Q`, the fields and the cells of each queue, the
fields of `*cond` and the entries of `cond->urgent`. -/
inductive Cell (k : ℕ)
  | studentNumber (i : Fin k)
  | officeNumber (o : Fin numOffices)
  | pointer (q : Queue k)
  | field (q : Queue k) (f : Field)
  | info (q : Queue k) (j : ℕ)
  | cond (f : CondField)
  | urgent (o : ℕ)
  deriving DecidableEq

section
variable {k : ℕ}

/-- `normal_Q` and `special_Q` are variables; the others are entries of arrays. -/
def Queue.pointer : Queue k → List (Cell k)
  | normal | special => []
  | urgent o => [.pointer (.urgent o)]
  | answer i => [.pointer (.answer i)]

def Lock.cells : Lock k → List (Cell k)
  | buffer q => [.field q .lock]
  | cond => [.cond .lock]
  | numStudents => []

/-- What `send(buf, info)` reads. -/
def SendAt.reads (q : Queue k) (info : Info k) : SendAt → List (Cell k)
  | lock => q.pointer ++ [.field q .lock]
  | test => [.field q .count, .field q .dim]
  | wait => [.field q .notfull, .field q .lock]
  | fill => [.field q .buffer, .field q .into, .field q .dim, .field q .count]
  | notify => [.field q .notempty]
  | lockCond | unlockCond => [.cond .lock]
  | token =>
      if info.urgent = 1 then
        (Queue.urgent info.officeNo).pointer ++
          if q = .urgent info.officeNo then [.cond .urgent, .urgent info.officeNo]
          else if q = .special then [.cond .urgent, .urgent numOffices]
          else []
      else if q = .normal then [.cond .normal]
      else []
  | broadcast => [.cond .cond]
  | unlock => [.field q .lock]

/-- `*office_number`, where a call of `receive` or what follows it reads it. -/
def Receiver.numbers : Receiver k → List (Cell k)
  | officeTake _ o => [.officeNumber o]
  | await _ _ | specialTake => []

/-- What `receive(buf)` reads. -/
def ReceiveAt.reads (m : Memory k) (receiver : Receiver k) : ReceiveAt (Message k) → List (Cell k)
  | lock => receiver.numbers ++ receiver.queue.pointer ++ [.field receiver.queue .lock]
  | test => [.field receiver.queue .count]
  | wait => [.field receiver.queue .notempty, .field receiver.queue .lock]
  | take => [.field receiver.queue .buffer, .field receiver.queue .out, .info receiver.queue (m.buf receiver.queue).out,
      .field receiver.queue .dim, .field receiver.queue .count]
  | notify _ => [.field receiver.queue .notfull]
  | unlock _ => .field receiver.queue .lock :: receiver.numbers

/-- The cells that a statement reads; `&&` reads `cond->normal` only after a zero. -/
def Pc.reads (m : Memory k) : Pc k → List (Cell k)
  | studentInit i => [.studentNumber i]
  | finish _ _ => []
  | officeInit o | officeServe o _ => [.officeNumber o]
  | officeLock _ | officeUnlock _ _ | specialLock | specialUnlock => [.cond .lock]
  | officeTest o | officeClaim o =>
      [.officeNumber o, .cond .urgent, .urgent o] ++ if m.urgent o = 0 then [.cond .normal] else []
  | officeWait _ | specialWait => [.cond .cond, .cond .lock]
  | specialTest | specialClaim => [.cond .urgent, .urgent numOffices]
  | send site info at' => at'.reads (site.queue info) info
  | receive receiver at' => at'.reads m receiver

/-- What the next step of a thread reads: a statement, or the lock that a woken
thread takes back. -/
def reads (s : State k) (t : Tid k) : List (Cell k) :=
  match s.thread t with
  | .run pc => pc.reads s.mem
  | .relock lock _ => lock.cells
  | .asleep _ _ _ => []

/-- What `B_init` writes, with the pointer to it. -/
def Queue.made (q : Queue k) : List (Cell k) :=
  q.pointer ++ [.field q .buffer, .field q .lock, .field q .notfull, .field q .notempty, .field q .into, .field q .out,
    .field q .count, .field q .dim]

/-- The cells that a statement writes. -/
def Pc.writes (m : Memory k) : Pc k → List (Cell k)
  | studentInit i => (Queue.answer i).made
  | officeInit o => (Queue.urgent o).made
  | send site info .fill =>
      [.info (site.queue info) (m.buf (site.queue info)).into, .field (site.queue info) .into,
        .field (site.queue info) .count]
  | send site info .token =>
      if info.urgent = 1 then
        if site.queue info = .urgent info.officeNo then [.urgent info.officeNo]
        else if site.queue info = .special then [.urgent numOffices]
        else []
      else if site.queue info = .normal then [.cond .normal]
      else []
  | receive receiver .take => [.field receiver.queue .out, .field receiver.queue .count]
  | officeClaim o => if m.urgent o ≠ 0 then [.urgent o] else [.cond .normal]
  | specialClaim => [.urgent numOffices]
  | _ => []

def writes (s : State k) (t : Tid k) : List (Cell k) :=
  match s.thread t with
  | .run pc => pc.writes s.mem
  | _ => []

/-- The cells that `main` has written: the arguments of the threads, two queues
and `*cond`, but not the entries of `cond->urgent`. -/
def Cell.Prepared : Cell k → Prop
  | studentNumber _ | officeNumber _ | cond _ => True
  | field q _ => q = .normal ∨ q = .special
  | pointer _ | info _ _ | urgent _ => False

/-- The cells written by `main` or in a run, whose last step comes first. -/
def Written : List (State k × Tid k × ℕ) → Cell k → Prop
  | [], c => c.Prepared
  | (s, t, _) :: path, c => Written path c ∨ c ∈ writes s t

/-- Each cell of a kind that a step of the run reads was written before. -/
def ReadsWritten (kind : Cell k → Prop) : List (State k × Tid k × ℕ) → Prop
  | [] => True
  | (s, t, _) :: path => ReadsWritten kind path ∧ ∀ c ∈ reads s t, kind c → Written path c

/-- The entry of `cond->urgent` on which a loop of an office decides. -/
def Pc.tests : Pc k → Option ℕ
  | officeTest o => some o
  | specialTest => some numOffices
  | _ => none

def tests (s : State k) (t : Tid k) : Option ℕ :=
  match s.thread t with
  | .run pc => pc.tests
  | _ => none

end

end DeviceProgramming.Offices
