import DeviceProgramming.Offices.Locks
import DeviceProgramming.Offices.Stages

namespace DeviceProgramming.Offices

variable {k : ℕ}

/-- The stages in which a call of `send` is reached. -/
def Site.Sends : Site → Stage → Prop
  | ask .normal, .fresh => True
  | ask .special, .home _ true => True
  | ask .urgent, .back _ => True
  | officeReply false o, .drawn o' _ => o' = o
  | officeReply true o, .urgent o' => o' = o
  | specialReply, .special _ => True
  | _, _ => False

/-- The stages in which a call of `receive` has read its message. -/
def Receiver.Got : Receiver k → Stage → Prop
  | await .normal _, .home _ _ => True
  | await .special _, .back _ => True
  | await .urgent _, .served _ => True
  | officeTake false o, .taken o' => o' = o
  | officeTake true o, .urgent o' => o' = o
  | specialTake, .special _ => True
  | _, _ => False

/-- The stages in which a statement has an `Info` in hand. -/
def Pc.At : Pc k → Stage → Prop
  | studentInit _, .fresh => True
  | send site _ _, stage => site.Sends stage
  | receive receiver _, stage => receiver.Got stage
  | officeServe o _, .taken o' => o' = o
  | finish _ _, stage => stage.Last
  | _, _ => False

/-- The `Info` that a call of `receive` goes on with. -/
def Receiver.hand (message : Message k) : Receiver k → Info k
  | officeTake true _ => { message.info with urgent := 0 }
  | _ => message.info

@[simp] theorem Receiver.hand_id (message : Message k) (receiver : Receiver k) :
    (receiver.hand message).id = message.info.id := by
  rcases receiver with _ | ⟨_ | _, o⟩ | _ <;> rfl

def SendAt.filled : SendAt → Bool
  | lock | test | wait | fill => false
  | notify | lockCond | token | broadcast | unlockCond | unlock => true

/-- The `Info` that a thread has in hand at a statement. -/
def Pc.hand : Pc k → Option (Info k)
  | studentInit i => some ⟨i, numOffices, 0⟩
  | finish info _ | officeServe _ info => some info
  | send _ info at' => if at'.filled then none else some info
  | receive receiver (.notify message) | receive receiver (.unlock message) => some (receiver.hand message)
  | _ => none

def ReceiveAt.read : ReceiveAt (Message k) → Bool
  | lock | test | wait | take => false
  | notify _ | unlock _ => true

def Site.service : Site → Option Service
  | ask service => some service
  | officeReply _ _ | specialReply => none

def Receiver.service : Receiver k → Option Service
  | await service _ => some service
  | officeTake _ _ | specialTake => none

/-- The answer that a student is waiting for at a statement. -/
def Pc.awaits : Pc k → Option Service
  | send site _ at' => if at'.filled then site.service else none
  | receive receiver at' => if at'.read then none else receiver.service
  | _ => none

/-- The queue that a call of `send` or `receive` works on. -/
def Pc.queue : Pc k → Option (Queue k)
  | send site info _ => some (site.queue info)
  | receive receiver _ => some receiver.queue
  | _ => none

/-- A statement before the thread has created its queue. -/
def Pc.Initial : Pc k → Prop
  | studentInit _ | officeInit _ => True
  | _ => False

/-- What a student that asks for a service has in its `Info`. -/
def Service.Asks (info : Info k) : Service → Prop
  | normal => info.urgent = 0
  | special | urgent => info.urgent = 1 ∧ info.officeNo < numOffices

/-- The statements that a thread runs, with its own number in them. -/
def Tid.Runs : Tid k → Pc k → Prop
  | student i, .studentInit j => j = i
  | student i, .send (.ask service) info _ => info.id = i ∧ service.Asks info
  | student i, .receive (.await _ info) _ => info.id = i
  | student _, .finish _ _ => True
  | office o, .officeInit o' | office o, .officeLock o' | office o, .officeTest o'
  | office o, .officeWait o' | office o, .officeClaim o' | office o, .officeUnlock _ o'
  | office o, .officeServe o' _ | office o, .send (.officeReply _ o') _ _
  | office o, .receive (.officeTake _ o') _ => o' = o
  | specialOffice, .specialLock | specialOffice, .specialTest | specialOffice, .specialWait
  | specialOffice, .specialClaim | specialOffice, .specialUnlock | specialOffice, .send .specialReply _ _
  | specialOffice, .receive .specialTake _ => True
  | _, _ => False

/-- A queue has been created: its thread is past the creation. -/
def Queue.Created (pcs : Tid k → Pc k) : Queue k → Prop
  | normal | special => True
  | urgent n => ∃ o : Fin numOffices, (o : ℕ) = n ∧ ¬ (pcs (.office o)).Initial
  | answer i => ¬ (pcs (.student i)).Initial

/-- The program in a state where each student's `Info` is at the stage that
`stages` gives. -/
structure Placed (stages : Fin k → Stage) (s : State k) : Prop where
  runs : ∀ t : Tid k, t.Runs (s.pc t)
  carried : ∀ t info, (s.pc t).hand = some info → info = (stages info.id).info info.id ∧
    (s.pc t).At (stages info.id) ∧ (stages info.id).place info.id = .thread t
  inHand : ∀ i t, (stages i).place i = .thread t → (s.pc t).hand = some ((stages i).info i)
  listed : ∀ q, s.mem.ready q = true → ∀ m ∈ (s.mem.buf q).contents,
    (stages m.info.id).place m.info.id = .queue q ∧ m = (stages m.info.id).message m.info.id
  queued : ∀ i q, (stages i).place i = .queue q → s.mem.ready q = true ∧
    ∃ m ∈ (s.mem.buf q).contents, m.info.id = i
  nodup : ∀ q, s.mem.ready q = true → ((s.mem.buf q).contents.map fun m => m.info.id).Nodup
  awaits : ∀ i service, (s.pc (.student i)).awaits = some service → (stages i).awaiting = some service
  received : ∀ i, s.mem.received (.student i) = (stages i).history i
  ready : ∀ q, s.mem.ready q = true ↔ q.Created s.pc
  uses : ∀ t q, (s.pc t).queue = some q → s.mem.ready q = true
  known : ∀ i o, (stages i).office = some o → s.mem.ready (.urgent o) = true

theorem runs_send {t : Tid k} {site : Site} {info : Info k} {at' : SendAt} (other : SendAt)
    (runs : t.Runs (.send site info at')) : t.Runs (.send site info other) := by
  cases t <;> cases site <;> exact runs

theorem runs_receive {t : Tid k} {receiver : Receiver k} {at' : ReceiveAt (Message k)} (other : ReceiveAt (Message k))
    (runs : t.Runs (.receive receiver at')) : t.Runs (.receive receiver other) := by
  cases t <;> cases receiver <;> exact runs

theorem runs_finish {t : Tid k} {info : Info k} {at' : FinishAt} (other : FinishAt)
    (runs : t.Runs (.finish info at')) : t.Runs (.finish info other) := by
  cases t <;> exact runs

namespace Placed
variable {stages : Fin k → Stage} {s s' : State k} {t : Tid k} {next : Pc k}

/-- A thread has the `Info` of at most one student in hand. -/
theorem inHand_unique (placed : Placed stages s) {i j : Fin k} (first : (stages i).place i = .thread t)
    (second : (stages j).place j = .thread t) : i = j := by
  have same := (placed.inHand i t first).symm.trans (placed.inHand j t second)
  have infos := Option.some.inj same
  rw [← Stage.info_id i (stages i), infos, Stage.info_id]

theorem runs_moved (placed : Placed stages s) (moved : s'.pc = Function.update s.pc t next) (runs : t.Runs next)
    (u : Tid k) : u.Runs (s'.pc u) := by
  rcases update_cases moved u with ⟨rfl, now⟩ | ⟨_, now⟩
  · rw [now]
    exact runs
  · rw [now]
    exact placed.runs u

theorem uses_moved (placed : Placed stages s) (moved : s'.pc = Function.update s.pc t next)
    (ready : ∀ q, s.mem.ready q = true → s'.mem.ready q = true)
    (uses : ∀ q, next.queue = some q → s.mem.ready q = true) (u : Tid k) (q : Queue k)
    (works : (s'.pc u).queue = some q) : s'.mem.ready q = true := by
  refine ready q ?_
  rcases update_cases moved u with ⟨rfl, now⟩ | ⟨_, now⟩
  · rw [now] at works
    exact uses q works
  · rw [now] at works
    exact placed.uses u q works

theorem created_moved (moved : s'.pc = Function.update s.pc t next) (before : ¬ (s.pc t).Initial)
    (after : ¬ next.Initial) (q : Queue k) : q.Created s'.pc ↔ q.Created s.pc := by
  have initial (u : Tid k) : (s'.pc u).Initial ↔ (s.pc u).Initial := by
    rcases update_cases moved u with ⟨rfl, now⟩ | ⟨_, now⟩
    · rw [now]
      exact ⟨fun is => absurd is after, fun is => absurd is before⟩
    · rw [now]
  cases q <;> simp only [Queue.Created, initial]

/-- The queue of a student whose `Info` is elsewhere exists. -/
theorem ready_answer (placed : Placed stages s) {i : Fin k}
    (away : (stages i).place i ≠ .thread (.student i)) : s.mem.ready (.answer i) = true := by
  refine (placed.ready _).mpr fun initial => away ?_
  have runs := placed.runs (.student i)
  cases here : s.pc (.student i) <;> rw [here] at initial runs
  case studentInit j =>
    have own : j = i := runs
    subst own
    obtain ⟨_, _, place⟩ := placed.carried (.student j) ⟨j, numOffices, 0⟩ (by rw [here]; rfl)
    exact place
  case officeInit => exact runs.elim
  all_goals exact initial.elim

/-- The queue of a thread that is past its creation exists. -/
theorem ready_own (placed : Placed stages s) (past : ¬ (s.pc t).Initial) :
    (∀ i, t = .student i → s.mem.ready (.answer i) = true) ∧
      ∀ o : Fin numOffices, t = .office o → s.mem.ready (.urgent o) = true := by
  constructor
  · rintro i rfl
    exact (placed.ready _).mpr past
  · rintro o rfl
    exact (placed.ready _).mpr ⟨o, rfl, past⟩

theorem ready_shared (placed : Placed stages s) :
    s.mem.ready .normal = true ∧ s.mem.ready .special = true :=
  ⟨(placed.ready _).mpr trivial, (placed.ready _).mpr trivial⟩

end Placed

end DeviceProgramming.Offices
