import DeviceProgramming.Machine.Ownership
import DeviceProgramming.Offices.Office

namespace DeviceProgramming.Offices

variable {k : ℕ}

/-- What a statement of thread `t` does to the memory and where it leads. -/
inductive Effect (t : Tid k) (rand : ℕ) (m : Memory k) : Pc k → Memory k → Pc k → Prop
  | studentInit {i} : Effect t rand m (.studentInit i) (m.create (.answer i) 2)
      (.send (.ask .normal) ⟨i, numOffices, 0⟩ .lock)
  | decrementLast {info} : m.num - 1 = 0 →
      Effect t rand m (.finish info .decrement) { m with num := m.num - 1 } (.finish info .unlockLast)
  | decrement {info} : m.num - 1 ≠ 0 →
      Effect t rand m (.finish info .decrement) { m with num := m.num - 1 } (.finish info .unlock)
  | kill {info} : Effect t rand m (.finish info .kill) { m with killed := true } (.finish info .done)
  | officeInit {o} : Effect t rand m (.officeInit o) (m.create (.urgent o) (k / 2)) (.officeLock o)
  | officeIdle {o : Fin numOffices} : m.urgent o = 0 → m.normal = 0 → Effect t rand m (.officeTest o) m (.officeWait o)
  | officeWork {o : Fin numOffices} : ¬ (m.urgent o = 0 ∧ m.normal = 0) →
      Effect t rand m (.officeTest o) m (.officeClaim o)
  | claimUrgent {o : Fin numOffices} : m.urgent o ≠ 0 → Effect t rand m (.officeClaim o)
      { m with urgent := Function.update m.urgent o (m.urgent o - 1) } (.officeUnlock true o)
  | claimNormal {o : Fin numOffices} : m.urgent o = 0 → Effect t rand m (.officeClaim o)
      { m with normal := m.normal - 1 } (.officeUnlock false o)
  | officeServe {o info} : Effect t rand m (.officeServe o info) m
      (.send (.officeReply false o) { info with officeNo := o, urgent := if rand % 10 < 4 then 1 else 0 } .lock)
  | specialIdle : m.urgent numOffices = 0 → Effect t rand m .specialTest m .specialWait
  | specialWork : m.urgent numOffices ≠ 0 → Effect t rand m .specialTest m .specialClaim
  | specialClaim : Effect t rand m .specialClaim
      { m with urgent := Function.update m.urgent numOffices (m.urgent numOffices - 1) } .specialUnlock
  | sendFull {site info} : (m.buf (site.queue info)).count = (m.buf (site.queue info)).dim →
      Effect t rand m (.send site info .test) m (.send site info .wait)
  | sendSpace {site info} : (m.buf (site.queue info)).count ≠ (m.buf (site.queue info)).dim →
      Effect t rand m (.send site info .test) m (.send site info .fill)
  | fill {site info} : Effect t rand m (.send site info .fill) (m.fill (site.queue info) ⟨info, site⟩)
      (.send site info .notify)
  | token {site info} : Effect t rand m (.send site info .token) (m.token (site.queue info) info)
      (.send site info .broadcast)
  | receiveEmpty {receiver} : (m.buf receiver.queue).count = 0 →
      Effect t rand m (.receive receiver .test) m (.receive receiver .wait)
  | receiveSome {receiver} : (m.buf receiver.queue).count ≠ 0 →
      Effect t rand m (.receive receiver .test) m (.receive receiver .take)
  | take {receiver} : Effect t rand m (.receive receiver .take) (m.take receiver.queue t)
      (.receive receiver (.notify (m.buf receiver.queue).first))

theorem effect_of_exec {t : Tid k} {rand : ℕ} {pc next : Pc k} {m m' : Memory k}
    {effect : ℕ → Memory k → Option (Memory k × Pc k)} (here : instr t pc = .exec effect)
    (run : effect rand m = some (m', next)) : Effect t rand m pc m' next := by
  cases pc
  case send site info at' =>
    cases at' <;> cases here <;> cases run
    case test =>
      split
      · rename_i full
        exact .sendFull full
      · rename_i space
        exact .sendSpace space
    all_goals constructor
  case receive receiver at' =>
    cases at' <;> cases here <;> cases run
    case test =>
      split
      · rename_i empty
        exact .receiveEmpty empty
      · rename_i some
        exact .receiveSome some
    all_goals constructor
  case finish info at' =>
    cases at' <;> cases here <;> cases run
    case decrement =>
      split
      · rename_i last
        exact .decrementLast last
      · rename_i more
        exact .decrement more
    all_goals constructor
  case officeTest o =>
    cases here
    cases run
    split
    · rename_i idle
      exact .officeIdle idle.1 idle.2
    · rename_i work
      exact .officeWork work
  case officeClaim o =>
    cases here
    by_cases urgent : m.urgent o ≠ 0
    · simp only [urgent, ne_eq, not_false_eq_true, if_true] at run
      cases run
      exact .claimUrgent urgent
    · rw [not_not] at urgent
      simp only [urgent, ne_eq, not_true_eq_false, if_false] at run
      cases run
      exact .claimNormal urgent
  case specialTest =>
    cases here
    cases run
    split
    · rename_i idle
      exact .specialIdle idle
    · rename_i work
      exact .specialWork work
  all_goals
    cases here
    try cases run
    try constructor

/-- Where the statements that leave the memory alone lead to. -/
inductive Control : Pc k → Pc k → Prop
  | sendLock {site info} : Control (.send site info .lock) (.send site info .test)
  | sendWait {site info} : Control (.send site info .wait) (.send site info .test)
  | sendNotify {site info} : Control (.send site info .notify) (.send site info .lockCond)
  | sendLockCond {site info} : Control (.send site info .lockCond) (.send site info .token)
  | sendBroadcast {site info} : Control (.send site info .broadcast) (.send site info .unlockCond)
  | sendUnlockCond {site info} : Control (.send site info .unlockCond) (.send site info .unlock)
  | asked {service info} : Control (.send (.ask service) info .unlock) (.receive (.await service info) .lock)
  | replied {urgent o info} : Control (.send (.officeReply urgent o) info .unlock) (.officeLock o)
  | specialReplied {info} : Control (.send .specialReply info .unlock) .specialLock
  | receiveLock {receiver} : Control (.receive receiver .lock) (.receive receiver .test)
  | receiveWait {receiver} : Control (.receive receiver .wait) (.receive receiver .test)
  | receiveNotify {receiver message} :
      Control (.receive receiver (.notify message)) (.receive receiver (.unlock message))
  | answeredUrgent {info message} : message.info.urgent = 1 →
      Control (.receive (.await .normal info) (.unlock message)) (.send (.ask .special) message.info .lock)
  | answered {info message} : message.info.urgent ≠ 1 →
      Control (.receive (.await .normal info) (.unlock message)) (.finish message.info .lock)
  | specialAnswered {info message} :
      Control (.receive (.await .special info) (.unlock message)) (.send (.ask .urgent) message.info .lock)
  | urgentAnswered {info message} :
      Control (.receive (.await .urgent info) (.unlock message)) (.finish message.info .lock)
  | tookUrgent {o message} : Control (.receive (.officeTake true o) (.unlock message))
      (.send (.officeReply true o) { message.info with urgent := 0 } .lock)
  | took {o message} : Control (.receive (.officeTake false o) (.unlock message)) (.officeServe o message.info)
  | specialTook {message} :
      Control (.receive .specialTake (.unlock message)) (.send .specialReply message.info .lock)
  | finishLock {info} : Control (.finish info .lock) (.finish info .decrement)
  | finishUnlockLast {info} : Control (.finish info .unlockLast) (.finish info .kill)
  | finishUnlock {info} : Control (.finish info .unlock) (.finish info .done)
  | officeLock {o} : Control (.officeLock o) (.officeTest o)
  | officeWait {o} : Control (.officeWait o) (.officeTest o)
  | officeUnlock {urgent o} : Control (.officeUnlock urgent o) (.receive (.officeTake urgent o) .lock)
  | specialLock : Control .specialLock .specialTest
  | specialWait : Control .specialWait .specialTest
  | specialUnlock : Control .specialUnlock (.receive .specialTake .lock)

theorem control_of_target {t : Tid k} {pc next : Pc k} (target : (instr t pc).target = some next) :
    Control pc next := by
  cases pc
  case send site info at' =>
    cases at' <;> cases target
    case unlock => rcases site with _ | _ | _ <;> constructor
    all_goals constructor
  case receive receiver at' =>
    cases at' <;> cases target
    case unlock message =>
      rcases receiver with ⟨_ | _ | _, info⟩ | ⟨_ | _, o⟩ | _
      case await.normal =>
        by_cases urgent : message.info.urgent = 1
        · simp only [Receiver.after, urgent, if_true]
          exact .answeredUrgent urgent
        · simp only [Receiver.after, urgent, if_false]
          exact .answered urgent
      all_goals constructor
    all_goals constructor
  case finish info at' => cases at' <;> cases target <;> constructor
  all_goals
    cases target
    try constructor

/-- The four places where a thread waits. -/
inductive Sleeps : Pc k → Chan k → Lock k → Pc k → Prop
  | send {site info} : Sleeps (.send site info .wait) (.notfull (site.queue info)) (.buffer (site.queue info))
      (.send site info .test)
  | receive {receiver} : Sleeps (.receive receiver .wait) (.notempty receiver.queue) (.buffer receiver.queue)
      (.receive receiver .test)
  | office {o} : Sleeps (.officeWait o) .cond .cond (.officeTest o)
  | special : Sleeps .specialWait .cond .cond .specialTest

theorem sleeps_of_instr {t : Tid k} {pc next : Pc k} {chan : Chan k} {lock : Lock k}
    (here : instr t pc = .sleep chan lock next) : Sleeps pc chan lock next := by
  cases pc
  case send site info at' =>
    cases at' <;> cases here
    exact .send
  case receive receiver at' =>
    cases at' <;> cases here
    exact .receive
  case finish info at' => cases at' <;> cases here
  all_goals
    cases here
    try constructor

/-- Where a thread sleeps that goes on at a statement, and with which lock. -/
def Pc.sleepsOn : Pc k → Option (Chan k × Lock k)
  | send site info .test => some (.notfull (site.queue info), .buffer (site.queue info))
  | receive receiver .test => some (.notempty receiver.queue, .buffer receiver.queue)
  | officeTest _ | specialTest => some (.cond, .cond)
  | _ => none

theorem sleepsOn_of_sleep {t : Tid k} {pc next : Pc k} {chan : Chan k} {lock : Lock k}
    (here : instr t pc = .sleep chan lock next) : next.sleepsOn = some (chan, lock) := by
  cases sleeps_of_instr here <;> rfl

end DeviceProgramming.Offices
