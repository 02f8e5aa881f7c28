import DeviceProgramming.Offices.Guards
import DeviceProgramming.Offices.Placed

namespace DeviceProgramming.Offices

variable {k : ℕ}

/-- A thread goes on with the same `Info` in hand, after it has created its queue. -/
structure Goes (stages : Fin k → Stage) (t : Tid k) (pc next : Pc k) : Prop where
  runs : t.Runs next
  hand : next.hand = pc.hand
  at' : ∀ info, next.hand = some info → next.At (stages info.id)
  awaits : ∀ service, next.awaits = some service → pc.awaits = some service
  before : ¬ pc.Initial
  after : ¬ next.Initial

/-- A call of `send` returns. -/
theorem goes_after_send {stages : Fin k → Stage} {t : Tid k} {site : Site} {info : Info k}
    (runs : t.Runs (.send site info .unlock)) : Goes stages t (.send site info .unlock) (site.after info) := by
  cases site with
  | ask service =>
    cases t with
    | student i => exact ⟨runs.1, rfl, nofun, fun _ => id, id, id⟩
    | office | specialOffice => exact runs.elim
  | officeReply urgent o =>
    cases t with
    | office o' => exact ⟨runs, rfl, nofun, nofun, id, id⟩
    | student | specialOffice => exact runs.elim
  | specialReply =>
    cases t with
    | specialOffice => exact ⟨trivial, rfl, nofun, nofun, id, id⟩
    | student | office => exact runs.elim

/-- The message that a student's call of `receive` has read is its own, and the
stage of its `Info` is the one after the answer. -/
theorem got_normal {stages : Fin k → Stage} {t : Tid k} {old : Info k} {message : Message k}
    (same : message.info = (stages message.info.id).info message.info.id)
    (got : (Receiver.await .normal old).Got (stages message.info.id))
    (place : (stages message.info.id).place message.info.id = .thread t) :
    ∃ o u, t = .student message.info.id ∧ stages message.info.id = .home o u ∧
      message.info.officeNo = o ∧ message.info.urgent = u.toNat := by
  cases stage : stages message.info.id with
  | home o u =>
    rw [stage] at place same
    refine ⟨o, u, (Place.thread.inj place).symm, rfl, ?_, ?_⟩
    · rw [same]; rfl
    · rw [same]; rfl
  | _ =>
    rw [stage] at got
    exact got.elim

/-- A call of `receive` returns with its message. -/
theorem goes_after_receive {stages : Fin k → Stage} {t : Tid k} {receiver : Receiver k} {message : Message k}
    (runs : t.Runs (.receive receiver (.unlock message)))
    (same : receiver.hand message = (stages message.info.id).info message.info.id)
    (got : receiver.Got (stages message.info.id))
    (place : (stages message.info.id).place message.info.id = .thread t) :
    Goes stages t (.receive receiver (.unlock message)) (receiver.after message) := by
  cases receiver with
  | await service old =>
    change message.info = (stages message.info.id).info message.info.id at same
    cases service with
    | normal =>
      obtain ⟨o, u, rfl, stage, office, urgent⟩ := got_normal same got place
      by_cases more : message.info.urgent = 1
      · have second : u = true := by
          cases u with
          | true => rfl
          | false => cases urgent.symm.trans more
        simp only [Receiver.after, more, if_true]
        refine ⟨⟨rfl, more, ?_⟩, rfl, fun info has => ?_, fun _ waits => (by cases waits), id, id⟩
        · rw [office]
          exact o.isLt
        · cases Option.some.inj has
          rw [stage, second]
          trivial
      · have last : u = false := by
          cases u with
          | false => rfl
          | true => exact absurd urgent more
        simp only [Receiver.after, more, if_false]
        refine ⟨trivial, rfl, fun info has => ?_, fun _ waits => (by cases waits), id, id⟩
        cases Option.some.inj has
        rw [stage, last]
        trivial
    | special =>
      cases stage : stages message.info.id with
      | back o =>
        rw [stage] at same place
        cases Place.thread.inj place
        refine ⟨⟨rfl, ?_, ?_⟩, rfl, fun info has => ?_, fun _ waits => (by cases waits), id, id⟩
        · rw [same]; rfl
        · rw [same]; exact o.isLt
        · cases Option.some.inj has
          rw [stage]
          trivial
      | _ =>
        rw [stage] at got
        exact got.elim
    | urgent =>
      cases stage : stages message.info.id with
      | served o =>
        rw [stage] at place
        cases Place.thread.inj place
        refine ⟨trivial, rfl, fun info has => ?_, fun _ waits => (by cases waits), id, id⟩
        cases Option.some.inj has
        rw [stage]
        trivial
      | _ =>
        rw [stage] at got
        exact got.elim
  | officeTake urgent o =>
    cases t with
    | student | specialOffice => exact runs.elim
    | office o' =>
      cases urgent with
      | true =>
        refine ⟨runs, rfl, fun info has => ?_, fun _ waits => (by cases waits), id, id⟩
        cases Option.some.inj has
        cases stage : stages message.info.id <;> rw [stage] at got <;> exact got
      | false =>
        refine ⟨runs, rfl, fun info has => ?_, fun _ waits => (by cases waits), id, id⟩
        cases Option.some.inj has
        cases stage : stages message.info.id <;> rw [stage] at got <;> exact got
  | specialTake =>
    cases t with
    | student | office => exact runs.elim
    | specialOffice =>
      refine ⟨trivial, rfl, fun info has => ?_, fun _ waits => (by cases waits), id, id⟩
      cases Option.some.inj has
      cases stage : stages message.info.id <;> rw [stage] at got <;> exact got

namespace Placed
variable {stages : Fin k → Stage} {s s' : State k} {t : Tid k} {rand : ℕ} {next : Pc k}

/-- A call of `send` or `receive` returns to a thread whose queues exist. -/
theorem uses_after_send (placed : Placed stages s) {site : Site} {info : Info k}
    (here : s.pc t = .send site info .unlock) {q : Queue k} (uses : (site.after info).queue = some q) :
    s.mem.ready q = true := by
  have runs := placed.runs t
  rw [here] at runs
  cases site with
  | ask service =>
    cases t with
    | student i =>
      cases Option.some.inj uses
      refine (placed.ready_own (t := .student i) (by rw [here]; exact id)).1 info.id ?_
      rw [runs.1]
    | office | specialOffice => exact runs.elim
  | officeReply | specialReply => cases uses

theorem uses_after_receive (placed : Placed stages s) {receiver : Receiver k} {message : Message k}
    (here : s.pc t = .receive receiver (.unlock message)) {q : Queue k}
    (uses : (receiver.after message).queue = some q) : s.mem.ready q = true := by
  have runs := placed.runs t
  obtain ⟨same, at', place⟩ := placed.carried t (receiver.hand message) (by rw [here]; rfl)
  rw [here] at runs at'
  rw [Receiver.hand_id] at same at' place
  cases receiver with
  | await service old =>
    cases service with
    | normal =>
      simp only [Receiver.after] at uses
      split at uses
      · cases Option.some.inj uses
        exact placed.ready_shared.2
      · cases uses
    | special =>
      cases stage : stages message.info.id <;> rw [stage] at at'
      case back o =>
        cases Option.some.inj uses
        rw [stage] at same
        have office : message.info.officeNo = o := by
          change message.info = _ at same
          rw [same]
          rfl
        change s.mem.ready (.urgent message.info.officeNo) = true
        rw [office]
        exact placed.known message.info.id o (by rw [stage]; rfl)
      all_goals exact at'.elim
    | urgent => cases uses
  | officeTake urgent o =>
    cases urgent with
    | true =>
      cases Option.some.inj uses
      refine placed.ready_answer fun home => ?_
      cases t with
      | office o' => cases place.symm.trans home
      | student | specialOffice => exact runs.elim
    | false => cases uses
  | specialTake =>
    cases Option.some.inj uses
    refine placed.ready_answer fun home => ?_
    cases t with
    | specialOffice => cases place.symm.trans home
    | student | office => exact runs.elim

/-- Control statements move no `Info`. -/
theorem goes_of_target (placed : Placed stages s) (target : (instr t (s.pc t)).target = some next) :
    Goes stages t (s.pc t) next ∧ ∀ q, next.queue = some q → s.mem.ready q = true := by
  have runs := placed.runs t
  have carried := placed.carried t
  have uses := placed.uses t
  cases here : s.pc t <;> rw [here] at target runs carried uses
  case send site info at' =>
    have stays (info' : Info k) (has : (Pc.send site info at').hand = some info') :=
      (carried info' has).2.1
    cases at' <;> cases target
    case unlock => exact ⟨goes_after_send runs, fun q => placed.uses_after_send here⟩
    all_goals exact ⟨⟨runs_send _ runs, rfl, stays, fun _ waits => waits, id, id⟩, uses⟩
  case receive receiver at' =>
    have stays (info' : Info k) (has : (Pc.receive receiver at').hand = some info') :=
      (carried info' has).2.1
    cases at' <;> cases target
    case unlock message =>
      obtain ⟨same, got, place⟩ := carried (receiver.hand message) rfl
      rw [Receiver.hand_id] at same got place
      exact ⟨goes_after_receive runs same got place, fun q => placed.uses_after_receive here⟩
    all_goals exact ⟨⟨runs_receive _ runs, rfl, stays, fun _ waits => waits, id, id⟩, uses⟩
  case finish info at' =>
    have stays (info' : Info k) (has : (Pc.finish info at').hand = some info') :=
      (carried info' has).2.1
    cases at' <;> cases target
    all_goals exact ⟨⟨runs_finish _ runs, rfl, stays, nofun, id, id⟩, nofun⟩
  case officeUnlock urgent o =>
    cases target
    cases t with
    | office o' =>
      have own := (placed.ready_own (t := .office o') (by rw [here]; exact id)).2
      refine ⟨⟨runs, rfl, nofun, nofun, id, id⟩, fun q asks => ?_⟩
      cases urgent with
      | true => cases Option.some.inj asks; exact own o (by rw [show o = o' from runs])
      | false => cases Option.some.inj asks; exact placed.ready_shared.1
    | student | specialOffice => exact runs.elim
  case specialUnlock =>
    cases target
    cases t with
    | specialOffice =>
      refine ⟨⟨runs, rfl, nofun, nofun, id, id⟩, fun q asks => ?_⟩
      cases Option.some.inj asks
      exact placed.ready_shared.2
    | student | office => exact runs.elim
  case officeLock o | officeWait o =>
    cases target
    cases t with
    | office o' => exact ⟨⟨runs, rfl, nofun, nofun, id, id⟩, nofun⟩
    | student | specialOffice => exact runs.elim
  case specialLock | specialWait =>
    cases target
    cases t with
    | specialOffice => exact ⟨⟨runs, rfl, nofun, nofun, id, id⟩, nofun⟩
    | student | office => exact runs.elim
  all_goals cases target

end Placed

/-- The statements that create a queue, move an `Info` or change it. -/
def Pc.Handles : Pc k → Prop
  | studentInit _ | officeInit _ | officeServe _ _ | send _ _ .fill | receive _ .take => True
  | _ => False

namespace Placed
variable {stages : Fin k → Stage} {s : State k} {t : Tid k} {rand : ℕ} {next : Pc k}

/-- The other statements leave every `Info` where it is. -/
theorem goes_of_effect (placed : Placed stages s) {m' : Memory k}
    (effect : Effect t rand s.mem (s.pc t) m' next) (still : ¬ (s.pc t).Handles) :
    Goes stages t (s.pc t) next ∧ (∀ q, next.queue = some q → s.mem.ready q = true) ∧
    m'.buf = s.mem.buf ∧ m'.ready = s.mem.ready ∧ m'.received = s.mem.received := by
  have runs := placed.runs t
  have carried := placed.carried t
  have uses := placed.uses t
  generalize s.pc t = pc at *
  cases effect
  case studentInit | officeInit | officeServe | fill | take => exact absurd trivial still
  case sendFull site info full | sendSpace site info space =>
    have stays (info' : Info k) (has : (Pc.send site info .test).hand = some info') :=
      (carried info' has).2.1
    exact ⟨⟨runs_send _ runs, rfl, stays, fun _ => id, id, id⟩, uses, rfl, rfl, rfl⟩
  case token site info =>
    obtain ⟨buf, ready, received, _⟩ := s.mem.token_frame (site.queue info) info
    exact ⟨⟨runs_send _ runs, rfl, nofun, fun _ => id, id, id⟩, uses, buf, ready, received⟩
  case receiveEmpty receiver empty | receiveSome receiver some =>
    exact ⟨⟨runs_receive _ runs, rfl, nofun, fun _ => id, id, id⟩, uses, rfl, rfl, rfl⟩
  case decrementLast info last | decrement info more | kill info =>
    have stays (info' : Info k) (has : some info = some info') := (carried info' has).2.1
    exact ⟨⟨runs_finish _ runs, rfl, stays, nofun, id, id⟩, nofun, rfl, rfl, rfl⟩
  case officeIdle o | officeWork o | claimUrgent o | claimNormal o =>
    cases t with
    | office o' => exact ⟨⟨runs, rfl, nofun, nofun, id, id⟩, nofun, rfl, rfl, rfl⟩
    | student | specialOffice => exact runs.elim
  case specialIdle | specialWork | specialClaim =>
    cases t with
    | specialOffice => exact ⟨⟨runs, rfl, nofun, nofun, id, id⟩, nofun, rfl, rfl, rfl⟩
    | student | office => exact runs.elim

end Placed

end DeviceProgramming.Offices
