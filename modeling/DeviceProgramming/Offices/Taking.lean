import DeviceProgramming.Offices.Handing

namespace DeviceProgramming.Offices

variable {k : ℕ} {stages : Fin k → Stage} {s s' : State k} {t : Tid k}

/-- The office of a call of `receive`. -/
def Receiver.office : Receiver k → Fin numOffices
  | officeTake _ o => o
  | _ => 0

/-- What a call of `receive` gets to know about an `Info` in its queue. -/
structure Gets (i : Fin k) (stage : Stage) (receiver : Receiver k) (t : Tid k) (after : Stage) : Prop where
  place : after.place i = .thread t
  hand : receiver.hand (stage.message i) = after.info i
  got : receiver.Got after
  keeps : t ≠ .student i → ∀ service, stage.awaiting = some service → after.awaiting = some service
  history : after.history i =
    if t = .student i then stage.history i ++ [stage.message i] else stage.history i
  student : ∀ j, t = .student j → j = i
  office : ∀ o, after.office = some o → stage.office = some o ∨ t = .office o

theorem gets_of_queue {i : Fin k} {stage : Stage} {receiver : Receiver k}
    (runs : t.Runs (.receive receiver .take)) (place : stage.place i = .queue receiver.queue)
    (awaits : ∀ service, receiver.service = some service → stage.awaiting = some service) :
    Gets i stage receiver t (stage.received receiver.office) := by
  rcases receiver with ⟨service, info⟩ | ⟨_ | _, o⟩ | _
  case await =>
    cases t with
    | office | specialOffice => exact runs.elim
    | student j =>
      have own : info.id = j := runs
      have waiting := awaits service rfl
      cases stage <;> cases place <;> cases waiting
      all_goals
        subst own
        exact ⟨rfl, rfl, trivial, fun other => absurd rfl other, (if_pos rfl).symm, fun j same =>
          (Tid.student.inj same).symm, fun o been => Or.inl been⟩
  case officeTake.false =>
    cases t with
    | student | specialOffice => exact runs.elim
    | office o' =>
      have own : o = o' := runs
      subst own
      cases stage <;> cases place
      exact ⟨rfl, rfl, rfl, fun _ _ waits => waits, rfl, nofun, fun o' been => Or.inr (by cases been; rfl)⟩
  case officeTake.true =>
    cases t with
    | student | specialOffice => exact runs.elim
    | office o' =>
      have own : o = o' := runs
      subst own
      cases stage
      case urgentQ o' =>
        have same : o' = o := by
          have queue : Queue.urgent (o' : ℕ) = .urgent (o : ℕ) := Place.queue.inj place
          exact Fin.ext (Queue.urgent.inj queue)
        subst same
        exact ⟨rfl, rfl, rfl, fun _ _ waits => waits, rfl, nofun, fun _ been => Or.inl been⟩
      all_goals cases place
  case specialTake =>
    cases t with
    | student | office => exact runs.elim
    | specialOffice =>
      cases stage <;> cases place
      exact ⟨rfl, rfl, trivial, fun _ _ waits => waits, rfl, nofun, fun _ been => Or.inl been⟩

theorem Stage.answer_of_place {i j : Fin k} {stage : Stage}
    (place : stage.place i = .queue (.answer j)) : i = j := by
  cases stage <;> cases place <;> rfl

/-- A student that waits in a call of `receive` finds its own answer. -/
theorem Placed.awaiting_of_queue {receiver : Receiver k} {i : Fin k} (placed : Placed stages s)
    (here : s.pc t = .receive receiver .take) (place : (stages i).place i = .queue receiver.queue)
    {service : Service} (waits : receiver.service = some service) :
    (stages i).awaiting = some service := by
  have runs := placed.runs t
  rw [here] at runs
  cases receiver with
  | officeTake | specialTake => cases waits
  | await asked info =>
    cases t with
    | office | specialOffice => exact runs.elim
    | student j =>
      have own : info.id = j := runs
      have same := Stage.answer_of_place place
      rw [same, own]
      exact placed.awaits j service (by rw [here]; exact waits)

/-- A thread takes an `Info` from a queue. -/
theorem Placed.take {receiver : Receiver k} (placed : Placed stages s)
    (here : s.pc t = .receive receiver .take) (valid : (s.mem.buf receiver.queue).Valid)
    (some : (s.mem.buf receiver.queue).count ≠ 0) (mem : s'.mem = s.mem.take receiver.queue t)
    (moved : s'.pc = Function.update s.pc t
      (.receive receiver (.notify (s.mem.buf receiver.queue).first))) :
    ∃ i, Placed (Function.update stages i ((stages i).received receiver.office)) s' := by
  have runs := placed.runs t
  have isReady := placed.uses t receiver.queue (by rw [here]; rfl)
  have contents := valid.contents_take some
  generalize first : (s.mem.buf receiver.queue).first = m at moved contents
  obtain ⟨place, message⟩ := placed.listed _ isReady m (by rw [contents]; exact List.mem_cons_self ..)
  have nodup := placed.nodup _ isReady
  rw [contents, List.map_cons, List.nodup_cons] at nodup
  rw [here] at runs
  have gets := gets_of_queue runs place fun service => placed.awaiting_of_queue here place
  have hand := gets.hand
  have history := gets.history
  rw [← message] at hand history
  have taken : (s'.mem.buf receiver.queue).contents = (s.mem.buf receiver.queue).take.contents := by
    rw [mem, Memory.take_self]
  have others (q : Queue k) (other : q ≠ receiver.queue) : s'.mem.buf q = s.mem.buf q := by
    rw [mem, Memory.take_other _ other]
  refine ⟨m.info.id, placed.hands
    { moved := moved
      ready := by rw [mem]; rfl
      runs := runs_receive _ runs
      before := by rw [here]; exact id
      after := id
      uses := fun q works => by cases Option.some.inj works; exact isReady
      alone := fun u at' => by cases place.symm.trans at'
      others := fun j _ at' => by
        have has := placed.inHand j t at'
        rw [here] at has
        cases has
      carried := fun info has => ⟨(Option.some.inj has).symm.trans hand, gets.got, gets.place⟩
      inHand := fun u at' =>
        ⟨(Place.thread.inj (gets.place.symm.trans at')).symm, congrArg Option.some hand⟩
      rest := fun q created m' differ => ?rest
      own := fun q created m' member own => ?own
      queued := fun q at' => by cases gets.place.symm.trans at'
      nodup := fun q created => ?nodup
      awaits := nofun
      keeps := gets.keeps
      received := fun j => ?received
      known := fun o been => ?known }⟩
  case rest =>
    by_cases target : q = receiver.queue
    · subst target
      rw [taken, contents, List.mem_cons]
      constructor
      · exact Or.inr
      · rintro (rfl | old)
        · exact absurd rfl differ
        · exact old
    · rw [others q target]
  case own =>
    by_cases target : q = receiver.queue
    · subst target
      rw [taken] at member
      exact absurd (List.mem_map.mpr ⟨m', member, own⟩) nodup.1
    · rw [others q target] at member
      have listed := (placed.listed q created m' member).1
      rw [own, place] at listed
      exact absurd (Place.queue.inj listed).symm target
  case nodup =>
    by_cases target : q = receiver.queue
    · subst target
      rw [taken]
      exact nodup.2
    · rw [others q target]
      exact placed.nodup q created
  case received =>
    rw [mem]
    change Function.update s.mem.received t (s.mem.received t ++ [(s.mem.buf receiver.queue).first])
      (.student j) = _
    by_cases student : t = .student j
    · have own := gets.student j student
      rw [student, Function.update_self, first, if_pos own, history, if_pos (by rw [student, own]),
        placed.received j, own]
    · rw [Function.update_of_ne (Ne.symm student)]
      by_cases own : j = m.info.id
      · rw [if_pos own, history, if_neg (by rw [← own]; exact student), own]
        exact placed.received m.info.id
      · rw [if_neg own]
  case known =>
    rcases gets.office o been with old | rfl
    · exact placed.known m.info.id o old
    · exact (placed.ready_own (t := .office o) (by rw [here]; exact id)).2 o rfl

end DeviceProgramming.Offices
