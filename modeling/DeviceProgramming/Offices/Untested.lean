import DeviceProgramming.Offices.Initialised

namespace DeviceProgramming.Offices

variable {k : ℕ} {s s' : State k} {t : Tid k} {rand : ℕ} {m m' : Memory k} {pc next : Pc k}
  {path : List (State k × Tid k × ℕ)}

/-- The statements that threads come to before an office has looked for work. -/
def Pc.Early : Pc k → Prop
  | studentInit _ | officeInit _ | officeLock _ | officeTest _ | specialLock | specialTest => True
  | send (.ask .normal) info _ => info.urgent = 0
  | receive (.await .normal _) .lock | receive (.await .normal _) .test | receive (.await .normal _) .wait => True
  | _ => False

theorem tests_of_run (here : s.thread t = .run pc) : tests s t = pc.tests := by
  rw [tests, here]

theorem Pc.Early.target (early : pc.Early) (control : Control pc next) : next.Early := by
  cases control
  case asked service info => cases service <;> trivial
  case sendLock site info | sendWait site info | sendNotify site info | sendLockCond site info | sendBroadcast site info
      | sendUnlockCond site info =>
    rcases site with ⟨_ | _ | _⟩ | _ | _ <;> exact early
  case receiveLock receiver | receiveWait receiver =>
    rcases receiver with ⟨_ | _ | _, info⟩ | _ | _ <;> trivial
  case receiveNotify receiver message =>
    rcases receiver with ⟨_ | _ | _, info⟩ | _ | _ <;> exact early.elim
  all_goals trivial

/-- The answer queues that exist are empty. -/
def Unanswered (m : Memory k) : Prop := ∀ i, m.ready (.answer i) = true → (m.buf (.answer i)).count = 0

theorem Unanswered.congr (unanswered : Unanswered m) (buf : m'.buf = m.buf) (ready : m'.ready = m.ready) :
    Unanswered m' := by
  rw [Unanswered, buf, ready]
  exact unanswered

theorem Unanswered.create (unanswered : Unanswered m) (q : Queue k) (dim : ℕ) : Unanswered (m.create q dim) := by
  intro i ready
  by_contra some
  obtain ⟨old, before, _⟩ := m.cell_create ready (Nat.pos_of_ne_zero some)
  rw [unanswered i old] at before
  cases before

/-- Before an office has looked for work no answer has been sent and no entry of
`cond->urgent` written. -/
theorem Pc.Early.effect (early : pc.Early) (effect : Effect t rand m pc m' next) (untested : pc.tests = none)
    (unanswered : Unanswered m) (uses : ∀ q, pc.queue = some q → m.ready q = true) :
    next.Early ∧ Unanswered m' ∧ ∀ o, .urgent o ∉ pc.writes m := by
  cases effect
  case studentInit i =>
    refine ⟨rfl, unanswered.create _ _, fun o member => ?_⟩
    simp [Pc.writes, Queue.made, Queue.pointer] at member
  case officeInit o =>
    refine ⟨trivial, unanswered.create _ _, fun o member => ?_⟩
    simp [Pc.writes, Queue.made, Queue.pointer] at member
  case sendFull site info full | sendSpace site info space =>
    rcases site with ⟨_ | _ | _⟩ | _ | _ <;> exact ⟨early, unanswered, fun o => List.not_mem_nil⟩
  case fill site info =>
    rcases site with ⟨_ | _ | _⟩ | _ | _
    case ask.normal =>
      refine ⟨early, fun i ready => ?_, fun o member => by simp [Pc.writes] at member⟩
      rw [m.fill_other (by simp [Site.queue])]
      exact unanswered i ready
    all_goals exact early.elim
  case token site info =>
    rcases site with ⟨_ | _ | _⟩ | _ | _
    case ask.normal =>
      obtain ⟨buf, ready, _⟩ := m.token_frame Queue.normal info
      have usual : info.urgent = 0 := early
      refine ⟨early, unanswered.congr buf ready, fun o member => ?_⟩
      simp [Pc.writes, Site.queue, usual] at member
    all_goals exact early.elim
  case receiveEmpty receiver empty =>
    rcases receiver with ⟨_ | _ | _, info⟩ | _ | _ <;> first
      | exact ⟨trivial, unanswered, fun o => List.not_mem_nil⟩
      | exact early.elim
  case receiveSome receiver some =>
    rcases receiver with ⟨_ | _ | _, info⟩ | _ | _
    case await.normal => exact absurd (unanswered info.id (uses _ rfl)) some
    all_goals exact early.elim
  case take receiver =>
    rcases receiver with ⟨_ | _ | _, info⟩ | _ | _ <;> exact early.elim
  case officeIdle | officeWork | specialIdle | specialWork => cases untested
  all_goals exact early.elim

/-- A statement that leads on without touching the memory writes nothing. -/
theorem writes_of_target (target : (instr t (s.pc t)).target = some next) : writes s t = [] := by
  cases doing : s.thread t with
  | run pc =>
    rw [Threads.pc, doing] at target
    rw [writes_of_run doing]
    cases control_of_target target <;> rfl
  | asleep | relock => rw [writes, doing]

/-- No office has looked for work yet. -/
structure Untested (path : List (State k × Tid k × ℕ)) (s : State k) : Prop where
  early : ∀ t, (s.pc t).Early
  unanswered : Unanswered s.mem
  unwritten : ∀ o, ¬ Written path (.urgent o)

theorem untested_of_run (run : (launches k).Run path s) (none : ∀ step ∈ path, tests step.1 step.2.1 = none) :
    Untested path s := by
  induction run with
  | start launched =>
    refine ⟨fun t => ?_, fun i ready => ?_, fun o written => written⟩
    · rw [launched.pc]
      cases t <;> trivial
    · rw [← RingBuffer.length_contents, (launched.contents ready).1, List.length_nil]
  | @next path s s' label earlier moved ih =>
    obtain ⟨t, rand⟩ := label
    obtain ⟨here, before⟩ := List.forall_mem_cons.mp none
    obtain ⟨early, unanswered, unwritten⟩ := ih before
    obtain ⟨⟨stages, delivers⟩, _⟩ := known_of_run earlier
    have others {next : Pc k} (moved : s'.pc = Function.update s.pc t next) (now : next.Early) (u : Tid k) :
        (s'.pc u).Early := by
      rcases update_cases moved u with ⟨rfl, same⟩ | ⟨_, same⟩ <;> rw [same]
      · exact now
      · exact early u
    rcases (Program.step_of_next moved).2.view with
      ⟨mem, stays, lock, woken⟩ | ⟨mem, next, target, moved⟩ | ⟨effect, next, running, here', run, moved⟩
    · refine ⟨fun u => ?_, by rwa [mem], fun o written => written.elim (unwritten o) fun new => ?_⟩
      · rw [stays]
        exact early u
      · rw [writes, woken] at new
        cases new
    · refine ⟨others moved ((early t).target (control_of_target target)), by rwa [mem], fun o written =>
        written.elim (unwritten o) fun new => ?_⟩
      rw [writes_of_target target] at new
      cases new
    · rw [tests_of_run running] at here
      obtain ⟨now, still, silent⟩ :=
        (early t).effect (effect_of_exec here' run) here unanswered (delivers.placed.uses t)
      refine ⟨others moved now, still, fun o written => written.elim (unwritten o) fun new => ?_⟩
      rw [writes_of_run running] at new
      exact silent o new

/-- Before an office looks for work nobody reads an entry of `cond->urgent`. -/
theorem Pc.Early.reads (early : pc.Early) (untested : pc.tests = none) (o : ℕ) : .urgent o ∉ pc.reads m := by
  intro member
  cases pc
  case send site info at' =>
    rcases site with ⟨_ | _ | _⟩ | _ | _
    case ask.normal =>
      have usual : info.urgent = 0 := early
      cases at' <;> simp [Pc.reads, SendAt.reads, Site.queue, Queue.pointer, usual] at member
    all_goals exact early.elim
  case receive receiver at' =>
    rcases receiver with ⟨_ | _ | _, info⟩ | _ | _
    case await.normal =>
      cases at' <;> simp [Pc.reads, ReceiveAt.reads, Receiver.numbers, Receiver.queue, Queue.pointer] at member
    all_goals exact early.elim
  case officeTest | specialTest => cases untested
  case studentInit | officeInit | officeLock | specialLock => simp [Pc.reads] at member
  all_goals exact early.elim

theorem Untested.reads (untested : Untested path s) (none : tests s t = none) (o : ℕ) : .urgent o ∉ reads s t := by
  cases doing : s.thread t with
  | run pc =>
    have point := Threads.pc_of_run doing
    rw [tests_of_run doing] at none
    rw [reads_of_run doing]
    exact (point ▸ untested.early t).reads none o
  | asleep chan lock pc =>
    rw [Offices.reads, doing]
    exact List.not_mem_nil
  | relock lock pc =>
    rw [Offices.reads, doing]
    cases lock <;> simp [Lock.cells]

theorem urgent_mem_reads {o : ℕ} (tested : tests s t = some o) : .urgent o ∈ reads s t := by
  cases doing : s.thread t with
  | run pc =>
    rw [tests_of_run doing] at tested
    rw [reads_of_run doing]
    cases pc <;> cases tested <;> simp [Pc.reads]
  | asleep | relock =>
    rw [tests, doing] at tested
    cases tested

/-- In every run from any contents of the heap, all cells that are read have been
written if and only if no office has looked for work; and all but the entries of
`cond->urgent` always have. -/
theorem readsWritten_iff (run : (launches k).Run path s) :
    (ReadsWritten (fun _ => True) path ↔ ∀ step ∈ path, tests step.1 step.2.1 = none) ∧
      ReadsWritten (fun c => ∀ o, c ≠ .urgent o) path := by
  induction run with
  | start => exact ⟨⟨fun _ => nofun, fun _ => trivial⟩, trivial⟩
  | @next path s s' label earlier moved ih =>
    obtain ⟨t, rand⟩ := label
    obtain ⟨same, others⟩ := ih
    refine ⟨?_, others, fun c member other => written_of_reads earlier member other⟩
    rw [List.forall_mem_cons]
    constructor
    · rintro ⟨before, here⟩
      have none := same.mp before
      refine ⟨?_, none⟩
      cases tested : tests s t with
      | none => rfl
      | some o => exact absurd (here _ (urgent_mem_reads tested) trivial) ((untested_of_run earlier none).unwritten o)
    · rintro ⟨here, none⟩
      refine ⟨same.mpr none, fun c member _ => written_of_reads earlier member fun o urgent => ?_⟩
      rw [urgent] at member
      exact (untested_of_run earlier none).reads here o member

end DeviceProgramming.Offices
