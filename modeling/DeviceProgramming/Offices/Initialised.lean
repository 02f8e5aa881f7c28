import DeviceProgramming.Offices.Heap

namespace DeviceProgramming.Offices

variable {k : ℕ} {s s' : State k} {t : Tid k} {rand : ℕ} {m m' : Memory k} {pc next : Pc k}
  {path : List (State k × Tid k × ℕ)}

/-- The cell of the `j`-th message in a queue. -/
def Memory.cell (m : Memory k) (q : Queue k) (j : ℕ) : Cell k :=
  .info q (((m.buf q).out + j) % (m.buf q).dim)

theorem reads_of_run (here : s.thread t = .run pc) : reads s t = pc.reads s.mem := by
  rw [reads, here]

theorem writes_of_run (here : s.thread t = .run pc) : writes s t = pc.writes s.mem := by
  rw [writes, here]

theorem written_of_prepared {c : Cell k} (prepared : c.Prepared) (path : List (State k × Tid k × ℕ)) :
    Written path c := by
  induction path with
  | nil => exact prepared
  | cons step path ih => exact Or.inl ih

theorem field_mem_made (q : Queue k) (f : Field) : .field q f ∈ q.made := by
  cases f <;> simp [Queue.made]

/-- After a queue has been created it exists, and so do those from before. -/
theorem Memory.ready_create (m : Memory k) {own q : Queue k} {dim : ℕ} (ready : (m.create own dim).ready q = true) :
    q = own ∨ m.ready q = true := by
  rcases update_cases (f := m.ready) (i := own) (x := true) rfl q with ⟨same, _⟩ | ⟨_, same⟩
  · exact Or.inl same
  · exact Or.inr (same.symm.trans ready)

/-- A new queue has no messages; the others keep theirs. -/
theorem Memory.cell_create (m : Memory k) {own q : Queue k} {dim j : ℕ} (ready : (m.create own dim).ready q = true)
    (within : j < ((m.create own dim).buf q).count) :
    m.ready q = true ∧ j < (m.buf q).count ∧ (m.create own dim).cell q j = m.cell q j := by
  by_cases same : q = own
  · rw [same, m.create_self] at within
    cases within
  · rw [m.create_other same] at within
    refine ⟨(m.ready_create ready).resolve_left same, within, ?_⟩
    rw [Memory.cell, Memory.cell, m.create_other same]

/-- A queue exists only if it did before or the statement has created it. -/
theorem Effect.ready_cases (effect : Effect t rand m pc m' next) {q : Queue k} (ready : m'.ready q = true) :
    m.ready q = true ∨ pc.writes m = q.made := by
  cases effect
  case studentInit i =>
    rcases m.ready_create ready with rfl | old
    · exact Or.inr rfl
    · exact Or.inl old
  case officeInit o =>
    rcases m.ready_create ready with rfl | old
    · exact Or.inr rfl
    · exact Or.inl old
  case token site info => exact Or.inl (by rwa [(m.token_frame _ info).2.1] at ready)
  all_goals exact Or.inl ready

theorem Effect.keeps_ready (effect : Effect t rand m pc m' next) {q : Queue k} (ready : m.ready q = true) :
    m'.ready q = true := by
  cases effect
  case studentInit i | officeInit o =>
    rcases update_cases (f := m.ready) (x := true) rfl q with ⟨_, same⟩ | ⟨_, same⟩
    · exact same
    · exact same.trans ready
  case token site info => rwa [(m.token_frame _ info).2.1]
  all_goals exact ready

/-- An `Info` that asks for urgent service has been to an office. -/
theorem Stage.office_of_urgent {i : Fin k} {stage : Stage} (urgent : (stage.info i).urgent = 1) :
    ∃ o, stage.office = some o ∧ (stage.info i).officeNo = o := by
  cases stage with
  | fresh | normalQ | taken | urgent | urgentAnswered | served => cases urgent
  | drawn o u | answered o u | home o u => exact ⟨o, rfl, rfl⟩
  | specialQ o | special o | specialAnswered o | back o | urgentQ o => exact ⟨o, rfl, rfl⟩

/-- The office that an urgent `Info` names has created its queue. -/
theorem Placed.ready_of_hand {stages : Fin k → Stage} (placed : Placed stages s) {info : Info k}
    (hand : (s.pc t).hand = some info) (urgent : info.urgent = 1) : s.mem.ready (.urgent info.officeNo) = true := by
  obtain ⟨same, _, _⟩ := placed.carried t info hand
  rw [same] at urgent
  obtain ⟨o, been, number⟩ := Stage.office_of_urgent urgent
  rw [same, number]
  exact placed.known info.id o been

/-- A call of `send` that has filled its cell has just done so, or had before. -/
theorem filled_of_control {site : Site} {info : Info k} {at' : SendAt} (control : Control pc (.send site info at'))
    (filled : at'.filled = true) : ∃ before, pc = .send site info before ∧ before.filled = true := by
  cases control <;> first
    | exact ⟨_, rfl, rfl⟩
    | cases filled

theorem Effect.filled {site : Site} {info : Info k} {at' : SendAt}
    (effect : Effect t rand m pc m' (.send site info at')) (filled : at'.filled = true) :
    pc.hand = some info ∨ ∃ before, pc = .send site info before ∧ before.filled = true := by
  cases effect with
  | fill => exact Or.inl rfl
  | token => exact Or.inr ⟨_, rfl, rfl⟩
  | _ => cases filled

/-- A thread that has put an urgent `Info` into a queue knows an office with a queue. -/
def Pointed (s : State k) : Prop :=
  ∀ t site info at', s.pc t = .send site info at' → at'.filled = true → info.urgent = 1 →
    s.mem.ready (.urgent info.officeNo) = true

theorem Pointed.step {stages : Fin k → Stage} (pointed : Pointed s) (placed : Placed stages s)
    (step : (program k).Step t rand s s') : Pointed s' := by
  intro u site info at' here filled urgent
  rcases step_cases step with ⟨mem, stays⟩ | ⟨mem, next, target, moved⟩ | ⟨next, running, effect, moved⟩
  · rw [stays] at here
    rw [mem]
    exact pointed u site info at' here filled urgent
  · rw [mem]
    rcases update_cases moved u with ⟨rfl, now⟩ | ⟨_, now⟩ <;> rw [now] at here
    · obtain ⟨before, was, early⟩ := filled_of_control (here ▸ control_of_target target) filled
      exact pointed u site info before was early urgent
    · exact pointed u site info at' here filled urgent
  · refine effect.keeps_ready ?_
    rcases update_cases moved u with ⟨rfl, now⟩ | ⟨_, now⟩ <;> rw [now] at here
    · rcases Effect.filled (here ▸ effect) filled with hand | ⟨before, was, early⟩
      · exact placed.ready_of_hand hand urgent
      · exact pointed u site info before was early urgent
    · exact pointed u site info at' here filled urgent

/-- A cell with a message in it had one before or is written by the statement. -/
theorem Effect.cell_cases (effect : Effect t rand m pc m' next) (sized : Sized m) (relies : pc.Relies m)
    {q : Queue k} {j : ℕ} (ready : m'.ready q = true) (within : j < (m'.buf q).count) :
    (m.ready q = true ∧ ∃ i, i < (m.buf q).count ∧ m'.cell q j = m.cell q i) ∨ m'.cell q j ∈ pc.writes m := by
  cases effect
  case studentInit | officeInit =>
    obtain ⟨old, before, same⟩ := m.cell_create ready within
    exact Or.inl ⟨old, j, before, same⟩
  case fill site info =>
    by_cases own : q = site.queue info
    · subst own
      have valid := sized.valid _ ready
      have space : (m.buf (site.queue info)).count ≠ (m.buf (site.queue info)).dim := relies
      have bound := valid.count_le
      rw [Memory.fill_self] at within
      change j < (m.buf (site.queue info)).count + 1 at within
      have place :
          (m.fill (site.queue info) ⟨info, site⟩).cell (site.queue info) j = m.cell (site.queue info) j := by
        rw [Memory.cell, Memory.cell, Memory.fill_self]
        rfl
      rcases Nat.lt_succ_iff_lt_or_eq.mp within with old | rfl
      · exact Or.inl ⟨ready, j, old, place⟩
      · refine Or.inr ?_
        rw [place, Memory.cell, ← valid.distance (by omega)]
        exact List.mem_cons_self ..
    · rw [Memory.fill_other m own] at within
      refine Or.inl ⟨ready, j, within, ?_⟩
      rw [Memory.cell, Memory.cell, Memory.fill_other m own]
  case take receiver =>
    by_cases own : q = receiver.queue
    · subst own
      have valid := sized.valid _ ready
      rw [Memory.take_self] at within
      change j < (m.buf receiver.queue).count - 1 at within
      refine Or.inl ⟨ready, j + 1, by omega, ?_⟩
      rw [Memory.cell, Memory.cell, Memory.take_self, valid.index_take relies]
      rfl
    · rw [Memory.take_other m own] at within
      refine Or.inl ⟨ready, j, within, ?_⟩
      rw [Memory.cell, Memory.cell, Memory.take_other m own]
  case token site info =>
    obtain ⟨buf, isReady, _⟩ := m.token_frame (site.queue info) info
    rw [buf] at within
    rw [isReady] at ready
    refine Or.inl ⟨ready, j, within, ?_⟩
    rw [Memory.cell, Memory.cell, buf]
  all_goals exact Or.inl ⟨ready, j, within, rfl⟩

/-- What a run has written: all queues that exist and the messages in them. -/
structure Initialised (path : List (State k × Tid k × ℕ)) (m : Memory k) : Prop where
  made : ∀ q, m.ready q = true → ∀ c ∈ q.made, Written path c
  filled : ∀ q, m.ready q = true → ∀ j, j < (m.buf q).count → Written path (m.cell q j)

theorem Launched.initialised (launched : Launched s) : Initialised [] s.mem where
  made q ready c member := by
    have shared := (launched.ready q).mp ready
    rcases shared with rfl | rfl
    all_goals
      simp only [Queue.made, Queue.pointer, List.nil_append, List.mem_cons, List.not_mem_nil, or_false] at member
      rcases member with rfl | rfl | rfl | rfl | rfl | rfl | rfl | rfl <;> simp [Written, Cell.Prepared]
  filled q ready j within := by
    rw [← RingBuffer.length_contents, (launched.contents ready).1] at within
    cases within

theorem Initialised.step {stages : Fin k → Stage} (initialised : Initialised path s.mem)
    (delivers : Delivers stages s) (step : (program k).Step t rand s s') :
    Initialised ((s, t, rand) :: path) s'.mem := by
  have still : Initialised ((s, t, rand) :: path) s.mem :=
    ⟨fun q ready c member => Or.inl (initialised.made q ready c member),
      fun q ready j within => Or.inl (initialised.filled q ready j within)⟩
  rcases step_cases step with ⟨mem, _⟩ | ⟨mem, _⟩ | ⟨next, running, effect, _⟩
  · rwa [mem]
  · rwa [mem]
  · refine ⟨fun q ready c member => ?_, fun q ready j within => ?_⟩
    · rcases effect.ready_cases ready with old | makes
      · exact still.made q old c member
      · refine Or.inr ?_
        rw [writes_of_run running, makes]
        exact member
    · rcases effect.cell_cases delivers.sized (delivers.relies t) ready within with ⟨old, i, before, same⟩ | new
      · rw [same]
        exact still.filled q old i before
      · refine Or.inr ?_
        rw [writes_of_run running]
        exact new

/-- All that is known of a run from any contents of the heap. -/
theorem known_of_run (run : (launches k).Run path s) :
    (∃ stages, Delivers stages s) ∧ Initialised path s.mem ∧ Pointed s ∧ s.Owned (fun _ => held) ∧
      (program k).SleptAt s := by
  have reached {path : List (State k × Tid k × ℕ)} {s : State k} (run : (launches k).Run path s) :
      (∃ stages, Delivers stages s) ∧ s.Owned (fun _ => held) ∧ (program k).SleptAt s := by
    have reach : (launches k).Reach s := run.reachUnder fun _ _ => trivial
    obtain ⟨stages, delivers, _⟩ := delivers_of_launched reach
    exact ⟨⟨stages, delivers⟩, owned_of_launched reach, sleptAt_of_launched reach⟩
  obtain ⟨delivers, owned, slept⟩ := reached run
  refine ⟨delivers, ?_, ?_, owned, slept⟩
  · induction run with
    | start launched => exact launched.initialised
    | next earlier moved ih =>
      obtain ⟨⟨stages, before⟩, owned, slept⟩ := reached earlier
      exact (ih ⟨stages, before⟩ owned slept).step before (Program.step_of_next moved).2
  · induction run with
    | start launched =>
      intro t site info at' here
      rw [launched.pc] at here
      cases t <;> cases here
    | next earlier moved ih =>
      obtain ⟨⟨stages, before⟩, owned, slept⟩ := reached earlier
      exact (ih ⟨stages, before⟩ owned slept).step before.placed (Program.step_of_next moved).2

theorem pointer_mem_made {q : Queue k} {c : Cell k} (member : c ∈ q.pointer) : c ∈ q.made :=
  List.mem_append_left _ member

/-- What a statement reads besides `cond->urgent`: cells that `main` has written,
the queue it works on, a pointer to compare with, and the first message. -/
theorem reads_cases {c : Cell k} (member : c ∈ pc.reads m) (other : ∀ o, c ≠ .urgent o) :
    c.Prepared ∨ (∃ q, pc.queue = some q ∧ c ∈ q.made) ∨
      (∃ site info, pc = .send site info .token ∧ info.urgent = 1 ∧ c ∈ (Queue.urgent info.officeNo).pointer) ∨
      ∃ receiver, pc = .receive receiver .take ∧ c = .info receiver.queue (m.buf receiver.queue).out := by
  cases pc
  case send site info at' =>
    cases at'
    case token =>
      simp only [Pc.reads, SendAt.reads] at member
      split at member
      · rename_i urgent
        rcases List.mem_append.mp member with pointer | rest
        · exact Or.inr (Or.inr (Or.inl ⟨site, info, rfl, urgent, pointer⟩))
        · refine Or.inl ?_
          split_ifs at rest <;> simp only [List.mem_cons, List.not_mem_nil, or_false] at rest
          all_goals
            rcases rest with rfl | rfl
            · trivial
            · exact absurd rfl (other _)
      · split_ifs at member <;> simp only [List.mem_cons, List.not_mem_nil, or_false] at member
        subst member
        exact Or.inl trivial
    case lock =>
      refine Or.inr (Or.inl ⟨_, rfl, ?_⟩)
      rcases List.mem_append.mp member with pointer | field
      · exact pointer_mem_made pointer
      · rw [List.mem_singleton.mp field]
        exact field_mem_made ..
    case lockCond | unlockCond | broadcast =>
      rw [List.mem_singleton.mp member]
      exact Or.inl trivial
    case notify | unlock =>
      rw [List.mem_singleton.mp member]
      exact Or.inr (Or.inl ⟨_, rfl, field_mem_made ..⟩)
    case test | wait =>
      simp only [Pc.reads, SendAt.reads, List.mem_cons, List.not_mem_nil, or_false] at member
      rcases member with rfl | rfl <;> exact Or.inr (Or.inl ⟨_, rfl, field_mem_made ..⟩)
    case fill =>
      simp only [Pc.reads, SendAt.reads, List.mem_cons, List.not_mem_nil, or_false] at member
      rcases member with rfl | rfl | rfl | rfl <;> exact Or.inr (Or.inl ⟨_, rfl, field_mem_made ..⟩)
  case receive receiver at' =>
    have numbers (member : c ∈ receiver.numbers) : c.Prepared := by
      cases receiver with
      | officeTake urgent o =>
        rw [List.mem_singleton.mp member]
        trivial
      | await | specialTake => cases member
    cases at'
    case lock =>
      rcases List.mem_append.mp member with first | field
      · rcases List.mem_append.mp first with number | pointer
        · exact Or.inl (numbers number)
        · exact Or.inr (Or.inl ⟨_, rfl, pointer_mem_made pointer⟩)
      · rw [List.mem_singleton.mp field]
        exact Or.inr (Or.inl ⟨_, rfl, field_mem_made ..⟩)
    case unlock message =>
      rcases List.mem_cons.mp member with rfl | number
      · exact Or.inr (Or.inl ⟨_, rfl, field_mem_made ..⟩)
      · exact Or.inl (numbers number)
    case test | notify =>
      rw [List.mem_singleton.mp member]
      exact Or.inr (Or.inl ⟨_, rfl, field_mem_made ..⟩)
    case wait =>
      simp only [Pc.reads, ReceiveAt.reads, List.mem_cons, List.not_mem_nil, or_false] at member
      rcases member with rfl | rfl <;> exact Or.inr (Or.inl ⟨_, rfl, field_mem_made ..⟩)
    case take =>
      simp only [Pc.reads, ReceiveAt.reads, List.mem_cons, List.not_mem_nil, or_false] at member
      rcases member with rfl | rfl | rfl | rfl | rfl
      case inr.inr.inl => exact Or.inr (Or.inr (Or.inr ⟨receiver, rfl, rfl⟩))
      all_goals exact Or.inr (Or.inl ⟨_, rfl, field_mem_made ..⟩)
  case officeTest o | officeClaim o =>
    refine Or.inl ?_
    simp only [Pc.reads, List.mem_append, List.mem_cons, List.not_mem_nil, or_false] at member
    rcases member with (rfl | rfl | rfl) | normal
    · trivial
    · trivial
    · exact absurd rfl (other _)
    · split at normal
      · rw [List.mem_singleton.mp normal]
        trivial
      · cases normal
  case specialTest | specialClaim =>
    refine Or.inl ?_
    simp only [Pc.reads, List.mem_cons, List.not_mem_nil, or_false] at member
    rcases member with rfl | rfl
    · trivial
    · exact absurd rfl (other _)
  case officeWait | specialWait =>
    refine Or.inl ?_
    simp only [Pc.reads, List.mem_cons, List.not_mem_nil, or_false] at member
    rcases member with rfl | rfl <;> trivial
  case finish => cases member
  all_goals
    rw [List.mem_singleton.mp member]
    exact Or.inl trivial

/-- In every run each cell that is read has been written, the entries of
`cond->urgent` apart. -/
theorem written_of_reads (run : (launches k).Run path s) {c : Cell k} (member : c ∈ reads s t)
    (other : ∀ o, c ≠ .urgent o) : Written path c := by
  obtain ⟨⟨stages, delivers⟩, initialised, pointed, _, slept⟩ := known_of_run run
  have made {q : Queue k} (uses : (s.pc t).queue = some q) : ∀ c ∈ q.made, Written path c :=
    initialised.made q (delivers.placed.uses t q uses)
  cases doing : s.thread t with
  | asleep chan lock pc =>
    rw [reads, doing] at member
    cases member
  | relock lock pc =>
    have point := Threads.pc_of_relock doing
    rw [reads, doing] at member
    obtain ⟨before, chan, here⟩ := slept.relock doing
    cases sleeps_of_instr here with
    | send | receive =>
      rw [List.mem_singleton.mp member]
      exact made (by rw [point]; rfl) _ (field_mem_made ..)
    | office | special =>
      rw [List.mem_singleton.mp member]
      exact written_of_prepared (c := .cond .lock) trivial path
  | run pc =>
    have point := Threads.pc_of_run doing
    rw [reads_of_run doing] at member
    rcases reads_cases member other with prepared | ⟨q, uses, field⟩ | ⟨site, info, rfl, urgent, pointer⟩ |
      ⟨receiver, rfl, rfl⟩
    · exact written_of_prepared prepared path
    · exact made (by rw [point]; exact uses) c field
    · have ready := pointed t site info .token point rfl urgent
      exact initialised.made _ ready c (pointer_mem_made pointer)
    · have ready := delivers.placed.uses t receiver.queue (by rw [point]; rfl)
      have valid := delivers.sized.valid _ ready
      have some : (s.mem.buf receiver.queue).count ≠ 0 := by
        have relies := delivers.relies t
        rwa [point] at relies
      have bound := valid.count_le
      have first := initialised.filled _ ready 0 (by omega)
      rwa [Memory.cell, Nat.add_zero, Nat.mod_eq_of_lt (valid.out_lt (by omega))] at first

end DeviceProgramming.Offices
