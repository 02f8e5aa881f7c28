import DeviceProgramming.Buffers.Buffer

namespace DeviceProgramming.Buffers

/-- The locks a thread holds at each statement. -/
def held : Pc → List Lock
  | .send _ .lock | .receive .lock | .outside => []
  | .send _ .token | .send _ .broadcast | .send _ .unlockCond => [.cond, .buffer]
  | .send _ _ | .receive _ => [.buffer]

/-- What a statement does to the memory and where it leads. -/
inductive Effect (q : Queue) (m : Memory) : Pc → Memory → Pc → Prop
  | callSend {info} : Effect q m .outside m (.send info .lock)
  | callReceive : Effect q m .outside m (.receive .lock)
  | full {info} : m.buf.count = m.buf.dim → Effect q m (.send info .test) m (.send info .wait)
  | space {info} : m.buf.count ≠ m.buf.dim → Effect q m (.send info .test) m (.send info .fill)
  | fill {info} : Effect q m (.send info .fill) (m.fill info) (.send info .notify)
  | token {info} : Effect q m (.send info .token) { m with cond := m.cond.token q info } (.send info .broadcast)
  | empty : m.buf.count = 0 → Effect q m (.receive .test) m (.receive .wait)
  | some : m.buf.count ≠ 0 → Effect q m (.receive .test) m (.receive .take)
  | take : Effect q m (.receive .take) m.take (.receive (.notify m.buf.first))

/-- What a thread knows about the buffer while it holds the lock, and at the end
of `receive` that the last `info` read is the one it returns. -/
def Pc.Relies (m : Memory) : Pc → Prop
  | .send _ .fill => m.buf.count ≠ m.buf.dim
  | .receive .take => m.buf.count ≠ 0
  | .receive (.notify info) | .receive (.unlock info) => m.received.getLast? = Option.some info
  | _ => True

/-- The buffer is a queue with a history that no bounded queue forbids. -/
structure Queued (dim : ℕ) (m : Memory) : Prop where
  valid : m.buf.Valid
  size : m.buf.dim = dim
  run : Fifo.Run dim m.events m.buf.contents

variable {Tid : Type*} [DecidableEq Tid] {q : Queue} {dim : ℕ} {s s' : State Tid} {t u : Tid} {pc next : Pc}
  {m m' : Memory} {call : Option Info}

theorem effect_of_exec {effect : Option Info → Memory → Option (Memory × Pc)} (here : instr q pc = .exec effect)
    (run : effect call m = some (m', next)) : Effect q m pc m' next := by
  cases pc with
  | outside =>
    cases here
    cases call with
    | none =>
      cases Option.some.inj run
      exact .callReceive
    | some info =>
      cases Option.some.inj run
      exact .callSend
  | send info at' =>
    cases at' <;> cases here
    case test.refl =>
      cases Option.some.inj run
      split
      · rename_i full
        exact .full full
      · rename_i space
        exact .space space
    all_goals
      cases Option.some.inj run
      constructor
  | receive at' =>
    cases at' <;> cases here
    case test.refl =>
      cases Option.some.inj run
      split
      · rename_i empty
        exact .empty empty
      · rename_i some
        exact .some some
    case take.refl =>
      cases Option.some.inj run
      exact .take

theorem Effect.held (effect : Effect q m pc m' next) : Buffers.held next = Buffers.held pc := by
  cases effect <;> rfl

omit [DecidableEq Tid] in
theorem disciplined : (program Tid q).Disciplined fun _ => held := by
  refine Program.Disciplined.of_stack ?acquire ?release ?sleep ?wakeup ?exec
  case acquire =>
    intro t pc lock next here
    cases pc with
    | outside => cases here
    | send info at' => cases at' <;> cases here <;> rfl
    | receive at' =>
      cases at' <;> cases here
      rfl
  case release =>
    intro t pc lock next here
    cases pc with
    | outside => cases here
    | send info at' => cases at' <;> cases here <;> simp [held]
    | receive at' =>
      cases at' <;> cases here
      simp [held]
  case sleep =>
    intro t pc chan lock next here
    cases pc with
    | outside => cases here
    | send info at' =>
      cases at' <;> cases here
      simp [held]
    | receive at' =>
      cases at' <;> cases here
      simp [held]
  case wakeup =>
    intro t pc chan next here
    cases pc with
    | outside => cases here
    | send info at' => cases at' <;> cases here <;> rfl
    | receive at' =>
      cases at' <;> cases here
      rfl
  case exec =>
    intro t pc effect input m m' next here run
    exact (effect_of_exec here run).held

/-- Where a thread goes on that does not touch the memory, it knows no more than
before. -/
theorem relies_of_target (target : (instr q pc).target = some next) (before : pc.Relies m) : next.Relies m := by
  cases pc with
  | outside => cases target
  | send info at' => cases at' <;> cases target <;> trivial
  | receive at' =>
    cases at' <;> cases target
    case notify.refl => exact before
    all_goals trivial

theorem relies_of_sleep {chan : Chan} {lock : Lock} (here : instr q pc = .sleep chan lock next) :
    next.Relies m := by
  cases pc with
  | outside => cases here
  | send info at' => cases at' <;> cases here; trivial
  | receive at' => cases at' <;> cases here; trivial

theorem Effect.relies (effect : Effect q m pc m' next) : next.Relies m' := by
  cases effect with
  | space space => exact space
  | some some => exact some
  | take => simp [Pc.Relies, Memory.received, Memory.take]
  | _ => trivial

/-- A thread without the lock of the buffer leaves it alone. -/
theorem Effect.same (effect : Effect q m pc m' next) (free : Lock.buffer ∉ Buffers.held pc) :
    m'.buf = m.buf ∧ m'.events = m.events := by
  cases effect with
  | fill | take => exact absurd (List.mem_singleton_self _) free
  | _ => exact ⟨rfl, rfl⟩

theorem Pc.Relies.congr (relies : pc.Relies m) (buf : m'.buf = m.buf) (events : m'.events = m.events) :
    pc.Relies m' := by
  have received : m'.received = m.received := by rw [Memory.received, events, Memory.received]
  unfold Pc.Relies at relies ⊢
  split <;> simp_all

/-- Without the lock of the buffer nothing is known. -/
theorem relies_of_free (free : Lock.buffer ∉ held pc) : pc.Relies m := by
  unfold Pc.Relies
  split <;> first | exact absurd (List.mem_singleton_self _) free | trivial

/-- A `fill` and a `take` are a put and a get; the other statements leave the
queue as it is. -/
theorem Effect.queued (effect : Effect q m pc m' next) (relies : pc.Relies m) (queued : Queued dim m) :
    Queued dim m' := by
  have size := queued.size
  cases effect with
  | fill =>
    have bound := queued.valid.count_le
    refine ⟨queued.valid.fill relies _, size, ?_⟩
    rw [Memory.fill, queued.valid.contents_fill relies]
    refine queued.run.put _ ?_
    rw [RingBuffer.length_contents, ← size]
    exact lt_of_le_of_ne bound relies
  | take =>
    refine ⟨queued.valid.take relies, size, ?_⟩
    have run := queued.run
    rw [queued.valid.contents_take relies] at run
    exact run.get
  | _ => exact ⟨queued.valid, size, queued.run⟩

theorem owned_of_reach (reach : (exchange Tid q dim).Reach s) : s.Owned fun _ => held :=
  Program.owned_of_reach disciplined
    (fun _ fresh => Threads.owned_start fresh.owner fun t => ⟨_, fresh.thread t, rfl⟩) reach

theorem sleptAt_of_reach (reach : (exchange Tid q dim).Reach s) : (program Tid q).SleptAt s :=
  Program.sleptAt_of_reach (fun _ fresh => Program.sleptAt_start fun t => ⟨_, fresh.thread t⟩) reach

theorem relies_step (owned : s.Owned fun _ => held) (slept : (program Tid q).SleptAt s)
    (step : (program Tid q).Step t call s s') (before : ∀ u, (s.pc u).Relies s.mem) (u : Tid) :
    (s'.pc u).Relies s'.mem := by
  rcases step.view with ⟨mem, stays, _⟩ | ⟨mem, next, target, moved⟩ | ⟨effect, next, at', here, run, moved⟩
  · rw [mem, stays]
    exact before u
  · rw [mem]
    rcases update_cases moved u with ⟨rfl, now⟩ | ⟨_, now⟩ <;> rw [now]
    · exact relies_of_target target (before u)
    · exact before u
  · have effect := effect_of_exec here run
    rcases update_cases moved u with ⟨rfl, now⟩ | ⟨other, now⟩ <;> rw [now]
    · exact effect.relies
    · cases doing : s.thread u with
      | run pc =>
        have there := Threads.pc_of_run doing
        by_cases mine : Lock.buffer ∈ held (s.pc t)
        · rw [there]
          refine relies_of_free fun also => other ?_
          exact owned.unique_run doing at' also mine
        · obtain ⟨buf, events⟩ := effect.same mine
          exact (before u).congr buf events
      | asleep chan lock pc =>
        obtain ⟨asleepAt, here⟩ := slept.asleep doing
        rw [Threads.pc_of_asleep doing]
        exact relies_of_sleep here
      | relock lock pc =>
        obtain ⟨asleepAt, chan, here⟩ := slept.relock doing
        rw [Threads.pc_of_relock doing]
        exact relies_of_sleep here

theorem queued_step (step : (program Tid q).Step t call s s') (relies : ∀ u, (s.pc u).Relies s.mem)
    (queued : Queued dim s.mem) : Queued dim s'.mem := by
  rcases step.view with ⟨mem, _⟩ | ⟨mem, _⟩ | ⟨effect, next, _, here, run, _⟩
  · rwa [mem]
  · rwa [mem]
  · exact (effect_of_exec here run).queued (relies t) queued

theorem queued_of_reach (reach : (exchange Tid q dim).Reach s) :
    (∀ t, (s.pc t).Relies s.mem) ∧ Queued dim s.mem := by
  refine reach.invariant (motive := fun s => (∀ t, (s.pc t).Relies s.mem) ∧ Queued dim s.mem) ?_ ?_
  · intro s fresh
    obtain ⟨memory, buf⟩ := fresh.buf
    refine ⟨fun t => ?_, ?_, ?_, ?_⟩
    · rw [Threads.pc_of_run (fresh.thread t)]
      trivial
    · rw [buf]
      exact RingBuffer.valid_create ..
    · rw [buf]
      rfl
    · rw [buf, fresh.events]
      exact .start
  · rintro s s' ⟨t, call⟩ earlier ⟨relies, queued⟩ _ moved
    have step := (Program.step_of_next moved).2
    exact ⟨relies_step (owned_of_reach earlier) (sleptAt_of_reach earlier) step relies, queued_step step relies queued⟩

/-- Whatever the senders and receivers do, the buffer is a bounded queue: its
indices stay in range, its history is one of a queue of `dim` elements, what has
been sent is what has been received and then what is stored from `out` on, and
`receive` returns what it has read last. -/
theorem buffer_refines_queue (some : 1 ≤ dim) (reach : (exchange Tid q dim).Reach s) :
    (s.mem.buf.count ≤ dim ∧ s.mem.buf.into < dim ∧ s.mem.buf.out < dim ∧
      s.mem.buf.into = (s.mem.buf.out + s.mem.buf.count) % dim) ∧
    Fifo.Run dim s.mem.events s.mem.buf.contents ∧ s.mem.sent = s.mem.received ++ s.mem.buf.contents ∧
    ∀ t, (s.pc t).Relies s.mem := by
  obtain ⟨relies, queued⟩ := queued_of_reach reach
  have valid := queued.valid
  have size := queued.size
  have positive : 0 < s.mem.buf.dim := by omega
  refine ⟨?_, queued.run, queued.run.puts_eq, relies⟩
  rw [← size]
  exact ⟨valid.count_le, valid.into_lt positive, valid.out_lt positive, valid.distance positive⟩

/-- A buffer with one cell, shared by two threads. -/
def oneCell : State (Fin 2) where
  mem := ⟨.create (fun _ => ⟨0, 0, 0⟩) 1, ⟨fun _ => 0, 0⟩, []⟩
  owner _ := none
  thread _ := .run .outside

theorem fresh_oneCell : Fresh (Fin 2) 1 oneCell :=
  ⟨fun _ => rfl, fun _ => rfl, ⟨_, rfl⟩, rfl⟩

set_option maxRecDepth 10000 in
/-- A student has been sent and is received, and the next one has taken its cell. -/
theorem buffer_refines_queue_oneCell : ∃ s : State (Fin 2),
    s.mem.received = [⟨7, 0, 0⟩] ∧ s.mem.buf.contents = [⟨8, 0, 0⟩] ∧
    (s.mem.buf.count ≤ 1 ∧ s.mem.buf.into < 1 ∧ s.mem.buf.out < 1 ∧
      s.mem.buf.into = (s.mem.buf.out + s.mem.buf.count) % 1) ∧
    Fifo.Run 1 s.mem.events s.mem.buf.contents ∧ s.mem.sent = s.mem.received ++ s.mem.buf.contents ∧
    ∀ t, (s.pc t).Relies s.mem := by
  have computed : ((exchange (Fin 2) .answer 1).run (schedule
      [(0, some ⟨7, 0, 0⟩, 10), (1, none, 6), (0, some ⟨8, 0, 0⟩, 4)]) oneCell).map
      (fun s => (s.mem.received, s.mem.buf.contents)) = some ([⟨7, 0, 0⟩], [⟨8, 0, 0⟩]) := by decide
  obtain ⟨s, reached, state⟩ := Option.map_eq_some_iff.mp computed
  simp only [Prod.mk.injEq] at state
  exact ⟨s, state.1, state.2, buffer_refines_queue le_rfl (.of_run (.start fresh_oneCell) reached)⟩

end DeviceProgramming.Buffers
