import DeviceProgramming.Offices.Locks

namespace DeviceProgramming.Offices

variable {k : ℕ}

/-- The part of the memory that a lock protects stays as it is. -/
def Lock.Same (m m' : Memory k) : Lock k → Prop
  | buffer q => m'.buf q = m.buf q
  | cond => m'.urgent = m.urgent ∧ m'.normal = m.normal
  | numStudents => m'.num = m.num

/-- The queue that a thread creates. -/
def Pc.creates : Pc k → Option (Queue k)
  | studentInit i => some (.answer i)
  | officeInit o => some (.urgent o)
  | _ => none

/-- What a thread has found out under a lock that it still holds. -/
def Pc.Relies (m : Memory k) : Pc k → Prop
  | send site info .wait => (m.buf (site.queue info)).count = (m.buf (site.queue info)).dim
  | send site info .fill => (m.buf (site.queue info)).count ≠ (m.buf (site.queue info)).dim
  | receive receiver .wait => (m.buf receiver.queue).count = 0
  | receive receiver .take => (m.buf receiver.queue).count ≠ 0
  | officeWait o => m.urgent o = 0 ∧ m.normal = 0
  | officeClaim o => ¬ (m.urgent o = 0 ∧ m.normal = 0)
  | specialWait => m.urgent numOffices = 0
  | specialClaim => m.urgent numOffices ≠ 0
  | _ => True

/-- What `main`, `office` and `student` give to `B_init`. -/
def Queue.capacity : Queue k → ℕ
  | normal | special => k
  | urgent _ => k / 2
  | answer _ => 2

structure Sized (m : Memory k) : Prop where
  valid : ∀ q, m.ready q = true → (m.buf q).Valid
  dim : ∀ q, m.ready q = true → (m.buf q).dim = q.capacity

section
variable {t : Tid k} {rand : ℕ} {m m' : Memory k} {pc next : Pc k}

/-- A token changes nothing but the counters in `cond`. -/
theorem Memory.token_frame (m : Memory k) (q : Queue k) (info : Info k) :
    (m.token q info).buf = m.buf ∧ (m.token q info).ready = m.ready ∧
    (m.token q info).received = m.received ∧ (m.token q info).num = m.num ∧
    (m.token q info).killed = m.killed := by
  unfold Memory.token
  split_ifs <;> exact ⟨rfl, rfl, rfl, rfl, rfl⟩

/-- An operation on one queue leaves alone what every other lock protects. -/
theorem Lock.same_of_buffer {q : Queue k} (others : ∀ other, other ≠ q → m'.buf other = m.buf other)
    (cond : m'.urgent = m.urgent ∧ m'.normal = m.normal) (num : m'.num = m.num) {lock : Lock k}
    (differ : lock ≠ .buffer q) : lock.Same m m' := by
  cases lock with
  | buffer other => exact others other fun same => differ (congrArg Lock.buffer same)
  | cond => exact cond
  | numStudents => exact num

/-- A thread only changes what its locks protect, and the queue it creates. -/
theorem Effect.same (effect : Effect t rand m pc m' next) {lock : Lock k} (free : lock ∉ Offices.held pc)
    (old : ∀ q, pc.creates = some q → lock ≠ .buffer q) : lock.Same m m' := by
  cases effect
  case studentInit i =>
    exact Lock.same_of_buffer (fun _ differ => Memory.create_other _ differ _) ⟨rfl, rfl⟩ rfl (old _ rfl)
  case officeInit o =>
    exact Lock.same_of_buffer (fun _ differ => Memory.create_other _ differ _) ⟨rfl, rfl⟩ rfl (old _ rfl)
  case fill site info =>
    refine Lock.same_of_buffer (fun _ differ => Memory.fill_other _ differ _) ⟨rfl, rfl⟩ rfl fun same => ?_
    exact free (by rw [same]; exact List.mem_singleton_self _)
  case take receiver =>
    refine Lock.same_of_buffer (fun _ differ => Memory.take_other _ differ _) ⟨rfl, rfl⟩ rfl fun same => ?_
    exact free (by rw [same]; exact List.mem_singleton_self _)
  case token site info =>
    obtain ⟨buf, _, _, num, _⟩ := m.token_frame (site.queue info) info
    cases lock with
    | buffer q => exact congrFun buf q
    | cond => exact absurd (List.mem_cons_self ..) free
    | numStudents => exact num
  case claimUrgent | claimNormal | specialClaim =>
    cases lock with
    | buffer q => rfl
    | cond => exact absurd (List.mem_singleton_self _) free
    | numStudents => rfl
  case decrementLast | decrement =>
    cases lock with
    | buffer q => rfl
    | cond => exact ⟨rfl, rfl⟩
    | numStudents => exact absurd (List.mem_singleton_self _) free
  all_goals
    cases lock with
    | buffer q => rfl
    | cond => exact ⟨rfl, rfl⟩
    | numStudents => rfl

theorem relies_of_same (relies : pc.Relies m) (same : ∀ lock ∈ held pc, lock.Same m m') : pc.Relies m' := by
  cases pc
  case send site info at' =>
    cases at'
    case wait | fill =>
      have unchanged : m'.buf (site.queue info) = m.buf (site.queue info) :=
        same (.buffer (site.queue info)) (List.mem_singleton_self _)
      simp only [Pc.Relies, unchanged] at relies ⊢
      exact relies
    all_goals trivial
  case receive receiver at' =>
    cases at'
    case wait | take =>
      have unchanged : m'.buf receiver.queue = m.buf receiver.queue :=
        same (.buffer receiver.queue) (List.mem_singleton_self _)
      simp only [Pc.Relies, unchanged] at relies ⊢
      exact relies
    all_goals trivial
  case officeWait | officeClaim | specialWait | specialClaim =>
    obtain ⟨urgent, normal⟩ : m'.urgent = m.urgent ∧ m'.normal = m.normal :=
      same .cond (List.mem_singleton_self _)
    simp only [Pc.Relies, urgent, normal] at relies ⊢
    exact relies
  all_goals trivial

theorem relies_of_target (target : (instr t pc).target = some next) : next.Relies m := by
  cases control_of_target target <;> trivial

theorem relies_of_sleep {chan : Chan k} {lock : Lock k} (here : instr t pc = .sleep chan lock next) :
    next.Relies m := by
  cases sleeps_of_instr here <;> trivial

theorem Effect.relies (effect : Effect t rand m pc m' next) : next.Relies m' := by
  cases effect
  case officeIdle urgent normal => exact ⟨urgent, normal⟩
  case officeWork work => exact work
  case specialIdle none => exact none
  case specialWork some => exact some
  case sendFull full => exact full
  case sendSpace space => exact space
  case receiveEmpty empty => exact empty
  case receiveSome some => exact some
  all_goals trivial

/-- One buffer changes and stays valid. -/
theorem Sized.update (sized : Sized m) {q : Queue k} {b : RingBuffer (Message k)}
    (buf : m'.buf = Function.update m.buf q b)
    (ready : ∀ other, other ≠ q → m'.ready other = true → m.ready other = true)
    (valid : m'.ready q = true → b.Valid) (dim : m'.ready q = true → b.dim = q.capacity) : Sized m' := by
  constructor
  · rw [buf]
    refine (Function.forall_update_iff m.buf fun other b => m'.ready other = true → b.Valid).mpr ⟨valid, ?_⟩
    intro other differ exists'
    exact sized.valid other (ready other differ exists')
  · rw [buf]
    refine (Function.forall_update_iff m.buf fun other b => m'.ready other = true → b.dim = other.capacity).mpr
      ⟨dim, ?_⟩
    intro other differ exists'
    exact sized.dim other (ready other differ exists')

theorem Sized.create (sized : Sized m) {q : Queue k} {dim : ℕ} (capacity : dim = q.capacity) :
    Sized (m.create q dim) := by
  refine sized.update rfl (fun other differ exists' => ?_) (fun _ => RingBuffer.valid_create ..)
    fun _ => capacity
  change Function.update m.ready q true other = true at exists'
  rw [Function.update_of_ne differ] at exists'
  exact exists'

/-- A queue is a valid buffer of its capacity from its creation on. -/
theorem Effect.sized (effect : Effect t rand m pc m' next) (sized : Sized m) (relies : pc.Relies m) :
    Sized m' := by
  cases effect
  case studentInit => exact sized.create rfl
  case officeInit => exact sized.create rfl
  case fill site info =>
    exact sized.update rfl (fun _ _ => id) (fun exists' => (sized.valid _ exists').fill relies _)
      fun exists' => sized.dim _ exists'
  case take receiver =>
    exact sized.update rfl (fun _ _ => id) (fun exists' => (sized.valid _ exists').take relies)
      fun exists' => sized.dim _ exists'
  case token site info =>
    obtain ⟨buf, ready, _⟩ := m.token_frame (site.queue info) info
    constructor
    · rw [buf, ready]
      exact sized.valid
    · rw [buf, ready]
      exact sized.dim
  all_goals exact ⟨sized.valid, sized.dim⟩

end

variable {s s' : State k} {t : Tid k} {rand : ℕ}

/-- What a thread has found out stays true while it holds the lock. -/
theorem relies_of_step (owned : s.Owned fun _ => held) (slept : (program k).SleptAt s)
    (step : (program k).Step t rand s s') (before : ∀ u, (s.pc u).Relies s.mem)
    (fresh : ∀ q, (s.pc t).creates = some q → ∀ u, Lock.buffer q ∉ held (s.pc u)) (u : Tid k) :
    (s'.pc u).Relies s'.mem := by
  rcases step_cases step with ⟨mem, stays⟩ | ⟨mem, next, target, moved⟩ | ⟨next, at', effect, moved⟩
  · rw [mem, stays]
    exact before u
  · rw [mem, moved]
    by_cases own : u = t
    · subst own
      rw [Function.update_self]
      exact relies_of_target target
    · rw [Function.update_of_ne own]
      exact before u
  · rw [moved]
    by_cases own : u = t
    · subst own
      rw [Function.update_self]
      exact effect.relies
    · rw [Function.update_of_ne own]
      have point := before u
      cases doing : s.thread u with
      | run pc =>
        have here := Threads.pc_of_run doing
        refine relies_of_same point fun lock holds => effect.same (fun also => own ?_) fun q creates same => ?_
        · rw [here] at holds
          exact owned.unique_run doing at' holds also
        · rw [same] at holds
          exact fresh q creates u holds
      | asleep chan lock pc =>
        obtain ⟨asleepAt, here⟩ := slept.asleep doing
        rw [Threads.pc, doing]
        exact relies_of_sleep here
      | relock lock pc =>
        obtain ⟨asleepAt, chan, here⟩ := slept.relock doing
        rw [Threads.pc, doing]
        exact relies_of_sleep here

end DeviceProgramming.Offices
