import DeviceProgramming.Offices.Goes

namespace DeviceProgramming.Offices

variable {k : ℕ} {stages : Fin k → Stage} {s s' : State k} {t : Tid k} {rand : ℕ} {next : Pc k}

theorem queue_of_held {pc : Pc k} {q : Queue k} (holds : Lock.buffer q ∈ held pc) : pc.queue = some q := by
  cases pc
  case send site info at' => cases at' <;> simp_all [held, SendAt.held, Pc.queue]
  case receive receiver at' => cases at' <;> simp_all [held, ReceiveAt.held, Pc.queue]
  case finish info at' => cases at' <;> simp [held, FinishAt.held] at holds
  all_goals simp [held] at holds

namespace Placed

theorem congr (placed : Placed stages s) (mem : s'.mem = s.mem) (stays : s'.pc = s.pc) : Placed stages s' := by
  cases placed
  constructor <;> simp only [mem, stays] <;> assumption

/-- A step that moves no `Info`; new queues are empty. -/
theorem still (placed : Placed stages s) (moved : s'.pc = Function.update s.pc t next) (runs : t.Runs next)
    (hand : next.hand = (s.pc t).hand) (at' : ∀ info, next.hand = some info → next.At (stages info.id))
    (awaits : ∀ service, next.awaits = some service → (s.pc t).awaits = some service)
    (uses : ∀ q, next.queue = some q → s.mem.ready q = true)
    (received : s'.mem.received = s.mem.received)
    (kept : ∀ q, s.mem.ready q = true → s'.mem.ready q = true ∧ s'.mem.buf q = s.mem.buf q)
    (fresh : ∀ q, s'.mem.ready q = true → s.mem.ready q = true ∨ (s'.mem.buf q).contents = [])
    (created : ∀ q, s'.mem.ready q = true ↔ q.Created s'.pc) : Placed stages s' := by
  have view := update_cases moved
  have hands (u : Tid k) : (s'.pc u).hand = (s.pc u).hand := by
    rcases view u with ⟨rfl, now⟩ | ⟨_, now⟩
    · rw [now, hand]
    · rw [now]
  constructor
  case runs =>
    exact placed.runs_moved moved runs
  case carried =>
    intro u info has
    have old := has
    rw [hands] at old
    obtain ⟨same, atStage, place⟩ := placed.carried u info old
    refine ⟨same, ?_, place⟩
    rcases view u with ⟨rfl, now⟩ | ⟨_, now⟩
    · rw [now] at has ⊢
      exact at' info has
    · rw [now]
      exact atStage
  case inHand =>
    intro i u place
    rw [hands]
    exact placed.inHand i u place
  case listed =>
    intro q exists' m member
    rcases fresh q exists' with old | empty
    · rw [(kept q old).2] at member
      exact placed.listed q old m member
    · rw [empty] at member
      cases member
  case queued =>
    intro i q place
    obtain ⟨old, m, member, own⟩ := placed.queued i q place
    obtain ⟨still, same⟩ := kept q old
    exact ⟨still, m, by rw [same]; exact member, own⟩
  case nodup =>
    intro q exists'
    rcases fresh q exists' with old | empty
    · rw [(kept q old).2]
      exact placed.nodup q old
    · rw [empty]
      exact List.nodup_nil
  case awaits =>
    intro i service waits
    rcases view (.student i) with ⟨rfl, now⟩ | ⟨_, now⟩
    · rw [now] at waits
      exact placed.awaits i service (awaits service waits)
    · rw [now] at waits
      exact placed.awaits i service waits
  case received =>
    intro i
    rw [received]
    exact placed.received i
  case ready =>
    exact created
  case uses =>
    exact placed.uses_moved moved (fun q old => (kept q old).1) uses
  case known =>
    intro i o been
    exact (kept _ (placed.known i o been)).1

/-- A step that moves no `Info` and creates no queue. -/
theorem quiet (placed : Placed stages s) (moved : s'.pc = Function.update s.pc t next)
    (buf : s'.mem.buf = s.mem.buf) (ready : s'.mem.ready = s.mem.ready)
    (received : s'.mem.received = s.mem.received) (goes : Goes stages t (s.pc t) next)
    (uses : ∀ q, next.queue = some q → s.mem.ready q = true) : Placed stages s' := by
  refine placed.still moved goes.runs goes.hand goes.at' goes.awaits uses received ?_ ?_ ?_
  · intro q old
    rw [ready, buf]
    exact ⟨old, rfl⟩
  · intro q exists'
    rw [ready] at exists'
    exact Or.inl exists'
  · intro q
    rw [ready, created_moved moved goes.before goes.after]
    exact placed.ready q

/-- Who creates a queue has not created it before. -/
theorem owner_of_creates (placed : Placed stages s) {q : Queue k} (creates : (s.pc t).creates = some q) :
    (∃ i, t = .student i ∧ s.pc t = .studentInit i ∧ q = .answer i) ∨
    ∃ o, t = .office o ∧ s.pc t = .officeInit o ∧ q = .urgent o := by
  have runs := placed.runs t
  cases here : s.pc t <;> rw [here] at creates runs
  case studentInit i =>
    cases t with
    | student j =>
      cases (show i = j from runs)
      exact Or.inl ⟨i, rfl, rfl, (Option.some.inj creates).symm⟩
    | office | specialOffice => exact runs.elim
  case officeInit o =>
    cases t with
    | office o' =>
      cases (show o = o' from runs)
      exact Or.inr ⟨o, rfl, rfl, (Option.some.inj creates).symm⟩
    | student | specialOffice => exact runs.elim
  all_goals cases creates

theorem unready (placed : Placed stages s) {q : Queue k} (creates : (s.pc t).creates = some q) :
    s.mem.ready q ≠ true := by
  intro already
  have created := (placed.ready q).mp already
  rcases placed.owner_of_creates creates with ⟨i, rfl, here, rfl⟩ | ⟨o, rfl, here, rfl⟩
  · have past : ¬ (s.pc (.student i)).Initial := created
    rw [here] at past
    exact past trivial
  · obtain ⟨o', same, past⟩ := created
    rw [Fin.ext same, here] at past
    exact past trivial

theorem created_update (placed : Placed stages s) {q : Queue k} (creates : (s.pc t).creates = some q)
    (moved : s'.pc = Function.update s.pc t next) (after : ¬ next.Initial) (other : Queue k) :
    other.Created s'.pc ↔ other = q ∨ other.Created s.pc := by
  rcases placed.owner_of_creates creates with ⟨i, rfl, here, rfl⟩ | ⟨o, rfl, here, rfl⟩
  · cases other with
    | normal | special => exact ⟨Or.inr, fun _ => trivial⟩
    | urgent n => simp [Queue.Created, moved]
    | answer j =>
      by_cases same : j = i
      · subst same
        simp [Queue.Created, moved, after]
      · simp [Queue.Created, moved, same]
  · cases other with
    | normal | special => exact ⟨Or.inr, fun _ => trivial⟩
    | answer j => simp [Queue.Created, moved]
    | urgent n =>
      simp only [Queue.Created, moved, Queue.urgent.injEq]
      constructor
      · rintro ⟨o', rfl, past⟩
        by_cases same : o' = o
        · subst same
          exact Or.inl rfl
        · rw [Function.update_of_ne (by simpa using same)] at past
          exact Or.inr ⟨o', rfl, past⟩
      · rintro (rfl | ⟨o', rfl, past⟩)
        · exact ⟨o, rfl, by rw [Function.update_self]; exact after⟩
        · refine ⟨o', rfl, ?_⟩
          by_cases same : o' = o
          · subst same
            rw [Function.update_self]
            exact after
          · rw [Function.update_of_ne (by simpa using same)]
            exact past

/-- A thread creates its queue. -/
theorem create (placed : Placed stages s) {q : Queue k} {dim : ℕ} (creates : (s.pc t).creates = some q)
    (mem : s'.mem = s.mem.create q dim) (moved : s'.pc = Function.update s.pc t next)
    (runs : t.Runs next) (hand : next.hand = (s.pc t).hand)
    (at' : ∀ info, next.hand = some info → next.At (stages info.id)) (awaits : next.awaits = none)
    (uses : ∀ q, next.queue = some q → s.mem.ready q = true) (after : ¬ next.Initial) :
    Placed stages s' := by
  have unready := placed.unready creates
  have ready (other : Queue k) : s'.mem.ready other = true ↔ other = q ∨ s.mem.ready other = true := by
    rw [mem]
    change Function.update s.mem.ready q true other = true ↔ _
    by_cases same : other = q
    · subst same
      simp
    · simp [same]
  refine placed.still moved runs hand at' (fun service waits => ?_) uses (by rw [mem]; rfl) ?_ ?_ ?_
  · rw [awaits] at waits
    cases waits
  · intro other old
    have differ : other ≠ q := by
      rintro rfl
      exact unready old
    refine ⟨(ready other).mpr (Or.inr old), ?_⟩
    rw [mem]
    exact Memory.create_other _ differ _
  · intro other exists'
    rcases (ready other).mp exists' with rfl | old
    · refine Or.inr ?_
      rw [mem, Memory.create_self, RingBuffer.contents_create]
    · exact Or.inl old
  · intro other
    rw [ready, placed.created_update creates moved after, placed.ready]

/-- A thread starts by creating its queue. -/
theorem begin (placed : Placed stages s) {q : Queue k} (creates : (s.pc t).creates = some q)
    (effect : Effect t rand s.mem (s.pc t) s'.mem next) (moved : s'.pc = Function.update s.pc t next) :
    Placed stages s' := by
  have runs := placed.runs t
  have carried := placed.carried t
  generalize memory : s'.mem = m' at effect
  rcases placed.owner_of_creates creates with ⟨i, rfl, here, rfl⟩ | ⟨o, rfl, here, rfl⟩
  · rw [here] at effect runs carried
    cases effect
    obtain ⟨_, at', _⟩ := carried ⟨i, numOffices, 0⟩ rfl
    refine placed.create creates memory moved ⟨rfl, rfl⟩ (by rw [here]; rfl) ?_ rfl ?_ id
    · intro info has
      cases Option.some.inj has
      cases stage : stages i <;> rw [stage] at at' <;> exact at'
    · intro q works
      cases Option.some.inj works
      exact placed.ready_shared.1
  · rw [here] at effect runs
    cases effect
    exact placed.create creates memory moved runs (by rw [here]; rfl) nofun rfl nofun id

end Placed

end DeviceProgramming.Offices
