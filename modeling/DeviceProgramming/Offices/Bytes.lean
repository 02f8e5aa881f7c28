import DeviceProgramming.Offices.Untested
import DeviceProgramming.Machine.Alone

namespace DeviceProgramming.Offices

variable {k : ℕ} {d : ℕ → ℤ} {s s' s1 : State k} {t : Tid k} {rand : ℕ} {m m' m1 : Memory k} {pc next : Pc k}

/-- Two memories that differ only in cells of queues that are not in use and, by
a constant each, in the entries of `cond->urgent`. -/
structure Memory.SameBut (d : ℕ → ℤ) (m m' : Memory k) : Prop where
  ready : m'.ready = m.ready
  normal : m'.normal = m.normal
  num : m'.num = m.num
  killed : m'.killed = m.killed
  received : m'.received = m.received
  urgent : ∀ o, m'.urgent o = m.urgent o + d o
  queue : ∀ q, m.ready q = true → (m.buf q).Alike (m'.buf q)

namespace Memory.SameBut

theorem create (same : m.SameBut d m') (q : Queue k) (dim : ℕ) : (m.create q dim).SameBut d (m'.create q dim) where
  ready := by simp only [Memory.create, same.ready]
  normal := same.normal
  num := same.num
  killed := same.killed
  received := same.received
  urgent := same.urgent
  queue other ready := by
    by_cases own : other = q
    · rw [own, m.create_self, m'.create_self]
      exact RingBuffer.alike_create ..
    · rw [m.create_other own, m'.create_other own]
      exact same.queue other ((m.ready_create ready).resolve_left own)

theorem fill (same : m.SameBut d m') (sized : Sized m) {q : Queue k} (ready : m.ready q = true)
    (space : (m.buf q).count ≠ (m.buf q).dim) (message : Message k) :
    (m.fill q message).SameBut d (m'.fill q message) where
  ready := same.ready
  normal := same.normal
  num := same.num
  killed := same.killed
  received := same.received
  urgent := same.urgent
  queue other old := by
    by_cases own : other = q
    · rw [own, m.fill_self, m'.fill_self]
      exact (same.queue q ready).fill (sized.valid q ready) space message
    · rw [m.fill_other own, m'.fill_other own]
      exact same.queue other old

theorem take (same : m.SameBut d m') (sized : Sized m) {q : Queue k} (ready : m.ready q = true)
    (some : (m.buf q).count ≠ 0) (t : Tid k) : (m.take q t).SameBut d (m'.take q t) where
  ready := same.ready
  normal := same.normal
  num := same.num
  killed := same.killed
  received := by
    simp only [Memory.take, same.received, (same.queue q ready).first (sized.valid q ready) some]
  urgent := same.urgent
  queue other old := by
    by_cases own : other = q
    · rw [own, m.take_self, m'.take_self]
      exact (same.queue q ready).take (sized.valid q ready) some
    · rw [m.take_other own, m'.take_other own]
      exact same.queue other old

theorem setUrgent (same : m.SameBut d m') (o : ℕ) (n : ℤ) :
    { m with urgent := Function.update m.urgent o (m.urgent o + n) }.SameBut d
      { m' with urgent := Function.update m'.urgent o (m'.urgent o + n) } where
  ready := same.ready
  normal := same.normal
  num := same.num
  killed := same.killed
  received := same.received
  urgent other := by
    change Function.update m'.urgent o _ other = Function.update m.urgent o _ other + d other
    by_cases own : other = o
    · rw [own, Function.update_self, Function.update_self, same.urgent]
      omega
    · rw [Function.update_of_ne own, Function.update_of_ne own, same.urgent]
  queue := same.queue

theorem setNormal (same : m.SameBut d m') (n : ℤ) :
    { m with normal := m.normal + n }.SameBut d { m' with normal := m'.normal + n } where
  ready := same.ready
  normal := by rw [same.normal]
  num := same.num
  killed := same.killed
  received := same.received
  urgent := same.urgent
  queue := same.queue

theorem setNum (same : m.SameBut d m') (n : ℤ) :
    { m with num := m.num + n }.SameBut d { m' with num := m'.num + n } where
  ready := same.ready
  normal := same.normal
  num := by rw [same.num]
  killed := same.killed
  received := same.received
  urgent := same.urgent
  queue := same.queue

theorem kill (same : m.SameBut d m') : { m with killed := true }.SameBut d { m' with killed := true } where
  ready := same.ready
  normal := same.normal
  num := same.num
  killed := rfl
  received := same.received
  urgent := same.urgent
  queue := same.queue

theorem token (same : m.SameBut d m') (q : Queue k) (info : Info k) :
    (m.token q info).SameBut d (m'.token q info) := by
  unfold Memory.token
  split
  · split
    · exact same.setUrgent ..
    · split
      · exact same.setUrgent ..
      · exact same
  · split
    · exact same.setNormal 1
    · exact same

end Memory.SameBut

/-- Every effect is computed by its statement. -/
theorem exec_of_effect (effect : Effect t rand m pc m1 next) :
    ∃ run, instr t pc = .exec run ∧ run rand m = some (m1, next) := by
  cases effect with
  | decrementLast last => exact ⟨_, rfl, by rw [if_pos last]⟩
  | decrement more => exact ⟨_, rfl, by rw [if_neg more]⟩
  | officeIdle urgent normal => exact ⟨_, rfl, by rw [if_pos ⟨urgent, normal⟩]⟩
  | officeWork work => exact ⟨_, rfl, by rw [if_neg work]⟩
  | claimUrgent urgent => exact ⟨_, rfl, by rw [if_pos urgent]⟩
  | claimNormal none => exact ⟨_, rfl, by rw [if_neg (not_not.mpr none)]⟩
  | specialIdle none => exact ⟨_, rfl, by rw [if_pos none]⟩
  | specialWork some => exact ⟨_, rfl, by rw [if_neg some]⟩
  | sendFull full => exact ⟨_, rfl, by rw [Queue.fields_buffer, if_pos full]⟩
  | sendSpace space => exact ⟨_, rfl, by rw [Queue.fields_buffer, if_neg space]⟩
  | receiveEmpty empty => exact ⟨_, rfl, by rw [Queue.fields_buffer, if_pos empty]⟩
  | receiveSome some => exact ⟨_, rfl, by rw [Queue.fields_buffer, if_neg some]⟩
  | _ => exact ⟨_, rfl, rfl⟩

/-- A statement does the same to both memories, unless it decides on an entry of
`cond->urgent` in which they differ. -/
theorem Effect.sameBut (effect : Effect t rand m pc m1 next) (same : m.SameBut d m') (sized : Sized m)
    (relies : pc.Relies m) (uses : ∀ q, pc.queue = some q → m.ready q = true)
    (agree : ∀ o, pc.tests = some o → d o = 0) (claimed : ∀ o : Fin numOffices, pc = .officeClaim o → d o = 0) :
    ∃ m1', Effect t rand m' pc m1' next ∧ m1.SameBut d m1' := by
  have entry {o : ℕ} (zero : d o = 0) : m'.urgent o = m.urgent o := by rw [same.urgent, zero, add_zero]
  cases effect with
  | studentInit | officeInit => exact ⟨_, by constructor, same.create _ _⟩
  | decrementLast last => exact ⟨_, .decrementLast (by rwa [same.num]), same.setNum (-1)⟩
  | decrement more => exact ⟨_, .decrement (by rwa [same.num]), same.setNum (-1)⟩
  | kill => exact ⟨_, .kill, same.kill⟩
  | officeIdle urgent normal =>
    exact ⟨m', .officeIdle (by rwa [entry (agree _ rfl)]) (by rwa [same.normal]), same⟩
  | officeWork work => exact ⟨m', .officeWork (by rwa [entry (agree _ rfl), same.normal]), same⟩
  | claimUrgent urgent =>
    exact ⟨_, .claimUrgent (by rwa [entry (claimed _ rfl)]), same.setUrgent _ (-1)⟩
  | claimNormal none => exact ⟨_, .claimNormal (by rwa [entry (claimed _ rfl)]), same.setNormal (-1)⟩
  | officeServe => exact ⟨m', .officeServe, same⟩
  | specialIdle none => exact ⟨m', .specialIdle (by rwa [entry (agree _ rfl)]), same⟩
  | specialWork some => exact ⟨m', .specialWork (by rwa [entry (agree _ rfl)]), same⟩
  | specialClaim => exact ⟨_, .specialClaim, same.setUrgent _ (-1)⟩
  | sendFull full =>
    have queue := same.queue _ (uses _ rfl)
    exact ⟨m', .sendFull (by rwa [queue.count, queue.dim]), same⟩
  | sendSpace space =>
    have queue := same.queue _ (uses _ rfl)
    exact ⟨m', .sendSpace (by rwa [queue.count, queue.dim]), same⟩
  | fill => exact ⟨_, .fill, same.fill sized (uses _ rfl) relies _⟩
  | token => exact ⟨_, .token, same.token _ _⟩
  | receiveEmpty empty => exact ⟨m', .receiveEmpty (by rwa [(same.queue _ (uses _ rfl)).count]), same⟩
  | receiveSome some => exact ⟨m', .receiveSome (by rwa [(same.queue _ (uses _ rfl)).count]), same⟩
  | @take receiver =>
    have first := (same.queue _ (uses receiver.queue rfl)).first (sized.valid _ (uses _ rfl)) relies
    exact ⟨_, first ▸ .take, same.take sized (uses _ rfl) relies t⟩

/-- Two states that are the same but for such cells. -/
structure SameBut (d : ℕ → ℤ) (s s' : State k) : Prop where
  thread : s'.thread = s.thread
  owner : s'.owner = s.owner
  mem : s.mem.SameBut d s'.mem
  claimed : ∀ t (o : Fin numOffices), s.pc t = .officeClaim o → d o = 0

theorem Effect.test_of_claim {o : Fin numOffices} (effect : Effect t rand m pc m1 (.officeClaim o)) :
    pc = .officeTest o := by
  cases effect
  rfl

/-- An office claims a request only after its test. -/
theorem claim_cases (step : (program k).Step t rand s s1) {u : Tid k} {o : Fin numOffices}
    (claims : s1.pc u = .officeClaim o) : s.pc u = .officeClaim o ∨ tests s t = some (o : ℕ) := by
  rcases step_cases step with ⟨_, stays⟩ | ⟨_, next, target, moved⟩ | ⟨next, running, effect, moved⟩
  · exact Or.inl (stays ▸ claims)
  · rcases update_cases moved u with ⟨rfl, now⟩ | ⟨_, now⟩ <;> rw [now] at claims
    · subst claims
      have control := control_of_target target
      generalize s.pc u = pc at control
      cases control
    · exact Or.inl claims
  · rcases update_cases moved u with ⟨rfl, now⟩ | ⟨_, now⟩ <;> rw [now] at claims
    · subst claims
      rw [tests_of_run running, effect.test_of_claim]
      exact Or.inr rfl
    · exact Or.inl claims

/-- A step that reads no entry in which the states differ is the same in both. -/
theorem SameBut.step {stages : Fin k → Stage} (same : SameBut d s s') (delivers : Delivers stages s)
    (moved : (program k).step s t rand = some s1) (agree : ∀ o, tests s t = some o → d o = 0) :
    ∃ s1', (program k).step s' t rand = some s1' ∧ SameBut d s1 s1' := by
  obtain ⟨live, step⟩ := Program.step_iff.mp moved
  have claimed (u : Tid k) (o : Fin numOffices) (claims : s1.pc u = .officeClaim o) : d o = 0 :=
    (claim_cases step claims).elim (same.claimed u o) (agree o)
  have alive : (program k).halted s'.mem = false := same.mem.killed.trans live
  suffices also : ∃ s1', (program k).Step t rand s' s1' ∧ s1'.thread = s1.thread ∧ s1'.owner = s1.owner ∧
      s1.mem.SameBut d s1'.mem by
    obtain ⟨s1', step', thread, owner, mem⟩ := also
    exact ⟨s1', Program.step_iff.mpr ⟨alive, step'⟩, thread, owner, mem, claimed⟩
  obtain ⟨mem', owner', thread'⟩ := s'
  obtain ⟨rfl, rfl, heap, before⟩ := same
  cases step with
  | relock woken free => exact ⟨_, .relock woken free, rfl, rfl, heap⟩
  | acquire at' here free => exact ⟨_, .acquire at' here free, rfl, rfl, heap⟩
  | release at' here => exact ⟨_, .release at' here, rfl, rfl, heap⟩
  | sleep at' here => exact ⟨_, .sleep at' here, rfl, rfl, heap⟩
  | wakeup at' here => exact ⟨_, .wakeup at' here, rfl, rfl, heap⟩
  | @exec pc effect mem next at' here run =>
    have point := Threads.pc_of_run at'
    have relies := delivers.relies t
    have uses := delivers.placed.uses t
    rw [point] at relies uses
    rw [tests_of_run at'] at agree
    obtain ⟨m1', effect', still⟩ := (effect_of_exec here run).sameBut heap delivers.sized relies uses agree
      fun o claims => before t o (point.trans claims)
    obtain ⟨run', here', computed⟩ := exec_of_effect effect'
    exact ⟨_, .exec at' here' computed, rfl, rfl, still⟩

/-- What can be seen of a state: where the threads are, the messages they have
received and the messages in the queues. -/
structure LooksLike (s s' : State k) : Prop where
  thread : s'.thread = s.thread
  received : s'.mem.received = s.mem.received
  ready : s'.mem.ready = s.mem.ready
  contents : ∀ q, s.mem.ready q = true → (s'.mem.buf q).contents = (s.mem.buf q).contents

theorem SameBut.looksLike (same : SameBut d s s') : LooksLike s s' where
  thread := same.thread
  received := same.mem.received
  ready := same.mem.ready
  contents q ready := (same.mem.queue q ready).contents

theorem Launched.sameBut (launched : Launched s) (launched' : Launched s') :
    SameBut (fun o => s'.mem.urgent o - s.mem.urgent o) s s' where
  thread := by
    funext t
    rw [launched.thread, launched'.thread]
  owner := by
    funext l
    rw [launched.owner, launched'.owner]
  mem :=
    { ready := by
        funext q
        rw [Bool.eq_iff_iff, launched'.ready, launched.ready]
      normal := launched'.normal.trans launched.normal.symm
      num := launched'.num.trans launched.num.symm
      killed := launched'.killed.trans launched.killed.symm
      received := by
        funext t
        rw [launched.received, launched'.received]
      urgent := fun o => by omega
      queue := fun q ready => by
        rcases (launched.ready q).mp ready with rfl | rfl
        · obtain ⟨memory, new⟩ := launched.normalQ
          obtain ⟨memory', new'⟩ := launched'.normalQ
          rw [new, new']
          exact RingBuffer.alike_create ..
        · obtain ⟨memory, new⟩ := launched.specialQ
          obtain ⟨memory', new'⟩ := launched'.specialQ
          rw [new, new']
          exact RingBuffer.alike_create .. }
  claimed t o claims := by
    rw [launched.pc] at claims
    cases t <;> cases claims

/-- Whether a statement can be executed does not depend on the memory. -/
theorem isSome_of_exec {effect : ℕ → Memory k → Option (Memory k × Pc k)} (here : instr t pc = .exec effect)
    (rand : ℕ) (m m' : Memory k) : (effect rand m').isSome = (effect rand m).isSome := by
  cases pc
  case send site info at' => cases at' <;> cases here <;> rfl
  case receive receiver at' => cases at' <;> cases here <;> rfl
  case finish info at' => cases at' <;> cases here <;> rfl
  all_goals cases here <;> rfl

/-- The same threads can move in both states. -/
theorem SameBut.isSome_step (same : SameBut d s s') (t : Tid k) (rand : ℕ) :
    ((program k).step s' t rand).isSome = ((program k).step s t rand).isSome := by
  have killed : (program k).halted s'.mem = (program k).halted s.mem := same.mem.killed
  unfold Program.step
  rw [killed, same.thread, same.owner]
  split
  · rfl
  · cases s.thread t with
    | asleep => rfl
    | relock lock pc => dsimp only; split <;> rfl
    | run pc =>
      cases here : instr t pc with
      | acquire lock next => simp only [program, here]; split <;> rfl
      | release | sleep | wakeup => simp only [program, here, Option.isSome_some]
      | exec effect => simp only [program, here, Option.isSome_map, isSome_of_exec here rand s.mem s'.mem]

theorem run_launches {s0 : State k} (launched : Launched s0) {path : List (State k × Tid k × ℕ)}
    (run : ((program k).system (· = s0)).Run path s) : (launches k).Run path s := by
  induction run with
  | start begun => exact .start (begun ▸ launched)
  | next _ moved ih => exact ih.next moved

/-- Two runs with one schedule and the same draws, from two contents of the heap. -/
structure SameSchedule (s0 s0' : State k) (path : List (State k × Tid k × ℕ)) (s : State k)
    (path' : List (State k × Tid k × ℕ)) (s' : State k) : Prop where
  run : ((program k).system (· = s0)).Run path s
  run' : ((program k).system (· = s0')).Run path' s'
  labels : path'.map Prod.snd = path.map Prod.snd

/-- When the entries of `cond->urgent` that offices look at were the same, so are
the runs. -/
theorem sameBut_of_schedule {s0 s0' : State k} (launched : Launched s0) (launched' : Launched s0')
    {path path' : List (State k × Tid k × ℕ)} (both : SameSchedule s0 s0' path s path' s')
    (agree : ∀ step ∈ path, ∀ o, tests step.1 step.2.1 = some o → s0'.mem.urgent o = s0.mem.urgent o) :
    List.Forall₂ (fun step step' => LooksLike step.1 step'.1) path path' ∧
      SameBut (fun o => s0'.mem.urgent o - s0.mem.urgent o) s s' := by
  obtain ⟨run, run', labels⟩ := both
  induction run generalizing path' s' with
  | start begun =>
    cases run' with
    | start begun' =>
      subst begun begun'
      exact ⟨.nil, launched.sameBut launched'⟩
    | next => cases labels
  | @next path s s1 label earlier moved ih =>
    cases run' with
    | start => cases labels
    | @next path' s' s1' label' earlier' moved' =>
      obtain ⟨rfl, before⟩ := List.cons.inj labels
      obtain ⟨here, others⟩ := List.forall_mem_cons.mp agree
      obtain ⟨alike, same⟩ := ih others earlier' before
      refine ⟨.cons same.looksLike alike, ?_⟩
      obtain ⟨⟨stages, delivers⟩, _⟩ := known_of_run (run_launches launched earlier)
      obtain ⟨s2, also, still⟩ := same.step delivers moved fun o tested => by rw [here o tested, sub_self]
      cases Option.some.inj (also.symm.trans moved')
      exact still

/-- The thread has run alone from the start and has just looked for work. -/
structure LooksFirst (s0 : State k) (t : Tid k) (o steps : ℕ) (pc : Pc k) : Prop where
  looks : ∃ path before s, ((program k).system (· = s0)).Run ((before, t, 0) :: path) s ∧
    tests before t = some o ∧ ((before, t, 0) :: path).map Prod.snd = List.replicate steps (t, 0) ∧
    s.thread t = .run pc

theorem Launched.alone (launched : Launched s) (t : Tid k) :
    s = Program.alone s.mem (fun _ => none) s.thread t t.entry := by
  have owner : s.owner = fun _ => none := funext launched.owner
  have same : Function.update s.thread t (.run t.entry) = s.thread :=
    Function.update_eq_self_iff.mpr (launched.thread t).symm
  rw [Program.alone, same, ← owner]

theorem office_looksFirst {s0 : State k} (launched : Launched s0) (o : Fin numOffices) :
    LooksFirst s0 (.office o) o 3 (if s0.mem.urgent o = 0 then .officeWait o else .officeClaim o) := by
  have live : s0.mem.killed = false := launched.killed
  let made := s0.mem.create (.urgent o) (k / 2)
  let held : Lock k → Option (Tid k) := Function.update (fun _ => none) .cond (some (.office o))
  have created : (program k).step (Program.alone s0.mem (fun _ => none) s0.thread (.office o) (.officeInit o))
      (.office o) 0 = some (Program.alone made (fun _ => none) s0.thread (.office o) (.officeLock o)) :=
    Program.step_alone_exec live rfl rfl
  have locked : (program k).step (Program.alone made (fun _ => none) s0.thread (.office o) (.officeLock o))
      (.office o) 0 = some (Program.alone made held s0.thread (.office o) (.officeTest o)) :=
    Program.step_alone_acquire live rfl rfl
  have looked : (program k).step (Program.alone made held s0.thread (.office o) (.officeTest o)) (.office o) 0 =
      some (Program.alone made held s0.thread (.office o)
        (if made.urgent o = 0 ∧ made.normal = 0 then .officeWait o else .officeClaim o)) :=
    Program.step_alone_exec live rfl rfl
  have run : ((program k).system (· = s0)).Run []
      (Program.alone s0.mem (fun _ => none) s0.thread (.office o) (.officeInit o)) :=
    .start (launched.alone (.office o)).symm
  have path := ((run.next (Program.next_of_step created)).next (Program.next_of_step locked)).next
    (Program.next_of_step looked)
  refine ⟨_, _, _, path, tests_of_run (Program.thread_alone ..), rfl, (Program.thread_alone ..).trans ?_⟩
  simp [made, Memory.create, launched.normal]

theorem special_looksFirst {s0 : State k} (launched : Launched s0) :
    LooksFirst s0 .specialOffice numOffices 2
      (if s0.mem.urgent numOffices = 0 then .specialWait else .specialClaim) := by
  have live : s0.mem.killed = false := launched.killed
  let held : Lock k → Option (Tid k) := Function.update (fun _ => none) .cond (some .specialOffice)
  have locked : (program k).step (Program.alone s0.mem (fun _ => none) s0.thread .specialOffice .specialLock)
      .specialOffice 0 = some (Program.alone s0.mem held s0.thread .specialOffice .specialTest) :=
    Program.step_alone_acquire live rfl rfl
  have looked : (program k).step (Program.alone s0.mem held s0.thread .specialOffice .specialTest) .specialOffice 0 =
      some (Program.alone s0.mem held s0.thread .specialOffice
        (if s0.mem.urgent numOffices = 0 then .specialWait else .specialClaim)) :=
    Program.step_alone_exec live rfl rfl
  have run : ((program k).system (· = s0)).Run []
      (Program.alone s0.mem (fun _ => none) s0.thread .specialOffice .specialLock) :=
    .start (launched.alone .specialOffice).symm
  have path := (run.next (Program.next_of_step locked)).next (Program.next_of_step looked)
  exact ⟨_, _, _, path, tests_of_run (Program.thread_alone ..), rfl, Program.thread_alone ..⟩

/-- Starts that one thread's first look for work tells apart have runs that part. -/
theorem LooksFirst.same {s0 s0' : State k} {o steps : ℕ} {pc pc' : Pc k} (first : LooksFirst s0 t o steps pc)
    (first' : LooksFirst s0' t o steps pc')
    (alike : ∀ path s path' s', SameSchedule s0 s0' path s path' s' → LooksLike s s') : pc' = pc := by
  obtain ⟨path, before, s, run, _, labels, there⟩ := first
  obtain ⟨path', before', s', run', _, labels', there'⟩ := first'
  have looks := alike _ _ _ _ ⟨run, run', labels'.trans labels.symm⟩
  exact Activity.run.inj (there'.symm.trans ((congrFun looks.thread t).trans there))

/-- Two first looks that lead to the same statement have found the same. -/
theorem zero_iff_of_choice {a b : ℤ} {wait claim : Pc k} (differ : wait ≠ claim)
    (same : (if b = 0 then wait else claim) = if a = 0 then wait else claim) : b = 0 ↔ a = 0 := by
  by_cases first : a = 0
  · rw [if_pos first] at same
    refine ⟨fun _ => first, fun _ => by_contra fun second => differ ?_⟩
    rw [if_neg second] at same
    exact same.symm
  · rw [if_neg first] at same
    refine ⟨fun second => absurd ?_ differ, fun zero => absurd zero first⟩
    rwa [if_pos second] at same

/-- The simulation does not depend on the heap as far as it does not look at
`cond->urgent`. In every run all cells that are read have been written if and
only if no office has looked for work, and all but the entries of `cond->urgent`
always have. Two runs with one schedule and the same draws do the same if the
entries that offices look at were the same; if all such runs do the same, then
the same entries were zero. -/
theorem heap_independent (k : ℕ) :
    (∀ path s, (launches k).Run path s →
      (ReadsWritten (fun _ => True) path ↔ ∀ step ∈ path, tests step.1 step.2.1 = none) ∧
        ReadsWritten (fun c => ∀ o, c ≠ .urgent o) path) ∧
    ∀ s0 s0' : State k, Launched s0 → Launched s0' →
      (∀ path s path' s', SameSchedule s0 s0' path s path' s' →
        (∀ step ∈ path, ∀ o, tests step.1 step.2.1 = some o → s0'.mem.urgent o = s0.mem.urgent o) →
        List.Forall₂ (fun step step' => LooksLike step.1 step'.1) path path' ∧ LooksLike s s' ∧
          ∀ t rand, ((program k).step s' t rand).isSome = ((program k).step s t rand).isSome) ∧
      ((∀ path s path' s', SameSchedule s0 s0' path s path' s' → LooksLike s s') →
        ∀ o ≤ numOffices, s0'.mem.urgent o = 0 ↔ s0.mem.urgent o = 0) := by
  refine ⟨fun path s run => readsWritten_iff run, fun s0 s0' launched launched' => ⟨?_, fun alike o within => ?_⟩⟩
  · intro path s path' s' both agree
    obtain ⟨steps, same⟩ := sameBut_of_schedule launched launched' both agree
    exact ⟨steps, same.looksLike, same.isSome_step⟩
  · rcases Nat.lt_or_eq_of_le within with office | rfl
    · have same := (office_looksFirst launched ⟨o, office⟩).same (office_looksFirst launched' ⟨o, office⟩) alike
      exact zero_iff_of_choice (by simp) same
    · have same := (special_looksFirst launched).same (special_looksFirst launched') alike
      exact zero_iff_of_choice (by simp) same

/-- Student `i` is served by office `o` and goes home. -/
def served (i : Fin k) (o : Fin numOffices) : List (Tid k × ℕ) :=
  schedule [(.student i, 0, 13), (.office o, 9, 20), (.student i, 0, 8)]

/-- Whether an office has looked for work, the labels of a run, and how many messages an office
and a student have got. -/
def summary (i : Fin k) (o : Fin numOffices) (run : List (State k × Tid k × ℕ) × State k) :
    Bool × List (Tid k × ℕ) × ℕ × ℕ :=
  (run.1.any fun step => (tests step.1 step.2.1).isSome, run.1.map Prod.snd,
    (run.2.mem.received (.office o)).length, (run.2.mem.received (.student i)).length)

set_option maxRecDepth 20000 in
/-- A student is served on two heaps with different bytes behind the queues. -/
theorem heap_independent_served : ∃ s0 s0' : State 1, s0'.mem.buf .normal ≠ s0.mem.buf .normal ∧
    ∃ path s path' s', SameSchedule s0 s0' path s path' s' ∧ (s.mem.received (.office 2)).length = 1 ∧
      (s.mem.received (.student 0)).length = 1 ∧ LooksLike s s' ∧
      ReadsWritten (fun c => ∀ o, c ≠ .urgent o) path ∧ ¬ ReadsWritten (fun _ => True) path := by
  let bytes (urgent : ℕ) : ℕ → Message 1 := fun _ => ⟨⟨0, 0, urgent⟩, .specialReply⟩
  have launched (urgent : ℕ) : Launched (boot 1 (bytes urgent)) := (opening_boot 1 _).launched
  have computed : (((program 1).system (· = boot 1 (bytes 0))).trace (served 0 2) [] (boot 1 (bytes 0))).map
      (summary 0 2) = some (true, (served 0 2).reverse, 1, 1) := by decide
  have computed' : (((program 1).system (· = boot 1 (bytes 1))).trace (served 0 2) [] (boot 1 (bytes 1))).map
      (summary 0 2) = some (true, (served 0 2).reverse, 1, 1) := by decide
  obtain ⟨⟨path, s⟩, reached, state⟩ := Option.map_eq_some_iff.mp computed
  obtain ⟨⟨path', s'⟩, reached', state'⟩ := Option.map_eq_some_iff.mp computed'
  simp only [summary, Prod.mk.injEq, List.any_eq_true] at state state'
  obtain ⟨⟨step, member, looks⟩, labels, office, student⟩ := state
  have run := System.Run.of_trace (.start rfl) reached
  have both : SameSchedule _ _ path s path' s' :=
    ⟨run, System.Run.of_trace (.start rfl) reached', state'.2.1.trans labels.symm⟩
  obtain ⟨reads, runs⟩ := heap_independent 1
  have initialised := reads _ s (run_launches (launched 0) run)
  have same := (runs _ _ (launched 0) (launched 1)).1 _ _ _ _ both fun _ _ _ _ => rfl
  refine ⟨_, _, fun equal => ?_, _, s, _, s', both, office, student, same.2.1, initialised.2, fun all => ?_⟩
  · have first := congrArg (fun b => (RingBuffer.buffer b 0).info.urgent) equal
    cases first
  · rw [initialised.1.mp all step member] at looks
    cases looks

/-- The heap of `boot` with a one in every entry of `cond->urgent`. -/
def bootOnes (k : ℕ) (memory : ℕ → Message k) : State k :=
  { boot k memory with mem := { (boot k memory).mem with urgent := fun _ => 1 } }

theorem launched_bootOnes (k : ℕ) (memory : ℕ → Message k) : Launched (bootOnes k memory) where
  thread _ := rfl
  owner _ := rfl
  normalQ := ⟨memory, rfl⟩
  specialQ := ⟨memory, rfl⟩
  ready q := by simp [bootOnes, boot]
  normal := rfl
  num := rfl
  killed := rfl
  received _ := rfl

/-- With a one in `cond->urgent[0]` office 0 claims a request that nobody has sent. -/
theorem office_claims_garbage :
    (¬ ∀ (k : ℕ), 1 ≤ k → ∀ s0 s0' : State k, Launched s0 → Launched s0' → ∀ path s path' s',
      SameSchedule s0 s0' path s path' s' → LooksLike s s') ∧
    ¬ ∀ (k : ℕ), 1 ≤ k → ∀ path s, (launches k).Run path s → ReadsWritten (fun _ => True) path := by
  let memory : ℕ → Message 1 := fun _ => ⟨⟨0, 0, 0⟩, .specialReply⟩
  have zeros := office_looksFirst (opening_boot 1 memory).launched 0
  refine ⟨fun always => ?_, fun always => ?_⟩
  · have ones := office_looksFirst (launched_bootOnes 1 memory) 0
    have same := zeros.same ones (always 1 le_rfl _ _ (opening_boot 1 memory).launched (launched_bootOnes 1 memory))
    cases same
  · obtain ⟨path, before, s, run, looks, _⟩ := zeros
    have from' := run_launches (opening_boot 1 memory).launched run
    have none := (readsWritten_iff from').1.mp (always 1 le_rfl _ _ from') _ (List.mem_cons_self ..)
    cases none.symm.trans looks

end DeviceProgramming.Offices
