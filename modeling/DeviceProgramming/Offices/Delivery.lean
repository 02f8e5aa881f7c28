import DeviceProgramming.Offices.Quiet
import DeviceProgramming.Offices.Taking

namespace DeviceProgramming.Offices

variable {k : ℕ} {stages : Fin k → Stage} {s s' : State k} {t : Tid k} {rand : ℕ} {next : Pc k}

/-- The stages of a student that no office has found urgent. -/
def Stage.Plain : Stage → Prop
  | fresh | normalQ | taken _ | drawn _ false | answered _ false | home _ false => True
  | _ => False

theorem Stage.Plain.sent {stage : Stage} {site : Site} (plain : stage.Plain) (sends : site.Sends stage) :
    stage.sent.Plain := by
  cases stage with
  | drawn o u => cases u <;> exact plain
  | home o u =>
    cases u with
    | false => rcases site with ⟨_ | _ | _⟩ | ⟨_ | _, _⟩ | _ <;> exact sends.elim
    | true => exact plain.elim
  | _ => exact plain

theorem Stage.Plain.received {stage : Stage} (plain : stage.Plain) (o : Fin numOffices) :
    (stage.received o).Plain := by
  cases stage with
  | answered o u => cases u <;> exact plain
  | _ => exact plain

/-- In this step an office finds a student urgent. -/
def draws (s : State k) (label : Tid k × ℕ) : Bool :=
  match s.thread label.1 with
  | .run (.officeServe _ _) => label.2 % 10 < 4
  | _ => false

theorem plain_update {i : Fin k} {stage : Stage} (plain : ∀ i, (stages i).Plain) (now : stage.Plain)
    (j : Fin k) : (Function.update stages i stage j).Plain := by
  rcases update_cases (f := stages) rfl j with ⟨_, same⟩ | ⟨_, same⟩
  · rw [same]
    exact now
  · rw [same]
    exact plain j

/-- Every effect keeps every `Info` in one place, and makes a student urgent
only when an office draws so. -/
theorem Placed.effect (placed : Placed stages s) (sized : Sized s.mem) (relies : (s.pc t).Relies s.mem)
    (at' : s.thread t = .run (s.pc t)) (effect : Effect t rand s.mem (s.pc t) s'.mem next)
    (moved : s'.pc = Function.update s.pc t next) :
    ∃ stages', Placed stages' s' ∧
      ((∀ i, (stages i).Plain) → draws s (t, rand) = false → ∀ i, (stages' i).Plain) := by
  have uses := placed.uses t
  have carried := placed.carried t
  by_cases still : (s.pc t).Handles
  · cases here : s.pc t <;> rw [here] at still relies at' carried uses
    case studentInit i =>
      exact ⟨stages, placed.begin (by rw [here]; rfl) effect moved, fun plain _ => plain⟩
    case officeInit o =>
      exact ⟨stages, placed.begin (by rw [here]; rfl) effect moved, fun plain _ => plain⟩
    case officeServe o info =>
      generalize memory : s'.mem = m' at effect
      rw [here] at effect
      cases effect
      refine ⟨_, placed.serve (u := decide (rand % 10 < 4)) here memory (moved.trans ?_), ?_⟩
      · by_cases urgent : rand % 10 < 4 <;> simp [urgent]
      · intro plain calm
        have usual : decide (rand % 10 < 4) = false := by simpa only [draws, at'] using calm
        rw [usual]
        exact plain_update plain trivial
    case send site info at'' =>
      cases at'' <;> try exact still.elim
      generalize memory : s'.mem = m' at effect
      rw [here] at effect
      cases effect
      refine ⟨_, placed.fill here (sized.valid _ (uses _ rfl)) relies memory moved, fun plain _ => ?_⟩
      exact plain_update plain ((plain info.id).sent (carried info rfl).2.1)
    case receive receiver at'' =>
      cases at'' <;> try exact still.elim
      generalize memory : s'.mem = m' at effect
      rw [here] at effect
      cases effect
      obtain ⟨i, taken⟩ := placed.take here (sized.valid _ (uses _ rfl)) relies memory moved
      exact ⟨_, taken, fun plain _ => plain_update plain ((plain i).received _)⟩
    all_goals exact still.elim
  · obtain ⟨goes, uses, buf, ready, received⟩ := placed.goes_of_effect effect still
    exact ⟨stages, placed.quiet moved buf ready received goes uses, fun plain _ => plain⟩

theorem Launched.pc (launched : Launched s) (t : Tid k) : s.pc t = t.entry := by
  rw [Threads.pc, launched.thread]
  rfl

theorem Launched.contents (launched : Launched s) {q : Queue k} (ready : s.mem.ready q = true) :
    (s.mem.buf q).contents = [] ∧ (s.mem.buf q).Valid ∧ (s.mem.buf q).dim = q.capacity := by
  rcases (launched.ready q).mp ready with rfl | rfl
  · obtain ⟨memory, new⟩ := launched.normalQ
    rw [new]
    exact ⟨rfl, RingBuffer.valid_create .., rfl⟩
  · obtain ⟨memory, new⟩ := launched.specialQ
    rw [new]
    exact ⟨rfl, RingBuffer.valid_create .., rfl⟩

theorem Launched.placed (launched : Launched s) : Placed (fun _ => .fresh) s := by
  have pc := launched.pc
  constructor
  · intro t
    rw [pc]
    cases t <;> first | rfl | trivial
  · intro t info has
    rw [pc] at has ⊢
    cases t with
    | student i =>
      cases Option.some.inj has
      exact ⟨rfl, trivial, rfl⟩
    | office | specialOffice => cases has
  · intro i t place
    cases Place.thread.inj place
    rw [pc]
    rfl
  · intro q ready m member
    rw [(launched.contents ready).1] at member
    cases member
  · intro i q place
    cases place
  · intro q ready
    rw [(launched.contents ready).1]
    exact List.nodup_nil
  · intro i service waits
    rw [pc] at waits
    cases waits
  · intro i
    exact launched.received _
  · intro q
    rw [launched.ready]
    cases q with
    | normal => exact ⟨fun _ => trivial, fun _ => Or.inl rfl⟩
    | special => exact ⟨fun _ => trivial, fun _ => Or.inr rfl⟩
    | urgent o => simp [Queue.Created, pc, Tid.entry, Pc.Initial]
    | answer i => simp [Queue.Created, pc, Tid.entry, Pc.Initial]
  · intro t q works
    rw [pc] at works
    cases t <;> cases works
  · intro i o been
    cases been

/-- What every reachable state satisfies: each `Info` is in one place, the
queues are valid and what a thread relies on is true. -/
structure Delivers (stages : Fin k → Stage) (s : State k) : Prop where
  placed : Placed stages s
  sized : Sized s.mem
  relies : ∀ t, (s.pc t).Relies s.mem

theorem Delivers.step (delivers : Delivers stages s) (owned : s.Owned fun _ => held)
    (slept : (program k).SleptAt s) (step : (program k).Step t rand s s') :
    ∃ stages', Delivers stages' s' ∧
      ((∀ i, (stages i).Plain) → draws s (t, rand) = false → ∀ i, (stages' i).Plain) := by
  have relies := relies_of_step owned slept step delivers.relies fun q creates u holds =>
    delivers.placed.unready creates (delivers.placed.uses u q (queue_of_held holds))
  rcases step_cases step with ⟨mem, stays⟩ | ⟨mem, next, target, moved⟩ | ⟨next, at', effect, moved⟩
  · have placed := delivers.placed.congr mem stays
    exact ⟨stages, ⟨placed, by rw [mem]; exact delivers.sized, relies⟩, fun plain _ => plain⟩
  · obtain ⟨goes, uses⟩ := delivers.placed.goes_of_target target
    have placed := delivers.placed.quiet moved (by rw [mem]) (by rw [mem]) (by rw [mem]) goes uses
    exact ⟨stages, ⟨placed, by rw [mem]; exact delivers.sized, relies⟩, fun plain _ => plain⟩
  · obtain ⟨stages', placed, plain⟩ :=
      delivers.placed.effect delivers.sized (delivers.relies t) at' effect moved
    exact ⟨stages', ⟨placed, effect.sized delivers.sized (delivers.relies t), relies⟩, plain⟩

theorem Launched.delivers (launched : Launched s) : Delivers (fun _ => .fresh) s where
  placed := launched.placed
  sized := ⟨fun _ ready => (launched.contents ready).2.1, fun _ ready => (launched.contents ready).2.2⟩
  relies t := by
    rw [launched.pc]
    cases t <;> trivial

theorem delivers_of_launched {ok : State k → Tid k × ℕ → Prop} (reach : (launches k).ReachUnder ok s) :
    ∃ stages, Delivers stages s ∧ ((∀ s label, ok s label → draws s label = false) → ∀ i, (stages i).Plain) := by
  induction reach with
  | start launched => exact ⟨_, launched.delivers, fun _ _ => trivial⟩
  | @next s s' label earlier allowed moved ih =>
    obtain ⟨stages, delivers, plain⟩ := ih
    obtain ⟨_, step⟩ := Program.step_of_next moved
    obtain ⟨stages', after, keeps⟩ :=
      delivers.step (owned_of_launched earlier) (sleptAt_of_launched earlier) step
    exact ⟨stages', after, fun calm => keeps (plain calm) (calm s label allowed)⟩

theorem delivers_of_reach {ok : State k → Tid k × ℕ → Prop} (reach : (simulation k).ReachUnder ok s) :
    ∃ stages, Delivers stages s ∧ ((∀ s label, ok s label → draws s label = false) → ∀ i, (stages i).Plain) :=
  delivers_of_launched (launches_of_simulation reach)

end DeviceProgramming.Offices
