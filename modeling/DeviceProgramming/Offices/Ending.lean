import DeviceProgramming.Machine.Inevitable
import DeviceProgramming.Machine.Potential
import DeviceProgramming.Offices.Progress

namespace DeviceProgramming.Offices

variable {k : ℕ} {stages : Fin k → Stage} {s s' : State k} {t : Tid k} {rand : ℕ} {next : Pc k}

/-- How often the `Info` of a student still moves or changes. -/
def Stage.left : Stage → ℕ
  | fresh => 13
  | normalQ => 12
  | taken _ => 11
  | drawn _ _ => 10
  | answered _ _ => 9
  | home _ _ => 8
  | specialQ _ => 7
  | special _ => 6
  | specialAnswered _ => 5
  | back _ => 4
  | urgentQ _ => 3
  | urgent _ => 2
  | urgentAnswered _ => 1
  | served _ => 0

theorem Stage.left_sent {site : Site} {stage : Stage} (sends : site.Sends stage) : stage.sent.left < stage.left := by
  rcases site with ⟨_ | _ | _⟩ | ⟨_ | _, o⟩ | _ <;> cases stage <;> first | exact sends.elim | exact Nat.lt_succ_self _

theorem Stage.left_received (o : Fin numOffices) (stage : Stage) :
    stage.received o = stage ∨ (stage.received o).left < stage.left := by
  cases stage <;> first | exact Or.inl rfl | exact Or.inr (Nat.lt_succ_self _)

def SendAt.weight (crowd : ℕ) : SendAt → ℕ
  | lock => 4
  | test => 3
  | wait => 2
  | fill => 1
  | notify => 15 + 6 * crowd
  | lockCond => 14 + 3 * crowd
  | token => 13 + 3 * crowd
  | broadcast => 12 + 3 * crowd
  | unlockCond => 11
  | unlock => 10

def ReceiveAt.weight (crowd : ℕ) : ReceiveAt (Message k) → ℕ
  | lock => 4
  | test => 3
  | wait => 2
  | take => 1
  | notify _ => 8 + 3 * crowd
  | unlock _ => 7

def FinishAt.weight : FinishAt → ℕ
  | lock => 6
  | decrement => 5
  | unlockLast => 4
  | kill => 3
  | unlock => 2
  | done => 0

/-- At most so many statements come before a thread has to move an `Info` or to wait,
where a wakeup counts for the crowd that it may wake. -/
def Pc.weight (crowd : ℕ) : Pc k → ℕ
  | studentInit _ => 5
  | finish _ at' => at'.weight
  | officeInit _ => 10
  | officeLock _ | specialLock => 9
  | officeTest _ | specialTest => 8
  | officeWait _ | specialWait => 7
  | officeClaim _ | specialClaim => 6
  | officeUnlock _ _ | specialUnlock => 5
  | officeServe _ _ => 1
  | send _ _ at' => at'.weight crowd
  | receive _ at' => at'.weight crowd

theorem Pc.weight_le (crowd : ℕ) (pc : Pc k) : pc.weight crowd ≤ 15 + 6 * crowd := by
  cases pc
  case send site info at' => cases at' <;> simp only [weight, SendAt.weight] <;> omega
  case receive receiver at' => cases at' <;> simp only [weight, ReceiveAt.weight] <;> omega
  case finish info at' => cases at' <;> simp only [weight, FinishAt.weight] <;> omega
  all_goals simp only [weight]; omega

theorem weight_after_send (crowd : ℕ) (site : Site) (info : Info k) : (site.after info).weight crowd < 10 := by
  cases site <;> simp [Site.after, Pc.weight, ReceiveAt.weight]

theorem weight_after_receive (crowd : ℕ) (receiver : Receiver k) (message : Message k) :
    (receiver.after message).weight crowd < 7 := by
  rcases receiver with ⟨_ | _ | _, info⟩ | ⟨_ | _, o⟩ | _
  case await.normal =>
    simp only [Receiver.after]
    split <;> simp [Pc.weight, SendAt.weight, FinishAt.weight]
  all_goals simp [Receiver.after, Pc.weight, SendAt.weight, FinishAt.weight]

theorem pays (k crowd : ℕ) : (program k).Pays (Pc.weight crowd) crowd where
  acquire := by
    intro t pc lock next here
    change instr t pc = _ at here
    cases pc
    case send site info at' =>
      cases at' <;> cases here <;> simp only [Pc.weight, SendAt.weight] <;> omega
    case receive receiver at' =>
      cases at' <;> cases here
      exact Nat.lt_succ_self _
    case finish info at' =>
      cases at' <;> cases here
      exact Nat.lt_succ_self _
    case officeLock | specialLock =>
      cases here
      exact Nat.lt_succ_self _
    all_goals cases here
  release := by
    intro t pc lock next here
    change instr t pc = _ at here
    cases pc
    case send site info at' =>
      cases at' <;> cases here
      case unlockCond => exact Nat.lt_succ_self _
      case unlock => exact weight_after_send crowd site info
    case receive receiver at' =>
      cases at' <;> cases here
      exact weight_after_receive crowd receiver _
    case finish info at' => cases at' <;> cases here <;> simp [Pc.weight, FinishAt.weight]
    case officeUnlock | specialUnlock =>
      cases here
      exact Nat.lt_succ_self _
    all_goals cases here
  sleep := by
    intro t pc chan lock next here
    cases sleeps_of_instr here <;> simp [Pc.weight, SendAt.weight, ReceiveAt.weight]
  wakeup := by
    intro t pc chan next here
    change instr t pc = _ at here
    cases pc
    case send site info at' =>
      cases at' <;> cases here <;> simp only [Pc.weight, SendAt.weight] <;> omega
    case receive receiver at' =>
      cases at' <;> cases here
      simp only [Pc.weight, ReceiveAt.weight]
      omega
    case finish info at' => cases at' <;> cases here
    all_goals cases here

/-- The statements that move an `Info` or change it. -/
def Pc.Moves : Pc k → Prop
  | officeServe _ _ | send _ _ .fill | receive _ .take => True
  | _ => False

/-- The other statements that work on the memory lead to a lighter one, too. -/
theorem weight_effect (crowd : ℕ) {m m' : Memory k} {pc : Pc k} (effect : Effect t rand m pc m' next)
    (still : ¬ pc.Moves) : next.weight crowd < pc.weight crowd := by
  cases effect
  case officeServe | fill | take => exact absurd trivial still
  case token => exact Nat.add_lt_add_right (by decide) _
  all_goals simp [Pc.weight, SendAt.weight, ReceiveAt.weight, FinishAt.weight]

/-- How often any `Info` still moves. -/
def remaining (stages : Fin k → Stage) : ℕ := total (fun _ stage => Stage.left stage) stages

theorem remaining_update {i : Fin k} {stage : Stage} (less : stage.left < (stages i).left) :
    remaining (Function.update stages i stage) < remaining stages := by
  have whole := total_update (fun _ stage => Stage.left stage) stages i stage
  unfold remaining
  omega

/-- An effect moves an `Info` on, or none at all. -/
theorem Placed.remaining_effect (placed : Placed stages s) (sized : Sized s.mem) (relies : (s.pc t).Relies s.mem)
    (effect : Effect t rand s.mem (s.pc t) s'.mem next) (moved : s'.pc = Function.update s.pc t next) :
    ∃ stages', Placed stages' s' ∧
      (stages' = stages ∧ ¬ (s.pc t).Moves ∨ remaining stages' < remaining stages) := by
  have uses := placed.uses t
  have carried := placed.carried t
  by_cases still : (s.pc t).Handles
  · cases here : s.pc t <;> rw [here] at still relies carried uses
    case studentInit i => exact ⟨stages, placed.begin (by rw [here]; rfl) effect moved, Or.inl ⟨rfl, id⟩⟩
    case officeInit o => exact ⟨stages, placed.begin (by rw [here]; rfl) effect moved, Or.inl ⟨rfl, id⟩⟩
    case officeServe o info =>
      generalize memory : s'.mem = m' at effect
      rw [here] at effect
      cases effect
      obtain ⟨_, at', _⟩ := carried info rfl
      refine ⟨_, placed.serve (u := decide (rand % 10 < 4)) here memory (moved.trans ?_),
        Or.inr (remaining_update ?_)⟩
      · by_cases urgent : rand % 10 < 4 <;> simp [urgent]
      · cases stage : stages info.id <;> rw [stage] at at'
        case taken => exact Nat.lt_succ_self _
        all_goals exact at'.elim
    case send site info at' =>
      cases at' <;> try exact still.elim
      generalize memory : s'.mem = m' at effect
      rw [here] at effect
      cases effect
      exact ⟨_, placed.fill here (sized.valid _ (uses _ rfl)) relies memory moved,
        Or.inr (remaining_update (Stage.left_sent (carried info rfl).2.1))⟩
    case receive receiver at' =>
      cases at' <;> try exact still.elim
      generalize memory : s'.mem = m' at effect
      rw [here] at effect
      cases effect
      obtain ⟨i, taken⟩ := placed.take here (sized.valid _ (uses _ rfl)) relies memory moved
      rcases (stages i).left_received receiver.office with same | less
      · -- the message would still be in its queue
        rw [same, Function.update_eq_self] at taken
        have after : s'.pc t = .receive receiver (.notify (s.mem.buf receiver.queue).first) := by
          rw [moved, Function.update_self]
        obtain ⟨_, _, place⟩ := taken.carried t _ (by rw [after]; rfl)
        have before := placed.inHand _ t place
        rw [here] at before
        cases before
      · exact ⟨_, taken, Or.inr (remaining_update less)⟩
    all_goals exact still.elim
  · obtain ⟨goes, uses, buf, ready, received⟩ := placed.goes_of_effect effect still
    refine ⟨stages, placed.quiet moved buf ready received goes uses, Or.inl ⟨rfl, fun moves => still ?_⟩⟩
    cases here : s.pc t <;> rw [here] at moves
    case send site info at' => cases at' <;> exact moves
    case receive receiver at' => cases at' <;> exact moves
    all_goals first | exact moves | exact moves.elim

/-- No step takes an `Info` back. -/
theorem Delivers.remaining_step (delivers : Delivers stages s) (step : (program k).Step t rand s s') :
    ∃ stages', Placed stages' s' ∧ remaining stages' ≤ remaining stages := by
  rcases step_cases step with ⟨mem, stays⟩ | ⟨mem, next, target, moved⟩ | ⟨next, at', effect, moved⟩
  · exact ⟨stages, delivers.placed.congr mem stays, le_rfl⟩
  · obtain ⟨goes, uses⟩ := delivers.placed.goes_of_target target
    exact ⟨stages, delivers.placed.quiet moved (by rw [mem]) (by rw [mem]) (by rw [mem]) goes uses, le_rfl⟩
  · obtain ⟨stages', placed, ⟨rfl, _⟩ | less⟩ :=
      delivers.placed.remaining_effect delivers.sized (delivers.relies t) effect moved
    · exact ⟨stages', placed, le_rfl⟩
    · exact ⟨stages', placed, less.le⟩

/-- What the threads can still do: every move of an `Info` lets its thread go on for a
while, and wake others. -/
def budget (stages : Fin k → Stage) (s : State k) : ℕ :=
  (16 + 6 * Fintype.card (Tid k)) * remaining stages + Program.charges (Pc.weight (Fintype.card (Tid k))) s.thread

/-- Every step spends something of the budget. -/
theorem Delivers.budget_step (delivers : Delivers stages s) (owned : s.Owned fun _ => held)
    (slept : (program k).SleptAt s) (step : (program k).Step t rand s s') :
    ∃ stages', Delivers stages' s' ∧ budget stages' s' < budget stages s := by
  obtain ⟨_, after, _⟩ := delivers.step owned slept step
  unfold budget
  generalize crowd : Fintype.card (Tid k) = n
  have paid : (program k).Pays (Pc.weight n) (Fintype.card (Tid k)) := crowd ▸ pays k n
  rcases paid.step step with less | ⟨pc, effect, next, at', here, run, moved⟩
  · obtain ⟨stages', placed, few⟩ := delivers.remaining_step step
    refine ⟨stages', ⟨placed, after.sized, after.relies⟩, ?_⟩
    have kept := Nat.mul_le_mul_left (16 + 6 * n) few
    omega
  · have place : s.pc t = pc := Threads.pc_of_run at'
    have stays : s'.pc = Function.update s.pc t next := by
      funext u
      rw [Threads.pc, moved]
      by_cases own : u = t
      · subst own
        rw [Function.update_self, Function.update_self]
        rfl
      · rw [Function.update_of_ne own, Function.update_of_ne own]
        rfl
    subst place
    obtain ⟨stages', placed, remains⟩ := delivers.placed.remaining_effect delivers.sized (delivers.relies t)
      (effect_of_exec here run) stays
    refine ⟨stages', ⟨placed, after.sized, after.relies⟩, ?_⟩
    have whole := Program.charges_update (Pc.weight n) s.thread t (.run next)
    rw [← moved, at'] at whole
    simp only [Activity.charge] at whole
    rcases remains with ⟨rfl, still⟩ | less
    · have lighter := weight_effect n (effect_of_exec here run) still
      omega
    · have most := next.weight_le n
      have spent := Nat.mul_le_mul_left (16 + 6 * n) (Nat.succ_le_of_lt less)
      rw [Nat.mul_succ] at spent
      omega

/-- When `num_students.num` is zero, the student that brought it there is about to end the
process, or has ended it. -/
def Closes (s : State k) : Prop := s.mem.num = 0 → s.mem.killed = true ∨ ∃ t, (s.pc t).Closing

/-- Only the call of `kill` ends the closing of the process. -/
theorem closing_effect {m m' : Memory k} {pc : Pc k} (effect : Effect t rand m pc m' next) :
    (m'.num = 0 → m.num = 0 ∧ m'.killed = m.killed ∨ next.Closing ∨ m'.killed = true) ∧
      (pc.Closing → m'.killed = true) := by
  cases effect
  case decrementLast info last => exact ⟨fun _ => Or.inr (Or.inl trivial), False.elim⟩
  case decrement info more => exact ⟨fun zero => absurd zero more, False.elim⟩
  case kill info => exact ⟨fun _ => Or.inr (Or.inr rfl), fun _ => rfl⟩
  case token site info =>
    obtain ⟨_, _, _, num, killed⟩ := m.token_frame (site.queue info) info
    exact ⟨fun zero => Or.inl ⟨num ▸ zero, killed⟩, False.elim⟩
  all_goals exact ⟨fun zero => Or.inl ⟨zero, rfl⟩, False.elim⟩

theorem closing_target {pc : Pc k} (target : (instr t pc).target = some next) (closing : pc.Closing) :
    next.Closing := by
  cases control_of_target target
  case finishUnlockLast => trivial
  all_goals exact closing.elim

theorem Closes.step (closes : Closes s) (step : (program k).Step t rand s s') : Closes s' := by
  rcases step_cases step with ⟨mem, stays⟩ | ⟨mem, next, target, moved⟩ | ⟨next, at', effect, moved⟩
  · unfold Closes
    rw [mem, stays]
    exact closes
  · intro zero
    rw [mem] at zero ⊢
    refine (closes zero).imp_right fun ⟨u, closing⟩ => ⟨u, ?_⟩
    rcases update_cases moved u with ⟨rfl, now⟩ | ⟨_, now⟩
    · rw [now]
      exact closing_target target closing
    · rw [now]
      exact closing
  · intro zero
    obtain ⟨opens, ends⟩ := closing_effect effect
    rcases opens zero with ⟨before, kept⟩ | closing | killed
    · rw [kept]
      rcases closes before with killed | ⟨u, closing⟩
      · exact Or.inl killed
      · rcases update_cases moved u with ⟨rfl, _⟩ | ⟨_, now⟩
        · exact Or.inl (kept ▸ ends closing)
        · exact Or.inr ⟨u, now ▸ closing⟩
    · refine Or.inr ⟨t, ?_⟩
      rwa [moved, Function.update_self]
    · exact Or.inl killed

/-- Before the process ends some thread can move. -/
theorem canMove_of_live (reach : (simulation k).ReachUnder (fun s label => 2 ≤ k ∨ draws s label = false) s)
    (closes : Closes s) (live : s.mem.killed = false) : CanMove s := by
  refine canMove_of_reach reach (not_forall.mp fun done => ?_)
  have counted := counted_of_reach reach
  have none : undecided s = 0 := total_eq_zero.mpr fun i => by
    have own := done i
    cases here : s.pc (.student i) <;> rw [here] at own
    case finish info at' => cases at' <;> first | rfl | exact own.elim
    all_goals exact own.elim
  rcases closes (by rw [counted.num, none]; rfl) with killed | ⟨t, closing⟩
  · rw [live] at killed
    cases killed
  · obtain ⟨stages, delivers, _⟩ := delivers_of_reach reach
    have runs := delivers.placed.runs t
    cases here : s.pc t <;> rw [here] at closing runs
    case finish info at' =>
      obtain ⟨i, rfl⟩ := student_of_finish runs
      have own := done i
      rw [here] at own
      cases at' <;> first | exact own | exact closing
    all_goals exact closing

/-- An office that can move can also find its student not urgent. -/
theorem exists_calm (live : s.mem.killed = false) (moves : CanMove s) :
    ∃ label s', draws s label = false ∧ (simulation k).next s label = some s' := by
  obtain ⟨label, s', moved⟩ := moves
  cases urgent : draws s label with
  | false => exact ⟨label, s', urgent, moved⟩
  | true =>
    obtain ⟨t, rand⟩ := label
    unfold draws at urgent
    split at urgent
    · rename_i o info here
      have step : (program k).Step t 9 s _ := .exec here rfl rfl
      refine ⟨(t, 9), _, ?_, Program.step_iff.mpr ⟨live, step⟩⟩
      unfold draws
      dsimp only
      rw [here]
      rfl
    · cases urgent

/-- Every run of the simulation comes to the end of the process with all students served,
whatever the schedule and the draws are, as long as there are at least two students or the only
one is not found urgent: no thread waits for ever, and none goes round for ever. -/
theorem simulation_ends (opening : Opening s) (anyone : 0 < k) :
    ((simulation k).under fun s label => 2 ≤ k ∨ draws s label = false).Inevitable (fun _ _ => True)
      (fun s => s.mem.killed = true ∧ ∀ i, (s.pc (.student i)).Done) s := by
  refine System.Inevitable.under_of_history
    (fun s stages => (simulation k).ReachUnder (fun s label => 2 ≤ k ∨ draws s label = false) s ∧
      Delivers stages s ∧ Closes s)
    (fun s stages => budget stages s) ?_ ?_ ⟨.start opening, opening.launched.delivers, fun zero => ?_⟩
  · rintro s stages ⟨reach, _, closes⟩ going
    have live : s.mem.killed = false := by
      cases killed : s.mem.killed with
      | false => rfl
      | true => exact absurd ⟨killed, ((counted_of_reach reach).killed killed).2⟩ going
    obtain ⟨label, s', calm, moved⟩ := exists_calm live (canMove_of_live reach closes live)
    exact ⟨label, s', Or.inr calm, moved⟩
  · rintro s stages label s' ⟨reach, delivers, closes⟩ _ allowed moved
    obtain ⟨_, step⟩ := Program.step_of_next moved
    obtain ⟨stages', after, less⟩ := delivers.budget_step (owned_of_reach reach) (sleptAt_of_reach reach) step
    exact ⟨stages', ⟨reach.next allowed moved, after, closes.step step⟩, less⟩
  · rw [opening.num] at zero
    omega

theorem simulation_ends_two : ((simulation 2).under fun s label => 2 ≤ 2 ∨ draws s label = false).Inevitable
    (fun _ _ => True) (fun s => s.mem.killed = true ∧ ∀ i, (s.pc (.student i)).Done)
    (boot 2 fun _ => ⟨⟨0, 0, 0⟩, .specialReply⟩) :=
  simulation_ends (opening_boot ..) (by decide)

end DeviceProgramming.Offices
