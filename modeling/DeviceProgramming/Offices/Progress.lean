import DeviceProgramming.Offices.Balance
import DeviceProgramming.Offices.Waiting

namespace DeviceProgramming.Offices

variable {k : ℕ} {s s' : State k} {t : Tid k} {rand : ℕ} {next : Pc k}

section
variable {stages : Fin k → Stage}

/-- A student has at most one answer in its queue. -/
theorem Placed.answer_count (placed : Placed stages s) {i : Fin k} (ready : s.mem.ready (.answer i) = true) :
    (s.mem.buf (.answer i)).count ≤ 1 := by
  have nodup := placed.nodup _ ready
  have own : ∀ j ∈ (s.mem.buf (.answer i)).contents.map fun m => m.info.id, j = i := by
    intro j inside
    obtain ⟨m, member, rfl⟩ := List.mem_map.mp inside
    exact Stage.answer_of_place (placed.listed _ ready m member).1
  rw [List.eq_replicate_of_mem own, List.nodup_replicate, List.length_map, RingBuffer.length_contents] at nodup
  exact nodup

/-- There is always space for an answer. -/
theorem Delivers.reply_space (delivers : Delivers stages s) {site : Site} {info : Info k}
    (here : s.pc t = .send site info .test) (reply : site.service = none) :
    ¬ (Pc.send site info .test).Waits s.mem := by
  intro full
  have ready := delivers.placed.uses t (site.queue info) (by rw [here]; rfl)
  have queue : site.queue info = .answer info.id := by
    cases site with
    | ask => cases reply
    | officeReply | specialReply => rfl
  simp only [Pc.Waits, queue] at full
  rw [queue] at ready
  have one := delivers.placed.answer_count ready
  have two : (s.mem.buf (.answer info.id)).dim = 2 := delivers.sized.dim _ ready
  omega

/-- An office finds the request that it has claimed. -/
theorem Delivers.request_there (delivers : Delivers stages s) (balanced : Balanced s) {receiver : Receiver k}
    (here : s.pc t = .receive receiver .test) (office : receiver.service = none) :
    ¬ (Pc.receive receiver .test).Waits s.mem := by
  intro empty
  have ready := delivers.placed.uses t receiver.queue (by rw [here]; rfl)
  have before : (ReceiveAt.test : ReceiveAt (Message k)).read = false := rfl
  obtain ⟨claims, served⟩ := claimed_of_receive office before
  have some := balanced.items_of_claimed (t := t) served (by rw [here]; exact claims)
  rw [items_of_ready ready] at some
  exact some empty

/-- An office that is idle waits for work. -/
theorem Idle.server (idle : Idle s) (delivers : Delivers stages s) (balanced : Balanced s)
    (server : ∀ i, t ≠ .student i) :
    ((∃ o, s.pc t = .officeTest o) ∨ s.pc t = .specialTest) ∧ (s.pc t).Waits s.mem := by
  have runs := delivers.placed.runs t
  rcases idle t with ⟨chan, lock, sleeps, waits⟩ | done
  · refine ⟨?_, waits⟩
    rcases sleepsOn_cases sleeps with ⟨site, info, here, _⟩ | ⟨receiver, here, _⟩ | ⟨o, here, _⟩ | ⟨here, _⟩
    · rw [here] at waits runs
      refine absurd waits (delivers.reply_space here ?_)
      cases site with
      | ask service =>
        cases t with
        | student i => exact absurd rfl (server i)
        | office | specialOffice => exact runs.elim
      | officeReply | specialReply => rfl
    · rw [here] at waits runs
      refine absurd waits (delivers.request_there balanced here ?_)
      cases receiver with
      | await service info =>
        cases t with
        | student i => exact absurd rfl (server i)
        | office | specialOffice => exact runs.elim
      | officeTake | specialTake => rfl
    · exact Or.inl ⟨o, here⟩
    · exact Or.inr here
  · cases here : s.pc t <;> rw [here] at done runs
    case finish info at' =>
      obtain ⟨i, student⟩ := student_of_finish runs
      exact absurd student (server i)
    all_goals exact done.elim

theorem Idle.office (idle : Idle s) (delivers : Delivers stages s) (balanced : Balanced s) (o : Fin numOffices) :
    s.pc (.office o) = .officeTest o ∧ s.mem.urgent o = 0 ∧ s.mem.normal = 0 := by
  have runs := delivers.placed.runs (.office o)
  obtain ⟨⟨o', here⟩ | here, waits⟩ := idle.server (t := .office o) delivers balanced nofun
  · rw [here] at runs waits
    have own : o' = o := runs
    subst own
    exact ⟨here, waits⟩
  · rw [here] at runs
    exact runs.elim

theorem Idle.specialOffice (idle : Idle s) (delivers : Delivers stages s) (balanced : Balanced s) :
    s.pc .specialOffice = .specialTest ∧ s.mem.urgent numOffices = 0 := by
  have runs := delivers.placed.runs .specialOffice
  obtain ⟨⟨o', here⟩ | here, waits⟩ := idle.server (t := .specialOffice) delivers balanced nofun
  · rw [here] at runs
    exact runs.elim
  · rw [here] at waits
    exact ⟨here, waits⟩

theorem Idle.tokens (idle : Idle s) (delivers : Delivers stages s) (balanced : Balanced s) {q : Queue k}
    (served : q.Served) : s.mem.tokens q = 0 := by
  cases q with
  | normal => exact (idle.office delivers balanced 0).2.2
  | special => exact (idle.specialOffice delivers balanced).2
  | urgent o => exact (idle.office delivers balanced ⟨o, served⟩).2.1
  | answer => exact served.elim

/-- When all threads are idle no request is left. -/
theorem Idle.items (idle : Idle s) (delivers : Delivers stages s) (balanced : Balanced s) {q : Queue k}
    (served : q.Served) : s.mem.items q = 0 := by
  have books := balanced.items q served
  have tokens := idle.tokens delivers balanced served
  have claimed : number Pc.claimed s q = 0 := by
    rw [number_eq_total, total_eq_zero]
    intro t
    refine weight_none ?_ q
    cases t with
    | office o => rw [(idle.office delivers balanced o).1]; rfl
    | specialOffice => rw [(idle.specialOffice delivers balanced).1]; rfl
    | student i =>
      have runs := delivers.placed.runs (.student i)
      cases here : s.pc (.student i) <;> rw [here] at runs
      case receive receiver at' =>
        cases receiver with
        | await => rfl
        | officeTake | specialTake => exact runs.elim
      case officeUnlock | specialUnlock => exact runs.elim
      all_goals rfl
  have pending : number Pc.pending s q = 0 := by
    rw [number_eq_total, total_eq_zero]
    intro t
    refine weight_none ?_ q
    rcases idle t with ⟨chan, lock, sleeps, _⟩ | done
    · cases here : s.pc t <;> rw [here] at sleeps
      case send site info at' => cases at' <;> first | rfl | cases sleeps
      all_goals rfl
    · cases here : s.pc t <;> rw [here] at done <;> first | rfl | exact done.elim
  omega

/-- Where the `Info` of a waiting student is. -/
theorem Stage.place_of_awaiting {i : Fin k} {stage : Stage} {service : Service}
    (waits : stage.awaiting = some service) :
    (∃ o, stage.place i = .thread (.office o)) ∨ stage.place i = .thread .specialOffice ∨
    stage.place i = .queue (.answer i) ∨ ∃ q : Queue k, q.Served ∧ stage.place i = .queue q := by
  cases stage
  case taken o | drawn o u | urgent o => exact Or.inl ⟨o, rfl⟩
  case special o => exact Or.inr (Or.inl rfl)
  case answered o u | specialAnswered o | urgentAnswered o => exact Or.inr (Or.inr (Or.inl rfl))
  case normalQ => exact Or.inr (Or.inr (Or.inr ⟨.normal, trivial, rfl⟩))
  case specialQ o => exact Or.inr (Or.inr (Or.inr ⟨.special, trivial, rfl⟩))
  case urgentQ o => exact Or.inr (Or.inr (Or.inr ⟨.urgent o, o.isLt, rfl⟩))
  all_goals cases waits

theorem count_of_queued (placed : Placed stages s) {i : Fin k} {q : Queue k}
    (place : (stages i).place i = .queue q) : (s.mem.buf q).count ≠ 0 := by
  obtain ⟨_, m, member, _⟩ := placed.queued i q place
  rw [← RingBuffer.length_contents]
  exact (List.length_pos_of_mem member).ne'

/-- A student that waits for an answer gets it. -/
theorem Idle.answered (idle : Idle s) (delivers : Delivers stages s) (balanced : Balanced s) {i : Fin k}
    {service : Service} {info : Info k} (here : s.pc (.student i) = .receive (.await service info) .test) :
    ¬ (Pc.receive (.await service info) .test).Waits s.mem := by
  intro empty
  have placed := delivers.placed
  have runs := placed.runs (.student i)
  rw [here] at runs
  have own : info.id = i := runs
  have waits := placed.awaits i service (by rw [here]; rfl)
  rcases Stage.place_of_awaiting (i := i) waits with ⟨o, place⟩ | place | place | ⟨q, served, place⟩
  · have hand := placed.inHand i _ place
    rw [(idle.office delivers balanced o).1] at hand
    cases hand
  · have hand := placed.inHand i _ place
    rw [(idle.specialOffice delivers balanced).1] at hand
    cases hand
  · have there := count_of_queued placed place
    rw [← own] at there
    exact there empty
  · have none := idle.items delivers balanced served
    rw [items_of_ready (placed.queued i q place).1] at none
    exact count_of_queued placed place none

/-- With more than one student, or when nobody is urgent, idle students are done. -/
theorem Idle.done (idle : Idle s) (delivers : Delivers stages s) (balanced : Balanced s)
    (enough : 2 ≤ k ∨ ∀ i, (stages i).Plain) (i : Fin k) : (s.pc (.student i)).Done := by
  have placed := delivers.placed
  have runs := placed.runs (.student i)
  have positive : 0 < k := Fin.pos i
  have full {site : Site} {info : Info k} (here : s.pc (.student i) = .send site info .test)
      (waits : (Pc.send site info .test).Waits s.mem) (served : (site.queue info).Served) :
      (site.queue info).capacity = 0 := by
    have ready := placed.uses _ (site.queue info) (by rw [here]; rfl)
    have none := idle.items delivers balanced served
    have dim := delivers.sized.dim _ ready
    rw [items_of_ready ready] at none
    simp only [Pc.Waits] at waits
    omega
  rcases idle (.student i) with ⟨chan, lock, sleeps, waits⟩ | done
  · rcases sleepsOn_cases sleeps with ⟨site, info, here, _⟩ | ⟨receiver, here, _⟩ | ⟨o', here, _⟩ | ⟨here, _⟩
    · rw [here] at waits runs
      cases site with
      | officeReply | specialReply => exact runs.elim
      | ask service =>
        cases service with
        | normal | special =>
          have none : k = 0 := full here waits trivial
          omega
        | urgent =>
          have none : k / 2 = 0 := full here waits runs.2.2
          rcases enough with two | plain
          · omega
          · obtain ⟨_, sends, _⟩ := placed.carried _ info (by rw [here]; rfl)
            have usual := plain info.id
            rw [here] at sends
            cases stage : stages info.id <;> rw [stage] at sends usual
            case back o => exact usual.elim
            all_goals exact sends.elim
    · rw [here] at waits runs
      cases receiver with
      | await service info => exact absurd waits (idle.answered delivers balanced here)
      | officeTake | specialTake => exact runs.elim
    · rw [here] at runs
      exact runs.elim
    · rw [here] at runs
      exact runs.elim
  · exact done

end

/-- Some thread can move. -/
def CanMove (s : State k) : Prop := ∃ label s', (simulation k).next s label = some s'

/-- Some student has not terminated. -/
def Unfinished (s : State k) : Prop := ∃ i, ¬ (s.pc (.student i)).Done

/-- A run in which no office draws an urgent student, or with at least two
students, does not deadlock. -/
theorem canMove_of_reach
    (reach : (simulation k).ReachUnder (fun s label => 2 ≤ k ∨ draws s label = false) s)
    (unfinished : Unfinished s) : CanMove s := by
  obtain ⟨i, working⟩ := unfinished
  by_contra never
  have live : s.mem.killed = false := by
    cases killed : s.mem.killed with
    | false => rfl
    | true => exact absurd ((counted_of_reach reach).killed killed |>.2 i) working
  have stuck (label : Tid k × ℕ) : (simulation k).next s label = none := by
    cases move : (simulation k).next s label with
    | none => rfl
    | some s' => exact absurd ⟨label, s', move⟩ never
  have idle := idle_of_stuck reach live stuck
  obtain ⟨stages, delivers, plain⟩ := delivers_of_reach reach
  have enough : 2 ≤ k ∨ ∀ i, (stages i).Plain := by
    rcases Nat.lt_or_ge k 2 with one | two
    · refine Or.inr (plain fun s label allowed => ?_)
      rcases allowed with two | calm
      · omega
      · exact calm
    · exact Or.inl two
  exact working (idle.done delivers (balanced_of_reach reach) enough i)

theorem not_canMove_of_asleep (asleep : ∀ t, (s.thread t).isAsleep = true) : ¬ CanMove s := by
  rintro ⟨label, s', moved⟩
  obtain ⟨_, step⟩ := Program.step_of_next moved
  have still := asleep label.1
  cases step with
  | relock at' | acquire at' | release at' | sleep at' | wakeup at' | exec at' =>
    rw [at'] at still
    cases still

set_option maxRecDepth 10000 in
/-- The only student is urgent and sleeps for ever before the queue of office 2,
which has no cell. -/
theorem deadlock_of_urgent : ∃ s : State 1, (simulation 1).Reach s ∧ Unfinished s ∧ ¬ CanMove s := by
  have computed : ((simulation 1).run
      (schedule [(.student 0, 0, 13), (.office 2, 0, 23), (.student 0, 0, 17), (.specialOffice, 0, 21),
        (.office 0, 0, 4), (.office 1, 0, 4), (.office 3, 0, 4), (.office 2, 0, 3), (.student 0, 0, 8)])
      (boot 1 fun _ => ⟨⟨0, 0, 0⟩, .specialReply⟩)).map
        (fun s => decide ((s.pc (.student 0)).decremented = false ∧ ∀ t, (s.thread t).isAsleep = true)) =
      some true := by decide
  obtain ⟨s, reached, checked⟩ := Option.map_eq_some_iff.mp computed
  obtain ⟨working, asleep⟩ := of_decide_eq_true checked
  refine ⟨s, .of_run (.start (opening_boot ..)) reached, ⟨0, fun done => ?_⟩, not_canMove_of_asleep asleep⟩
  cases here : s.pc (.student 0) <;> rw [here] at done working
  case finish info at' => cases at' <;> first | exact done.elim | cases working
  all_goals exact done.elim

/-- A run in which no office finds its student urgent, or with at least two
students, never deadlocks; with a single student some run does. -/
theorem never_deadlocks (k : ℕ) :
    (∀ s, (simulation k).ReachUnder (fun s label => 2 ≤ k ∨ draws s label = false) s →
      Unfinished s → CanMove s) ∧
    (1 ≤ k → ((∀ s, (simulation k).Reach s → Unfinished s → CanMove s) ↔ 2 ≤ k)) := by
  refine ⟨fun s reach unfinished => canMove_of_reach reach unfinished, fun one => ⟨fun always => ?_, ?_⟩⟩
  · by_contra few
    obtain rfl : k = 1 := by omega
    obtain ⟨s, reach, unfinished, never⟩ := deadlock_of_urgent
    exact never (always s reach unfinished)
  · intro two s reach unfinished
    exact canMove_of_reach (reach.mono fun _ _ _ => Or.inl two) unfinished

set_option maxRecDepth 10000 in
/-- The only student waits for office 2, which does not find it urgent. -/
theorem never_deadlocks_usualStudent : ∃ s : State 1, Unfinished s ∧ CanMove s := by
  have computed : ((simulation 1).runUnder (fun s label => 2 ≤ 1 ∨ draws s label = false)
      (schedule [(.student 0, 0, 13), (.office 2, 9, 20)])
      (boot 1 fun _ => ⟨⟨0, 0, 0⟩, .specialReply⟩)).map
        (fun s => decide (s.pc (.student 0) = .receive (.await .normal ⟨0, numOffices, 0⟩) .test)) =
      some true := by decide
  obtain ⟨s, reached, checked⟩ := Option.map_eq_some_iff.mp computed
  have here := of_decide_eq_true checked
  have unfinished : Unfinished s := ⟨0, by rw [here]; exact id⟩
  exact ⟨s, unfinished, (never_deadlocks 1).1 s (.of_run (.start (opening_boot ..)) reached) unfinished⟩

theorem urgent_student_deadlocks :
    ¬ ∀ k, 1 ≤ k → ∀ s : State k, (simulation k).Reach s → Unfinished s → CanMove s := by
  intro claim
  obtain ⟨s, reach, unfinished, never⟩ := deadlock_of_urgent
  exact never (claim 1 le_rfl s reach unfinished)

end DeviceProgramming.Offices
