import DeviceProgramming.Offices.Counting

namespace DeviceProgramming.Offices

variable {k : ℕ} {stages : Fin k → Stage} {s : State k} {t : Tid k}

/-- Where the `Info` of student `i` is. -/
def Located (s : State k) (i : Fin k) : Place k → Prop
  | .thread t => ∃ info, (s.pc t).hand = some info ∧ info.id = i
  | .queue q => s.mem.ready q = true ∧ ∃ m ∈ (s.mem.buf q).contents, m.info.id = i

/-- The places where the `Info` of student `i` may be. -/
def Place.For (i : Fin k) : Place k → Prop
  | thread (.student j) | queue (.answer j) => j = i
  | thread (.office _) | thread .specialOffice | queue .normal | queue .special => True
  | queue (.urgent o) => o < numOffices

/-- The threads that reach a call of `send`. -/
def Site.By : Site → Tid k → Prop
  | ask _, .student _ => True
  | officeReply _ o, .office o' => o' = o
  | specialReply, .specialOffice => True
  | _, _ => False

/-- The answers to a student that office `o` does not find urgent. -/
def usualAnswers (i : Fin k) (o : Fin numOffices) : List (Message k) :=
  [⟨⟨i, o, 0⟩, .officeReply false o⟩]

/-- The answers to a student that office `o` finds urgent. -/
def urgentAnswers (i : Fin k) (o : Fin numOffices) : List (Message k) :=
  [⟨⟨i, o, 1⟩, .officeReply false o⟩, ⟨⟨i, o, 1⟩, .specialReply⟩, ⟨⟨i, o, 0⟩, .officeReply true o⟩]

/-- Every student is served once per stage, by the right party, and `SIGTERM`
comes after all of them are done. -/
structure ServedOnce (s : State k) : Prop where
  located : ∀ i, ∃! place, Located s i place
  place : ∀ i place, Located s i place → place.For i
  once : ∀ q, s.mem.ready q = true → ((s.mem.buf q).contents.map fun m => m.info.id).Nodup
  sender : ∀ t site info at', s.pc t = .send site info at' → site.By t
  own : ∀ i, ∀ m ∈ s.mem.received (.student i), m.info.id = i
  answers : ∀ i, ∃ o, s.mem.received (.student i) <+: usualAnswers i o ∨
    s.mem.received (.student i) <+: urgentAnswers i o
  finished : ∀ i, (s.pc (.student i)).decremented = true →
    ∃ o, s.mem.received (.student i) = usualAnswers i o ∨ s.mem.received (.student i) = urgentAnswers i o
  num : s.mem.num = (Finset.univ.filter fun i => (s.pc (.student i)).decremented = false).card
  last : ∀ t, (s.pc t).Closing → ∀ i, t ≠ .student i → (s.pc (.student i)).Done
  killed : s.mem.killed = true → ∀ i, (s.pc (.student i)).Done

theorem Placed.located_iff (placed : Placed stages s) {i : Fin k} {place : Place k} :
    Located s i place ↔ (stages i).place i = place := by
  cases place with
  | thread t =>
    constructor
    · rintro ⟨info, has, rfl⟩
      exact (placed.carried t info has).2.2
    · intro at'
      exact ⟨_, placed.inHand i t at', Stage.info_id ..⟩
  | queue q =>
    constructor
    · rintro ⟨ready, m, member, rfl⟩
      exact (placed.listed q ready m member).1
    · exact placed.queued i q

theorem Stage.place_for (i : Fin k) (stage : Stage) : (stage.place i).For i := by
  cases stage with
  | urgentQ o => exact o.isLt
  | _ => first | rfl | trivial

theorem Stage.history_prefix (i : Fin k) (stage : Stage) :
    ∃ o, stage.history i <+: usualAnswers i o ∨ stage.history i <+: urgentAnswers i o := by
  cases stage with
  | fresh | normalQ | taken | drawn | answered => exact ⟨0, Or.inl (List.nil_prefix ..)⟩
  | home o u =>
    cases u with
    | false => exact ⟨o, Or.inl (List.prefix_refl _)⟩
    | true => exact ⟨o, Or.inr ⟨_, rfl⟩⟩
  | specialQ o | special o | specialAnswered o => exact ⟨o, Or.inr ⟨_, rfl⟩⟩
  | back o | urgentQ o | urgent o | urgentAnswered o => exact ⟨o, Or.inr ⟨_, rfl⟩⟩
  | served o => exact ⟨o, Or.inr (List.prefix_refl _)⟩

theorem Stage.history_last {i : Fin k} {stage : Stage} (last : stage.Last) :
    ∃ o, stage.history i = usualAnswers i o ∨ stage.history i = urgentAnswers i o := by
  cases stage with
  | home o u =>
    cases u with
    | false => exact ⟨o, Or.inl rfl⟩
    | true => exact last.elim
  | served o => exact ⟨o, Or.inr rfl⟩
  | _ => exact last.elim

theorem Stage.place_last {i : Fin k} {stage : Stage} (last : stage.Last) :
    stage.place i = .thread (.student i) := by
  cases stage with
  | home | served => rfl
  | _ => exact last.elim

theorem Stage.history_own {i : Fin k} {stage : Stage} {m : Message k} (member : m ∈ stage.history i) :
    m.info.id = i := by
  obtain ⟨o, sub | sub⟩ := stage.history_prefix i
  · have listed := sub.subset member
    simp only [usualAnswers, List.mem_singleton] at listed
    rw [listed]
  · have listed := sub.subset member
    simp only [urgentAnswers, List.mem_cons, List.not_mem_nil, or_false] at listed
    rcases listed with rfl | rfl | rfl <;> rfl

theorem Placed.last_of_decremented (placed : Placed stages s) {i : Fin k}
    (decremented : (s.pc (.student i)).decremented = true) : (stages i).Last := by
  cases here : s.pc (.student i) <;> rw [here] at decremented
  case finish info at' =>
    obtain ⟨_, last, place⟩ := placed.carried (.student i) info (by rw [here]; rfl)
    rw [here] at last
    have home := Stage.place_last (i := info.id) last
    cases Place.thread.inj (home.symm.trans place)
    exact last
  all_goals cases decremented

/-- In every run of the simulation, whatever the offices draw, each `Info` is in
one place and each student gets its own answers in order. -/
theorem served_once (reach : (simulation k).Reach s) : ServedOnce s := by
  obtain ⟨stages, delivers, _⟩ := delivers_of_reach reach
  have placed := delivers.placed
  have counted := counted_of_reach reach
  constructor
  · intro i
    refine ⟨_, placed.located_iff.mpr rfl, fun place at' => ?_⟩
    exact (placed.located_iff.mp at').symm
  · intro i place at'
    rw [← placed.located_iff.mp at']
    exact Stage.place_for ..
  · exact placed.nodup
  · intro t site info at' here
    have runs := placed.runs t
    rw [here] at runs
    cases t <;> cases site <;> first | exact Eq.symm runs | trivial
  · intro i m member
    rw [placed.received] at member
    exact Stage.history_own member
  · intro i
    rw [placed.received]
    exact Stage.history_prefix ..
  · intro i decremented
    rw [placed.received]
    exact Stage.history_last (placed.last_of_decremented decremented)
  · rw [counted.num, undecided_eq_card]
  · intro t closing
    exact (counted.closing t closing).2
  · intro raised
    exact (counted.killed raised).2

/-- Office `o` finds student `i` urgent, who goes to the special office and back, and student `j`
not urgent, who ends the process. -/
def bothStudents (i j : Fin k) (o : Fin numOffices) : List (Tid k × ℕ) :=
  schedule [(.student i, 0, 13), (.office o, 1, 20), (.student i, 0, 17), (.specialOffice, 0, 21),
    (.student i, 0, 17), (.office o, 0, 21), (.student i, 0, 8), (.student j, 0, 13), (.office o, 9, 22),
    (.student j, 0, 9)]

set_option maxRecDepth 20000 in
theorem served_once_bothStudents : ∃ s : State 2, s.mem.killed = true ∧
    (s.mem.received (.student 0)).length = 3 ∧ (s.mem.received (.student 1)).length = 1 ∧ ServedOnce s := by
  have computed : ((simulation 2).run (bothStudents 0 1 2) (boot 2 fun _ => ⟨⟨0, 0, 0⟩, .specialReply⟩)).map
      (fun s => (s.mem.killed, (s.mem.received (.student 0)).length, (s.mem.received (.student 1)).length)) =
      some (true, 3, 1) := by decide
  obtain ⟨s, reached, state⟩ := Option.map_eq_some_iff.mp computed
  simp only [Prod.mk.injEq] at state
  obtain ⟨killed, first, second⟩ := state
  exact ⟨s, killed, first, second, served_once (.of_run (.start (opening_boot ..)) reached)⟩

end DeviceProgramming.Offices
