import DeviceProgramming.Offices.Placed

namespace DeviceProgramming.Offices

variable {k : ℕ} {stages : Fin k → Stage} {s s' : State k} {t : Tid k} {next : Pc k}

/-- What `t` does when it moves the `Info` of student `i` to `stage`. -/
structure Hands (stages : Fin k → Stage) (s s' : State k) (t : Tid k) (next : Pc k) (i : Fin k)
    (stage : Stage) : Prop where
  moved : s'.pc = Function.update s.pc t next
  ready : s'.mem.ready = s.mem.ready
  runs : t.Runs next
  before : ¬ (s.pc t).Initial
  after : ¬ next.Initial
  uses : ∀ q, next.queue = some q → s.mem.ready q = true
  alone : ∀ u, (stages i).place i = .thread u → u = t
  others : ∀ j, j ≠ i → (stages j).place j ≠ .thread t
  carried : ∀ info, next.hand = some info →
    info = stage.info i ∧ next.At stage ∧ stage.place i = .thread t
  inHand : ∀ u, stage.place i = .thread u → u = t ∧ next.hand = some (stage.info i)
  rest : ∀ q, s.mem.ready q = true → ∀ m : Message k, m.info.id ≠ i →
    (m ∈ (s'.mem.buf q).contents ↔ m ∈ (s.mem.buf q).contents)
  own : ∀ q, s.mem.ready q = true → ∀ m ∈ (s'.mem.buf q).contents, m.info.id = i →
    stage.place i = .queue q ∧ m = stage.message i
  queued : ∀ q, stage.place i = .queue q → s.mem.ready q = true ∧
    stage.message i ∈ (s'.mem.buf q).contents
  nodup : ∀ q, s.mem.ready q = true → ((s'.mem.buf q).contents.map fun m => m.info.id).Nodup
  awaits : ∀ j service, t = .student j → next.awaits = some service →
    j = i ∧ stage.awaiting = some service
  keeps : t ≠ .student i → ∀ service, (stages i).awaiting = some service → stage.awaiting = some service
  received : ∀ j, s'.mem.received (.student j) =
    if j = i then stage.history i else s.mem.received (.student j)
  known : ∀ o, stage.office = some o → s.mem.ready (.urgent o) = true

/-- A thread that hands on one `Info` leaves all the others where they are. -/
theorem Placed.hands {i : Fin k} {stage : Stage} (placed : Placed stages s)
    (hands : Hands stages s s' t next i stage) : Placed (Function.update stages i stage) s' := by
  have view := update_cases hands.moved
  constructor
  case runs =>
    exact placed.runs_moved hands.moved hands.runs
  case carried =>
    intro u info has
    rcases view u with ⟨rfl, now⟩ | ⟨other, now⟩
    · rw [now] at has ⊢
      obtain ⟨same, at', place⟩ := hands.carried info has
      have here : info.id = i := by rw [same, Stage.info_id]
      rw [here, Function.update_self]
      exact ⟨same, at', place⟩
    · rw [now] at has ⊢
      obtain ⟨same, at', place⟩ := placed.carried u info has
      have differ : info.id ≠ i := by
        intro here
        rw [here] at place
        exact other (hands.alone u place)
      rw [Function.update_of_ne differ]
      exact ⟨same, at', place⟩
  case inHand =>
    intro j u place
    by_cases here : j = i
    · subst here
      rw [Function.update_self] at place ⊢
      obtain ⟨rfl, has⟩ := hands.inHand u place
      rw [hands.moved, Function.update_self]
      exact has
    · rw [Function.update_of_ne here] at place ⊢
      rcases view u with ⟨rfl, now⟩ | ⟨_, now⟩
      · exact absurd place (hands.others j here)
      · rw [now]
        exact placed.inHand j u place
  case listed =>
    intro q isReady m member
    rw [hands.ready] at isReady
    by_cases here : m.info.id = i
    · rw [here, Function.update_self]
      exact hands.own q isReady m member here
    · rw [Function.update_of_ne here]
      exact placed.listed q isReady m ((hands.rest q isReady m here).mp member)
  case queued =>
    intro j q place
    rw [hands.ready]
    by_cases here : j = i
    · subst here
      rw [Function.update_self] at place
      obtain ⟨isReady, member⟩ := hands.queued q place
      exact ⟨isReady, _, member, Stage.info_id ..⟩
    · rw [Function.update_of_ne here] at place
      obtain ⟨isReady, m, member, own⟩ := placed.queued j q place
      exact ⟨isReady, m, (hands.rest q isReady m (by rw [own]; exact here)).mpr member, own⟩
  case nodup =>
    intro q isReady
    rw [hands.ready] at isReady
    exact hands.nodup q isReady
  case awaits =>
    intro j service waits
    rcases view (.student j) with ⟨rfl, now⟩ | ⟨other, now⟩
    · rw [now] at waits
      obtain ⟨rfl, waiting⟩ := hands.awaits j service rfl waits
      rw [Function.update_self]
      exact waiting
    · rw [now] at waits
      have waiting := placed.awaits j service waits
      by_cases here : j = i
      · subst here
        rw [Function.update_self]
        exact hands.keeps (Ne.symm other) service waiting
      · rw [Function.update_of_ne here]
        exact waiting
  case received =>
    intro j
    rw [hands.received]
    by_cases here : j = i
    · subst here
      rw [if_pos rfl, Function.update_self]
    · rw [if_neg here, Function.update_of_ne here]
      exact placed.received j
  case ready =>
    intro q
    rw [hands.ready, Placed.created_moved hands.moved hands.before hands.after]
    exact placed.ready q
  case uses =>
    exact placed.uses_moved hands.moved (fun q old => by rw [hands.ready]; exact old) hands.uses
  case known =>
    intro j o been
    rw [hands.ready]
    by_cases here : j = i
    · subst here
      rw [Function.update_self] at been
      exact hands.known o been
    · rw [Function.update_of_ne here] at been
      exact placed.known j o been

/-- The stage of an `Info` that has been put into the queue of a call of `send`. -/
theorem sent_facts {i : Fin k} {stage : Stage} {site : Site} (sends : site.Sends stage) :
    stage.sent.place i = .queue (site.queue (stage.info i)) ∧
    stage.sent.message i = ⟨stage.info i, site⟩ ∧ stage.sent.history i = stage.history i ∧
    stage.sent.office = stage.office ∧
    (∀ service, stage.awaiting = some service → stage.sent.awaiting = some service) ∧
    ∀ service, site.service = some service → stage.sent.awaiting = some service := by
  rcases site with ⟨_ | _ | _⟩ | ⟨_ | _, o⟩ | _ <;> cases stage
  case ask.normal.fresh => exact ⟨rfl, rfl, rfl, rfl, nofun, fun _ asked => asked⟩
  case ask.special.home o u =>
    cases u with
    | false => exact sends.elim
    | true => exact ⟨rfl, rfl, rfl, rfl, nofun, fun _ asked => asked⟩
  case ask.urgent.back o => exact ⟨rfl, rfl, rfl, rfl, nofun, fun _ asked => asked⟩
  case officeReply.false.drawn o' u =>
    cases (show o' = o from sends)
    exact ⟨rfl, rfl, rfl, rfl, fun _ waits => waits, nofun⟩
  case officeReply.true.urgent o' =>
    cases (show o' = o from sends)
    exact ⟨rfl, rfl, rfl, rfl, fun _ waits => waits, nofun⟩
  case specialReply.special o' => exact ⟨rfl, rfl, rfl, rfl, fun _ waits => waits, nofun⟩
  all_goals exact sends.elim

/-- A thread puts an `Info` into a queue. -/
theorem Placed.fill {site : Site} {info : Info k} (placed : Placed stages s)
    (here : s.pc t = .send site info .fill) (valid : (s.mem.buf (site.queue info)).Valid)
    (space : (s.mem.buf (site.queue info)).count ≠ (s.mem.buf (site.queue info)).dim)
    (mem : s'.mem = s.mem.fill (site.queue info) ⟨info, site⟩)
    (moved : s'.pc = Function.update s.pc t (.send site info .notify)) :
    Placed (Function.update stages info.id (stages info.id).sent) s' := by
  obtain ⟨same, sends, place⟩ := placed.carried t info (by rw [here]; rfl)
  have runs := placed.runs t
  have isReady := placed.uses t (site.queue info) (by rw [here]; rfl)
  rw [here] at sends runs
  obtain ⟨queue, message, history, office, keeps, asks⟩ := sent_facts (i := info.id) sends
  rw [← same] at queue message
  have filled : (s'.mem.buf (site.queue info)).contents =
      (s.mem.buf (site.queue info)).contents ++ [⟨info, site⟩] := by
    rw [mem, Memory.fill_self]
    exact valid.contents_fill space _
  have others (q : Queue k) (other : q ≠ site.queue info) : s'.mem.buf q = s.mem.buf q := by
    rw [mem, Memory.fill_other _ other]
  have absent (q : Queue k) (created : s.mem.ready q = true) (m : Message k)
      (member : m ∈ (s.mem.buf q).contents) : m.info.id ≠ info.id := by
    intro own
    have listed := (placed.listed q created m member).1
    rw [own, place] at listed
    cases listed
  refine placed.hands
    { moved := moved
      ready := by rw [mem]; rfl
      runs := runs_send _ runs
      before := by rw [here]; exact id
      after := id
      uses := fun q works => by cases Option.some.inj works; exact isReady
      alone := fun u at' => (Place.thread.inj (place.symm.trans at')).symm
      others := fun j differ at' => differ (placed.inHand_unique at' place)
      carried := nofun
      inHand := fun u at' => by cases queue.symm.trans at'
      rest := fun q created m differ => ?rest
      own := fun q created m member own => ?own
      queued := fun q at' => ?queued
      nodup := fun q created => ?nodup
      awaits := fun j service student waits => ?awaits
      keeps := fun _ service waits => keeps service waits
      received := fun j => ?received
      known := fun o been => placed.known info.id o (by rw [← office]; exact been) }
  case rest =>
    by_cases target : q = site.queue info
    · subst target
      rw [filled, List.mem_append, List.mem_singleton]
      constructor
      · rintro (old | rfl)
        · exact old
        · exact absurd rfl differ
      · exact Or.inl
    · rw [others q target]
  case own =>
    by_cases target : q = site.queue info
    · subst target
      rw [filled, List.mem_append, List.mem_singleton] at member
      rcases member with old | rfl
      · exact absurd own (absent _ created m old)
      · exact ⟨queue, message.symm⟩
    · rw [others q target] at member
      exact absurd own (absent q created m member)
  case queued =>
    cases Place.queue.inj (queue.symm.trans at')
    refine ⟨isReady, ?_⟩
    rw [filled, message]
    exact List.mem_append_right _ (List.mem_singleton_self _)
  case nodup =>
    by_cases target : q = site.queue info
    · subst target
      rw [filled, List.map_append, List.map_singleton, List.nodup_append]
      refine ⟨placed.nodup _ created, List.nodup_singleton _, ?_⟩
      intro i inside j last
      obtain ⟨m, member, rfl⟩ := List.mem_map.mp inside
      cases List.mem_singleton.mp last
      exact absent _ created m member
    · rw [others q target]
      exact placed.nodup q created
  case awaits =>
    subst student
    cases site with
    | ask asked => exact ⟨runs.1.symm, asks service waits⟩
    | officeReply | specialReply => cases waits
  case received =>
    rw [mem]
    change s.mem.received (.student j) = _
    by_cases own : j = info.id
    · rw [if_pos own, own, history]
      exact placed.received info.id
    · rw [if_neg own]

/-- An office decides whether a student is urgent. -/
theorem Placed.serve {o : Fin numOffices} {info : Info k} {u : Bool} (placed : Placed stages s)
    (here : s.pc t = .officeServe o info) (mem : s'.mem = s.mem)
    (moved : s'.pc = Function.update s.pc t
      (.send (.officeReply false o) { info with officeNo := o, urgent := u.toNat } .lock)) :
    Placed (Function.update stages info.id (.drawn o u)) s' := by
  obtain ⟨same, at', place⟩ := placed.carried t info (by rw [here]; rfl)
  have runs := placed.runs t
  rw [here] at at' runs
  cases stage : stages info.id <;> rw [stage] at at'
  case taken o' =>
    have own : o' = o := at'
    subst own
    cases t with
    | student | specialOffice => exact runs.elim
    | office o =>
      have number : o' = o := runs
      subst number
      refine placed.hands
        { moved := moved
          ready := by rw [mem]
          runs := rfl
          before := by rw [here]; exact id
          after := id
          uses := fun q works => ?_
          alone := fun u at' => (Place.thread.inj (place.symm.trans at')).symm
          others := fun j differ at' => differ (placed.inHand_unique at' place)
          carried := fun info' has => ⟨(Option.some.inj has).symm, rfl, rfl⟩
          inHand := fun u at' => ⟨(Place.thread.inj at').symm, rfl⟩
          rest := fun q created m differ => by rw [mem]
          own := fun q created m member own => ?_
          queued := nofun
          nodup := fun q created => by rw [mem]; exact placed.nodup q created
          awaits := nofun
          keeps := fun _ service waits => by rw [stage] at waits; exact waits
          received := fun j => ?_
          known := fun o'' been => placed.known info.id o'' (by rw [stage]; exact been) }
      · cases Option.some.inj works
        exact placed.ready_answer fun home => by cases place.symm.trans home
      · rw [mem] at member
        have listed := (placed.listed q created m member).1
        rw [own, place] at listed
        cases listed
      · rw [mem]
        by_cases own : j = info.id
        · rw [if_pos own, own, placed.received info.id, stage]
          rfl
        · rw [if_neg own]
  all_goals exact at'.elim

end DeviceProgramming.Offices
