import DeviceProgramming.Offices.Delivery
import DeviceProgramming.Machine.Count

namespace DeviceProgramming.Offices

variable {k : ℕ} {s s' : State k} {t : Tid k} {rand : ℕ} {next : Pc k}

/-- The queues of requests. -/
def Queue.Served : Queue k → Prop
  | normal | special => True
  | urgent o => o < numOffices
  | answer _ => False

/-- The number of requests in a queue, none before the queue is created. -/
def Memory.items (m : Memory k) (q : Queue k) : ℕ := if m.ready q then (m.buf q).count else 0

/-- The counter in `cond` for the requests in a queue. -/
def Memory.tokens (m : Memory k) : Queue k → ℤ
  | .normal => m.normal
  | .special => m.urgent numOffices
  | .urgent o => m.urgent o
  | .answer _ => 0

/-- The queue from which an office has claimed a request that it has not yet taken. -/
def Pc.claimed : Pc k → Option (Queue k)
  | officeUnlock urgent o => some (Receiver.officeTake urgent o).queue
  | specialUnlock => some .special
  | receive (.await _ _) _ => none
  | receive receiver at' => if at'.read then none else some receiver.queue
  | _ => none

/-- The queue with a new message for which `send` has not yet set the value in `cond`. -/
def Pc.pending : Pc k → Option (Queue k)
  | send site info .notify | send site info .lockCond | send site info .token => some (site.queue info)
  | _ => none

/-- The number of threads at statements that stand for a queue. -/
def number (place : Pc k → Option (Queue k)) (s : State k) (q : Queue k) : ℕ :=
  (Finset.univ.filter fun t => place (s.pc t) = some q).card

def weight (place : Pc k → Option (Queue k)) (q : Queue k) (pc : Pc k) : ℕ :=
  if place pc = some q then 1 else 0

theorem number_eq_total (place : Pc k → Option (Queue k)) (s : State k) (q : Queue k) :
    number place s q = total (fun _ => weight place q) s.pc := Finset.card_filter _ _

theorem number_update (place : Pc k → Option (Queue k)) (moved : s'.pc = Function.update s.pc t next)
    (q : Queue k) : number place s' q + weight place q (s.pc t) = number place s q + weight place q next := by
  rw [number_eq_total, number_eq_total, moved]
  exact total_update (fun _ => weight place q) s.pc t next

theorem weight_of_eq {place : Pc k → Option (Queue k)} {pc : Pc k} (same : place next = place pc)
    (q : Queue k) : weight place q next = weight place q pc := by
  unfold weight
  rw [same]

section
variable {m m' : Memory k} {pc : Pc k}

theorem items_of_ready {q : Queue k} (ready : m.ready q = true) : m.items q = (m.buf q).count := if_pos ready

theorem items_congr {q : Queue k} (buf : m'.buf q = m.buf q) (ready : m'.ready q = m.ready q) :
    m'.items q = m.items q := by
  unfold Memory.items
  rw [buf, ready]

theorem items_create {q other : Queue k} {dim : ℕ} (fresh : m.ready q ≠ true) :
    (m.create q dim).items other = m.items other := by
  unfold Memory.items
  by_cases same : other = q
  · subst same
    rw [if_neg fresh, Memory.create_self]
    exact ite_self 0
  · rw [Memory.create_other _ same]
    change (if Function.update m.ready q true other then _ else _) = _
    rw [Function.update_of_ne same]

theorem items_fill {q : Queue k} (message : Message k) (ready : m.ready q = true) (other : Queue k) :
    (m.fill q message).items other = m.items other + if q = other then 1 else 0 := by
  by_cases same : other = q
  · subst same
    rw [if_pos rfl, items_of_ready ready, items_of_ready (m := m.fill other message) ready, Memory.fill_self]
    rfl
  · rw [if_neg (Ne.symm same), Nat.add_zero]
    exact items_congr (Memory.fill_other _ same _) rfl

theorem items_take {q : Queue k} (t : Tid k) (ready : m.ready q = true) (some : (m.buf q).count ≠ 0)
    (other : Queue k) :
    (m.take q t).items other + (if q = other then 1 else 0) = m.items other := by
  by_cases same : other = q
  · subst same
    rw [if_pos rfl, items_of_ready ready, items_of_ready (m := m.take other t) ready, Memory.take_self]
    change (m.buf other).count - 1 + 1 = _
    omega
  · rw [if_neg (Ne.symm same), Nat.add_zero]
    exact items_congr (Memory.take_other _ same _) rfl

/-- `send` sets the value for the queue that it has filled. -/
theorem tokens_token {site : Site} {info : Info k} {at' : SendAt} (runs : t.Runs (.send site info at'))
    {q : Queue k} (served : q.Served) :
    (m.token (site.queue info) info).tokens q = m.tokens q + if site.queue info = q then 1 else 0 := by
  cases site with
  | ask service =>
    cases t with
    | office | specialOffice => exact runs.elim
    | student i =>
      obtain ⟨_, asks⟩ := runs
      cases service with
      | normal =>
        have usual : info.urgent ≠ 1 := by
          have zero : info.urgent = 0 := asks
          omega
        cases q <;> simp [Memory.token, Site.queue, usual, Memory.tokens]
      | special =>
        obtain ⟨urgent, _⟩ := asks
        cases q with
        | urgent o =>
          have other : o ≠ numOffices := Nat.ne_of_lt served
          simp [Memory.token, Site.queue, urgent, Memory.tokens, other]
        | normal | special | answer => simp [Memory.token, Site.queue, urgent, Memory.tokens]
      | urgent =>
        obtain ⟨urgent, known⟩ := asks
        cases q with
        | urgent o =>
          by_cases same : o = info.officeNo
          · subst same
            simp [Memory.token, Site.queue, urgent, Memory.tokens]
          · simp [Memory.token, Site.queue, urgent, Memory.tokens, same, Ne.symm same]
        | special =>
          have other : numOffices ≠ info.officeNo := Nat.ne_of_gt known
          simp [Memory.token, Site.queue, urgent, Memory.tokens, other]
        | normal | answer => simp [Memory.token, Site.queue, urgent, Memory.tokens]
  | officeReply urgent o | specialReply =>
    cases q with
    | answer i => exact served.elim
    | normal | special | urgent => simp [Memory.token, Site.queue, Memory.tokens]

theorem weight_some {place : Pc k → Option (Queue k)} {pc : Pc k} {q : Queue k} (here : place pc = some q)
    (other : Queue k) : weight place other pc = if q = other then 1 else 0 := by
  simp only [weight, here, Option.some.injEq]

theorem weight_none {place : Pc k → Option (Queue k)} {pc : Pc k} (here : place pc = none) (q : Queue k) :
    weight place q pc = 0 := by
  simp only [weight, here, reduceCtorEq, if_false]

/-- A claim takes the token of the queue that the office goes to. -/
theorem tokens_claim {o : Fin numOffices} {q : Queue k} (served : q.Served) :
    Memory.tokens { m with urgent := Function.update m.urgent o (m.urgent o - 1) } q =
        m.tokens q - (if .urgent o = q then 1 else 0) ∧
      Memory.tokens { m with normal := m.normal - 1 } q = m.tokens q - (if .normal = q then 1 else 0) ∧
      Memory.tokens { m with urgent := Function.update m.urgent numOffices (m.urgent numOffices - 1) } q =
        m.tokens q - (if .special = q then 1 else 0) := by
  have bound : (o : ℕ) ≠ numOffices := Nat.ne_of_lt o.isLt
  cases q with
  | answer i => exact served.elim
  | normal => simp [Memory.tokens]
  | special => simp [Memory.tokens, bound.symm]
  | urgent n =>
    have other : n ≠ numOffices := Nat.ne_of_lt served
    by_cases same : n = o
    · subst same
      simp [Memory.tokens, other]
    · simp [Memory.tokens, other, same, Ne.symm same]

/-- The requests in a queue for which nothing stands, as a thread sees it. -/
def surplus (m : Memory k) (pc : Pc k) (q : Queue k) : ℤ :=
  m.items q - m.tokens q - weight Pc.claimed q pc - weight Pc.pending q pc

theorem surplus_congr {q : Queue k} (items : m'.items q = m.items q) (tokens : m'.tokens q = m.tokens q)
    (claimed : next.claimed = pc.claimed) (pending : next.pending = pc.pending) :
    surplus m' next q = surplus m pc q := by
  unfold surplus
  rw [items, tokens, weight_of_eq claimed, weight_of_eq pending]

theorem surplus_claim {claims q : Queue k} (items : m'.items q = m.items q)
    (tokens : m'.tokens q = m.tokens q - if claims = q then 1 else 0) (before : pc.claimed = none)
    (after : next.claimed = some claims) (pending : next.pending = pc.pending) :
    surplus m' next q = surplus m pc q := by
  unfold surplus
  rw [items, tokens, weight_none before, weight_some after, weight_of_eq pending]
  split_ifs <;> omega

theorem surplus_fill {site : Site} {info : Info k} (ready : m.ready (site.queue info) = true) (q : Queue k) :
    surplus (m.fill (site.queue info) ⟨info, site⟩) (.send site info .notify) q =
      surplus m (.send site info .fill) q := by
  have items := items_fill ⟨info, site⟩ ready q
  have tokens : (m.fill (site.queue info) ⟨info, site⟩).tokens q = m.tokens q := by cases q <;> rfl
  have claimed : weight Pc.claimed q (.send site info .notify) = weight Pc.claimed q (.send site info .fill) :=
    weight_of_eq rfl q
  have before : weight Pc.pending q (.send site info .fill) = 0 := weight_none rfl q
  have after : weight Pc.pending q (.send site info .notify) = if site.queue info = q then 1 else 0 :=
    weight_some rfl q
  unfold surplus
  rw [tokens, claimed, before]
  omega

theorem surplus_token {site : Site} {info : Info k} (runs : t.Runs (.send site info .token)) {q : Queue k}
    (served : q.Served) :
    surplus (m.token (site.queue info) info) (.send site info .broadcast) q =
      surplus m (.send site info .token) q := by
  obtain ⟨buf, ready, _⟩ := m.token_frame (site.queue info) info
  have items := items_congr (congrFun buf q) (congrFun ready q)
  have tokens := tokens_token (m := m) runs served
  have claimed : weight Pc.claimed q (.send site info .broadcast) = weight Pc.claimed q (.send site info .token) :=
    weight_of_eq rfl q
  have before : weight Pc.pending q (.send site info .token) = if site.queue info = q then 1 else 0 :=
    weight_some rfl q
  have after : weight Pc.pending q (.send site info .broadcast) = 0 := weight_none rfl q
  unfold surplus
  rw [items, tokens, claimed, before, after]
  split_ifs <;> omega

theorem surplus_take {receiver : Receiver k} {message : Message k} (ready : m.ready receiver.queue = true)
    (some : (m.buf receiver.queue).count ≠ 0) {q : Queue k} (served : q.Served) :
    surplus (m.take receiver.queue t) (.receive receiver (.notify message)) q =
      surplus m (.receive receiver .take) q := by
  have items := items_take t ready some q
  have tokens : (m.take receiver.queue t).tokens q = m.tokens q := by cases q <;> rfl
  have pending : weight Pc.pending q (.receive receiver (.notify message)) =
      weight Pc.pending q (.receive receiver .take) := weight_of_eq rfl q
  have before : weight Pc.claimed q (.receive receiver .take) = if receiver.queue = q then 1 else 0 := by
    cases receiver with
    | await service info =>
      have other : (Receiver.await service info).queue ≠ q := by
        rintro rfl
        exact served
      rw [if_neg other]
      exact weight_none rfl q
    | officeTake | specialTake => exact weight_some rfl q
  have after : weight Pc.claimed q (.receive receiver (.notify message)) = 0 :=
    weight_none (by cases receiver <;> rfl) q
  unfold surplus
  rw [tokens, pending, after]
  omega

/-- No statement makes a difference between requests and what stands for them. -/
theorem Effect.surplus (effect : Effect t rand m pc m' next) (runs : t.Runs pc) (relies : pc.Relies m)
    (fresh : ∀ q, pc.creates = some q → m.ready q ≠ true) (uses : ∀ q, pc.queue = some q → m.ready q = true)
    {q : Queue k} (served : q.Served) : Offices.surplus m' next q = Offices.surplus m pc q := by
  cases effect
  case studentInit i => exact surplus_congr (items_create (fresh _ rfl)) rfl rfl rfl
  case officeInit o => exact surplus_congr (items_create (fresh _ rfl)) rfl rfl rfl
  case claimUrgent o _ => exact surplus_claim rfl (tokens_claim served).1 rfl rfl rfl
  case claimNormal o _ => exact surplus_claim rfl (tokens_claim (o := o) served).2.1 rfl rfl rfl
  case specialClaim => exact surplus_claim rfl (tokens_claim (o := 0) served).2.2 rfl rfl rfl
  case fill site info => exact surplus_fill (uses _ rfl) q
  case token site info => exact surplus_token runs served
  case take receiver => exact surplus_take (uses _ rfl) relies served
  case receiveEmpty receiver _ | receiveSome receiver _ =>
    exact surplus_congr rfl rfl (by cases receiver <;> rfl) rfl
  all_goals exact surplus_congr rfl rfl rfl rfl

/-- A counter is only decremented after it has been found not to be zero. -/
theorem Effect.tokens_nonneg (effect : Effect t rand m pc m' next) (runs : t.Runs pc) (relies : pc.Relies m)
    (before : ∀ q : Queue k, q.Served → 0 ≤ m.tokens q) {q : Queue k} (served : q.Served) :
    0 ≤ m'.tokens q := by
  have old := before q served
  cases effect
  case claimUrgent o urgent =>
    have own := before (.urgent o) o.isLt
    have positive : 0 ≤ m.urgent o - 1 := by
      change 0 ≤ m.urgent o at own
      omega
    rw [(tokens_claim served).1]
    split_ifs with same
    · subst same
      exact positive
    · omega
  case claimNormal o urgent =>
    have own := before .normal trivial
    have positive : 0 ≤ m.normal - 1 := by
      have some : m.normal ≠ 0 := fun none => relies ⟨urgent, none⟩
      change 0 ≤ m.normal at own
      omega
    rw [(tokens_claim (o := o) served).2.1]
    split_ifs with same
    · subst same
      exact positive
    · omega
  case specialClaim =>
    have own := before .special trivial
    have positive : 0 ≤ m.urgent numOffices - 1 := by
      have some : m.urgent numOffices ≠ 0 := relies
      change 0 ≤ m.urgent numOffices at own
      omega
    rw [(tokens_claim (o := 0) served).2.2]
    split_ifs with same
    · subst same
      exact positive
    · omega
  case token site info =>
    rw [tokens_token runs served]
    split_ifs <;> omega
  all_goals cases q <;> exact old

theorem place_of_target (target : (instr t pc).target = some next) :
    next.claimed = pc.claimed ∧ next.pending = pc.pending := by
  cases control_of_target target
  case receiveLock receiver | receiveWait receiver | receiveNotify receiver _ =>
    cases receiver <;> exact ⟨rfl, rfl⟩
  all_goals exact ⟨rfl, rfl⟩

end

end DeviceProgramming.Offices
