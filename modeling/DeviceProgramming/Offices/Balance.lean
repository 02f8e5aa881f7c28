import DeviceProgramming.Offices.Tokens

namespace DeviceProgramming.Offices

variable {k : ℕ} {s s' : State k} {t : Tid k} {rand : ℕ} {next : Pc k}

/-- Every request has a token, has been claimed, or is about to get its token. -/
structure Balanced (s : State k) : Prop where
  items : ∀ q, q.Served → (s.mem.items q : ℤ) =
    s.mem.tokens q + number Pc.claimed s q + number Pc.pending s q
  nonneg : ∀ q, q.Served → 0 ≤ s.mem.tokens q

theorem Balanced.move (balanced : Balanced s) (moved : s'.pc = Function.update s.pc t next)
    (same : ∀ q : Queue k, q.Served → surplus s'.mem next q = surplus s.mem (s.pc t) q)
    (nonneg : ∀ q : Queue k, q.Served → 0 ≤ s'.mem.tokens q) : Balanced s' := by
  refine ⟨fun q served => ?_, nonneg⟩
  have books := balanced.items q served
  have kept := same q served
  have claimed := number_update Pc.claimed moved q
  have pending := number_update Pc.pending moved q
  unfold surplus at kept
  omega

theorem Balanced.step {stages : Fin k → Stage} (balanced : Balanced s) (delivers : Delivers stages s)
    (step : (program k).Step t rand s s') : Balanced s' := by
  have placed := delivers.placed
  rcases step_cases step with ⟨mem, stays⟩ | ⟨mem, next, target, moved⟩ | ⟨next, at', effect, moved⟩
  · refine ⟨fun q served => ?_, by rw [mem]; exact balanced.nonneg⟩
    unfold number
    rw [mem, stays]
    exact balanced.items q served
  · obtain ⟨claimed, pending⟩ := place_of_target target
    refine balanced.move moved (fun q served => ?_) (by rw [mem]; exact balanced.nonneg)
    rw [mem]
    exact surplus_congr rfl rfl claimed pending
  · refine balanced.move moved (fun q served => ?_) fun q => ?_
    · exact effect.surplus (placed.runs t) (delivers.relies t) (fun q => placed.unready) (placed.uses t) served
    · exact effect.tokens_nonneg (placed.runs t) (delivers.relies t) balanced.nonneg

theorem Opening.balanced (opening : Opening s) : Balanced s := by
  have nobody (place : Pc k → Option (Queue k)) (entry : ∀ t : Tid k, place t.entry = none) (q : Queue k) :
      number place s q = 0 := by
    rw [number_eq_total, total_eq_zero]
    intro t
    rw [opening.launched.pc]
    exact weight_none (entry t) q
  have zero (q : Queue k) : s.mem.tokens q = 0 := by
    cases q with
    | normal => exact opening.normal
    | special | urgent => exact opening.urgent _
    | answer => rfl
  have empty (q : Queue k) : s.mem.items q = 0 := by
    cases ready : s.mem.ready q with
    | false => simp [Memory.items, ready]
    | true => rw [items_of_ready ready, ← RingBuffer.length_contents, (opening.launched.contents ready).1, List.length_nil]
  refine ⟨fun q _ => ?_, fun q _ => (zero q).ge⟩
  rw [zero, empty, nobody Pc.claimed (by intro t; cases t <;> rfl),
    nobody Pc.pending (by intro t; cases t <;> rfl)]
  rfl

theorem balanced_of_reach {ok : State k → Tid k × ℕ → Prop} (reach : (simulation k).ReachUnder ok s) :
    Balanced s := by
  refine reach.invariant (fun _ => Opening.balanced) fun s s' label earlier balanced _ moved => ?_
  obtain ⟨_, step⟩ := Program.step_of_next moved
  obtain ⟨stages, delivers, _⟩ := delivers_of_reach earlier
  exact balanced.step delivers step

/-- A thread is inside the critical section of `send` on queue `q`. -/
def sending (q : Queue k) : Activity (Lock k) (Chan k) (Pc k) → Bool
  | .run (.send site info at') => at' ≠ .lock && site.queue info = q
  | _ => false

/-- Outside `send` nobody has still to set a value. -/
theorem no_pending (slept : (program k).SleptAt s) {q : Queue k} (quiet : ∀ t, sending q (s.thread t) = false) :
    number Pc.pending s q = 0 := by
  rw [number_eq_total, total_eq_zero]
  intro t
  refine if_neg fun pending => ?_
  have outside := quiet t
  cases here : s.pc t <;> rw [here] at pending
  case send site info at' =>
    have running (never : (s.pc t).sleepsOn = none) : s.thread t = .run (.send site info at') := by
      rw [← here]
      exact running_of_sleepsOn slept never
    rw [here] at running
    cases at' <;> cases pending
    all_goals
      rw [running rfl] at outside
      simp [sending] at outside
  all_goals cases pending

/-- An office that has claimed a request finds its queue not empty. -/
theorem Balanced.items_of_claimed (balanced : Balanced s) {q : Queue k} (served : q.Served)
    (claims : (s.pc t).claimed = some q) : s.mem.items q ≠ 0 := by
  have books := balanced.items q served
  have tokens := balanced.nonneg q served
  have one : 1 ≤ number Pc.claimed s q := by
    rw [number_eq_total]
    have own := weight_le_total (fun _ => weight Pc.claimed q) s.pc t
    rw [weight_some claims, if_pos rfl] at own
    exact own
  omega

theorem claimed_of_receive {receiver : Receiver k} {at' : ReceiveAt (Message k)} (office : receiver.service = none)
    (before : at'.read = false) :
    (Pc.receive receiver at').claimed = some receiver.queue ∧ receiver.queue.Served := by
  rcases receiver with ⟨service, info⟩ | ⟨_ | _, o⟩ | _
  case await => cases office
  case officeTake.true => exact ⟨by simp [Pc.claimed, before], o.isLt⟩
  all_goals exact ⟨by simp [Pc.claimed, before], trivial⟩

/-- In every run of the simulation the tokens match the requests: outside `send`
a queue holds as many as its counter says and offices have claimed, no counter
is negative, and no office that has claimed a request finds its queue empty. -/
theorem tokens_match (reach : (simulation k).Reach s) :
    (∀ q, q.Served → (∀ t, sending q (s.thread t) = false) →
      (s.mem.items q : ℤ) = s.mem.tokens q + number Pc.claimed s q) ∧
    (∀ q, q.Served → 0 ≤ s.mem.tokens q) ∧
    (∀ t receiver at', s.pc t = .receive receiver at' → receiver.service = none → at'.read = false →
      (s.mem.buf receiver.queue).count ≠ 0) := by
  have balanced := balanced_of_reach reach
  refine ⟨fun q served quiet => ?_, balanced.nonneg, fun t receiver at' here office before => ?_⟩
  · have books := balanced.items q served
    have none := no_pending (sleptAt_of_reach reach) quiet
    omega
  · obtain ⟨claims, served⟩ := claimed_of_receive office before
    obtain ⟨stages, delivers, _⟩ := delivers_of_reach reach
    have ready := delivers.placed.uses t receiver.queue (by rw [here]; rfl)
    rw [← items_of_ready ready]
    exact balanced.items_of_claimed served (by rw [here]; exact claims)

set_option maxRecDepth 10000 in
/-- Office 2 has claimed the request of the only student. -/
theorem tokens_match_oneClaim : ∃ s : State 1, number Pc.claimed s .normal = 1 ∧
    (s.mem.items .normal : ℤ) = s.mem.tokens .normal + number Pc.claimed s .normal := by
  have computed : ((simulation 1).run (schedule [(.student 0, 0, 13), (.office 2, 0, 5)])
      (boot 1 fun _ => ⟨⟨0, 0, 0⟩, .specialReply⟩)).map
        (fun s => decide (number Pc.claimed s .normal = 1 ∧ ∀ t, sending .normal (s.thread t) = false)) =
      some true := by decide
  obtain ⟨s, reached, checked⟩ := Option.map_eq_some_iff.mp computed
  obtain ⟨one, quiet⟩ := of_decide_eq_true checked
  have reach : (simulation 1).Reach s := .of_run (.start (opening_boot ..)) reached
  exact ⟨s, one, (tokens_match reach).1 .normal trivial quiet⟩

end DeviceProgramming.Offices
