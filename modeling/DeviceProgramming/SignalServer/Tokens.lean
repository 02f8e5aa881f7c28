import DeviceProgramming.SignalServer.Steps

namespace DeviceProgramming.SignalServer

/-- A client that has read a number and not yet sent the signal. -/
def ClientAt.unsent : ClientAt → ℕ
  | postMutex | kill => 1
  | _ => 0

def ClientAt.waits : ClientAt → ℕ
  | waitReady => 1
  | _ => 0

/-- A client that has got an answer and not yet printed it. -/
def ClientAt.answered : ClientAt → ℕ
  | waitMutex2 | print => 1
  | _ => 0

def ClientAt.holds : ClientAt → ℕ
  | fread | postMutexEnd | postMutex | print | postMutex2 => 1
  | _ => 0

/-- A handler that has still to double the number. -/
def doubles : Option HandlerAt → ℕ
  | some .waitMutex | some .double => 1
  | _ => 0

/-- A handler that has doubled the number and has still to announce it. -/
def answers : Option HandlerAt → ℕ
  | some .count | some .postMutex | some .postReady => 1
  | _ => 0

/-- A handler that has still to count its request. -/
def counts : Option HandlerAt → ℕ
  | some .waitMutex | some .double | some .count => 1
  | _ => 0

def holds : Option HandlerAt → ℕ
  | some .double | some .count | some .postMutex => 1
  | _ => 0

namespace State

/-- The sum of a weight over the two clients. -/
def clients (s : State) (weight : ClientAt → ℕ) : ℕ := total (fun _ : Client => weight) s.client

/-- The sum of a weight over the handlers on top of the threads. -/
def handlers (s : State) (weight : Option HandlerAt → ℕ) : ℕ := total (fun _ : Tid => weight) s.handler

end State

variable {files : Files} {s s' : State} {i : Client} {t : Tid} {left : ℤ} {label : Label}

theorem ClientStep.clients (step : ClientStep files i left s s') (weight : ClientAt → ℕ) :
    s'.clients weight + weight (s.client i) = s.clients weight + weight (s'.client i) := by
  cases step <;> simp only [State.goto, Function.update_self] <;>
    exact total_update (fun _ => weight) s.client i _

theorem HandlerStep.handlers (step : HandlerStep t s s') (weight : Option HandlerAt → ℕ) :
    s'.handlers weight + weight (s.handler t) = s.handlers weight + weight (s'.handler t) := by
  cases step <;> simp only [State.handle, Function.update_self] <;>
    exact total_update (fun _ => weight) s.handler t _

/-- A step of a client leaves `main` and the handlers where they are, and moves
only this client, which existed. -/
theorem ClientStep.frame (step : ClientStep files i left s s') :
    s'.main = s.main ∧ s'.handler = s.handler ∧ s.client i ≠ .absent ∧ s.client i ≠ .done ∧
      s'.client i ≠ .absent ∧ s'.client i ≠ .fopen ∧
      ∀ j, j ≠ i → s'.client j = s.client j ∧ s'.stream j = s.stream j := by
  cases step <;> simp_all [State.goto]

theorem HandlerStep.frame (step : HandlerStep t s s') :
    s'.main = s.main ∧ s'.client = s.client ∧ s'.pending = s.pending ∧ s'.stream = s.stream ∧
      s'.printed = s.printed := by
  cases step <;> exact ⟨rfl, rfl, rfl, rfl, rfl⟩

theorem MainStep.frame (step : MainStep s s') :
    s'.handler = s.handler ∧ s'.number = s.number ∧ s'.requestNb = s.requestNb ∧ s'.ready = s.ready ∧
      s'.mutex = s.mutex ∧ s'.pending = s.pending ∧ s'.stream = s.stream ∧ s'.printed = s.printed := by
  cases step <;> exact ⟨rfl, rfl, rfl, rfl, rfl, rfl, rfl, rfl⟩

/-- Which clients exist and have returned, by where `main` is. -/
structure Joined (s : State) : Prop where
  create1 : s.main = .create1 → s.client .client1 = .absent
  create2 : s.main = .create1 ∨ s.main = .create2 → s.client .client2 = .absent
  created : ∀ i, s.client i = .absent → s.main = .create1 ∨ s.main = .create2 ∧ i = .client2
  joined : s.main = .join2 ∨ s.main = .print ∨ s.main = .returned → s.client .client1 = .done
  returned : s.main = .print ∨ s.main = .returned → s.client .client2 = .done

theorem joined_launch : Joined launch where
  create1 _ := rfl
  create2 _ := rfl
  created _ _ := Or.inl rfl
  joined := by simp [launch]
  returned := by simp [launch]

theorem Joined.congr (joined : Joined s) (main : s'.main = s.main) (client : s'.client = s.client) :
    Joined s' := by
  constructor <;> rw [main, client]
  · exact joined.create1
  · exact joined.create2
  · exact joined.created
  · exact joined.joined
  · exact joined.returned

theorem Joined.mainStep (joined : Joined s) (step : MainStep s s') : Joined s' := by
  obtain ⟨create1, create2, created, first, second⟩ := joined
  cases step with
  | create1 here =>
    constructor <;> simp_all [State.goto]
    rintro (_ | _) <;> simp
  | create2 here =>
    have exists1 : s.client .client1 ≠ .absent := fun absent => by simpa [here] using created _ absent
    constructor <;> simp_all [State.goto]
    rintro (_ | _) <;> simp [exists1]
  | join1 here done | join2 here done | print here => constructor <;> simp_all

theorem Joined.clientStep (joined : Joined s) (step : ClientStep files i left s s') : Joined s' := by
  obtain ⟨main, _, exists', running, stays, _, others⟩ := step.frame
  have absent (j : Client) : s'.client j = .absent ↔ s.client j = .absent := by
    by_cases own : j = i
    · subst own
      simp [stays, exists']
    · rw [(others j own).1]
  have done (j : Client) (was : s.client j = .done) : s'.client j = .done := by
    by_cases own : j = i
    · subst own
      exact absurd was running
    · rw [(others j own).1, was]
  constructor
  · rw [main, absent]
    exact joined.create1
  · rw [main, absent]
    exact joined.create2
  · intro j
    rw [main, absent]
    exact joined.created j
  · rw [main]
    exact fun here => done _ (joined.joined here)
  · rw [main]
    exact fun here => done _ (joined.returned here)

theorem Joined.step (joined : Joined s) (step : Step files s label s') : Joined s' := by
  cases step with
  | main _ moves => exact joined.mainStep moves
  | client _ moves => exact joined.clientStep moves
  | handler moves => exact joined.congr moves.frame.1 moves.frame.2.1
  | deliver => exact joined.congr rfl rfl

/-- `main` moves no client that has begun. -/
theorem MainStep.clients (step : MainStep s s') (joined : Joined s) {weight : ClientAt → ℕ}
    (new : weight .fopen = weight .absent) : s'.clients weight = s.clients weight := by
  cases step with
  | create1 here =>
    have moved := total_update (fun _ : Client => weight) s.client .client1 .fopen
    rw [joined.create1 here, new] at moved
    exact Nat.add_right_cancel moved
  | create2 here =>
    have moved := total_update (fun _ : Client => weight) s.client .client2 .fopen
    rw [joined.create2 (Or.inr here), new] at moved
    exact Nat.add_right_cancel moved
  | join1 | join2 | print => rfl

/-- The handler starts on a thread. -/
theorem handlers_deliver (idle : s.handler t = none) (weight : Option HandlerAt → ℕ) :
    ({ s with pending := false }.handle t (some .waitMutex)).handlers weight + weight none =
      s.handlers weight + weight (some .waitMutex) := by
  have moved := total_update (fun _ : Tid => weight) s.handler t (some .waitMutex)
  rwa [idle] at moved

/-- `mutex` is free or held by one client or handler. -/
def Exclusive (s : State) : Prop := s.mutex + s.clients ClientAt.holds + s.handlers holds = 1

theorem exclusive_launch : Exclusive launch := rfl

theorem Exclusive.step (exclusive : Exclusive s) (joined : Joined s) (step : Step files s label s') :
    Exclusive s' := by
  unfold Exclusive at exclusive ⊢
  cases step with
  | main _ moves =>
    obtain ⟨handler, _, _, _, mutex, _⟩ := moves.frame
    rw [mutex, moves.clients joined rfl, State.handlers, handler]
    exact exclusive
  | client _ moves =>
    have clients := moves.clients ClientAt.holds
    rw [State.handlers, moves.frame.2.1]
    change _ + _ + s.handlers holds = 1
    cases moves <;> simp only [*, State.goto, Function.update_self, ClientAt.holds] at clients ⊢ <;> omega
  | handler moves =>
    have handlers := moves.handlers holds
    rw [State.clients, moves.frame.2.1]
    change _ + s.clients ClientAt.holds + _ = 1
    cases moves <;> simp only [*, State.handle, Function.update_self, holds] at handlers ⊢ <;> omega
  | deliver _ idle =>
    have handlers := handlers_deliver idle holds
    exact (congrArg _ handlers).trans exclusive

/-- What a request is: a pending signal, a handler that runs for it or a
`ready` that nobody has taken. -/
def State.requests (s : State) : ℕ := s.pending.toNat + s.handlers doubles + s.handlers answers + s.ready

/-- Each client that waits has its request under way. -/
def Answerable (s : State) : Prop := s.requests = s.clients ClientAt.waits

theorem answerable_launch : Answerable launch := rfl

/-- A `kill` while a signal is pending is absorbed; all other steps keep the
requests under way. -/
theorem Answerable.step (answerable : Answerable s) (joined : Joined s) (step : Step files s label s')
    (fresh : ∀ i left, label = .run (.client i) left → s.handler (.client i) = none → s.client i = .kill →
      s.pending = false) : Answerable s' := by
  unfold Answerable State.requests at answerable ⊢
  cases step with
  | main _ moves =>
    obtain ⟨handler, _, _, ready, _, pending, _⟩ := moves.frame
    rw [pending, ready, moves.clients joined rfl, State.handlers, State.handlers, handler]
    exact answerable
  | @client i left _ idle moves =>
    have clients := moves.clients ClientAt.waits
    have absorbed := fresh i left rfl idle
    rw [State.handlers, State.handlers, moves.frame.2.1]
    change _ + s.handlers doubles + s.handlers answers + _ = _
    cases moves
    case kill here =>
      rw [absorbed here] at answerable
      simp only [here, State.goto, Function.update_self, ClientAt.waits, Bool.toNat_true, Bool.toNat_false]
        at answerable clients ⊢
      omega
    all_goals
      simp only [*, State.goto, Function.update_self, ClientAt.waits] at clients ⊢
      omega
  | handler moves =>
    have first := moves.handlers doubles
    have second := moves.handlers answers
    rw [State.clients, moves.frame.2.1]
    change _ = s.clients ClientAt.waits
    cases moves <;> simp only [*, State.handle, Function.update_self, doubles, answers] at first second ⊢ <;> omega
  | deliver raised idle =>
    have first := handlers_deliver idle doubles
    have second := handlers_deliver idle answers
    rw [raised] at answerable
    simp only [doubles, answers, Bool.toNat_true] at answerable first second ⊢
    change 0 + _ + _ + s.ready = s.clients ClientAt.waits
    omega

end DeviceProgramming.SignalServer
