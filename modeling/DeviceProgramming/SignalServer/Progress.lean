import DeviceProgramming.SignalServer.Doubles

namespace DeviceProgramming.SignalServer

/-- A client without an open stream, or at its end. -/
def ClientAt.ended : ClientAt → Bool
  | absent | fopen | postMutexEnd | fclose | done => true
  | _ => false

/-- The handler starts on threads that do not hold `mutex`, no signal is sent
while one is pending, and `request_nb` does not overflow. -/
def Undisturbed (s : State) : Label → Prop
  | .run t _ => (∀ i, t = .client i → s.handler t = none → s.client i = .kill → s.pending = false) ∧
      (s.handler t = some .count → s.requestNb < 2 ^ 31 - 1)
  | .deliver t => ∀ i, t = .client i → (s.client i).holds = 0

instance (s : State) (label : Label) : Decidable (Undisturbed s label) := match label with
  | .run _ _ => inferInstanceAs (Decidable (_ ∧ (_ → _)))
  | .deliver t => inferInstanceAs (Decidable (∀ i, t = .client i → (s.client i).holds = 0))

/-- The number of ints that the clients have still to read. -/
def State.remaining (files : Files) (s : State) : ℕ :=
  total (fun _ : Client => List.length) (s.unread files)

/-- The requests counted and still to be counted are the ints of the files. -/
def Counted (files : Files) (s : State) : Prop :=
  s.requestNb + (s.pending.toNat + s.handlers counts + s.clients ClientAt.unsent + s.remaining files : ℕ) =
    total (fun _ : Client => List.length) (contents files)

structure Undeterred (files : Files) (s : State) : Prop where
  joined : Joined s
  exclusive : Exclusive s
  answerable : Answerable s
  free : ∀ i, s.handler (.client i) ≠ none → (s.client i).holds = 0
  ended : ∀ i, (s.client i).ended = true → s.stream i = []
  counted : Counted files s
  nonneg : 0 ≤ s.requestNb

variable {files : Files} {s s' : State} {i j : Client} {t : Tid} {left : ℤ} {label : Label}

theorem undeterred_launch : Undeterred files launch where
  joined := joined_launch
  exclusive := exclusive_launch
  answerable := answerable_launch
  free _ on := absurd rfl on
  ended _ _ := rfl
  counted := by
    have same : launch.remaining files = total (fun _ : Client => List.length) (contents files) := rfl
    rw [Counted, same]
    simp [launch, State.handlers, State.clients, total, counts, ClientAt.unsent]
  nonneg := le_refl _

/-- A client reads its numbers one by one and sends a signal for each. -/
theorem ClientStep.unread (step : ClientStep files i left s s')
    (ended : (s.client i).ended = true → s.stream i = []) (fresh : s.client i = .kill → s.pending = false) :
    (s'.unread files i).length + (s'.client i).unsent + s'.pending.toNat =
      (s.unread files i).length + (s.client i).unsent + s.pending.toNat := by
  cases step with
  | closed here closed =>
    have none := ended (by rw [here]; rfl)
    simp [State.unread, State.goto, here, contents, closed, none, ints, ClientAt.unsent]
  | fopen here opens => simp [State.unread, State.goto, here, contents, opens, ClientAt.unsent]
  | fread here read =>
    simp only [State.unread, State.goto, here, Function.update_self, ints_of_readInt read, List.length_cons,
      ClientAt.unsent]
  | fail here fails =>
    simp [State.unread, State.goto, here, ints_of_readInt_none fails, ints, ClientAt.unsent]
  | kill here =>
    have absent := fresh here
    simp [State.unread, State.goto, here, absent, ClientAt.unsent]
  | waitMutex here | postMutexEnd here | fclose here | postMutex here | waitReady here | waitMutex2 here
  | print here | postMutex2 here =>
    simp [State.unread, State.goto, here, ClientAt.unsent]

theorem ClientStep.remaining (step : ClientStep files i left s s') :
    s'.remaining files + (s.unread files i).length = s.remaining files + (s'.unread files i).length := by
  obtain ⟨_, _, _, _, _, _, others⟩ := step.frame
  have moved : s'.unread files = Function.update (s.unread files) i (s'.unread files i) := by
    funext j
    by_cases own : j = i
    · subst own
      simp
    · obtain ⟨place, stream⟩ := others j own
      simp only [Function.update_of_ne own, State.unread, place, stream]
  have sum := total_update (fun _ : Client => List.length) (s.unread files) i (s'.unread files i)
  rwa [← moved] at sum

theorem ClientStep.ended (step : ClientStep files i left s s') (before : (s.client i).ended = true → s.stream i = [])
    (after : (s'.client i).ended = true) : s'.stream i = [] := by
  cases step with
  | closed here | postMutexEnd here | fclose here =>
    simpa [State.goto] using before (by rw [here]; rfl)
  | fail here => simp [State.goto]
  | fopen | waitMutex | fread | postMutex | kill | waitReady | waitMutex2 | print | postMutex2 =>
    simp [State.goto, ClientAt.ended] at after

theorem Undeterred.clientStep (inv : Undeterred files s) (idle : s.handler (.client i) = none)
    (step : ClientStep files i left s s') (answerable : Answerable s') (exclusive : Exclusive s')
    (fresh : s.client i = .kill → s.pending = false) : Undeterred files s' := by
  obtain ⟨_, handler, _, _, _, _, others⟩ := step.frame
  have number : s'.requestNb = s.requestNb := by cases step <;> rfl
  refine ⟨inv.joined.clientStep step, exclusive, answerable, fun j on => ?_, fun j after => ?_, ?_, ?_⟩
  · rw [handler] at on
    have other : j ≠ i := by
      rintro rfl
      exact on idle
    rw [(others j other).1]
    exact inv.free j on
  · by_cases own : j = i
    · subst own
      exact step.ended (inv.ended j) after
    · obtain ⟨place, stream⟩ := others j own
      rw [stream]
      exact inv.ended j (place ▸ after)
  · have counted := inv.counted
    have clients := step.clients ClientAt.unsent
    have remaining := step.remaining
    have unread := step.unread (inv.ended i) fresh
    have handlers : s'.handlers counts = s.handlers counts := by
      rw [State.handlers, handler]
      rfl
    rw [Counted] at counted ⊢
    rw [number, handlers, ← counted]
    omega
  · rw [number]
    exact inv.nonneg

theorem HandlerStep.on {u : Tid} (step : HandlerStep t s s') (on : s'.handler u ≠ none) : s.handler u ≠ none := by
  by_cases own : u = t
  · subst own
    cases step <;> simp_all
  · have same : s'.handler u = s.handler u := by cases step <;> simp [State.handle, own]
    rwa [← same]

/-- Each handler counts one request. -/
theorem Undeterred.handlerStep (inv : Undeterred files s) (step : HandlerStep t s s') (answerable : Answerable s')
    (exclusive : Exclusive s') (room : s.handler t = some .count → s.requestNb < 2 ^ 31 - 1) :
    Undeterred files s' := by
  obtain ⟨main, client, pending, stream, _⟩ := step.frame
  have counted := inv.counted
  have nonneg := inv.nonneg
  have handlers := step.handlers counts
  have clients : s'.clients ClientAt.unsent = s.clients ClientAt.unsent := by
    rw [State.clients, client]
    rfl
  have remaining : s'.remaining files = s.remaining files := by
    have unread : s'.unread files = s.unread files := by
      funext j
      simp only [State.unread, client, stream]
    rw [State.remaining, unread]
    rfl
  have number : s'.requestNb + s'.handlers counts = s.requestNb + s.handlers counts ∧ 0 ≤ s'.requestNb := by
    cases step with
    | count here =>
      have upper := room here
      simp only [here, State.handle, State.handlers, Function.update_self, counts] at handlers ⊢
      rw [int32_of_range (by omega) (by omega)]
      omega
    | waitMutex here | double here | postMutex here | postReady here | signal here =>
      simp only [here, State.handle, Function.update_self, counts] at handlers ⊢
      omega
  refine ⟨inv.joined.congr main client, exclusive, answerable, fun j on => ?_, ?_, ?_, number.2⟩
  · rw [client]
    exact inv.free j (step.on on)
  · rw [client, stream]
    exact inv.ended
  · rw [Counted] at counted ⊢
    rw [clients, remaining, pending, ← counted]
    omega

theorem Undeterred.mainStep (inv : Undeterred files s) (step : MainStep s s') (answerable : Answerable s')
    (exclusive : Exclusive s') : Undeterred files s' := by
  obtain ⟨handler, _, number, _, _, pending, stream, _⟩ := step.frame
  have places := step.places inv.joined
  have same (j : Client) : (s'.client j).holds = (s.client j).holds ∧
      (s'.client j).ended = (s.client j).ended ∧ s'.unread files j = s.unread files j := by
    rcases places j with same | ⟨old, new⟩
    · simp only [State.unread, same, stream, and_self]
    · simp only [State.unread, old, new]
      exact ⟨rfl, rfl, trivial⟩
  refine ⟨inv.joined.mainStep step, exclusive, answerable, fun j on => ?_, fun j after => ?_, ?_, ?_⟩
  · rw [(same j).1]
    exact inv.free j (handler ▸ on)
  · rw [stream]
    exact inv.ended j ((same j).2.1 ▸ after)
  · have counted := inv.counted
    have unread : s'.unread files = s.unread files := funext fun j => (same j).2.2
    rw [Counted] at counted ⊢
    rw [number, pending, step.clients inv.joined rfl, State.handlers, handler, State.remaining, unread]
    exact counted
  · rw [number]
    exact inv.nonneg

theorem Undeterred.deliver (inv : Undeterred files s) (raised : s.pending = true) (idle : s.handler t = none)
    (answerable : Answerable ({ s with pending := false }.handle t (some .waitMutex)))
    (exclusive : Exclusive ({ s with pending := false }.handle t (some .waitMutex)))
    (free : ∀ i, t = .client i → (s.client i).holds = 0) :
    Undeterred files ({ s with pending := false }.handle t (some .waitMutex)) := by
  refine ⟨inv.joined.congr rfl rfl, exclusive, answerable, fun j on => ?_, inv.ended, ?_, inv.nonneg⟩
  · by_cases own : .client j = t
    · exact free j own.symm
    · exact inv.free j (by simpa [State.handle, own] using on)
  · have counted := inv.counted
    have moved := handlers_deliver idle counts
    rw [Counted] at counted ⊢
    rw [raised] at counted
    simp only [counts] at moved
    rw [← counted]
    change s.requestNb + (0 + _ + s.clients ClientAt.unsent + s.remaining files : ℕ) = _
    simp only [Bool.toNat_true]
    omega

theorem Undeterred.step (inv : Undeterred files s) (step : Step files s label s') (ok : Undisturbed s label) :
    Undeterred files s' := by
  have answerable : Answerable s' := by
    refine inv.answerable.step inv.joined step ?_
    rintro i left rfl idle here
    exact ok.1 i rfl idle here
  have exclusive : Exclusive s' := inv.exclusive.step inv.joined step
  cases step with
  | main _ moves => exact inv.mainStep moves answerable exclusive
  | client idle moves => exact inv.clientStep idle moves answerable exclusive (ok.1 _ rfl idle)
  | handler moves => exact inv.handlerStep moves answerable exclusive ok.2
  | deliver raised idle => exact inv.deliver raised idle answerable exclusive ok

theorem undeterred_of_reach (reach : (server files).ReachUnder Undisturbed s) : Undeterred files s := by
  refine reach.invariant ?_ fun s s' label _ inv ok moved => inv.step (step_of_next moved).2 ok
  rintro s rfl
  exact undeterred_launch

/-- What a client without a handler on top waits for when it cannot move. -/
theorem waits_of_clientStep (stuck : clientStep files i left s = none) :
    s.client i = .absent ∨ s.client i = .done ∨
      (s.client i = .waitMutex ∨ s.client i = .waitMutex2) ∧ s.mutex = 0 ∨
      s.client i = .waitReady ∧ s.ready = 0 := by
  unfold clientStep at stuck
  split at stuck
  · rename_i here; exact Or.inl here
  · rename_i here; exact Or.inr (Or.inl here)
  · split at stuck <;> cases stuck
  · rename_i here
    split at stuck
    · rename_i taken; exact Or.inr (Or.inr (Or.inl ⟨Or.inl here, taken⟩))
    · cases stuck
  · split at stuck <;> cases stuck
  · cases stuck
  · cases stuck
  · cases stuck
  · cases stuck
  · rename_i here
    split at stuck
    · rename_i none; exact Or.inr (Or.inr (Or.inr ⟨here, none⟩))
    · cases stuck
  · rename_i here
    split at stuck
    · rename_i taken; exact Or.inr (Or.inr (Or.inl ⟨Or.inr here, taken⟩))
    · cases stuck
  · cases stuck
  · cases stuck

theorem taken_of_handlerStep {at' : HandlerAt} (stuck : handlerStep t s at' = none) :
    at' = .waitMutex ∧ s.mutex = 0 := by
  cases at' with
  | waitMutex =>
    change (if s.mutex = 0 then none else _) = none at stuck
    split at stuck
    · rename_i taken; exact ⟨rfl, taken⟩
    · cases stuck
  | double | count | postMutex | postReady | signal => cases stuck

theorem next_client (live : s.main ≠ .returned) (idle : s.handler (.client i) = none) :
    next files s (.run (.client i) left) = clientStep files i left s := by
  simp only [next, if_neg live, idle]

theorem next_handler {at' : HandlerAt} (live : s.main ≠ .returned) (on : s.handler t = some at') :
    next files s (.run t left) = handlerStep t s at' := by
  simp only [next, if_neg live, on]

theorem next_create (idle : s.handler .main = none) (creates : s.main = .create1 ∨ s.main = .create2) :
    next files s (.run .main left) ≠ none := by
  rcases creates with here | here <;> simp [next, mainStep, here, idle]

/-- Whoever holds `mutex` can go on. -/
theorem Undeterred.mutex_free (inv : Undeterred files s) (live : s.main ≠ .returned)
    (stuck : ∀ label, next files s label = none) : s.mutex ≠ 0 := by
  intro taken
  have held := inv.exclusive
  rw [Exclusive, taken] at held
  rcases Nat.eq_zero_or_pos (s.clients ClientAt.holds) with none | some
  · obtain ⟨t, holder⟩ := exists_of_total_pos (show 0 < s.handlers holds by omega)
    cases on : s.handler t with
    | none => rw [on] at holder; cases holder
    | some at' =>
      have waits := (taken_of_handlerStep ((next_handler live on).symm.trans (stuck (.run t 0)))).1
      rw [on, waits] at holder
      cases holder
  · obtain ⟨i, holder⟩ := exists_of_total_pos some
    have idle : s.handler (.client i) = none :=
      Classical.byContradiction fun on => Nat.ne_of_gt holder (inv.free i on)
    rcases waits_of_clientStep ((next_client live idle).symm.trans (stuck (.run (.client i) 0))) with
      here | here | ⟨here | here, _⟩ | ⟨here, _⟩ <;>
      rw [here] at holder <;> cases holder

/-- With `mutex` free every handler can go on. -/
theorem Undeterred.no_handler (inv : Undeterred files s) (live : s.main ≠ .returned)
    (stuck : ∀ label, next files s label = none) (t : Tid) : s.handler t = none := by
  cases on : s.handler t with
  | none => rfl
  | some at' =>
    have taken := (taken_of_handlerStep ((next_handler live on).symm.trans (stuck (.run t 0)))).2
    exact absurd taken (inv.mutex_free live stuck)

/-- Nobody waits for an answer: no signal is pending, and no handler is under way. -/
theorem Undeterred.nobody_waits (inv : Undeterred files s) (live : s.main ≠ .returned)
    (stuck : ∀ label, next files s label = none) (i : Client) : s.client i ≠ .waitReady := by
  intro here
  have idle := inv.no_handler live stuck
  have quiet (weight : Option HandlerAt → ℕ) (none : weight none = 0) : s.handlers weight = 0 :=
    total_eq_zero.mpr fun t => by rw [idle t, none]
  have calm : s.pending = false := by
    refine Bool.eq_false_iff.mpr fun raised => ?_
    have silent := stuck (.deliver .main)
    rw [next, if_pos ⟨live, raised, idle .main, rfl⟩] at silent
    cases silent
  have under := inv.answerable
  rw [Answerable, State.requests, calm, quiet doubles rfl, quiet answers rfl] at under
  have waiting := weight_le_total (fun _ : Client => ClientAt.waits) s.client i
  rw [here] at waiting
  change 1 ≤ s.clients ClientAt.waits at waiting
  rcases waits_of_clientStep ((next_client live (idle _)).symm.trans (stuck (.run (.client i) 0))) with
    there | there | ⟨there | there, _⟩ | ⟨_, none⟩
  · cases here.symm.trans there
  · cases here.symm.trans there
  · cases here.symm.trans there
  · cases here.symm.trans there
  · rw [none] at under
    simp only [Bool.toNat_false] at under
    omega

/-- While a client has not finished, somebody can move. -/
theorem Undeterred.canMove (inv : Undeterred files s) (unfinished : s.client i ≠ .done) :
    ∃ label s', next files s label = some s' := by
  by_contra blocked
  have stuck (label : Label) : next files s label = none :=
    Option.eq_none_iff_forall_ne_some.mpr fun s' moves => blocked ⟨label, s', moves⟩
  have live : s.main ≠ .returned := by
    intro returned
    cases i with
    | client1 => exact unfinished (inv.joined.joined (Or.inr (Or.inr returned)))
    | client2 => exact unfinished (inv.joined.returned (Or.inr returned))
  have idle := inv.no_handler live stuck
  have free := inv.mutex_free live stuck
  rcases waits_of_clientStep ((next_client live (idle _)).symm.trans (stuck (.run (.client i) 0))) with
    here | here | ⟨_, taken⟩ | ⟨here, _⟩
  · have creates := inv.joined.created i here
    exact next_create (idle .main) (creates.imp_right And.left) (stuck (.run .main 0))
  · exact unfinished here
  · exact free taken
  · exact inv.nobody_waits live stuck i here

/-- Once both clients have finished, all their requests have been counted. -/
theorem Undeterred.all_counted (inv : Undeterred files s) (done : ∀ i, s.client i = .done) :
    s.requestNb = total (fun _ : Client => List.length) (contents files) := by
  have none (weight : ClientAt → ℕ) (zero : weight .done = 0) : s.clients weight = 0 :=
    total_eq_zero.mpr fun i => by rw [done i, zero]
  have read : s.remaining files = 0 := by
    refine total_eq_zero.mpr fun i => ?_
    have empty := inv.ended i (by rw [done i]; rfl)
    simp [State.unread, done i, empty, ints]
  have under := inv.answerable
  have uncounted : s.handlers counts ≤ s.handlers doubles + s.handlers answers := by
    rw [State.handlers, State.handlers, State.handlers, total, total, total, ← Finset.sum_add_distrib]
    refine Finset.sum_le_sum fun t _ => ?_
    cases s.handler t with
    | none => exact Nat.zero_le _
    | some at' => cases at' <;> decide
  have counted := inv.counted
  rw [Answerable, State.requests, none ClientAt.waits rfl] at under
  rw [Counted, read, none ClientAt.unsent rfl] at counted
  omega

/-- Somebody can move while a client has not finished its file, and at the end
each int has been counted once. -/
theorem never_stuck (reach : (server files).ReachUnder Undisturbed s) :
    ((∃ i, s.client i ≠ .done) → ∃ label s', (server files).next s label = some s') ∧
    ((∀ i, s.client i = .done) → s.requestNb = total (fun _ : Client => List.length) (contents files)) := by
  have inv := undeterred_of_reach reach
  exact ⟨fun ⟨i, unfinished⟩ => inv.canMove unfinished, inv.all_counted⟩

set_option maxRecDepth 10000 in
/-- One client asks and gets its line while the other one waits. -/
theorem never_stuck_oneAsks : ∃ s, (server oneEach).ReachUnder Undisturbed s ∧ s.client .client2 = .waitMutex ∧
    ∃ label s', (server oneEach).next s label = some s' := by
  have computed : ((server oneEach).runUnder Undisturbed (List.replicate 2 (.run .main 0) ++
      List.replicate 5 (.run (.client .client1) 0) ++ .run (.client .client2) 0 :: .deliver .main ::
      List.replicate 6 (.run .main 0) ++ List.replicate 3 (.run (.client .client1) 0)) launch).map
      (fun s => s.client .client2) = some .waitMutex := by decide
  obtain ⟨s, reached, waits⟩ := Option.map_eq_some_iff.mp computed
  have reach : (server oneEach).ReachUnder Undisturbed s := .of_run (.start rfl) reached
  exact ⟨s, reach, waits, (never_stuck reach).1 ⟨.client2, by rw [waits]; decide⟩⟩

set_option maxRecDepth 10000 in
/-- The handler for the first client's request starts on top of the second client
while that holds `mutex`. -/
theorem handler_on_holder_stuck : ∃ s, (server oneEach).Reach s ∧
    ¬ ((∃ i, s.client i ≠ .done) → ∃ label s', (server oneEach).next s label = some s') := by
  have computed : ((server oneEach).run (List.replicate 2 (.run .main 0) ++
      List.replicate 5 (.run (.client .client1) 0) ++ List.replicate 2 (.run (.client .client2) 0) ++
      [.deliver (.client .client2)]) launch).map
      (fun s => decide (s.main = .join1 ∧ s.client .client1 = .waitReady ∧ s.handler .main = none ∧
        s.handler (.client .client1) = none ∧ s.handler (.client .client2) = some .waitMutex ∧
        s.mutex = 0 ∧ s.ready = 0 ∧ s.pending = false)) = some true := by decide
  obtain ⟨s, reached, state⟩ := Option.map_eq_some_iff.mp computed
  obtain ⟨joins, waits, idle, idle1, handles, mutex, ready, pending⟩ := of_decide_eq_true state
  refine ⟨s, .of_run (.start rfl) reached, fun claim => ?_⟩
  obtain ⟨label, s', moves⟩ := claim ⟨.client1, by rw [waits]; decide⟩
  change next oneEach s label = some s' at moves
  rcases label with ⟨_ | _ | _, left⟩ | t
  · simp [next, mainStep, joins, idle, waits] at moves
  · simp [next, clientStep, joins, idle1, waits, ready] at moves
  · simp [next, handlerStep, joins, handles, mutex] at moves
  · simp [next, pending] at moves

end DeviceProgramming.SignalServer
