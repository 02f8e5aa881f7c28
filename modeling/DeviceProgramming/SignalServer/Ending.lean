import DeviceProgramming.Machine.Inevitable
import DeviceProgramming.SignalServer.Progress

namespace DeviceProgramming.SignalServer

/-- The statements that `main` has still ahead of it. -/
def MainAt.ahead : MainAt → ℕ
  | create1 => 5
  | create2 => 4
  | join1 => 3
  | join2 => 2
  | print => 1
  | returned => 0

/-- The statements that a client has ahead of it until it reads again; a signal that it
has still to send counts for the handler, too. -/
def ClientAt.ahead : ClientAt → ℕ
  | absent => 7
  | fopen => 6
  | waitMutex => 5
  | fread => 4
  | postMutexEnd => 3
  | fclose => 2
  | postMutex => 20
  | kill => 19
  | waitReady => 11
  | waitMutex2 => 10
  | print => 9
  | postMutex2 => 8
  | done => 0

/-- The statements that a handler has still ahead of it. -/
def handlerAhead : Option HandlerAt → ℕ
  | none => 0
  | some .waitMutex => 6
  | some .double => 5
  | some .count => 4
  | some .postMutex => 3
  | some .postReady => 2
  | some .signal => 1

/-- The measure that every step lowers: each number that is still to be read takes its
client once round the loop. -/
def State.ahead (files : Files) (s : State) : ℕ :=
  s.main.ahead + 17 * s.remaining files + s.clients ClientAt.ahead + s.handlers handlerAhead + 7 * s.pending.toNat

variable {files : Files} {s s' : State} {i : Client} {t : Tid} {left : ℤ} {label : Label}

theorem MainStep.unread (step : MainStep s s') (joined : Joined s) : s'.unread files = s.unread files := by
  funext i
  obtain ⟨_, _, _, _, _, _, stream, _⟩ := step.frame
  rcases step.places joined i with same | ⟨old, new⟩
  · simp only [State.unread, same, stream]
  · simp only [State.unread, old, new]

theorem MainStep.ahead_lt (step : MainStep s s') (joined : Joined s) : s'.ahead files < s.ahead files := by
  obtain ⟨handler, _, _, _, _, pending, _, _⟩ := step.frame
  have below : s'.main.ahead < s.main.ahead ∧ s'.clients ClientAt.ahead ≤ s.clients ClientAt.ahead := by
    cases step with
    | create1 here =>
      have moved := total_update (fun _ : Client => ClientAt.ahead) s.client .client1 .fopen
      rw [joined.create1 here] at moved
      rw [here]
      exact ⟨Nat.lt_succ_self _, Nat.le_of_lt (Nat.lt_of_add_lt_add_right (moved.trans_lt (Nat.lt_succ_self _)))⟩
    | create2 here =>
      have moved := total_update (fun _ : Client => ClientAt.ahead) s.client .client2 .fopen
      rw [joined.create2 (Or.inr here)] at moved
      rw [here]
      exact ⟨Nat.lt_succ_self _, Nat.le_of_lt (Nat.lt_of_add_lt_add_right (moved.trans_lt (Nat.lt_succ_self _)))⟩
    | join1 here | join2 here | print here =>
      rw [here]
      exact ⟨Nat.lt_succ_self _, le_rfl⟩
  unfold State.ahead
  rw [pending, State.handlers, handler, State.remaining, step.unread joined]
  change _ < s.main.ahead + 17 * s.remaining files + s.clients ClientAt.ahead + s.handlers handlerAhead + _
  change _ + 17 * s.remaining files + _ + s.handlers handlerAhead + _ < _
  omega

theorem ClientStep.ahead_lt (step : ClientStep files i left s s') (ended : (s.client i).ended = true → s.stream i = [])
    (fresh : s.client i = .kill → s.pending = false) : s'.ahead files < s.ahead files := by
  obtain ⟨main, handler, _⟩ := step.frame
  have clients := step.clients ClientAt.ahead
  have remaining := step.remaining
  have unread := step.unread ended fresh
  unfold State.ahead
  rw [main, State.handlers, handler]
  change _ + _ + _ + s.handlers handlerAhead + _ < _
  cases step with
  | kill here =>
    have absent := fresh here
    simp only [here, absent, State.goto, Function.update_self, ClientAt.ahead, ClientAt.unsent, Bool.toNat_true,
      Bool.toNat_false] at clients unread remaining ⊢
    omega
  | closed here | fopen here | waitMutex here | fread here | fail here | postMutexEnd here | fclose here
  | postMutex here | waitReady here | waitMutex2 here | print here | postMutex2 here =>
    simp only [here, State.goto, Function.update_self, ClientAt.ahead, ClientAt.unsent] at clients unread remaining ⊢
    omega

theorem HandlerStep.ahead_lt (step : HandlerStep t s s') : s'.ahead files < s.ahead files := by
  obtain ⟨main, client, pending, stream, _⟩ := step.frame
  have unread : s'.unread files = s.unread files := by
    funext i
    simp only [State.unread, client, stream]
  have handlers := step.handlers handlerAhead
  unfold State.ahead
  rw [main, pending, State.clients, client, State.remaining, unread]
  change _ + 17 * s.remaining files + s.clients ClientAt.ahead + _ + _ < _
  cases step with
  | waitMutex here | double here | count here | postMutex here | postReady here | signal here =>
    simp only [here, State.handle, Function.update_self, handlerAhead] at handlers ⊢
    omega

theorem Undeterred.ahead_lt (inv : Undeterred files s) (step : Step files s label s') (ok : Undisturbed s label) :
    s'.ahead files < s.ahead files := by
  cases step with
  | main _ moves => exact moves.ahead_lt inv.joined
  | @client i _ _ idle moves => exact moves.ahead_lt (inv.ended i) (ok.1 i rfl idle)
  | handler moves => exact moves.ahead_lt
  | deliver raised idle =>
    have handlers := handlers_deliver idle handlerAhead
    unfold State.ahead
    rw [raised]
    simp only [handlerAhead] at handlers
    change s.main.ahead + 17 * s.remaining files + s.clients ClientAt.ahead + _ + 7 * 0 < _ + 7 * 1
    omega

/-- The numbers in the two files. -/
def numbers (files : Files) : ℕ := total (fun _ : Client => List.length) (contents files)

/-- A step that the kernel can let the process take without disturbing it. -/
def CanGoOn (files : Files) (s : State) : Prop := ∃ label s', Undisturbed s label ∧ next files s label = some s'

theorem canGoOn_of_ne (ok : Undisturbed s label) (moves : next files s label ≠ none) : CanGoOn files s := by
  obtain ⟨s', moved⟩ := Option.ne_none_iff_exists'.mp moves
  exact ⟨label, s', ok, moved⟩

/-- A handler that runs has room to count its request. -/
theorem Undeterred.undisturbed (inv : Undeterred files s) (small : numbers files < 2 ^ 31)
    (on : s.handler t ≠ none) : Undisturbed s (.run t left) := by
  refine ⟨fun i own idle => absurd idle (own ▸ on), fun here => ?_⟩
  have counted := inv.counted
  have one := weight_le_total (fun _ : Tid => counts) s.handler t
  rw [here] at one
  change 1 ≤ s.handlers counts at one
  rw [Counted] at counted
  unfold numbers at small
  omega

/-- Whoever holds `mutex` can go on. -/
theorem Undeterred.holder_goes (inv : Undeterred files s) (small : numbers files < 2 ^ 31) (live : s.main ≠ .returned)
    (taken : s.mutex = 0) : CanGoOn files s := by
  have held := inv.exclusive
  rw [Exclusive, taken] at held
  rcases Nat.eq_zero_or_pos (s.clients ClientAt.holds) with none | some
  · obtain ⟨t, holder⟩ := exists_of_total_pos (show 0 < s.handlers holds by omega)
    cases on : s.handler t with
    | none => rw [on] at holder; cases holder
    | some at' =>
      have ok : Undisturbed s (.run t 0) := inv.undisturbed small (by simp [on])
      refine canGoOn_of_ne ok fun stuck => ?_
      have waits := (taken_of_handlerStep ((next_handler live on).symm.trans stuck)).1
      rw [on, waits] at holder
      cases holder
  · obtain ⟨i, holder⟩ := exists_of_total_pos some
    have idle : s.handler (.client i) = none :=
      Classical.byContradiction fun on => Nat.ne_of_gt holder (inv.free i on)
    have ok : Undisturbed s (.run (.client i) 0) := by
      refine ⟨fun j own _ here => ?_, fun here => by rw [idle] at here; cases here⟩
      cases own
      rw [here] at holder
      cases holder
    refine canGoOn_of_ne ok fun stuck => ?_
    rcases waits_of_clientStep ((next_client live idle).symm.trans stuck) with
      here | here | ⟨here | here, _⟩ | ⟨here, _⟩ <;> rw [here] at holder <;> cases holder

/-- While a handler is under way, it or the holder of `mutex` can go on. -/
theorem Undeterred.handler_goes (inv : Undeterred files s) (small : numbers files < 2 ^ 31)
    (live : s.main ≠ .returned) (on : s.handler t ≠ none) : CanGoOn files s := by
  obtain ⟨at', here⟩ := Option.ne_none_iff_exists'.mp on
  by_cases stuck : next files s (.run t 0) = none
  · exact inv.holder_goes small live (taken_of_handlerStep ((next_handler live here).symm.trans stuck)).2
  · exact canGoOn_of_ne (inv.undisturbed small on) stuck

/-- A pending signal can be delivered to `main`. -/
theorem Undeterred.signal_goes (inv : Undeterred files s) (small : numbers files < 2 ^ 31)
    (live : s.main ≠ .returned) (raised : s.pending = true) : CanGoOn files s := by
  by_cases idle : s.handler .main = none
  · have ok : Undisturbed s (.deliver .main) := fun i own => by cases own
    refine canGoOn_of_ne ok ?_
    rw [next, if_pos ⟨live, raised, idle, rfl⟩]
    exact Option.some_ne_none _
  · exact inv.handler_goes small live idle

/-- A client that waits for an answer has its request under way. -/
theorem Undeterred.request_goes (inv : Undeterred files s) (small : numbers files < 2 ^ 31)
    (live : s.main ≠ .returned) (waits : s.client i = .waitReady) (none : s.ready = 0) : CanGoOn files s := by
  have under := inv.answerable
  have one := weight_le_total (fun _ : Client => ClientAt.waits) s.client i
  rw [waits] at one
  change 1 ≤ s.clients ClientAt.waits at one
  rw [Answerable, State.requests, none] at under
  cases raised : s.pending with
  | true => exact inv.signal_goes small live raised
  | false =>
    rw [raised, Bool.toNat_false] at under
    have handled : ∃ t, s.handler t ≠ .none := by
      rcases Nat.eq_zero_or_pos (s.handlers doubles) with zero | some
      · obtain ⟨t, answers⟩ := exists_of_total_pos (show 0 < s.handlers answers by omega)
        exact ⟨t, fun idle => by rw [idle] at answers; cases answers⟩
      · obtain ⟨t, doubles⟩ := exists_of_total_pos some
        exact ⟨t, fun idle => by rw [idle] at doubles; cases doubles⟩
    obtain ⟨t, on⟩ := handled
    exact inv.handler_goes small live on

theorem Undeterred.client_goes (inv : Undeterred files s) (small : numbers files < 2 ^ 31)
    (live : s.main ≠ .returned) (begun : s.client i ≠ .absent) (unfinished : s.client i ≠ .done) :
    CanGoOn files s := by
  by_cases idle : s.handler (.client i) = none
  · cases raised : s.pending with
    | true => exact inv.signal_goes small live raised
    | false =>
      have ok : Undisturbed s (.run (.client i) 0) :=
        ⟨fun _ _ _ _ => raised, fun here => by rw [idle] at here; cases here⟩
      by_cases stuck : next files s (.run (.client i) 0) = none
      · rcases waits_of_clientStep ((next_client live idle).symm.trans stuck) with
          absent | done | ⟨_, taken⟩ | ⟨waits, none⟩
        · exact absurd absent begun
        · exact absurd done unfinished
        · exact inv.holder_goes small live taken
        · exact inv.request_goes small live waits none
      · exact canGoOn_of_ne ok stuck
  · exact inv.handler_goes small live idle

/-- `main` goes on when the clients that it has created are done. -/
theorem next_main (joined : Joined s) (live : s.main ≠ .returned) (idle : s.handler .main = none)
    (done : ∀ i, s.client i ≠ .absent → s.client i = .done) : next files s (.run .main left) ≠ none := by
  have created (i : Client) (new : s.main ≠ .create1 ∧ s.main ≠ .create2) : s.client i = .done := by
    refine done i fun absent => ?_
    rcases joined.created i absent with first | ⟨second, _⟩
    · exact new.1 first
    · exact new.2 second
  cases here : s.main with
  | create1 => exact next_create idle (Or.inl here)
  | create2 => exact next_create idle (Or.inr here)
  | join1 => simp [next, mainStep, here, idle, created .client1 (by simp [here])]
  | join2 => simp [next, mainStep, here, idle, created .client2 (by simp [here])]
  | print => simp [next, mainStep, here, idle]
  | returned => exact absurd here live

/-- Until `main` returns, the process can go on. -/
theorem Undeterred.goes (inv : Undeterred files s) (small : numbers files < 2 ^ 31) (live : s.main ≠ .returned) :
    CanGoOn files s := by
  by_cases working : ∃ i, s.client i ≠ .absent ∧ s.client i ≠ .done
  · obtain ⟨i, begun, unfinished⟩ := working
    exact inv.client_goes small live begun unfinished
  · by_cases idle : s.handler .main = none
    · have ok : Undisturbed s (.run .main 0) :=
        ⟨fun i own => (by cases own), fun here => by rw [idle] at here; cases here⟩
      refine canGoOn_of_ne ok (next_main inv.joined live idle fun i begun => ?_)
      exact Classical.byContradiction fun unfinished => working ⟨i, begun, unfinished⟩
    · exact inv.handler_goes small live idle

/-- A client prints one line for each number that it has read and that is not on its way,
and `main` reports the requests at its end. -/
structure Shown (files : Files) (s : State) : Prop where
  lines : ∀ i, (s.printedBy i).length + (s.client i).outstanding.toNat + (s.unread files i).length =
    (contents files i).length
  reported : s.main = .returned → s.reported = some s.requestNb

theorem shown_launch : Shown files launch where
  lines i := by simp [launch, State.printedBy, State.unread, ClientAt.outstanding]
  reported := by simp [launch]

theorem ClientStep.lines (step : ClientStep files i left s s') (ended : (s.client i).ended = true → s.stream i = []) :
    (s'.printedBy i).length + (s'.client i).outstanding.toNat + (s'.unread files i).length =
      (s.printedBy i).length + (s.client i).outstanding.toNat + (s.unread files i).length := by
  cases step with
  | closed here closed =>
    have none := ended (by rw [here]; rfl)
    simp [State.unread, State.printedBy, State.goto, here, contents, closed, none, ints, ClientAt.outstanding]
  | fopen here opens =>
    simp [State.unread, State.printedBy, State.goto, here, contents, opens, ClientAt.outstanding]
  | fread here read =>
    simp only [State.unread, State.printedBy, State.goto, here, Function.update_self, ints_of_readInt read,
      List.length_cons, ClientAt.outstanding, Bool.toNat_true, Bool.toNat_false]
    omega
  | fail here fails =>
    simp [State.unread, State.printedBy, State.goto, here, ints_of_readInt_none fails, ints, ClientAt.outstanding]
  | print here =>
    simp [State.unread, State.printedBy, State.goto, here, ClientAt.outstanding]
  | waitMutex here | postMutexEnd here | fclose here | postMutex here | kill here | waitReady here | waitMutex2 here
  | postMutex2 here =>
    simp [State.unread, State.printedBy, State.goto, here, ClientAt.outstanding]

theorem Shown.step (shown : Shown files s) (inv : Undeterred files s) (live : s.main ≠ .returned)
    (step : Step files s label s') : Shown files s' := by
  cases step with
  | main _ moves =>
    refine ⟨fun j => ?_, fun over' => ?_⟩
    · have lines := shown.lines j
      have unread : s'.unread files = s.unread files := moves.unread inv.joined
      obtain ⟨_, _, _, _, _, _, _, printed⟩ := moves.frame
      have place : (s'.client j).outstanding = (s.client j).outstanding := by
        rcases moves.places inv.joined j with same | ⟨old, new⟩
        · rw [same]
        · rw [old, new]
          rfl
      rw [place, unread, State.printedBy, printed]
      exact lines
    · cases moves with
      | create1 | create2 | join1 | join2 => cases over'
      | print => rfl
  | @client i _ _ _ moves =>
    obtain ⟨main, _, _, _, _, _, others⟩ := moves.frame
    refine ⟨fun j => ?_, fun over' => absurd (main ▸ over') live⟩
    by_cases own : j = i
    · subst own
      rw [moves.lines (inv.ended j)]
      exact shown.lines j
    · obtain ⟨place, stream⟩ := others j own
      have printed : s'.printedBy j = s.printedBy j := by
        cases moves <;> simp [State.printedBy, State.goto, Ne.symm own]
      have lines := shown.lines j
      simp only [State.unread] at lines ⊢
      rw [printed, place, stream]
      exact lines
  | handler moves =>
    obtain ⟨main, client, _, stream, printed⟩ := moves.frame
    refine ⟨fun j => ?_, fun over' => absurd (main ▸ over') live⟩
    have lines := shown.lines j
    simp only [State.unread, State.printedBy] at lines ⊢
    rw [printed, client, stream]
    exact lines
  | deliver => exact ⟨shown.lines, fun over' => absurd over' live⟩

/-- Every run of the server in which the kernel starts the handler on threads that do not hold
`mutex`, and no signal is absorbed, ends with a line for each number and with their number reported. -/
theorem server_ends (files : Files) (small : numbers files < 2 ^ 31) :
    ((server files).under Undisturbed).Inevitable (fun _ _ => True)
      (fun s => s.main = .returned ∧ s.reported = some (numbers files : ℤ) ∧
        ∀ i, s.client i = .done ∧ (s.printedBy i).length = (contents files i).length) launch := by
  refine System.Inevitable.under_of_history (fun s (_ : Unit) => Undeterred files s ∧ Shown files s)
    (fun s _ => s.ahead files) ?_ ?_ (g := ()) ⟨undeterred_launch, shown_launch⟩
  · rintro s _ ⟨inv, shown⟩ away
    refine inv.goes small fun returned => away ?_
    have done (i : Client) : s.client i = .done := by
      cases i with
      | client1 => exact inv.joined.joined (Or.inr (Or.inr returned))
      | client2 => exact inv.joined.returned (Or.inr returned)
    refine ⟨returned, ?_, fun i => ⟨done i, ?_⟩⟩
    · rw [shown.reported returned, inv.all_counted done]
      rfl
    · have lines := shown.lines i
      have empty := inv.ended i (by rw [done i]; rfl)
      simpa [State.unread, done i, empty, ints, ClientAt.outstanding] using lines
  · rintro s _ label s' ⟨inv, shown⟩ _ ok moved
    obtain ⟨live, step⟩ := step_of_next moved
    exact ⟨(), ⟨inv.step step ok, shown.step inv live step⟩, inv.ahead_lt step ok⟩

/-- Each of two clients asks for one number. -/
theorem server_ends_oneEach : ((server oneEach).under Undisturbed).Inevitable (fun _ _ => True)
    (fun s => s.main = .returned ∧ s.reported = some (2 : ℤ) ∧
      ∀ i, s.client i = .done ∧ (s.printedBy i).length = 1) launch := by
  have ends := server_ends oneEach (by decide)
  have one (i : Client) : (contents oneEach i).length = 1 := by cases i <;> rfl
  simp only [one] at ends
  exact ends

end DeviceProgramming.SignalServer
