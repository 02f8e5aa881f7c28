import DeviceProgramming.SignalServer.Tokens

namespace DeviceProgramming.SignalServer

/-- A client between its `fread` and its line. -/
def ClientAt.outstanding : ClientAt → Bool
  | postMutex | kill | waitReady | waitMutex2 | print => true
  | _ => false

/-- The ints in the file of a client. -/
def contents (files : Files) (i : Client) : List ℤ := (files i).elim [] ints

namespace State

/-- The values in the lines of a client. -/
def printedBy (s : State) (i : Client) : List ℤ := (s.printed.filter (·.1 = i)).map Prod.snd

/-- The ints that a client has still to read. -/
def unread (files : Files) (s : State) (i : Client) : List ℤ := match s.client i with
  | .absent | .fopen => contents files i
  | _ => ints (s.stream i)

/-- What is still to come before the number of a client is doubled. -/
def before (s : State) (i : Client) : ℕ := (s.client i).unsent + s.pending.toNat + s.handlers doubles

end State

/-- A number is read only while the other client has no request, and only such
that its double is an `int`. -/
def OneRequest (s : State) : Label → Prop
  | .run (.client i) _ => s.handler (.client i) = none → s.client i = .fread → s.stream i ≠ [] →
      (∀ j, j ≠ i → (s.client j).outstanding = false) ∧
        ∀ read ∈ readInt (s.stream i), -2 ^ 30 ≤ read.1 ∧ read.1 < 2 ^ 30
  | _ => True

instance (s : State) (label : Label) : Decidable (OneRequest s label) := match label with
  | .run (.client _) _ => inferInstanceAs (Decidable (_ → _ → _ → _))
  | .run .main _ | .deliver _ => isTrue trivial

/-- How far a client is: its lines are the doubles of what it has read, all but
the number it is asking about. -/
inductive Served (files : Files) (s : State) (i : Client) : Prop
  | idle {answered} : (s.client i).outstanding = false → contents files i = answered ++ s.unread files i →
      s.printedBy i = answered.map (2 * ·) → Served files s i
  | asks {answered x} : (s.client i).outstanding = true →
      contents files i = answered ++ x :: s.unread files i → s.printedBy i = answered.map (2 * ·) →
      -2 ^ 30 ≤ x → x < 2 ^ 30 → s.number = (if 0 < s.before i then x else 2 * x) → Served files s i

structure Answering (files : Files) (s : State) : Prop where
  joined : Joined s
  answerable : Answerable s
  alone : ∀ i j, (s.client i).outstanding = true → (s.client j).outstanding = true → i = j
  fresh : ∀ i, s.client i = .absent ∨ s.client i = .fopen → s.stream i = []
  served : ∀ i, Served files s i

variable {files : Files} {s s' : State} {i j : Client} {t : Tid} {left : ℤ} {label : Label}

theorem ClientAt.outstanding_sum (at' : ClientAt) : at'.outstanding.toNat = at'.unsent + at'.waits + at'.answered := by
  cases at' <;> rfl

theorem ints_of_readInt {bytes rest : List UInt8} {x : ℤ} (read : readInt bytes = some (x, rest)) :
    ints bytes = x :: ints rest := by
  unfold readInt at read
  split at read
  · obtain ⟨rfl, rfl⟩ := Prod.mk.inj (Option.some.inj read)
    rfl
  · cases read

theorem ints_of_readInt_none {bytes : List UInt8} (fails : readInt bytes = none) : ints bytes = [] := by
  unfold readInt at fails
  unfold ints
  split at fails
  · cases fails
  · rfl

/-- The request of a client that asks is in exactly one place. -/
theorem Answering.once (inv : Answering files s) (asks : (s.client i).outstanding = true) :
    s.before i + s.handlers answers + s.ready + (s.client i).answered = 1 := by
  have others (j : Client) (other : j ≠ i) : (s.client j).waits = 0 := by
    have quiet : (s.client j).outstanding = false :=
      Bool.eq_false_iff.mpr fun second => other (inv.alone j i second asks)
    have sum := (s.client j).outstanding_sum
    rw [quiet, Bool.toNat_false] at sum
    omega
  have only : s.clients ClientAt.waits = (s.client i).waits :=
    Finset.sum_eq_single i (fun j _ other => others j other) fun absent => absurd (Finset.mem_univ i) absent
  have under := inv.answerable
  have sum := (s.client i).outstanding_sum
  rw [asks, Bool.toNat_true] at sum
  rw [Answerable, State.requests, only] at under
  rw [State.before]
  omega

/-- What a step leaves alone stays as far as it is. -/
theorem Served.congr (served : Served files s i)
    (outstanding : (s'.client i).outstanding = (s.client i).outstanding)
    (unread : s'.unread files i = s.unread files i) (printed : s'.printedBy i = s.printedBy i)
    (number : (s.client i).outstanding = true → s'.number = s.number ∧ (0 < s'.before i ↔ 0 < s.before i)) :
    Served files s' i := by
  cases served with
  | idle quiet all lines => exact .idle (by rw [outstanding, quiet]) (by rw [unread, all]) (by rw [printed, lines])
  | asks asks all lines lower upper value =>
    obtain ⟨same, still⟩ := number asks
    exact .asks (by rw [outstanding, asks]) (by rw [unread, all]) (by rw [printed, lines]) lower upper
      (by simp only [same, still, value])

theorem MainStep.places (step : MainStep s s') (joined : Joined s) (i : Client) :
    s'.client i = s.client i ∨ s.client i = .absent ∧ s'.client i = .fopen := by
  cases step with
  | create1 here => cases i <;> simp [State.goto, joined.create1 here]
  | create2 here => cases i <;> simp [State.goto, joined.create2 (Or.inr here)]
  | join1 | join2 | print => exact Or.inl rfl

theorem Served.mainStep (served : Served files s i) (joined : Joined s) (step : MainStep s s') :
    Served files s' i := by
  obtain ⟨handler, number, _, _, _, pending, stream, printed⟩ := step.frame
  have place := step.places joined i
  refine served.congr ?_ ?_ (by simp only [State.printedBy, printed]) fun _ => ⟨number, ?_⟩
  · rcases place with same | ⟨old, new⟩
    · rw [same]
    · rw [old, new]
      rfl
  · rcases place with same | ⟨old, new⟩
    · simp only [State.unread, same, stream]
    · simp only [State.unread, old, new]
  · rcases place with same | ⟨old, new⟩
    · simp only [State.before, State.handlers, same, pending, handler]
    · simp only [State.before, State.handlers, old, new, pending, handler, ClientAt.unsent]

theorem Served.deliver (served : Served files s i) (raised : s.pending = true) (idle : s.handler t = none) :
    Served files ({ s with pending := false }.handle t (some .waitMutex)) i := by
  have moved := handlers_deliver idle doubles
  refine served.congr rfl rfl rfl fun _ => ⟨rfl, ?_⟩
  simp only [State.before, raised, doubles, Bool.toNat_true] at moved ⊢
  change 0 < (s.client i).unsent + 0 + _ ↔ _
  omega

/-- The handler doubles the number of the only client that asks. -/
theorem Served.handlerStep (served : Served files s i) (inv : Answering files s) (step : HandlerStep t s s') :
    Served files s' i := by
  have doubling := step.handlers doubles
  cases step with
  | double here =>
    simp only [here, State.handle, Function.update_self, doubles] at doubling
    cases served with
    | idle quiet all lines => exact .idle quiet all lines
    | @asks answered x asks all lines lower upper value =>
      have once := inv.once asks
      rw [State.before] at once value
      rw [if_pos (by omega)] at value
      refine .asks asks all lines lower upper ?_
      have done : ¬ 0 < State.before ({ s with number := int32 (s.number * 2) }.handle t (some .count)) i := by
        change ¬ 0 < (s.client i).unsent + s.pending.toNat + _
        simp only [State.handle]
        omega
      rw [if_neg done, value]
      change int32 (x * 2) = 2 * x
      rw [int32_of_range (by omega) (by omega), mul_comm]
  | waitMutex here | count here | postMutex here | postReady here | signal here =>
    simp only [here, State.handle, Function.update_self, doubles, Nat.add_zero] at doubling
    refine served.congr rfl rfl rfl fun _ => ⟨rfl, ?_⟩
    simp only [State.before, State.handle]
    omega

/-- A step of one client leaves the other one as far as it is. -/
theorem Served.otherStep (served : Served files s j) (inv : Answering files s) (other : j ≠ i)
    (step : ClientStep files i left s s')
    (alone : s.client i = .fread → s.stream i ≠ [] → (s.client j).outstanding = false) : Served files s' j := by
  obtain ⟨_, handler, _, _, _, _, others⟩ := step.frame
  obtain ⟨place, stream⟩ := others j other
  have printed : s'.printedBy j = s.printedBy j := by
    cases step <;> simp [State.printedBy, State.goto, Ne.symm other]
  refine served.congr (by rw [place]) (by simp only [State.unread, place, stream]) printed fun asks => ?_
  have quiet : (s.client i).outstanding = false :=
    Bool.eq_false_iff.mpr fun second => other (inv.alone j i asks second)
  simp only [State.before, State.handlers, place, handler]
  cases step with
  | kill here | waitReady here | print here | postMutex here | waitMutex2 here => rw [here] at quiet; cases quiet
  | fread here read =>
    have some : s.stream i ≠ [] := by
      rintro none
      rw [none] at read
      cases read
    rw [alone here some] at asks
    cases asks
  | fail here =>
    by_cases none : s.stream i = []
    · simp [State.goto, none]
    · rw [alone here none] at asks
      cases asks
  | closed | fopen | waitMutex | postMutexEnd | fclose | postMutex2 => exact ⟨rfl, Iff.rfl⟩

/-- A client goes from number to number with the double of each. -/
theorem Served.ownStep (served : Served files s i) (inv : Answering files s) (step : ClientStep files i left s s')
    (range : s.client i = .fread → ∀ read ∈ readInt (s.stream i), -2 ^ 30 ≤ read.1 ∧ read.1 < 2 ^ 30) :
    Served files s' i := by
  have quiet {at' : ClientAt} (here : s.client i = at') (idle : at'.outstanding = false)
      (asks : (s.client i).outstanding = true) : False := by
    rw [here, idle] at asks
    cases asks
  cases step with
  | closed here closed =>
    refine served.congr ?_ ?_ rfl fun asks => (quiet here rfl asks).elim
    · simp [State.goto, here, ClientAt.outstanding]
    · simp [State.unread, State.goto, here, contents, closed, inv.fresh i (Or.inr here), ints]
  | fopen here opens =>
    refine served.congr ?_ ?_ rfl fun asks => (quiet here rfl asks).elim
    · simp [State.goto, here, ClientAt.outstanding]
    · simp [State.unread, State.goto, here, contents, opens]
  | waitMutex here | postMutexEnd here | fclose here | postMutex2 here =>
    refine served.congr ?_ ?_ rfl fun asks => (quiet here rfl asks).elim
    · simp [State.goto, here, ClientAt.outstanding]
    · simp [State.unread, State.goto, here]
  | fail here fails =>
    refine served.congr ?_ ?_ rfl fun asks => (quiet here rfl asks).elim
    · simp [State.goto, here, ClientAt.outstanding]
    · simp [State.unread, State.goto, here, ints_of_readInt_none fails, ints]
  | @fread x rest here read =>
    obtain ⟨lower, upper⟩ := range here (x, rest) read
    cases served with
    | asks asks => exact (quiet here rfl asks).elim
    | @idle answered _ all lines =>
      refine @Served.asks _ _ _ answered x ?_ ?_ lines lower upper ?_
      · simp [State.goto, ClientAt.outstanding]
      · rw [all]
        simp [State.unread, State.goto, here, ints_of_readInt read]
      · rw [if_pos (by simp [State.before, State.goto, ClientAt.unsent])]
        rfl
  | postMutex here | waitReady here | waitMutex2 here =>
    refine served.congr ?_ ?_ rfl fun _ => ⟨rfl, ?_⟩
    · simp [State.goto, here, ClientAt.outstanding]
    · simp [State.unread, State.goto, here]
    · simp [State.before, State.goto, State.handlers, here, ClientAt.unsent]
  | kill here =>
    refine served.congr ?_ ?_ rfl fun _ => ⟨rfl, ?_⟩
    · simp [State.goto, here, ClientAt.outstanding]
    · simp [State.unread, State.goto, here]
    · simp [State.before, State.goto, here, ClientAt.unsent]
  | print here =>
    cases served with
    | idle idle => rw [here] at idle; cases idle
    | @asks answered x asks all lines lower upper value =>
      have once := inv.once asks
      rw [here] at once
      have done : s.before i = 0 := by
        change _ + _ + _ + 1 = 1 at once
        omega
      rw [done, if_neg (Nat.lt_irrefl 0)] at value
      refine @Served.idle _ _ _ (answered ++ [x]) ?_ ?_ ?_
      · simp [State.goto, ClientAt.outstanding]
      · rw [all]
        simp [State.unread, State.goto, here]
      · rw [List.map_append, ← lines]
        simp [State.printedBy, State.goto, value]

/-- Only a read makes a client outstanding. -/
theorem ClientStep.outstanding (step : ClientStep files i left s s') (asks : (s'.client i).outstanding = true) :
    (s.client i).outstanding = true ∨ s.client i = .fread ∧ s.stream i ≠ [] := by
  cases step with
  | fread here read =>
    refine Or.inr ⟨here, ?_⟩
    rintro none
    rw [none] at read
    cases read
  | postMutex here | kill here | waitReady here | waitMutex2 here => exact Or.inl (by rw [here]; rfl)
  | closed | fopen | waitMutex | fail | postMutexEnd | fclose | print | postMutex2 =>
    simp [State.goto, ClientAt.outstanding] at asks

theorem Answering.mainStep (inv : Answering files s) (step : MainStep s s') (answerable : Answerable s') :
    Answering files s' := by
  have places := step.places inv.joined
  have outstanding (i : Client) : (s'.client i).outstanding = (s.client i).outstanding := by
    rcases places i with same | ⟨old, new⟩
    · rw [same]
    · rw [old, new]
      rfl
  refine ⟨inv.joined.mainStep step, answerable, ?_, fun i new => ?_, fun i => (inv.served i).mainStep inv.joined step⟩
  · simpa only [outstanding] using inv.alone
  · rw [step.frame.2.2.2.2.2.2.1]
    rcases places i with same | ⟨old, _⟩
    · exact inv.fresh i (same ▸ new)
    · exact inv.fresh i (Or.inl old)

theorem Answering.clientStep (inv : Answering files s) (step : ClientStep files i left s s')
    (answerable : Answerable s') (ok : s.client i = .fread → s.stream i ≠ [] →
      (∀ j, j ≠ i → (s.client j).outstanding = false) ∧
        ∀ read ∈ readInt (s.stream i), -2 ^ 30 ≤ read.1 ∧ read.1 < 2 ^ 30) :
    Answering files s' := by
  obtain ⟨_, _, _, _, begun, opened, others⟩ := step.frame
  have alone (j : Client) (other : j ≠ i) (asks : (s.client j).outstanding = true)
      (second : (s'.client i).outstanding = true) : False := by
    rcases step.outstanding second with before | ⟨here, some⟩
    · exact other (inv.alone j i asks before)
    · rw [(ok here some).1 j other] at asks
      cases asks
  refine ⟨inv.joined.clientStep step, answerable, fun j k first second => ?_, fun j new => ?_, fun j => ?_⟩
  · by_cases one : j = i
    · by_cases two : k = i
      · rw [one, two]
      · rw [(others k two).1] at second
        exact (alone k two second (one ▸ first)).elim
    · rw [(others j one).1] at first
      by_cases two : k = i
      · exact (alone j one first (two ▸ second)).elim
      · rw [(others k two).1] at second
        exact inv.alone j k first second
  · by_cases own : j = i
    · subst own
      rcases new with absent | first
      · exact absurd absent begun
      · exact absurd first opened
    · obtain ⟨place, stream⟩ := others j own
      rw [stream]
      exact inv.fresh j (place ▸ new)
  · by_cases own : j = i
    · subst own
      refine (inv.served j).ownStep inv step fun here read found => (ok here ?_).2 read found
      rintro none
      rw [none] at found
      cases found
    · exact (inv.served j).otherStep inv own step fun here some => (ok here some).1 j own

theorem Answering.step (inv : Answering files s) (step : Step files s label s') (ok : OneRequest s label) :
    Answering files s' := by
  have answerable : Answerable s' := by
    refine inv.answerable.step inv.joined step fun i left _ idle here => ?_
    have once := inv.once (i := i) (by rw [here]; rfl)
    rw [State.before, here] at once
    cases raised : s.pending with
    | false => rfl
    | true =>
      rw [raised] at once
      change 1 + 1 + _ + _ + _ + _ = 1 at once
      omega
  cases step with
  | main _ moves => exact inv.mainStep moves answerable
  | client idle moves => exact inv.clientStep moves answerable (ok idle)
  | handler moves =>
    obtain ⟨_, client, _, stream, _⟩ := moves.frame
    refine ⟨inv.joined.congr moves.frame.1 client, answerable, ?_, ?_, fun i => (inv.served i).handlerStep inv moves⟩
    · rw [client]
      exact inv.alone
    · rw [client, stream]
      exact inv.fresh
  | deliver raised idle =>
    exact ⟨inv.joined.congr rfl rfl, answerable, inv.alone, inv.fresh, fun i => (inv.served i).deliver raised idle⟩

theorem answering_launch : Answering files launch where
  joined := joined_launch
  answerable := answerable_launch
  alone i j asks := by cases asks
  fresh _ _ := rfl
  served i := @Served.idle _ _ _ [] rfl rfl rfl

theorem answering_of_reach (reach : (server files).ReachUnder OneRequest s) : Answering files s := by
  refine reach.invariant ?_ fun s s' label _ inv ok moved => inv.step (step_of_next moved).2 ok
  rintro s rfl
  exact answering_launch

/-- The numbers a client has read: all but the one it is asking about have been
answered, each with its double. -/
theorem lines_are_doubles (reach : (server files).ReachUnder OneRequest s) (i : Client) :
    ∃ read, contents files i = read ++ s.unread files i ∧
      s.printedBy i = (if (s.client i).outstanding then read.dropLast else read).map (2 * ·) := by
  cases (answering_of_reach reach).served i with
  | @idle answered quiet all lines => exact ⟨answered, all, by rw [quiet, lines]; rfl⟩
  | @asks answered x asks all lines =>
    refine ⟨answered ++ [x], by rw [all]; simp, ?_⟩
    rw [asks, lines, if_pos rfl, List.dropLast_concat]

/-- Two files with one number each. -/
def oneEach : Files
  | .client1 => some [1, 0, 0, 0]
  | .client2 => some [5, 0, 0, 0]

set_option maxRecDepth 10000 in
/-- The second client reads its number once the first one has its line. -/
theorem lines_are_doubles_inTurn : ∃ s, (server oneEach).ReachUnder OneRequest s ∧
    s.printedBy .client1 = [2] ∧ (∃ read, contents oneEach .client1 = read ++ s.unread oneEach .client1 ∧
      s.printedBy .client1 = (if (s.client .client1).outstanding then read.dropLast else read).map (2 * ·)) := by
  have computed : ((server oneEach).runUnder OneRequest (List.replicate 2 (.run .main 0) ++
      List.replicate 5 (.run (.client .client1) 0) ++ .deliver .main :: List.replicate 6 (.run .main 0) ++
      List.replicate 4 (.run (.client .client1) 0) ++ List.replicate 5 (.run (.client .client2) 0)) launch).map
      (fun s => s.printedBy .client1) = some [2] := by decide
  obtain ⟨s, reached, printed⟩ := Option.map_eq_some_iff.mp computed
  have reach : (server oneEach).ReachUnder OneRequest s := .of_run (.start rfl) reached
  exact ⟨s, reach, printed, lines_are_doubles reach .client1⟩

set_option maxRecDepth 10000 in
/-- The second client reads 5 before the handler has doubled the 1 of the first
one, which prints 10. -/
theorem line_of_other_client : ∃ s, (server oneEach).Reach s ∧
    ¬ ∃ read, contents oneEach .client1 = read ++ s.unread oneEach .client1 ∧
      s.printedBy .client1 = (if (s.client .client1).outstanding then read.dropLast else read).map (2 * ·) := by
  have computed : ((server oneEach).run (List.replicate 2 (.run .main 0) ++
      List.replicate 5 (.run (.client .client1) 0) ++ List.replicate 4 (.run (.client .client2) 0) ++
      .deliver .main :: List.replicate 6 (.run .main 0) ++ List.replicate 3 (.run (.client .client1) 0)) launch).map
      (fun s => (s.printedBy .client1, s.client .client1, s.unread oneEach .client1)) =
        some ([10], .postMutex2, []) := by decide
  obtain ⟨s, reached, state⟩ := Option.map_eq_some_iff.mp computed
  simp only [Prod.mk.injEq] at state
  obtain ⟨printed, at', unread⟩ := state
  refine ⟨s, .of_run (.start rfl) reached, ?_⟩
  rintro ⟨read, all, lines⟩
  rw [unread, List.append_nil] at all
  rw [printed, at', ← all] at lines
  revert lines
  decide

end DeviceProgramming.SignalServer
