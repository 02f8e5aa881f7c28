import DeviceProgramming.Concatenate.Moves
import DeviceProgramming.FileConcatenate.ThreadFunc

namespace DeviceProgramming.FileConcatenate

open Concatenate (Name Stmt Lock special)

/-- The rounds of the two scans, with what they leave in the memory and where they lead. -/
inductive Scan (input : Input) (m : Memory) (l : Locals) : Stmt → Memory → Point → Prop
  | error1 : input.isError = true → Scan input m l .scan1 { m with dName := input.dName }
      ⟨.left, { l with cont := false, next1 := false, filehead1 := none }⟩
  | end1 : input.isError = false → m.atEnd input = true → l.rewinded = true →
      Scan input m l .scan1 { m with dName := input.dName } ⟨.left, { l with cont := false, filehead1 := none }⟩
  | rewind1 : input.isError = false → m.atEnd input = true → l.rewinded = false → input.listing.Perm m.names →
      Scan input m l .scan1 { m with dName := input.dName, stream := input.listing }
        (if l.next1 then ⟨.scan1, { l with rewinded := true, filehead1 := none }⟩
          else ⟨.scan2, { l with rewinded := false, filehead1 := none }⟩)
  | skip1 {entry rest} : input.isError = false → m.atEnd input = false → m.stream = entry :: rest →
      input.dName input.slot = entry → special entry = true →
      Scan input m l .scan1 { m with dName := input.dName, stream := rest }
        ⟨.scan1, { l with next1 := true, filehead1 := some input.slot }⟩
  | found1 {entry rest} : input.isError = false → m.atEnd input = false → m.stream = entry :: rest →
      input.dName input.slot = entry → special entry = false →
      Scan input m l .scan1 { m with dName := input.dName, stream := rest }
        ⟨.scan2, { l with next1 := false, rewinded := false, filehead1 := some input.slot }⟩
  | error2 : input.isError = true → Scan input m l .scan2 { m with dName := input.dName }
      (if l.next2 then ⟨.scan2, { l with cont := false, filehead2 := none }⟩
        else selected { l with cont := false, filehead2 := none })
  | end2 : input.isError = false → m.atEnd input = true → l.rewinded = true →
      Scan input m l .scan2 { m with dName := input.dName } ⟨.left, { l with cont := false, filehead2 := none }⟩
  | rewind2 : input.isError = false → m.atEnd input = true → l.rewinded = false → input.listing.Perm m.names →
      Scan input m l .scan2 { m with dName := input.dName, stream := input.listing }
        (if l.next2 then ⟨.scan2, { l with rewinded := true, filehead2 := none }⟩
          else selected { l with rewinded := true, filehead2 := none })
  | skip2 {entry rest} : input.isError = false → m.atEnd input = false → m.stream = entry :: rest →
      input.dName input.slot = entry → special entry = true →
      Scan input m l .scan2 { m with dName := input.dName, stream := rest }
        ⟨.scan2, { l with next2 := true, filehead2 := some input.slot }⟩
  | null2 {entry rest} : input.isError = false → m.atEnd input = false → m.stream = entry :: rest →
      input.dName input.slot = entry → special entry = false → l.filehead1 = none →
      Scan input m l .scan2 { m with dName := input.dName, stream := rest, crashed := true }
        ⟨.scan2, { l with filehead2 := some input.slot }⟩
  | same2 {entry rest first} : input.isError = false → m.atEnd input = false → m.stream = entry :: rest →
      input.dName input.slot = entry → special entry = false → l.filehead1 = some first → input.dName first = entry →
      Scan input m l .scan2 { m with dName := input.dName, stream := rest }
        ⟨.scan2, { l with next2 := true, filehead2 := some input.slot }⟩
  | found2 {entry rest first} : input.isError = false → m.atEnd input = false → m.stream = entry :: rest →
      input.dName input.slot = entry → special entry = false → l.filehead1 = some first → input.dName first ≠ entry →
      Scan input m l .scan2 { m with dName := input.dName, stream := rest }
        (selected { l with next2 := false, filehead2 := some input.slot })

/-- What a statement after the critical section does to what the scans use. -/
structure Works (m : Memory) (p : Point) (m' : Memory) (next : Point) : Prop where
  stream : m'.stream = m.stream
  dName : m'.dName = m.dName
  cont : next.locals.cont = p.locals.cont
  filehead1 : next.locals.filehead1 = p.locals.filehead1
  filehead2 : next.locals.filehead2 = p.locals.filehead2
  stmt : next.stmt = .lock ∧ m'.crashed = m.crashed ∨ next.stmt.works = true

/-- A step of a thread: it takes or gives back the lock, or executes a statement. -/
inductive Turn {K : ℕ} (layout : Layout) (t : Fin K) (input : Input) (s s' : State K) (next : Point) : Prop
  | lock : (s.pc t).stmt = .lock → s.owner .dirLock = none → s'.mem = s.mem →
      s'.owner = Function.update s.owner .dirLock (some t) →
      next = ⟨.scan1, { (s.pc t).locals with rewinded := false }⟩ → Turn layout t input s s' next
  | unlock : (s.pc t).stmt = .unlock → s'.mem = s.mem → s'.owner = Function.update s.owner .dirLock none →
      next = ⟨.open1, (s.pc t).locals⟩ → Turn layout t input s s' next
  | scan : Scan input s.mem (s.pc t).locals (s.pc t).stmt s'.mem next → s'.owner = s.owner →
      Turn layout t input s s' next
  | work {effect} : (s.pc t).stmt.works = true → threadFunc layout (s.pc t) = .exec effect →
      effect input s.mem = some (s'.mem, next) → s'.owner = s.owner → Works s.mem (s.pc t) s'.mem next →
      Turn layout t input s s' next

variable {layout : Layout} {K : ℕ} {s s' : State K} {t : Fin K} {input : Input} {m m' : Memory} {l : Locals}
  {p next : Point}

theorem rewinddir_eq_some {listing : List Name} (rewound : m.rewinddir listing = some m') :
    listing.Perm m.names ∧ m' = { m with stream := listing } := by
  obtain ⟨directory, moved, rfl⟩ := Option.map_eq_some_iff.mp rewound
  obtain ⟨lists, rfl⟩ := Concatenate.rewinddir_eq_some moved
  exact ⟨lists, rfl⟩

theorem scan_of_scan1 (run : scan1 l input m = some (m', next)) : Scan input m l .scan1 m' next := by
  unfold scan1 at run
  dsimp only at run
  split at run
  · rename_i error
    cases Option.some.inj run
    exact .error1 error
  · rename_i fine
    have fine : input.isError = false := Bool.eq_false_iff.mpr fine
    split at run
    · rename_i ends
      split at run
      · rename_i again
        cases Option.some.inj run
        exact .end1 fine ends again
      · rename_i once
        obtain ⟨rewound, moved, same⟩ := Option.map_eq_some_iff.mp run
        obtain ⟨lists, rfl⟩ := rewinddir_eq_some moved
        cases same
        exact .rewind1 fine ends (Bool.eq_false_iff.mpr once) lists
    · rename_i more
      have more : m.atEnd input = false := Bool.eq_false_iff.mpr more
      split at run
      · cases run
      · rename_i entry rest here
        split at run
        · cases run
        · rename_i named
          split at run
          · rename_i skips
            cases Option.some.inj run
            exact .skip1 fine more here (not_not.mp named) skips
          · rename_i found
            cases Option.some.inj run
            exact .found1 fine more here (not_not.mp named) (Bool.eq_false_iff.mpr found)

theorem scan_of_scan2 (run : scan2 l input m = some (m', next)) : Scan input m l .scan2 m' next := by
  unfold scan2 at run
  dsimp only at run
  split at run
  · rename_i error
    cases Option.some.inj run
    exact .error2 error
  · rename_i fine
    have fine : input.isError = false := Bool.eq_false_iff.mpr fine
    split at run
    · rename_i ends
      split at run
      · rename_i again
        cases Option.some.inj run
        exact .end2 fine ends again
      · rename_i once
        obtain ⟨rewound, moved, same⟩ := Option.map_eq_some_iff.mp run
        obtain ⟨lists, rfl⟩ := rewinddir_eq_some moved
        cases same
        exact .rewind2 fine ends (Bool.eq_false_iff.mpr once) lists
    · rename_i more
      have more : m.atEnd input = false := Bool.eq_false_iff.mpr more
      split at run
      · cases run
      · rename_i entry rest here
        split at run
        · cases run
        · rename_i named
          have named := not_not.mp named
          split at run
          · rename_i skips
            cases Option.some.inj run
            exact .skip2 fine more here named skips
          · rename_i ordinary
            have ordinary : special entry = false := Bool.eq_false_iff.mpr ordinary
            split at run
            · rename_i null
              cases Option.some.inj run
              exact .null2 fine more here named ordinary null
            · rename_i first head
              split at run
              · rename_i same
                cases Option.some.inj run
                exact .same2 fine more here named ordinary head same
              · rename_i differs
                cases Option.some.inj run
                exact .found2 fine more here named ordinary head differs

section
variable (m) (fails : Bool) (name hardlink : Name) (filename : Option Name)

@[simp] theorem unlink_stream : (m.unlink fails name).stream = m.stream := by
  unfold Memory.unlink
  split <;> simp

@[simp] theorem unlink_dName : (m.unlink fails name).dName = m.dName := by
  unfold Memory.unlink
  split <;> rfl

@[simp] theorem create_stream : (m.create fails name).2.stream = m.stream := by
  unfold Memory.create
  split <;> simp

@[simp] theorem create_dName : (m.create fails name).2.dName = m.dName := by
  unfold Memory.create
  split <;> rfl

theorem link_frame : m.link fails filename hardlink = { m with dir := (m.link fails filename hardlink).dir } := by
  unfold Memory.link
  split
  · rfl
  · split <;> rfl

@[simp] theorem link_stream : (m.link fails filename hardlink).stream = m.stream := by rw [link_frame]

@[simp] theorem link_dName : (m.link fails filename hardlink).dName = m.dName := by rw [link_frame]

theorem unlinkTmp_frame : m.unlinkTmp fails filename = { m with tmp := (m.unlinkTmp fails filename).tmp } := by
  unfold Memory.unlinkTmp
  split
  · rfl
  · split <;> rfl

@[simp] theorem unlinkTmp_stream : (m.unlinkTmp fails filename).stream = m.stream := by rw [unlinkTmp_frame]

@[simp] theorem unlinkTmp_crashed : (m.unlinkTmp fails filename).crashed = m.crashed := by rw [unlinkTmp_frame]

@[simp] theorem unlinkTmp_dName : (m.unlinkTmp fails filename).dName = m.dName := by rw [unlinkTmp_frame]

theorem works_afterRead1 (result : Option (List UInt8)) : (afterRead1 result).works = true := by
  cases result with
  | none => rfl
  | some buffer => rw [afterRead1]; split <;> rfl

theorem works_afterRead2 (result : Option (List UInt8)) : (afterRead2 result).works = true := by
  cases result with
  | none => rfl
  | some buffer => rw [afterRead2]; split <;> rfl

variable (l : Locals)

theorem works_open1 : Works m ⟨.open1, l⟩ (open1 l fails m).1 (open1 l fails m).2 := by
  unfold open1
  split
  · exact ⟨rfl, rfl, rfl, rfl, rfl, Or.inr rfl⟩
  · refine ⟨rfl, rfl, rfl, rfl, rfl, ?_⟩
    dsimp only
    split
    · exact Or.inl ⟨rfl, rfl⟩
    · exact Or.inr rfl

theorem works_open2 : Works m ⟨.open2, l⟩ (open2 l fails m).1 (open2 l fails m).2 := by
  unfold open2
  split
  · exact ⟨rfl, rfl, rfl, rfl, rfl, Or.inr rfl⟩
  · refine ⟨rfl, rfl, rfl, rfl, rfl, ?_⟩
    dsimp only
    split
    · exact Or.inl ⟨rfl, rfl⟩
    · exact Or.inr rfl

theorem works_openDest : Works m ⟨.openDest, l⟩ (openDest layout l fails m).1 (openDest layout l fails m).2 := by
  unfold openDest
  split
  · exact ⟨rfl, rfl, rfl, rfl, rfl, Or.inr rfl⟩
  · exact ⟨create_stream .., create_dName .., rfl, rfl, rfl, Or.inr rfl⟩

theorem works_writeDest {stmt : Stmt} (input : Input) (buffer : List UInt8) {next : Stmt} (works : next.works = true) :
    Works m ⟨stmt, l⟩ (writeDest l input buffer next m).1 (writeDest l input buffer next m).2 := by
  unfold writeDest
  split
  · exact ⟨rfl, rfl, rfl, rfl, rfl, Or.inr works⟩
  · dsimp only
    split
    · exact ⟨rfl, rfl, rfl, rfl, rfl, Or.inr works⟩
    · exact ⟨rfl, rfl, rfl, rfl, rfl, Or.inr works⟩

theorem works_link : Works m ⟨.link, l⟩ (link layout l fails m).1 (link layout l fails m).2 := by
  unfold link
  split
  · exact ⟨link_stream .., link_dName .., rfl, rfl, rfl, Or.inr rfl⟩
  · exact ⟨link_stream .., link_dName .., rfl, rfl, rfl, Or.inr rfl⟩
  · exact ⟨rfl, rfl, rfl, rfl, rfl, Or.inr rfl⟩

end

theorem Works.of_eq {result : Memory × Point} (works : Works m p result.1 result.2)
    (same : some result = some (m', next)) : Works m p m' next := by
  cases Option.some.inj same
  exact works

/-- An executed statement is a round of a scan or works on the selected files. -/
theorem move_of_exec {effect : Input → Memory → Option (Memory × Point)} (here : threadFunc layout p = .exec effect)
    (run : effect input m = some (m', next)) :
    Scan input m p.locals p.stmt m' next ∨ p.stmt.works = true ∧ Works m p m' next := by
  obtain ⟨stmt, l⟩ := p
  cases stmt with
  | lock | unlock => cases here
  | left => cases here; cases run
  | scan1 => cases here; exact Or.inl (scan_of_scan1 run)
  | scan2 => cases here; exact Or.inl (scan_of_scan2 run)
  | open1 => cases here; exact Or.inr ⟨rfl, (works_open1 m input.fails l).of_eq run⟩
  | open2 => cases here; exact Or.inr ⟨rfl, (works_open2 m input.fails l).of_eq run⟩
  | unlink1 =>
    cases here
    exact Or.inr ⟨rfl, Works.of_eq ⟨unlink_stream .., unlink_dName .., rfl, rfl, rfl, Or.inr rfl⟩ run⟩
  | unlink2 =>
    cases here
    exact Or.inr ⟨rfl, Works.of_eq ⟨unlink_stream .., unlink_dName .., rfl, rfl, rfl, Or.inr rfl⟩ run⟩
  | openDest => cases here; exact Or.inr ⟨rfl, (works_openDest m input.fails l).of_eq run⟩
  | read1 =>
    cases here
    exact Or.inr ⟨rfl, Works.of_eq ⟨rfl, rfl, rfl, rfl, rfl, Or.inr (works_afterRead1 _)⟩ run⟩
  | read2 =>
    cases here
    exact Or.inr ⟨rfl, Works.of_eq ⟨rfl, rfl, rfl, rfl, rfl, Or.inr (works_afterRead2 _)⟩ run⟩
  | write1 buffer => cases here; exact Or.inr ⟨rfl, (works_writeDest m l input buffer rfl).of_eq run⟩
  | write2 buffer =>
    cases buffer with
    | none => cases here; exact Or.inr ⟨rfl, Works.of_eq ⟨rfl, rfl, rfl, rfl, rfl, Or.inr rfl⟩ run⟩
    | some buffer => cases here; exact Or.inr ⟨rfl, (works_writeDest m l input buffer rfl).of_eq run⟩
  | link => cases here; exact Or.inr ⟨rfl, (works_link m input.fails l).of_eq run⟩
  | unlinkTmp =>
    cases here
    exact Or.inr ⟨rfl,
      Works.of_eq ⟨unlinkTmp_stream .., unlinkTmp_dName .., rfl, rfl, rfl, Or.inl ⟨rfl, unlinkTmp_crashed ..⟩⟩ run⟩

theorem awake (layout : Layout) (K : ℕ) : (program layout K).Awake where
  sleep {_ _ chan} := nomatch chan
  wakeup {_ _ chan} := nomatch chan

theorem running_of_reach {start : State K → Prop} (started : ∀ s, start s → Started s)
    {ok : State K → Fin K × Input → Prop} (reach : ((program layout K).system start).ReachUnder ok s) (t : Fin K) :
    s.thread t = .run (s.pc t) := by
  refine (awake layout K).running_of_reach (fun s begun u => ?_) reach t
  obtain ⟨isDir, at'⟩ := (started s begun).thread u
  rw [Threads.pc, at']
  rfl

/-- Every step is a turn. -/
theorem turn_of_step (running : ∀ u, s.thread u = .run (s.pc u)) (step : (program layout K).Step t input s s') :
    ∃ next, Turn layout t input s s' next ∧ s'.pc = Function.update s.pc t next := by
  obtain ⟨next, done, moved⟩ := (awake layout K).step_cases running step
  refine ⟨next, ?_, moved⟩
  cases done with
  | @acquire lock here free same owner =>
    cases lock
    cases at' : (s.pc t).stmt with
    | lock =>
      simp only [program, threadFunc, at', Instr.acquire.injEq] at here
      obtain ⟨_, rfl⟩ := here
      exact .lock at' free same owner rfl
    | write2 buffer => cases buffer <;> simp [program, threadFunc, at'] at here
    | _ => simp [program, threadFunc, at'] at here
  | @release lock here same owner =>
    cases lock
    cases at' : (s.pc t).stmt with
    | unlock =>
      simp only [program, threadFunc, at', Instr.release.injEq] at here
      obtain ⟨_, rfl⟩ := here
      exact .unlock at' same owner rfl
    | write2 buffer => cases buffer <;> simp [program, threadFunc, at'] at here
    | _ => simp [program, threadFunc, at'] at here
  | exec here run owner =>
    rcases move_of_exec here run with scan | ⟨works, effect⟩
    · exact .scan scan owner
    · exact .work works here run owner effect

end DeviceProgramming.FileConcatenate
