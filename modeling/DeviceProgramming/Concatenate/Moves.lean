import DeviceProgramming.Concatenate.Directory
import DeviceProgramming.Machine.Ownership

namespace DeviceProgramming.Concatenate

/-- The statements of `thread_func` between the two calls for the lock and
outside of it, with what they leave in the memory and where they lead. -/
inductive Move (input : Input) (m : Memory) (l : Locals) : Stmt → Memory → Point → Prop
  | error1 : input.isError = true →
      Move input m l .scan1 m ⟨.left, { l with cont := false, next1 := false, filehead1 := none }⟩
  | end1 : m.atEnd input = true → l.rewinded = true →
      Move input m l .scan1 m ⟨.left, { l with cont := false, filehead1 := none }⟩
  | rewind1 : input.isError = false → m.atEnd input = true → l.rewinded = false → input.listing.Perm m.names →
      Move input m l .scan1 { m with stream := input.listing }
        (if l.next1 then ⟨.scan1, { l with rewinded := true, filehead1 := none }⟩
          else ⟨.scan2, { l with rewinded := false, filehead1 := none }⟩)
  | skip1 {entry rest} : m.stream = entry :: rest → special entry = true →
      Move input m l .scan1 { m with stream := rest }
        ⟨.scan1, { l with next1 := true, filehead1 := some entry }⟩
  | found1 {entry rest} : m.stream = entry :: rest → special entry = false →
      Move input m l .scan1 { m with stream := rest }
        ⟨.scan2, { l with next1 := false, rewinded := false, filehead1 := some entry }⟩
  | error2 : input.isError = true →
      Move input m l .scan2 m
        (if l.next2 then ⟨.scan2, { l with cont := false, filehead2 := none }⟩
          else selected { l with cont := false, filehead2 := none })
  | end2 : input.isError = false → m.atEnd input = true → l.rewinded = true →
      Move input m l .scan2 m ⟨.left, { l with cont := false, filehead2 := none }⟩
  | rewind2 : input.isError = false → m.atEnd input = true → l.rewinded = false → input.listing.Perm m.names →
      Move input m l .scan2 { m with stream := input.listing }
        (if l.next2 then ⟨.scan2, { l with rewinded := true, filehead2 := none }⟩
          else selected { l with rewinded := true, filehead2 := none })
  | skip2 {entry rest} : m.stream = entry :: rest → special entry = true ∨ l.filehead1 = some entry →
      Move input m l .scan2 { m with stream := rest }
        ⟨.scan2, { l with next2 := true, filehead2 := some entry }⟩
  | crash2 {entry rest} : input.isError = false → m.atEnd input = false → m.stream = entry :: rest →
      special entry = false → l.filehead1 = none →
      Move input m l .scan2 { m with stream := rest, crashed := true } ⟨.scan2, { l with filehead2 := some entry }⟩
  | found2 {entry rest name} : input.isError = false → m.atEnd input = false → m.stream = entry :: rest →
      special entry = false → l.filehead1 = some name → name ≠ entry →
      Move input m l .scan2 { m with stream := rest }
        (selected { l with next2 := false, filehead2 := some entry })
  | null1 : l.filehead1 = none → Move input m l .open1 m.crash ⟨.open1, l⟩
  | missing1 {name} : l.filehead1 = some name → m.dir.lookup name = none →
      Move input m l .open1 m ⟨if l.isDir then .lock else .open2, { l with file1 := none }⟩
  | opened1 {name i} : l.filehead1 = some name → m.dir.lookup name = some i →
      Move input m l .open1 m ⟨if (m.node i).isDirectory then .lock else .open2,
        { l with file1 := some (i, 0), isDir := (m.node i).isDirectory }⟩
  | null2 : l.filehead2 = none → Move input m l .open2 m.crash ⟨.open2, l⟩
  | missing2 {name} : l.filehead2 = some name → m.dir.lookup name = none →
      Move input m l .open2 m ⟨if l.isDir then .lock else .unlink1, { l with file2 := none }⟩
  | opened2 {name i} : l.filehead2 = some name → m.dir.lookup name = some i →
      Move input m l .open2 m ⟨if (m.node i).isDirectory then .lock else .unlink1,
        { l with file2 := some (i, 0), isDir := (m.node i).isDirectory }⟩
  | unlink1 : Move input m l .unlink1 (m.unlink (l.filehead1.getD [])) ⟨.unlink2, l⟩
  | unlink2 : Move input m l .unlink2 (m.unlink (l.filehead2.getD [])) ⟨.openDest, l⟩
  | openDest : Move input m l .openDest (m.create l.filename).2
      ⟨.read1, { l with dest := ((m.create l.filename).1, 0) }⟩
  | bad1 : l.file1 = none → Move input m l .read1 m ⟨.read2, l⟩
  | end1File {i offset} : l.file1 = some (i, offset) → m.read i offset = [] → Move input m l .read1 m ⟨.read2, l⟩
  | read1 {i offset} : l.file1 = some (i, offset) → m.read i offset ≠ [] →
      Move input m l .read1 m
        ⟨.write1 (m.read i offset), { l with file1 := some (i, offset + (m.read i offset).length) }⟩
  | write1 {buffer} : Move input m l (.write1 buffer) (writeDest l buffer .read1 m).1 (writeDest l buffer .read1 m).2
  | bad2 : l.file2 = none → Move input m l .read2 m ⟨.write2 none, l⟩
  | end2File {i offset} : l.file2 = some (i, offset) → m.read i offset = [] → Move input m l .read2 m ⟨.link, l⟩
  | read2 {i offset} : l.file2 = some (i, offset) → m.read i offset ≠ [] →
      Move input m l .read2 m
        ⟨.write2 (some (m.read i offset)), { l with file2 := some (i, offset + (m.read i offset).length) }⟩
  | write2Fails : Move input m l (.write2 none) m ⟨.read2, l⟩
  | write2 {buffer} : Move input m l (.write2 (some buffer)) (writeDest l buffer .read2 m).1
      (writeDest l buffer .read2 m).2
  | link : Move input m l .link (m.link l.filename) ⟨.unlinkTmp, l⟩
  | unlinkTmp : Move input m l .unlinkTmp (m.unlinkTmp l.filename) ⟨.lock, l⟩

/-- A step of a thread: it takes or gives back the lock, or makes a move. -/
inductive Turn {K : ℕ} (t : Fin K) (input : Input) (s s' : State K) (next : Point) : Prop
  | lock : (s.pc t).stmt = .lock → s.owner .dirLock = none → s'.mem = s.mem →
      next = ⟨.scan1, { (s.pc t).locals with rewinded := false }⟩ → Turn t input s s' next
  | unlock : (s.pc t).stmt = .unlock → s'.mem = s.mem → next = ⟨.open1, (s.pc t).locals⟩ →
      Turn t input s s' next
  | move : Move input s.mem (s.pc t).locals (s.pc t).stmt s'.mem next → Turn t input s s' next

variable {K : ℕ} {s s' : State K} {t : Fin K} {input : Input} {m m' : Memory} {l : Locals} {next : Point}

theorem rewinddir_eq_some {listing : List Name} (rewound : m.rewinddir listing = some m') :
    listing.Perm m.names ∧ m' = { m with stream := listing } := by
  unfold Memory.rewinddir at rewound
  split at rewound
  · rename_i lists
    exact ⟨lists, (Option.some.inj rewound).symm⟩
  · cases rewound

theorem move_of_scan1 (run : scan1 l input m = some (m', next)) : Move input m l .scan1 m' next := by
  unfold scan1 at run
  split at run
  · rename_i error
    cases Option.some.inj run
    exact .error1 error
  · rename_i fine
    split at run
    · rename_i ends
      split at run
      · rename_i again
        cases Option.some.inj run
        exact .end1 ends again
      · rename_i once
        obtain ⟨rewound, moved, same⟩ := Option.map_eq_some_iff.mp run
        obtain ⟨lists, rfl⟩ := rewinddir_eq_some moved
        cases same
        exact .rewind1 (Bool.eq_false_iff.mpr fine) ends (Bool.eq_false_iff.mpr once) lists
    · split at run
      · cases run
      · rename_i entry rest here
        split at run
        · rename_i skips
          cases Option.some.inj run
          exact .skip1 here skips
        · rename_i found
          cases Option.some.inj run
          exact .found1 here (Bool.eq_false_iff.mpr found)

theorem move_of_scan2 (run : scan2 l input m = some (m', next)) : Move input m l .scan2 m' next := by
  unfold scan2 at run
  split at run
  · rename_i error
    cases Option.some.inj run
    exact .error2 error
  · rename_i fine
    split at run
    · rename_i ends
      split at run
      · rename_i again
        cases Option.some.inj run
        exact .end2 (Bool.eq_false_iff.mpr fine) ends again
      · rename_i once
        obtain ⟨rewound, moved, same⟩ := Option.map_eq_some_iff.mp run
        obtain ⟨lists, rfl⟩ := rewinddir_eq_some moved
        cases same
        exact .rewind2 (Bool.eq_false_iff.mpr fine) ends (Bool.eq_false_iff.mpr once) lists
    · rename_i more
      split at run
      · cases run
      · rename_i entry rest here
        split at run
        · rename_i skips
          cases Option.some.inj run
          exact .skip2 here (Or.inl skips)
        · rename_i ordinary
          dsimp only at run
          split at run
          · rename_i null
            cases Option.some.inj run
            exact .crash2 (Bool.eq_false_iff.mpr fine) (Bool.eq_false_iff.mpr more) here
              (Bool.eq_false_iff.mpr ordinary) null
          · rename_i name first
            split at run
            · rename_i same
              cases Option.some.inj run
              exact .skip2 here (Or.inr (first.trans (congrArg some same)))
            · rename_i differs
              cases Option.some.inj run
              exact .found2 (Bool.eq_false_iff.mpr fine) (Bool.eq_false_iff.mpr more) here
                (Bool.eq_false_iff.mpr ordinary) first differs

theorem Move.of_eq {stmt : Stmt} {result : Memory × Point} (move : Move input m l stmt result.1 result.2)
    (same : some result = some (m', next)) : Move input m l stmt m' next := by
  cases Option.some.inj same
  exact move

theorem move_of_open1 : Move input m l .open1 (open1 l m).1 (open1 l m).2 := by
  unfold open1
  split
  · rename_i null
    exact .null1 null
  · rename_i name here
    cases found : m.dir.lookup name with
    | none => exact .missing1 here found
    | some i => exact .opened1 here found

theorem move_of_open2 : Move input m l .open2 (open2 l m).1 (open2 l m).2 := by
  unfold open2
  split
  · rename_i null
    exact .null2 null
  · rename_i name here
    cases found : m.dir.lookup name with
    | none => exact .missing2 here found
    | some i => exact .opened2 here found

theorem move_of_read1 : Move input m l .read1 m (read1 l m) := by
  unfold read1
  split
  · rename_i bad
    exact .bad1 bad
  · rename_i i offset here
    by_cases ended : m.read i offset = []
    · have same : l = { l with file1 := some (i, offset) } := by rw [← here]
      simp only [ended, if_true, List.length_nil, Nat.add_zero, ← same]
      exact .end1File here ended
    · simp only [ended, if_false]
      exact .read1 here ended

theorem move_of_read2 : Move input m l .read2 m (read2 l m) := by
  unfold read2
  split
  · rename_i bad
    exact .bad2 bad
  · rename_i i offset here
    by_cases ended : m.read i offset = []
    · have same : l = { l with file2 := some (i, offset) } := by rw [← here]
      simp only [ended, if_true, List.length_nil, Nat.add_zero, ← same]
      exact .end2File here ended
    · simp only [ended, if_false]
      exact .read2 here ended

/-- An executed statement is one of the moves. -/
theorem move_of_exec {p : Point} {effect : Input → Memory → Option (Memory × Point)}
    (here : threadFunc p = .exec effect) (run : effect input m = some (m', next)) :
    Move input m p.locals p.stmt m' next := by
  obtain ⟨stmt, l⟩ := p
  cases stmt with
  | lock | unlock => cases here
  | scan1 => cases here; exact move_of_scan1 run
  | scan2 => cases here; exact move_of_scan2 run
  | open1 => cases here; exact Move.of_eq move_of_open1 run
  | open2 => cases here; exact Move.of_eq move_of_open2 run
  | unlink1 => cases here; exact Move.of_eq .unlink1 run
  | unlink2 => cases here; exact Move.of_eq .unlink2 run
  | openDest => cases here; exact Move.of_eq .openDest run
  | read1 => cases here; exact Move.of_eq move_of_read1 run
  | write1 buffer => cases here; exact Move.of_eq .write1 run
  | read2 => cases here; exact Move.of_eq move_of_read2 run
  | write2 buffer =>
    cases buffer with
    | none => cases here; exact Move.of_eq .write2Fails run
    | some buffer => cases here; exact Move.of_eq .write2 run
  | link => cases here; exact Move.of_eq .link run
  | unlinkTmp => cases here; exact Move.of_eq .unlinkTmp run
  | left => cases here; cases run

theorem awake (K : ℕ) : (program K).Awake where
  sleep {_ _ chan} := nomatch chan
  wakeup {_ _ chan} := nomatch chan

theorem running_of_reach {start : State K → Prop} (started : ∀ s, start s → Started s)
    {ok : State K → Fin K × Input → Prop} (reach : ((program K).system start).ReachUnder ok s) (t : Fin K) :
    s.thread t = .run (s.pc t) := by
  refine (awake K).running_of_reach (fun s begun u => ?_) reach t
  obtain ⟨isDir, at'⟩ := (started s begun).thread u
  rw [Threads.pc, at']
  rfl

/-- Every step is a turn. -/
theorem turn_of_step (running : ∀ u, s.thread u = .run (s.pc u)) (step : (program K).Step t input s s') :
    ∃ next, Turn t input s s' next ∧ s'.pc = Function.update s.pc t next := by
  obtain ⟨next, done, moved⟩ := (awake K).step_cases running step
  refine ⟨next, ?_, moved⟩
  cases done with
  | @acquire lock here free same owner =>
    cases lock
    cases at' : (s.pc t).stmt with
    | lock =>
      simp only [program, threadFunc, at', Instr.acquire.injEq] at here
      obtain ⟨_, rfl⟩ := here
      exact .lock at' free same rfl
    | write2 buffer => cases buffer <;> simp [program, threadFunc, at'] at here
    | _ => simp [program, threadFunc, at'] at here
  | release here same owner =>
    cases at' : (s.pc t).stmt with
    | unlock =>
      simp only [program, threadFunc, at', Instr.release.injEq] at here
      obtain ⟨_, rfl⟩ := here
      exact .unlock at' same rfl
    | write2 buffer => cases buffer <;> simp [program, threadFunc, at'] at here
    | _ => simp [program, threadFunc, at'] at here
  | exec here run owner => exact .move (move_of_exec here run)

end DeviceProgramming.Concatenate
