import DeviceProgramming.FileConcatenate.Departure
import DeviceProgramming.Machine.Alone

namespace DeviceProgramming.FileConcatenate

open Concatenate (Name Lock Stmt special files files_tail dot dotdot tmpName)

/-- Two different files are selected. -/
def Locals.Pair (l : Locals) (m : Memory) : Prop := ∃ one two, l.filehead1 = some one ∧ l.filehead2 = some two ∧
  m.dName one ≠ m.dName two ∧ special (m.dName one) = false ∧ special (m.dName two) = false

/-- A thread that gives the lock back with `cont == 1` has selected two different
files, and where the second scan is about to compare an entry with the first
file there is one. -/
def Usable {K : ℕ} (s : State K) : Prop := ∀ t,
  ((s.pc t).stmt = .unlock → (s.pc t).locals.Pair s.mem) ∧
  ((s.pc t).stmt = .scan2 → ∀ entry ∈ s.mem.stream.head?, special entry = false →
    (s.pc t).locals.filehead1 ≠ none)

/-- At a `rewinddir` the flag of the loop is not the 0 of an earlier iteration; a
first scan that ends here, or has ended so, leaves no file to compare. -/
def RewindsFresh {K : ℕ} (s : State K) (label : Fin K × Input) : Prop :=
  label.2.isError = false → s.mem.atEnd label.2 = true → (s.pc label.1).locals.rewinded = false →
    ((s.pc label.1).stmt = .scan1 → (s.pc label.1).locals.next1 = true ∨ files label.2.listing = []) ∧
    ((s.pc label.1).stmt = .scan2 → (s.pc label.1).locals.next2 = true ∧
      ((s.pc label.1).locals.filehead1 = none → files label.2.listing = []))

/-- The calls of `readdir` in the second scan leave the entry of the first file as it is. -/
def KeepsFirst {K : ℕ} (s : State K) (label : Fin K × Input) : Prop := (s.pc label.1).stmt = .scan2 →
  ∀ filehead ∈ (s.pc label.1).locals.filehead1, label.2.dName filehead = s.mem.dName filehead

def SelectsAfresh {K : ℕ} (s : State K) (label : Fin K × Input) : Prop := RewindsFresh s label ∧ KeepsFirst s label

instance {K : ℕ} (s : State K) (label : Fin K × Input) : Decidable (SelectsAfresh s label) :=
  inferInstanceAs (Decidable ((_ → _ → _ → (_ → _) ∧ (_ → _)) ∧ (_ → _)))

/-- What the flags, the stream and its buffer tell about a thread. -/
structure Pairing (m : Memory) (p : Point) : Prop where
  first : p.stmt = .scan2 → ∀ filehead, p.locals.filehead1 = some filehead → special (m.dName filehead) = false
  nothing : p.stmt = .scan2 → p.locals.filehead1 = none → files m.stream = []
  flag : p.locals.cont = false → p.stmt = .left ∨ (p.stmt = .scan2 ∧ p.locals.next2 = true)
  pair : p.stmt = .unlock → p.locals.Pair m

variable {layout : Layout} {K : ℕ} {s s' : State K} {t u : Fin K} {input : Input} {m m' : Memory} {l : Locals}
  {next : Point} {stmt : Stmt}

/-- A thread that neither scans nor gives the lock back, and goes on. -/
theorem Pairing.of_quiet {p : Point} (cont : p.locals.cont = true) (scan : p.stmt ≠ .scan2)
    (unlock : p.stmt ≠ .unlock) : Pairing m p where
  first here := absurd here scan
  nothing here := absurd here scan
  flag stops := absurd cont (Bool.eq_false_iff.mp stops)
  pair here := absurd here unlock

/-- Only the second scan goes on without `cont`. -/
theorem Pairing.going {p : Point} (before : Pairing m p) (left : p.stmt ≠ .left) (scan : p.stmt ≠ .scan2) :
    p.locals.cont = true := by
  by_contra stops
  rcases before.flag (Bool.eq_false_iff.mpr stops) with ended | ⟨scans, _⟩
  · exact left ended
  · exact scan scans

theorem Pairing.left (l : Locals) : Pairing m ⟨.left, l⟩ where
  first here := nomatch here
  nothing here := nomatch here
  flag _ := Or.inl rfl
  pair here := nomatch here

theorem Pairing.selected (pair : l.cont = true → l.Pair m) : Pairing m (selected l) := by
  unfold FileConcatenate.selected
  split
  · rename_i cont
    refine ⟨nofun, nofun, fun stops => ?_, fun _ => pair cont⟩
    exact absurd cont (Bool.eq_false_iff.mp stops)
  · exact .left l

/-- After a round of a scan. -/
theorem Scan.pairing (scan : Scan input m l stmt m' next) (before : Pairing m ⟨stmt, l⟩)
    (fresh : input.isError = false → m.atEnd input = true → l.rewinded = false →
      (stmt = .scan1 → l.next1 = true ∨ files input.listing = []) ∧
      (stmt = .scan2 → l.next2 = true ∧ (l.filehead1 = none → files input.listing = [])))
    (kept : stmt = .scan2 → ∀ filehead ∈ l.filehead1, input.dName filehead = m.dName filehead) : Pairing m' next := by
  have going (here : stmt = .scan1) : l.cont = true := before.going (by simp [here]) (by simp [here])
  have first (here : stmt = .scan2) (filehead : ℕ) (head : l.filehead1 = some filehead) :
      special (input.dName filehead) = false := by
    rw [kept here filehead head]
    exact before.first here filehead head
  cases scan with
  | error1 | end1 | end2 => exact .left _
  | rewind1 fine ends once lists =>
    have flag := (fresh fine ends once).1 rfl
    split
    · exact .of_quiet (going rfl) nofun nofun
    · rename_i stops
      refine ⟨nofun, fun _ _ => flag.resolve_left stops, fun off => ?_, nofun⟩
      exact absurd (going rfl) (Bool.eq_false_iff.mp off)
  | skip1 => exact .of_quiet (going rfl) nofun nofun
  | found1 _ _ here named ordinary =>
    refine ⟨fun _ filehead same => ?_, nofun, fun off => ?_, nofun⟩
    · cases Option.some.inj same
      rw [← named] at ordinary
      exact ordinary
    · exact absurd (going rfl) (Bool.eq_false_iff.mp off)
  | error2 =>
    split
    · rename_i again
      exact ⟨fun _ => first rfl, before.nothing, fun _ => Or.inr ⟨rfl, again⟩, nofun⟩
    · exact .selected nofun
  | rewind2 fine ends once lists =>
    obtain ⟨again, listed⟩ := (fresh fine ends once).2 rfl
    rw [if_pos again]
    exact ⟨fun _ => first rfl, fun _ => listed, fun _ => Or.inr ⟨rfl, again⟩, nofun⟩
  | skip2 _ _ here | same2 _ _ here =>
    refine ⟨fun _ => first rfl, fun _ none => ?_, fun _ => Or.inr ⟨rfl, rfl⟩, nofun⟩
    have nothing := before.nothing rfl none
    rw [here] at nothing
    exact files_tail nothing
  | null2 _ _ here _ ordinary null =>
    have nothing := before.nothing rfl null
    rw [here, files, List.filter_cons_of_pos (by simp [ordinary])] at nothing
    cases nothing
  | found2 _ _ here named ordinary head differs =>
    refine .selected fun _ => ⟨_, _, head, rfl, ?_, first rfl _ head, ?_⟩
    · rw [← named] at differs
      exact differs
    · rw [← named] at ordinary
      exact ordinary

/-- The other threads keep what they have selected; only the owner of the lock
reads the stream. -/
theorem pairing_turn (pairing : ∀ u, Pairing s.mem (s.pc u)) (owned : s.Owned fun _ => held)
    (running : ∀ u, s.thread u = .run (s.pc u)) (points : s'.pc = Function.update s.pc t next)
    (turn : Turn layout t input s s' next) (ok : SelectsAfresh s (t, input)) (u : Fin K) :
    Pairing s'.mem (s'.pc u) := by
  have before := pairing t
  rcases update_cases points u with ⟨rfl, now⟩ | ⟨other, now⟩ <;> rw [now]
  · cases turn with
    | lock here _ mem _ there =>
      rw [mem, there]
      exact .of_quiet (before.going (by simp [here]) (by simp [here])) nofun nofun
    | unlock here mem _ there =>
      rw [mem, there]
      exact .of_quiet (before.going (by simp [here]) (by simp [here])) nofun nofun
    | scan scan => exact scan.pairing before ok.1 ok.2
    | work works _ _ _ effect =>
      have cont : (s.pc u).locals.cont = true :=
        before.going (by rintro at'; rw [at'] at works; cases works) (by rintro at'; rw [at'] at works; cases works)
      refine .of_quiet (effect.cont.trans cont) ?_ ?_
      all_goals
        intro there
        rcases effect.stmt with ⟨back, _⟩ | works <;> rw [there] at *
        · cases back
        · cases works
  · have buffer : (s.pc u).stmt = .scan2 ∨ (s.pc u).stmt = .unlock →
        s'.mem.stream = s.mem.stream ∧ s'.mem.dName = s.mem.dName := by
      intro here
      cases turn with
      | lock _ _ mem | unlock _ mem => rw [mem]; exact ⟨rfl, rfl⟩
      | work _ _ _ _ effect => exact ⟨effect.stream, effect.dName⟩
      | scan scan =>
        refine absurd (owned.unique_run (running u) (running t) (l := .dirLock) ?_ ?_) other
        · rcases here with at' | at' <;> simp [held, at']
        · rcases scan.held.2 with at' | at' <;> simp [held, at']
    obtain ⟨first, nothing, flag, pair⟩ := pairing u
    refine ⟨fun here => ?_, fun here none => ?_, flag, fun here => ?_⟩
    · rw [(buffer (Or.inl here)).2]
      exact first here
    · rw [(buffer (Or.inl here)).1]
      exact nothing here none
    · rw [Locals.Pair, (buffer (Or.inr here)).2]
      exact pair here

theorem pairing_of_reach (reach : (selection layout K).ReachUnder SelectsAfresh s) (t : Fin K) :
    Pairing s.mem (s.pc t) := by
  refine reach.invariant (motive := fun s => ∀ t, Pairing s.mem (s.pc t)) ?_ ?_ t
  · intro s started t
    obtain ⟨isDir, at'⟩ := started.thread t
    rw [Threads.pc, at']
    exact .of_quiet rfl (by simp [Activity.pc]) (by simp [Activity.pc])
  · rintro s s' ⟨t, input⟩ earlier pairing ok moved
    have running := running_of_reach (fun _ => id) earlier
    obtain ⟨next, turn, points⟩ := turn_of_step running (Program.step_of_next moved).2
    exact pairing_turn pairing (owned_of_reach (fun _ => id) earlier) running points turn ok

theorem usable_of_reach (reach : (selection layout K).ReachUnder SelectsAfresh s) : Usable s := by
  intro t
  have pairing := pairing_of_reach reach t
  refine ⟨pairing.pair, fun here entry next ordinary null => ?_⟩
  have nothing := pairing.nothing here null
  rw [files, List.filter_eq_nil_iff] at nothing
  have skipped := nothing entry (List.mem_of_mem_head? next)
  simp [ordinary] at skipped

/-- A `readdir` that returns `entry`. -/
def Input.returning (entry : Name) : Input := .plain [entry] [] 0

/-- Without a first file the second scan comes to an entry to compare. -/
theorem compares_null {owner : Lock → Option (Fin K)} {thread : Fin K → Activity Lock Empty Point}
    (live : m.crashed = false) (null : l.filehead1 = none) (listed : files m.stream ≠ []) :
    ∃ labels s', (selection layout K).runUnder SelectsAfresh labels (Program.alone m owner thread t ⟨.scan2, l⟩) =
      some s' ∧ ¬ Usable s' := by
  generalize stream : m.stream = entries at listed
  induction entries generalizing m l with
  | nil => exact absurd rfl listed
  | cons entry rest ih =>
    have here : (Program.alone m owner thread t ⟨.scan2, l⟩).pc t = ⟨.scan2, l⟩ :=
      Threads.pc_of_run (Program.thread_alone ..)
    by_cases skips : special entry = true
    · have scanned : scan2 l (.returning entry) m =
          some ({ m with dName := (Input.returning entry).dName, stream := rest },
            ⟨.scan2, { l with next2 := true, filehead2 := some 0 }⟩) := by
        simp [scan2, Input.returning, Input.plain, Concatenate.Input.isError, Memory.atEnd, Concatenate.Memory.atEnd,
          stream, skips]
      have ok : SelectsAfresh (Program.alone m owner thread t ⟨.scan2, l⟩) (t, .returning entry) := by
        refine ⟨fun _ ends => ?_, fun _ filehead head => ?_⟩
        · simp [Program.alone, Input.returning, Input.plain, Memory.atEnd, Concatenate.Memory.atEnd, stream] at ends
        · rw [here, null] at head
          cases head
      have statement : (program layout K).instr t ⟨.scan2, l⟩ = .exec fun input m => scan2 l input m := rfl
      have step : (program layout K).step (Program.alone m owner thread t ⟨.scan2, l⟩) t (.returning entry) =
          some (Program.alone { m with dName := (Input.returning entry).dName, stream := rest } owner thread t
            ⟨.scan2, { l with next2 := true, filehead2 := some 0 }⟩) :=
        Program.step_alone_exec live statement scanned
      have more : files rest ≠ [] := by simpa [files, skips] using listed
      obtain ⟨labels, s', computed, broken⟩ := ih (m := { m with dName := (Input.returning entry).dName, stream := rest })
        (l := { l with next2 := true, filehead2 := some 0 }) live null rfl more
      refine ⟨(t, .returning entry) :: labels, s', ?_, broken⟩
      rw [System.runUnder_next ok (Program.next_of_step step)]
      exact computed
    · refine ⟨[], _, rfl, fun usable => ?_⟩
      have compared := (usable t).2
      rw [here] at compared
      exact compared rfl entry (by simp [Program.alone, stream]) (by simpa using skips) null

theorem exec_of_next {effect : Input → Memory → Option (Memory × Point)} (running : s.thread t = .run (s.pc t))
    (here : threadFunc layout (s.pc t) = .exec effect) (moved : (selection layout K).next s (t, input) = some s') :
    ∃ m next, effect input s.mem = some (m, next) ∧ s' = Program.alone m s.owner s.thread t next := by
  cases (Program.step_of_next moved).2 with
  | relock at' => cases running.symm.trans at'
  | acquire at' other =>
    cases running.symm.trans at'
    cases here.symm.trans other
  | release at' other =>
    cases running.symm.trans at'
    cases here.symm.trans other
  | sleep at' other =>
    cases running.symm.trans at'
    cases here.symm.trans other
  | wakeup at' other =>
    cases running.symm.trans at'
    cases here.symm.trans other
  | exec at' other run =>
    cases running.symm.trans at'
    cases here.symm.trans other
    exact ⟨_, _, run, rfl⟩

theorem scan1_rewinds (fine : input.isError = false) (ends : m.atEnd input = true) (once : l.rewinded = false)
    (run : scan1 l input m = some (m', next)) : m' = { m with dName := input.dName, stream := input.listing } ∧
      next = if l.next1 then ⟨.scan1, { l with rewinded := true, filehead1 := none }⟩
        else ⟨.scan2, { l with rewinded := false, filehead1 := none }⟩ := by
  cases scan_of_scan1 run with
  | error1 error =>
    rw [error] at fine
    cases fine
  | end1 _ _ again =>
    rw [again] at once
    cases once
  | rewind1 => exact ⟨rfl, rfl⟩
  | skip1 _ more | found1 _ more =>
    rw [more] at ends
    cases ends

theorem scan2_rewinds (fine : input.isError = false) (ends : m.atEnd input = true) (once : l.rewinded = false)
    (run : scan2 l input m = some (m', next)) : m' = { m with dName := input.dName, stream := input.listing } ∧
      next = if l.next2 then ⟨.scan2, { l with rewinded := true, filehead2 := none }⟩
        else selected { l with rewinded := true, filehead2 := none } := by
  cases scan_of_scan2 run with
  | error2 error =>
    rw [error] at fine
    cases fine
  | end2 _ _ again =>
    rw [again] at once
    cases once
  | rewind2 => exact ⟨rfl, rfl⟩
  | skip2 _ more | null2 _ more | same2 _ more | found2 _ more =>
    rw [more] at ends
    cases ends

/-- A rewind with a flag of an earlier iteration can be followed, without any
other one, by a state that is not usable. -/
theorem unusable_of_stale (pairing : Pairing s.mem (s.pc t)) (running : s.thread t = .run (s.pc t))
    (moved : (selection layout K).next s (t, input) = some s') (stale : ¬ RewindsFresh s (t, input)) :
    ∃ labels s'', (selection layout K).runUnder SelectsAfresh labels s' = some s'' ∧ ¬ Usable s'' := by
  have live : s.mem.crashed = false := (Program.step_of_next moved).1
  simp only [RewindsFresh, Classical.not_imp, not_and_or] at stale
  obtain ⟨fine, ends, once, ⟨here, stale⟩ | ⟨here, stale⟩⟩ := stale
  · obtain ⟨off, listed⟩ := not_or.mp stale
    have statement : threadFunc layout (s.pc t) = .exec fun input m => scan1 (s.pc t).locals input m := by
      rw [threadFunc, here]
    obtain ⟨m, next, run, rfl⟩ := exec_of_next running statement moved
    obtain ⟨rfl, rfl⟩ := scan1_rewinds fine ends once run
    rw [if_neg off]
    exact compares_null live rfl listed
  · have statement : threadFunc layout (s.pc t) = .exec fun input m => scan2 (s.pc t).locals input m := by
      rw [threadFunc, here]
    obtain ⟨m, next, run, rfl⟩ := exec_of_next running statement moved
    obtain ⟨rfl, rfl⟩ := scan2_rewinds fine ends once run
    by_cases again : (s.pc t).locals.next2 = true
    · obtain ⟨null, listed⟩ := stale.resolve_left (not_not.mpr again)
      rw [if_pos again]
      exact compares_null live null listed
    · have cont : (s.pc t).locals.cont = true := by
        by_contra stops
        rcases pairing.flag (Bool.eq_false_iff.mpr stops) with left | ⟨_, flag⟩
        · rw [here] at left
          cases left
        · exact again flag
      refine ⟨[], _, rfl, fun usable => ?_⟩
      have pair := (usable t).1
      rw [Threads.pc_of_run (Program.thread_alone ..), if_neg again, selected, if_pos cont] at pair
      obtain ⟨_, _, _, second, _⟩ := pair rfl
      cases second

/-- As long as no scan rewinds the directory with the flag of an earlier
iteration and no second scan overwrites the entry of the first file, what a thread has
selected is usable; and each such rewind can be followed by a state in which it is not. -/
theorem selects_pair_iff (reach : (selection layout K).ReachUnder SelectsAfresh s) : Usable s ∧
    ∀ label s', (selection layout K).next s label = some s' → KeepsFirst s label → (RewindsFresh s label ↔
      ∀ labels s'', (selection layout K).runUnder SelectsAfresh labels s' = some s'' → Usable s'') := by
  refine ⟨usable_of_reach reach, fun label s' moved kept => ⟨fun fresh labels s'' computed => ?_, fun usable => ?_⟩⟩
  · exact usable_of_reach ((reach.next ⟨fresh, kept⟩ moved).of_run computed)
  · by_contra stale
    obtain ⟨labels, s'', computed, broken⟩ := unusable_of_stale (pairing_of_reach reach label.1)
      (running_of_reach (fun _ => id) reach label.1) moved stale
    exact broken (usable labels s'' computed)

/-- A directory with two files of one byte each. -/
def twoFiles : Memory where
  dir := [(['a'], 0), (['b'], 1)]
  tmp := []
  node i := .regular [if i = 0 then 10 else 20]
  fresh := 2
  stream := [dot, dotdot, ['a'], ['b']]
  crashed := false
  dName _ := []

theorem opened_twoFiles : twoFiles.Opened where
  nodup := by decide
  ordinary := by decide
  stream := Or.inr (List.Perm.refl _)
  inodes := by decide
  live := rfl

/-- The names that the buffer of the stream holds throughout, and their slots. -/
def bufferNames : List Name := [dot, dotdot, tmpName, ['a'], ['b'], ['a', 'b']]

/-- A thread takes the lock and selects both files. -/
def selecting {K : ℕ} (t : Fin K) : List (Fin K × Input) := steps t bufferNames [] [0, 0, 1, 3, 4]

/-- It gives the lock back, makes one file of them and takes the lock again. -/
def concatenating {K : ℕ} (t : Fin K) : List (Fin K × Input) := steps t bufferNames [] (List.replicate 15 0)

set_option maxRecDepth 10000 in
/-- A thread has selected both files of a directory and gives the lock back. -/
theorem selects_pair_iff_twoFiles : ∃ s : State 1, (s.pc 0).stmt = .unlock ∧ Usable s ∧
    ∀ label s', (selection rounded 1).next s label = some s' → KeepsFirst s label → (RewindsFresh s label ↔
      ∀ labels s'', (selection rounded 1).runUnder SelectsAfresh labels s' = some s'' → Usable s'') := by
  have computed : ((selection rounded 1).runUnder SelectsAfresh (selecting 0) (launchOf 1 twoFiles)).map
      (fun s => (s.pc 0).stmt) = some .unlock := by decide
  obtain ⟨s, reached, here⟩ := Option.map_eq_some_iff.mp computed
  exact ⟨s, here, selects_pair_iff (.of_run (.start (launch_launchOf opened_twoFiles).toStarted) reached)⟩

set_option maxRecDepth 10000 in
/-- After the two files are concatenated the stream is at its end: it is
rewound, `next1` is still 0, and the second scan compares the new file with a
null pointer. -/
theorem selects_no_pair : ∃ s : State 1, (concatenation rounded 1).Reach s ∧ ¬ Usable s := by
  have computed : ((concatenation rounded 1).run
      (selecting 0 ++ concatenating 0 ++ steps 0 bufferNames [['a', 'b'], dot, dotdot, tmpName] [0])
      (launchOf 1 twoFiles)).map (fun s => ((s.pc 0).stmt, (s.pc 0).locals.filehead1, s.mem.stream.head?)) =
      some (.scan2, none, some ['a', 'b']) := by decide
  obtain ⟨s, reached, state⟩ := Option.map_eq_some_iff.mp computed
  simp only [Prod.mk.injEq] at state
  obtain ⟨here, null, entry⟩ := state
  refine ⟨s, .of_run (.start (launch_launchOf opened_twoFiles)) reached, fun usable => ?_⟩
  exact (usable 0).2 here ['a', 'b'] entry rfl null

end DeviceProgramming.FileConcatenate
