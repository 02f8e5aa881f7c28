import DeviceProgramming.Concatenate.Iteration
import DeviceProgramming.FileConcatenate.Solo

namespace DeviceProgramming.FileConcatenate

open Concatenate (Name Inode Lock Stmt special dot dotdot tmpName Steady)

/-- A thread after its critical section with two regular files, in a directory in
which the calls of `open` succeed. -/
structure Selected {K : ℕ} (s : State K) (t : Fin K) where
  locals : Locals
  entry1 : ℕ
  entry2 : ℕ
  inode1 : Inode
  inode2 : Inode
  here : s.thread t = .run ⟨.open1, locals⟩
  first : locals.filehead1 = some entry1
  second : locals.filehead2 = some entry2
  differ : s.mem.dName entry1 ≠ s.mem.dName entry2
  named1 : s.mem.dName entry1 ≠ []
  named2 : s.mem.dName entry2 ≠ []
  file1 : s.mem.dir.lookup (s.mem.dName entry1) = some inode1
  file2 : s.mem.dir.lookup (s.mem.dName entry2) = some inode2
  regular1 : (s.mem.node inode1).isDirectory = false
  regular2 : (s.mem.node inode2).isDirectory = false
  ordinary : ∀ entry ∈ s.mem.dir, special entry.1 = false
  inodes : ∀ entry ∈ s.mem.dir, entry.2 < s.mem.fresh
  opens : s.mem.isTmpDirectory (s.mem.dName entry1 ++ s.mem.dName entry2) = false
  live : s.mem.crashed = false

/-- Two runs of one thread, in this model and in the abstract one. -/
structure Tracks (name : Name) (c : Memory × Point) (c' : Concatenate.Memory × Concatenate.Point) : Prop where
  mem : c'.1 = c.1.toMemory
  shows : c.2.Shows c.1.dName c'.2
  steady : Steady c'
  named : c'.2.locals.filename = name
  regular : c'.1.RegularTmp name

variable {layout : Layout} {c : Memory × Point} {c' : Concatenate.Memory × Concatenate.Point} {file : Name}

/-- A statement does the same in both models as long as the names have room. -/
theorem Tracks.advance (tracks : Tracks file c c')
    (filename : c.2.stmt = .openDest → layout.filename ("tmp/".length + file.length) = .unused)
    (hardlink : c.2.stmt = .link → layout.hardlink file.length = .unused) :
    Tracks file (advance layout c) (Concatenate.advance c') := by
  obtain ⟨mem, shows, steady, named, regular⟩ := tracks
  have same : c'.2.stmt = c.2.stmt := shows.stmt
  rcases steady.stage with lock | works
  · rw [Concatenate.advance_lock lock, advance_lock (same.symm.trans lock)]
    exact ⟨mem, shows, steady, named, regular⟩
  have works' : c.2.stmt.works = true := by
    rw [← same]
    exact works
  have live : c.1.crashed = false := by
    have live := steady.live
    rw [mem] at live
    exact live
  obtain ⟨m', q⟩ := c'
  dsimp only at mem shows steady named regular same works
  subst mem
  have joined (first : usesFirst c.2.stmt = true) (second : usesSecond c.2.stmt = true) : c.2.locals.joined c.1 = file :=
    (shows.joined first second).trans named
  have tame : c.2.Tame layout c.2.success c.1 := by
    refine ⟨fun _ => rfl, fun buffer here => ?_, fun here => ?_, fun here => ?_, fun here other taken => ?_⟩
    · rcases here with here | here <;> rw [Point.success, here] <;> exact le_rfl
    · rw [joined (by rw [here]; rfl) (by rw [here]; rfl)]
      exact ⟨isTmpDirectory_eq_false regular, filename here⟩
    · rw [joined (by rw [here]; rfl) (by rw [here]; rfl)]
      exact hardlink here
    · have stored : c.2.locals.filename = some file := by
        rw [← named]
        exact shows.filename (by rcases here with here | here <;> rw [here] <;> rfl)
      cases Option.some.inj (stored.symm.trans taken)
      exact isTmpDirectory_eq_false regular
  obtain ⟨effect, here⟩ := exec_of_works layout works'
  obtain ⟨effect', next, here', run, there⟩ :=
    shows_work works' here (exec_eq_advance live works' here c.2.succeeds_success) tame shows
  rw [Concatenate.threadFunc_of_works works] at here'
  cases here'
  have goes := Option.some.inj run
  have step := Concatenate.move_advance (c := (c.1.toMemory, q)) works ⟨false, false, []⟩
  refine ⟨congrArg Prod.fst goes, ?_, steady.advance, ?_, step.regularTmp regular⟩
  · rw [(works_advance layout live works').dName, goes]
    exact there
  · rw [Concatenate.filename_advance works, named]

theorem Tracks.iterate (tracks : Tracks file c c') (n : ℕ)
    (filename : ∀ i < n, (Concatenate.advance^[i] c').2.stmt = .openDest →
      layout.filename ("tmp/".length + file.length) = .unused)
    (hardlink : ∀ i < n, (Concatenate.advance^[i] c').2.stmt = .link → layout.hardlink file.length = .unused) :
    Tracks file ((FileConcatenate.advance layout)^[n] c) (Concatenate.advance^[n] c') := by
  induction n with
  | zero => exact tracks
  | succ n ih =>
    have before := ih (fun i less => filename i (less.trans n.lt_succ_self))
      fun i less => hardlink i (less.trans n.lt_succ_self)
    rw [Function.iterate_succ_apply', Function.iterate_succ_apply']
    refine before.advance (fun here => ?_) fun here => ?_
    · exact filename n n.lt_succ_self (before.shows.stmt.trans here)
    · exact hardlink n n.lt_succ_self (before.shows.stmt.trans here)

theorem iterate_fixed_unique {α : Type*} {f : α → α} {x : α} {n k : ℕ} (one : f (f^[n] x) = f^[n] x)
    (two : f (f^[k] x) = f^[k] x) : f^[n] x = f^[k] x := by
  calc f^[n] x = f^[k] (f^[n] x) := (Function.iterate_fixed one k).symm
    _ = f^[n] (f^[k] x) := by rw [← Function.iterate_add_apply, Nat.add_comm, Function.iterate_add_apply]
    _ = f^[k] x := Function.iterate_fixed two n

namespace Selected
variable {K : ℕ} {s : State K} {t : Fin K} (step : Selected s t)

/-- The names of the two files and of the new one. -/
def name1 : Name := s.mem.dName step.entry1
def name2 : Name := s.mem.dName step.entry2
def name : Name := step.name1 ++ step.name2

/-- The same two files in the abstract model. -/
def shown : Concatenate.Selected s.mem.toMemory where
  locals := step.locals.named (some step.name1) (some step.name2) (0, 0)
  name1 := step.name1
  name2 := step.name2
  inode1 := step.inode1
  inode2 := step.inode2
  first := rfl
  second := rfl
  differ := step.differ
  named1 := step.named1
  named2 := step.named2
  file1 := step.file1
  file2 := step.file2
  regular1 := step.regular1
  regular2 := step.regular2
  ordinary := step.ordinary
  inodes := step.inodes
  opens _ found := isDirectory_of_tmp step.opens found

/-- The thread comes to the end of the iteration, and then it has lost nothing: the two
files are replaced by their concatenation, and every other file has its name and its
contents. -/
def LosesNothing (layout : Layout) : Prop :=
  (∃ labels s', (selection layout K).runUnder (UntilLock t) labels s = some s' ∧ (s'.pc t).stmt = .lock) ∧
  ∀ labels s', (selection layout K).runUnder (UntilLock t) labels s = some s' → (s'.pc t).stmt = .lock →
    step.shown.Keeps s'.mem.toMemory

/-- The byte behind `filename` belongs to nothing, and so does that behind `hardlink`, or it
is the first one of `filename` and the directory has an entry of the new name, so that there
is nothing to link; and the new name is clear in the directory. -/
structure Clear (layout : Layout) : Prop where
  filename : layout.filename ("tmp/".length + step.name.length) = .unused
  hardlink : layout.hardlink step.name.length = .unused ∨
    layout.hardlink step.name.length = .filename ∧ s.mem.dir.lookup step.name ≠ none
  names : step.shown.Clear

/-- The thread after `n` statements. -/
def after (layout : Layout) (n : ℕ) : Memory × Point := (advance layout)^[n] (s.mem, ⟨.open1, step.locals⟩)

def shownAfter (n : ℕ) : Concatenate.Memory × Concatenate.Point :=
  Concatenate.advance^[n] (s.mem.toMemory, ⟨.open1, step.shown.locals⟩)

theorem eq_alone : s = Program.alone s.mem s.owner s.thread t ⟨.open1, step.locals⟩ := by
  rw [Program.alone, ← step.here, Function.update_eq_self]

theorem losesNothing_iff_after : step.LosesNothing layout ↔
    ∃ n, (step.after layout n).2.stmt = .lock ∧ step.shown.Keeps (step.after layout n).1.toMemory := by
  have stage : AtWork (s.mem, ⟨.open1, step.locals⟩) := Or.inr rfl
  have runs {labels : List (Fin K × Input)} {s' : State K}
      (computed : (selection layout K).runUnder (UntilLock t) labels s = some s') : s' = Program.alone
        (step.after layout labels.length).1 s.owner s.thread t (step.after layout labels.length).2 := by
    rw [step.eq_alone] at computed
    exact runs_advance stage computed
  constructor
  · rintro ⟨⟨labels, s', computed, ended⟩, keeps⟩
    have kept := keeps labels s' computed ended
    rw [runs computed] at ended kept
    rw [Threads.pc_of_run (Program.thread_alone ..)] at ended
    exact ⟨labels.length, ended, kept⟩
  · rintro ⟨n, ended, kept⟩
    refine ⟨?_, fun labels s' computed ended' => ?_⟩
    · obtain ⟨labels, computed⟩ : ∃ labels, (selection layout K).runUnder (UntilLock t) labels
          (Program.alone s.mem s.owner s.thread t ⟨.open1, step.locals⟩) = some (Program.alone _ s.owner s.thread t _) :=
        advance_runs n step.live stage ended
      rw [← step.eq_alone] at computed
      refine ⟨labels, _, computed, ?_⟩
      rw [Threads.pc_of_run (Program.thread_alone ..)]
      exact ended
    · rw [runs computed] at ended' ⊢
      rw [Threads.pc_of_run (Program.thread_alone ..)] at ended'
      have same : step.after layout labels.length = step.after layout n :=
        iterate_fixed_unique (advance_lock ended') (advance_lock ended)
      rw [same]
      exact kept

theorem tracks (layout : Layout) (n : ℕ)
    (filename : ∀ i < n, (step.shownAfter i).2.stmt = .openDest →
      layout.filename ("tmp/".length + step.name.length) = .unused)
    (hardlink : ∀ i < n, (step.shownAfter i).2.stmt = .link → layout.hardlink step.name.length = .unused) :
    Tracks step.name (step.after layout n) (step.shownAfter n) := by
  refine Tracks.iterate ⟨rfl, ?_, ⟨step.live, by simp [shown, Locals.named], by simp [shown, Locals.named], Or.inr rfl⟩,
    rfl, fun i found => ?_⟩ n filename hardlink
  · refine shows_paired .open1 rfl (0, 0) ?_ ?_ ?_ ?_
    · rw [step.first]
      rfl
    · rw [step.second]
      rfl
    · rintro name named
      cases Option.some.inj named
      exact step.ordinary _ (Concatenate.mem_of_lookup step.file1)
    · rintro name named
      cases Option.some.inj named
      exact step.ordinary _ (Concatenate.mem_of_lookup step.file2)
  · exact isDirectory_of_tmp step.opens found

/-- A lost process does not come to the end of the iteration. -/
theorem never_of_crashed {n : ℕ} (crashed : (step.after layout n).1.crashed = true)
    (works : (step.after layout n).2.stmt.works = true) (k : ℕ) : (step.after layout k).2.stmt ≠ .lock := by
  intro ended
  have same : step.after layout k = step.after layout n :=
    iterate_fixed_unique (advance_lock ended) (advance_crashed crashed)
  rw [same] at ended
  rw [ended] at works
  cases works

theorem after_succ (n : ℕ) : step.after layout (n + 1) = advance layout (step.after layout n) :=
  Function.iterate_succ_apply' ..

/-- What the abstract model tells about the thread. -/
theorem live_of_tracks {n : ℕ} (tracks : Tracks step.name (step.after layout n) (step.shownAfter n)) :
    (step.after layout n).1.crashed = false := by
  have live := tracks.steady.live
  rw [tracks.mem] at live
  exact live

theorem joined_of_tracks {n : ℕ} (tracks : Tracks step.name (step.after layout n) (step.shownAfter n))
    (here : (step.after layout n).2.stmt = .openDest ∨ (step.after layout n).2.stmt = .link) :
    (step.after layout n).2.locals.joined (step.after layout n).1 = step.name := by
  rw [← tracks.named]
  refine tracks.shows.joined ?_ ?_ <;> rcases here with here | here <;> rw [here] <;> rfl

/-- A byte in use behind `filename` ends the process. -/
theorem never_opens (full : layout.filename ("tmp/".length + step.name.length) ≠ .unused) (k : ℕ) :
    (step.after layout k).2.stmt ≠ .lock := by
  obtain ⟨opens, before⟩ := step.shown.stmt_begins
  have tracks := step.tracks layout 4 (fun i less here => absurd here (before i less).1)
    fun i less here => absurd here (before i less).2
  have here : (step.after layout 4).2.stmt = .openDest := tracks.shows.stmt.symm.trans opens
  rw [← step.joined_of_tracks tracks (Or.inl here)] at full
  have crashes : step.after layout 5 = ((step.after layout 4).1.crash, (step.after layout 4).2) := by
    rw [step.after_succ, advance_openDest (step.live_of_tracks tracks) here full]
  refine step.never_of_crashed (n := 5) ?_ ?_ k <;> rw [crashes]
  · rfl
  · dsimp only
    rw [here]
    rfl

section
variable (unused : layout.filename ("tmp/".length + step.name.length) = .unused)
include unused

/-- An iteration that does not come to the `link` never ends. -/
theorem never_ends (chases : s.mem.tmp.lookup step.name = some step.inode2) (some : s.mem.toMemory.data step.inode1 ≠ [])
    (k : ℕ) : (step.after layout k).2.stmt ≠ .lock := by
  have never (n : ℕ) : (step.shownAfter n).2.stmt ≠ .lock := step.shown.never_finishes chases some n
  have before (n : ℕ) : (step.shownAfter n).2.stmt ≠ .link := by
    intro here
    refine never (2 + n) ?_
    rw [shownAfter, Function.iterate_add_apply]
    exact (Concatenate.stmt_after_link here).2 0
  have tracks := step.tracks layout k (fun _ _ _ => unused) fun i _ here => absurd here (before i)
  rw [← tracks.shows.stmt]
  exact never k

/-- The thread comes to the `link`. -/
theorem comes_to_link (ends : s.mem.tmp.lookup step.name = some step.inode2 → s.mem.toMemory.data step.inode1 = []) :
    ∃ n, Tracks step.name (step.after layout n) (step.shownAfter n) ∧ (step.after layout n).2.stmt = .link ∧
      step.shown.Written (step.after layout n).1.toMemory := by
  obtain ⟨m', l, ⟨n, arrives⟩, named, written⟩ := step.shown.comes_to_link ends
  have here : (step.shownAfter n).2.stmt = .link := congrArg (fun c => c.2.stmt) arrives
  have tracks := step.tracks layout n (fun _ _ _ => unused) fun i less earlier =>
    absurd here (Concatenate.link_once earlier less)
  refine ⟨n, tracks, tracks.shows.stmt.symm.trans here, ?_⟩
  rw [← tracks.mem]
  have mem : (step.shownAfter n).1 = m' := congrArg Prod.fst arrives
  rw [mem]
  exact written

/-- Where `hardlink` has room the thread ends as in the abstract model. -/
theorem ends_unused (free : layout.hardlink step.name.length = .unused)
    (ends : s.mem.tmp.lookup step.name = some step.inode2 → s.mem.toMemory.data step.inode1 = []) :
    ∃ n, (step.after layout n).2.stmt = .lock ∧ step.shown.Result (step.after layout n).1.toMemory := by
  obtain ⟨n, tracks, here, written⟩ := step.comes_to_link unused ends
  have later := step.tracks layout (2 + n) (fun _ _ _ => unused) fun _ _ _ => free
  have here' : (step.shownAfter n).2.stmt = .link := tracks.shows.stmt.trans here
  have goes : step.shownAfter (2 + n) = Concatenate.advance^[2] (step.shownAfter n) := Function.iterate_add_apply ..
  refine ⟨2 + n, ?_, ?_⟩
  · rw [← later.shows.stmt, goes]
    exact (Concatenate.stmt_after_link here').2 0
  · rw [← later.mem, goes, Concatenate.mem_after_link here', tracks.named, tracks.mem]
    exact written.result

/-- Where the zero of `hardlink` makes `filename` empty the new file stays in `tmp`. -/
theorem ends_filename (full : layout.hardlink step.name.length = .filename)
    (ends : s.mem.tmp.lookup step.name = some step.inode2 → s.mem.toMemory.data step.inode1 = []) :
    ∃ n, (step.after layout n).2.stmt = .lock ∧ step.shown.Written (step.after layout n).1.toMemory := by
  obtain ⟨n, tracks, here, written⟩ := step.comes_to_link unused ends
  rw [← step.joined_of_tracks tracks (Or.inr here)] at full
  have goes : step.after layout (2 + n) = ((step.after layout n).1, ⟨.lock, _⟩) :=
    (Function.iterate_add_apply ..).trans (advance_link_filename (step.live_of_tracks tracks) here full)
  refine ⟨2 + n, ?_, ?_⟩ <;> rw [goes]
  exact written

/-- A byte of something else behind `hardlink` ends the process. -/
theorem never_links (full : layout.hardlink step.name.length = .other)
    (ends : s.mem.tmp.lookup step.name = some step.inode2 → s.mem.toMemory.data step.inode1 = []) (k : ℕ) :
    (step.after layout k).2.stmt ≠ .lock := by
  obtain ⟨n, tracks, here, _⟩ := step.comes_to_link unused ends
  rw [← step.joined_of_tracks tracks (Or.inr here)] at full
  have crashes : step.after layout (n + 1) = ((step.after layout n).1.crash, (step.after layout n).2) := by
    rw [step.after_succ, advance_link_other (step.live_of_tracks tracks) here full]
  refine step.never_of_crashed (n := n + 1) ?_ ?_ k <;> rw [crashes]
  · rfl
  · dsimp only
    rw [here]
    rfl

end

theorem losesNothing_of_ended {n : ℕ} (ended : (step.after layout n).2.stmt = .lock) :
    step.LosesNothing layout ↔ step.shown.Keeps (step.after layout n).1.toMemory := by
  rw [step.losesNothing_iff_after]
  refine ⟨fun ⟨k, ended', keeps⟩ => ?_, fun keeps => ⟨n, ended, keeps⟩⟩
  have same : step.after layout k = step.after layout n :=
    iterate_fixed_unique (advance_lock ended') (advance_lock ended)
  rw [same] at keeps
  exact keeps

theorem not_losesNothing_of_never (never : ∀ k, (step.after layout k).2.stmt ≠ .lock) : ¬ step.LosesNothing layout := by
  rw [step.losesNothing_iff_after]
  rintro ⟨k, ended, _⟩
  exact never k ended

/-- An iteration loses nothing if and only if the arrays have room and the new name is clear. -/
theorem loses_nothing_iff : step.LosesNothing layout ↔ step.Clear layout := by
  by_cases unused : layout.filename ("tmp/".length + step.name.length) = .unused
  case neg =>
    exact ⟨fun kept => absurd kept (step.not_losesNothing_of_never (step.never_opens unused)),
      fun clear => absurd clear.filename unused⟩
  by_cases ends : s.mem.tmp.lookup step.name = some step.inode2 → s.mem.toMemory.data step.inode1 = []
  case neg =>
    obtain ⟨chases, some⟩ := Classical.not_imp.mp ends
    exact ⟨fun kept => absurd kept (step.not_losesNothing_of_never (step.never_ends unused chases some)),
      fun clear => absurd clear.names.ends ends⟩
  cases behind : layout.hardlink step.name.length with
  | unused =>
    obtain ⟨n, ended, result⟩ := step.ends_unused unused behind ends
    rw [step.losesNothing_of_ended ended, step.shown.keeps_iff result ends]
    exact ⟨fun clear => ⟨unused, Or.inl behind, clear⟩, Clear.names⟩
  | filename =>
    obtain ⟨n, ended, written⟩ := step.ends_filename unused behind ends
    rw [step.losesNothing_of_ended ended]
    by_cases taken : s.mem.dir.lookup step.name = none
    · refine ⟨fun keeps => absurd keeps (written.not_keeps taken), fun clear => ?_⟩
      rcases clear.hardlink with free | ⟨_, some⟩
      · rw [behind] at free
        cases free
      · exact absurd taken some
    · rw [step.shown.keeps_iff (written.result_of_taken (Option.ne_none_iff_exists'.mp taken)) ends]
      exact ⟨fun clear => ⟨unused, Or.inr ⟨behind, taken⟩, clear⟩, Clear.names⟩
  | other =>
    refine ⟨fun kept => absurd kept (step.not_losesNothing_of_never (step.never_links unused behind ends)),
      fun clear => ?_⟩
    rcases clear.hardlink with free | ⟨own, _⟩
    · rw [behind] at free
      cases free
    · rw [behind] at own
      cases own

end Selected

/-- A directory with two files and one that has the name of their concatenation. -/
def takenName : Memory where
  dir := [(['a'], 0), (['b'], 1), (['a', 'b'], 2)]
  tmp := []
  node i := .regular [if i = 0 then 10 else if i = 1 then 20 else 30]
  fresh := 3
  stream := [dot, dotdot, ['a'], ['b'], ['a', 'b']]
  crashed := false
  dName _ := []

theorem opened_takenName : takenName.Opened where
  nodup := by decide
  ordinary := by decide
  stream := Or.inr (List.Perm.refl _)
  inodes := by decide
  live := rfl

/-- A thread selects the two files and gives the lock back. -/
def selectingBoth (t : Fin 1) : List (Fin 1 × Input) := selecting t ++ steps t bufferNames [] [0]

set_option maxRecDepth 20000 in
/-- The `link` to the taken name fails, and the two files are lost. -/
theorem concatenation_lost : ∃ s : State 1, ∃ step : Selected s 0, (concatenation rounded 1).Reach s ∧
    ¬ step.LosesNothing rounded := by
  have computed : ((concatenation rounded 1).run (selectingBoth 0) (launchOf 1 takenName)).map
      (fun s => ((s.pc 0).stmt, (s.pc 0).locals.filehead1, (s.pc 0).locals.filehead2, s.mem.dName 3, s.mem.dName 4)) =
      some (.open1, some 3, some 4, ['a'], ['b']) := by decide
  have entries : ((concatenation rounded 1).run (selectingBoth 0) (launchOf 1 takenName)).map
      (fun s => (s.mem.dir, s.mem.tmp, s.mem.fresh, s.mem.crashed)) = some (takenName.dir, [], 3, false) := by decide
  have nodes : ((concatenation rounded 1).run (selectingBoth 0) (launchOf 1 takenName)).map
      (fun s => s.mem.node) = some takenName.node := rfl
  obtain ⟨s, reached, state⟩ := Option.map_eq_some_iff.mp computed
  rw [reached, Option.map_some, Option.some.injEq] at entries nodes
  simp only [Prod.mk.injEq] at state entries
  obtain ⟨here, first, second, name1, name2⟩ := state
  obtain ⟨dir, tmp, fresh, live⟩ := entries
  have reach : (concatenation rounded 1).Reach s := .of_run (.start (launch_launchOf opened_takenName)) reached
  have running := running_of_reach (fun _ => Launch.toStarted) reach 0
  let step : Selected s 0 := {
    locals := (s.pc 0).locals
    entry1 := 3
    entry2 := 4
    inode1 := 0
    inode2 := 1
    here := by rw [running, ← here]
    first := first
    second := second
    differ := by rw [name1, name2]; decide
    named1 := by rw [name1]; decide
    named2 := by rw [name2]; decide
    file1 := by rw [dir, name1]; rfl
    file2 := by rw [dir, name2]; rfl
    regular1 := by rw [nodes]; rfl
    regular2 := by rw [nodes]; rfl
    ordinary := by rw [dir]; decide
    inodes := by rw [dir, fresh]; decide
    opens := by rw [Memory.isTmpDirectory, tmp]; rfl
    live := live }
  refine ⟨s, step, reach, fun kept => ?_⟩
  have named : step.name = ['a', 'b'] := by
    change s.mem.dName 3 ++ s.mem.dName 4 = _
    rw [name1, name2]
    rfl
  have unchased : s.mem.tmp.lookup step.name = some step.inode2 → s.mem.toMemory.data step.inode1 = [] := by
    rw [tmp]
    intro found
    cases found
  have room : rounded.filename ("tmp/".length + step.name.length) = .unused ∧
      rounded.hardlink step.name.length = .unused := by
    rw [named]
    exact ⟨rfl, rfl⟩
  obtain ⟨n, ended, result⟩ := step.ends_unused room.1 room.2 unchased
  rw [step.losesNothing_of_ended ended, step.shown.keeps_iff result unchased] at kept
  have entry : s.mem.dir.lookup step.shown.name = some 2 := by
    rw [dir, show step.shown.name = ['a', 'b'] from named]
    rfl
  have taken := kept.taken 2 entry
  rw [nodes] at taken
  have bytes : [30] = step.shown.contents := Concatenate.Node.regular.inj taken
  rw [Concatenate.Selected.contents, Concatenate.Memory.data, Concatenate.Memory.data, nodes] at bytes
  cases bytes

end DeviceProgramming.FileConcatenate
