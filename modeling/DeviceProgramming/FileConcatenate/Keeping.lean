import DeviceProgramming.Concatenate.Contents
import DeviceProgramming.FileConcatenate.Pairs
import DeviceProgramming.FileConcatenate.Simulation

namespace DeviceProgramming.FileConcatenate

open Concatenate (Name Inode Lock Stmt special files dot dotdot tmpName)

/-- The names of the files that a thread has selected and not yet unlinked. -/
def Point.chosen (dName : ℕ → Name) (p : Point) : List Name :=
  let first := (p.locals.filehead1.map dName).toList
  let second := (p.locals.filehead2.map dName).toList
  match p.stmt with
  | .scan2 => first
  | .unlock | .open1 | .open2 | .unlink1 => first ++ second
  | .unlink2 => second
  | _ => []

/-- The two files of a thread, from the moment it leaves the critical section
until it has unlinked both. -/
def Point.pair (dName : ℕ → Name) (p : Point) : List Name := match p.stmt with
  | .open1 | .open2 | .unlink1 | .unlink2 =>
    (p.locals.filehead1.map dName).toList ++ (p.locals.filehead2.map dName).toList
  | _ => []

/-- No thread has selected a file of the pair of another one. -/
def Unshared {K : ℕ} (s : State K) : Prop := ∀ t u, u ≠ t →
  ∀ name ∈ (s.pc t).pair s.mem.dName, name ∉ (s.pc u).chosen s.mem.dName

/-- No thread has unlinked a file whose bytes are not yet linked again. -/
def Settled {K : ℕ} (s : State K) : Prop := ∀ t, (s.pc t).stmt.carries = false

/-- `rewinddir` is called only while no other thread has selected a file that is
still in the directory; and a thread that has selected its first file calls it
only when it goes on with the scan and finds this file again as the first one. -/
def RewindsAlone {K : ℕ} (s : State K) (label : Fin K × Input) : Prop :=
  (s.pc label.1).stmt = .scan1 ∨ (s.pc label.1).stmt = .scan2 → label.2.isError = false →
    s.mem.atEnd label.2 = true → (s.pc label.1).locals.rewinded = false →
    (∀ u, u ≠ label.1 → ∀ name ∈ (s.pc u).chosen s.mem.dName, name ∉ s.mem.names) ∧
    ((s.pc label.1).stmt = .scan2 → ∀ filehead ∈ (s.pc label.1).locals.filehead1,
      (s.pc label.1).locals.next2 = true ∧ (files label.2.listing).head? = some (s.mem.dName filehead))

/-- A thread is about to use a null pointer. -/
def Point.UsesNull (p : Point) (input : Input) (m : Memory) : Prop :=
  (p.stmt = .scan2 ∧ p.locals.filehead1 = none ∧ input.isError = false ∧ m.atEnd input = false ∧
    m.stream.head?.any (fun entry => !special entry) = true) ∨
  (p.stmt = .open1 ∧ p.locals.filehead1 = none) ∨ (p.stmt = .open2 ∧ p.locals.filehead2 = none)

/-- The bytes that a thread is about to write. -/
def writing : Stmt → List UInt8
  | .write1 buffer | .write2 (some buffer) => buffer
  | _ => []

/-- After the critical section no call fails and every `write` takes all its bytes. -/
structure Point.Succeeds (input : Input) (p : Point) : Prop where
  calls : p.stmt.works = true → input.fails = false
  writes : (writing p.stmt).length ≤ input.written

/-- The zeros that end `filename` and `hardlink` are stored in bytes that nothing uses. -/
structure Point.Fits (layout : Layout) (m : Memory) (p : Point) : Prop where
  filename : p.stmt = .openDest → layout.filename ("tmp/".length + (p.locals.joined m).length) = .unused
  hardlink : p.stmt = .link → layout.hardlink (p.locals.joined m).length = .unused

/-- A step that takes no file from another thread: it leaves the entries in use as they are
and rewinds the directory alone, its file in `tmp` is new, the name it links is new, its
calls succeed and its names have room, and it does not end the process while a thread has
unlinked files in its hands. -/
structure KeepsFiles (layout : Layout) {K : ℕ} (s : State K) (label : Fin K × Input) : Prop where
  entries : KeepsEntries s label
  rewinds : RewindsAlone s label
  creates : (s.pc label.1).stmt = .openDest → s.mem.tmp.lookup ((s.pc label.1).locals.joined s.mem) = none
  links : (s.pc label.1).stmt = .link → (s.pc label.1).locals.joined s.mem ∉ s.mem.names
  succeeds : (s.pc label.1).Succeeds label.2
  fits : (s.pc label.1).Fits layout s.mem
  crashes : (s.pc label.1).UsesNull label.2 s.mem → ∀ t, (s.pc t).stmt.carries = false

instance {K : ℕ} (s : State K) (label : Fin K × Input) : Decidable (KeepsEntries s label) :=
  inferInstanceAs (Decidable (_ → _))

instance {K : ℕ} (s : State K) (label : Fin K × Input) : Decidable (RewindsAlone s label) :=
  inferInstanceAs (Decidable (_ → _ → _ → _ → _ ∧ (_ → _)))

instance (p : Point) (input : Input) (m : Memory) : Decidable (p.UsesNull input m) :=
  inferInstanceAs (Decidable (_ ∨ _ ∨ _))

instance (input : Input) (p : Point) : Decidable (p.Succeeds input) :=
  decidable_of_iff' _ ⟨fun succeeds => And.intro succeeds.calls succeeds.writes, fun ⟨calls, writes⟩ => ⟨calls, writes⟩⟩

instance (layout : Layout) (m : Memory) (p : Point) : Decidable (p.Fits layout m) :=
  decidable_of_iff' _ ⟨fun fits => And.intro fits.filename fits.hardlink, fun ⟨one, two⟩ => ⟨one, two⟩⟩

theorem keepsFiles_iff {layout : Layout} {K : ℕ} {s : State K} {label : Fin K × Input} : KeepsFiles layout s label ↔
    KeepsEntries s label ∧ RewindsAlone s label ∧
    ((s.pc label.1).stmt = .openDest → s.mem.tmp.lookup ((s.pc label.1).locals.joined s.mem) = none) ∧
    ((s.pc label.1).stmt = .link → (s.pc label.1).locals.joined s.mem ∉ s.mem.names) ∧
    (s.pc label.1).Succeeds label.2 ∧ (s.pc label.1).Fits layout s.mem ∧
    ((s.pc label.1).UsesNull label.2 s.mem → ∀ t, (s.pc t).stmt.carries = false) :=
  ⟨fun ok => ⟨ok.entries, ok.rewinds, ok.creates, ok.links, ok.succeeds, ok.fits, ok.crashes⟩,
    fun ok => ⟨ok.1, ok.2.1, ok.2.2.1, ok.2.2.2.1, ok.2.2.2.2.1, ok.2.2.2.2.2.1, ok.2.2.2.2.2.2⟩⟩

instance (layout : Layout) {K : ℕ} (s : State K) (label : Fin K × Input) : Decidable (KeepsFiles layout s label) :=
  decidable_of_iff' _ keepsFiles_iff

variable {layout : Layout} {K : ℕ} {s s' : State K} {t : Fin K} {input : Input} {p : Point} {q : Concatenate.Point}
  {a : Concatenate.State K} {dName : ℕ → Name}

theorem Point.Shows.chosen (shows : p.Shows dName q) : q.chosen = p.chosen dName := by
  have stmt := shows.stmt
  cases here : p.stmt with
  | scan2 =>
    have first := shows.first (by rw [here]; rfl)
    simp only [Concatenate.Point.chosen, Point.chosen, stmt, here, first]
  | unlock | open1 | open2 | unlink1 | unlink2 =>
    have first := shows.first (by rw [here]; rfl)
    have second := shows.second (by rw [here]; rfl)
    simp only [Concatenate.Point.chosen, Point.chosen, stmt, here, first, second]
  | _ => simp only [Concatenate.Point.chosen, Point.chosen, stmt, here]

theorem Point.Shows.pair (shows : p.Shows dName q) : q.pair = p.pair dName := by
  have stmt := shows.stmt
  cases here : p.stmt with
  | open1 | open2 | unlink1 | unlink2 =>
    have first := shows.first (by rw [here]; rfl)
    have second := shows.second (by rw [here]; rfl)
    simp only [Concatenate.Point.pair, Point.pair, stmt, here, first, second]
  | _ => simp only [Concatenate.Point.pair, Point.pair, stmt, here]

theorem Shows.at (shows : Shows s a) (t : Fin K) : (s.pc t).Shows s.mem.dName (a.pc t) := by
  obtain ⟨q, at', shown⟩ := shows.thread t
  rw [Threads.pc_of_run at']
  exact shown

theorem Shows.unshared (shows : Shows s a) (unshared : Concatenate.Unshared a) : Unshared s := by
  intro t u other name paired chosen
  rw [← (shows.at t).pair] at paired
  rw [← (shows.at u).chosen] at chosen
  exact unshared t u other name paired chosen

theorem Shows.settled (shows : Shows s a) (settled : Settled s) : Concatenate.Settled a := by
  intro t
  rw [(shows.at t).stmt]
  exact settled t

theorem Point.Shows.usesNull (shows : p.Shows m.dName q) (null : q.UsesNull input.toInput m.toMemory) :
    p.UsesNull input m := by
  have stmt := shows.stmt
  rcases null with ⟨here, null, more⟩ | ⟨here, null⟩ | ⟨here, null⟩
  all_goals rw [stmt] at here
  · rw [shows.first (by rw [here]; rfl), Option.map_eq_none_iff] at null
    exact Or.inl ⟨here, null, more⟩
  · rw [shows.first (by rw [here]; rfl), Option.map_eq_none_iff] at null
    exact Or.inr (Or.inl ⟨here, null⟩)
  · rw [shows.second (by rw [here]; rfl), Option.map_eq_none_iff] at null
    exact Or.inr (Or.inr ⟨here, null⟩)

/-- What keeps the files keeps them in the abstract model. -/
theorem Shows.keepsFiles (shows : Shows s a) (keeps : KeepsFiles layout s (t, input)) :
    Concatenate.KeepsFiles a (t, input.toInput) := by
  have shown := shows.at t
  have stmt : (a.pc t).stmt = (s.pc t).stmt := shown.stmt
  refine ⟨fun scans fine ends once => ?_, fun here => ?_, fun here => ?_, fun null u => ?_⟩
  · dsimp only at scans fine ends once
    rw [stmt] at scans
    rw [shows.mem] at ends
    rw [shown.locals] at once
    obtain ⟨others, own⟩ := keeps.rewinds scans fine ends once
    refine ⟨fun u other name chosen => ?_, fun here name first => ?_⟩
    · rw [(shows.at u).chosen] at chosen
      rw [shows.mem]
      exact others u other name chosen
    · dsimp only at here
      rw [stmt] at here
      rw [Option.mem_toList, shown.first (by rw [here]; rfl)] at first
      obtain ⟨filehead, head, rfl⟩ := Option.map_eq_some_iff.mp first
      rw [shown.locals]
      exact own here filehead head
  · dsimp only at here ⊢
    rw [stmt] at here
    rw [shows.mem, ← shown.joined (by rw [here]; rfl) (by rw [here]; rfl)]
    exact keeps.creates here
  · dsimp only at here ⊢
    rw [stmt] at here
    rw [shows.mem, ← shown.joined (by rw [here]; rfl) (by rw [here]; rfl)]
    exact keeps.links here
  · dsimp only at null
    rw [shows.mem] at null
    rw [(shows.at u).stmt]
    exact keeps.crashes (shown.usesNull null) u

theorem isTmpDirectory_eq_false {m : Memory} {file : Name} (regular : m.toMemory.RegularTmp file) :
    m.isTmpDirectory file = false := by
  rw [Memory.isTmpDirectory]
  cases found : m.tmp.lookup file with
  | none => rfl
  | some i => exact regular i found

/-- A step that keeps the files does nothing that the abstract model leaves out. -/
theorem KeepsFiles.tame (keeps : KeepsFiles layout s (t, input))
    (regular : (s.pc t).stmt.hasTmp = true → ∀ name ∈ (s.pc t).locals.filename, s.mem.isTmpDirectory name = false) :
    (s.pc t).Tame layout input s.mem where
  succeeds := keeps.succeeds.calls
  writes buffer here := by
    have whole := keeps.succeeds.writes
    rcases here with here | here <;> rw [here] at whole <;> exact whole
  opens here := by
    refine ⟨?_, keeps.fits.filename here⟩
    rw [Memory.isTmpDirectory, keeps.creates here]
    rfl
  links := keeps.fits.hardlink
  regular here := by
    refine regular ?_
    rcases here with here | here <;> rw [here] <;> rfl

/-- The abstract model of a state at the start. -/
def abstraction (s : State K) : Concatenate.State K where
  mem := s.mem.toMemory
  owner := s.owner
  thread t := .run ⟨(s.pc t).stmt, (s.pc t).locals.named none none (0, 0)⟩

theorem Launch.abstraction (launch : Launch s) : Concatenate.Launch (abstraction s) where
  opened := launch.opened
  free := launch.free
  thread t := by
    obtain ⟨isDir, at'⟩ := launch.thread t
    refine ⟨isDir, ?_⟩
    rw [FileConcatenate.abstraction]
    dsimp only
    rw [Threads.pc_of_run at']
    rfl

theorem Launch.shows (launch : Launch s) : Shows s (FileConcatenate.abstraction s) where
  mem := rfl
  owner := rfl
  thread t := by
    obtain ⟨isDir, at'⟩ := launch.thread t
    refine ⟨_, rfl, ?_⟩
    rw [Threads.pc_of_run at']
    exact shows_quiet .lock rfl rfl rfl none none (0, 0)

/-- A run that keeps the files is one of the abstract model. -/
theorem shows_of_reach {begun : State K} (launch : Launch begun)
    (regular : ∀ entry ∈ begun.mem.dir, (begun.mem.node entry.2).isDirectory = false)
    (reach : ((program layout K).system (· = begun)).ReachUnder (KeepsFiles layout) s) :
    ∃ a, ((Concatenate.program K).system (· = abstraction begun)).ReachUnder Concatenate.KeepsFiles a ∧ Shows s a := by
  refine reach.invariant (motive := fun s => ∃ a, ((Concatenate.program K).system
    (· = abstraction begun)).ReachUnder Concatenate.KeepsFiles a ∧ Shows s a) ?_ ?_
  · rintro s rfl
    exact ⟨_, .start rfl, launch.shows⟩
  · rintro s s' ⟨t, input⟩ earlier ⟨a, reached, shows⟩ keeps moved
    have running := running_of_reach (fun s (same : s = begun) => same ▸ launch.toStarted) earlier
    have regular : (s.pc t).stmt.hasTmp = true → ∀ name ∈ (s.pc t).locals.filename,
        s.mem.isTmpDirectory name = false := by
      intro has name named
      have shown := shows.at t
      rw [← shown.stmt] at has
      obtain ⟨i, found, regular⟩ := Concatenate.tmp_regular_of_reach launch.abstraction regular reached t has
      rw [shown.stmt] at has
      rw [shown.filename has] at named
      cases Option.some.inj named
      rw [shows.mem] at found regular
      rw [Memory.isTmpDirectory, found]
      exact regular
    obtain ⟨a', step, there⟩ := shows.step running (keeps.tame regular) keeps.entries moved
    exact ⟨a', reached.next (shows.keepsFiles keeps) step, there⟩

/-- A thread with files in its hands can go on. -/
theorem settled_of_stuck (running : ∀ t, s.thread t = .run (s.pc t))
    (crashed : s.mem.crashed = true → Settled s) (stuck : ∀ t input, (program layout K).step s t input = none) :
    Settled s := by
  intro t
  cases live : s.mem.crashed with
  | true => exact crashed live t
  | false =>
    by_contra carries
    have blocked := stuck t (.plain [] [] 0)
    cases here : (s.pc t).stmt with
    | lock | scan1 | scan2 | unlock | open1 | open2 | unlink1 | unlinkTmp | left =>
      rw [here] at carries
      exact carries rfl
    | write2 buffer => cases buffer <;> simp [Program.step, program, live, running t, threadFunc, here] at blocked
    | _ => simp [Program.step, program, live, running t, threadFunc, here] at blocked

/-- As long as no step takes a file from another thread, no two threads work on
one file; whenever no thread has files in its hands the files in the directory consist
of the original ones, each used once; and when no thread can go on that is so. -/
theorem files_kept {begun : State K} (launch : Launch begun)
    (regular : ∀ entry ∈ begun.mem.dir, (begun.mem.node entry.2).isDirectory = false)
    (reach : ((program layout K).system (· = begun)).ReachUnder (KeepsFiles layout) s) :
    Unshared s ∧
      (Settled s → Regrouped (Concatenate.contents s.mem.toMemory) (Concatenate.contents begun.mem.toMemory)) ∧
      ((∀ t input, (program layout K).step s t input = none) → Settled s) := by
  obtain ⟨a, reached, shows⟩ := shows_of_reach launch regular reach
  obtain ⟨tidy, regrouped⟩ := Concatenate.tidy_of_reach launch.abstraction regular reached
  have running := running_of_reach (fun s (same : s = begun) => same ▸ launch.toStarted) reach
  refine ⟨shows.unshared tidy.unshared, fun settled => ?_, settled_of_stuck running fun crashed t => ?_⟩
  · rw [(shows.settled settled).pieces, shows.mem] at regrouped
    exact regrouped
  · rw [← (shows.at t).stmt]
    refine tidy.crashed ?_ t
    rw [shows.mem]
    exact crashed

set_option maxRecDepth 20000 in
/-- The first of two threads concatenates the two files. -/
theorem files_kept_concatenated : ∃ s : State 2, Concatenate.contents s.mem.toMemory = {[10, 20]} ∧ Unshared s ∧
    Regrouped (Concatenate.contents s.mem.toMemory) (Concatenate.contents twoFiles.toMemory) := by
  have computed : (((program rounded 2).system (· = launchOf 2 twoFiles)).runUnder (KeepsFiles rounded)
      (selecting 0 ++ concatenating 0) (launchOf 2 twoFiles)).map
      (fun s => decide (s.mem.dir.map (fun entry => s.mem.toMemory.data entry.2) = [[10, 20]] ∧
        ∀ t, (s.pc t).stmt.carries = false)) = some true := by decide
  obtain ⟨s, reached, state⟩ := Option.map_eq_some_iff.mp computed
  obtain ⟨files, settled⟩ := of_decide_eq_true state
  obtain ⟨unshared, regrouped, _⟩ := files_kept (launch_launchOf opened_twoFiles) (fun _ _ => rfl)
    (System.ReachUnder.of_run (.start rfl) reached)
  exact ⟨s, congrArg Multiset.ofList files, unshared, regrouped settled⟩

set_option maxRecDepth 20000 in
/-- The second thread rewinds the directory and selects the two files that the
first one has just selected. -/
theorem files_shared : ∃ begun s : State 2, Launch begun ∧
    (∀ entry ∈ begun.mem.dir, (begun.mem.node entry.2).isDirectory = false) ∧
    ((program rounded 2).system (· = begun)).Reach s ∧ ¬ Unshared s := by
  have computed : (((program rounded 2).system (· = launchOf 2 twoFiles)).run
      (selecting 0 ++ steps 0 bufferNames [] [0] ++
        steps 1 bufferNames [dot, dotdot, tmpName, ['a'], ['b']] [0, 0, 0, 1, 2, 3, 4]) (launchOf 2 twoFiles)).map
      (fun s => ((s.pc 0).pair s.mem.dName, (s.pc 1).chosen s.mem.dName)) =
      some ([['a'], ['b']], [['a'], ['b']]) := by decide
  obtain ⟨s, reached, state⟩ := Option.map_eq_some_iff.mp computed
  simp only [Prod.mk.injEq] at state
  refine ⟨launchOf 2 twoFiles, s, launch_launchOf opened_twoFiles, fun _ _ => rfl, .of_run (.start rfl) reached,
    fun unshared => ?_⟩
  refine unshared 0 1 (by decide) ['a'] ?_ ?_
  · rw [state.1]
    decide
  · rw [state.2]
    decide

end DeviceProgramming.FileConcatenate
