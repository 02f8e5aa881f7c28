import DeviceProgramming.Concatenate.Subdirectories
import DeviceProgramming.FileConcatenate.Solo
import DeviceProgramming.Machine.Simulation
import Mathlib.Data.List.Infix

namespace DeviceProgramming.FileConcatenate

open Concatenate (Name Inode Lock Stmt special files dot dotdot tmpName only)

/-- The system of the only thread. -/
def solo (layout : Layout) (start : State 1 → Prop) : System (State 1) Input where
  start := start
  next s input := (program layout 1).step s only input

/-- The loop has ended. -/
def Ended (s : State 1) : Prop := (s.pc only).stmt = .left

/-- No call fails and the names have room; no scan rewinds the directory with an old flag or
overwrites the entry of the first file; the second file is still there when it is opened; and
a file left in `tmp` is no directory and not the second file behind a first one with bytes. -/
structure Goes (layout : Layout) (s : State 1) (input : Input) : Prop where
  calls : input.fails = false
  writes : (writing (s.pc only).stmt).length ≤ input.written
  fits : (s.pc only).Fits layout s.mem
  selects : SelectsAfresh s (only, input)
  finds : (s.pc only).stmt = .open2 → ∀ filehead ∈ (s.pc only).locals.filehead2,
    s.mem.dir.lookup (s.mem.dName filehead) ≠ none
  makes : (s.pc only).stmt = .openDest → s.mem.isTmpDirectory ((s.pc only).locals.joined s.mem) = false
  stops : (s.pc only).stmt = .openDest → ∀ one ∈ (s.pc only).locals.file1, ∀ two ∈ (s.pc only).locals.file2,
    s.mem.tmp.lookup ((s.pc only).locals.joined s.mem) = some two.1 → s.mem.toMemory.data one.1 = []

/-- Besides, what is linked is a new entry. -/
structure GoesNew (layout : Layout) (s : State 1) (input : Input) : Prop extends Goes layout s input where
  links : (s.pc only).stmt = .link → (s.pc only).locals.joined s.mem ∉ s.mem.names

theorem goes_iff {layout : Layout} {s : State 1} {input : Input} : Goes layout s input ↔ input.fails = false ∧
    (writing (s.pc only).stmt).length ≤ input.written ∧ (s.pc only).Fits layout s.mem ∧ SelectsAfresh s (only, input) ∧
    ((s.pc only).stmt = .open2 → ∀ filehead ∈ (s.pc only).locals.filehead2,
      s.mem.dir.lookup (s.mem.dName filehead) ≠ none) ∧
    ((s.pc only).stmt = .openDest → s.mem.isTmpDirectory ((s.pc only).locals.joined s.mem) = false) ∧
    ((s.pc only).stmt = .openDest → ∀ one ∈ (s.pc only).locals.file1, ∀ two ∈ (s.pc only).locals.file2,
      s.mem.tmp.lookup ((s.pc only).locals.joined s.mem) = some two.1 → s.mem.toMemory.data one.1 = []) :=
  ⟨fun goes => ⟨goes.calls, goes.writes, goes.fits, goes.selects, goes.finds, goes.makes, goes.stops⟩,
    fun goes => ⟨goes.1, goes.2.1, goes.2.2.1, goes.2.2.2.1, goes.2.2.2.2.1, goes.2.2.2.2.2.1, goes.2.2.2.2.2.2⟩⟩

instance (layout : Layout) (s : State 1) (input : Input) : Decidable (Goes layout s input) :=
  decidable_of_iff' _ goes_iff

instance (layout : Layout) (s : State 1) (input : Input) : Decidable (GoesNew layout s input) :=
  decidable_of_iff' _ ⟨fun goes => And.intro goes.toGoes goes.links, fun ⟨goes, links⟩ => ⟨goes, links⟩⟩

variable {layout : Layout} {start : State 1 → Prop} {s s' begun : State 1} {input : Input} {a : Concatenate.State 1}
  {listing : List Name}

/-- Without failures the rest of the input does not matter to the abstract model. -/
theorem step_plain (fine : input.fails = false) :
    (Concatenate.program 1).step a 0 input.toInput = (Concatenate.program 1).step a 0 ⟨false, false, input.listing⟩ := by
  obtain ⟨⟨fails, changes, listing⟩, slot, dName, written⟩ := input
  cases fine
  have same (q : Concatenate.Point) {effect : Concatenate.Input → Concatenate.Memory →
      Option (Concatenate.Memory × Concatenate.Point)} (here : Concatenate.threadFunc q = .exec effect)
      (m : Concatenate.Memory) : effect ⟨false, changes, listing⟩ m = effect ⟨false, false, listing⟩ m := by
    obtain ⟨stmt, l⟩ := q
    cases stmt with
    | lock | unlock => cases here
    | write2 buffer => cases buffer <;> cases here <;> rfl
    | _ => cases here; rfl
  unfold Program.step
  split
  · rfl
  · split
    · rfl
    · rfl
    · rename_i q at'
      cases here : (Concatenate.program 1).instr 0 q with
      | exec effect => simp only [same q here]
      | _ => rfl

/-- A thread that goes on does so in the abstract model. -/
theorem Goes.shown (goes : Goes layout s input) (shows : Shows s a) : Concatenate.Goes a input.listing := by
  have shown := shows.at 0
  have stmt : (a.pc 0).stmt = (s.pc 0).stmt := shown.stmt
  have joined (here : (s.pc 0).stmt = .openDest) : (a.pc 0).locals.filename = (s.pc 0).locals.joined s.mem :=
    (shown.joined (by rw [here]; rfl) (by rw [here]; rfl)).symm
  refine ⟨fun _ ends once => ?_, fun here name second => ?_, fun here i found => ?_,
    fun here one first two second chases => ?_⟩
  · rw [shows.mem] at ends
    rw [shown.locals] at once
    have fine : input.isError = false := by simp [Concatenate.Input.isError, goes.calls]
    have ends : s.mem.atEnd input = true := by
      rw [Memory.atEnd, Concatenate.Memory.atEnd, goes.calls]
      exact ends
    obtain ⟨scan1, scan2⟩ := goes.selects.1 fine ends once
    rw [stmt, shown.locals]
    refine ⟨scan1, fun here => ⟨(scan2 here).1, fun null => (scan2 here).2 ?_⟩⟩
    have null : (a.pc 0).locals.filehead1 = none := null
    rw [shown.first (by rw [here]; rfl)] at null
    exact Option.map_eq_none_iff.mp null
  · rw [stmt] at here
    rw [Option.mem_def, shown.second (by rw [here]; rfl)] at second
    obtain ⟨filehead, head, rfl⟩ := Option.map_eq_some_iff.mp second
    rw [shows.mem]
    exact goes.finds here filehead head
  · rw [stmt] at here
    rw [joined here, shows.mem] at found
    rw [shows.mem]
    exact isDirectory_of_tmp (goes.makes here) found
  · rw [stmt] at here
    rw [shown.locals] at first second
    rw [joined here, shows.mem] at chases
    rw [shows.mem]
    exact goes.stops here one first two second chases

theorem GoesNew.shown (goes : GoesNew layout s input) (shows : Shows s a) : Concatenate.LinksNew a input.listing := by
  refine ⟨(goes.toGoes.shown shows).makes, fun here => ?_⟩
  rw [(shows.at 0).stmt] at here
  rw [shows.mem, ← (shows.at 0).joined (by rw [here]; rfl) (by rw [here]; rfl)]
  exact goes.links here

/-- A thread that goes on does nothing that the abstract model leaves out. -/
theorem Goes.tame (goes : Goes layout s input) (shows : Shows s a)
    (regular : (a.pc 0).stmt.hasTmp = true → a.mem.RegularTmp (a.pc 0).locals.filename) :
    (s.pc 0).Tame layout input s.mem where
  succeeds _ := goes.calls
  writes buffer here := by
    have whole := goes.writes
    rcases here with here | here <;> rw [here] at whole <;> exact whole
  opens here := ⟨goes.makes here, goes.fits.filename here⟩
  links := goes.fits.hardlink
  regular here name named := by
    have shown := shows.at 0
    have has : (s.pc 0).stmt.hasTmp = true := by rcases here with here | here <;> rw [here] <;> rfl
    rw [shown.filename has] at named
    cases Option.some.inj named
    rw [shown.stmt, shows.mem] at regular
    exact isTmpDirectory_eq_false (regular has)

theorem Goes.keepsEntries (goes : Goes layout s input) : KeepsEntries s (0, input) := by
  intro scans u entry used
  obtain rfl : u = 0 := Subsingleton.elim u 0
  rcases scans with here | here
  · rw [Point.entries, here] at used
    cases used
  · rw [Point.entries, here] at used
    exact goes.selects.2 here entry (Option.mem_toList.mp (List.mem_append.mp used |>.resolve_right List.not_mem_nil))

section
variable {first : Concatenate.State 1 → Prop} {ok : Concatenate.State 1 → List Name → Prop}

/-- A run of the abstract model comes to a state that shows this one. -/
structure Follows (first : Concatenate.State 1 → Prop) (ok : Concatenate.State 1 → List Name → Prop) (s : State 1)
    (a : Concatenate.State 1) : Prop where
  reach : (Concatenate.solo first).ReachUnder ok a
  shows : Shows s a
  running : s.thread 0 = .run (s.pc 0)

theorem Follows.step (follows : Follows first ok s a) (launched : ∀ a, first a → Concatenate.Launch a)
    (makes : ∀ a listing, ok a listing → Concatenate.MakesRegular a) (goes : Goes layout s input)
    (allowed : ok a input.listing) (moved : (program layout 1).step s 0 input = some s') :
    ∃ a', (Concatenate.solo first).next a input.listing = some a' ∧ Follows first ok s' a' := by
  have running (u : Fin 1) : s.thread u = .run (s.pc u) := by
    obtain rfl : u = 0 := Subsingleton.elim u 0
    exact follows.running
  have tame := goes.tame follows.shows (Concatenate.regularTmp_of_reach launched makes follows.reach)
  obtain ⟨a', step, there⟩ := follows.shows.step running tame goes.keepsEntries moved
  rw [step_plain goes.calls] at step
  have still := (awake layout 1).running running (Program.step_iff.mp moved).2
  exact ⟨a', step, follows.reach.next allowed step, there, still 0⟩

/-- A `readdir` returns the next entry of the stream. -/
theorem scan1_goes (l : Locals) (m : Memory) : ∃ input result, scan1 l input m = some result := by
  refine ⟨.plain [m.stream.headD []] m.names 0, ?_⟩
  cases stream : m.stream with
  | nil =>
    by_cases again : l.rewinded <;> simp [scan1, Input.plain, Concatenate.Input.isError, Memory.atEnd,
      Concatenate.Memory.atEnd, stream, again, Memory.rewinddir, Concatenate.Memory.rewinddir]
  | cons entry rest =>
    by_cases skips : special entry <;> simp [scan1, Input.plain, Concatenate.Input.isError, Memory.atEnd,
      Concatenate.Memory.atEnd, stream, skips]

theorem scan2_goes (l : Locals) (m : Memory) : ∃ input result, scan2 l input m = some result := by
  refine ⟨.plain [m.stream.headD []] m.names 0, ?_⟩
  cases stream : m.stream with
  | nil =>
    by_cases again : l.rewinded <;> simp [scan2, Input.plain, Concatenate.Input.isError, Memory.atEnd,
      Concatenate.Memory.atEnd, stream, again, Memory.rewinddir, Concatenate.Memory.rewinddir]
  | cons entry rest =>
    by_cases skips : special entry
    · simp [scan2, Input.plain, Concatenate.Input.isError, Memory.atEnd, Concatenate.Memory.atEnd, stream, skips]
    · cases head : l.filehead1 with
      | none =>
        simp [scan2, Input.plain, Concatenate.Input.isError, Memory.atEnd, Concatenate.Memory.atEnd, stream, skips, head]
      | some filehead =>
        by_cases same : [entry][filehead]?.getD [] = entry <;> simp [scan2, Input.plain, Concatenate.Input.isError,
          Memory.atEnd, Concatenate.Memory.atEnd, stream, skips, head, same]

/-- The lock is free whenever the only thread takes it. -/
theorem Follows.free (follows : Follows first Concatenate.Goes s a) (launched : ∀ a, first a → Concatenate.Launch a)
    (here : (s.pc 0).stmt = .lock) : s.owner .dirLock = none := by
  have here' : (a.pc 0).stmt = .lock := (follows.shows.at 0).stmt.trans here
  have more : ¬ Concatenate.Ended a := by
    rw [Concatenate.Ended, here']
    exact nofun
  obtain ⟨listing, a', moved⟩ := Concatenate.solo_goes launched follows.reach more
  obtain ⟨next, turn, _⟩ := Concatenate.turn_of_solo launched follows.reach moved
  rw [← follows.shows.owner]
  cases turn with
  | lock _ free => exact free
  | unlock other =>
    rw [here'] at other
    cases other
  | move move =>
    rw [here'] at move
    cases move

/-- The thread can go on until its loop has ended. -/
theorem Follows.goes (follows : Follows first Concatenate.Goes s a) (launched : ∀ a, first a → Concatenate.Launch a)
    (more : ¬ Ended s) : ∃ input s', (solo layout start).next s input = some s' := by
  have live : s.mem.crashed = false := by
    have live := (Concatenate.sound_of_reach launched follows.reach).live
    rw [follows.shows.mem] at live
    exact live
  have exec {effect : Input → Memory → Option (Memory × Point)} (here : threadFunc layout (s.pc 0) = .exec effect)
      (goes : ∃ input result, effect input s.mem = some result) :
      ∃ input s', (solo layout start).next s input = some s' := by
    obtain ⟨input, ⟨mem, next⟩, run⟩ := goes
    exact ⟨input, _, Program.step_iff.mpr ⟨live, .exec follows.running here run⟩⟩
  by_cases works : (s.pc 0).stmt.works = true
  · obtain ⟨effect, here⟩ := exec_of_works layout works
    exact exec here ⟨_, _, exec_eq_advance live works here (Point.succeeds_success _)⟩
  cases at' : (s.pc 0).stmt with
  | lock =>
    have here : threadFunc layout (s.pc 0) = .acquire .dirLock ⟨.scan1, { (s.pc 0).locals with rewinded := false }⟩ := by
      rw [threadFunc, at']
    exact ⟨.plain [] [] 0, _,
      Program.step_iff.mpr ⟨live, .acquire follows.running here (follows.free launched at')⟩⟩
  | unlock =>
    have here : threadFunc layout (s.pc 0) = .release .dirLock ⟨.open1, (s.pc 0).locals⟩ := by
      rw [threadFunc, at']
    exact ⟨.plain [] [] 0, _, Program.step_iff.mpr ⟨live, .release follows.running here⟩⟩
  | scan1 =>
    have here : threadFunc layout (s.pc 0) = .exec fun input m => scan1 (s.pc 0).locals input m := by
      rw [threadFunc, at']
    exact exec here (scan1_goes _ _)
  | scan2 =>
    have here : threadFunc layout (s.pc 0) = .exec fun input m => scan2 (s.pc 0).locals input m := by
      rw [threadFunc, at']
    exact exec here (scan2_goes _ _)
  | left => exact absurd at' more
  | _ => simp [at', Stmt.works] at works

end

/-- The abstract model at the start of a thread. -/
theorem Launch.follows {ok : Concatenate.State 1 → List Name → Prop} (launch : Launch begun) :
    Follows (· = FileConcatenate.abstraction begun) ok begun (FileConcatenate.abstraction begun) where
  reach := .start rfl
  shows := launch.shows
  running := by
    obtain ⟨isDir, at'⟩ := launch.thread 0
    rw [Threads.pc_of_run at', at']

/-- In a directory without subdirectories, or with one entry at most, the loop ends in all runs
whose steps go on; in any other directory it does not end as long as what is linked is a new
entry. -/
theorem concatenation_ends (launch : Launch begun) :
    (begun.mem.toMemory.Plain → ∀ s, (solo layout (· = begun)).ReachUnder (Goes layout) s →
      (solo layout (· = begun)).Inevitable (Goes layout) Ended s) ∧
    (¬ begun.mem.toMemory.Plain → ∀ s, (solo layout (· = begun)).ReachUnder (GoesNew layout) s → ¬ Ended s) := by
  have launched : ∀ a, a = abstraction begun → Concatenate.Launch a := by
    rintro a rfl
    exact launch.abstraction
  have initial (ok : Concatenate.State 1 → List Name → Prop) : ∀ s, s = begun → ∃ a, a = abstraction begun ∧
      Follows (· = abstraction begun) ok s a := by
    rintro s rfl
    exact ⟨_, rfl, launch.follows⟩
  constructor
  · intro plain s reach
    have simulates : System.Simulates (solo layout (· = begun)) (Concatenate.solo (· = abstraction begun)) (Goes layout)
        Concatenate.Goes (Follows (· = abstraction begun) Concatenate.Goes) := by
      intro s a input s' follows goes moved
      have allowed := goes.shown follows.shows
      obtain ⟨a', step, there⟩ := follows.step launched (fun _ _ goes => goes.makes) goes allowed moved
      exact ⟨input.listing, a', allowed, step, there⟩
    obtain ⟨a, reached, follows⟩ := simulates.reach (initial _) reach
    refine simulates.inevitable (fun s a follows ended => ?_) (fun s a follows more => follows.goes launched more) follows
      (Concatenate.ends_of_plain ?_ reached)
    · exact (follows.shows.at 0).stmt.symm.trans ended
    · rintro a rfl
      exact ⟨launch.abstraction, plain⟩
  · intro crowded s reach
    have simulates : System.Simulates (solo layout (· = begun)) (Concatenate.solo (· = abstraction begun))
        (GoesNew layout) Concatenate.LinksNew (Follows (· = abstraction begun) Concatenate.LinksNew) := by
      intro s a input s' follows goes moved
      have allowed := goes.shown follows.shows
      obtain ⟨a', step, there⟩ := follows.step launched (fun _ _ new => new.makes) goes.toGoes allowed moved
      exact ⟨input.listing, a', allowed, step, there⟩
    obtain ⟨a, reached, follows⟩ := simulates.reach (initial _) reach
    rw [Ended, ← (follows.shows.at 0).stmt]
    refine Concatenate.not_ended_of_crowded ?_ reached
    rintro a rfl
    exact ⟨launch.abstraction, crowded⟩

/-- Two files that the stream lists before the special entries. -/
def filesFirst : Memory := { twoFiles with stream := [['a'], ['b'], dot, dotdot] }

theorem opened_filesFirst : filesFirst.Opened where
  nodup := by decide
  ordinary := by decide
  stream := by decide
  inodes := by decide
  live := rfl

/-- The same with a subdirectory. -/
def mixed : Memory := { filesFirst with
  dir := [(['a'], 0), (['b'], 1), (['c'], 2)]
  node i := if i = 2 then .directory else .regular [10]
  fresh := 3
  stream := [['a'], ['b'], dot, dotdot, ['c']] }

theorem opened_mixed : mixed.Opened where
  nodup := by decide
  ordinary := by decide
  stream := by decide
  inodes := by decide
  live := rfl

/-- The calls of the thread, with the entries at `slots`. -/
def calls (listing : List Name) (slots : List ℕ) : List Input := slots.map (.plain bufferNames listing)

/-- The thread selects the two files and makes one of them. -/
def concatenates : List Input := calls [] ([0, 3, 4] ++ List.replicate 14 0)

/-- It lists the directory twice more. -/
def lists : List Input := calls [['a', 'b'], dot, dotdot, tmpName] [0, 0, 1, 0, 5, 0, 1, 2, 0, 5, 0, 1, 2, 0]

set_option maxRecDepth 20000 in
/-- The two files are concatenated, the directory is listed twice more, and the loop has ended;
with a subdirectory it goes on. -/
theorem concatenation_ends_filesFirst : (∃ s s' : State 1, (s.pc 0).stmt = .lock ∧
    (solo rounded (· = launchOf 1 filesFirst)).Inevitable (Goes rounded) Ended s ∧
    (solo rounded (· = launchOf 1 filesFirst)).runUnder (Goes rounded) lists s = some s' ∧ Ended s') ∧
    ∃ s : State 1, s.mem.dir.map Prod.fst = [['a', 'b'], ['c']] ∧ ¬ Ended s := by
  constructor
  · have computed : (((solo rounded (· = launchOf 1 filesFirst)).runUnder (Goes rounded) concatenates
        (launchOf 1 filesFirst)).bind fun s =>
          ((solo rounded (· = launchOf 1 filesFirst)).runUnder (Goes rounded) lists s).map
          fun s' => ((s.pc 0).stmt, (s'.pc 0).stmt)) = some (.lock, .left) := by decide
    obtain ⟨s, reached, later⟩ := Option.bind_eq_some_iff.mp computed
    obtain ⟨s', ended, state⟩ := Option.map_eq_some_iff.mp later
    obtain ⟨here, left⟩ := Prod.mk.inj state
    refine ⟨s, s', here, (concatenation_ends (launch_launchOf opened_filesFirst)).1 ?_ s
      (.of_run (.start rfl) reached), ended, left⟩
    exact Or.inl fun _ _ => rfl
  · have computed : ((solo rounded (· = launchOf 1 mixed)).runUnder (GoesNew rounded) concatenates
        (launchOf 1 mixed)).map (fun s => s.mem.dir.map Prod.fst) = some [['a', 'b'], ['c']] := by decide
    obtain ⟨s, reached, names⟩ := Option.map_eq_some_iff.mp computed
    refine ⟨s, names, (concatenation_ends (launch_launchOf opened_mixed)).2 ?_ s (.of_run (.start rfl) reached)⟩
    rintro (files | one)
    · cases files (['c'], 2) (by decide)
    · exact absurd one (by decide)

/-- A directory with two subdirectories. -/
def twoDirectories : Memory := { filesFirst with
  node _ := .directory
  stream := [['a'], ['b'], dot, dotdot, tmpName] }

theorem opened_twoDirectories : twoDirectories.Opened where
  nodup := by decide
  ordinary := by decide
  stream := by decide
  inodes := by decide
  live := rfl

/-- The thread has selected and skipped the two subdirectories. -/
def skipped : State 1 where
  mem := { twoDirectories with stream := [dot, dotdot, tmpName], dName := fun at' => bufferNames.getD at' [] }
  owner _ := none
  thread _ := .run ⟨.lock, { Locals.init true with
    next1 := false, next2 := false, filehead1 := some 3, filehead2 := some 4, file1 := some (0, 0) }⟩

/-- The states of the only thread are told apart by the directory, the lock and the thread. -/
theorem eq_some_of_parts {o : Option (State 1)} {s : State 1}
    (same : o.map (fun s => (s.mem, s.owner .dirLock, s.thread 0)) = some (s.mem, s.owner .dirLock, s.thread 0)) :
    o = some s := by
  obtain ⟨⟨mem, owner, thread⟩, rfl, parts⟩ := Option.map_eq_some_iff.mp same
  obtain ⟨mem', owner', thread'⟩ := s
  simp only [Prod.mk.injEq] at parts
  obtain ⟨rfl, lock, point⟩ := parts
  have owners : owner = owner' := funext fun | .dirLock => lock
  have threads : thread = thread' := funext fun u => by rw [Subsingleton.elim u 0, point]
  rw [owners, threads]

/-- One round of the thread through the directory that is listed in the same order again. -/
def skips : List Input := calls [['a'], ['b'], dot, dotdot, tmpName] [0, 0, 1, 2, 0, 3, 4, 0, 0]

set_option maxRecDepth 20000 in
/-- The two subdirectories are selected and skipped for ever. -/
theorem concatenation_never_ends :
    ¬ ∀ s : State 1, Launch s → (solo rounded Launch).Inevitable (Goes rounded) Ended s := by
  intro claim
  have certain := claim _ (launch_launchOf opened_twoDirectories)
  have reached : (solo rounded Launch).runUnder (Goes rounded) (calls [] [0, 3, 4, 0, 0]) (launchOf 1 twoDirectories) =
      some skipped := eq_some_of_parts rfl
  have around : (solo rounded Launch).runUnder (Goes rounded) skips skipped = some skipped := eq_some_of_parts rfl
  have never {labels : List Input} {begun : State 1} (away : ∀ first ∈ labels.inits,
      (((solo rounded Launch).runUnder (Goes rounded) first begun).all fun s => (s.pc 0).stmt ≠ .left) = true)
      (first : List Input) (start : first <+: labels) (s : State 1)
      (computed : (solo rounded Launch).runUnder (Goes rounded) first begun = some s) : ¬ Ended s := by
    have stmt := away first ((List.mem_inits ..).mpr start)
    rw [computed] at stmt
    exact of_decide_eq_true (p := (s.pc 0).stmt ≠ .left) stmt
  exact System.not_inevitable_of_cycle around nofun (never (by decide)) (certain.of_run reached (never (by decide)))

end DeviceProgramming.FileConcatenate
