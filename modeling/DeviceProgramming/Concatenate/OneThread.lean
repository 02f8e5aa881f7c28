import DeviceProgramming.Concatenate.Overwriting

namespace DeviceProgramming.Concatenate

/-- The only thread. -/
abbrev only : Fin 1 := 0

/-- The system of the only thread, for which `readdir` does not fail. A label is the order in
which a rewound stream lists the directory. -/
def solo (start : State 1 → Prop) : System (State 1) (List Name) where
  start := start
  next s listing := (program 1).step s only ⟨false, false, listing⟩

/-- The loop has ended. -/
def Ended (s : State 1) : Prop := (s.pc only).stmt = .left

/-- The bit `S_IFDIR` after the `fstat` of a file. -/
def Locals.ifdir (l : Locals) (m : Memory) (name : Name) : Bool :=
  (m.dir.lookup name).elim l.isDir fun i => (m.node i).isDirectory

/-- At a `rewinddir` the flag of the loop is not the 0 of an earlier iteration; a
first scan that ends here, or has ended so, leaves no file to compare. -/
def Point.RewindsFresh (input : Input) (m : Memory) (p : Point) : Prop :=
  input.isError = false → m.atEnd input = true → p.locals.rewinded = false →
    (p.stmt = .scan1 → p.locals.next1 = true ∨ files input.listing = []) ∧
    (p.stmt = .scan2 → p.locals.next2 = true ∧ (p.locals.filehead1 = none → files input.listing = []))

/-- No scan rewinds the directory with an old flag, the second file is still
there when it is opened, and a file left in `tmp` is no directory and not the second file
behind a first one with bytes. -/
structure Point.Goes (listing : List Name) (m : Memory) (p : Point) : Prop where
  rewinds : p.RewindsFresh ⟨false, false, listing⟩ m
  finds : p.stmt = .open2 → ∀ name ∈ p.locals.filehead2, m.dir.lookup name ≠ none
  makes : p.stmt = .openDest → m.RegularTmp p.locals.filename
  stops : p.stmt = .openDest → ∀ one ∈ p.locals.file1, ∀ two ∈ p.locals.file2,
    m.tmp.lookup p.locals.filename = some two.1 → m.data one.1 = []

/-- Neither of the selected files is a directory. -/
def Point.OpensFiles (m : Memory) (p : Point) : Prop :=
  (p.stmt = .open1 → ∀ name ∈ p.locals.filehead1, p.locals.ifdir m name = false) ∧
  (p.stmt = .open2 → ∀ name ∈ p.locals.filehead2, p.locals.ifdir m name = false)

def Goes (s : State 1) (listing : List Name) : Prop := (s.pc 0).Goes listing s.mem

def OpensFiles (s : State 1) (_ : List Name) : Prop := (s.pc 0).OpensFiles s.mem

namespace Stmt

/-- While both files are selected. -/
def paired : Stmt → Bool
  | unlock | open1 | open2 | unlink1 | unlink2 => true
  | _ => false

/-- Between the calls of `unlink` and the `link`. -/
def awaitsLink : Stmt → Bool
  | openDest => true
  | stmt => stmt.copies

end Stmt

/-- A descriptor within its file; where it is that of the new file, `dest` has
been given as much as has been read. -/
def Within (m : Memory) (dest : Inode × ℕ) (pending : ℕ) (d : Inode × ℕ) : Prop :=
  d.2 ≤ (m.data d.1).length ∧ (d.1 = dest.1 → dest.2 + pending = d.2)

/-- Where the descriptors are while the files are copied. -/
def Point.Reads (m : Memory) (p : Point) : Prop :=
  let l := p.locals
  match p.stmt with
  | .open2 => ∀ d, l.file1 = some d → d.2 = 0
  | .unlink1 | .unlink2 | .openDest => (∀ d, l.file1 = some d → d.2 = 0) ∧
      ∃ i, l.file2 = some (i, 0) ∧ i < m.fresh
  | .read1 => (∀ d, l.file1 = some d → Within m l.dest 0 d) ∧ ∃ i, l.file2 = some (i, 0) ∧
      (i = l.dest.1 → l.dest.2 = 0 ∧ ∀ d, l.file1 = some d → m.data d.1 = [])
  | .write1 buffer => (∃ d, l.file1 = some d ∧ Within m l.dest buffer.length d) ∧
      ∃ i, l.file2 = some (i, 0) ∧ i ≠ l.dest.1
  | .read2 => ∃ d, l.file2 = some d ∧ Within m l.dest 0 d
  | .write2 buffer => ∃ bytes d, buffer = some bytes ∧ l.file2 = some d ∧ Within m l.dest bytes.length d
  | _ => True

/-- What holds at each statement of the only thread. -/
structure Sound (m : Memory) (p : Point) : Prop where
  proper : m.Proper
  stream : m.stream.Nodup
  live : m.crashed = false
  inodes : ∀ entry ∈ m.dir ++ m.tmp, entry.2 < m.fresh
  cont : p.stmt ≠ .left → p.locals.cont = true
  nothing : p.stmt = .scan2 → p.locals.filehead1 = none → files m.stream = []
  pair : p.stmt.paired = true → ∃ name1 name2, p.locals.filehead1 = some name1 ∧ p.locals.filehead2 = some name2 ∧
    name1 ≠ name2 ∧ name2 ∉ m.stream
  regular1 : p.stmt = .open2 ∨ p.stmt = .unlink1 → ∀ name i, p.locals.filehead1 = some name →
    m.dir.lookup name = some i → (m.node i).isDirectory = false
  regular2 : p.stmt = .unlink1 ∨ p.stmt = .unlink2 → ∃ name i, p.locals.filehead2 = some name ∧
    m.dir.lookup name = some i ∧ (m.node i).isDirectory = false
  reads : p.Reads m

variable {start : State 1 → Prop} {s s' : State 1} {m m' : Memory} {l : Locals} {p next : Point} {stmt : Stmt}
  {listing : List Name}

/-- At the statements that need nothing else. -/
theorem Sound.of_quiet (proper : m.Proper) (stream : m.stream.Nodup) (live : m.crashed = false)
    (inodes : ∀ entry ∈ m.dir ++ m.tmp, entry.2 < m.fresh) (cont : stmt ≠ .left → l.cont = true)
    (quiet : stmt = .lock ∨ stmt = .scan1 ∨ stmt = .unlinkTmp ∨ stmt = .left) : Sound m ⟨stmt, l⟩ := by
  refine ⟨proper, stream, live, inodes, cont, ?_, ?_, ?_, ?_, ?_⟩
  all_goals rcases quiet with rfl | rfl | rfl | rfl <;> simp [Stmt.paired, Point.Reads]

/-- While the files are copied. -/
theorem Sound.of_copy (proper : m.Proper) (stream : m.stream.Nodup) (live : m.crashed = false)
    (inodes : ∀ entry ∈ m.dir ++ m.tmp, entry.2 < m.fresh) (cont : l.cont = true) (stage : stmt.awaitsLink = true)
    (reads : Point.Reads m ⟨stmt, l⟩) : Sound m ⟨stmt, l⟩ := by
  refine ⟨proper, stream, live, inodes, fun _ => cont, ?_, ?_, ?_, ?_, reads⟩
  all_goals cases stmt <;> simp [Stmt.awaitsLink, Stmt.copies, Stmt.paired] at stage ⊢

theorem Within.read {dest : Inode × ℕ} {i : Inode} {k : ℕ} (within : Within m dest 0 (i, k)) :
    Within m dest (m.read i k).length (i, k + (m.read i k).length) := by
  obtain ⟨inside, given⟩ := within
  refine ⟨(read_spec inside).1, fun own => ?_⟩
  have before : dest.2 + 0 = k := given own
  change dest.2 + _ = k + _
  omega

/-- A `write` at the place that was read makes no file longer. -/
theorem Within.length_write {dest d : Inode × ℕ} {buffer : List UInt8} (within : Within m dest buffer.length d) :
    ((m.write dest.1 dest.2 buffer).data d.1).length = (m.data d.1).length := by
  obtain ⟨inside, given⟩ := within
  by_cases own : d.1 = dest.1
  · have place := given own
    rw [own] at inside ⊢
    rw [data_overwrite, List.length_append, List.length_append, List.length_take, List.length_drop]
    omega
  · rw [data_write_of_ne own]

theorem Within.write {dest d : Inode × ℕ} {buffer : List UInt8} (within : Within m dest buffer.length d) :
    Within (m.write dest.1 dest.2 buffer) (dest.1, dest.2 + buffer.length) 0 d :=
  ⟨by rw [within.length_write]; exact within.1, within.2⟩

theorem inodes_create (name : Name) (inodes : ∀ entry ∈ m.dir ++ m.tmp, entry.2 < m.fresh) :
    ∀ entry ∈ (m.create name).2.dir ++ (m.create name).2.tmp, entry.2 < (m.create name).2.fresh := by
  unfold Memory.create
  split
  · exact inodes
  · intro entry member
    simp only [List.mem_append, List.mem_cons] at member inodes
    dsimp only
    rcases member with old | rfl | old
    · exact Nat.lt_succ_of_lt (inodes entry (Or.inl old))
    · exact Nat.lt_succ_self _
    · exact Nat.lt_succ_of_lt (inodes entry (Or.inr old))

theorem inodes_link (name : Name) (inodes : ∀ entry ∈ m.dir ++ m.tmp, entry.2 < m.fresh) :
    ∀ entry ∈ (m.link name).dir ++ (m.link name).tmp, entry.2 < (m.link name).fresh := by
  unfold Memory.link
  split
  · exact inodes
  · rename_i j found
    split
    · exact inodes
    · intro entry member
      rcases List.mem_cons.mp member with rfl | old
      · exact inodes (name, j) (List.mem_append_right _ (mem_of_lookup found))
      · exact inodes entry old

theorem inodes_unlink (name : Name) (inodes : ∀ entry ∈ m.dir ++ m.tmp, entry.2 < m.fresh) :
    ∀ entry ∈ (m.unlink name).dir ++ (m.unlink name).tmp, entry.2 < (m.unlink name).fresh := by
  have fewer : (m.unlink name).dir.Sublist m.dir := by
    unfold Memory.unlink
    split
    · exact .refl _
    · split
      · exact .refl _
      · exact List.filter_sublist
  intro entry member
  rw [Memory.unlink_fresh]
  rw [Memory.unlink_tmp] at member
  exact inodes entry ((fewer.append (.refl m.tmp)).subset member)

theorem Move.inodes {input : Input} (move : Move input m l stmt m' next)
    (inodes : ∀ entry ∈ m.dir ++ m.tmp, entry.2 < m.fresh) : ∀ entry ∈ m'.dir ++ m'.tmp, entry.2 < m'.fresh := by
  cases move with
  | unlink1 | unlink2 => exact inodes_unlink _ inodes
  | openDest => exact inodes_create _ inodes
  | link => exact inodes_link _ inodes
  | unlinkTmp =>
    intro entry member
    exact inodes entry (((List.Sublist.refl m.dir).append List.filter_sublist).subset member)
  | _ => exact inodes

/-- A rewound stream lists every name once. -/
theorem Sound.lists (sound : Sound m p) (lists : listing.Perm m.names) : listing.Nodup :=
  lists.nodup_iff.mpr sound.proper.nodup_names

theorem sound_selected {file : Name} (cont : l.cont = true) (proper : m'.Proper)
    (stream : m'.stream.Nodup) (live : m'.crashed = false)
    (inodes : ∀ entry ∈ m'.dir ++ m'.tmp, entry.2 < m'.fresh) (second : l.filehead2 = some file)
    (first : ∃ name, l.filehead1 = some name ∧ name ≠ file) (read : file ∉ m'.stream) : Sound m' (selected l) := by
  obtain ⟨name, head, differs⟩ := first
  rw [Concatenate.selected, if_pos cont]
  exact ⟨proper, stream, live, inodes, fun _ => cont, by simp, fun _ => ⟨name, file, head, second, differs, read⟩,
    by simp, by simp, trivial⟩

theorem Move.sound_scan (move : Move ⟨false, false, listing⟩ m l stmt m' next)
    (scans : stmt = .scan1 ∨ stmt = .scan2) (sound : Sound m ⟨stmt, l⟩) (goes : Point.Goes listing m ⟨stmt, l⟩) :
    Sound m' next := by
  have inodes := move.inodes sound.inodes
  have proper := move.proper sound.proper
  have live := sound.live
  have cont : l.cont = true := sound.cont (by rcases scans with here | here <;> simp [here])
  have stream := sound.stream
  cases move with
  | error1 error | error2 error => cases error
  | end1 | end2 => exact .of_quiet proper stream live inodes (fun away => absurd rfl away) (by simp)
  | rewind1 fine ends once lists =>
    have flag := (goes.rewinds fine ends once).1 rfl
    have nodup := sound.lists lists
    split
    · exact .of_quiet proper nodup live inodes (fun _ => cont) (by simp)
    · rename_i stops
      exact ⟨proper, nodup, live, inodes, fun _ => cont, fun _ _ => flag.resolve_left stops, by simp [Stmt.paired],
        by simp, by simp, trivial⟩
  | skip1 here =>
    rw [here] at stream
    exact .of_quiet proper (List.nodup_cons.mp stream).2 live inodes (fun _ => cont) (by simp)
  | found1 here =>
    rw [here] at stream
    exact ⟨proper, (List.nodup_cons.mp stream).2, live, inodes, fun _ => cont, by simp, by simp [Stmt.paired],
      by simp, by simp, trivial⟩
  | rewind2 fine ends once lists =>
    obtain ⟨again, listed⟩ := (goes.rewinds fine ends once).2 rfl
    have again : l.next2 = true := again
    rw [if_pos again]
    exact ⟨proper, sound.lists lists, live, inodes, fun _ => cont, fun _ => listed, by simp [Stmt.paired], by simp,
      by simp, trivial⟩
  | @skip2 entry rest here =>
    rw [here] at stream
    refine ⟨proper, (List.nodup_cons.mp stream).2, live, inodes, fun _ => cont, fun _ none => ?_, by simp [Stmt.paired],
      by simp, by simp, trivial⟩
    have nothing := sound.nothing rfl none
    rw [here] at nothing
    exact files_tail nothing
  | @crash2 entry rest _ _ here ordinary null =>
    have nothing := sound.nothing rfl null
    rw [here, files, List.filter_cons_of_pos (by simp [ordinary])] at nothing
    cases nothing
  | @found2 entry rest name _ _ here ordinary head differs =>
    rw [here] at stream
    obtain ⟨read, nodup⟩ := List.nodup_cons.mp stream
    exact sound_selected cont proper nodup live inodes rfl ⟨name, head, differs⟩ read
  | _ => simp at scans

/-- The new inode is the second file only if the first one is empty. -/
theorem Point.Reads.openDest (reads : Point.Reads m ⟨.openDest, l⟩) (goes : Point.Goes listing m ⟨.openDest, l⟩) :
    Point.Reads (m.create l.filename).2 ⟨.read1, { l with dest := ((m.create l.filename).1, 0) }⟩ := by
  obtain ⟨start, i, second, older⟩ := reads
  refine ⟨fun d first => ⟨?_, fun _ => (start d first).symm⟩, i, second, fun own => ⟨rfl, fun d first => ?_⟩⟩
  · rw [start d first]
    exact Nat.zero_le _
  · have own : i = (m.create l.filename).1 := own
    change (m.create l.filename).2.data d.1 = []
    cases found : m.tmp.lookup l.filename with
    | none =>
      rw [create_new found] at own
      exact absurd own (Nat.ne_of_lt older)
    | some j =>
      have same : m.create l.filename = (j, m) := by rw [Memory.create, found]
      rw [same] at own ⊢
      exact goes.stops rfl d first (i, 0) second (own ▸ found)

theorem Move.sound_elsewhere (move : Move ⟨false, false, listing⟩ m l stmt m' next)
    (elsewhere : stmt ≠ .scan1 ∧ stmt ≠ .scan2) (sound : Sound m ⟨stmt, l⟩) (goes : Point.Goes listing m ⟨stmt, l⟩) :
    Sound m' next := by
  have inodes := move.inodes sound.inodes
  have proper := move.proper sound.proper
  obtain ⟨first, second⟩ := elsewhere
  obtain ⟨_, stream, live, _, cont, _, pair, regular1, regular2, reads⟩ := sound
  have left : stmt ≠ .left := by
    rintro rfl
    cases move
  replace cont : l.cont = true := cont left
  cases move with
  | error1 | end1 | rewind1 | skip1 | found1 => exact absurd rfl first
  | error2 | end2 | rewind2 | skip2 | crash2 | found2 => exact absurd rfl second
  | null1 null =>
    obtain ⟨name, _, here, _⟩ := pair rfl
    cases null.symm.trans here
  | null2 null =>
    obtain ⟨_, name, _, here, _⟩ := pair rfl
    cases null.symm.trans here
  | missing1 here none =>
    split
    · exact .of_quiet proper stream live inodes (fun _ => cont) (by simp)
    · refine ⟨proper, stream, live, inodes, fun _ => cont, by simp, fun _ => pair rfl, fun _ name i named found => ?_,
        by simp, fun _ bad => nomatch bad⟩
      cases here.symm.trans named
      cases none.symm.trans found
  | opened1 here at' =>
    split
    · exact .of_quiet proper stream live inodes (fun _ => cont) (by simp)
    · rename_i regular
      refine ⟨proper, stream, live, inodes, fun _ => cont, by simp, fun _ => pair rfl, fun _ name i named found => ?_,
        by simp, fun d opened => ?_⟩
      · cases here.symm.trans named
        cases at'.symm.trans found
        exact Bool.eq_false_iff.mpr regular
      · cases Option.some.inj opened
        rfl
  | missing2 here none => exact absurd none (goes.finds rfl _ here)
  | @opened2 name i here at' =>
    split
    · exact .of_quiet proper stream live inodes (fun _ => cont) (by simp)
    · rename_i regular
      refine ⟨proper, stream, live, inodes, fun _ => cont, by simp, fun _ => pair rfl, fun _ => regular1 (Or.inl rfl),
        fun _ => ⟨name, i, here, at', Bool.eq_false_iff.mpr regular⟩, reads, i, rfl, ?_⟩
      exact inodes _ (List.mem_append_left _ (mem_of_lookup at'))
  | unlink1 =>
    obtain ⟨name1, name2, one, two, differs, read⟩ := pair rfl
    obtain ⟨name, i, named, found, regular⟩ := regular2 (Or.inl rfl)
    cases two.symm.trans named
    refine ⟨proper, by rwa [Memory.unlink_stream], by rwa [Memory.unlink_crashed], inodes, fun _ => cont, by simp,
      fun _ => ⟨name1, name2, one, two, differs, by rwa [Memory.unlink_stream]⟩, by simp, fun _ => ?_, ?_⟩
    · refine ⟨name2, i, named, ?_, by rwa [Memory.unlink_node]⟩
      rw [one, Option.getD_some, lookup_unlink differs.symm, found]
    · rw [Point.Reads, Memory.unlink_fresh]
      exact reads
  | unlink2 =>
    refine .of_copy proper (by rwa [Memory.unlink_stream]) (by rwa [Memory.unlink_crashed]) inodes cont rfl ?_
    rw [Point.Reads, Memory.unlink_fresh]
    exact reads
  | openDest =>
    exact .of_copy proper (by rwa [Memory.create_stream]) (by rwa [Memory.create_crashed]) inodes cont rfl
      (Point.Reads.openDest reads goes)
  | bad1 | end1File =>
    obtain ⟨_, i, opened, same⟩ := reads
    refine .of_copy proper stream live inodes cont rfl ⟨(i, 0), opened, Nat.zero_le _, fun own => ?_⟩
    exact (same own).1
  | @read1 i k here more =>
    obtain ⟨within, j, opened, same⟩ := reads
    refine .of_copy proper stream live inodes cont rfl ⟨⟨_, rfl, (within _ here).read⟩, j, opened, fun own => more ?_⟩
    rw [read_eq_nil_iff, (same own).2 _ here]
    exact Nat.zero_le _
  | write1 =>
    obtain ⟨⟨d, here, within⟩, j, opened, other⟩ := reads
    refine .of_copy proper stream live inodes cont rfl ⟨fun d' here' => ?_, j, opened, fun own => absurd own other⟩
    cases here.symm.trans here'
    exact within.write
  | bad2 bad =>
    obtain ⟨d, opened, _⟩ := reads
    cases bad.symm.trans opened
  | end2File => exact .of_copy proper stream live inodes cont rfl trivial
  | @read2 i k here =>
    obtain ⟨d, opened, within⟩ := reads
    cases here.symm.trans opened
    exact .of_copy proper stream live inodes cont rfl ⟨_, _, rfl, rfl, within.read⟩
  | write2Fails =>
    obtain ⟨_, _, none, _⟩ := reads
    cases none
  | write2 =>
    obtain ⟨_, d, same, here, within⟩ := reads
    cases same
    exact .of_copy proper stream live inodes cont rfl ⟨d, here, within.write⟩
  | link =>
    exact .of_quiet proper (by rwa [Memory.link_stream]) (by rwa [Memory.link_crashed]) inodes (fun _ => cont) (by simp)
  | unlinkTmp => exact .of_quiet proper stream live inodes (fun _ => cont) (by simp)

theorem Turn.sound (turn : Turn 0 ⟨false, false, listing⟩ s s' next) (sound : Sound s.mem (s.pc 0))
    (goes : Goes s listing) : Sound s'.mem next := by
  cases turn with
  | lock here _ mem there =>
    have cont := sound.cont (by simp [here])
    rw [mem, there]
    exact .of_quiet sound.proper sound.stream sound.live sound.inodes (fun _ => cont) (by simp)
  | unlock here mem there =>
    have cont := sound.cont (by simp [here])
    have pair := sound.pair (by simp [here, Stmt.paired])
    rw [mem, there]
    exact ⟨sound.proper, sound.stream, sound.live, sound.inodes, fun _ => cont, by simp, fun _ => pair, by simp, by simp,
      trivial⟩
  | move move =>
    by_cases scans : (s.pc 0).stmt = .scan1 ∨ (s.pc 0).stmt = .scan2
    · exact move.sound_scan scans sound goes
    · exact move.sound_elsewhere (not_or.mp scans) sound goes

theorem sound_launch (launch : Launch s) : Sound s.mem (s.pc 0) := by
  obtain ⟨isDir, at'⟩ := launch.thread 0
  have selecting := selecting_launch launch
  rw [Threads.pc_of_run at']
  exact .of_quiet selecting.proper selecting.stream launch.opened.live launch.opened.inodes (fun _ => rfl) (by simp)

/-- The thread runs as one of several threads do. -/
theorem reach_of_solo {ok : State 1 → List Name → Prop} (launched : ∀ s, start s → Launch s)
    (reach : (solo start).ReachUnder ok s) : (concatenation 1).Reach s := by
  induction reach with
  | start begun => exact .start (launched _ begun)
  | @next s t listing _ _ moved ih =>
    have step : (concatenation 1).next s (0, ⟨false, false, listing⟩) = some t := moved
    exact ih.next trivial step

theorem turn_of_solo {ok : State 1 → List Name → Prop} (launched : ∀ s, start s → Launch s)
    (reach : (solo start).ReachUnder ok s) (moved : (solo start).next s listing = some s') :
    ∃ next, Turn 0 ⟨false, false, listing⟩ s s' next ∧ s'.pc 0 = next := by
  have running := running_of_reach (fun _ => Launch.started) (reach_of_solo launched reach)
  have step : (program 1).Step 0 ⟨false, false, listing⟩ s s' := (Program.step_iff.mp moved).2
  obtain ⟨next, turn, points⟩ := turn_of_step running step
  refine ⟨next, turn, ?_⟩
  rw [points, Function.update_self]

theorem sound_of_reach (launched : ∀ s, start s → Launch s) (reach : (solo start).ReachUnder Goes s) :
    Sound s.mem (s.pc 0) := by
  refine reach.invariant (motive := fun s => Sound s.mem (s.pc 0)) (fun s begun => sound_launch (launched s begun)) ?_
  intro s s' listing earlier sound goes moved
  obtain ⟨next, turn, there⟩ := turn_of_solo launched earlier moved
  rw [there]
  exact turn.sound sound goes

theorem scan1_goes (l : Locals) (m : Memory) : ∃ listing result, scan1 l ⟨false, false, listing⟩ m = some result := by
  refine ⟨m.names, ?_⟩
  cases stream : m.stream with
  | nil => by_cases again : l.rewinded <;> simp [scan1, Input.isError, Memory.atEnd, stream, again, Memory.rewinddir]
  | cons entry rest =>
    by_cases skips : special entry <;> simp [scan1, Input.isError, Memory.atEnd, stream, skips]

theorem scan2_goes (l : Locals) (m : Memory) : ∃ listing result, scan2 l ⟨false, false, listing⟩ m = some result := by
  refine ⟨m.names, ?_⟩
  cases stream : m.stream with
  | nil => by_cases again : l.rewinded <;> simp [scan2, Input.isError, Memory.atEnd, stream, again, Memory.rewinddir]
  | cons entry rest =>
    by_cases skips : special entry
    · simp [scan2, Input.isError, Memory.atEnd, stream, skips]
    · cases head : l.filehead1 with
      | none => simp [scan2, Input.isError, Memory.atEnd, stream, skips, head]
      | some name =>
        by_cases same : name = entry <;> simp [scan2, Input.isError, Memory.atEnd, stream, skips, head, same]

/-- The thread can go on until its loop has ended. -/
theorem solo_goes (launched : ∀ s, start s → Launch s) (reach : (solo start).ReachUnder Goes s) (more : ¬ Ended s) :
    ∃ listing s', (solo start).next s listing = some s' := by
  have running := running_of_reach (fun _ => Launch.started) (reach_of_solo launched reach) 0
  have live : (program 1).halted s.mem = false := (sound_of_reach launched reach).live
  have exec {effect : Input → Memory → Option (Memory × Point)} (here : threadFunc (s.pc 0) = .exec effect)
      (goes : ∃ listing result, effect ⟨false, false, listing⟩ s.mem = some result) :
      ∃ listing s', (solo start).next s listing = some s' := by
    obtain ⟨listing, ⟨mem, next⟩, run⟩ := goes
    exact ⟨listing, _, Program.step_iff.mpr ⟨live, .exec running here run⟩⟩
  by_cases works : (s.pc 0).stmt.works = true
  · exact exec (threadFunc_of_works works) ⟨[], _, rfl⟩
  · cases at' : (s.pc 0).stmt with
    | lock =>
      have here : threadFunc (s.pc 0) = .acquire .dirLock ⟨.scan1, { (s.pc 0).locals with rewinded := false }⟩ := by
        rw [threadFunc, at']
      have free : s.owner .dirLock = none := by
        rw [Option.eq_none_iff_forall_ne_some]
        intro u owner
        obtain rfl : u = 0 := Subsingleton.elim u 0
        rw [(owned_of_reach (fun _ => Launch.started) (reach_of_solo launched reach)).owner_iff, running] at owner
        simp [Activity.Holds, held, at'] at owner
      exact ⟨[], _, Program.step_iff.mpr ⟨live, .acquire running here free⟩⟩
    | unlock =>
      have here : threadFunc (s.pc 0) = .release .dirLock ⟨.open1, (s.pc 0).locals⟩ := by
        rw [threadFunc, at']
      exact ⟨[], _, Program.step_iff.mpr ⟨live, .release running here⟩⟩
    | scan1 =>
      have here : threadFunc (s.pc 0) = .exec fun input m => scan1 (s.pc 0).locals input m := by
        rw [threadFunc, at']
      exact exec here (scan1_goes _ _)
    | scan2 =>
      have here : threadFunc (s.pc 0) = .exec fun input m => scan2 (s.pc 0).locals input m := by
        rw [threadFunc, at']
      exact exec here (scan2_goes _ _)
    | left => exact absurd at' more
    | _ => simp [at', Stmt.works] at works

end DeviceProgramming.Concatenate
