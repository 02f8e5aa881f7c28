import DeviceProgramming.FileConcatenate.Departure
import DeviceProgramming.Machine.Simulation

namespace DeviceProgramming.FileConcatenate

open Concatenate (Name Inode Lock Stmt special)

/-- While the first file is selected. -/
def usesFirst : Stmt → Bool
  | .scan2 | .unlock | .open1 | .open2 | .unlink1 | .unlink2 | .openDest => true
  | stmt => stmt.copies

/-- While both files are selected. -/
def usesSecond : Stmt → Bool
  | .unlock | .open1 | .open2 | .unlink1 | .unlink2 | .openDest => true
  | stmt => stmt.copies

/-- The entries in the buffer of the stream that a thread uses. -/
def Point.entries (p : Point) : List ℕ :=
  (if usesFirst p.stmt then p.locals.filehead1.toList else []) ++
    if usesSecond p.stmt then p.locals.filehead2.toList else []

/-- The variables of the abstract model, with names in place of the entries. -/
def Locals.named (l : Locals) (filehead1 filehead2 : Option Name) (dest : Inode × ℕ) : Concatenate.Locals where
  cont := l.cont
  next1 := l.next1
  next2 := l.next2
  rewinded := l.rewinded
  filehead1 := filehead1
  filehead2 := filehead2
  isDir := l.isDir
  file1 := l.file1
  file2 := l.file2
  dest := dest

/-- A thread of the abstract model, with the names that the entries of this one have. -/
structure Point.Shows (dName : ℕ → Name) (p : Point) (q : Concatenate.Point) : Prop where
  stmt : q.stmt = p.stmt
  locals : q.locals = p.locals.named q.locals.filehead1 q.locals.filehead2 q.locals.dest
  first : usesFirst p.stmt = true → q.locals.filehead1 = p.locals.filehead1.map dName
  second : usesSecond p.stmt = true → q.locals.filehead2 = p.locals.filehead2.map dName
  ordinary1 : usesFirst p.stmt = true → ∀ name ∈ q.locals.filehead1, special name = false
  ordinary2 : usesSecond p.stmt = true → ∀ name ∈ q.locals.filehead2, special name = false
  filename : p.stmt.hasTmp = true → p.locals.filename = some q.locals.filename
  dest : p.stmt.copies = true → p.locals.dest = some q.locals.dest

/-- What the abstract model leaves out does not happen at a statement: a system call fails or
writes less than it is given, `open` or `unlink` meets a directory in `tmp`, or a zero is
stored behind an array where the byte is in use. -/
structure Point.Tame (layout : Layout) (input : Input) (m : Memory) (p : Point) : Prop where
  succeeds : p.stmt.works = true → input.fails = false
  writes : ∀ buffer, p.stmt = .write1 buffer ∨ p.stmt = .write2 (some buffer) → buffer.length ≤ input.written
  opens : p.stmt = .openDest → m.isTmpDirectory (p.locals.joined m) = false ∧
    layout.filename ("tmp/".length + (p.locals.joined m).length) = .unused
  links : p.stmt = .link → layout.hardlink (p.locals.joined m).length = .unused
  regular : p.stmt = .link ∨ p.stmt = .unlinkTmp → ∀ name ∈ p.locals.filename, m.isTmpDirectory name = false

/-- A `readdir` leaves the entries in use as they are. -/
def KeepsEntries {K : ℕ} (s : State K) (label : Fin K × Input) : Prop :=
  (s.pc label.1).stmt = .scan1 ∨ (s.pc label.1).stmt = .scan2 →
    ∀ u, ∀ entry ∈ (s.pc u).entries, label.2.dName entry = s.mem.dName entry

/-- A state of the abstract model with the same directory and the same threads. -/
structure Shows {K : ℕ} (s : State K) (a : Concatenate.State K) : Prop where
  mem : a.mem = s.mem.toMemory
  owner : a.owner = s.owner
  thread : ∀ t, ∃ q, a.thread t = .run q ∧ (s.pc t).Shows s.mem.dName q

variable {layout : Layout} {K : ℕ} {s s' : State K} {t : Fin K} {input : Input} {m m' : Memory} {l : Locals}
  {p next : Point} {q : Concatenate.Point} {k : Concatenate.Locals} {a : Concatenate.State K} {dName dName' : ℕ → Name}
  {fails : Bool}

/-- A thread shows the same as long as the entries that it uses stay. -/
theorem Point.Shows.congr (shows : p.Shows dName q) (kept : ∀ entry ∈ p.entries, dName' entry = dName entry) :
    p.Shows dName' q where
  stmt := shows.stmt
  locals := shows.locals
  first uses := by
    rw [shows.first uses]
    refine Option.map_congr fun entry here => ?_
    exact (kept entry (List.mem_append_left _ (by rw [if_pos uses]; exact Option.mem_toList.mpr here))).symm
  second uses := by
    rw [shows.second uses]
    refine Option.map_congr fun entry here => ?_
    exact (kept entry (List.mem_append_right _ (by rw [if_pos uses]; exact Option.mem_toList.mpr here))).symm
  ordinary1 := shows.ordinary1
  ordinary2 := shows.ordinary2
  filename := shows.filename
  dest := shows.dest

/-- The two names joined are the file name of the abstract thread. -/
theorem Point.Shows.joined (shows : p.Shows m.dName q) (first : usesFirst p.stmt = true)
    (second : usesSecond p.stmt = true) : p.locals.joined m = q.locals.filename := by
  rw [Locals.joined, Concatenate.Locals.filename, shows.first first, shows.second second]
  cases p.locals.filehead1 <;> cases p.locals.filehead2 <;> rfl

/-- Two threads with the same flags, at a statement that uses no selected file. -/
theorem shows_quiet (stmt : Stmt) (first : usesFirst stmt = false) (second : usesSecond stmt = false)
    (tmp : stmt.hasTmp = false) (one two : Option Name) (dest : Inode × ℕ) :
    Point.Shows dName ⟨stmt, l⟩ ⟨stmt, l.named one two dest⟩ := by
  have copies : stmt.copies = false := by
    cases stmt <;> first | rfl | cases tmp
  refine ⟨rfl, rfl, ?_, ?_, ?_, ?_, ?_, ?_⟩
  · simp [first]
  · simp [second]
  · simp [first]
  · simp [second]
  · simp [tmp]
  · simp [copies]

theorem shows_selected {one : Option Name} (two : Option Name) {dest : Inode × ℕ}
    (shows : Point.Shows dName ⟨.unlock, l⟩ ⟨.unlock, l.named one two dest⟩) :
    (selected l).Shows dName (Concatenate.selected (l.named one two dest)) := by
  unfold selected Concatenate.selected
  change Point.Shows dName _ ⟨if l.cont then _ else _, _⟩
  split
  · exact shows
  · exact shows_quiet .left rfl rfl rfl ..

theorem shows_scan1 (scan : Scan input m l .scan1 m' next) (one two : Option Name) (dest : Inode × ℕ) :
    ∃ next', Concatenate.scan1 (l.named one two dest) input.toInput m.toMemory = some (m'.toMemory, next') ∧
      next.Shows m'.dName next' := by
  cases scan with
  | error1 error =>
    refine ⟨_, by rw [Concatenate.scan1, if_pos error], ?_⟩
    exact shows_quiet .left rfl rfl rfl none two dest
  | end1 fine ends again =>
    have ends : m.toMemory.atEnd input.toInput = true := ends
    refine ⟨_, by rw [Concatenate.scan1, if_neg (Bool.eq_false_iff.mp fine), if_pos ends,
      if_pos (show (l.named one two dest).rewinded = true from again)], ?_⟩
    exact shows_quiet .left rfl rfl rfl none two dest
  | rewind1 fine ends once lists =>
    have ends : m.toMemory.atEnd input.toInput = true := ends
    refine ⟨_, by simp [Concatenate.scan1, Locals.named, fine, ends, once, Concatenate.Memory.rewinddir, lists]; rfl, ?_⟩
    split
    · exact shows_quiet .scan1 rfl rfl rfl none two dest
    · exact ⟨rfl, rfl, fun _ => rfl, nofun, fun _ => nofun, nofun, nofun, nofun⟩
  | skip1 fine more here named skips =>
    have more : m.toMemory.atEnd input.toInput = false := more
    refine ⟨_, by simp [Concatenate.scan1, Locals.named, fine, more, here, skips]; rfl, ?_⟩
    exact shows_quiet .scan1 rfl rfl rfl (some _) two dest
  | found1 fine more here named ordinary =>
    have more : m.toMemory.atEnd input.toInput = false := more
    refine ⟨_, by simp [Concatenate.scan1, Locals.named, fine, more, here, ordinary]; rfl, rfl, rfl, fun _ => ?_, nofun,
      fun _ name same => ?_, nofun, nofun, nofun⟩
    · exact (congrArg some named).symm
    · cases Option.some.inj same
      exact ordinary

theorem shows_scan2 (scan : Scan input m l .scan2 m' next) {one : Option Name}
    (head : one = l.filehead1.map input.dName) (ordinary1 : ∀ name ∈ one, special name = false) (two : Option Name)
    (dest : Inode × ℕ) : ∃ next', Concatenate.scan2 (l.named one two dest) input.toInput m.toMemory =
      some (m'.toMemory, next') ∧ next.Shows m'.dName next' := by
  have paired {l' : Locals} {two : Option Name} (same : l'.filehead1 = l.filehead1)
      (second : two = l'.filehead2.map input.dName) (ordinary : ∀ name ∈ two, special name = false) :
      Point.Shows input.dName ⟨.unlock, l'⟩ ⟨.unlock, l'.named one two dest⟩ :=
    ⟨rfl, rfl, fun _ => same ▸ head, fun _ => second, fun _ => ordinary1, fun _ => ordinary, nofun, nofun⟩
  have again {l' : Locals} (two : Option Name) (same : l'.filehead1 = l.filehead1) :
      Point.Shows input.dName ⟨.scan2, l'⟩ ⟨.scan2, l'.named one two dest⟩ :=
    ⟨rfl, rfl, fun _ => same ▸ head, nofun, fun _ => ordinary1, nofun, nofun, nofun⟩
  cases scan with
  | error2 error =>
    refine ⟨_, by rw [Concatenate.scan2, if_pos error], ?_⟩
    dsimp only
    split
    · rename_i more
      rw [if_pos (show (l.named one two dest).next2 = true from more)]
      exact again none rfl
    · rename_i stops
      rw [if_neg (show ¬ (l.named one two dest).next2 = true from stops)]
      exact shows_selected none (paired rfl rfl nofun)
  | end2 fine ends rewound =>
    have ends : m.toMemory.atEnd input.toInput = true := ends
    refine ⟨_, by rw [Concatenate.scan2, if_neg (Bool.eq_false_iff.mp fine), if_pos ends,
      if_pos (show (l.named one two dest).rewinded = true from rewound)], ?_⟩
    exact shows_quiet .left rfl rfl rfl one none dest
  | rewind2 fine ends once lists =>
    have ends : m.toMemory.atEnd input.toInput = true := ends
    refine ⟨_, by simp [Concatenate.scan2, Locals.named, fine, ends, once, Concatenate.Memory.rewinddir, lists]; rfl, ?_⟩
    split
    · exact again none rfl
    · exact shows_selected none (paired rfl rfl nofun)
  | skip2 fine more here named skips =>
    have more : m.toMemory.atEnd input.toInput = false := more
    refine ⟨_, by simp [Concatenate.scan2, Locals.named, fine, more, here, skips]; rfl, ?_⟩
    exact again (some _) rfl
  | null2 fine more here named ordinary null =>
    have more : m.toMemory.atEnd input.toInput = false := more
    have none' : one = none := by rw [head, null, Option.map_none]
    refine ⟨_, by simp [Concatenate.scan2, Concatenate.Memory.crash, Locals.named, fine, more, here, ordinary, none']
                  rfl, ?_⟩
    rw [← none']
    exact again (some _) rfl
  | @same2 entry rest name fine more here named ordinary first same =>
    have more : m.toMemory.atEnd input.toInput = false := more
    have first' : one = some (input.dName name) := by rw [head, first, Option.map_some]
    refine ⟨_, by simp [Concatenate.scan2, Locals.named, fine, more, here, ordinary, first', same]; rfl, ?_⟩
    rw [← same, ← first']
    exact again one rfl
  | @found2 entry rest name fine more here named ordinary first differs =>
    have more : m.toMemory.atEnd input.toInput = false := more
    have first' : one = some (input.dName name) := by rw [head, first, Option.map_some]
    refine ⟨_, by simp [Concatenate.scan2, Locals.named, fine, more, here, ordinary, first', differs]; rfl, ?_⟩
    rw [← first']
    refine shows_selected (some _) (paired rfl (congrArg some named).symm ?_)
    rintro name same
    cases Option.some.inj same
    exact ordinary

theorem isDirectory_of_tmp {i : Inode} {name : Name} (regular : m.isTmpDirectory name = false)
    (found : m.tmp.lookup name = some i) : (m.node i).isDirectory = false := by
  rw [Memory.isTmpDirectory, found] at regular
  exact regular

/-- Where the name is that of a file in `tmp`, both models link it in the same way. -/
theorem link_toMemory (name : Name) (regular : m.isTmpDirectory name = false) :
    (m.link false (some name) name).toMemory = m.toMemory.link name := by
  unfold Memory.link Concatenate.Memory.link
  rw [Option.bind_some]
  cases found : m.tmp.lookup name with
  | none => rfl
  | some i =>
    have file : (m.node i).isDirectory = false := isDirectory_of_tmp regular found
    by_cases taken : name ∈ m.names <;> simp [file, taken]

/-- Two threads with the same selected files, before the `open` of `dest` has returned. -/
theorem shows_paired (stmt : Stmt) (early : stmt.hasTmp = false) {one two : Option Name} (dest : Inode × ℕ)
    (first : one = l.filehead1.map dName) (second : two = l.filehead2.map dName)
    (ordinary1 : ∀ name ∈ one, special name = false) (ordinary2 : ∀ name ∈ two, special name = false) :
    Point.Shows dName ⟨stmt, l⟩ ⟨stmt, l.named one two dest⟩ := by
  have copies : stmt.copies = false := by
    cases stmt <;> first | rfl | cases early
  exact ⟨rfl, rfl, fun _ => first, fun _ => second, fun _ => ordinary1, fun _ => ordinary2, by simp [early],
    by simp [copies]⟩

section
variable {entry : ℕ} {file : Option (Inode × ℕ)} {bit : Option Bool}

theorem open1_eq (head : l.filehead1 = some entry) (opened : m.openFile fails (m.dName entry) = (file, bit)) :
    open1 l fails m = (m, ⟨if bit.getD l.isDir then .lock else .open2,
      { l with file1 := file, isDir := bit.getD l.isDir }⟩) := by
  rw [open1, head]
  dsimp only
  rw [opened]

theorem open2_eq (head : l.filehead2 = some entry) (opened : m.openFile fails (m.dName entry) = (file, bit)) :
    open2 l fails m = (m, ⟨if bit.getD l.isDir then .lock else .unlink1,
      { l with file2 := file, isDir := bit.getD l.isDir }⟩) := by
  rw [open2, head]
  dsimp only
  rw [opened]

end

section
variable {one two : Option Name} {dest : Inode × ℕ}

theorem shows_open1 (shows : Point.Shows m.dName ⟨.open1, l⟩ ⟨.open1, l.named one two dest⟩) :
    (Concatenate.open1 (l.named one two dest) m.toMemory).1 = (open1 l false m).1.toMemory ∧
      (open1 l false m).2.Shows m.dName (Concatenate.open1 (l.named one two dest) m.toMemory).2 := by
  have first : one = l.filehead1.map m.dName := shows.first rfl
  cases head : l.filehead1 with
  | none =>
    have null : one = none := by rw [first, head, Option.map_none]
    subst null
    rw [open1, head]
    exact ⟨rfl, shows⟩
  | some entry =>
    have named : one = some (m.dName entry) := by rw [first, head, Option.map_some]
    have ordinary : special (m.dName entry) = false := shows.ordinary1 rfl _ named
    have goes (file : Option (Inode × ℕ)) (isDir : Bool) :
        Point.Shows m.dName ⟨if isDir then .lock else .open2, { l with file1 := file, isDir := isDir }⟩
          ⟨if isDir then .lock else .open2, Locals.named { l with file1 := file, isDir := isDir } one two dest⟩ :=
      shows_paired _ (by cases isDir <;> rfl) _ (shows.first rfl) (shows.second rfl) (shows.ordinary1 rfl)
        (shows.ordinary2 rfl)
    cases found : m.dir.lookup (m.dName entry) with
    | none =>
      rw [open1_eq head (show m.openFile false _ = (none, none) by simp [Memory.openFile, ordinary, found])]
      simp only [Concatenate.open1, Locals.named, named, found]
      rw [← named]
      exact ⟨trivial, goes none l.isDir⟩
    | some i =>
      rw [open1_eq head (show m.openFile false _ = (some (i, 0), some (m.node i).isDirectory) by
        simp [Memory.openFile, ordinary, found])]
      simp only [Concatenate.open1, Locals.named, named, found]
      rw [← named]
      exact ⟨trivial, goes (some (i, 0)) (m.node i).isDirectory⟩

theorem shows_open2 (shows : Point.Shows m.dName ⟨.open2, l⟩ ⟨.open2, l.named one two dest⟩) :
    (Concatenate.open2 (l.named one two dest) m.toMemory).1 = (open2 l false m).1.toMemory ∧
      (open2 l false m).2.Shows m.dName (Concatenate.open2 (l.named one two dest) m.toMemory).2 := by
  have second : two = l.filehead2.map m.dName := shows.second rfl
  cases head : l.filehead2 with
  | none =>
    have null : two = none := by rw [second, head, Option.map_none]
    subst null
    rw [open2, head]
    exact ⟨rfl, shows⟩
  | some entry =>
    have named : two = some (m.dName entry) := by rw [second, head, Option.map_some]
    have ordinary : special (m.dName entry) = false := shows.ordinary2 rfl _ named
    have goes (file : Option (Inode × ℕ)) (isDir : Bool) :
        Point.Shows m.dName ⟨if isDir then .lock else .unlink1, { l with file2 := file, isDir := isDir }⟩
          ⟨if isDir then .lock else .unlink1, Locals.named { l with file2 := file, isDir := isDir } one two dest⟩ :=
      shows_paired _ (by cases isDir <;> rfl) _ (shows.first rfl) (shows.second rfl) (shows.ordinary1 rfl)
        (shows.ordinary2 rfl)
    cases found : m.dir.lookup (m.dName entry) with
    | none =>
      rw [open2_eq head (show m.openFile false _ = (none, none) by simp [Memory.openFile, ordinary, found])]
      simp only [Concatenate.open2, Locals.named, named, found]
      rw [← named]
      exact ⟨trivial, goes none l.isDir⟩
    | some i =>
      rw [open2_eq head (show m.openFile false _ = (some (i, 0), some (m.node i).isDirectory) by
        simp [Memory.openFile, ordinary, found])]
      simp only [Concatenate.open2, Locals.named, named, found]
      rw [← named]
      exact ⟨trivial, goes (some (i, 0)) (m.node i).isDirectory⟩

theorem shows_openDest (shows : Point.Shows m.dName ⟨.openDest, l⟩ ⟨.openDest, l.named one two dest⟩)
    (regular : m.isTmpDirectory (l.joined m) = false)
    (unused : layout.filename ("tmp/".length + (l.joined m).length) = .unused) :
    (Concatenate.openDest (l.named one two dest) m.toMemory).1 = (openDest layout l false m).1.toMemory ∧
      (openDest layout l false m).2.Shows m.dName (Concatenate.openDest (l.named one two dest) m.toMemory).2 := by
  have joined : l.joined m = (l.named one two dest).filename := shows.joined rfl rfl
  rw [openDest, if_neg (not_not.mpr unused), Memory.create, regular, if_neg (by simp), Concatenate.openDest, ← joined]
  exact ⟨rfl, rfl, rfl, fun _ => shows.first rfl, fun _ => shows.second rfl, fun _ => shows.ordinary1 rfl,
    fun _ => shows.ordinary2 rfl, fun _ => congrArg some joined, fun _ => rfl⟩

/-- While the new file is being written. -/
theorem shows_copying (stmt : Stmt) (first : one = l.filehead1.map dName)
    (second : two = l.filehead2.map dName) (ordinary1 : ∀ name ∈ one, special name = false)
    (ordinary2 : ∀ name ∈ two, special name = false) (filename : l.filename = some (l.named one two dest).filename)
    (opened : l.dest = some dest) : Point.Shows dName ⟨stmt, l⟩ ⟨stmt, l.named one two dest⟩ :=
  ⟨rfl, rfl, fun _ => first, fun _ => second, fun _ => ordinary1, fun _ => ordinary2, fun _ => filename,
    fun _ => opened⟩

theorem Point.Shows.copying {stmt : Stmt} (shows : Point.Shows dName ⟨stmt, l⟩ ⟨stmt, l.named one two dest⟩)
    (copies : stmt.copies = true) {l' : Locals} {dest' : Inode × ℕ} (stmt' : Stmt)
    (head1 : l'.filehead1 = l.filehead1) (head2 : l'.filehead2 = l.filehead2) (name : l'.filename = l.filename)
    (opened : l'.dest = some dest') : Point.Shows dName ⟨stmt', l'⟩ ⟨stmt', l'.named one two dest'⟩ := by
  have first : usesFirst stmt = true := by cases stmt <;> first | rfl | cases copies
  have second : usesSecond stmt = true := by cases stmt <;> first | rfl | cases copies
  have tmp : stmt.hasTmp = true := by cases stmt <;> first | rfl | cases copies
  refine shows_copying stmt' ?_ ?_ (shows.ordinary1 first) (shows.ordinary2 second) ?_ opened
  · rw [head1]
    exact shows.first first
  · rw [head2]
    exact shows.second second
  · rw [name]
    exact shows.filename tmp

theorem shows_read1 (shows : Point.Shows m.dName ⟨.read1, l⟩ ⟨.read1, l.named one two dest⟩) :
    (read1 l false m).Shows m.dName (Concatenate.read1 (l.named one two dest) m.toMemory) := by
  have same : Concatenate.read1 (l.named one two dest) m.toMemory =
      ⟨(read1 l false m).stmt, (read1 l false m).locals.named one two dest⟩ := by
    unfold Concatenate.read1 read1
    dsimp only [Locals.named, Memory.read]
    cases l.file1 with
    | none => rfl
    | some d => rfl
  rw [same]
  exact shows.copying rfl _ rfl rfl rfl (shows.dest rfl)

theorem shows_read2 (shows : Point.Shows m.dName ⟨.read2, l⟩ ⟨.read2, l.named one two dest⟩) :
    (read2 l false m).Shows m.dName (Concatenate.read2 (l.named one two dest) m.toMemory) := by
  have same : Concatenate.read2 (l.named one two dest) m.toMemory =
      ⟨(read2 l false m).stmt, (read2 l false m).locals.named one two dest⟩ := by
    unfold Concatenate.read2 read2
    dsimp only [Locals.named, Memory.read]
    cases l.file2 with
    | none => rfl
    | some d => rfl
  rw [same]
  exact shows.copying rfl _ rfl rfl rfl (shows.dest rfl)

theorem shows_writeDest {stmt : Stmt} {buffer : List UInt8} {next : Stmt}
    (shows : Point.Shows m.dName ⟨stmt, l⟩ ⟨stmt, l.named one two dest⟩) (copies : stmt.copies = true)
    (succeeds : input.fails = false) (whole : buffer.length ≤ input.written) :
    (Concatenate.writeDest (l.named one two dest) buffer next m.toMemory).1 =
        (writeDest l input buffer next m).1.toMemory ∧
      (writeDest l input buffer next m).2.Shows m.dName
        (Concatenate.writeDest (l.named one two dest) buffer next m.toMemory).2 := by
  have opened : l.dest = some dest := shows.dest copies
  have same : writeDest l input buffer next m = ({ m with toMemory := m.toMemory.write dest.1 dest.2 buffer },
      ⟨next, { l with dest := some (dest.1, dest.2 + buffer.length) }⟩) := by
    rw [writeDest, opened]
    dsimp only
    rw [succeeds, if_neg Bool.false_ne_true, List.take_of_length_le whole]
  rw [same]
  exact ⟨rfl, shows.copying copies next rfl rfl rfl rfl⟩

theorem shows_link (shows : Point.Shows m.dName ⟨.link, l⟩ ⟨.link, l.named one two dest⟩)
    (unused : layout.hardlink (l.joined m).length = .unused)
    (regular : ∀ name ∈ l.filename, m.isTmpDirectory name = false) :
    m.toMemory.link (l.named one two dest).filename = (link layout l false m).1.toMemory ∧
      (link layout l false m).2.Shows m.dName ⟨.unlinkTmp, l.named one two dest⟩ := by
  have joined : l.joined m = (l.named one two dest).filename := shows.joined rfl rfl
  have name : l.filename = some (l.named one two dest).filename := shows.filename rfl
  rw [link, unused, joined, name]
  exact ⟨(link_toMemory _ (regular _ name)).symm, rfl, rfl, nofun, nofun, nofun, nofun, fun _ => name, nofun⟩

theorem shows_unlinkTmp (shows : Point.Shows m.dName ⟨.unlinkTmp, l⟩ ⟨.unlinkTmp, l.named one two dest⟩)
    (regular : ∀ name ∈ l.filename, m.isTmpDirectory name = false) :
    m.toMemory.unlinkTmp (l.named one two dest).filename = (m.unlinkTmp false l.filename).toMemory := by
  have name : l.filename = some (l.named one two dest).filename := shows.filename rfl
  rw [name, Memory.unlinkTmp]
  dsimp only
  rw [regular _ name, if_neg (by simp)]

end

theorem name_eq {filehead : Option ℕ} {name : Option Name} (named : name = filehead.map m.dName) :
    m.name filehead = name.getD [] := by
  rw [named]
  cases filehead <;> rfl

/-- A statement after the critical section does the same in both models. -/
theorem shows_work {effect : Input → Memory → Option (Memory × Point)} (works : p.stmt.works = true)
    (here : threadFunc layout p = .exec effect) (run : effect input m = some (m', next)) (tame : p.Tame layout input m)
    (shows : p.Shows m.dName q) : ∃ effect' next', Concatenate.threadFunc q = .exec effect' ∧
      effect' input.toInput m.toMemory = some (m'.toMemory, next') ∧ next.Shows m.dName next' := by
  obtain ⟨stmt, l⟩ := p
  obtain ⟨stmt', k⟩ := q
  obtain rfl : stmt' = stmt := shows.stmt
  obtain ⟨one, two, dest, rfl⟩ : ∃ one two dest, k = l.named one two dest := ⟨_, _, _, shows.locals⟩
  have fine : input.fails = false := tame.succeeds works
  have matched {result : Memory × Point} {result' : Concatenate.Memory × Concatenate.Point}
      (done : some result = some (m', next)) (same : result'.1 = result.1.toMemory ∧ result.2.Shows m.dName result'.2) :
      some result' = some (m'.toMemory, result'.2) ∧ next.Shows m.dName result'.2 := by
    cases Option.some.inj done
    exact ⟨congrArg some (Prod.ext same.1 rfl), same.2⟩
  cases stmt' with
  | lock | scan1 | scan2 | unlock | left => cases works
  | open1 =>
    cases here
    dsimp only at run
    rw [fine] at run
    exact ⟨_, _, rfl, matched run (shows_open1 shows)⟩
  | open2 =>
    cases here
    dsimp only at run
    rw [fine] at run
    exact ⟨_, _, rfl, matched run (shows_open2 shows)⟩
  | unlink1 =>
    cases here
    dsimp only at run
    rw [fine, name_eq (shows.first rfl)] at run
    exact ⟨_, _, rfl, matched run ⟨rfl, shows_paired .unlink2 rfl dest (shows.first rfl) (shows.second rfl)
      (shows.ordinary1 rfl) (shows.ordinary2 rfl)⟩⟩
  | unlink2 =>
    cases here
    dsimp only at run
    rw [fine, name_eq (shows.second rfl)] at run
    exact ⟨_, _, rfl, matched run ⟨rfl, shows_paired .openDest rfl dest (shows.first rfl) (shows.second rfl)
      (shows.ordinary1 rfl) (shows.ordinary2 rfl)⟩⟩
  | openDest =>
    cases here
    dsimp only at run
    rw [fine] at run
    exact ⟨_, _, rfl, matched run (shows_openDest shows (tame.opens rfl).1 (tame.opens rfl).2)⟩
  | read1 =>
    cases here
    dsimp only at run
    rw [fine] at run
    exact ⟨_, _, rfl, matched run ⟨rfl, shows_read1 shows⟩⟩
  | read2 =>
    cases here
    dsimp only at run
    rw [fine] at run
    exact ⟨_, _, rfl, matched run ⟨rfl, shows_read2 shows⟩⟩
  | write1 buffer =>
    cases here
    exact ⟨_, _, rfl, matched run (shows_writeDest shows rfl fine (tame.writes buffer (Or.inl rfl)))⟩
  | write2 buffer =>
    cases buffer with
    | none =>
      cases here
      exact ⟨_, _, rfl, matched run ⟨rfl, shows.copying rfl .read2 rfl rfl rfl (shows.dest rfl)⟩⟩
    | some buffer =>
      cases here
      exact ⟨_, _, rfl, matched run (shows_writeDest shows rfl fine (tame.writes buffer (Or.inr rfl)))⟩
  | link =>
    cases here
    dsimp only at run
    rw [fine] at run
    exact ⟨_, _, rfl, matched run (shows_link shows (tame.links rfl) (tame.regular (Or.inl rfl)))⟩
  | unlinkTmp =>
    cases here
    dsimp only at run
    rw [fine] at run
    exact ⟨_, _, rfl, matched run ⟨shows_unlinkTmp shows (tame.regular (Or.inr rfl)), shows_quiet .lock rfl rfl rfl ..⟩⟩

/-- Only a scan changes the buffer of the stream. -/
theorem Scan.dName_eq {stmt : Stmt} (scan : Scan input m l stmt m' next) : m'.dName = input.dName := by
  cases scan <;> rfl

theorem Scan.scans {stmt : Stmt} (scan : Scan input m l stmt m' next) : stmt = .scan1 ∨ stmt = .scan2 := by
  cases scan <;> simp

/-- One round of a scan does the same in both models. -/
theorem shows_scan {stmt : Stmt} (scan : Scan input m l stmt m' next) (shows : Point.Shows input.dName ⟨stmt, l⟩ q) :
    ∃ effect' next', Concatenate.threadFunc q = .exec effect' ∧
      effect' input.toInput m.toMemory = some (m'.toMemory, next') ∧ next.Shows m'.dName next' := by
  obtain ⟨stmt', k⟩ := q
  obtain rfl : stmt' = stmt := shows.stmt
  obtain ⟨one, two, dest, rfl⟩ : ∃ one two dest, k = l.named one two dest := ⟨_, _, _, shows.locals⟩
  rcases scan.scans with rfl | rfl
  · obtain ⟨next', run, there⟩ := shows_scan1 scan one two dest
    exact ⟨_, next', rfl, run, there⟩
  · obtain ⟨next', run, there⟩ := shows_scan2 scan (shows.first rfl) (shows.ordinary1 rfl) two dest
    exact ⟨_, next', rfl, run, there⟩

theorem shows_lock (here : p.stmt = .lock) (shows : p.Shows dName q) : ∃ next',
    Concatenate.threadFunc q = .acquire .dirLock next' ∧
      Point.Shows dName ⟨.scan1, { p.locals with rewinded := false }⟩ next' := by
  obtain ⟨stmt, l⟩ := p
  obtain ⟨stmt', k⟩ := q
  obtain rfl : stmt' = stmt := shows.stmt
  obtain ⟨one, two, dest, rfl⟩ : ∃ one two dest, k = l.named one two dest := ⟨_, _, _, shows.locals⟩
  cases here
  exact ⟨_, rfl, shows_quiet .scan1 rfl rfl rfl one two dest⟩

theorem shows_unlock (here : p.stmt = .unlock) (shows : p.Shows dName q) : ∃ next',
    Concatenate.threadFunc q = .release .dirLock next' ∧ Point.Shows dName ⟨.open1, p.locals⟩ next' := by
  obtain ⟨stmt, l⟩ := p
  obtain ⟨stmt', k⟩ := q
  obtain rfl : stmt' = stmt := shows.stmt
  obtain ⟨one, two, dest, rfl⟩ : ∃ one two dest, k = l.named one two dest := ⟨_, _, _, shows.locals⟩
  cases here
  exact ⟨_, rfl, shows_paired .open1 rfl dest (shows.first rfl) (shows.second rfl) (shows.ordinary1 rfl)
    (shows.ordinary2 rfl)⟩

/-- Another thread shows what it showed, and the thread that has moved what it shows now. -/
theorem Shows.moved (shows : Shows s a) {next' : Concatenate.Point} (moved : s'.pc = Function.update s.pc t next)
    (there : next.Shows s'.mem.dName next')
    (kept : ∀ u, ∀ entry ∈ (s.pc u).entries, s'.mem.dName entry = s.mem.dName entry) :
    Shows s' ⟨s'.mem.toMemory, s'.owner, Function.update a.thread t (.run next')⟩ := by
  refine ⟨rfl, rfl, fun u => ?_⟩
  rcases update_cases moved u with ⟨rfl, own⟩ | ⟨other, same⟩
  · rw [own]
    exact ⟨next', Function.update_self .., there⟩
  · obtain ⟨q, at', shown⟩ := shows.thread u
    rw [same]
    exact ⟨q, (Function.update_of_ne other ..).trans at', shown.congr (kept u)⟩

/-- A step is one of the abstract model, when it does nothing that the abstract model leaves
out. -/
theorem Shows.step (shows : Shows s a) (running : ∀ u, s.thread u = .run (s.pc u))
    (tame : (s.pc t).Tame layout input s.mem) (keeps : KeepsEntries s (t, input))
    (step : (program layout K).step s t input = some s') :
    ∃ a', (Concatenate.program K).step a t input.toInput = some a' ∧ Shows s' a' := by
  obtain ⟨live, step⟩ := Program.step_iff.mp step
  have live : (Concatenate.program K).halted a.mem = false := by
    rw [shows.mem]
    exact live
  obtain ⟨next, turn, moved⟩ := turn_of_step running step
  obtain ⟨q, at', shown⟩ := shows.thread t
  obtain rfl : a.pc t = q := Threads.pc_of_run at'
  have matched (next' : Concatenate.Point) (done : Program.Step.Awake (Concatenate.program K) t input.toInput a
      ⟨s'.mem.toMemory, s'.owner, a.thread⟩ next') (there : next.Shows s'.mem.dName next')
      (kept : ∀ u, ∀ entry ∈ (s.pc u).entries, s'.mem.dName entry = s.mem.dName entry) :
      ∃ a', (Concatenate.program K).step a t input.toInput = some a' ∧ Shows s' a' :=
    ⟨_, done.step at' live, shows.moved moved there kept⟩
  cases turn with
  | lock here free mem owner goes =>
    obtain ⟨next', here', there⟩ := shows_lock here shown
    refine matched next' (.acquire here' ?_ ?_ ?_) ?_ ?_
    · rw [shows.owner, free]
    · rw [shows.mem, mem]
    · rw [shows.owner, owner]
    · rw [goes, mem]
      exact there
    · intro u entry _
      rw [mem]
  | unlock here mem owner goes =>
    obtain ⟨next', here', there⟩ := shows_unlock here shown
    refine matched next' (.release here' ?_ ?_) ?_ ?_
    · rw [shows.mem, mem]
    · rw [shows.owner, owner]
    · rw [goes, mem]
      exact there
    · intro u entry _
      rw [mem]
  | scan scan owner =>
    have name := scan.dName_eq
    have kept := keeps scan.scans
    obtain ⟨effect, next', here, run, there⟩ := shows_scan scan (shown.congr (kept t))
    refine matched next' (.exec here ?_ ?_) there ?_
    · rw [shows.mem]
      exact run
    · rw [owner, shows.owner]
    · rw [name]
      exact kept
  | work works here run owner effect =>
    obtain ⟨effect', next', here', run', there⟩ := shows_work works here run tame shown
    refine matched next' (.exec here' ?_ ?_) ?_ ?_
    · rw [shows.mem]
      exact run'
    · rw [owner, shows.owner]
    · rw [effect.dName]
      exact there
    · intro u entry _
      rw [effect.dName]

end DeviceProgramming.FileConcatenate
