import DeviceProgramming.Concatenate.Selection

namespace DeviceProgramming.Concatenate

def Memory.data (m : Memory) (i : Inode) : List UInt8 := (m.node i).data

namespace Locals

def inode1 (l : Locals) : Inode := (l.file1.getD (0, 0)).1
def offset1 (l : Locals) : ℕ := (l.file1.getD (0, 0)).2
def inode2 (l : Locals) : Inode := (l.file2.getD (0, 0)).1
def offset2 (l : Locals) : ℕ := (l.file2.getD (0, 0)).2

end Locals

namespace Stmt

/-- From the `open` of the first file to the `link`. -/
def opened1 : Stmt → Bool
  | open2 | unlink1 | unlink2 | openDest | read1 | write1 _ | read2 | write2 _ | link => true
  | _ => false

/-- From the `open` of the second file to the `link`. -/
def opened2 : Stmt → Bool
  | unlink1 | unlink2 | openDest | read1 | write1 _ | read2 | write2 _ | link => true
  | _ => false

end Stmt

namespace Point

/-- The inodes that a thread reads. -/
def reads (p : Point) : List Inode :=
  (if p.stmt.opened1 then [p.locals.inode1] else []) ++ if p.stmt.opened2 then [p.locals.inode2] else []

/-- The inode that a thread writes. -/
def writes (p : Point) : List Inode := if p.stmt.copies then [p.locals.dest.1] else []

/-- The name that a thread is about to unlink. -/
def removes (p : Point) : List Name := match p.stmt with
  | .unlink1 => p.locals.filehead1.toList
  | .unlink2 => p.locals.filehead2.toList
  | _ => []

/-- How much of the two files has been copied. -/
def Copied (m : Memory) (p : Point) : Prop :=
  let l := p.locals
  let one := m.data l.inode1
  let two := m.data l.inode2
  let done := m.data l.dest.1
  match p.stmt with
  | .open2 => l.offset1 = 0
  | .unlink1 | .unlink2 | .openDest => l.offset1 = 0 ∧ l.offset2 = 0
  | .read1 => l.offset2 = 0 ∧ l.dest.2 = l.offset1 ∧ l.offset1 ≤ one.length ∧ done = one.take l.offset1
  | .write1 buffer => l.offset2 = 0 ∧ l.offset1 = l.dest.2 + buffer.length ∧ l.offset1 ≤ one.length ∧
      done = one.take l.dest.2 ∧ buffer = (one.drop l.dest.2).take buffer.length
  | .read2 => l.dest.2 = one.length + l.offset2 ∧ l.offset2 ≤ two.length ∧ done = one ++ two.take l.offset2
  | .write2 none => False
  | .write2 (some buffer) => ∃ copied, l.dest.2 = one.length + copied ∧ l.offset2 = copied + buffer.length ∧
      l.offset2 ≤ two.length ∧ done = one ++ two.take copied ∧ buffer = (two.drop copied).take buffer.length
  | .link => done = one ++ two
  | _ => True

/-- A thread finds the files that it has selected, has opened them, and has
copied the beginning of them. -/
structure Working (m : Memory) (p : Point) : Prop where
  file1 : p.stmt.opened1 = true → p.locals.file1.isSome ∧ p.locals.filehead1.isSome
  file2 : p.stmt.opened2 = true → p.locals.file2.isSome ∧ p.locals.filehead2.isSome
  found : ∀ name ∈ p.chosen, (m.dir.lookup name).isSome
  distinct : p.chosen.Nodup
  found1 : p.stmt = .open2 ∨ p.stmt = .unlink1 → ∀ name ∈ p.locals.filehead1,
    m.dir.lookup name = some p.locals.inode1
  found2 : p.stmt = .unlink1 ∨ p.stmt = .unlink2 → ∀ name ∈ p.locals.filehead2,
    m.dir.lookup name = some p.locals.inode2
  tmp : p.stmt.hasTmp = true → m.tmp.lookup p.locals.filename = some p.locals.dest.1
  copied : p.Copied m

end Point

variable {K : ℕ} {s s' : State K} {t u : Fin K} {input : Input} {m m' : Memory} {l : Locals} {next p : Point}
  {stmt : Stmt} {name : Name} {i : Inode}

theorem Stmt.opened_of_copies (stage : stmt.copies = true) : stmt.opened1 = true ∧ stmt.opened2 = true := by
  cases stmt <;> first | exact ⟨rfl, rfl⟩ | cases stage

theorem Point.mem_reads1 (stage : p.stmt.opened1 = true) : p.locals.inode1 ∈ p.reads := by
  simp [Point.reads, stage]

theorem Point.mem_reads2 (stage : p.stmt.opened2 = true) : p.locals.inode2 ∈ p.reads := by
  simp [Point.reads, stage]

theorem Point.mem_writes (stage : p.stmt.copies = true) : p.locals.dest.1 ∈ p.writes := by
  simp [Point.writes, stage]

theorem lookup_filter {entries : List (Name × Inode)} {other : Name} (differs : other ≠ name) :
    (entries.filter (·.1 ≠ name)).lookup other = entries.lookup other := by
  induction entries with
  | nil => rfl
  | cons entry rest ih =>
    obtain ⟨key, value⟩ := entry
    by_cases removed : key = name
    · subst removed
      rw [List.filter_cons_of_neg (by simp), ih, List.lookup_cons, beq_false_of_ne differs]
    · rw [List.filter_cons_of_pos (by simpa using removed), List.lookup_cons, List.lookup_cons, ih]

theorem mem_of_lookup {entries : List (Name × Inode)} (found : entries.lookup name = some i) :
    (name, i) ∈ entries := by
  induction entries with
  | nil => cases found
  | cons entry rest ih =>
    obtain ⟨key, value⟩ := entry
    by_cases same : name = key
    · subst same
      simp only [List.lookup_cons, beq_self_eq_true] at found
      cases Option.some.inj found
      exact List.mem_cons_self ..
    · simp only [List.lookup_cons, beq_false_of_ne same] at found
      exact List.mem_cons_of_mem _ (ih found)

theorem lookup_isSome {entries : List (Name × Inode)} (member : name ∈ entries.map Prod.fst) :
    (entries.lookup name).isSome := by
  induction entries with
  | nil => cases member
  | cons entry rest ih =>
    obtain ⟨key, value⟩ := entry
    by_cases same : name = key
    · subst same
      simp
    · simp only [List.lookup_cons, beq_false_of_ne same]
      rcases List.mem_cons.mp member with here | later
      · exact absurd here same
      · exact ih later

theorem lookup_unlink {other : Name} (differs : other ≠ name) :
    (m.unlink name).dir.lookup other = m.dir.lookup other := by
  unfold Memory.unlink
  split
  · rfl
  · split
    · rfl
    · exact lookup_filter differs

theorem lookup_link {other : Name} (found : m.dir.lookup other = some i) :
    (m.link name).dir.lookup other = some i := by
  unfold Memory.link
  split
  · exact found
  · split
    · exact found
    · rename_i new
      have differs : other ≠ name := by
        rintro rfl
        refine new ?_
        simp only [Memory.names, List.mem_cons]
        exact Or.inr (Or.inr (Or.inr (List.mem_map.mpr ⟨_, mem_of_lookup found, rfl⟩)))
      rw [List.lookup_cons, beq_false_of_ne differs, found]

/-- A move keeps the entries of all names but those it unlinks. -/
theorem Move.keeps_dir (move : Move input m l stmt m' next) (first : stmt = .unlink1 → l.filehead1.isSome)
    (second : stmt = .unlink2 → l.filehead2.isSome) (kept : name ∉ Point.removes ⟨stmt, l⟩)
    (found : m.dir.lookup name = some i) : m'.dir.lookup name = some i := by
  cases move with
  | unlink1 =>
    obtain ⟨file, some⟩ := Option.isSome_iff_exists.mp (first rfl)
    rw [Point.removes, some, Option.toList_some, List.mem_singleton] at kept
    rw [some, Option.getD_some, lookup_unlink kept, found]
  | unlink2 =>
    obtain ⟨file, some⟩ := Option.isSome_iff_exists.mp (second rfl)
    rw [Point.removes, some, Option.toList_some, List.mem_singleton] at kept
    rw [some, Option.getD_some, lookup_unlink kept, found]
  | openDest => rw [Memory.create_dir, found]
  | link => exact lookup_link found
  | _ => exact found

theorem Move.keeps_tmp (move : Move input m l stmt m' next) (kept : stmt = .unlinkTmp → name ≠ l.filename)
    (found : m.tmp.lookup name = some i) : m'.tmp.lookup name = some i := by
  cases move with
  | unlink1 | unlink2 => rw [Memory.unlink_tmp, found]
  | openDest =>
    unfold Memory.create
    split
    · exact found
    · rename_i absent
      have differs : name ≠ l.filename := by
        rintro rfl
        cases absent.symm.trans found
      rw [List.lookup_cons, beq_false_of_ne differs, found]
  | link => rw [Memory.link_tmp, found]
  | unlinkTmp => exact (lookup_filter (kept rfl)).trans found
  | _ => exact found

/-- A move changes no inode but the one it writes or a new one. -/
theorem Move.keeps_node (move : Move input m l stmt m' next) (old : i < m.fresh)
    (kept : i ∉ Point.writes ⟨stmt, l⟩) : m'.node i = m.node i := by
  cases move with
  | unlink1 | unlink2 => rw [Memory.unlink_node]
  | openDest =>
    unfold Memory.create
    split
    · rfl
    · exact Function.update_of_ne (Nat.ne_of_lt old) ..
  | link => rw [Memory.link_node]
  | write1 | write2 => exact Function.update_of_ne (fun same => kept (by rw [same]; exact List.mem_singleton_self _)) ..
  | _ => rfl

theorem Move.fresh_le (move : Move input m l stmt m' next) : m.fresh ≤ m'.fresh := by
  cases move with
  | unlink1 | unlink2 => rw [Memory.unlink_fresh]
  | openDest =>
    unfold Memory.create
    split
    · exact le_refl _
    · exact Nat.le_succ _
  | link => rw [Memory.link_fresh]
  | _ => exact le_refl _

/-- What a move of another thread leaves to a thread at `p`. -/
structure Agrees (m m' : Memory) (p : Point) : Prop where
  dir : ∀ name ∈ p.chosen, ∀ i, m.dir.lookup name = some i → m'.dir.lookup name = some i
  tmp : p.stmt.hasTmp = true → ∀ i, m.tmp.lookup p.locals.filename = some i → m'.tmp.lookup p.locals.filename = some i
  data : ∀ i, i ∈ p.reads ∨ i ∈ p.writes → m'.data i = m.data i

theorem Point.Copied.congr (copied : p.Copied m) (data : ∀ i, i ∈ p.reads ∨ i ∈ p.writes → m'.data i = m.data i) :
    p.Copied m' := by
  obtain ⟨stmt, l⟩ := p
  have agree (stage : stmt.copies = true) : m'.data l.inode1 = m.data l.inode1 ∧
      m'.data l.inode2 = m.data l.inode2 ∧ m'.data l.dest.1 = m.data l.dest.1 := by
    obtain ⟨one, two⟩ := Stmt.opened_of_copies stage
    exact ⟨data _ (Or.inl (Point.mem_reads1 one)), data _ (Or.inl (Point.mem_reads2 two)),
      data _ (Or.inr (Point.mem_writes stage))⟩
  cases stmt with
  | read1 | write1 | read2 | link =>
    obtain ⟨one, two, three⟩ := agree rfl
    simpa only [Point.Copied, one, two, three] using copied
  | write2 buffer =>
    obtain ⟨one, two, three⟩ := agree rfl
    cases buffer with
    | none => exact copied.elim
    | some buffer => simpa only [Point.Copied, one, two, three] using copied
  | _ => exact copied

theorem Point.Working.agree (working : p.Working m) (agrees : Agrees m m' p) : p.Working m' := by
  have dir (name : Name) (chosen : name ∈ p.chosen) : m'.dir.lookup name = m.dir.lookup name := by
    obtain ⟨i, found⟩ := Option.isSome_iff_exists.mp (working.found name chosen)
    rw [agrees.dir name chosen i found, found]
  refine ⟨working.file1, working.file2, fun name chosen => ?_, working.distinct, fun stage name first => ?_,
    fun stage name second => ?_, fun stage => agrees.tmp stage _ (working.tmp stage), working.copied.congr agrees.data⟩
  · rw [dir name chosen]
    exact working.found name chosen
  · rw [dir name, working.found1 stage name first]
    rcases stage with here | here <;> simp [Point.chosen, here, Option.mem_def.mp first]
  · rw [dir name, working.found2 stage name second]
    rcases stage with here | here <;> simp [Point.chosen, here, Option.mem_def.mp second]

/-- A thread that has opened nothing yet. -/
theorem Point.Working.of_early (early : p.stmt.opened1 = false) (tmp : p.stmt.hasTmp = false)
    (found : ∀ name ∈ p.chosen, (m.dir.lookup name).isSome) (distinct : p.chosen.Nodup) : p.Working m := by
  obtain ⟨stmt, l⟩ := p
  cases stmt with
  | open2 | unlink1 | unlink2 | openDest | read1 | write1 | read2 | write2 | link => cases early
  | unlinkTmp => cases tmp
  | lock | scan1 | scan2 | unlock | open1 | left =>
    exact ⟨nofun, nofun, found, distinct, nofun, nofun, nofun, trivial⟩

/-- A thread that has unlinked both files. -/
theorem Point.Working.of_unlinked (none : p.chosen = [])
    (elsewhere : p.stmt ≠ .open2 ∧ p.stmt ≠ .unlink1 ∧ p.stmt ≠ .unlink2)
    (file1 : p.stmt.opened1 = true → p.locals.file1.isSome ∧ p.locals.filehead1.isSome)
    (file2 : p.stmt.opened2 = true → p.locals.file2.isSome ∧ p.locals.filehead2.isSome)
    (tmp : p.stmt.hasTmp = true → m.tmp.lookup p.locals.filename = some p.locals.dest.1) (copied : p.Copied m) :
    p.Working m := by
  obtain ⟨open2, unlink1, unlink2⟩ := elsewhere
  refine ⟨file1, file2, fun name chosen => ?_, ?_, fun stage => ?_, fun stage => ?_, tmp, copied⟩
  · rw [none] at chosen
    cases chosen
  · rw [none]
    exact List.nodup_nil
  · rcases stage with here | here
    · exact absurd here open2
    · exact absurd here unlink1
  · rcases stage with here | here
    · exact absurd here unlink1
    · exact absurd here unlink2

theorem selected_early (l : Locals) : (selected l).stmt.opened1 = false ∧ (selected l).stmt.hasTmp = false := by
  unfold selected
  split <;> exact ⟨rfl, rfl⟩

theorem Move.scan_early (move : Move input m l stmt m' next) (scans : stmt = .scan1 ∨ stmt = .scan2) :
    next.stmt.opened1 = false ∧ next.stmt.hasTmp = false ∧ m'.dir = m.dir := by
  cases move with
  | error1 | end1 | skip1 | found1 | end2 | skip2 | crash2 => exact ⟨rfl, rfl, rfl⟩
  | rewind1 => split <;> exact ⟨rfl, rfl, rfl⟩
  | error2 | rewind2 =>
    split
    · exact ⟨rfl, rfl, rfl⟩
    · exact ⟨(selected_early _).1, (selected_early _).2, rfl⟩
  | found2 => exact ⟨(selected_early _).1, (selected_early _).2, rfl⟩
  | _ => simp at scans

theorem Move.scan_distinct (move : Move input m l stmt m' next) (scans : stmt = .scan1 ∨ stmt = .scan2) :
    next.chosen.Nodup := by
  have single (file : Option Name) : file.toList.Nodup := by cases file <;> simp
  cases move with
  | error1 | end1 | skip1 | end2 => exact List.nodup_nil
  | rewind1 => split <;> exact List.nodup_nil
  | error2 =>
    split
    · exact single _
    · exact List.nodup_nil
  | rewind2 =>
    split
    · exact single _
    · rcases chosen_selected { l with rewinded := true, filehead2 := none } with none | some
      · rw [none]
        exact List.nodup_nil
      · rw [some, Option.toList_none, List.append_nil]
        exact single _
  | found1 => exact single (some _)
  | skip2 | crash2 => exact single l.filehead1
  | @found2 entry rest first _ _ _ _ head differs =>
    rcases chosen_selected { l with next2 := false, filehead2 := some entry } with none | some
    · rw [none]
      exact List.nodup_nil
    · rw [some]
      simp [head, differs]
  | _ => simp at scans

theorem inode1_eq {offset : ℕ} (here : l.file1 = some (i, offset)) : l.inode1 = i ∧ l.offset1 = offset := by
  simp [Locals.inode1, Locals.offset1, here]

theorem inode2_eq {offset : ℕ} (here : l.file2 = some (i, offset)) : l.inode2 = i ∧ l.offset2 = offset := by
  simp [Locals.inode2, Locals.offset2, here]

theorem length_le_of_read_nil {offset : ℕ} (ended : m.read i offset = []) : (m.data i).length ≤ offset := by
  have none : (m.data i).drop offset = [] :=
    (List.take_eq_nil_iff.mp ended).resolve_left (by decide)
  exact List.drop_eq_nil_iff.mp none

/-- A `read` returns the bytes at the offset. -/
theorem read_spec {offset : ℕ} (within : offset ≤ (m.data i).length) :
    offset + (m.read i offset).length ≤ (m.data i).length ∧
      m.read i offset = ((m.data i).drop offset).take (m.read i offset).length := by
  have bytes : m.read i offset = ((m.data i).drop offset).take 1024 := rfl
  constructor
  · rw [bytes, List.length_take, List.length_drop]
    omega
  · rw [bytes, List.length_take, List.take_eq_take_iff]
    omega

theorem create_new (new : m.tmp.lookup name = none) : m.create name = (m.fresh, { m with
    tmp := (name, m.fresh) :: m.tmp
    node := Function.update m.node m.fresh (.regular [])
    fresh := m.fresh + 1 }) := by
  rw [Memory.create, new]

theorem lookup_create (new : m.tmp.lookup name = none) :
    (m.create name).2.tmp.lookup name = some (m.create name).1 := by
  rw [create_new new]
  simp

theorem data_create (new : m.tmp.lookup name = none) : (m.create name).2.data (m.create name).1 = [] := by
  rw [create_new new]
  simp only [Memory.data, Function.update_self]
  rfl

theorem data_write (i : Inode) (offset : ℕ) (buffer : List UInt8) (at' : (m.data i).length = offset) :
    (m.write i offset buffer).data i = m.data i ++ buffer := by
  have written : (m.write i offset buffer).data i =
      (m.data i).take offset ++ buffer ++ (m.data i).drop (offset + buffer.length) := by
    simp only [Memory.data, Memory.write, Function.update_self]
    rfl
  rw [written, ← at', List.take_length, List.drop_eq_nil_of_le (Nat.le_add_right ..), List.append_nil]

theorem data_write_of_ne {other : Inode} (differs : other ≠ i) (offset : ℕ) (buffer : List UInt8) :
    (m.write i offset buffer).data other = m.data other := by
  simp only [Memory.data, Memory.write, Function.update_of_ne differs]

/-- A new file holds nothing. -/
theorem Point.Copied.openDest (copied : Point.Copied m ⟨.openDest, l⟩) (new : m.tmp.lookup l.filename = none) :
    Point.Copied (m.create l.filename).2 ⟨.read1, { l with dest := ((m.create l.filename).1, 0) }⟩ := by
  obtain ⟨start, second⟩ := copied
  refine ⟨second, start.symm, start.le.trans (Nat.zero_le _), (data_create new).trans ?_⟩
  change [] = List.take l.offset1 _
  rw [start, List.take_zero]

/-- At the end of the first file all of it has been copied. -/
theorem Point.Copied.end1 {offset : ℕ} (copied : Point.Copied m ⟨.read1, l⟩) (here : l.file1 = some (i, offset))
    (ended : m.read i offset = []) : Point.Copied m ⟨.read2, l⟩ := by
  obtain ⟨inode, position⟩ := inode1_eq here
  obtain ⟨second, at', within, done⟩ := copied
  have all := length_le_of_read_nil ended
  rw [← inode, ← position] at all
  have whole : l.offset1 = (m.data l.inode1).length := Nat.le_antisymm within all
  refine ⟨?_, ?_, ?_⟩
  · change l.dest.2 = _ + l.offset2
    rw [second, at', whole]
    rfl
  · change l.offset2 ≤ _
    rw [second]
    exact Nat.zero_le _
  · change m.data l.dest.1 = m.data l.inode1 ++ (m.data l.inode2).take l.offset2
    rw [second, done, whole, List.take_length, List.take_zero, List.append_nil]

theorem Point.Copied.read1 {offset : ℕ} (copied : Point.Copied m ⟨.read1, l⟩) (here : l.file1 = some (i, offset)) :
    Point.Copied m ⟨.write1 (m.read i offset), { l with file1 := some (i, offset + (m.read i offset).length) }⟩ := by
  obtain ⟨inode, position⟩ := inode1_eq here
  obtain ⟨second, at', within, done⟩ := copied
  rw [position, inode] at within
  rw [position] at at' done
  rw [inode] at done
  obtain ⟨fits, bytes⟩ := read_spec within
  refine ⟨second, ?_, fits, ?_, ?_⟩
  · change offset + _ = l.dest.2 + _
    rw [at']
  · change m.data l.dest.1 = (m.data i).take l.dest.2
    rw [at', done]
  · change m.read i offset = ((m.data i).drop l.dest.2).take (m.read i offset).length
    rw [at']
    exact bytes

theorem Point.Copied.write1 {buffer : List UInt8} (copied : Point.Copied m ⟨.write1 buffer, l⟩)
    (apart : l.inode1 ≠ l.dest.1) :
    Point.Copied (writeDest l buffer .read1 m).1 (writeDest l buffer .read1 m).2 := by
  obtain ⟨second, at', within, done, bytes⟩ := copied
  have one : (m.write l.dest.1 l.dest.2 buffer).data l.inode1 = m.data l.inode1 := data_write_of_ne apart ..
  have start : (m.data l.dest.1).length = l.dest.2 := by
    rw [done, List.length_take]
    exact Nat.min_eq_left (by omega)
  refine ⟨second, at'.symm, ?_, ?_⟩
  · change l.offset1 ≤ List.length (Memory.data _ l.inode1)
    rw [writeDest, one]
    exact within
  · change Memory.data _ l.dest.1 = List.take l.offset1 (Memory.data _ l.inode1)
    rw [writeDest, one, data_write _ _ _ start, at', List.take_add, done, ← bytes]

/-- At the end of the second file both have been copied. -/
theorem Point.Copied.end2 {offset : ℕ} (copied : Point.Copied m ⟨.read2, l⟩) (here : l.file2 = some (i, offset))
    (ended : m.read i offset = []) : Point.Copied m ⟨.link, l⟩ := by
  obtain ⟨inode, position⟩ := inode2_eq here
  obtain ⟨at', within, done⟩ := copied
  have all := length_le_of_read_nil ended
  rw [← inode, ← position] at all
  have whole : l.offset2 = (m.data l.inode2).length := Nat.le_antisymm within all
  change m.data l.dest.1 = m.data l.inode1 ++ m.data l.inode2
  rw [done, whole, List.take_length]

theorem Point.Copied.read2 {offset : ℕ} (copied : Point.Copied m ⟨.read2, l⟩) (here : l.file2 = some (i, offset)) :
    Point.Copied m
      ⟨.write2 (some (m.read i offset)), { l with file2 := some (i, offset + (m.read i offset).length) }⟩ := by
  obtain ⟨inode, position⟩ := inode2_eq here
  obtain ⟨at', within, done⟩ := copied
  rw [position, inode] at within
  rw [position] at at' done
  rw [inode] at done
  obtain ⟨fits, bytes⟩ := read_spec within
  exact ⟨offset, at', rfl, fits, done, bytes⟩

theorem Point.Copied.write2 {buffer : List UInt8} (copied : Point.Copied m ⟨.write2 (some buffer), l⟩)
    (apart1 : l.inode1 ≠ l.dest.1) (apart2 : l.inode2 ≠ l.dest.1) :
    Point.Copied (writeDest l buffer .read2 m).1 (writeDest l buffer .read2 m).2 := by
  obtain ⟨before, at', position, within, done, bytes⟩ := copied
  have one : (m.write l.dest.1 l.dest.2 buffer).data l.inode1 = m.data l.inode1 := data_write_of_ne apart1 ..
  have two : (m.write l.dest.1 l.dest.2 buffer).data l.inode2 = m.data l.inode2 := data_write_of_ne apart2 ..
  have start : (m.data l.dest.1).length = l.dest.2 := by
    rw [done, List.length_append, List.length_take, at']
    omega
  refine ⟨?_, ?_, ?_⟩
  · change l.dest.2 + _ = List.length (Memory.data _ l.inode1) + l.offset2
    rw [writeDest, one, at', position, Nat.add_assoc]
  · change l.offset2 ≤ List.length (Memory.data _ l.inode2)
    rw [writeDest, two]
    exact within
  · change Memory.data _ l.dest.1 = Memory.data _ l.inode1 ++ List.take l.offset2 (Memory.data _ l.inode2)
    rw [writeDest, one, two, data_write _ _ _ start, position, List.take_add, done, ← bytes, List.append_assoc]

/-- A move keeps a thread working, when the files in the directory are regular,
what the stream lists is in it, and a new file in `tmp` has a new name. -/
theorem Point.Working.move (working : Point.Working m ⟨stmt, l⟩) (move : Move input m l stmt m' next)
    (regular : ∀ name i, m.dir.lookup name = some i → (m.node i).isDirectory = false)
    (listed : ∀ name ∈ m.stream, special name = false → (m.dir.lookup name).isSome)
    (new : stmt = .openDest → m.tmp.lookup l.filename = none)
    (apart : ∀ i ∈ Point.reads ⟨stmt, l⟩, i ∉ Point.writes ⟨stmt, l⟩) : next.Working m' := by
  by_cases scans : stmt = .scan1 ∨ stmt = .scan2
  · obtain ⟨early, tmp, dir⟩ := move.scan_early scans
    refine .of_early early tmp (fun name chosen => ?_) (move.scan_distinct scans)
    rw [dir]
    rcases move.scan_chosen scans chosen with old | ⟨member, ordinary⟩
    · exact working.found name old
    · exact listed name member ordinary
  obtain ⟨file1, file2, found, distinct, found1, found2, tmp, copied⟩ := working
  have never {goal : Prop} (impossible : false = true) : goal := absurd impossible Bool.false_ne_true
  have differs {i : Inode} (read : i ∈ reads ⟨stmt, l⟩) (stage : stmt.copies = true) : i ≠ l.dest.1 := by
    rintro rfl
    exact apart _ read (mem_writes (p := ⟨stmt, l⟩) stage)
  cases move with
  | error1 | end1 | rewind1 | skip1 | found1 | error2 | end2 | rewind2 | skip2 | crash2 | found2 => simp at scans
  | null1 | null2 => exact ⟨file1, file2, found, distinct, found1, found2, tmp, copied⟩
  | @missing1 name here none =>
    have some := found name (by simp [Point.chosen, here])
    rw [none] at some
    cases some
  | @opened1 name i here at' =>
    rw [regular name i at', if_neg Bool.false_ne_true]
    refine ⟨fun _ => ⟨rfl, by simp [here]⟩, never, found, distinct, fun _ other first => ?_, by simp, never, rfl⟩
    cases Option.some.inj (here.symm.trans first)
    exact at'
  | @missing2 name here none =>
    have some := found name (by simp [Point.chosen, here])
    rw [none] at some
    cases some
  | @opened2 name i here at' =>
    rw [regular name i at', if_neg Bool.false_ne_true]
    refine ⟨fun _ => file1 rfl, fun _ => ⟨rfl, by simp [here]⟩, found, distinct, fun _ => found1 (Or.inl rfl),
      fun _ other second => ?_, never, ⟨copied, rfl⟩⟩
    cases Option.some.inj (here.symm.trans second)
    exact at'
  | unlink1 =>
    obtain ⟨first, some⟩ := Option.isSome_iff_exists.mp (file1 rfl).2
    have other {name : Name} (second : name ∈ l.filehead2) : name ≠ l.filehead1.getD [] := by
      rintro rfl
      rw [Point.chosen, Option.mem_def.mp second, some] at distinct
      simp at distinct
    refine ⟨fun _ => file1 rfl, fun _ => file2 rfl, fun name chosen => ?_, ?_, by simp, fun _ name second => ?_,
      never, copied⟩
    · rw [lookup_unlink (other (Option.mem_toList.mp chosen))]
      exact found name (List.mem_append_right _ chosen)
    · exact (List.nodup_append.mp distinct).2.1
    · rw [lookup_unlink (other second)]
      exact found2 (Or.inl rfl) name second
  | unlink2 =>
    exact .of_unlinked rfl (by simp) (fun _ => file1 rfl) (fun _ => file2 rfl) never copied
  | openDest =>
    exact .of_unlinked rfl (by simp) (fun _ => file1 rfl) (fun _ => file2 rfl) (fun _ => lookup_create (new rfl))
      (copied.openDest (new rfl))
  | bad1 none =>
    have some := (file1 rfl).1
    rw [none] at some
    cases some
  | end1File here ended =>
    exact .of_unlinked rfl (by simp) (fun _ => file1 rfl) (fun _ => file2 rfl) (fun _ => tmp rfl)
      (copied.end1 here ended)
  | read1 here =>
    exact .of_unlinked rfl (by simp) (fun _ => ⟨rfl, (file1 rfl).2⟩) (fun _ => file2 rfl) (fun _ => tmp rfl)
      (copied.read1 here)
  | write1 =>
    exact .of_unlinked rfl (by simp [writeDest]) (fun _ => file1 rfl) (fun _ => file2 rfl) (fun _ => tmp rfl)
      (copied.write1 (differs (mem_reads1 rfl) rfl))
  | bad2 none =>
    have some := (file2 rfl).1
    rw [none] at some
    cases some
  | end2File here ended =>
    exact .of_unlinked rfl (by simp) (fun _ => file1 rfl) (fun _ => file2 rfl) (fun _ => tmp rfl)
      (copied.end2 here ended)
  | read2 here =>
    exact .of_unlinked rfl (by simp) (fun _ => file1 rfl) (fun _ => ⟨rfl, (file2 rfl).2⟩) (fun _ => tmp rfl)
      (copied.read2 here)
  | write2Fails => exact copied.elim
  | write2 =>
    exact .of_unlinked rfl (by simp [writeDest]) (fun _ => file1 rfl) (fun _ => file2 rfl) (fun _ => tmp rfl)
      (copied.write2 (differs (mem_reads1 rfl) rfl) (differs (mem_reads2 rfl) rfl))
  | link =>
    refine .of_unlinked rfl (by simp) never never (fun _ => ?_) trivial
    rw [Memory.link_tmp]
    exact tmp rfl
  | unlinkTmp => exact .of_early rfl rfl (fun name chosen => absurd chosen List.not_mem_nil) List.nodup_nil

end DeviceProgramming.Concatenate
