import DeviceProgramming.Concatenate.Copying
import DeviceProgramming.Machine.Regroup

namespace DeviceProgramming.Concatenate

/-- Between the first `unlink` and the `link`. -/
def Stmt.carries : Stmt → Bool
  | unlink2 | openDest => true
  | stmt => stmt.copies

/-- What a step of a thread touches: it reads a file that it has opened from the
directory, writes a new inode, and enters in the directory what it has written. -/
structure Touches (m m' : Memory) (p next : Point) : Prop where
  reads : ∀ i ∈ next.reads, i ∈ p.reads ∨ ∃ entry ∈ m.dir, entry.2 = i
  writes : ∀ i ∈ next.writes, i ∈ p.writes ∨ i = m.fresh ∧ m.fresh < m'.fresh ∧ m'.dir = m.dir
  kind : ∀ i ∈ next.writes, (∀ j ∈ p.writes, (m.node j).isDirectory = false) → (m'.node i).isDirectory = false
  dir : ∀ entry ∈ m'.dir, entry ∈ m.dir ∨ entry.2 ∈ p.writes ∧ next.writes = [] ∧ m'.node = m.node
  keepsDir : ∀ name ∉ p.removes, ∀ i, m.dir.lookup name = some i → m'.dir.lookup name = some i
  keepsTmp : ∀ name i, (p.stmt = .unlinkTmp → name ≠ p.locals.filename) → m.tmp.lookup name = some i →
    m'.tmp.lookup name = some i
  keepsNode : ∀ i, i < m.fresh → i ∉ p.writes → m'.node i = m.node i
  fresh : m.fresh ≤ m'.fresh
  hasTmp : next.stmt.hasTmp = true → p.stmt.hasTmp = true ∧ next.locals.filename = p.locals.filename ∨
    m.tmp.lookup next.locals.filename = none

variable {K : ℕ} {s s' : State K} {t u : Fin K} {input : Input} {m m' : Memory} {l : Locals} {next p : Point}
  {stmt : Stmt} {name : Name} {i : Inode}

theorem Point.reads_of_early (early : p.stmt.opened1 = false) : p.reads = [] := by
  have later : p.stmt.opened2 = false := by
    cases here : p.stmt <;> rw [here] at early <;> first | rfl | cases early
  simp [Point.reads, early, later]

theorem Point.writes_of_early (early : p.stmt.opened1 = false) : p.writes = [] := by
  have later : p.stmt.copies = false := by
    cases here : p.stmt <;> rw [here] at early <;> first | rfl | cases early
  simp [Point.writes, later]

/-- A step that opens nothing and changes no file. -/
theorem Touches.of_early (early : next.stmt.opened1 = false) (tmp : next.stmt.hasTmp = false) (dir : m'.dir = m.dir)
    (names : m'.tmp = m.tmp) (node : m'.node = m.node) (fresh : m'.fresh = m.fresh) : Touches m m' p next where
  reads i read := by rw [Point.reads_of_early early] at read; cases read
  writes i write := by rw [Point.writes_of_early early] at write; cases write
  kind i write := by rw [Point.writes_of_early early] at write; cases write
  dir entry member := Or.inl (dir ▸ member)
  keepsDir name _ i found := dir ▸ found
  keepsTmp name i _ found := names ▸ found
  keepsNode i _ _ := by rw [node]
  fresh := fresh.ge
  hasTmp has := by rw [tmp] at has; cases has

theorem Move.scan_files (move : Move input m l stmt m' next) (scans : stmt = .scan1 ∨ stmt = .scan2) :
    m'.tmp = m.tmp ∧ m'.node = m.node ∧ m'.fresh = m.fresh := by
  cases move with
  | error1 | end1 | rewind1 | skip1 | found1 | error2 | end2 | rewind2 | skip2 | crash2 | found2 => exact ⟨rfl, rfl, rfl⟩
  | _ => simp at scans

/-- A thread that does not scan reads the files it has opened. -/
theorem Move.reads_cases (move : Move input m l stmt m' next) (working : Point.Working m ⟨stmt, l⟩)
    (elsewhere : ¬ (stmt = .scan1 ∨ stmt = .scan2)) (read : i ∈ next.reads) :
    i ∈ Point.reads ⟨stmt, l⟩ ∨ ∃ entry ∈ m.dir, entry.2 = i := by
  cases move with
  | error1 | end1 | rewind1 | skip1 | found1 | error2 | end2 | rewind2 | skip2 | crash2 | found2 => simp at elsewhere
  | null1 | null2 => exact Or.inl read
  | @missing1 name here none | @missing2 name here none =>
    have some := working.found name (by simp [Point.chosen, here])
    rw [none] at some
    cases some
  | @opened1 name j here found =>
    split at read
    · cases read
    · cases List.mem_singleton.mp read
      exact Or.inr ⟨_, mem_of_lookup found, rfl⟩
  | @opened2 name j here found =>
    split at read
    · cases read
    · rcases List.mem_cons.mp read with first | second
      · exact Or.inl (List.mem_singleton.mpr first)
      · cases List.mem_singleton.mp second
        exact Or.inr ⟨_, mem_of_lookup found, rfl⟩
  | unlink1 | unlink2 | openDest | bad1 | end1File | write1 | bad2 | end2File | write2Fails | write2 =>
    exact Or.inl read
  | read1 here =>
    refine Or.inl ?_
    simpa [Point.reads, Stmt.opened1, Stmt.opened2, Locals.inode1, Locals.inode2, here] using read
  | read2 here =>
    refine Or.inl ?_
    simpa [Point.reads, Stmt.opened1, Stmt.opened2, Locals.inode1, Locals.inode2, here] using read
  | link | unlinkTmp => cases read

/-- A thread that does not scan writes the file it has made. -/
theorem Move.writes_cases (move : Move input m l stmt m' next) (elsewhere : ¬ (stmt = .scan1 ∨ stmt = .scan2))
    (new : stmt = .openDest → m.tmp.lookup l.filename = none) (write : i ∈ next.writes) :
    i ∈ Point.writes ⟨stmt, l⟩ ∨ stmt = .openDest ∧ i = m.fresh := by
  cases move with
  | error1 | end1 | rewind1 | skip1 | found1 | error2 | end2 | rewind2 | skip2 | crash2 | found2 => simp at elsewhere
  | missing1 | opened1 | missing2 | opened2 => split at write <;> cases write
  | openDest =>
    rw [create_new (new rfl)] at write
    exact Or.inr ⟨rfl, List.mem_singleton.mp write⟩
  | null1 | null2 | unlink1 | unlink2 | link | unlinkTmp => cases write
  | bad1 | end1File | read1 | write1 | bad2 | end2File | read2 | write2Fails | write2 => exact Or.inl write

/-- New entries in the directory are files that have been written. -/
theorem Move.dir_cases (move : Move input m l stmt m' next) (working : Point.Working m ⟨stmt, l⟩)
    {entry : Name × Inode} (member : entry ∈ m'.dir) :
    entry ∈ m.dir ∨ entry.2 ∈ Point.writes ⟨stmt, l⟩ ∧ next.writes = [] ∧ m'.node = m.node := by
  cases move with
  | unlink1 | unlink2 =>
    unfold Memory.unlink at member
    split at member
    · exact Or.inl member
    · split at member
      · exact Or.inl member
      · exact Or.inl (List.mem_of_mem_filter member)
  | openDest =>
    rw [Memory.create_dir] at member
    exact Or.inl member
  | link =>
    have bound := working.tmp rfl
    unfold Memory.link at member ⊢
    rw [bound] at member ⊢
    dsimp only at member ⊢
    split at member
    · exact Or.inl member
    · rename_i fresh
      rw [if_neg fresh]
      rcases List.mem_cons.mp member with rfl | old
      · exact Or.inr ⟨List.mem_singleton_self _, rfl, rfl⟩
      · exact Or.inl old
  | _ => exact Or.inl member

theorem isDirectory_write (i : Inode) (offset : ℕ) (buffer : List UInt8) :
    ((m.write i offset buffer).node i).isDirectory = false := by
  simp only [Memory.write, Function.update_self]
  rfl

theorem Move.kind (move : Move input m l stmt m' next) (new : stmt = .openDest → m.tmp.lookup l.filename = none)
    (write : i ∈ next.writes) (elsewhere : ¬ (stmt = .scan1 ∨ stmt = .scan2))
    (regular : ∀ j ∈ Point.writes ⟨stmt, l⟩, (m.node j).isDirectory = false) : (m'.node i).isDirectory = false := by
  cases move with
  | error1 | end1 | rewind1 | skip1 | found1 | error2 | end2 | rewind2 | skip2 | crash2 | found2 => simp at elsewhere
  | missing1 | opened1 | missing2 | opened2 => split at write <;> cases write
  | openDest =>
    rw [create_new (new rfl)] at write ⊢
    cases List.mem_singleton.mp write
    simp only [Function.update_self]
    rfl
  | null1 | null2 | unlink1 | unlink2 | link | unlinkTmp => cases write
  | bad1 | end1File | read1 | bad2 | end2File | read2 | write2Fails => exact regular i write
  | write1 | write2 =>
    cases List.mem_singleton.mp write
    exact isDirectory_write ..

theorem Move.hasTmp_cases (move : Move input m l stmt m' next) (elsewhere : ¬ (stmt = .scan1 ∨ stmt = .scan2))
    (new : stmt = .openDest → m.tmp.lookup l.filename = none) (has : next.stmt.hasTmp = true) :
    stmt.hasTmp = true ∧ next.locals.filename = l.filename ∨ m.tmp.lookup next.locals.filename = none := by
  cases move with
  | error1 | end1 | rewind1 | skip1 | found1 | error2 | end2 | rewind2 | skip2 | crash2 | found2 => simp at elsewhere
  | missing1 | opened1 | missing2 | opened2 => revert has; dsimp only; split <;> exact nofun
  | openDest => exact Or.inr (new rfl)
  | null1 | null2 | unlink1 | unlink2 | unlinkTmp => cases has
  | bad1 | end1File | read1 | write1 | bad2 | end2File | read2 | write2Fails | write2 | link => exact Or.inl ⟨rfl, rfl⟩

theorem Move.touches (move : Move input m l stmt m' next) (working : Point.Working m ⟨stmt, l⟩)
    (new : stmt = .openDest → m.tmp.lookup l.filename = none) : Touches m m' ⟨stmt, l⟩ next := by
  by_cases scans : stmt = .scan1 ∨ stmt = .scan2
  · obtain ⟨early, tmp, dir⟩ := move.scan_early scans
    obtain ⟨names, node, fresh⟩ := move.scan_files scans
    exact .of_early early tmp dir names node fresh
  have first : stmt = .unlink1 → l.filehead1.isSome := fun here => (working.file1 (by rw [here]; rfl)).2
  have second : stmt = .unlink2 → l.filehead2.isSome := fun here => (working.file2 (by rw [here]; rfl)).2
  refine ⟨fun i => move.reads_cases working scans, fun i write => ?_, fun i write => move.kind new write scans,
    fun entry => move.dir_cases working, fun name kept i found => move.keeps_dir first second kept found,
    fun name i kept found => move.keeps_tmp kept found, fun i old kept => move.keeps_node old kept, move.fresh_le,
    move.hasTmp_cases scans new⟩
  rcases move.writes_cases scans new write with old | ⟨here, rfl⟩
  · exact Or.inl old
  · subst here
    cases move
    rw [create_new (new rfl)]
    exact Or.inr ⟨rfl, Nat.lt_succ_self _, rfl⟩

end DeviceProgramming.Concatenate
