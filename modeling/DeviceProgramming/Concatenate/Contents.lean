import DeviceProgramming.Concatenate.Tidy

namespace DeviceProgramming.Concatenate

/-- The bytes of each file in the directory. -/
def contents (m : Memory) : Multiset (List UInt8) := ((m.dir.map fun entry => m.data entry.2 : List _) : Multiset _)

/-- The bytes of the files that a thread has unlinked and not yet linked again. -/
def Point.inHands (m : Memory) (p : Point) : Multiset (List UInt8) :=
  if p.stmt = .unlink2 then {m.data p.locals.inode1}
  else if p.stmt.carries then {m.data p.locals.inode1, m.data p.locals.inode2}
  else 0

/-- All files, in the directory and in the hands of the threads. -/
def pieces {K : ℕ} (s : State K) : Multiset (List UInt8) := contents s.mem + ∑ t, (s.pc t).inHands s.mem

variable {K : ℕ} {s s' : State K} {t u : Fin K} {input : Input} {m m' : Memory} {l : Locals} {next p : Point}
  {stmt : Stmt} {name : Name} {i : Inode}

theorem contents_congr (dir : m'.dir = m.dir) (data : ∀ entry ∈ m.dir, m'.data entry.2 = m.data entry.2) :
    contents m' = contents m := by
  rw [contents, contents, dir, List.map_congr_left data]

theorem inHands_congr (data : ∀ i ∈ p.reads, m'.data i = m.data i) : p.inHands m' = p.inHands m := by
  obtain ⟨stmt, l⟩ := p
  cases stmt with
  | unlink2 | openDest | read1 | write1 | read2 | write2 | link =>
    have one := data _ (Point.mem_reads1 rfl)
    have two := data _ (Point.mem_reads2 rfl)
    dsimp only at one two
    simp only [Point.inHands, one, two]
  | lock | scan1 | scan2 | unlock | open1 | open2 | unlink1 | unlinkTmp | left => rfl

theorem inHands_of_early (early : p.stmt.opened1 = false) : p.inHands m = 0 := by
  obtain ⟨stmt, l⟩ := p
  cases stmt with
  | open2 | unlink1 | unlink2 | openDest | read1 | write1 | read2 | write2 | link => cases early
  | lock | scan1 | scan2 | unlock | open1 | unlinkTmp | left => rfl

/-- An unlinked file leaves the directory. -/
theorem contents_unlink (proper : m.Proper) (found : m.dir.lookup name = some i)
    (regular : (m.node i).isDirectory = false) : m.data i ::ₘ contents (m.unlink name) = contents m := by
  have kept (entries : List (Name × Inode)) (absent : name ∉ entries.map Prod.fst) :
      entries.filter (·.1 ≠ name) = entries := by
    refine List.filter_eq_self.mpr fun entry member => ?_
    simp only [ne_eq, decide_eq_true_eq]
    rintro rfl
    exact absent (List.mem_map_of_mem member)
  have removed : m.unlink name = { m with dir := m.dir.filter (·.1 ≠ name) } := by
    rw [Memory.unlink, found]
    dsimp only
    rw [regular, if_neg Bool.false_ne_true]
  obtain ⟨before, after, split⟩ := List.append_of_mem (mem_of_lookup found)
  have nodup := proper.nodup
  rw [split, List.map_append, List.map_cons] at nodup
  have first : name ∉ before.map Prod.fst := fun member =>
    (List.nodup_append.mp nodup).2.2 name member name (List.mem_cons_self ..) rfl
  have last : name ∉ after.map Prod.fst := (List.nodup_cons.mp (List.nodup_append.mp nodup).2.1).1
  rw [removed]
  simp only [contents, Memory.data, split, List.filter_append, List.map_append, kept before first]
  rw [List.filter_cons_of_neg (by simp), kept after last, List.map_cons, ← Multiset.coe_add, ← Multiset.coe_add,
    ← Multiset.cons_coe, Multiset.add_cons]

theorem contents_link (bound : m.tmp.lookup name = some i) (new : name ∉ m.names) :
    contents (m.link name) = m.data i ::ₘ contents m := by
  simp only [Memory.link, bound, if_neg new]
  rfl

/-- The files stay as they are, or two of them become one. -/
def Joins (before after : Multiset (List UInt8)) : Prop :=
  after = before ∨ ∃ x y rest, before = x ::ₘ y ::ₘ rest ∧ after = (x ++ y) ::ₘ rest

theorem Joins.add_right {before after : Multiset (List UInt8)} (joins : Joins before after)
    (others : Multiset (List UInt8)) : Joins (before + others) (after + others) := by
  rcases joins with rfl | ⟨x, y, rest, rfl, rfl⟩
  · exact Or.inl rfl
  · exact Or.inr ⟨x, y, rest + others, by simp only [Multiset.cons_add], by simp only [Multiset.cons_add]⟩

theorem Joins.regrouped {before after parts : Multiset (List UInt8)} (joins : Joins before after)
    (regrouped : Regrouped before parts) : Regrouped after parts := by
  rcases joins with rfl | ⟨x, y, rest, rfl, rfl⟩
  · exact regrouped
  · exact regrouped.join

/-- A thread that does not unlink or link a file leaves the directory as it is
and keeps what it has in its hands. -/
theorem Move.hands (move : Move input m l stmt m' next) (working : Point.Working m ⟨stmt, l⟩)
    (elsewhere : stmt ≠ .unlink1 ∧ stmt ≠ .unlink2 ∧ stmt ≠ .link) :
    m'.dir = m.dir ∧ next.inHands m = Point.inHands m ⟨stmt, l⟩ := by
  by_cases scans : stmt = .scan1 ∨ stmt = .scan2
  · obtain ⟨early, _, dir⟩ := move.scan_early scans
    refine ⟨dir, (inHands_of_early early).trans (inHands_of_early ?_).symm⟩
    rcases scans with rfl | rfl <;> rfl
  cases move with
  | error1 | end1 | rewind1 | skip1 | found1 | error2 | end2 | rewind2 | skip2 | crash2 | found2 => simp at scans
  | unlink1 | unlink2 | link => simp at elsewhere
  | missing1 | opened1 | missing2 | opened2 =>
    refine ⟨rfl, ?_⟩
    split <;> rfl
  | openDest => exact ⟨m.create_dir _, rfl⟩
  | read1 here =>
    refine ⟨rfl, ?_⟩
    simp [Point.inHands, Stmt.carries, Stmt.copies, Locals.inode1, Locals.inode2, here]
  | read2 here =>
    refine ⟨rfl, ?_⟩
    simp [Point.inHands, Stmt.carries, Stmt.copies, Locals.inode1, Locals.inode2, here]
  | null1 | null2 | bad1 | end1File | write1 | bad2 | end2File | write2Fails | write2 | unlinkTmp => exact ⟨rfl, rfl⟩

/-- A move keeps the files in the directory and in the hands of its thread, or
joins the two that the thread has in its hands. -/
theorem Move.joins (move : Move input m l stmt m' next) (working : Point.Working m ⟨stmt, l⟩) (proper : m.Proper)
    (regular : ∀ name i, m.dir.lookup name = some i → (m.node i).isDirectory = false)
    (links : stmt = .link → l.filename ∉ m.names) (listed : ∀ entry ∈ m.dir, m'.data entry.2 = m.data entry.2)
    (read : ∀ i ∈ next.reads, m'.data i = m.data i) :
    Joins (contents m + Point.inHands m ⟨stmt, l⟩) (contents m' + next.inHands m') := by
  rw [inHands_congr read]
  by_cases elsewhere : stmt ≠ .unlink1 ∧ stmt ≠ .unlink2 ∧ stmt ≠ .link
  · obtain ⟨dir, hands⟩ := move.hands working elsewhere
    rw [hands, contents_congr dir listed]
    exact Or.inl rfl
  cases move with
  | unlink1 =>
    obtain ⟨name, some⟩ := Option.isSome_iff_exists.mp (working.file1 rfl).2
    have found := working.found1 (Or.inr rfl) name some
    refine Or.inl ?_
    rw [some, Option.getD_some, ← contents_unlink proper found (regular name _ found)]
    change _ + {m.data l.inode1} = _ + 0
    rw [add_zero, add_comm, Multiset.singleton_add]
  | unlink2 =>
    obtain ⟨name, some⟩ := Option.isSome_iff_exists.mp (working.file2 rfl).2
    have found := working.found2 (Or.inr rfl) name some
    refine Or.inl ?_
    rw [some, Option.getD_some, ← contents_unlink proper found (regular name _ found)]
    change _ + {m.data l.inode1, m.data l.inode2} = _ + {m.data l.inode1}
    rw [Multiset.insert_eq_cons, ← Multiset.singleton_add, ← Multiset.singleton_add, add_comm {m.data l.inode1},
      ← add_assoc, add_comm (contents _)]
  | link =>
    refine Or.inr ⟨m.data l.inode1, m.data l.inode2, contents m, ?_, ?_⟩
    · change _ + {m.data l.inode1, m.data l.inode2} = _
      rw [add_comm, Multiset.insert_eq_cons, Multiset.cons_add, Multiset.singleton_add]
    · have whole : m.data l.dest.1 = m.data l.inode1 ++ m.data l.inode2 := working.copied
      rw [contents_link (working.tmp rfl) (links rfl), whole]
      change _ + 0 = _
      rw [add_zero]
  | _ => simp at elsewhere

theorem pieces_eq (s : State K) (t : Fin K) : pieces s =
    contents s.mem + (s.pc t).inHands s.mem + ∑ u ∈ Finset.univ.erase t, (s.pc u).inHands s.mem := by
  rw [pieces, add_assoc, Finset.add_sum_erase _ (fun u => (s.pc u).inHands s.mem) (Finset.mem_univ t)]

/-- A step keeps all files or joins two of them. -/
theorem Tidy.joins (tidy : Tidy s) (points : s'.pc = Function.update s.pc t next) (turn : Turn t input s s' next)
    (keeps : KeepsFiles s (t, input)) : Joins (pieces s) (pieces s') := by
  have touches := turn.touches (tidy.working t) keeps.creates
  have moved : s'.pc t = next := by rw [points, Function.update_self]
  have others : ∑ u ∈ Finset.univ.erase t, (s'.pc u).inHands s'.mem =
      ∑ u ∈ Finset.univ.erase t, (s.pc u).inHands s.mem := by
    refine Finset.sum_congr rfl fun u member => ?_
    have still : s'.pc u = s.pc u := by rw [points, Function.update_of_ne (Finset.ne_of_mem_erase member)]
    rw [still]
    exact inHands_congr fun i read => by rw [Memory.data, Memory.data, tidy.node_of_reads touches read]
  rw [pieces_eq s t, pieces_eq s' t, others, moved]
  refine Joins.add_right ?_ _
  cases turn with
  | lock here _ mem there =>
    rw [mem, there, inHands_of_early (p := s.pc t) (by rw [here]; rfl), inHands_of_early rfl]
    exact Or.inl rfl
  | unlock here mem there =>
    rw [mem, there, inHands_of_early (p := s.pc t) (by rw [here]; rfl), inHands_of_early rfl]
    exact Or.inl rfl
  | move move =>
    refine move.joins (tidy.working t) tidy.selecting.proper (fun name i found => tidy.regular _ (mem_of_lookup found))
      keeps.links (fun entry member => ?_) fun i read => ?_
    · rw [Memory.data, Memory.data, tidy.node_of_dir touches member]
    · rcases touches.reads i read with old | ⟨entry, member, rfl⟩
      · rw [Memory.data, Memory.data, tidy.node_of_reads touches old]
      · rw [Memory.data, Memory.data, tidy.node_of_dir touches member]

/-- The two files of a thread, from the moment it leaves the critical section
until it has unlinked both. -/
def Point.pair (p : Point) : List Name := match p.stmt with
  | .open1 | .open2 | .unlink1 | .unlink2 => p.locals.filehead1.toList ++ p.locals.filehead2.toList
  | _ => []

/-- No thread has selected a file of the pair of another one. -/
def Unshared (s : State K) : Prop := ∀ t u, u ≠ t → ∀ name ∈ (s.pc t).pair, name ∉ (s.pc u).chosen

theorem Tidy.unshared (tidy : Tidy s) : Unshared s := by
  intro t u other name paired
  have apart : ∀ name ∈ (s.pc t).chosen, name ∉ (s.pc u).chosen := tidy.selecting.apart t u (Ne.symm other)
  cases here : (s.pc t).stmt with
  | open1 | open2 | unlink1 =>
    refine apart name ?_
    simpa only [Point.pair, Point.chosen, here] using paired
  | unlink2 =>
    simp only [Point.pair, here, List.mem_append] at paired
    rcases paired with first | second
    · exact (tidy.gone t here name (Option.mem_toList.mp first)).2 u other
    · refine apart name ?_
      simpa only [Point.chosen, here] using second
  | _ => simp [Point.pair, here] at paired

/-- No thread has unlinked a file whose bytes are not yet linked again. -/
def Settled (s : State K) : Prop := ∀ t, (s.pc t).stmt.carries = false

theorem Settled.pieces (settled : Settled s) : pieces s = contents s.mem := by
  have none (t : Fin K) : (s.pc t).inHands s.mem = 0 := by
    have later : (s.pc t).stmt ≠ .unlink2 := by
      intro here
      have carries := settled t
      rw [here] at carries
      cases carries
    rw [Point.inHands, if_neg later, settled t, if_neg Bool.false_ne_true]
  rw [Concatenate.pieces, Finset.sum_eq_zero fun t _ => none t, add_zero]

theorem tidy_of_reach {begun : State K} (launch : Launch begun)
    (regular : ∀ entry ∈ begun.mem.dir, (begun.mem.node entry.2).isDirectory = false)
    (reach : ((program K).system (· = begun)).ReachUnder KeepsFiles s) :
    Tidy s ∧ Regrouped (pieces s) (contents begun.mem) := by
  have started (s : State K) (same : s = begun) : Started s := same ▸ launch.started
  refine reach.invariant (motive := fun s => Tidy s ∧ Regrouped (pieces s) (contents begun.mem)) ?_ ?_
  · rintro s rfl
    refine ⟨tidy_launch launch regular, ?_⟩
    have settled : Settled s := by
      intro t
      obtain ⟨isDir, at'⟩ := launch.thread t
      rw [Threads.pc, at']
      rfl
    rw [settled.pieces]
    exact .refl _
  · rintro s s' ⟨t, input⟩ earlier ⟨tidy, regrouped⟩ keeps moved
    have running := running_of_reach started earlier
    obtain ⟨live, step⟩ := Program.step_of_next moved
    obtain ⟨next, turn, points⟩ := turn_of_step running step
    exact ⟨tidy.turn (owned_of_reach started earlier) running live points turn keeps,
      (tidy.joins points turn keeps).regrouped regrouped⟩

/-- A file that is regular stays so. -/
theorem Move.isDirectory_eq (move : Move input m l stmt m' next) (regular : (m.node i).isDirectory = false) :
    (m'.node i).isDirectory = false := by
  cases move with
  | unlink1 | unlink2 => rw [Memory.unlink_node]; exact regular
  | openDest =>
    unfold Memory.create
    split
    · exact regular
    · by_cases new : i = m.fresh
      · subst new
        simp only [Function.update_self]
        rfl
      · simp only [Function.update_of_ne new]
        exact regular
  | write1 | write2 =>
    by_cases own : i = l.dest.1
    · rw [own]
      exact isDirectory_write ..
    · simp only [writeDest, Memory.write, Function.update_of_ne own]
      exact regular
  | link => rw [Memory.link_node]; exact regular
  | _ => exact regular

/-- There is no directory of a name in `tmp`. -/
def Memory.RegularTmp (m : Memory) (name : Name) : Prop :=
  ∀ i, m.tmp.lookup name = some i → (m.node i).isDirectory = false

theorem Move.regularTmp (move : Move input m l stmt m' next) (regular : m.RegularTmp name) : m'.RegularTmp name := by
  intro i found
  have kind (before : m.tmp.lookup name = some i) : (m'.node i).isDirectory = false :=
    move.isDirectory_eq (regular i before)
  cases move with
  | unlink1 | unlink2 =>
    rw [Memory.unlink_tmp] at found
    exact kind found
  | openDest =>
    cases taken : m.tmp.lookup l.filename with
    | some j =>
      have same : m.create l.filename = (j, m) := by rw [Memory.create, taken]
      rw [same] at found
      exact kind found
    | none =>
      by_cases own : name = l.filename
      · rw [create_new taken] at found ⊢
        simp only [own, List.lookup_cons, beq_self_eq_true, Option.some.injEq] at found
        rw [← found]
        simp only [Function.update_self]
        rfl
      · refine kind ?_
        rw [create_new taken] at found
        simpa only [List.lookup_cons, beq_false_of_ne own] using found
  | link =>
    rw [Memory.link_tmp] at found
    exact kind found
  | unlinkTmp =>
    by_cases own : name = l.filename
    · have away : (m.tmp.filter (·.1 ≠ l.filename)).lookup name = some i := found
      rw [own] at away
      exact absurd (mem_of_lookup away) (by simp)
    · have kept : (m.tmp.filter (·.1 ≠ l.filename)).lookup name = some i := found
      rw [lookup_filter own] at kept
      exact kind kept
  | _ => exact kind found

theorem Turn.isDirectory_eq (turn : Turn t input s s' next) (regular : (s.mem.node i).isDirectory = false) :
    (s'.mem.node i).isDirectory = false := by
  cases turn with
  | lock _ _ mem | unlock _ mem =>
    rw [mem]
    exact regular
  | move move => exact move.isDirectory_eq regular

/-- The new file of a thread is a regular one. -/
theorem Move.dest_regular (move : Move input m l stmt m' next)
    (makes : stmt = .openDest → m.RegularTmp l.filename)
    (before : stmt.hasTmp = true → (m.node l.dest.1).isDirectory = false) (has : next.stmt.hasTmp = true) :
    (m'.node next.locals.dest.1).isDirectory = false := by
  by_cases scans : stmt = .scan1 ∨ stmt = .scan2
  · rw [(move.scan_early scans).2.1] at has
    cases has
  cases move with
  | error1 | end1 | rewind1 | skip1 | found1 | error2 | end2 | rewind2 | skip2 | crash2 | found2 => simp at scans
  | missing1 | opened1 | missing2 | opened2 =>
    split at has <;> cases has
  | null1 | null2 | unlink1 | unlink2 | unlinkTmp => cases has
  | openDest =>
    unfold Memory.create
    split
    · rename_i i found
      exact makes rfl i found
    · simp only [Function.update_self]
      rfl
  | bad1 | end1File | read1 | bad2 | end2File | read2 | write2Fails => exact before rfl
  | write1 | write2 => exact isDirectory_write ..
  | link =>
    rw [Memory.link_node]
    exact before rfl

theorem dest_regular_of_reach {begun : State K} (launch : Launch begun)
    (reach : ((program K).system (· = begun)).ReachUnder KeepsFiles s) (t : Fin K)
    (has : (s.pc t).stmt.hasTmp = true) : (s.mem.node (s.pc t).locals.dest.1).isDirectory = false := by
  have started (s : State K) (same : s = begun) : Started s := same ▸ launch.started
  refine reach.invariant (motive := fun s => ∀ t, (s.pc t).stmt.hasTmp = true →
    (s.mem.node (s.pc t).locals.dest.1).isDirectory = false) ?_ ?_ t has
  · rintro s rfl t has
    obtain ⟨isDir, at'⟩ := launch.thread t
    rw [Threads.pc, at'] at has
    cases has
  · rintro s s' ⟨t, input⟩ earlier before keeps moved u has
    obtain ⟨next, turn, points⟩ := turn_of_step (running_of_reach started earlier) (Program.step_of_next moved).2
    rcases update_cases points u with ⟨rfl, now⟩ | ⟨_, now⟩ <;> rw [now] at has ⊢
    · cases turn with
      | lock _ _ _ there | unlock _ _ there =>
        rw [there] at has
        cases has
      | move move =>
        refine move.dest_regular (fun here i found => ?_) (before u) has
        rw [keeps.creates here] at found
        cases found
    · exact turn.isDirectory_eq (before u has)

/-- What a thread has made in `tmp` is a regular file. -/
theorem tmp_regular_of_reach {begun : State K} (launch : Launch begun)
    (regular : ∀ entry ∈ begun.mem.dir, (begun.mem.node entry.2).isDirectory = false)
    (reach : ((program K).system (· = begun)).ReachUnder KeepsFiles s) (t : Fin K)
    (has : (s.pc t).stmt.hasTmp = true) : ∃ i, s.mem.tmp.lookup (s.pc t).locals.filename = some i ∧
      (s.mem.node i).isDirectory = false :=
  ⟨_, ((tidy_of_reach launch regular reach).1.working t).tmp has, dest_regular_of_reach launch reach t has⟩

end DeviceProgramming.Concatenate
