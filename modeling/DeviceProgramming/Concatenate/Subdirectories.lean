import DeviceProgramming.Concatenate.Plain

namespace DeviceProgramming.Concatenate

/-- What comes into `tmp` is no subdirectory, and what is linked is a new entry. -/
structure LinksNew (s : State 1) (_ : List Name) : Prop where
  makes : MakesRegular s
  links : (s.pc 0).stmt = .link → (s.pc 0).locals.filename ∉ s.mem.names

/-- A thread in a directory that has a subdirectory and another entry, or will have them when
the new file is linked. -/
structure Crowded (m : Memory) (p : Point) : Prop where
  proper : m.Proper
  old : ∀ entry ∈ m.dir ++ m.tmp, entry.2 < m.fresh
  directory : ∃ entry ∈ m.dir, (m.node entry.2).isDirectory = true
  two : p.stmt.carries = false → 2 ≤ m.dir.length
  made : p.stmt.hasTmp = true → m.tmp.lookup p.locals.filename ≠ none
  dest : p.stmt.hasTmp = true → (m.node p.locals.dest.1).isDirectory = false
  stmt : p.stmt ≠ .left
  cont : p.locals.cont = true
  scan1 : p.stmt = .scan1 → p.locals.rewinded = true → files m.stream ≠ []
  scan2 : m.crashed = false → p.stmt = .scan2 → p.locals.rewinded = true →
    ∃ name ∈ files m.stream, p.locals.filehead1 ≠ some name

variable {s s' : State 1} {m m' : Memory} {l : Locals} {p next : Point} {stmt : Stmt} {listing : List Name}
  {input : Input}

/-- One of two entries is not the first file. -/
theorem exists_other (proper : m.Proper) (two : 2 ≤ m.dir.length) (head : Option Name) :
    ∃ name ∈ m.dir.map Prod.fst, head ≠ some name := by
  have distinct := proper.nodup
  have many : 2 ≤ (m.dir.map Prod.fst).length := by rwa [List.length_map]
  generalize m.dir.map Prod.fst = names at *
  match names, many with
  | a :: b :: rest, _ =>
    by_cases same : head = some a
    · refine ⟨b, by simp, ?_⟩
      rw [same]
      intro again
      cases Option.some.inj again
      simp at distinct
    · exact ⟨a, by simp, same⟩

theorem lookup_of_mem {entries : List (Name × Inode)} (nodup : (entries.map Prod.fst).Nodup) {entry : Name × Inode}
    (member : entry ∈ entries) : entries.lookup entry.1 = some entry.2 := by
  induction entries with
  | nil => cases member
  | cons first rest ih =>
    rw [List.map_cons, List.nodup_cons] at nodup
    rcases List.mem_cons.mp member with rfl | later
    · rw [List.lookup_cons, beq_self_eq_true]
    · have other : entry.1 ≠ first.1 := by
        intro same
        rw [← same] at nodup
        exact nodup.1 (List.mem_map_of_mem later)
      rw [List.lookup_cons, beq_false_of_ne other]
      exact ih nodup.2 later

/-- A subdirectory is not unlinked. -/
theorem mem_unlink (proper : m.Proper) {entry : Name × Inode} (member : entry ∈ m.dir)
    (directory : (m.node entry.2).isDirectory = true) (name : Name) : entry ∈ (m.unlink name).dir := by
  unfold Memory.unlink
  split
  · exact member
  · rename_i i found
    split
    · exact member
    · rename_i regular
      refine List.mem_filter.mpr ⟨member, decide_eq_true fun own => regular ?_⟩
      have same : m.dir.lookup entry.1 = some entry.2 := lookup_of_mem proper.nodup member
      rw [own, found] at same
      cases Option.some.inj same
      exact directory

/-- A subdirectory stays one. -/
theorem Move.directory_kept (move : Move input m l stmt m' next) {i : Inode} (old : i < m.fresh)
    (dest : stmt.hasTmp = true → (m.node l.dest.1).isDirectory = false) (directory : (m.node i).isDirectory = true) :
    (m'.node i).isDirectory = true := by
  have written (has : stmt.hasTmp = true) (offset : ℕ) (buffer : List UInt8) :
      ((m.write l.dest.1 offset buffer).node i).isDirectory = true := by
    have other : i ≠ l.dest.1 := by
      rintro rfl
      rw [dest has] at directory
      cases directory
    simp only [Memory.write, Function.update_of_ne other]
    exact directory
  cases move with
  | unlink1 | unlink2 =>
    rw [Memory.unlink_node]
    exact directory
  | openDest =>
    unfold Memory.create
    split
    · exact directory
    · simp only [Function.update_of_ne (Nat.ne_of_lt old)]
      exact directory
  | write1 | write2 => exact written rfl ..
  | link =>
    rw [Memory.link_node]
    exact directory
  | _ => exact directory

/-- A scan does not end the loop. -/
theorem Crowded.scan (crowded : Crowded m ⟨stmt, l⟩) (live : m.crashed = false)
    (move : Move ⟨false, false, listing⟩ m l stmt m' next) (scans : stmt = .scan1 ∨ stmt = .scan2) :
    next.stmt ≠ .left ∧ next.locals.cont = true ∧
      (next.stmt = .scan1 → next.locals.rewinded = true → files m'.stream ≠ []) ∧
      (m'.crashed = false → next.stmt = .scan2 → next.locals.rewinded = true →
        ∃ name ∈ files m'.stream, next.locals.filehead1 ≠ some name) := by
  have cont : l.cont = true := crowded.cont
  have proper := crowded.proper
  have two := crowded.two (by rcases scans with here | here <;> rw [here] <;> rfl)
  have listed (lists : listing.Perm m.names) (head : Option Name) : ∃ name ∈ files listing, head ≠ some name := by
    obtain ⟨name, found, other⟩ := exists_other proper two head
    exact ⟨name, (mem_files_lists proper lists).mpr found, other⟩
  cases move with
  | error1 error | error2 error => cases error
  | end1 ends again =>
    have none : m.stream = [] := of_decide_eq_true ends
    refine absurd ?_ (crowded.scan1 rfl again)
    rw [none]
    rfl
  | end2 _ ends again =>
    have none : m.stream = [] := of_decide_eq_true ends
    obtain ⟨name, member, _⟩ := crowded.scan2 live rfl again
    rw [none] at member
    cases member
  | rewind1 _ _ _ lists =>
    split
    · refine ⟨by simp, cont, fun _ _ nothing => ?_, by simp⟩
      obtain ⟨name, member, _⟩ := listed lists none
      rw [nothing] at member
      cases member
    · exact ⟨by simp, cont, by simp, by simp⟩
  | @skip1 entry rest here skips =>
    refine ⟨by simp, cont, fun _ again => ?_, by simp⟩
    have some := crowded.scan1 rfl again
    rwa [here, files, List.filter_cons_of_neg (by simp [skips])] at some
  | found1 => exact ⟨by simp, cont, by simp, by simp⟩
  | rewind2 _ _ _ lists =>
    split
    · exact ⟨by simp, cont, by simp, fun _ _ _ => listed lists l.filehead1⟩
    · rw [selected, if_pos cont]
      exact ⟨by simp, cont, by simp, by simp⟩
  | @skip2 entry rest here skips =>
    refine ⟨by simp, cont, by simp, fun _ _ again => ?_⟩
    obtain ⟨name, member, other⟩ := crowded.scan2 live rfl again
    refine ⟨name, ?_, other⟩
    rw [mem_files] at member ⊢
    rw [here] at member
    rcases List.mem_cons.mp member.1 with rfl | later
    · rcases skips with skips | same
      · rw [skips] at member
        cases member.2
      · exact absurd same other
    · exact ⟨later, member.2⟩
  | crash2 => exact ⟨by simp, cont, by simp, by simp⟩
  | found2 =>
    rw [selected, if_pos cont]
    exact ⟨by simp, cont, by simp, by simp⟩
  | _ => simp at scans

theorem Move.carries_cases (move : Move input m l stmt m' next) (elsewhere : ¬ (stmt = .scan1 ∨ stmt = .scan2)) :
    next.stmt ≠ .left ∧ next.stmt ≠ .scan1 ∧ next.stmt ≠ .scan2 ∧ next.locals.cont = l.cont ∧
      (next.stmt.carries = false → stmt.carries = false ∧ stmt ≠ .unlink1 ∨ stmt = .link) := by
  cases move with
  | error1 | end1 | rewind1 | skip1 | found1 | error2 | end2 | rewind2 | skip2 | crash2 | found2 => simp at elsewhere
  | missing1 | opened1 | missing2 | opened2 =>
    refine ⟨?_, ?_, ?_, rfl, fun _ => Or.inl ⟨rfl, nofun⟩⟩ <;> dsimp only <;> split <;> exact nofun
  | null1 | null2 | unlinkTmp => exact ⟨nofun, nofun, nofun, rfl, fun _ => Or.inl ⟨rfl, nofun⟩⟩
  | unlink1 | unlink2 | openDest | bad1 | end1File | read1 | write1 | bad2 | end2File | read2 | write2Fails | write2 =>
    exact ⟨nofun, nofun, nofun, rfl, nofun⟩
  | link => exact ⟨nofun, nofun, nofun, rfl, fun _ => Or.inr rfl⟩

/-- Only an `unlink` takes an entry away, and no subdirectory. -/
theorem Move.mem_dir (move : Move input m l stmt m' next) (proper : m.Proper) {entry : Name × Inode}
    (member : entry ∈ m.dir) (directory : (m.node entry.2).isDirectory = true) : entry ∈ m'.dir := by
  cases move with
  | unlink1 | unlink2 => exact mem_unlink proper member directory _
  | openDest => rwa [Memory.create_dir]
  | link =>
    unfold Memory.link
    split
    · exact member
    · split
      · exact member
      · exact List.mem_cons_of_mem _ member
  | _ => exact member

theorem Move.dir_eq (move : Move input m l stmt m' next) (free : stmt.carries = false) (other : stmt ≠ .unlink1) :
    m'.dir = m.dir := by
  cases move with
  | unlink1 => exact absurd rfl other
  | unlink2 | openDest | bad1 | end1File | read1 | write1 | bad2 | end2File | read2 | write2Fails | write2 | link =>
    cases free
  | _ => rfl

/-- The `link` of a new name makes an entry. -/
theorem length_link {name : Name} (made : m.tmp.lookup name ≠ none) (new : name ∉ m.names) :
    (m.link name).dir.length = m.dir.length + 1 := by
  obtain ⟨i, found⟩ := Option.ne_none_iff_exists'.mp made
  rw [Memory.link, found]
  dsimp only
  rw [if_neg new]
  rfl

/-- The new file is in `tmp` from its `open` on. -/
theorem Move.made (move : Move input m l stmt m' next) (has : next.stmt.hasTmp = true)
    (before : stmt.hasTmp = true → m.tmp.lookup l.filename ≠ none) :
    m'.tmp.lookup next.locals.filename ≠ none := by
  obtain ⟨stage, same⟩ := move.filename_eq has
  rw [same]
  rcases stage with tmp | here
  · obtain ⟨i, found⟩ := Option.ne_none_iff_exists'.mp (before tmp)
    have kept : m'.tmp.lookup l.filename = some i := by
      refine move.keeps_tmp (fun here => ?_) found
      subst here
      cases move
      cases has
    rw [kept]
    exact nofun
  · subst here
    cases move
    unfold Memory.create
    split
    · rename_i i found
      rw [found]
      exact nofun
    · simp

theorem Crowded.move (crowded : Crowded m ⟨stmt, l⟩) (live : m.crashed = false)
    (move : Move ⟨false, false, listing⟩ m l stmt m' next) (makes : stmt = .openDest → m.RegularTmp l.filename)
    (links : stmt = .link → l.filename ∉ m.names) : Crowded m' next := by
  have directory : ∃ entry ∈ m'.dir, (m'.node entry.2).isDirectory = true := by
    obtain ⟨entry, member, directory⟩ := crowded.directory
    refine ⟨entry, move.mem_dir crowded.proper member directory, ?_⟩
    exact move.directory_kept (crowded.old entry (List.mem_append_left _ member)) crowded.dest directory
  have made (has : next.stmt.hasTmp = true) := move.made has crowded.made
  have dest (has : next.stmt.hasTmp = true) := move.dest_regular makes crowded.dest has
  have proper := move.proper crowded.proper
  have old := move.inodes crowded.old
  by_cases scans : stmt = .scan1 ∨ stmt = .scan2
  · obtain ⟨left, cont, scan1, scan2⟩ := crowded.scan live move scans
    refine ⟨proper, old, directory, fun _ => ?_, made, dest, left, cont, scan1, scan2⟩
    rw [(move.scan_early scans).2.2]
    exact crowded.two (by rcases scans with here | here <;> rw [here] <;> rfl)
  · obtain ⟨left, scan1, scan2, cont, carries⟩ := move.carries_cases scans
    refine ⟨proper, old, directory, fun free => ?_, made, dest, left, cont.trans crowded.cont,
      fun here => absurd here scan1, fun _ here => absurd here scan2⟩
    rcases carries free with ⟨before, other⟩ | here
    · rw [move.dir_eq before other]
      exact crowded.two before
    · obtain ⟨entry, member, _⟩ := crowded.directory
      subst here
      cases move
      rw [length_link (crowded.made rfl) (links rfl)]
      exact Nat.succ_le_succ (List.length_pos_of_mem member)

theorem Crowded.turn (crowded : Crowded s.mem (s.pc 0)) (live : s.mem.crashed = false)
    (turn : Turn 0 ⟨false, false, listing⟩ s s' next) (new : LinksNew s listing) : Crowded s'.mem next := by
  cases turn with
  | lock here _ mem there =>
    have two := crowded.two (by rw [here]; rfl)
    rw [mem, there]
    exact ⟨crowded.proper, crowded.old, crowded.directory, fun _ => two, nofun, nofun, nofun, crowded.cont, nofun, nofun⟩
  | unlock here mem there =>
    have two := crowded.two (by rw [here]; rfl)
    rw [mem, there]
    exact ⟨crowded.proper, crowded.old, crowded.directory, fun _ => two, nofun, nofun, nofun, crowded.cont, nofun, nofun⟩
  | move move => exact Crowded.move crowded live move new.makes new.links

theorem crowded_launch (launch : Launch s) (mixed : ¬ s.mem.Plain) : Crowded s.mem (s.pc 0) := by
  obtain ⟨isDir, at'⟩ := launch.thread 0
  rw [Threads.pc_of_run at']
  simp only [Memory.Plain, not_or, not_forall, not_le, Bool.not_eq_false] at mixed
  obtain ⟨⟨entry, member, directory⟩, two⟩ := mixed
  exact ⟨(selecting_launch launch).proper, launch.opened.inodes, ⟨entry, member, directory⟩, fun _ => two, nofun, nofun,
    nofun, rfl, nofun, nofun⟩

/-- In a directory with a subdirectory and another entry the loop does not end as long as
what is linked is a new entry. -/
theorem not_ended_of_crowded {start : State 1 → Prop} (launched : ∀ s, start s → Launch s ∧ ¬ s.mem.Plain)
    (reach : (solo start).ReachUnder LinksNew s) : ¬ Ended s := by
  refine (reach.invariant (motive := fun s => Crowded s.mem (s.pc 0)) ?_ ?_).stmt
  · exact fun s begun => crowded_launch (launched s begun).1 (launched s begun).2
  · intro s s' listing earlier crowded new moved
    obtain ⟨next, turn, there⟩ := turn_of_solo (fun s begun => (launched s begun).1) earlier moved
    rw [there]
    exact crowded.turn (Program.step_iff.mp moved).1 turn new

end DeviceProgramming.Concatenate
