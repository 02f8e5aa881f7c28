import DeviceProgramming.Concatenate.Ending

namespace DeviceProgramming.Concatenate

/-- A directory without subdirectories, or with one entry at most. -/
def Memory.Plain (m : Memory) : Prop :=
  (∀ entry ∈ m.dir, (m.node entry.2).isDirectory = false) ∨ m.dir.length ≤ 1

/-- Nothing has been opened yet; what the stream lists and what is selected is in the
directory. -/
structure Untouched (m : Memory) (p : Point) : Prop where
  stmt : p.stmt = .lock ∨ p.stmt = .scan1 ∨ p.stmt = .scan2 ∨ p.stmt = .unlock ∨ p.stmt = .open1 ∨ p.stmt = .left
  listed : ∀ name ∈ files m.stream, name ∈ m.dir.map Prod.fst
  first : p.stmt = .scan2 ∨ p.stmt = .unlock ∨ p.stmt = .open1 → ∀ name ∈ p.locals.filehead1,
    name ∈ m.dir.map Prod.fst
  second : p.stmt = .unlock ∨ p.stmt = .open1 → ∀ name ∈ p.locals.filehead2, name ∈ m.dir.map Prod.fst

/-- The name of the new file is not that of a directory in `tmp`. -/
def MakesRegular (s : State 1) : Prop :=
  (s.pc only).stmt = .openDest → s.mem.RegularTmp (s.pc only).locals.filename

/-- No entry is a subdirectory, and `status` is that of a regular file as soon as a file has
been opened. -/
structure Regular (m : Memory) (p : Point) : Prop where
  files : ∀ entry ∈ m.dir, (m.node entry.2).isDirectory = false
  tmp : p.stmt.hasTmp = true → m.RegularTmp p.locals.filename
  isDir : p.locals.isDir = true → Untouched m p

/-- One entry at most, so that no two files are selected. -/
structure Single (m : Memory) (p : Point) : Prop where
  length : m.dir.length ≤ 1
  untouched : Untouched m p

variable {s s' : State 1} {m m' : Memory} {l : Locals} {p next : Point} {stmt : Stmt} {listing : List Name}
  {input : Input}

theorem mem_files {name : Name} : name ∈ files listing ↔ name ∈ listing ∧ special name = false := by
  simp [files, List.mem_filter]

/-- The files of a rewound stream are the entries of the directory. -/
theorem mem_files_lists (proper : m.Proper) (lists : listing.Perm m.names) {name : Name} :
    name ∈ files listing ↔ name ∈ m.dir.map Prod.fst := by
  rw [mem_files, lists.mem_iff]
  refine ⟨fun listed => mem_dir_of_names listed.1 listed.2, fun found => ?_⟩
  obtain ⟨entry, member, rfl⟩ := List.mem_map.mp found
  refine ⟨?_, proper.ordinary entry member⟩
  simp only [Memory.names, List.mem_cons]
  exact Or.inr (Or.inr (Or.inr found))

theorem Untouched.tail {entry : Name} {rest : List Name} (untouched : Untouched m p) (here : m.stream = entry :: rest) :
    ∀ name ∈ files rest, name ∈ m.dir.map Prod.fst := by
  intro name member
  refine untouched.listed name ?_
  rw [mem_files] at member ⊢
  rw [here]
  exact ⟨List.mem_cons_of_mem _ member.1, member.2⟩

theorem Untouched.head {entry : Name} {rest : List Name} (untouched : Untouched m p) (here : m.stream = entry :: rest)
    (ordinary : special entry = false) : entry ∈ m.dir.map Prod.fst :=
  untouched.listed entry (mem_files.mpr ⟨by rw [here]; exact List.mem_cons_self .., ordinary⟩)

/-- A thread that begins an iteration, or has left. -/
theorem Untouched.of_idle (listed : ∀ name ∈ files m.stream, name ∈ m.dir.map Prod.fst)
    (idle : stmt = .lock ∨ stmt = .scan1 ∨ stmt = .left) : Untouched m ⟨stmt, l⟩ := by
  refine ⟨?_, listed, ?_, ?_⟩
  all_goals rcases idle with rfl | rfl | rfl <;> simp

theorem Untouched.of_scan2 (listed : ∀ name ∈ files m.stream, name ∈ m.dir.map Prod.fst)
    (first : ∀ name ∈ l.filehead1, name ∈ m.dir.map Prod.fst) : Untouched m ⟨.scan2, l⟩ :=
  ⟨by simp, listed, fun _ => first, by simp⟩

theorem Untouched.selected (listed : ∀ name ∈ files m.stream, name ∈ m.dir.map Prod.fst)
    (first : ∀ name ∈ l.filehead1, name ∈ m.dir.map Prod.fst)
    (second : ∀ name ∈ l.filehead2, name ∈ m.dir.map Prod.fst) : Untouched m (selected l) := by
  unfold Concatenate.selected
  split
  · exact ⟨by simp, listed, fun _ => first, fun _ => second⟩
  · exact .of_idle listed (by simp)

/-- A round of a scan opens nothing. -/
theorem Untouched.scan (untouched : Untouched m ⟨stmt, l⟩) (proper : m.Proper) (move : Move input m l stmt m' next)
    (scans : stmt = .scan1 ∨ stmt = .scan2) : Untouched m' next := by
  have listed (lists : input.listing.Perm m.names) : ∀ name ∈ files input.listing, name ∈ m.dir.map Prod.fst :=
    fun name => (mem_files_lists proper lists).mp
  cases move with
  | error1 | end1 | end2 => exact .of_idle untouched.listed (by simp)
  | rewind1 _ _ _ lists =>
    split
    · exact .of_idle (listed lists) (by simp)
    · exact .of_scan2 (listed lists) nofun
  | skip1 here => exact .of_idle (untouched.tail here) (by simp)
  | found1 here ordinary =>
    refine .of_scan2 (untouched.tail here) fun name head => ?_
    cases Option.some.inj head
    exact untouched.head here ordinary
  | error2 =>
    have first := untouched.first (Or.inl rfl)
    split
    · exact .of_scan2 untouched.listed first
    · exact .selected untouched.listed first nofun
  | rewind2 _ _ _ lists =>
    have first := untouched.first (Or.inl rfl)
    split
    · exact .of_scan2 (listed lists) first
    · exact .selected (listed lists) first nofun
  | skip2 here => exact .of_scan2 (untouched.tail here) (untouched.first (Or.inl rfl))
  | crash2 _ _ here => exact .of_scan2 (untouched.tail here) (untouched.first (Or.inl rfl))
  | found2 _ _ here ordinary =>
    refine .selected (untouched.tail here) (untouched.first (Or.inl rfl)) fun name head => ?_
    cases Option.some.inj head
    exact untouched.head here ordinary
  | _ => simp at scans

/-- Up to the `open` of the first file nothing is opened, and the directory stays. -/
theorem Untouched.turn (untouched : Untouched s.mem (s.pc 0)) (proper : s.mem.Proper)
    (turn : Turn 0 input s s' next) (before : (s.pc 0).stmt ≠ .open1) :
    Untouched s'.mem next ∧ s'.mem.dir = s.mem.dir := by
  cases turn with
  | lock here _ mem there =>
    rw [mem, there]
    exact ⟨.of_idle untouched.listed (by simp), rfl⟩
  | unlock here mem there =>
    rw [mem, there]
    refine ⟨⟨by simp, untouched.listed, fun _ => untouched.first ?_, fun _ => untouched.second ?_⟩, rfl⟩
    · rw [here]; simp
    · rw [here]; simp
  | move move =>
    have scans : (s.pc 0).stmt = .scan1 ∨ (s.pc 0).stmt = .scan2 := by
      rcases untouched.stmt with here | here | here | here | here | here
      · rw [here] at move; cases move
      · exact Or.inl here
      · exact Or.inr here
      · rw [here] at move; cases move
      · exact absurd here before
      · rw [here] at move; cases move
    exact ⟨Untouched.scan untouched proper move scans, (move.scan_early scans).2.2⟩

/-- Two different entries are not in a directory with one. -/
theorem Single.quiet (single : Single m p) (sound : Sound m p) : p.stmt ≠ .unlock ∧ p.stmt ≠ .open1 := by
  obtain ⟨length, untouched⟩ := single
  rw [← not_or]
  intro selected
  obtain ⟨name1, name2, first, second, differ, _⟩ :=
    sound.pair (by rcases selected with here | here <;> rw [here] <;> rfl)
  have one := untouched.first (by tauto) name1 first
  have two := untouched.second selected name2 second
  rw [← List.length_map (Prod.fst : Name × Inode → Name)] at length
  generalize m.dir.map Prod.fst = names at one two length
  match names, length with
  | [], _ => cases one
  | [name], _ =>
    rw [List.mem_singleton] at one two
    exact differ (one.trans two.symm)

theorem Single.opens (single : Single m p) (sound : Sound m p) : p.OpensFiles m := by
  refine ⟨fun here => absurd here (single.quiet sound).2, fun here => ?_⟩
  rcases single.untouched.stmt with at' | at' | at' | at' | at' | at' <;> rw [at'] at here <;> cases here

theorem Single.turn (single : Single s.mem (s.pc 0)) (sound : Sound s.mem (s.pc 0)) (turn : Turn 0 input s s' next) :
    Single s'.mem next := by
  obtain ⟨untouched, dir⟩ := single.untouched.turn sound.proper turn (single.quiet sound).2
  exact ⟨dir ▸ single.length, untouched⟩

theorem Regular.opens (regular : Regular m p) : p.OpensFiles m := by
  have found {name : Name} (bit : m.dir.lookup name = none → p.locals.isDir = false) :
      p.locals.ifdir m name = false := by
    rw [Locals.ifdir]
    cases at' : m.dir.lookup name with
    | none => exact bit at'
    | some i => exact regular.files _ (mem_of_lookup at')
  refine ⟨fun here name head => found fun missing => ?_, fun here name _ => found fun _ => ?_⟩
  · by_contra set
    have untouched := regular.isDir (Bool.not_eq_false _ ▸ set)
    have present := lookup_isSome (untouched.first (by simp [here]) name head)
    rw [missing] at present
    cases present
  · by_contra set
    have untouched := regular.isDir (Bool.not_eq_false _ ▸ set)
    rcases untouched.stmt with at' | at' | at' | at' | at' | at' <;> rw [at'] at here <;> cases here

/-- The entries stay regular files when the new file is one. -/
theorem Move.files_regular (move : Move input m l stmt m' next)
    (files : ∀ entry ∈ m.dir, (m.node entry.2).isDirectory = false)
    (tmp : stmt.hasTmp = true → m.RegularTmp l.filename) :
    ∀ entry ∈ m'.dir, (m'.node entry.2).isDirectory = false := by
  intro entry member
  refine move.isDirectory_eq ?_
  have old (before : entry ∈ m.dir) : (m.node entry.2).isDirectory = false := files entry before
  cases move with
  | unlink1 | unlink2 =>
    unfold Memory.unlink at member
    split at member
    · exact old member
    · split at member
      · exact old member
      · exact old (List.mem_of_mem_filter member)
  | openDest =>
    rw [Memory.create_dir] at member
    exact old member
  | link =>
    unfold Memory.link at member
    split at member
    · exact old member
    · rename_i i found
      split at member
      · exact old member
      · rcases List.mem_cons.mp member with rfl | before
        · exact tmp rfl i found
        · exact old before
  | _ => exact old member

theorem Move.filename_eq (move : Move input m l stmt m' next) (has : next.stmt.hasTmp = true) :
    (stmt.hasTmp = true ∨ stmt = .openDest) ∧ next.locals.filename = l.filename := by
  by_cases scans : stmt = .scan1 ∨ stmt = .scan2
  · rw [(move.scan_early scans).2.1] at has
    cases has
  cases move with
  | error1 | end1 | rewind1 | skip1 | found1 | error2 | end2 | rewind2 | skip2 | crash2 | found2 => simp at scans
  | missing1 | opened1 | missing2 | opened2 => split at has <;> cases has
  | null1 | null2 | unlink1 | unlink2 | unlinkTmp => cases has
  | openDest => exact ⟨Or.inr rfl, rfl⟩
  | bad1 | end1File | read1 | write1 | bad2 | end2File | read2 | write2Fails | write2 | link => exact ⟨Or.inl rfl, rfl⟩

theorem Turn.regularTmp (turn : Turn 0 input s s' next) (makes : MakesRegular s)
    (before : (s.pc 0).stmt.hasTmp = true → s.mem.RegularTmp (s.pc 0).locals.filename)
    (has : next.stmt.hasTmp = true) : s'.mem.RegularTmp next.locals.filename := by
  cases turn with
  | lock _ _ _ there | unlock _ _ there =>
    rw [there] at has
    cases has
  | move move =>
    obtain ⟨stage, same⟩ := move.filename_eq has
    rw [same]
    refine move.regularTmp ?_
    rcases stage with early | here
    · exact before early
    · exact makes here

/-- In a run that makes regular files the new file is one. -/
theorem regularTmp_of_reach {start : State 1 → Prop} {ok : State 1 → List Name → Prop}
    (launched : ∀ s, start s → Launch s) (makes : ∀ s listing, ok s listing → MakesRegular s)
    (reach : (solo start).ReachUnder ok s) (has : (s.pc 0).stmt.hasTmp = true) :
    s.mem.RegularTmp (s.pc 0).locals.filename := by
  refine reach.invariant (motive := fun s => (s.pc 0).stmt.hasTmp = true → s.mem.RegularTmp (s.pc 0).locals.filename)
    ?_ ?_ has
  · intro s begun has
    obtain ⟨isDir, at'⟩ := (launched s begun).thread 0
    rw [Threads.pc_of_run at'] at has
    cases has
  · intro s s' listing earlier before allowed moved
    obtain ⟨next, turn, there⟩ := turn_of_solo launched earlier moved
    rw [there]
    exact turn.regularTmp (makes s listing allowed) before

/-- `status` changes only when a file is opened. -/
theorem Move.isDir_cases (move : Move input m l stmt m' next) : next.locals.isDir = l.isDir ∨
    ∃ name i, m.dir.lookup name = some i ∧ next.locals.isDir = (m.node i).isDirectory := by
  cases move with
  | opened1 _ found | opened2 _ found => exact Or.inr ⟨_, _, found, rfl⟩
  | rewind1 | error2 | rewind2 =>
    left
    split <;> rfl
  | _ => exact Or.inl rfl

theorem Move.status_open1 (move : Move input m l .open1 m' next) {name : Name} (head : l.filehead1 = some name)
    (present : l.isDir = true → (m.dir.lookup name).isSome)
    (files : ∀ entry ∈ m.dir, (m.node entry.2).isDirectory = false) : next.locals.isDir = false := by
  cases move with
  | null1 null => cases null.symm.trans head
  | missing1 here none =>
    cases here.symm.trans head
    by_contra set
    have found := present (Bool.not_eq_false _ ▸ set)
    rw [none] at found
    cases found
  | opened1 _ found => exact files _ (mem_of_lookup found)

theorem Regular.turn (regular : Regular s.mem (s.pc 0)) (sound : Sound s.mem (s.pc 0)) (goes : Goes s listing)
    (turn : Turn 0 ⟨false, false, listing⟩ s s' next) : Regular s'.mem next := by
  have untouched (set : (s.pc 0).locals.isDir = true) (before : (s.pc 0).stmt ≠ .open1) : Untouched s'.mem next :=
    ((regular.isDir set).turn sound.proper turn before).1
  cases turn with
  | lock here _ mem there =>
    have early : next.stmt.hasTmp = false := by rw [there]; rfl
    refine ⟨mem ▸ regular.files, by simp [early], fun set => untouched ?_ (by simp [here])⟩
    rw [there] at set
    exact set
  | unlock here mem there =>
    have early : next.stmt.hasTmp = false := by rw [there]; rfl
    refine ⟨mem ▸ regular.files, by simp [early], fun set => untouched ?_ (by simp [here])⟩
    rw [there] at set
    exact set
  | move move =>
    refine ⟨move.files_regular regular.files regular.tmp,
      Turn.regularTmp (.move move) goes.makes regular.tmp, fun set => ?_⟩
    · by_cases opens : (s.pc 0).stmt = .open1
      · obtain ⟨name, _, first, _⟩ := sound.pair (by rw [opens]; rfl)
        rw [opens] at move
        have present (set : (s.pc 0).locals.isDir = true) : (s.mem.dir.lookup name).isSome :=
          lookup_isSome ((regular.isDir set).first (by simp [opens]) name first)
        rw [move.status_open1 first present regular.files] at set
        cases set
      · rcases move.isDir_cases with same | ⟨name, i, found, same⟩ <;> rw [set] at same
        · exact untouched same.symm opens
        · rw [regular.files _ (mem_of_lookup found)] at same
          cases same

theorem Untouched.launch (launch : Launch s) : Untouched s.mem (s.pc 0) := by
  obtain ⟨isDir, at'⟩ := launch.thread 0
  rw [Threads.pc_of_run at']
  refine .of_idle (fun name member => ?_) (by simp)
  obtain ⟨read, ordinary⟩ := mem_files.mp member
  exact mem_dir_of_names (launch.opened.mem_names read) ordinary

section
variable {start : State 1 → Prop} (launched : ∀ s, start s → Launch s ∧ s.mem.Plain)
include launched

/-- The thread opens no subdirectory. -/
theorem opens_of_reach (reach : (solo start).ReachUnder Goes s) : OpensFiles s listing := by
  have launched' := fun s (begun : start s) => (launched s begun).1
  have kept : Regular s.mem (s.pc 0) ∨ Single s.mem (s.pc 0) := by
    refine reach.invariant (motive := fun s => Regular s.mem (s.pc 0) ∨ Single s.mem (s.pc 0)) ?_ ?_
    · intro s begun
      obtain ⟨launch, files | one⟩ := launched s begun
      · obtain ⟨isDir, at'⟩ := launch.thread 0
        refine Or.inl ⟨files, fun has => ?_, fun _ => .launch launch⟩
        rw [Threads.pc_of_run at'] at has
        cases has
      · exact Or.inr ⟨one, .launch launch⟩
    · intro s s' listing earlier before goes moved
      obtain ⟨next, turn, there⟩ := turn_of_solo launched' earlier moved
      have sound := sound_of_reach launched' earlier
      rw [there]
      exact before.imp (fun regular => regular.turn sound goes turn) fun single => single.turn sound turn
  rcases kept with regular | single
  · exact regular.opens
  · exact single.opens (sound_of_reach launched' reach)

/-- In a directory without subdirectories, or with one entry at most, the loop ends in all
runs whose steps go on. -/
theorem ends_of_plain (reach : (solo start).ReachUnder Goes s) : (solo start).Inevitable Goes Ended s := by
  have launched' := fun s (begun : start s) => (launched s begun).1
  refine System.Inevitable.of_rank ((solo start).ReachUnder Goes) (fun s => rank s.mem (s.pc 0)) ?_ ?_ ?_ reach
  · exact fun s listing s' here allowed moved => here.next allowed moved
  · exact fun s here more => solo_goes launched' here more
  · intro s listing s' here _ goes moved
    obtain ⟨next, turn, there⟩ := turn_of_solo launched' here moved
    rw [there]
    exact turn.rank_lt (sound_of_reach launched' here) goes (opens_of_reach launched here)

end

end DeviceProgramming.Concatenate
