import DeviceProgramming.Concatenate.Overwriting

namespace DeviceProgramming.Concatenate

/-- A thread after its critical section with two regular files, in a directory in
which the calls of `open` succeed. -/
structure Selected (start : Memory) where
  locals : Locals
  name1 : Name
  name2 : Name
  inode1 : Inode
  inode2 : Inode
  first : locals.filehead1 = some name1
  second : locals.filehead2 = some name2
  differ : name1 ≠ name2
  named1 : name1 ≠ []
  named2 : name2 ≠ []
  file1 : start.dir.lookup name1 = some inode1
  file2 : start.dir.lookup name2 = some inode2
  regular1 : (start.node inode1).isDirectory = false
  regular2 : (start.node inode2).isDirectory = false
  ordinary : ∀ entry ∈ start.dir, special entry.1 = false
  inodes : ∀ entry ∈ start.dir, entry.2 < start.fresh
  opens : ∀ j, start.tmp.lookup (name1 ++ name2) = some j → (start.node j).isDirectory = false

namespace Selected
variable {start : Memory} (step : Selected start)

def name : Name := step.name1 ++ step.name2

def contents : List UInt8 := start.data step.inode1 ++ start.data step.inode2

/-- The entries that are not unlinked. -/
def rest : List (Name × Inode) := (start.dir.filter (·.1 ≠ step.name1)).filter (·.1 ≠ step.name2)

/-- The inode that `open` gives for the new name in `tmp`, and what it holds. -/
def dest : Inode := (start.tmp.lookup step.name).getD start.fresh

def old : List UInt8 := (start.tmp.lookup step.name).elim [] start.data

/-- The two files are replaced by their concatenation, and every other file has
its name and its contents. -/
structure Keeps (m' : Memory) : Prop where
  joined : ∃ x, m'.dir.lookup step.name = some x ∧ m'.node x = .regular step.contents
  gone1 : m'.dir.lookup step.name1 = none
  gone2 : m'.dir.lookup step.name2 = none
  others : ∀ name x, name ≠ step.name1 → name ≠ step.name2 → start.dir.lookup name = some x →
    m'.dir.lookup name = some x ∧ m'.node x = start.node x

/-- The new name is not `tmp`; an entry of that name has the new contents
already; a file of that name left in `tmp` is not longer than the new contents
where it comes into the directory, begins with them where it is in the directory
under another name, and is not the second file behind a first one with bytes. -/
structure Clear : Prop where
  free : step.name ≠ tmpName
  ends : start.tmp.lookup step.name = some step.inode2 → start.data step.inode1 = []
  room : start.dir.lookup step.name = none → step.old.length ≤ step.contents.length
  taken : ∀ x, start.dir.lookup step.name = some x → start.node x = .regular step.contents
  linked : ∀ name x, name ≠ step.name1 → name ≠ step.name2 → start.dir.lookup name = some x →
    start.tmp.lookup step.name = some x → step.contents <+: start.data x

/-- The memory at the end of an iteration that ends. -/
structure Result (m' : Memory) : Prop where
  dir : m'.dir = if step.name ∈ dot :: dotdot :: tmpName :: step.rest.map Prod.fst then step.rest
    else (step.name, step.dest) :: step.rest
  written : m'.node step.dest = .regular (step.contents ++ step.old.drop step.contents.length)
  others : ∀ x, x < start.fresh → x ≠ step.dest → m'.node x = start.node x

/-- The memory before the `link`. -/
structure Written (m' : Memory) : Prop where
  dir : m'.dir = step.rest
  tmp : m'.tmp.lookup step.name = some step.dest
  written : m'.node step.dest = .regular (step.contents ++ step.old.drop step.contents.length)
  others : ∀ x, x < start.fresh → x ≠ step.dest → m'.node x = start.node x

/-- The variables when the copying begins. -/
def opened : Locals :=
  { step.locals with
    isDir := false
    file1 := some (step.inode1, 0)
    file2 := some (step.inode2, 0)
    dest := (step.dest, 0) }

/-- The memory when the copying begins. -/
structure Prepared (m' : Memory) : Prop where
  dir : m'.dir = step.rest
  tmp : m'.tmp.lookup step.name = some step.dest
  target : m'.node step.dest = .regular step.old
  others : ∀ x, x < start.fresh → m'.node x = start.node x

theorem name_eq : step.locals.filename = step.name := by
  rw [Locals.filename, step.first, step.second]
  rfl

theorem node_eq_regular {m : Memory} {j : Inode} (regular : (m.node j).isDirectory = false) :
    m.node j = .regular (m.data j) := by
  rw [Memory.data]
  cases at' : m.node j with
  | regular => rfl
  | directory =>
    rw [at'] at regular
    cases regular

theorem inode1_lt : step.inode1 < start.fresh := step.inodes _ (mem_of_lookup step.file1)

theorem inode2_lt : step.inode2 < start.fresh := step.inodes _ (mem_of_lookup step.file2)

/-- After both calls of `unlink`. -/
theorem unlinked : ((start.unlink step.name1).unlink step.name2) = { start with dir := step.rest } := by
  have differs : step.name2 ≠ step.name1 := step.differ.symm
  have still : (start.unlink step.name1).dir.lookup step.name2 = some step.inode2 := by
    rw [lookup_unlink differs, step.file2]
  have first : start.unlink step.name1 = { start with dir := start.dir.filter (·.1 ≠ step.name1) } := by
    simp [Memory.unlink, step.file1, step.regular1]
  rw [first] at still ⊢
  simp only [Memory.unlink, still, step.regular2]
  rfl

/-- What `open` in `tmp` gives. -/
theorem creates : step.Prepared (({ start with dir := step.rest } : Memory).create step.name).2 ∧
    (({ start with dir := step.rest } : Memory).create step.name).1 = step.dest := by
  unfold Memory.create
  dsimp only
  cases found : start.tmp.lookup step.name with
  | none =>
    have fresh : step.dest = start.fresh := by rw [dest, found, Option.getD_none]
    have empty : step.old = [] := by rw [old, found, Option.elim_none]
    rw [fresh]
    refine ⟨⟨rfl, ?_, ?_, fun x older => Function.update_of_ne (Nat.ne_of_lt older) ..⟩, rfl⟩
    · rw [fresh, List.lookup_cons, beq_self_eq_true]
    · rw [fresh, empty]
      exact Function.update_self ..
  | some j =>
    have old' : step.dest = j := by rw [dest, found, Option.getD_some]
    have bytes : step.old = start.data j := by rw [old, found, Option.elim_some]
    rw [old']
    refine ⟨⟨rfl, ?_, ?_, fun _ _ => rfl⟩, rfl⟩
    · rw [old']
      exact found
    · rw [old', bytes]
      exact node_eq_regular (step.opens j found)

/-- The two files are opened and unlinked. -/
theorem begins : advance (start, ⟨.open1, step.locals⟩) =
      (start, ⟨.open2, { step.locals with isDir := false, file1 := some (step.inode1, 0) }⟩) ∧
    advance^[2] (start, ⟨.open1, step.locals⟩) = (start, ⟨.unlink1, { step.locals with
      isDir := false
      file1 := some (step.inode1, 0)
      file2 := some (step.inode2, 0) }⟩) := by
  have one : advance (start, ⟨.open1, step.locals⟩) =
      (start, ⟨.open2, { step.locals with isDir := false, file1 := some (step.inode1, 0) }⟩) := by
    simp [advance, open1, step.first, step.file1, step.regular1]
  refine ⟨one, ?_⟩
  change advance (advance _) = _
  rw [one]
  simp [advance, open2, step.second, step.file2, step.regular2]

/-- Then the new one is opened. -/
theorem prepares : ∃ m', Leads (start, ⟨.open1, step.locals⟩) (m', ⟨.read1, step.opened⟩) ∧ step.Prepared m' := by
  obtain ⟨prepared, dest⟩ := step.creates
  refine ⟨_, .of_eq 5 ?_, prepared⟩
  change advance (advance (advance (advance^[2] _))) = _
  rw [step.begins.2]
  simp only [advance, step.first, step.second, Option.getD_some, step.unlinked, openDest, Locals.filename]
  simp only [opened, ← dest, name, step.first, step.second]

/-- Before the fifth statement, the `open` of the new file. -/
theorem stmt_begins : (advance^[4] (start, ⟨.open1, step.locals⟩)).2.stmt = .openDest ∧
    ∀ i < 4, (advance^[i] (start, ⟨.open1, step.locals⟩)).2.stmt ≠ .openDest ∧
      (advance^[i] (start, ⟨.open1, step.locals⟩)).2.stmt ≠ .link := by
  have three : advance^[3] (start, ⟨.open1, step.locals⟩) = advance (advance^[2] (start, ⟨.open1, step.locals⟩)) := rfl
  have four : advance^[4] (start, ⟨.open1, step.locals⟩) =
      advance (advance (advance^[2] (start, ⟨.open1, step.locals⟩))) := rfl
  constructor
  · rw [four, step.begins.2]
    rfl
  · intro i less
    obtain rfl | rfl | rfl | rfl : i = 0 ∨ i = 1 ∨ i = 2 ∨ i = 3 := by omega
    · exact ⟨nofun, nofun⟩
    · rw [Function.iterate_one, step.begins.1]
      exact ⟨nofun, nofun⟩
    · rw [step.begins.2]
      exact ⟨nofun, nofun⟩
    · rw [three, step.begins.2]
      exact ⟨nofun, nofun⟩

theorem node_source {m' : Memory} (prepared : step.Prepared m') {i : Inode} (older : i < start.fresh) :
    m'.data i = start.data i := by
  rw [Memory.data, prepared.others i older, Memory.data]

theorem old_of_eq {i : Inode} (older : i < start.fresh) (same : i = step.dest) :
    start.tmp.lookup step.name = some i ∧ step.old = start.data i := by
  rw [dest] at same
  cases found : start.tmp.lookup step.name with
  | none =>
    rw [found, Option.getD_none] at same
    exact absurd same (Nat.ne_of_lt older)
  | some j =>
    rw [found, Option.getD_some] at same
    subst same
    refine ⟨rfl, ?_⟩
    rw [old, found, Option.elim_some]

/-- The first loop puts the first file over what is in the new one. -/
theorem copies_first {m : Memory} (prepared : step.Prepared m) :
    ∃ m', Leads (m, ⟨.read1, step.opened⟩) (m', ⟨.read2, { step.opened with
        file1 := some (step.inode1, (start.data step.inode1).length)
        dest := (step.dest, (start.data step.inode1).length) }⟩) ∧
      m'.data step.dest = start.data step.inode1 ++ step.old.drop (start.data step.inode1).length ∧
      OnlyNode m m' step.dest := by
  have from' := step.node_source prepared step.inode1_lt
  have target : m.data step.dest = (start.data step.inode1).take 0 ++ step.old.drop 0 := by
    rw [Memory.data, prepared.target]
    rfl
  obtain ⟨m', leads, written, _, only⟩ := first_loop (l := step.opened) rfl rfl from' (Nat.zero_le _) target
  exact ⟨m', leads, written, only⟩

/-- What the second loop reads: the second file, or what is in the new one when
they are the same and nothing has been copied. -/
theorem source_second {m m' : Memory} (prepared : step.Prepared m) (only : OnlyNode m m' step.dest)
    (written : m'.data step.dest =
      start.data step.inode1 ++ step.old.drop (start.data step.inode1).length)
    (ends : start.tmp.lookup step.name = some step.inode2 → start.data step.inode1 = []) :
    m'.data step.inode2 = start.data step.inode2 ∧
      (step.inode2 = step.dest → start.data step.inode1 = []) := by
  by_cases same : step.inode2 = step.dest
  · obtain ⟨found, old⟩ := step.old_of_eq step.inode2_lt same
    have empty := ends found
    rw [← same, empty, List.nil_append, List.length_nil, List.drop_zero, old] at written
    exact ⟨written, fun _ => empty⟩
  · refine ⟨?_, fun own => absurd own same⟩
    rw [Memory.data, only.others _ same, ← Memory.data]
    exact step.node_source prepared step.inode2_lt

theorem copies_second {m : Memory} (prepared : step.Prepared m)
    (ends : start.tmp.lookup step.name = some step.inode2 → start.data step.inode1 = []) :
    ∃ m' l, Leads (m, ⟨.read1, step.opened⟩) (m', ⟨.link, l⟩) ∧ l.filename = step.name ∧
      m'.data step.dest = step.contents ++ step.old.drop step.contents.length ∧ OnlyNode m m' step.dest := by
  obtain ⟨m', leads, written, only⟩ := step.copies_first prepared
  obtain ⟨source, same⟩ := step.source_second prepared only written ends
  have target : m'.data step.dest = start.data step.inode1 ++ (start.data step.inode2).take 0 ++
      step.old.drop ((start.data step.inode1).length + 0) := by
    rw [written, List.take_zero, List.append_nil, Nat.add_zero]
  obtain ⟨m'', later, all, only'⟩ := second_loop (l := { step.opened with
      file1 := some (step.inode1, (start.data step.inode1).length)
      dest := (step.dest, (start.data step.inode1).length) }) (k := 0) rfl rfl source (Nat.zero_le _)
    target same
  refine ⟨m'', _, leads.trans later, step.name_eq, ?_, only.trans only'⟩
  rw [all, contents, List.length_append]

/-- An iteration comes to the `link` when the second loop does not chase its own writes. -/
theorem comes_to_link (ends : start.tmp.lookup step.name = some step.inode2 → start.data step.inode1 = []) :
    ∃ m' l, Leads (start, ⟨.open1, step.locals⟩) (m', ⟨.link, l⟩) ∧ l.filename = step.name ∧ step.Written m' := by
  obtain ⟨m, begun, prepared⟩ := step.prepares
  obtain ⟨m', l, copied, named, written, only⟩ := step.copies_second prepared ends
  refine ⟨m', l, begun.trans copied, named, ?_, ?_, ?_, ?_⟩
  · rw [only.frame]
    exact prepared.dir
  · rw [only.frame]
    exact prepared.tmp
  · have regular : (m'.node step.dest).isDirectory = false := by
      refine only.kind ?_
      rw [prepared.target]
      rfl
    rw [node_eq_regular regular, written]
  · intro x older other
    rw [only.others x other, prepared.others x older]

/-- After the `link` and the last `unlink`. -/
theorem Written.result {step : Selected start} {m : Memory} (written : step.Written m) :
    step.Result ((m.link step.name).unlinkTmp step.name) where
  dir := by
    simp only [Memory.unlinkTmp, Memory.link, written.tmp, Memory.names, written.dir]
    split <;> simp [written.dir]
  written := by
    simp only [Memory.unlinkTmp, Memory.link_node]
    exact written.written
  others x older other := by
    simp only [Memory.unlinkTmp, Memory.link_node]
    exact written.others x older other

/-- Otherwise it never ends. -/
theorem never_finishes (found : start.tmp.lookup step.name = some step.inode2) (some : start.data step.inode1 ≠ [])
    (n : ℕ) : (advance^[n] (start, ⟨.open1, step.locals⟩)).2.stmt ≠ .lock := by
  obtain ⟨m, begun, prepared⟩ := step.prepares
  obtain ⟨m', copied, written, only⟩ := step.copies_first prepared
  have dest : step.dest = step.inode2 := by rw [Selected.dest, found, Option.getD_some]
  have more := List.length_pos_iff.mpr some
  refine Chasing.never (j := step.inode2) (.read rfl dest more ?_) (begun.trans copied) n
  rw [← dest, written, List.length_append]
  exact Nat.le_add_right ..

theorem lookup_filter_self (entries : List (Name × Inode)) (name : Name) :
    (entries.filter (·.1 ≠ name)).lookup name = none := by
  rw [List.lookup_eq_none_iff]
  intro entry member
  have other := of_decide_eq_true (List.mem_filter.mp member).2
  exact bne_iff_ne.mpr (Ne.symm other)

theorem lookup_rest {name : Name} (one : name ≠ step.name1) (two : name ≠ step.name2) :
    step.rest.lookup name = start.dir.lookup name := by
  rw [rest, lookup_filter two, lookup_filter one]

theorem rest_name1 : step.rest.lookup step.name1 = none := by
  rw [rest, lookup_filter step.differ, lookup_filter_self]

theorem rest_name2 : step.rest.lookup step.name2 = none := by
  rw [rest, lookup_filter_self]

theorem name_ne_name1 : step.name ≠ step.name1 := by
  simpa [name] using step.named2

theorem name_ne_name2 : step.name ≠ step.name2 := by
  simpa [name] using step.named1

theorem name_ne_dots : step.name ≠ dot ∧ step.name ≠ dotdot := by
  have ordinary := step.ordinary _ (mem_of_lookup step.file1)
  obtain ⟨a, first, one⟩ := List.exists_cons_of_ne_nil step.named1
  obtain ⟨b, second, two⟩ := List.exists_cons_of_ne_nil step.named2
  rw [name, two, one]
  rw [one] at ordinary
  constructor
  · intro same
    have lengths := congrArg List.length same
    simp at lengths
  · intro same
    cases first with
    | nil =>
      obtain ⟨rfl, _⟩ := List.cons.inj same
      cases ordinary
    | cons =>
      have lengths := congrArg List.length same
      simp at lengths

/-- Whether there is an entry of the new name when it is linked. -/
theorem mem_names_iff : step.name ∈ dot :: dotdot :: tmpName :: step.rest.map Prod.fst ↔
    step.name = tmpName ∨ ∃ x, start.dir.lookup step.name = some x := by
  obtain ⟨one, two⟩ := step.name_ne_dots
  have same := step.lookup_rest step.name_ne_name1 step.name_ne_name2
  simp only [List.mem_cons, one, two, false_or, ← same, ← Option.isSome_iff_exists, List.lookup_isSome_iff, List.mem_map]
  refine or_congr_right ⟨?_, ?_⟩
  · rintro ⟨entry, member, called⟩
    exact ⟨entry, member, beq_iff_eq.mpr called.symm⟩
  · rintro ⟨entry, member, called⟩
    exact ⟨entry, member, (beq_iff_eq.mp called).symm⟩

/-- An inode keeps its data when they begin with the new contents. -/
theorem prefix_iff {bytes data : List UInt8} : bytes ++ data.drop bytes.length = data ↔ bytes <+: data :=
  List.prefix_iff_eq_append.symm

/-- The other files are as before when none of them is the file left in `tmp`, or
that file begins with the new contents. -/
theorem others_iff {m' : Memory} (result : step.Result m') {name : Name} {x : Inode} (one : name ≠ step.name1)
    (two : name ≠ step.name2) (found : start.dir.lookup name = some x) :
    (m'.dir.lookup name = some x ∧ m'.node x = start.node x) ↔
      (start.tmp.lookup step.name = some x → step.contents <+: start.data x) := by
  have older : x < start.fresh := step.inodes _ (mem_of_lookup found)
  have entry : m'.dir.lookup name = some x := by
    rw [result.dir]
    split
    · rw [step.lookup_rest one two, found]
    · rename_i new
      have other : name ≠ step.name := by
        rintro rfl
        exact new (step.mem_names_iff.mpr (Or.inr ⟨x, found⟩))
      rw [List.lookup_cons, beq_false_of_ne other]
      dsimp only
      rw [step.lookup_rest one two, found]
  by_cases same : x = step.dest
  · obtain ⟨bound, old⟩ := step.old_of_eq older same
    have node : m'.node x = .regular (step.contents ++ (start.data x).drop step.contents.length) := by
      rw [same, result.written, ← same, old]
    rw [node, node_eq_regular (step.opens x bound), Node.regular.injEq, prefix_iff]
    exact ⟨fun kept _ => kept.2, fun begins => ⟨entry, begins bound⟩⟩
  · have unbound : start.tmp.lookup step.name ≠ some x := by
      intro bound
      rw [dest, bound, Option.getD_some] at same
      exact same rfl
    exact ⟨fun _ bound => absurd bound unbound, fun _ => ⟨entry, result.others x older same⟩⟩

/-- The new name stands for the new contents. -/
theorem joined_iff {m' : Memory} (result : step.Result m') :
    (∃ x, m'.dir.lookup step.name = some x ∧ m'.node x = .regular step.contents) ↔
      (∃ x, start.dir.lookup step.name = some x ∧ m'.node x = .regular step.contents) ∨
      (step.name ≠ tmpName ∧ start.dir.lookup step.name = none ∧ step.old.length ≤ step.contents.length) := by
  have same := step.lookup_rest step.name_ne_name1 step.name_ne_name2
  rw [result.dir]
  split
  · rename_i taken
    rw [same]
    refine ⟨Or.inl, fun cases' => cases'.resolve_right ?_⟩
    rintro ⟨free, absent, _⟩
    rcases step.mem_names_iff.mp taken with special | ⟨x, found⟩
    · exact free special
    · rw [absent] at found
      cases found
  · rename_i new
    have free : step.name ≠ tmpName := fun special => new (step.mem_names_iff.mpr (Or.inl special))
    have absent : start.dir.lookup step.name = none := by
      rw [Option.eq_none_iff_forall_ne_some]
      exact fun x found => new (step.mem_names_iff.mpr (Or.inr ⟨x, found⟩))
    have fits : step.contents ++ step.old.drop step.contents.length = step.contents ↔
        step.old.length ≤ step.contents.length := by
      rw [List.append_right_eq_self, List.drop_eq_nil_iff]
    simp only [List.lookup_cons, beq_self_eq_true, Option.some.injEq, exists_eq_left', result.written,
      Node.regular.injEq, fits, absent, reduceCtorEq, false_and, exists_false, false_or, true_and]
    exact ⟨fun short => ⟨free, short⟩, And.right⟩

theorem gone {m' : Memory} (result : step.Result m') {name : Name} (other : name ≠ step.name)
    (absent : step.rest.lookup name = none) : m'.dir.lookup name = none := by
  rw [result.dir]
  split
  · exact absent
  · rw [List.lookup_cons, beq_false_of_ne other]
    exact absent

theorem keeps_iff {m' : Memory} (result : step.Result m')
    (ends : start.tmp.lookup step.name = some step.inode2 → start.data step.inode1 = []) :
    step.Keeps m' ↔ step.Clear := by
  have one := step.name_ne_name1
  have two := step.name_ne_name2
  constructor
  · rintro ⟨joined, _, _, others⟩
    rcases (step.joined_iff result).mp joined with ⟨x, found, bytes⟩ | ⟨free, absent, short⟩
    · have same := (others step.name x one two found).2
      refine ⟨?_, ends, ?_, ?_, ?_⟩
      · intro special
        have ordinary := step.ordinary _ (mem_of_lookup found)
        rw [special] at ordinary
        cases ordinary
      · intro absent
        rw [absent] at found
        cases found
      · intro y found'
        cases Option.some.inj (found.symm.trans found')
        rw [← same, bytes]
      · exact fun name x one two found => (step.others_iff result one two found).mp (others name x one two found)
    · refine ⟨free, ends, fun _ => short, ?_, ?_⟩
      · intro x found
        rw [absent] at found
        cases found
      · exact fun name x one two found => (step.others_iff result one two found).mp (others name x one two found)
  · intro clear
    have others (name : Name) (x : Inode) (one : name ≠ step.name1) (two : name ≠ step.name2)
        (found : start.dir.lookup name = some x) : m'.dir.lookup name = some x ∧ m'.node x = start.node x :=
      (step.others_iff result one two found).mpr (clear.linked name x one two found)
    refine ⟨(step.joined_iff result).mpr ?_, step.gone result one.symm step.rest_name1,
      step.gone result two.symm step.rest_name2, others⟩
    cases found : start.dir.lookup step.name with
    | none => exact Or.inr ⟨clear.free, rfl, clear.room found⟩
    | some x =>
      refine Or.inl ⟨x, rfl, ?_⟩
      rw [(others step.name x one two found).2, clear.taken x found]

/-- Where there is an entry of the new name nothing has to be linked. -/
theorem Written.result_of_taken {step : Selected start} {m : Memory} (written : step.Written m)
    (taken : ∃ x, start.dir.lookup step.name = some x) : step.Result m where
  dir := by rw [if_pos (step.mem_names_iff.mpr (Or.inr taken)), written.dir]
  written := written.written
  others := written.others

/-- Without the `link` there is no new entry. -/
theorem Written.not_keeps {step : Selected start} {m : Memory} (written : step.Written m)
    (absent : start.dir.lookup step.name = none) :
    ¬ step.Keeps m := by
  intro keeps
  obtain ⟨x, found, _⟩ := keeps.joined
  rw [written.dir, step.lookup_rest step.name_ne_name1 step.name_ne_name2, absent] at found
  cases found

end Selected

end DeviceProgramming.Concatenate
