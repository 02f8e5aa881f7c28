import DeviceProgramming.Concatenate.Solo

namespace DeviceProgramming.Concatenate

/-- A thread that runs alone comes from `c` to `c'`. -/
def Leads (c c' : Memory × Point) : Prop := ∃ n, advance^[n] c = c'

/-- At most the data of one inode have changed. -/
structure OnlyNode (m m' : Memory) (j : Inode) : Prop where
  frame : m' = { m with node := m'.node }
  others : ∀ x, x ≠ j → m'.node x = m.node x
  kind : (m.node j).isDirectory = false → (m'.node j).isDirectory = false

/-- The second loop reads the file that it writes, behind a beginning that is not
empty: there is always more to read. -/
inductive Chasing (j : Inode) : Memory × Point → Prop
  | read {m l k} : l.file2 = some (j, k) → l.dest.1 = j → k < l.dest.2 → l.dest.2 ≤ (m.data j).length →
      Chasing j (m, ⟨.read2, l⟩)
  | write {m l k buffer} : l.file2 = some (j, k) → l.dest.1 = j → k < l.dest.2 + buffer.length →
      l.dest.2 ≤ (m.data j).length → Chasing j (m, ⟨.write2 (some buffer), l⟩)

variable {c c' c'' : Memory × Point} {m m' m'' : Memory} {l : Locals} {i j : Inode} {k offset : ℕ}
  {buffer before source old : List UInt8}

theorem Leads.trans (first : Leads c c') (later : Leads c' c'') : Leads c c'' := by
  obtain ⟨n, rfl⟩ := first
  obtain ⟨k, rfl⟩ := later
  exact ⟨k + n, Function.iterate_add_apply ..⟩

theorem Leads.of_eq (n : ℕ) (same : advance^[n] c = c') : Leads c c' := ⟨n, same⟩

theorem OnlyNode.refl (m : Memory) (j : Inode) : OnlyNode m m j := ⟨rfl, fun _ _ => rfl, id⟩

theorem OnlyNode.trans (first : OnlyNode m m' j) (later : OnlyNode m' m'' j) : OnlyNode m m'' j where
  frame := by
    rw [later.frame, first.frame]
  others x other := (later.others x other).trans (first.others x other)
  kind regular := later.kind (first.kind regular)

theorem onlyNode_write (m : Memory) (j : Inode) (offset : ℕ) (buffer : List UInt8) :
    OnlyNode m (m.write j offset buffer) j where
  frame := rfl
  others _ other := Function.update_of_ne other ..
  kind _ := by
    simp only [Memory.write, Function.update_self]
    rfl

theorem data_overwrite (m : Memory) (j : Inode) (offset : ℕ) (buffer : List UInt8) :
    (m.write j offset buffer).data j =
      (m.data j).take offset ++ buffer ++ (m.data j).drop (offset + buffer.length) := by
  simp only [Memory.data, Memory.write, Function.update_self]
  rfl

/-- A `write` over a file that has the first `k` bytes of `source` behind `before`
and what it had before from there on. -/
theorem data_round (target : m.data j = before ++ source.take k ++ old.drop (before.length + k))
    (within : k + buffer.length ≤ source.length) (bytes : buffer = (source.drop k).take buffer.length) :
    (m.write j (before.length + k) buffer).data j = before ++ source.take (k + buffer.length) ++
      old.drop (before.length + (k + buffer.length)) := by
  have start : (before ++ source.take k).length = before.length + k := by
    rw [List.length_append, List.length_take]
    omega
  rw [data_overwrite, target, ← start, List.take_left, List.drop_append, List.drop_eq_nil_of_le (by omega),
    Nat.add_sub_cancel_left, List.drop_drop, List.nil_append, start, List.take_add, ← bytes, Nat.add_assoc]
  simp only [List.append_assoc]

/-- The file that is read keeps its bytes; where it is the one that is written,
the bytes are put where they were read. -/
theorem data_source (from' : m.data i = source)
    (target : m.data j = before ++ source.take k ++ old.drop (before.length + k)) (same : i = j → before = [])
    (within : k + buffer.length ≤ source.length) (bytes : buffer = (source.drop k).take buffer.length) :
    (m.write j (before.length + k) buffer).data i = source := by
  by_cases own : i = j
  · subst own
    obtain rfl := same rfl
    rw [data_round target within bytes]
    simp only [List.nil_append, List.length_nil, Nat.zero_add] at target ⊢
    rw [from'] at target
    have rest : source.drop k = old.drop k := by
      have both := (List.take_append_drop k source).trans target
      exact List.append_cancel_left both
    rw [← List.drop_drop, ← rest, List.drop_drop, List.take_append_drop]
  · rw [data_write_of_ne own, from']

theorem read_eq_nil_iff (m : Memory) (i : Inode) (offset : ℕ) : m.read i offset = [] ↔ (m.data i).length ≤ offset := by
  refine ⟨length_le_of_read_nil, fun all => ?_⟩
  have bytes : m.read i offset = ((m.data i).drop offset).take 1024 := rfl
  rw [bytes, List.drop_eq_nil_of_le all, List.take_nil]

/-- A copy loop ends when all bytes have been read. -/
theorem read_end (from' : m.data i = source) (within : k ≤ source.length) (ended : m.read i k = []) :
    k = source.length := by
  have all := (read_eq_nil_iff m i k).mp ended
  rw [from'] at all
  exact Nat.le_antisymm within all

/-- A round of a copy loop puts what it reads behind what has been copied before. -/
theorem copy_round (from' : m.data i = source) (within : k ≤ source.length)
    (target : m.data j = before ++ source.take k ++ old.drop (before.length + k)) (same : i = j → before = []) :
    k + (m.read i k).length ≤ source.length ∧ (m.write j (before.length + k) (m.read i k)).data i = source ∧
      (m.write j (before.length + k) (m.read i k)).data j = before ++ source.take (k + (m.read i k).length) ++
        old.drop (before.length + (k + (m.read i k).length)) := by
  rw [← from'] at within
  obtain ⟨fits, bytes⟩ := read_spec within
  rw [from'] at fits bytes
  exact ⟨fits, data_source from' target same fits bytes, data_round target fits bytes⟩

/-- The first loop puts all of its file over what the new file had. -/
theorem first_loop (here : l.file1 = some (i, k)) (dest : l.dest = (j, k)) (from' : m.data i = source)
    (within : k ≤ source.length) (target : m.data j = source.take k ++ old.drop k) :
    ∃ m', Leads (m, ⟨.read1, l⟩)
        (m', ⟨.read2, { l with file1 := some (i, source.length), dest := (j, source.length) }⟩) ∧
      m'.data j = source ++ old.drop source.length ∧ m'.data i = source ∧ OnlyNode m m' j := by
  induction left : source.length - k using Nat.strong_induction_on generalizing m l k with
  | _ left ih =>
    subst left
    by_cases ended : m.read i k = []
    · obtain rfl := read_end from' within ended
      have same : l = { l with file1 := some (i, source.length), dest := (j, source.length) } := by
        rw [← here, ← dest]
      refine ⟨m, .of_eq 1 ?_, ?_, from', .refl m j⟩
      · rw [← same, Function.iterate_one]
        simp only [advance, read1, here, ended, if_true, List.length_nil, Nat.add_zero]
        rw [← here]
      · rw [target, List.take_length]
    · have more := List.length_pos_iff.mpr ended
      have target' : m.data j = [] ++ source.take k ++ old.drop (([] : List UInt8).length + k) := by
        simpa using target
      obtain ⟨fits, kept, written⟩ := copy_round from' within target' fun _ => rfl
      simp only [List.length_nil, Nat.zero_add, List.nil_append] at written kept
      have here' : ({ l with
          file1 := some (i, k + (m.read i k).length)
          dest := (j, k + (m.read i k).length) } : Locals).file1 = some (i, k + (m.read i k).length) := rfl
      obtain ⟨m', leads, all, from'', only⟩ := ih _ (by omega) here' rfl kept fits written rfl
      refine ⟨m', .trans (.of_eq 2 ?_) leads, all, from'', (onlyNode_write m j k _).trans only⟩
      simp [advance, read1, here, ended, writeDest, dest]

/-- The second loop puts all of its file behind the first one, over what the new
file had; the new file may only be read when it is empty up to here. -/
theorem second_loop (here : l.file2 = some (i, k)) (dest : l.dest = (j, before.length + k))
    (from' : m.data i = source) (within : k ≤ source.length)
    (target : m.data j = before ++ source.take k ++ old.drop (before.length + k)) (same : i = j → before = []) :
    ∃ m', Leads (m, ⟨.read2, l⟩)
        (m', ⟨.link, { l with file2 := some (i, source.length), dest := (j, before.length + source.length) }⟩) ∧
      m'.data j = before ++ source ++ old.drop (before.length + source.length) ∧ OnlyNode m m' j := by
  induction left : source.length - k using Nat.strong_induction_on generalizing m l k with
  | _ left ih =>
    subst left
    by_cases ended : m.read i k = []
    · obtain rfl := read_end from' within ended
      refine ⟨m, .of_eq 1 ?_, ?_, .refl m j⟩
      · rw [Function.iterate_one]
        simp only [advance, read2, here, ended, if_true, List.length_nil, Nat.add_zero]
        rw [← dest]
      · rw [target, List.take_length]
    · have more := List.length_pos_iff.mpr ended
      obtain ⟨fits, kept, written⟩ := copy_round from' within target same
      have here' : ({ l with
          file2 := some (i, k + (m.read i k).length)
          dest := (j, before.length + (k + (m.read i k).length)) } : Locals).file2 =
            some (i, k + (m.read i k).length) := rfl
      obtain ⟨m', leads, all, only⟩ := ih _ (by omega) here' rfl kept fits written rfl
      refine ⟨m', .trans (.of_eq 2 ?_) leads, all, (onlyNode_write m j _ _).trans only⟩
      simp [advance, read2, here, ended, writeDest, dest, Nat.add_assoc]

theorem Chasing.advance (chasing : Chasing j c) : Chasing j (advance c) := by
  cases chasing with
  | @read m l k here dest behind within =>
    have more : m.read j k ≠ [] := by
      rw [Ne, read_eq_nil_iff]
      omega
    simp only [Concatenate.advance, read2, here, more, if_false]
    exact .write rfl dest (by dsimp only; omega) within
  | @write m l k buffer here dest behind within =>
    refine .read here dest behind ?_
    simp only [dest, data_overwrite, List.length_append, List.length_take]
    omega

theorem Chasing.iterate (chasing : Chasing j c) (n : ℕ) : Chasing j (Concatenate.advance^[n] c) :=
  Function.Iterate.rec (Chasing j) chasing (fun _ => Chasing.advance) n

/-- A thread that chases its own writes does not come to the end of its iteration. -/
theorem Chasing.never (chasing : Chasing j c') (leads : Leads c c') (n : ℕ) :
    (Concatenate.advance^[n] c).2.stmt ≠ .lock := by
  intro ended
  obtain ⟨k, rfl⟩ := leads
  have stays : Concatenate.advance^[k] (Concatenate.advance^[n] c) = Concatenate.advance^[n] c :=
    Function.iterate_fixed (advance_lock ended) k
  have still := chasing.iterate n
  rw [← Function.iterate_add_apply, Nat.add_comm, Function.iterate_add_apply, stays] at still
  generalize Concatenate.advance^[n] c = c' at still ended
  cases still <;> cases ended

end DeviceProgramming.Concatenate
