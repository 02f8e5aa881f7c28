import DeviceProgramming.FileConcatenate.Moves

namespace DeviceProgramming.FileConcatenate

open Concatenate (Stmt)

/-- What the calls of `read` on a descriptor return: the bytes that are then in
the buffer, or `none` for -1. -/
structure Reads where
  result : ℕ → Option (List UInt8)
  length_le : ∀ n, ∀ bytes ∈ result n, bytes.length ≤ 1024
  sticky : ∀ n, result n = none ∨ result n = some [] → result (n + 1) = result n

namespace Reads

/-- The `n`th `read` returns 0 or -1. -/
def Done (r : Reads) (n : ℕ) : Prop := r.result n = none ∨ r.result n = some []

/-- What the first `n` calls have read. -/
def bytes (r : Reads) (n : ℕ) : List UInt8 := (List.range n).flatMap fun k => (r.result k).getD []

/-- The descriptor of a file whose `open` has failed. -/
def failed : Reads := ⟨fun _ => none, by simp, fun _ _ => rfl⟩

/-- The descriptor of an empty file. -/
def empty : Reads := ⟨fun _ => some [], by simp, fun _ _ => rfl⟩

variable {r : Reads} {n k : ℕ}

theorem Done.result_eq (done : r.Done n) (later : n ≤ k) : r.result k = r.result n := by
  induction k, later using Nat.le_induction with
  | base => rfl
  | succ k _ ih =>
    unfold Done at done
    rw [r.sticky k (by rwa [ih]), ih]

@[simp] theorem bytes_zero : r.bytes 0 = [] := rfl

theorem bytes_succ (r : Reads) (n : ℕ) : r.bytes (n + 1) = r.bytes n ++ (r.result n).getD [] := by
  simp [bytes, List.range_succ]

theorem getD_of_done (done : r.Done n) : (r.result n).getD [] = [] := by
  rcases done with fails | ends
  · rw [fails, Option.getD_none]
  · rw [ends, Option.getD_some]

/-- Nothing is read from a descriptor that returns 0 or -1 at once. -/
theorem bytes_eq_nil_iff : r.bytes (n + 1) = [] ↔ r.Done 0 := by
  constructor
  · intro nothing
    have first : (r.result 0).getD [] = [] :=
      List.flatMap_eq_nil_iff.mp nothing 0 (List.mem_range.mpr n.succ_pos)
    cases result : r.result 0 with
    | none => exact Or.inl result
    | some bytes =>
      rw [result, Option.getD_some] at first
      exact Or.inr (result.trans (congrArg some first))
  · intro done
    refine List.flatMap_eq_nil_iff.mpr fun k _ => ?_
    rw [done.result_eq k.zero_le]
    exact getD_of_done done

end Reads

/-- The outcomes of the three calls of `open` and of the calls of `read`. `dest`
tells whether the new file has been opened. -/
structure Descriptors where
  file1 : Reads
  file2 : Reads
  dest : Bool

/-- A call `write(dest, buffer, count)`; the bytes are those in front of `count`. -/
structure Write where
  count : ℤ
  bytes : List UInt8

/-- Where the loops are, the calls of `read` and `write` so far and what `dest`
has been given. -/
structure Copy where
  stmt : Stmt
  reads1 : ℕ
  reads2 : ℕ
  writes : List Write
  written : List UInt8

namespace Copy

def begin : Copy where
  stmt := .read1
  reads1 := 0
  reads2 := 0
  writes := []
  written := []

/-- A `write` of `count` bytes, which fails when `dest` is not open. -/
def write (c : Copy) (files : Descriptors) (count : ℤ) (bytes : List UInt8) (next : Stmt) : Copy :=
  { c with
    stmt := next
    writes := c.writes ++ [⟨count, bytes⟩]
    written := if files.dest then c.written ++ bytes else c.written }

/-- One statement of the two loops. A `write` of -1 bytes writes nothing. -/
def step (files : Descriptors) (c : Copy) : Copy := match c.stmt with
  | .read1 => { c with stmt := afterRead1 (files.file1.result c.reads1), reads1 := c.reads1 + 1 }
  | .write1 buffer => c.write files buffer.length buffer .read1
  | .read2 => { c with stmt := afterRead2 (files.file2.result c.reads2), reads2 := c.reads2 + 1 }
  | .write2 none => c.write files (-1) [] .read2
  | .write2 (some buffer) => c.write files buffer.length buffer .read2
  | _ => c

/-- What has been read and not yet written. -/
def pending (c : Copy) : List UInt8 := match c.stmt with
  | .write1 buffer | .write2 (some buffer) => buffer
  | _ => []

end Copy

/-- The loops after `n` statements. -/
def Descriptors.after (files : Descriptors) (n : ℕ) : Copy := (Copy.step files)^[n] .begin

/-- The two loops end and copy exactly what they read, with a proper count in
each `write`. -/
structure CopiesAll (files : Descriptors) : Prop where
  ends : ∃ n, (files.after n).stmt = .link
  counts : ∀ n, ∀ call ∈ (files.after n).writes, 1 ≤ call.count ∧ call.count ≤ 1024
  bytes : ∀ n, (files.after n).stmt = .link → (files.after n).written =
    files.file1.bytes (files.after n).reads1 ++ files.file2.bytes (files.after n).reads2

/-- Where the loops can be after so many calls of `read` on each descriptor. -/
inductive Descriptors.At (files : Descriptors) : Stmt → ℕ → ℕ → Prop
  | read1 {n} : files.At .read1 n 0
  | write1 {n buffer} : files.file1.result n = some buffer → buffer ≠ [] → files.At (.write1 buffer) (n + 1) 0
  | read2 {n k} : files.file1.Done n → files.At .read2 (n + 1) k
  | write2 {n k result} : files.file1.Done n → files.file2.result k = result → result ≠ some [] →
      files.At (.write2 result) (n + 1) (k + 1)
  | link {n k} : files.file1.Done n → files.file2.result k = some [] → files.At .link (n + 1) (k + 1)

/-- The first loop ends, the second one too, with 0, and `dest` has been opened
or there is nothing to copy. -/
structure Descriptors.Readable (files : Descriptors) : Prop where
  first : ∃ n, files.file1.Done n
  second : ∃ n, files.file2.result n = some []
  dest : files.dest = false → files.file1.Done 0 ∧ files.file2.result 0 = some []

variable {files : Descriptors} {c : Copy} {n k : ℕ}

theorem Descriptors.At.step (at' : files.At c.stmt c.reads1 c.reads2) :
    files.At (c.step files).stmt (c.step files).reads1 (c.step files).reads2 := by
  obtain ⟨stmt, reads1, reads2, writes, written⟩ := c
  cases at' with
  | read1 =>
    simp only [Copy.step]
    cases result : files.file1.result reads1 with
    | none => exact .read2 (Or.inl result)
    | some buffer =>
      by_cases ended : buffer = []
      · rw [ended] at result ⊢
        exact .read2 (Or.inr result)
      · simp only [afterRead1, ended, if_false]
        exact .write1 result ended
  | write1 => exact .read1
  | @read2 n k done =>
    simp only [Copy.step]
    cases result : files.file2.result reads2 with
    | none => exact .write2 done result (by simp)
    | some buffer =>
      by_cases ended : buffer = []
      · rw [ended] at result ⊢
        exact .link done result
      · simp only [afterRead2, ended, if_false]
        refine .write2 done result fun none => ended ?_
        exact Option.some.inj none
  | @write2 n k result done =>
    cases result with
    | none => exact .read2 done
    | some buffer => exact .read2 done
  | link done ended => exact .link done ended

theorem Descriptors.after_succ : files.after (n + 1) = (files.after n).step files := by
  unfold Descriptors.after
  rw [Function.iterate_succ_apply']

theorem Descriptors.at_after (files : Descriptors) (n : ℕ) :
    files.At (files.after n).stmt (files.after n).reads1 (files.after n).reads2 := by
  induction n with
  | zero => exact .read1
  | succ n ih =>
    rw [after_succ]
    exact ih.step

/-- A `write` has a proper count unless `read` has returned -1 in the second loop. -/
theorem counts_after (call : Write) (member : call ∈ (files.after n).writes) :
    (1 ≤ call.count ∧ call.count ≤ 1024) ∨ ∃ k, files.file2.result k = none := by
  induction n with
  | zero => cases member
  | succ n ih =>
    rw [Descriptors.after_succ] at member
    have proper {r : Reads} {k : ℕ} {buffer : List UInt8} (result : r.result k = some buffer) (some : buffer ≠ []) :
        1 ≤ (buffer.length : ℤ) ∧ (buffer.length : ℤ) ≤ 1024 := by
      have most := r.length_le k buffer result
      have least := List.length_pos_iff.mpr some
      omega
    have at' := files.at_after n
    generalize files.after n = c at *
    obtain ⟨stmt, reads1, reads2, writes, written⟩ := c
    cases at' with
    | read1 | read2 | link => exact ih member
    | write1 result some =>
      rcases List.mem_append.mp member with old | new
      · exact ih old
      · cases List.mem_singleton.mp new
        exact Or.inl (proper result some)
    | @write2 n k bytes done result some =>
      cases bytes with
      | none => exact Or.inr ⟨k, result⟩
      | some buffer =>
        rcases List.mem_append.mp member with old | new
        · exact ih old
        · cases List.mem_singleton.mp new
          exact Or.inl (proper result fun none => some (congrArg _ none))

/-- What has been read is in an opened `dest` or is about to be written there. -/
theorem bytes_after (files : Descriptors) (n : ℕ) (opened : files.dest = true) :
    (files.after n).written ++ (files.after n).pending =
      files.file1.bytes (files.after n).reads1 ++ files.file2.bytes (files.after n).reads2 := by
  induction n with
  | zero => rfl
  | succ n ih =>
    rw [Descriptors.after_succ]
    have at' := files.at_after n
    generalize files.after n = c at *
    obtain ⟨stmt, reads1, reads2, writes, written⟩ := c
    cases at' with
    | read1 =>
      simp only [Copy.pending, List.append_nil, Reads.bytes_zero] at ih
      simp only [Copy.step, Reads.bytes_succ, Reads.bytes_zero, List.append_nil, ← ih]
      cases result : files.file1.result reads1 with
      | none => simp [afterRead1, Copy.pending]
      | some buffer => by_cases ended : buffer = [] <;> simp [afterRead1, Copy.pending, ended]
    | read2 =>
      have more := files.file2.bytes_succ reads2
      simp only [Copy.pending, List.append_nil] at ih
      simp only [Copy.step, more, ← List.append_assoc, ← ih]
      cases result : files.file2.result reads2 with
      | none => simp [afterRead2, Copy.pending]
      | some buffer => by_cases ended : buffer = [] <;> simp [afterRead2, Copy.pending, ended]
    | write1 => simpa [Copy.step, Copy.write, Copy.pending, opened] using ih
    | @write2 n k bytes => cases bytes <;> simpa [Copy.step, Copy.write, Copy.pending, opened] using ih
    | link => exact ih

theorem written_after (files : Descriptors) (n : ℕ) (closed : files.dest = false) : (files.after n).written = [] := by
  induction n with
  | zero => rfl
  | succ n ih =>
    rw [Descriptors.after_succ, ← ih]
    unfold Copy.step
    split
    · rfl
    · simp [Copy.write, closed]
    · rfl
    · simp [Copy.write, closed]
    · simp [Copy.write, closed]
    · rfl

theorem afterRead1_of_done {r : Reads} (done : r.Done n) : afterRead1 (r.result n) = .read2 := by
  rcases done with fails | ends
  · rw [fails, afterRead1]
  · rw [ends, afterRead1, if_pos rfl]

theorem Reads.some_of_not_done {r : Reads} (more : ¬ r.Done n) :
    ∃ buffer, r.result n = some buffer ∧ buffer ≠ [] := by
  unfold Reads.Done at more
  cases result : r.result n with
  | none => exact absurd (Or.inl result) more
  | some buffer =>
    refine ⟨buffer, rfl, fun ended => more (Or.inr ?_)⟩
    rw [result, ended]

/-- The first loop reads until 0 or -1. -/
theorem first_ends (here : c.stmt = .read1) (done : files.file1.Done (c.reads1 + k)) :
    ∃ n, ((Copy.step files)^[n] c).stmt = .read2 := by
  induction k generalizing c with
  | zero =>
    refine ⟨1, ?_⟩
    rw [Function.iterate_one, Copy.step, here]
    exact afterRead1_of_done done
  | succ k ih =>
    by_cases now : files.file1.Done c.reads1
    · refine ⟨1, ?_⟩
      rw [Function.iterate_one, Copy.step, here]
      exact afterRead1_of_done now
    · obtain ⟨buffer, result, some⟩ := Reads.some_of_not_done now
      have round : ((Copy.step files)^[2] c).stmt = .read1 ∧ ((Copy.step files)^[2] c).reads1 = c.reads1 + 1 := by
        simp [Copy.step, here, result, afterRead1, some, Copy.write]
      obtain ⟨n, ends⟩ := ih round.1 (by rwa [round.2, Nat.add_assoc, Nat.add_comm 1])
      refine ⟨n + 2, ?_⟩
      rwa [Function.iterate_add_apply]

/-- The second loop reads until 0. -/
theorem second_ends (here : c.stmt = .read2) (ended : files.file2.result (c.reads2 + k) = some []) :
    ∃ n, ((Copy.step files)^[n] c).stmt = .link := by
  induction k generalizing c with
  | zero =>
    rw [Nat.add_zero] at ended
    refine ⟨1, ?_⟩
    simp [Copy.step, here, ended, afterRead2]
  | succ k ih =>
    by_cases now : files.file2.Done c.reads2
    · have same := now.result_eq (Nat.le_add_right c.reads2 (k + 1))
      rw [ended] at same
      refine ⟨1, ?_⟩
      simp [Copy.step, here, ← same, afterRead2]
    · obtain ⟨buffer, result, some⟩ := Reads.some_of_not_done now
      have round : ((Copy.step files)^[2] c).stmt = .read2 ∧ ((Copy.step files)^[2] c).reads2 = c.reads2 + 1 := by
        simp [Copy.step, here, result, afterRead2, some, Copy.write]
      obtain ⟨n, ends⟩ := ih round.1 (by rwa [round.2, Nat.add_assoc, Nat.add_comm 1])
      refine ⟨n + 2, ?_⟩
      rwa [Function.iterate_add_apply]

theorem Descriptors.Readable.ends (readable : files.Readable) : ∃ n, (files.after n).stmt = .link := by
  obtain ⟨one, done⟩ := readable.first
  obtain ⟨two, ended⟩ := readable.second
  have start : files.file1.Done (Copy.begin.reads1 + one) := by rwa [Copy.begin, Nat.zero_add]
  obtain ⟨n, read⟩ := first_ends (c := .begin) rfl start
  have later : files.file2.result (((Copy.step files)^[n] .begin).reads2 + two) = some [] := by
    rw [Reads.Done.result_eq (Or.inr ended) (Nat.le_add_left ..), ended]
  obtain ⟨more, linked⟩ := second_ends read later
  refine ⟨more + n, ?_⟩
  rwa [Descriptors.after, Function.iterate_add_apply]

/-- A second loop that ends with 0 has seen no -1. -/
theorem no_failure (ended : files.file2.result n = some []) : files.file2.result k ≠ none := by
  intro fails
  rcases Nat.le_total n k with later | later
  · have same := Reads.Done.result_eq (Or.inr ended) later
    rw [fails, ended] at same
    cases same
  · have same := Reads.Done.result_eq (Or.inl fails) later
    rw [fails, ended] at same
    cases same

/-- Loops that end have read both descriptors to an end. -/
theorem readable_of_copies (copies : CopiesAll files) : files.Readable := by
  obtain ⟨n, here⟩ := copies.ends
  have at' := files.at_after n
  have bytes := copies.bytes n here
  have nothing := written_after files n
  rw [here] at at'
  generalize files.after n = c at *
  obtain ⟨stmt, reads1, reads2, writes, written⟩ := c
  cases at' with
  | @link one two done ended =>
    refine ⟨⟨one, done⟩, ⟨two, ended⟩, fun closed => ?_⟩
    rw [nothing closed, eq_comm, List.append_eq_nil_iff] at bytes
    obtain ⟨first, second⟩ := bytes
    refine ⟨Reads.bytes_eq_nil_iff.mp first, ?_⟩
    rcases Reads.bytes_eq_nil_iff.mp second with fails | empty
    · exact absurd fails (no_failure ended)
    · exact empty

theorem Descriptors.Readable.bytes (readable : files.Readable) (here : (files.after n).stmt = .link) :
    (files.after n).written =
      files.file1.bytes (files.after n).reads1 ++ files.file2.bytes (files.after n).reads2 := by
  have opened := bytes_after files n
  have nothing := written_after files n
  have at' := files.at_after n
  rw [here] at at'
  generalize files.after n = c at *
  obtain ⟨stmt, reads1, reads2, writes, written⟩ := c
  subst here
  cases at' with
  | link done ended =>
    cases dest : files.dest with
    | true => simpa [Copy.pending] using opened dest
    | false =>
      obtain ⟨first, second⟩ := readable.dest dest
      rw [nothing dest, Reads.bytes_eq_nil_iff.mpr first, Reads.bytes_eq_nil_iff.mpr (Or.inr second)]
      rfl

theorem Descriptors.Readable.counts (readable : files.Readable) (call : Write)
    (member : call ∈ (files.after n).writes) : 1 ≤ call.count ∧ call.count ≤ 1024 := by
  obtain ⟨_, ended⟩ := readable.second
  rcases counts_after call member with proper | ⟨_, fails⟩
  · exact proper
  · exact absurd fails (no_failure ended)

/-- Whatever the calls of `open` and `read` return, the loops end and copy
exactly what they read if and only if both descriptors are read to an end, the
second one to 0, and a `dest` that is not open has nothing to take. -/
theorem copies_all_iff (files : Descriptors) : CopiesAll files ↔ files.Readable := by
  refine ⟨readable_of_copies, fun readable => ⟨readable.ends, ?_, ?_⟩⟩
  · exact fun _ => readable.counts
  · exact fun _ => readable.bytes

/-- The second file could not be opened: its loop goes on for ever. -/
theorem copies_for_ever : ¬ CopiesAll ⟨.empty, .failed, true⟩ := by
  intro copies
  obtain ⟨n, ended⟩ := (readable_of_copies copies).second
  cases ended

/-- The loops are those of `threadFunc`: with the same results of `read` they go
to the same statement. -/
theorem next_copy {layout : Layout} {input : Input} {m m' : Memory} {l : Locals} {next : Point}
    {effect : Input → Memory → Option (Memory × Point)} (here : threadFunc layout ⟨c.stmt, l⟩ = .exec effect)
    (run : effect input m = some (m', next)) (copies : c.stmt.copies = true) (more : c.stmt ≠ .link)
    (result1 : files.file1.result c.reads1 = m.read input.fails l.file1)
    (result2 : files.file2.result c.reads2 = m.read input.fails l.file2) : next.stmt = (c.step files).stmt := by
  obtain ⟨stmt, reads1, reads2, writes, written⟩ := c
  dsimp only at here copies more result1 result2
  have wrote {buffer : List UInt8} {next' : Stmt} (done : some (writeDest l input buffer next' m) = some (m', next)) :
      next.stmt = next' := by
    have same : next = (writeDest l input buffer next' m).2 := (congrArg Prod.snd (Option.some.inj done)).symm
    rw [same, writeDest]
    split
    · rfl
    · dsimp only
      split <;> rfl
  cases stmt with
  | read1 =>
    cases here
    cases Option.some.inj run
    rw [Copy.step, result1]
    rfl
  | read2 =>
    cases here
    cases Option.some.inj run
    rw [Copy.step, result2]
    rfl
  | write1 => cases here; exact wrote run
  | write2 buffer =>
    cases buffer with
    | none => cases here; cases Option.some.inj run; rfl
    | some => cases here; exact wrote run
  | link => exact absurd rfl more
  | _ => cases copies

end DeviceProgramming.FileConcatenate
