import DeviceProgramming.Concatenate.OneThread
import DeviceProgramming.Machine.Inevitable
import Mathlib.Data.Prod.Lex

namespace DeviceProgramming.Concatenate

namespace Stmt

/-- From the selection of the first file to its `unlink`. -/
def holdsFirst : Stmt → Bool
  | scan2 | unlock | open1 | open2 | unlink1 => true
  | _ => false

/-- The statements in the order of a pass through the loop that begins with the
second `unlink`. -/
def stage : Stmt → ℕ
  | unlink2 => 12
  | openDest => 11
  | read1 | write1 _ => 10
  | read2 | write2 _ => 9
  | link => 8
  | unlinkTmp => 7
  | lock => 6
  | scan1 => 5
  | scan2 => 4
  | unlock => 3
  | open1 => 2
  | open2 => 1
  | unlink1 | left => 0

end Stmt

/-- What is left to read of a file. -/
def unread (m : Memory) (file : Option (Inode × ℕ)) : ℕ := file.elim 0 fun d => (m.data d.1).length - d.2

/-- The files that the stream lists and that are no longer in the directory. -/
def missing (m : Memory) (stream : List Name) : ℕ :=
  stream.countP fun name => !special name && (m.dir.lookup name).isNone

/-- The entries of the directory, with the one that is about to be linked. -/
def Point.entries (m : Memory) (p : Point) : ℕ := m.dir.length + if p.stmt.awaitsLink then 1 else 0

/-- The first file is selected and missing. -/
def Point.holdsMissing (m : Memory) (p : Point) : Bool :=
  p.stmt.holdsFirst && p.locals.filehead1.elim false fun name => (m.dir.lookup name).isNone

/-- The missing files that the thread has still to deal with. -/
def Point.lost (m : Memory) (p : Point) : ℕ := missing m m.stream + (p.holdsMissing m).toNat

/-- The rounds of the present loop. -/
def Point.rounds (m : Memory) (p : Point) : ℕ × ℕ := match p.stmt with
  | .scan1 | .scan2 => (if p.locals.rewinded then 0 else 1, m.stream.length)
  | .read1 => (0, 2 * unread m p.locals.file1)
  | .write1 _ => (0, 2 * unread m p.locals.file1 + 1)
  | .read2 => (0, 2 * unread m p.locals.file2)
  | .write2 _ => (0, 2 * unread m p.locals.file2 + 1)
  | _ => (0, 0)

/-- What each step brings down. -/
def rank (m : Memory) (p : Point) : ℕ ×ₗ ℕ ×ₗ ℕ ×ₗ ℕ ×ₗ ℕ :=
  toLex (p.entries m, toLex (p.lost m, toLex (p.stmt.stage, toLex (p.rounds m))))

variable {s s' : State 1} {m m' : Memory} {l : Locals} {p next : Point} {stmt : Stmt} {listing : List Name}

theorem toLex_lt_of_le {β : Type*} [Preorder β] {a a' : ℕ} {b b' : β} (first : a' ≤ a) (second : b' < b) :
    toLex (a', b') < toLex (a, b) := by
  rw [Prod.Lex.toLex_lt_toLex]
  rcases Nat.lt_or_eq_of_le first with less | same
  · exact Or.inl less
  · exact Or.inr ⟨same, second⟩

theorem rank_lt_of_entries (fewer : next.entries m' < p.entries m) : rank m' next < rank m p :=
  Prod.Lex.toLex_lt_toLex.mpr (Or.inl fewer)

theorem rank_lt_of_lost (entries : next.entries m' ≤ p.entries m) (fewer : next.lost m' < p.lost m) :
    rank m' next < rank m p :=
  toLex_lt_of_le entries (Prod.Lex.toLex_lt_toLex.mpr (Or.inl fewer))

theorem rank_lt_of_stage (entries : next.entries m' ≤ p.entries m) (lost : next.lost m' ≤ p.lost m)
    (later : next.stmt.stage < p.stmt.stage) : rank m' next < rank m p :=
  toLex_lt_of_le entries (toLex_lt_of_le lost (Prod.Lex.toLex_lt_toLex.mpr (Or.inl later)))

theorem rank_lt_of_rounds (entries : next.entries m' ≤ p.entries m) (lost : next.lost m' ≤ p.lost m)
    (same : next.stmt.stage ≤ p.stmt.stage) (fewer : toLex (next.rounds m') < toLex (p.rounds m)) :
    rank m' next < rank m p :=
  toLex_lt_of_le entries (toLex_lt_of_le lost (toLex_lt_of_le same fewer))

theorem missing_tail {entry : Name} {rest : List Name} (here : m.stream = entry :: rest) :
    missing m rest ≤ missing m m.stream := by
  rw [here, missing, missing, List.countP_cons]
  exact Nat.le_add_right ..

/-- A stream that lists the directory lists no missing file. -/
theorem missing_lists (lists : listing.Perm m.names) : missing m listing = 0 := by
  rw [missing, List.countP_eq_zero]
  intro name member
  have listed := lists.mem_iff.mp member
  simp only [Memory.names, List.mem_cons] at listed
  rcases listed with rfl | rfl | rfl | found
  · simp [special]
  · simp [special]
  · simp [special]
  · have some := lookup_isSome found
    simp [Option.isNone_iff_eq_none, ← Option.not_isSome_iff_eq_none, some]

theorem missing_rewound (lists : listing.Perm m.names) : missing m listing ≤ missing m m.stream := by
  rw [missing_lists lists]
  exact Nat.zero_le _

theorem entries_le (dir : m'.dir = m.dir) (links : next.stmt.awaitsLink = true → p.stmt.awaitsLink = true) :
    next.entries m' ≤ p.entries m := by
  unfold Point.entries
  rw [dir]
  by_cases awaits : next.stmt.awaitsLink = true
  · rw [if_pos awaits, if_pos (links awaits)]
  · rw [if_neg awaits]
    exact Nat.le_add_right ..

theorem lost_le (dir : m'.dir = m.dir) (fewer : missing m m'.stream ≤ missing m m.stream)
    (holds : next.stmt.holdsFirst = true → p.stmt.holdsFirst = true ∧ next.locals.filehead1 = p.locals.filehead1) :
    next.lost m' ≤ p.lost m := by
  have same : missing m' m'.stream = missing m m'.stream := by rw [missing, missing, dir]
  have held : next.holdsMissing m' = true → p.holdsMissing m = true := by
    simp only [Point.holdsMissing, Bool.and_eq_true]
    rintro ⟨now, gone⟩
    obtain ⟨before, head⟩ := holds now
    rw [head, dir] at gone
    exact ⟨before, gone⟩
  rw [Point.lost, Point.lost, same]
  exact Nat.add_le_add fewer (Bool.toNat_le_toNat held)

theorem Move.rank_scan (move : Move ⟨false, false, listing⟩ m l stmt m' next)
    (scans : stmt = .scan1 ∨ stmt = .scan2) (sound : Sound m ⟨stmt, l⟩) (goes : Point.Goes listing m ⟨stmt, l⟩) :
    rank m' next < rank m ⟨stmt, l⟩ := by
  have cont : l.cont = true := sound.cont (by rcases scans with here | here <;> simp [here])
  cases move with
  | error1 error | error2 error => cases error
  | end1 | end2 =>
    exact rank_lt_of_stage (entries_le rfl nofun) (lost_le rfl le_rfl nofun) (by simp [Stmt.stage])
  | rewind1 _ _ once lists =>
    have listed := missing_lists lists
    split
    · refine rank_lt_of_rounds (entries_le rfl nofun) (lost_le rfl (missing_rewound lists) nofun) le_rfl ?_
      rw [Prod.Lex.toLex_lt_toLex]
      exact Or.inl (by simp [Point.rounds, once])
    · refine rank_lt_of_stage (entries_le rfl nofun) ?_ (by simp [Stmt.stage])
      rw [missing] at listed
      simp [Point.lost, Point.holdsMissing, missing, listed]
  | @skip1 entry rest here =>
    refine rank_lt_of_rounds (entries_le rfl nofun) (lost_le rfl (missing_tail here) nofun) le_rfl ?_
    rw [Prod.Lex.toLex_lt_toLex]
    exact Or.inr ⟨rfl, by simp [Point.rounds, here]⟩
  | @found1 entry rest here ordinary =>
    refine rank_lt_of_stage (entries_le rfl nofun) ?_ (by simp [Stmt.stage])
    have left : missing m m.stream = missing m rest + (m.dir.lookup entry).isNone.toNat := by
      rw [missing, missing, here, List.countP_cons, ordinary, Bool.not_false, Bool.true_and, Bool.toNat, Bool.cond_eq_ite]
    simp only [Point.lost, left]
    simp [Point.holdsMissing, Stmt.holdsFirst, missing]
  | rewind2 fine ends once lists =>
    have again : l.next2 = true := ((goes.rewinds fine ends once).2 rfl).1
    have fewer := missing_rewound lists
    rw [if_pos again]
    refine rank_lt_of_rounds (entries_le rfl nofun) (lost_le rfl fewer fun _ => ⟨rfl, rfl⟩) le_rfl ?_
    rw [Prod.Lex.toLex_lt_toLex]
    exact Or.inl (by simp [Point.rounds, once])
  | @skip2 entry rest here =>
    have fewer := missing_tail here
    refine rank_lt_of_rounds (entries_le rfl nofun) (lost_le rfl fewer fun _ => ⟨rfl, rfl⟩) le_rfl ?_
    rw [Prod.Lex.toLex_lt_toLex]
    exact Or.inr ⟨rfl, by simp [Point.rounds, here]⟩
  | @crash2 entry rest _ _ here ordinary null =>
    have nothing := sound.nothing rfl null
    rw [here, files, List.filter_cons_of_pos (by simp [ordinary])] at nothing
    cases nothing
  | @found2 entry rest name _ _ here =>
    have fewer := missing_tail here
    rw [selected, if_pos cont]
    exact rank_lt_of_stage (entries_le rfl (by simp [Stmt.awaitsLink, Stmt.copies]))
      (lost_le rfl fewer fun _ => ⟨rfl, rfl⟩) (by simp [Stmt.stage])
  | _ => simp at scans

theorem length_unlink {name : Name} {i : Inode} (found : m.dir.lookup name = some i)
    (regular : (m.node i).isDirectory = false) : (m.unlink name).dir.length < m.dir.length := by
  simp only [Memory.unlink, found, regular]
  exact List.length_filter_lt_length_iff_exists.mpr ⟨_, mem_of_lookup found, by simp⟩

theorem length_link_le (m : Memory) (name : Name) : (m.link name).dir.length ≤ m.dir.length + 1 := by
  unfold Memory.link
  split
  · exact Nat.le_succ _
  · split
    · exact Nat.le_succ _
    · exact le_rfl

theorem missing_le {stream : List Name}
    (kept : ∀ name ∈ stream, ∀ i, m.dir.lookup name = some i → m'.dir.lookup name = some i) :
    missing m' stream ≤ missing m stream := by
  refine List.countP_mono_left fun name member absent => ?_
  simp only [Bool.and_eq_true, Option.isNone_iff_eq_none] at absent ⊢
  refine ⟨absent.1, ?_⟩
  cases found : m.dir.lookup name with
  | none => rfl
  | some i =>
    rw [kept name member i found] at absent
    cases absent.2

theorem Move.rank_unlink1 (sound : Sound m ⟨.unlink1, l⟩) :
    rank (m.unlink (l.filehead1.getD [])) ⟨.unlink2, l⟩ < rank m ⟨.unlink1, l⟩ := by
  obtain ⟨name1, name2, one, two, differs, read⟩ := sound.pair rfl
  rw [one, Option.getD_some]
  cases found : m.dir.lookup name1 with
  | some i =>
    refine rank_lt_of_entries ?_
    have fewer := length_unlink found (sound.regular1 (Or.inr rfl) name1 i one found)
    simpa [Point.entries, Stmt.awaitsLink, Stmt.copies] using fewer
  | none =>
    have same : m.unlink name1 = m := by rw [Memory.unlink, found]
    rw [same]
    refine rank_lt_of_lost (entries_le rfl (by simp [Stmt.awaitsLink, Stmt.copies])) ?_
    have head : l.filehead1 = some name1 := one
    simp [Point.lost, Point.holdsMissing, Stmt.holdsFirst, head, found]

theorem Move.rank_unlink2 (sound : Sound m ⟨.unlink2, l⟩) :
    rank (m.unlink (l.filehead2.getD [])) ⟨.openDest, l⟩ < rank m ⟨.unlink2, l⟩ := by
  obtain ⟨name1, name2, one, two, differs, read⟩ := sound.pair rfl
  obtain ⟨name, i, named, found, regular⟩ := sound.regular2 (Or.inr rfl)
  cases two.symm.trans named
  rw [two, Option.getD_some]
  have fewer := length_unlink found regular
  have kept : missing (m.unlink name2) m.stream ≤ missing m m.stream := by
    refine missing_le fun name member i found => ?_
    have other : name ≠ name2 := by
      rintro rfl
      exact read member
    rw [lookup_unlink other, found]
  refine rank_lt_of_stage ?_ ?_ (by simp [Stmt.stage])
  · simp only [Point.entries, Stmt.awaitsLink, if_true]
    omega
  · simpa [Point.lost, Point.holdsMissing, Stmt.holdsFirst] using kept

theorem Move.rank_link : rank (m.link l.filename) ⟨.unlinkTmp, l⟩ < rank m ⟨.link, l⟩ := by
  have more := length_link_le m l.filename
  have kept : missing (m.link l.filename) m.stream ≤ missing m m.stream :=
    missing_le fun name _ i found => lookup_link found
  refine rank_lt_of_stage ?_ ?_ (by simp [Stmt.stage])
  · simpa [Point.entries, Stmt.awaitsLink, Stmt.copies] using more
  · simpa [Point.lost, Point.holdsMissing, Stmt.holdsFirst] using kept

/-- A statement that leaves the directory and the stream alone. -/
theorem rank_lt_of_same (dir : m'.dir = m.dir) (stream : m'.stream = m.stream)
    (links : next.stmt.awaitsLink = true → p.stmt.awaitsLink = true)
    (holds : next.stmt.holdsFirst = true → p.stmt.holdsFirst = true ∧ next.locals.filehead1 = p.locals.filehead1)
    (less : next.stmt.stage < p.stmt.stage ∨
      next.stmt.stage ≤ p.stmt.stage ∧ toLex (next.rounds m') < toLex (p.rounds m)) : rank m' next < rank m p := by
  have lost := lost_le dir (by rw [stream]) holds
  rcases less with later | ⟨same, fewer⟩
  · exact rank_lt_of_stage (entries_le dir links) lost later
  · exact rank_lt_of_rounds (entries_le dir links) lost same fewer

theorem toLex_rounds_lt {a b : ℕ} (fewer : a < b) : toLex ((0, a) : ℕ × ℕ) < toLex (0, b) :=
  Prod.Lex.toLex_lt_toLex.mpr (Or.inr ⟨rfl, fewer⟩)

/-- A `read` in the file leaves less to read, also when the `write` after it is
still to be done. -/
theorem unread_read {dest : Inode × ℕ} {i : Inode} {k : ℕ} (within : Within m dest 0 (i, k))
    (more : m.read i k ≠ []) :
    2 * unread m (some (i, k + (m.read i k).length)) + 1 < 2 * unread m (some (i, k)) := by
  have bytes := List.length_pos_iff.mpr more
  have inside := within.read.1
  simp only [unread, Option.elim_some] at inside ⊢
  omega

/-- After the `write` as much is left to read as before. -/
theorem unread_write {dest d : Inode × ℕ} {buffer : List UInt8} (within : Within m dest buffer.length d) :
    2 * unread (m.write dest.1 dest.2 buffer) (some d) < 2 * unread m (some d) + 1 := by
  simp only [unread, Option.elim_some, within.length_write]
  exact Nat.lt_succ_self _

theorem Move.rank_elsewhere (move : Move ⟨false, false, listing⟩ m l stmt m' next)
    (elsewhere : stmt ≠ .scan1 ∧ stmt ≠ .scan2) (sound : Sound m ⟨stmt, l⟩) (goes : Point.Goes listing m ⟨stmt, l⟩)
    (opens : Point.OpensFiles m ⟨stmt, l⟩) : rank m' next < rank m ⟨stmt, l⟩ := by
  obtain ⟨first, second⟩ := elsewhere
  have reads := sound.reads
  cases move with
  | error1 | end1 | rewind1 | skip1 | found1 => exact absurd rfl first
  | error2 | end2 | rewind2 | skip2 | crash2 | found2 => exact absurd rfl second
  | null1 null =>
    obtain ⟨name, _, here, _⟩ := sound.pair rfl
    cases null.symm.trans here
  | null2 null =>
    obtain ⟨_, name, _, here, _⟩ := sound.pair rfl
    cases null.symm.trans here
  | @missing1 name here none =>
    have file : l.isDir = false := by
      have bit := opens.1 rfl name here
      rwa [Locals.ifdir, none, Option.elim_none] at bit
    rw [file, if_neg Bool.false_ne_true]
    exact rank_lt_of_same rfl rfl nofun (fun _ => ⟨rfl, rfl⟩) (Or.inl (by simp [Stmt.stage]))
  | @opened1 name i here at' =>
    have file : (m.node i).isDirectory = false := by
      have bit := opens.1 rfl name here
      rwa [Locals.ifdir, at', Option.elim_some] at bit
    rw [file, if_neg Bool.false_ne_true]
    exact rank_lt_of_same rfl rfl nofun (fun _ => ⟨rfl, rfl⟩) (Or.inl (by simp [Stmt.stage]))
  | missing2 here none => exact absurd none (goes.finds rfl _ here)
  | @opened2 name i here at' =>
    have file : (m.node i).isDirectory = false := by
      have bit := opens.2 rfl name here
      rwa [Locals.ifdir, at', Option.elim_some] at bit
    rw [file, if_neg Bool.false_ne_true]
    exact rank_lt_of_same rfl rfl nofun (fun _ => ⟨rfl, rfl⟩) (Or.inl (by simp [Stmt.stage]))
  | unlink1 => exact rank_unlink1 sound
  | unlink2 => exact rank_unlink2 sound
  | openDest =>
    exact rank_lt_of_same (m.create_dir _) (m.create_stream _) (fun _ => rfl) nofun (Or.inl (by simp [Stmt.stage]))
  | bad1 | end1File => exact rank_lt_of_same rfl rfl (fun _ => rfl) nofun (Or.inl (by simp [Stmt.stage]))
  | @read1 i k here more =>
    refine rank_lt_of_same rfl rfl (fun _ => rfl) nofun (Or.inr ⟨le_rfl, toLex_rounds_lt ?_⟩)
    rw [here]
    exact unread_read (reads.1 _ here) more
  | @write1 buffer =>
    obtain ⟨⟨d, here, within⟩, _⟩ := reads
    refine rank_lt_of_same rfl rfl (fun _ => rfl) nofun (Or.inr ⟨le_rfl, toLex_rounds_lt ?_⟩)
    change 2 * unread (m.write l.dest.1 l.dest.2 buffer) l.file1 < 2 * unread m l.file1 + 1
    have here : l.file1 = some d := here
    rw [here]
    exact unread_write within
  | bad2 bad =>
    obtain ⟨d, opened, _⟩ := reads
    cases bad.symm.trans opened
  | end2File => exact rank_lt_of_same rfl rfl (fun _ => rfl) nofun (Or.inl (by simp [Stmt.stage]))
  | @read2 i k here more =>
    obtain ⟨d, opened, within⟩ := reads
    cases here.symm.trans opened
    refine rank_lt_of_same rfl rfl (fun _ => rfl) nofun (Or.inr ⟨le_rfl, toLex_rounds_lt ?_⟩)
    rw [here]
    exact unread_read within more
  | write2Fails =>
    obtain ⟨_, _, none, _⟩ := reads
    cases none
  | @write2 buffer =>
    obtain ⟨_, d, same, here, within⟩ := reads
    cases same
    refine rank_lt_of_same rfl rfl (fun _ => rfl) nofun (Or.inr ⟨le_rfl, toLex_rounds_lt ?_⟩)
    change 2 * unread (m.write l.dest.1 l.dest.2 buffer) l.file2 < 2 * unread m l.file2 + 1
    have here : l.file2 = some d := here
    rw [here]
    exact unread_write within
  | link => exact rank_link
  | unlinkTmp => exact rank_lt_of_same rfl rfl nofun nofun (Or.inl (by simp [Stmt.stage]))

theorem Turn.rank_lt (turn : Turn 0 ⟨false, false, listing⟩ s s' next) (sound : Sound s.mem (s.pc 0))
    (goes : Goes s listing) (opens : OpensFiles s listing) : rank s'.mem next < rank s.mem (s.pc 0) := by
  cases turn with
  | lock here _ mem there =>
    rw [mem, there]
    exact rank_lt_of_same rfl rfl nofun nofun (Or.inl (by simp [Stmt.stage, here]))
  | unlock here mem there =>
    rw [mem, there]
    exact rank_lt_of_same rfl rfl nofun (fun _ => ⟨by simp [Stmt.holdsFirst, here], rfl⟩)
      (Or.inl (by simp [Stmt.stage, here]))
  | move move =>
    by_cases scans : (s.pc 0).stmt = .scan1 ∨ (s.pc 0).stmt = .scan2
    · exact move.rank_scan scans sound goes
    · exact move.rank_elsewhere (not_or.mp scans) sound goes opens

end DeviceProgramming.Concatenate
