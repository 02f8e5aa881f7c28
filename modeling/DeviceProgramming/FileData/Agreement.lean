import DeviceProgramming.FileData.Files

namespace DeviceProgramming.FileData

open OpenFiles (Slot Pc)

variable {Pid Inode Pipe : Type} {m : OpenFiles.Memory Pid Inode Pipe} {results : ℤ → ℤ} {f : Slot} {ip : Inode}
  {addr n r i : ℤ} {turns : ℕ}

/-- What the calls of one process do to the file table, when those that move bytes at an
address return what `results` says. -/
def tableAnswer (results : ℤ → ℤ) : (c : Call Slot Inode Pipe) → OpenFiles.Memory Pid Inode Pipe →
    Answer c × OpenFiles.Memory Pid Inode Pipe
  | .file f, m => (m.file f, m)
  | .setOff f off, m => ((), m.setFile f { m.file f with off := off })
  | .readi _ _ addr _ _, m | .writei _ _ addr _ _, m | .piperead _ addr _, m | .pipewrite _ addr _, m => (results addr, m)
  | .syscall, m | .beginTrans, m | .commitTrans, m | .ilock _, m | .iunlock _, m => ((), m)

/-- The end of a call as a step of the file table from `pc`. -/
def ended (pc : Pc Pid Inode Pipe) : Except String ℤ × OpenFiles.Memory Pid Inode Pipe →
    OpenFiles.Memory Pid Inode Pipe × Pc Pid Inode Pipe
  | (.ok result, m) => (m, .ret result)
  | (.error text, m) => m.panic text pc

theorem run_file {α : Type} {rest : OpenFiles.File Inode Pipe → Prog Slot Inode Pipe α} :
    (ask (.file f) >>= rest).run (tableAnswer results) m = (rest (m.file f)).run (tableAnswer results) m := rfl

theorem run_addOff :
    (addOff f r).run (tableAnswer results) m = (.ok (), if r > 0 then m.addOff f r else m) := by
  unfold addOff
  split <;> rfl

theorem run_readInode : (readInode f ip addr n).run (tableAnswer results) m =
    (.ok (results addr), if results addr > 0 then m.addOff f (results addr) else m) := by
  simp only [readInode, ask, Calls.run_ask_bind]
  rw [Calls.run_bind run_addOff]
  rfl

theorem run_writeInode : (writeInode f ip addr n).run (tableAnswer results) m =
    (.ok (results addr), if results addr > 0 then m.addOff f (results addr) else m) := by
  simp only [writeInode, ask, Calls.run_ask_bind]
  rw [Calls.run_bind run_addOff]
  rfl

/-- `fileread` with all its calls does to the file table what the table says in one step. -/
theorem ended_fileread : ended (.fileread f) ((fileread f addr n).run (tableAnswer results) m) =
    m.fileread f (results addr) := by
  unfold fileread OpenFiles.Memory.fileread
  rw [run_file]
  by_cases closed : (m.file f).readable = false
  · rw [if_pos closed, if_pos closed]
    rfl
  · rw [if_neg closed, if_neg closed]
    cases (m.file f).type with
    | pipe | none => rfl
    | inode =>
      dsimp only
      rw [run_readInode]
      rfl

/-- A turn of the loop of `filewrite` in the file table. -/
def turn (results : ℤ → ℤ) (addr : ℤ) (x : OpenFiles.Memory Pid Inode Pipe × Pc Pid Inode Pipe) :
    OpenFiles.Memory Pid Inode Pipe × Pc Pid Inode Pipe := match x.2 with
  | .filewriteLoop f n i => x.1.filewriteLoop f n i (results (addr + i))
  | _ => x

/-- The loop of `filewrite` with all its calls does to the file table what its turns do. -/
theorem ended_filewriteLoop (enough : n - i ≤ turns) : ∃ k j,
    (turn results addr)^[k] (m, .filewriteLoop f n i) =
      ended (.filewriteLoop f n j) ((filewriteLoop f ip addr n turns i).run (tableAnswer results) m) := by
  induction turns generalizing i m with
  | zero =>
    refine ⟨1, i, ?_⟩
    have over' : ¬ i < n := by omega
    simp [turn, OpenFiles.Memory.filewriteLoop, filewriteLoop, over', ended]
  | succ turns ih =>
    by_cases more : i < n
    · let n1 := if n - i > OpenFiles.Memory.writeMax then OpenFiles.Memory.writeMax else n - i
      have some : 0 < n1 := by
        have max : 0 < OpenFiles.Memory.writeMax := by decide
        dsimp only [n1]
        split <;> omega
      have first : turn results addr (m, .filewriteLoop f n i) = m.filewriteLoop f n i (results (addr + i)) := rfl
      rw [OpenFiles.Memory.filewriteLoop, if_pos more] at first
      rw [filewriteLoop, if_pos more, Calls.run_bind run_writeInode]
      by_cases failed : results (addr + i) < 0
      · refine ⟨1, i, ?_⟩
        rw [Function.iterate_one, first, if_pos failed, if_pos failed]
        rfl
      · rw [if_neg failed] at first ⊢
        by_cases short : results (addr + i) ≠ n1
        · refine ⟨1, i, ?_⟩
          rw [Function.iterate_one, first, if_pos short, if_pos short]
          rfl
        · rw [if_neg short] at first ⊢
          obtain ⟨k, j, later⟩ := ih (i := i + results (addr + i)) (by omega)
          exact ⟨k + 1, j, by rw [Function.iterate_succ_apply, first]; exact later⟩
    · refine ⟨1, i, ?_⟩
      simp [turn, OpenFiles.Memory.filewriteLoop, filewriteLoop, more, ended]

/-- `filewrite` with all its calls does to the file table what the table says in one step and
then in the turns of its loop. -/
theorem ended_filewrite : ∃ k pc, (turn results addr)^[k] (m.filewrite f n (results addr)) =
    ended pc ((filewrite f addr n).run (tableAnswer results) m) := by
  unfold filewrite OpenFiles.Memory.filewrite
  rw [run_file]
  by_cases closed : (m.file f).writable = false
  · rw [if_pos closed, if_pos closed]
    exact ⟨0, .filewrite f n, rfl⟩
  · rw [if_neg closed, if_neg closed]
    cases (m.file f).type with
    | pipe | none => exact ⟨0, .filewrite f n, rfl⟩
    | inode =>
      obtain ⟨k, j, turns⟩ :=
        @ended_filewriteLoop Pid Inode Pipe m results f (m.file f).ip addr n 0 n.toNat (by omega)
      exact ⟨k, _, turns⟩

end DeviceProgramming.FileData
