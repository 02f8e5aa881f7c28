import DeviceProgramming.Machine.Count
import DeviceProgramming.Machine.RefCount
import DeviceProgramming.OpenFiles.Effects
import Mathlib.Tactic.Ring

namespace DeviceProgramming.OpenFiles

/-- The number of descriptors that stand for a file. -/
def descriptors (ofile : Fd → Option Slot) (f : Slot) : ℕ := countAt (fun o => decide (o = some f)) ofile

def one (g f : Slot) : ℤ := if g = f then 1 else 0

section
variable {Pid Inode Pipe : Type*}

def Closing.inHand (f : Slot) : Closing Inode → ℤ
  | ret _ | put _ => 0
  | next g => one g f

/-- The references that a process has besides those of its descriptors. -/
def Pc.inHand (f : Slot) : Pc Pid Inode Pipe → ℤ
  | filedupUnlock g (.fork _ _) | forkStore g _ _ | fileallocUnlock (some g) _ _ | openFd g _ _ => one g f
  | filecloseLock g after | filecloseRef g after => one g f + after.inHand f
  | filecloseUnlock _ after | filecloseGive _ after => after.inHand f
  | pipeFd rf wf => one rf f + one wf f
  | _ => 0

/-- The duplicate that `sys_dup` has stored and `filedup` has not counted yet. -/
def Pc.owed (f : Slot) : Pc Pid Inode Pipe → ℤ
  | filedupLock g (.sysDup _) | filedupRef g (.sysDup _) => one g f
  | _ => 0

/-- The file that a process uses through a descriptor of its own. -/
def Pc.uses : Pc Pid Inode Pipe → Option Slot
  | filedupLock f _ | filedupRef f _ | filedupUnlock f _ | forkStore f _ _ | openSet _ f _ _ | fileread f
  | filewrite f _ | filewriteLoop f _ _ | filestat f => some f
  | _ => none

/-- The file that `sys_open` has allocated and not yet filled in. -/
def Pc.fresh : Pc Pid Inode Pipe → Option Slot
  | fileallocUnlock f _ _ => f
  | openFd f _ _ | openSet _ f _ _ => some f
  | _ => none

/-- The references of a process to a file. -/
def share (s : State Pid Inode Pipe) (p : Pid) (f : Slot) : ℤ :=
  descriptors (s.mem.ofile p) f + (s.pc p).inHand f - (s.pc p).owed f

/-- What holds in every state: each count is the number of the references to the
file, a process uses files that it has a descriptor of, and only files that are
open have a type. -/
structure Inv [Fintype Pid] (s : State Pid Inode Pipe) : Prop where
  counted : Counted (fun f => (s.mem.file f).ref) (share s)
  used : ∀ p f, (s.pc p).uses = some f → (s.pc p).owed f + 1 ≤ descriptors (s.mem.ofile p) f
  free : ∀ f, (s.mem.file f).ref = 0 → (s.mem.file f).type = .none
  fresh : ∀ p f, (s.pc p).fresh = some f → (s.mem.file f).type = .none ∧ (s.mem.file f).ref = 1
  typed : ∀ p fd f, s.mem.ofile p fd = some f → (s.mem.file f).type = .none → (s.pc p).fresh = some f
  ends : ∀ p rf wf, s.pc p = .pipeFd rf wf → (s.mem.file rf).type ≠ .none ∧ (s.mem.file wf).type ≠ .none
  calm : s.mem.panicked = none ∨ s.mem.panicked = some "short filewrite"

theorem descriptors_pos {ofile : Fd → Option Slot} {fd : Fd} {f : Slot} (here : ofile fd = some f) :
    1 ≤ descriptors ofile f :=
  countAt_pos (i := fd) (by simpa using here)

theorem exists_descriptor {ofile : Fd → Option Slot} {f : Slot} (some' : 1 ≤ descriptors ofile f) :
    ∃ fd, ofile fd = some f := by
  by_contra none
  have zero : descriptors ofile f = 0 := countAt_eq_zero.mpr fun fd => by
    simpa using fun here => none ⟨fd, here⟩
  omega

theorem descriptors_store {ofile : Fd → Option Slot} {fd : Fd} {f : Slot} (empty : ofile fd = none) (g : Slot) :
    (descriptors (Function.update ofile fd (some f)) g : ℤ) = descriptors ofile g + one f g := by
  have moved := countAt_update (fun o => decide (o = some g)) ofile fd (some f)
  simp only [empty, reduceCtorEq, decide_false, Bool.toNat_false, add_zero, Option.some.injEq] at moved
  rw [descriptors, moved, one, descriptors]
  by_cases same : f = g <;> simp [same]

theorem descriptors_clear {ofile : Fd → Option Slot} {fd : Fd} {f : Slot} (here : ofile fd = some f) (g : Slot) :
    (descriptors (Function.update ofile fd none) g : ℤ) + one f g = descriptors ofile g := by
  have moved := countAt_update (fun o => decide (o = some g)) ofile fd none
  simp only [here, reduceCtorEq, decide_false, Bool.toNat_false, add_zero, Option.some.injEq] at moved
  rw [descriptors, one, descriptors, ← moved]
  by_cases same : f = g <;> simp [same]

theorem one_nonneg (g f : Slot) : 0 ≤ one g f := by
  unfold one
  split <;> decide

@[simp] theorem one_self (f : Slot) : one f f = 1 := if_pos rfl

theorem one_of_ne {g f : Slot} (differ : g ≠ f) : one g f = 0 := if_neg differ

theorem Closing.inHand_nonneg (f : Slot) (after : Closing Inode) : 0 ≤ after.inHand f := by
  cases after with
  | ret | put => exact le_rfl
  | next g => exact one_nonneg g f

theorem Pc.inHand_nonneg (f : Slot) (pc : Pc Pid Inode Pipe) : 0 ≤ pc.inHand f := by
  cases pc
  case filedupUnlock g after =>
    cases after with
    | sysDup => exact le_rfl
    | fork => exact one_nonneg g f
  case fileallocUnlock g ip omode =>
    cases g with
    | none => exact le_rfl
    | some g => exact one_nonneg g f
  case filecloseLock g after | filecloseRef g after => exact add_nonneg (one_nonneg g f) (after.inHand_nonneg f)
  case filecloseUnlock ff after | filecloseGive ff after => exact after.inHand_nonneg f
  case pipeFd rf wf => exact add_nonneg (one_nonneg rf f) (one_nonneg wf f)
  case forkStore g child fd | openFd g ip omode => exact one_nonneg g f
  all_goals exact le_rfl

/-- Nothing is owed for a file but the one in use. -/
theorem Pc.owed_eq_zero {f : Slot} {pc : Pc Pid Inode Pipe} (unused : pc.uses ≠ some f) : pc.owed f = 0 := by
  cases pc
  case filedupLock g after | filedupRef g after =>
    cases after with
    | sysDup fd => exact one_of_ne fun same => unused (congrArg some same)
    | fork => rfl
  all_goals rfl

@[simp] theorem Closing.inHand_pc (f : Slot) (after : Closing Inode) :
    (after.pc : Pc Pid Inode Pipe).inHand f = after.inHand f := by
  cases after with
  | ret | put => rfl
  | next g => exact add_zero _

@[simp] theorem Closing.owed_pc (f : Slot) (after : Closing Inode) : (after.pc : Pc Pid Inode Pipe).owed f = 0 := by
  cases after <;> rfl

@[simp] theorem Closing.uses_pc (after : Closing Inode) : (after.pc : Pc Pid Inode Pipe).uses = none := by
  cases after <;> rfl

@[simp] theorem Closing.fresh_pc (after : Closing Inode) : (after.pc : Pc Pid Inode Pipe).fresh = none := by
  cases after <;> rfl

end

variable {Pid Inode Pipe : Type*} [DecidableEq Pid] [DecidableEq Inode] [DecidableEq Pipe]

section
variable {p : Pid} {pc next : Pc Pid Inode Pipe} {m m' : Memory Pid Inode Pipe} {f : Slot}

/-- A lock operation leaves a process with what it has. -/
structure Kept (pc next : Pc Pid Inode Pipe) : Prop where
  inHand : ∀ f, next.inHand f = pc.inHand f
  owed : ∀ f, next.owed f = pc.owed f
  uses : ∀ f, next.uses = some f → pc.uses = some f
  fresh : next.fresh = pc.fresh
  ends : ∀ rf wf, next ≠ .pipeFd rf wf

theorem kept_of_target (target : (instr p pc).target = some next) : Kept pc next := by
  cases pc
  case filedupLock f after =>
    cases target
    refine ⟨fun _ => rfl, fun g => ?_, by simp [Pc.uses], rfl, by simp⟩
    cases after <;> rfl
  case filedupUnlock f after =>
    cases after <;> cases target <;>
      exact ⟨fun _ => rfl, fun _ => rfl, by simp [Dup.pc, Pc.uses], rfl, by simp [Dup.pc]⟩
  case filecloseUnlock ff after =>
    cases ff with
    | none =>
      cases target
      refine ⟨after.inHand_pc, after.owed_pc, by simp, after.fresh_pc, fun rf wf => ?_⟩
      cases after <;> simp [Closing.pc]
    | some ff =>
      cases target
      exact ⟨fun _ => rfl, fun _ => rfl, by simp [Pc.uses], rfl, by simp⟩
  case fileallocUnlock g ip omode =>
    cases g <;> cases target <;> exact ⟨fun _ => rfl, fun _ => rfl, by simp [Pc.uses], rfl, by simp⟩
  case filecloseLock | fileallocLock =>
    cases target
    exact ⟨fun _ => rfl, fun _ => rfl, by simp [Pc.uses], rfl, by simp⟩
  all_goals cases target

omit [DecidableEq Pid] [DecidableEq Inode] [DecidableEq Pipe] in
theorem file_setFile (file : File Inode Pipe) (g : Slot) : (m.setFile f file).file g = m.file g ∨ f = g := by
  by_cases same : f = g
  · exact Or.inr same
  · exact Or.inl (Function.update_of_ne (Ne.symm same) ..)

/-- What a statement does to one file. -/
inductive FileStep (pc next : Pc Pid Inode Pipe) (g : Slot) (old new : File Inode Pipe) : Prop
  | same : new = old → FileStep pc next g old new
  | offset (off : BitVec 32) : pc.uses = some g → new = { old with off := off } → FileStep pc next g old new
  | up : pc.uses = some g → 1 ≤ old.ref → new = { old with ref := old.ref + 1 } → FileStep pc next g old new
  | down : 1 ≤ pc.inHand g → 1 < old.ref → new = { old with ref := old.ref - 1 } → FileStep pc next g old new
  | last : (∃ after, pc = .filecloseRef g after) → old.ref = 1 → new = { old with ref := 0, type := .none } →
    FileStep pc next g old new
  | take : old.ref = 0 → new = { old with ref := 1 } → next.fresh = some g → FileStep pc next g old new
  | set : pc.uses = some g → new.ref = old.ref → new.type = .inode → FileStep pc next g old new
  | ends : old.ref = 0 → new.ref = 1 → new.type = .pipe → FileStep pc next g old new

omit [DecidableEq Pid] [DecidableEq Inode] [DecidableEq Pipe] in
theorem fileStep_of_offset (moved : m.Offset f m') (uses : pc.uses = some f) (g : Slot) :
    FileStep pc next g (m.file g) (m'.file g) := by
  rcases moved with rfl | ⟨r, rfl⟩
  · exact .same rfl
  · by_cases same : f = g
    · subst same
      exact .offset _ uses (Function.update_self ..)
    · exact .same (Function.update_of_ne (Ne.symm same) ..)

theorem Effect.file (effect : Effect p m pc m' next) (g : Slot) : FileStep pc next g (m.file g) (m'.file g) := by
  cases effect
  case filedupRef f after live =>
    rcases file_setFile (m := m) (f := f) _ g with same | rfl
    · exact .same same
    · exact .up rfl live (Function.update_self ..)
  case filecloseMore f after more =>
    rcases file_setFile (m := m) (f := f) _ g with same | rfl
    · exact .same same
    · refine .down ?_ more (Function.update_self ..)
      exact le_add_of_le_of_nonneg (one_self f).ge (after.inHand_nonneg f)
  case filecloseLast f after last =>
    rcases file_setFile (m := m) (f := f) _ g with same | rfl
    · exact .same same
    · exact .last ⟨after, rfl⟩ last (Function.update_self ..)
  case filecloseGive ff after =>
    refine .same ?_
    unfold Memory.filecloseGive
    split <;> rfl
  case fileallocTake k ip omode free =>
    rcases file_setFile (m := m) (f := k) _ g with same | rfl
    · exact .same same
    · exact .take free (Function.update_self ..) rfl
  case openSet fd f ip omode =>
    rcases file_setFile (m := m) (f := f) _ g with same | rfl
    · exact .same same
    · refine .set rfl ?_ ?_ <;> simp [Memory.openSet, Memory.setFile]
  case pipeSome rf wf pipe differ read write run =>
    rw [Memory.pipeAlloc, if_pos ⟨differ, read, write⟩] at run
    cases run
    by_cases atWrite : g = wf
    · subst atWrite
      refine .ends write ?_ ?_ <;> simp
    · by_cases atRead : g = rf
      · subst atRead
        refine .ends read ?_ ?_ <;> simp [atWrite]
      · exact .same ((Function.update_of_ne atWrite ..).trans (Function.update_of_ne atRead ..))
  case short f n i m' moved =>
    have step : FileStep (.filewriteLoop f n i) (.filewriteLoop f n i) g (m.file g) (m'.file g) :=
      fileStep_of_offset moved rfl g
    exact step
  case fileread f r moved | loopRet f n i r moved | loopNext f n i r moved => exact fileStep_of_offset moved rfl g
  all_goals exact .same rfl

/-- Only what is in use by the process, or free, changes. -/
theorem Effect.file_cases (effect : Effect p m pc m' next) (g : Slot) :
    m'.file g = m.file g ∨ (m.file g).ref = 0 ∨ pc.uses = some g ∨ 1 ≤ pc.inHand g := by
  cases effect.file g with
  | same same => exact Or.inl same
  | offset _ uses | up uses | set uses => exact Or.inr (Or.inr (Or.inl uses))
  | down held => exact Or.inr (Or.inr (Or.inr held))
  | last closing =>
    obtain ⟨after, rfl⟩ := closing
    exact Or.inr (Or.inr (Or.inr (le_add_of_le_of_nonneg (one_self g).ge (after.inHand_nonneg g))))
  | take free | ends free => exact Or.inr (Or.inl free)

/-- Only the second statement of `fileclose` can make a file free. -/
theorem Effect.ref_ne_zero (effect : Effect p m pc m' next) {g : Slot} (used : (m.file g).ref ≠ 0)
    (open' : ∀ after, pc ≠ .filecloseRef g after) : (m'.file g).ref ≠ 0 := by
  cases effect.file g with
  | same same => rwa [same]
  | offset _ _ new =>
    rw [new]
    exact used
  | up _ one new | down _ one new =>
    rw [new]
    dsimp only
    omega
  | last closing =>
    obtain ⟨after, rfl⟩ := closing
    exact absurd rfl (open' after)
  | take _ new =>
    rw [new]
    exact one_ne_zero
  | set _ same => rwa [same]
  | ends _ one => omega

/-- A file that loses its type is closed. -/
theorem Effect.type_cases (effect : Effect p m pc m' next) (g : Slot) (none : (m'.file g).type = .none) :
    (m.file g).type = .none ∨ (m'.file g).ref = 0 := by
  cases effect.file g with
  | same same => exact Or.inl (by rwa [same] at none)
  | offset _ _ new | up _ _ new | down _ _ new | take _ new =>
    rw [new] at none
    exact Or.inl none
  | last _ _ new => exact Or.inr (by rw [new])
  | set _ _ type | ends _ _ type =>
    rw [type] at none
    cases none

/-- A file that is closed has lost its type. -/
theorem Effect.free (effect : Effect p m pc m' next) (g : Slot) (before : (m.file g).ref = 0 → (m.file g).type = .none)
    (live : pc.uses = some g → 1 ≤ (m.file g).ref) (zero : (m'.file g).ref = 0) : (m'.file g).type = .none := by
  cases effect.file g with
  | same same =>
    rw [same] at zero ⊢
    exact before zero
  | offset _ uses new =>
    rw [new] at zero ⊢
    exact before zero
  | up _ one new | down _ one new =>
    rw [new] at zero
    dsimp only at zero
    omega
  | last _ _ new => rw [new]
  | take _ new =>
    rw [new] at zero
    cases zero
  | set uses same =>
    have one := live uses
    omega
  | ends _ one => omega

omit [DecidableEq Pid] [DecidableEq Inode] [DecidableEq Pipe] in
theorem ref_setFile (m : Memory Pid Inode Pipe) (f : Slot) (file : File Inode Pipe) (g : Slot) :
    ((m.setFile f file).file g).ref = (m.file g).ref + one f g * (file.ref - (m.file f).ref) := by
  by_cases same : f = g
  · subst same
    simp [Memory.setFile]
  · simp [Memory.setFile, one_of_ne same, Ne.symm same]

omit [DecidableEq Pid] [DecidableEq Inode] [DecidableEq Pipe] in
theorem ref_offset (moved : m.Offset f m') (g : Slot) : (m'.file g).ref = (m.file g).ref := by
  rcases moved with rfl | ⟨r, rfl⟩
  · rfl
  · rw [Memory.addOff, ref_setFile]
    simp

omit [DecidableEq Pid] [DecidableEq Inode] [DecidableEq Pipe] in
theorem ofile_offset (moved : m.Offset f m') : m'.ofile = m.ofile := by
  rcases moved with rfl | ⟨r, rfl⟩ <;> rfl

/-- A count changes by what the process has more afterwards. -/
theorem Effect.share (effect : Effect p m pc m' next) (calm : ∀ text, ¬ Panics m pc text)
    (own : ∀ f child fd, pc ≠ .forkStore f child fd) (g : Slot) :
    (m'.file g).ref + (descriptors (m.ofile p) g + pc.inHand g - pc.owed g) =
      (m.file g).ref + (descriptors (m'.ofile p) g + next.inHand g - next.owed g) := by
  cases effect
  case panic text panics => exact absurd panics (calm text)
  case forkStore => exact absurd rfl (own _ _ _)
  case dup src fd f here lowest =>
    simp [Memory.setOfile, descriptors_store lowest.1, Pc.inHand, Pc.owed]
  case close fd f here =>
    have cleared := descriptors_clear here g
    simp only [Memory.setOfile, Function.update_self, Pc.inHand, Pc.owed, Closing.inHand]
    omega
  case filedupRef f after live =>
    rw [ref_setFile]
    cases after with
    | sysDup fd =>
      simp only [Memory.setFile, Pc.inHand, Pc.owed]
      ring
    | fork child fd =>
      simp only [Memory.setFile, Pc.inHand, Pc.owed]
      ring
  case filecloseMore f after more =>
    rw [ref_setFile]
    simp only [Memory.setFile, Pc.inHand, Pc.owed]
    ring
  case filecloseLast f after last =>
    rw [ref_setFile]
    simp only [Memory.setFile, Pc.inHand, Pc.owed, last]
    ring
  case filecloseGive ff after =>
    have same : (m.filecloseGive ff).file = m.file ∧ (m.filecloseGive ff).ofile = m.ofile := by
      unfold Memory.filecloseGive
      split <;> exact ⟨rfl, rfl⟩
    rw [same.1, same.2, Closing.inHand_pc, Closing.owed_pc]
    rfl
  case fileallocTake k ip omode free =>
    rw [ref_setFile]
    simp only [Memory.setFile, Pc.inHand, Pc.owed, free]
    ring
  case openFdSome f ip omode fd lowest =>
    simp only [Memory.setOfile, Function.update_self, descriptors_store lowest.1, Pc.inHand, Pc.owed]
    ring
  case openSet fd f ip omode =>
    have same : ((m.openSet f ip omode).file g).ref = (m.file g).ref := by
      change ((m.setFile f _).file g).ref = _
      rw [ref_setFile]
      simp
    rw [same]
    rfl
  case pipeSome rf wf pipe differ read write run =>
    rw [Memory.pipeAlloc, if_pos ⟨differ, read, write⟩] at run
    cases run
    by_cases atWrite : g = wf
    · subst atWrite
      simp [Pc.inHand, Pc.owed, write, one_of_ne differ]
      ring
    · by_cases atRead : g = rf
      · subst atRead
        simp [Pc.inHand, Pc.owed, read, atWrite, one_of_ne differ.symm]
        ring
      · simp [Pc.inHand, Pc.owed, atWrite, atRead, one_of_ne (Ne.symm atWrite), one_of_ne (Ne.symm atRead)]
  case pipeFdSome rf wf fd0 fd1 lowest lowest' =>
    simp only [Memory.setOfile, Function.update_self, descriptors_store lowest'.1, descriptors_store lowest.1,
      Pc.inHand, Pc.owed]
    ring
  case short f n i m' moved =>
    have ref : (((m'.panic "short filewrite" (.filewriteLoop f n i)).1).file g).ref = (m.file g).ref :=
      ref_offset moved g
    have same := ofile_offset moved
    rw [ref]
    simp [Memory.panic, same, Pc.inHand, Pc.owed]
  case fileread f r moved | loopRet f n i r moved | loopNext f n i r moved =>
    rw [ref_offset moved, ofile_offset moved]
    rfl
  all_goals simp [Pc.inHand, Pc.owed, Closing.inHand]

/-- A statement changes the descriptors of its own process; only `fork` gives
one to a child. -/
theorem Effect.ofile_cases (effect : Effect p m pc m' next) {q : Pid} (other : q ≠ p) :
    m'.ofile q = m.ofile q ∨ ∃ f fd, pc = .forkStore f q fd ∧ m.ofile q fd = none ∧
      m'.ofile q = Function.update (m.ofile q) fd (some f) := by
  cases effect
  case forkStore f child fd empty =>
    by_cases same : q = child
    · subst same
      exact Or.inr ⟨f, fd, rfl, empty, Function.update_self ..⟩
    · exact Or.inl (Function.update_of_ne same ..)
  case dup | close | openFdSome => exact Or.inl (Function.update_of_ne other ..)
  case pipeFdSome => exact Or.inl (Function.update_of_ne other ..)
  case filecloseGive ff after =>
    refine Or.inl ?_
    unfold Memory.filecloseGive
    split <;> rfl
  case pipeSome rf wf pipe differ read write run =>
    rw [Memory.pipeAlloc, if_pos ⟨differ, read, write⟩] at run
    cases run
    exact Or.inl rfl
  case short f n i m' moved =>
    have same := ofile_offset moved
    exact Or.inl (congrFun same q)
  case fileread f r moved | loopRet f n i r moved | loopNext f n i r moved =>
    exact Or.inl (congrFun (ofile_offset moved) q)
  all_goals exact Or.inl rfl

end
end DeviceProgramming.OpenFiles
