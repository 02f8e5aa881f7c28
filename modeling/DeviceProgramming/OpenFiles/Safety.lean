import DeviceProgramming.OpenFiles.Allocation
import DeviceProgramming.OpenFiles.Targets

namespace DeviceProgramming.OpenFiles

open Xv6.Sysfile (Proc)

/-- All words are 0: a process with this memory asks for descriptor 0, or opens the
empty path for reading. -/
def zeros : Proc := ⟨4096, 0, fun _ => 0⟩

/-- Argument 1 is 1: a process with this memory opens the empty path for writing. -/
def writes : Proc := ⟨4096, 0, fun address => if address = 8 then 1 else 0⟩

def boot : State Bool Unit Unit where
  mem :=
    { file := fun _ => ⟨.none, 0, false, false, (), (), 0⟩
      ofile := fun _ _ => none
      ret := fun _ => 0
      stored := fun _ => none
      panicked := none
      taken := fun _ => 0
      given := fun _ => 0 }
  owner _ := none
  thread _ := .run .user

theorem boot_boot : Boot boot :=
  ⟨fun _ => rfl, fun _ => rfl, fun _ => rfl, fun _ => rfl, fun _ _ => rfl, rfl, fun _ => rfl, fun _ => rfl⟩

abbrev Label := Bool × Input Bool Unit Unit

/-- Process `false` opens a file, up to the last statement of `sys_open` before its return. -/
def opens : List Label :=
  schedule [(false, .call .open zeros, 1), (false, .path (some ()), 1), (false, .type false, 1),
    (false, .call .open zeros, 4)]

/-- The call returns, and `sys_dup` stores a duplicate of its descriptor. -/
def dups : List Label := opens ++ schedule [(false, .call .open zeros, 2), (false, .call .dup zeros, 1)]

/-- The call returns, and process `true` gets a duplicate of the descriptor. -/
def shares : List Label := opens ++ schedule [(false, .call .open zeros, 2), (false, .call (.fork true 0) zeros, 6)]

/-- Both close the file, and process `false` tries to open a directory for writing. -/
def closes : List Label := shares ++ schedule [(true, .call .close zeros, 5), (false, .call .close zeros, 6),
  (false, .call .open writes, 1), (false, .path (some ()), 1), (false, .type true, 3)]

abbrev files : System (State Bool Unit Unit) Label := (program Bool Unit Unit).system Boot

section
variable {Pid Inode Pipe : Type*} [Fintype Pid] [DecidableEq Pid] [DecidableEq Inode] [DecidableEq Pipe]
variable {s : State Pid Inode Pipe}

/-- The count of a file is the number of descriptors that stand for it and of the
references that calls have in hand, less the duplicates that `sys_dup` has stored
before `filedup` counts them. -/
theorem ref_eq_references (reach : ((program Pid Inode Pipe).system Boot).Reach s) (f : Slot) :
    (s.mem.file f).ref =
      ∑ p, ((descriptors (s.mem.ofile p) f : ℤ) + (s.pc p).inHand f - (s.pc p).owed f) :=
  (inv_of_reach reach).counted.sum f

set_option maxRecDepth 10000 in
theorem ref_eq_references_shares : ∃ s, files.run shares boot = some s ∧
    ∑ p, ((descriptors (s.mem.ofile p) 0 : ℤ) + (s.pc p).inHand 0 - (s.pc p).owed 0) = 2 := by
  have computed : (files.run shares boot).map (fun s => (s.mem.file 0).ref) = some 2 := by decide
  obtain ⟨s, reached, two⟩ := Option.map_eq_some_iff.mp computed
  exact ⟨s, reached, by rw [← ref_eq_references (.of_run (.start boot_boot) reached), two]⟩

/-- The panics of `filedup`, `fileclose`, `fileread` and `filewrite` over a file that
is not open cannot happen: whoever has a descriptor has an open file. -/
theorem descriptors_open (reach : ((program Pid Inode Pipe).system Boot).Reach s) :
    (s.mem.panicked = none ∨ s.mem.panicked = some "short filewrite") ∧
      ∀ p fd f, s.mem.ofile p fd = some f →
        1 ≤ (s.mem.file f).ref ∧ ((s.mem.file f).type = .none → (s.pc p).fresh = some f) := by
  have inv := inv_of_reach reach
  refine ⟨inv.calm, fun p fd f here => ⟨?_, inv.typed p fd f here⟩⟩
  have mine : 1 ≤ share s p f :=
    share_pos_of_used (inv.used p f) (Or.inl (by exact_mod_cast descriptors_pos here))
  exact mine.trans (inv.counted.share_le p f)

set_option maxRecDepth 10000 in
theorem descriptors_open_shares : ∃ s, files.run shares boot = some s ∧ 1 ≤ (s.mem.file 0).ref := by
  have computed : (files.run shares boot).map (fun s => s.mem.ofile true 0) = some (some 0) := by decide
  obtain ⟨s, reached, here⟩ := Option.map_eq_some_iff.mp computed
  exact ⟨s, reached, ((descriptors_open (.of_run (.start boot_boot) reached)).2 true 0 0 here).1⟩

/-- Every reference to an inode or to an end of a pipe that was taken is in the hand of one
call, or that of an open file, or was given back: none is lost and none is given back
twice. -/
theorem taken_eq (reach : ((program Pid Inode Pipe).system Boot).Reach s) (target : Target Inode Pipe) :
    s.mem.taken target = s.mem.given target + inTable s.mem target + ∑ p, (s.pc p).carries target :=
  balance_of_reach reach target

set_option maxRecDepth 10000 in
theorem taken_eq_shares : ∃ s, files.run shares boot = some s ∧
    s.mem.given (.inode ()) + inTable s.mem (.inode ()) + ∑ p, (s.pc p).carries (.inode ()) = 1 := by
  have computed : (files.run shares boot).map (fun s => s.mem.taken (.inode ())) = some 1 := by decide
  obtain ⟨s, reached, one⟩ := Option.map_eq_some_iff.mp computed
  exact ⟨s, reached, by rw [← taken_eq (.of_run (.start boot_boot) reached), one]⟩

/-- When no call is under way and no process has a descriptor, the table is empty
and everything has been given back. -/
theorem all_given (reach : ((program Pid Inode Pipe).system Boot).Reach s) (quiet : ∀ p, s.pc p = .user)
    (closed : ∀ p fd, s.mem.ofile p fd = none) :
    (∀ f, (s.mem.file f).ref = 0 ∧ (s.mem.file f).type = .none) ∧ s.mem.given = s.mem.taken := by
  have inv := inv_of_reach reach
  have zero (f : Slot) : (s.mem.file f).ref = 0 := by
    rw [inv.counted.sum f]
    refine Finset.sum_eq_zero fun p _ => ?_
    have nothing : descriptors (s.mem.ofile p) f = 0 := countAt_eq_zero.mpr fun fd => by simp [closed p fd]
    rw [share, nothing, quiet p]
    rfl
  refine ⟨fun f => ⟨zero f, inv.free f (zero f)⟩, funext fun target => ?_⟩
  have balance := balance_of_reach reach target
  have none : total (fun _ pc => Pc.carries target pc) s.pc = 0 :=
    total_eq_zero.mpr fun q => by rw [quiet q]; rfl
  have empty : inTable s.mem target = 0 :=
    countAt_eq_zero.mpr fun f => by simp [target_of_none (inv.free f (zero f))]
  omega

set_option maxRecDepth 10000 in
theorem all_given_closes : ∃ s, files.run closes boot = some s ∧ s.mem.taken (.inode ()) = 2 ∧
    (s.mem.file 0).ref = 0 ∧ s.mem.given = s.mem.taken := by
  have computed : (files.run closes boot).map (fun s => (s.mem.taken (.inode ()),
      decide (∀ p, s.pc p = .user ∧ ∀ fd, s.mem.ofile p fd = none))) = some (2, true) := by decide
  obtain ⟨s, reached, state⟩ := Option.map_eq_some_iff.mp computed
  obtain ⟨two, idle⟩ := Prod.mk.inj state
  have idle := of_decide_eq_true idle
  obtain ⟨empty, same⟩ := all_given (.of_run (.start boot_boot) reached) (fun p => (idle p).1) fun p => (idle p).2
  exact ⟨s, reached, two, (empty 0).1, same⟩

/-- `filealloc` returns a file that nobody else has a reference to, and none only
when all files of the table are in use. -/
theorem filealloc_exclusive (reach : ((program Pid Inode Pipe).system Boot).Reach s) {p : Pid} {f : Option Slot}
    {ip : Inode} {omode : BitVec 32} (at' : s.pc p = .fileallocUnlock f ip omode) :
    match f with
    | none => ∀ g, (s.mem.file g).ref ≠ 0
    | some f => (s.mem.file f).type = .none ∧ (s.mem.file f).ref = 1 ∧
      ∀ q, (∀ fd, s.mem.ofile q fd ≠ some f) ∧ (q ≠ p → (s.pc q).uses ≠ some f ∧ (s.pc q).inHand f = 0) := by
  cases f with
  | none =>
    have scanned := scanned_of_reach reach p
    rw [at'] at scanned
    exact scanned
  | some f =>
    have inv := inv_of_reach reach
    obtain ⟨type, one⟩ := inv.fresh p f (by rw [at']; rfl)
    have mine : share s p f = descriptors (s.mem.ofile p) f + 1 := by simp [share, at', Pc.inHand, Pc.owed]
    have most := inv.counted.share_le p f
    have theirs (q : Pid) (other : q ≠ p) : share s q f = 0 := inv.counted.alone other (by omega)
    refine ⟨type, one, fun q => ⟨fun fd here => ?_, fun other => ⟨fun uses => ?_, ?_⟩⟩⟩
    · have stored := descriptors_pos here
      by_cases own : q = p
      · subst own
        omega
      · have positive := share_pos_of_used (inv.used q f) (Or.inl (by exact_mod_cast stored))
        rw [theirs q own] at positive
        omega
    · have positive := inv.share_pos (Or.inl uses)
      rw [theirs q other] at positive
      omega
    · by_contra some'
      have nonneg := (s.pc q).inHand_nonneg f
      have positive := inv.share_pos (p := q) (f := f) (Or.inr (by omega))
      rw [theirs q other] at positive
      omega

set_option maxRecDepth 10000 in
/-- The first five steps of `sys_open` lead to the end of `filealloc`. -/
theorem filealloc_exclusive_opens : ∃ s, files.run (opens.take 5) boot = some s ∧
    (s.mem.file 0).ref = 1 ∧ ∀ q fd, s.mem.ofile q fd ≠ some 0 := by
  have computed : (files.run (opens.take 5) boot).map (fun s => decide (s.pc false = .fileallocUnlock (some 0) () 0)) =
      some true := by decide
  obtain ⟨s, reached, here⟩ := Option.map_eq_some_iff.mp computed
  obtain ⟨_, one, nobody⟩ := filealloc_exclusive (.of_run (.start boot_boot) reached) (of_decide_eq_true here)
  exact ⟨s, reached, one, fun q => (nobody q).1⟩

omit [Fintype Pid] in
/-- The descriptor that `sys_open` or `sys_dup` is about to return stands for the
file of the call, and it is the lowest one that was free when the call stored its file there. -/
theorem result_lowest {path : List (State Pid Inode Pipe × Pid × Input Pid Inode Pipe)}
    (run : ((program Pid Inode Pipe).system Boot).Run path s) {p : Pid} {fd : Fd} {f : Slot}
    (result : (s.pc p).result = some (fd, f)) :
    (∃ after r input before, path = after ++ (r, p, input) :: before ∧ (r.pc p).result = none ∧
      r.mem.ofile p fd = none ∧ (∀ lower < fd, r.mem.ofile p lower ≠ none) ∧
      ∀ step ∈ after, (step.1.pc p).result = some (fd, f)) ∧
    s.mem.ofile p fd = some f ∧ ∀ lower < fd, s.mem.ofile p lower ≠ none := by
  obtain ⟨after, r, input, before, split, none, ⟨free, taken⟩, since⟩ := result_origin run result
  have reached : ((program Pid Inode Pipe).system Boot).Reach s := run.reachUnder fun _ _ => trivial
  exact ⟨⟨after, r, input, before, split, none, free, taken, since⟩, reserved_of_reach reached result⟩

set_option maxRecDepth 10000 in
theorem result_lowest_dups : ∃ path s, files.Run path s ∧ s.mem.ofile false 1 = some 0 ∧
    ∃ step ∈ path, step.1.mem.ofile false 1 = none ∧ step.1.mem.ofile false 0 ≠ none := by
  have computed : (files.trace dups [] boot).map (fun run => (run.2.pc false).result) = some (some (1, 0)) := by decide
  obtain ⟨⟨path, s⟩, reached, here⟩ := Option.map_eq_some_iff.mp computed
  have run := System.Run.of_trace (.start boot_boot) reached
  obtain ⟨⟨after, r, input, before, split, _, free, taken, _⟩, stored, _⟩ := result_lowest run here
  exact ⟨path, s, run, stored, (r, false, input), by simp [split], free, taken 0 (by decide)⟩

end
end DeviceProgramming.OpenFiles
