import DeviceProgramming.FileData.Views
import Mathlib.Tactic.SplitIfs

namespace DeviceProgramming.FileData

open OpenFiles (File)
open Transfers (Event Consecutive Faithful written moved)

section
variable {F Inode Pipe β α : Type} [DecidableEq F] [DecidableEq Inode]

/-- A part of a system call keeps the rules, and ends with what is wanted. -/
abbrev Runs (prog : Prog F Inode Pipe α) (post : α → View F Inode Pipe β → Prop) (v : View F Inode Pipe β) : Prop :=
  Calls.wp pre next post prog v

theorem runs_ask {c : Call F Inode Pipe} {rest : Answer c → Prog F Inode Pipe α} {post : α → View F Inode Pipe β → Prop}
    {v : View F Inode Pipe β} (allowed : pre v c) (then' : ∀ r v', next v c r v' → Runs (rest r) post v') :
    Runs (ask c >>= rest) post v :=
  Calls.wp_bind.mpr ⟨allowed, then'⟩

/-- Nothing is held, and every offset counts everything. -/
structure Rests (v : View F Inode Pipe β) : Prop where
  lock : ∀ ip, v.lock ip = false
  trans : v.trans = false
  due : ∀ f, v.due f = 0

/-- What a part of a system call keeps. -/
structure Keeps (v v' : View F Inode Pipe β) : Prop where
  file : v'.file = v.file
  before : v'.before = v.before

theorem addOff_runs {v : View F Inode Pipe β} {f : F} {r : ℤ} (held : v.lock (v.file f).ip = true)
    (due : (v.due f : ℤ) = max r 0) (bound : (v.off f).toNat + v.due f < 2 ^ 32) :
    Runs (addOff f r) (fun _ v' => ∃ off, v' = { v with off := off, due := Function.update v.due f 0 }) v := by
  unfold addOff
  split
  · refine runs_ask trivial fun file v' ⟨same, _, now⟩ => ?_
    subst same
    have count : (file.off + BitVec.ofInt 32 r).toNat = (v'.off f).toNat + v'.due f := by
      rw [now held, BitVec.toNat_add, BitVec.toNat_ofInt]
      omega
    exact ⟨⟨held, count⟩, fun _ v' moved => ⟨_, moved⟩⟩
  · have none : v.due f = 0 := by omega
    exact ⟨v.off, by rw [← none, Function.update_eq_self]⟩

/-- The lock of an inode is taken to move bytes at the offset of a file. -/
theorem lock_runs {v : View F Inode Pipe β} {f : F} {ip : Inode} (free : ∀ x, v.lock x = false)
    (home : (v.file f).ip = ip) {rest : File Inode Pipe → Prog F Inode Pipe α} {post : α → View F Inode Pipe β → Prop}
    (moves : ∀ off file, file.off = off f →
      Runs (rest file) post { v with lock := Function.update v.lock ip true, off := off }) :
    Runs (ask (.ilock ip) >>= fun _ => ask (.file f) >>= rest) post v := by
  refine runs_ask free fun _ v' ⟨off, locked⟩ => runs_ask trivial fun file v'' ⟨same, _, now⟩ => ?_
  subst same locked
  exact moves off file (now (by subst home; exact Function.update_self ..))

/-- `r` bytes have been moved under the lock of an inode, or none with an error. The
offset comes to count them, and the lock is given back. -/
theorem unlock_runs {v : View F Inode Pipe β} {f : F} {ip : Inode} (r : ℤ) (home : (v.file f).ip = ip)
    (held : v.lock = Function.update (fun _ => false) ip true) (due : v.due = Function.update (fun _ => 0) f r.toNat)
    (bound : (v.off f).toNat + r.toNat < 2 ^ 32) {rest : Prog F Inode Pipe α} {post : α → View F Inode Pipe β → Prop}
    (then' : ∀ off, Runs rest post { v with off := off, lock := fun _ => false, due := fun _ => 0 }) :
    Runs (addOff f r >>= fun _ => ask (.iunlock ip) >>= fun _ => rest) post v := by
  have here : v.lock ip = true := by rw [held, Function.update_self]
  have mine : v.due f = r.toNat := by rw [due, Function.update_self]
  have counted : Function.update v.due f 0 = fun _ => 0 := by
    rw [due, Function.update_idem]
    exact Function.update_eq_self f fun _ => 0
  have free : Function.update v.lock ip false = fun _ => false := by
    rw [held, Function.update_idem]
    exact Function.update_eq_self ip fun _ => false
  refine Calls.wp_bind.mpr (Calls.wp_mono ?_ (addOff_runs (home ▸ here) (by omega) (mine ▸ bound)))
  rintro _ _ ⟨off, rfl⟩
  refine runs_ask ⟨here, fun g => congrFun counted g⟩ fun _ v' ⟨off, unlocked⟩ => ?_
  subst unlocked
  simp only [counted, free]
  exact then' off

omit [DecidableEq F] [DecidableEq Inode] in
theorem Rests.update {v : View F Inode Pipe β} (rests : Rests v) (off : F → BitVec 32) (user : ℤ → β) (did : List β) :
    Rests { v with off := off, lock := fun _ => false, due := fun _ => 0, user := user, did := did } :=
  ⟨fun _ => rfl, rests.trans, fun _ => rfl⟩

theorem readInode_runs {v : View F Inode Pipe β} (rests : Rests v) {f : F} {ip : Inode} (home : (v.file f).ip = ip)
    (readable : (v.file f).readable = true) (addr n : ℤ) :
    Runs (readInode f ip addr n) (fun r v' => Keeps v v' ∧ Rests v' ∧ (r = -1 ∧ v'.user = v.user ∧ v'.did = v.did ∨
      ∃ bytes : List β, r = bytes.length ∧ (0 ≤ n → r ≤ n) ∧ v'.user = store v.user addr bytes ∧
        v'.did = v.did ++ bytes)) v := by
  have free : v.lock = fun _ => false := funext rests.lock
  have counted : v.due = fun _ => 0 := funext rests.due
  refine lock_runs rests.lock home fun off file now => ?_
  have held : (Function.update v.lock ip true) ip = true := Function.update_self ..
  refine runs_ask ⟨readable, home, held, now, rests.due f⟩ fun r v' got => ?_
  rcases got with ⟨rfl, same⟩ | ⟨bytes, rfl, few, inside, same⟩
  · subst same
    refine unlock_runs (-1) ?_ ?_ ?_ ?_ fun off' => ?_
    · exact home
    · exact congrArg (Function.update · ip true) free
    · exact counted.trans (Function.update_eq_self f fun _ => 0).symm
    · exact (off f).isLt
    · exact ⟨⟨rfl, rfl⟩, rests.update off' _ _, Or.inl ⟨rfl, rfl, rfl⟩⟩
  · subst same
    rw [now] at inside
    refine unlock_runs bytes.length ?_ ?_ ?_ ?_ fun off' => ?_
    · exact home
    · exact congrArg (Function.update · ip true) free
    · exact congrArg (Function.update · f bytes.length) counted
    · exact inside
    · refine ⟨⟨rfl, rfl⟩, rests.update off' _ _, Or.inr ⟨bytes, rfl, fun positive => ?_, rfl, rfl⟩⟩
      rw [BitVec.toNat_ofInt] at few
      omega

/-- A turn of the loop of `filewrite` writes all its bytes or none. -/
theorem writeInode_runs {v : View F Inode Pipe β} (rests : Rests v) {f : F} {ip : Inode} (home : (v.file f).ip = ip)
    (writable : (v.file f).writable = true) (addr : ℤ) {n1 : ℤ} (positive : 0 < n1)
    (small : n1 ≤ OpenFiles.Memory.writeMax) :
    Runs (writeInode f ip addr n1) (fun r v' => Keeps v v' ∧ Rests v' ∧ v'.user = v.user ∧
      (r = -1 ∧ v'.did = v.did ∨ r = n1 ∧ v'.did = v.did ++ cells v.user addr (addr + n1))) v := by
  have free : v.lock = fun _ => false := funext rests.lock
  have counted : v.due = fun _ => 0 := funext rests.due
  have size : ((BitVec.ofInt 32 n1).toNat : ℤ) = n1 := by
    have bound : OpenFiles.Memory.writeMax = 1536 := rfl
    rw [BitVec.toNat_ofInt]
    omega
  refine runs_ask ⟨rests.trans, rests.lock⟩ fun _ v' begun => ?_
  subst begun
  refine lock_runs (v := { v with trans := true }) rests.lock home fun off file now => ?_
  have held : (Function.update v.lock ip true) ip = true := Function.update_self ..
  refine runs_ask ⟨writable, home, held, rfl, now, rests.due f⟩ fun r v' wrote => ?_
  rcases wrote with ⟨rfl, same⟩ | ⟨rfl, inside, same⟩
  · subst same
    refine unlock_runs (-1) ?_ ?_ ?_ ?_ fun off' => ?_
    · exact home
    · exact congrArg (Function.update · ip true) free
    · exact counted.trans (Function.update_eq_self f fun _ => 0).symm
    · exact (off f).isLt
    · refine runs_ask ⟨rfl, fun _ => rfl⟩ fun _ v' ended => ?_
      subst ended
      exact ⟨⟨rfl, rfl⟩, ⟨fun _ => rfl, rfl, fun _ => rfl⟩, rfl, Or.inl ⟨rfl, rfl⟩⟩
  · subst same
    rw [now] at inside
    refine unlock_runs (BitVec.ofInt 32 n1).toNat ?_ ?_ ?_ ?_ fun off' => ?_
    · exact home
    · exact congrArg (Function.update · ip true) free
    · exact congrArg (Function.update · f (BitVec.ofInt 32 n1).toNat) counted
    · exact inside
    · refine runs_ask ⟨rfl, fun _ => rfl⟩ fun _ v' ended => ?_
      subst ended
      rw [size]
      exact ⟨⟨rfl, rfl⟩, ⟨fun _ => rfl, rfl, fun _ => rfl⟩, rfl, Or.inr ⟨rfl, rfl⟩⟩

omit [DecidableEq F] [DecidableEq Inode] in
theorem Keeps.trans {v v' v'' : View F Inode Pipe β} (first : Keeps v v') (second : Keeps v' v'') : Keeps v v'' :=
  ⟨second.file.trans first.file, second.before.trans first.before⟩

/-- All bytes from an address on are written, or with an error only the first ones. -/
def Wrote (addr n : ℤ) (user : ℤ → β) (did : List β) (r : ℤ) : Prop :=
  ∃ k, did = cells user addr (addr + k) ∧ (r = n ∧ k = n ∨ r = -1 ∧ (k < n ∨ k = 0))

/-- The loop of `filewrite` when `i` bytes have been written before. -/
theorem filewriteLoop_runs {f : F} {ip : Inode} {addr n i : ℤ} {turns : ℕ} {v : View F Inode Pipe β}
    (rests : Rests v) (home : (v.file f).ip = ip) (writable : (v.file f).writable = true) (enough : n - i ≤ turns)
    (positive : 0 ≤ i) (range : i = 0 ∨ i ≤ n) (wrote : v.did = cells v.user addr (addr + i)) :
    Runs (filewriteLoop f ip addr n turns i)
      (fun r v' => Keeps v v' ∧ Rests v' ∧ v'.user = v.user ∧ Wrote addr n v.user v'.did r) v := by
  have done (v : View F Inode Pipe β) (rests : Rests v) {i : ℤ} (range : i = 0 ∨ i ≤ n) (last : ¬ i < n)
      (wrote : v.did = cells v.user addr (addr + i)) :
      Runs (pure (if i = n then n else -1) : Prog F Inode Pipe ℤ)
        (fun r v' => Keeps v v' ∧ Rests v' ∧ v'.user = v.user ∧ Wrote addr n v.user v'.did r) v := by
    refine ⟨⟨rfl, rfl⟩, rests, rfl, i, wrote, ?_⟩
    split
    · exact Or.inl ⟨rfl, ‹_›⟩
    · exact Or.inr ⟨rfl, by omega⟩
  induction turns generalizing i v with
  | zero =>
    have last : ¬ i < n := by omega
    rw [filewriteLoop, if_neg last]
    exact done v rests range last wrote
  | succ turns ih =>
    rw [filewriteLoop]
    split
    · rename_i more
      have bound : OpenFiles.Memory.writeMax = 1536 := rfl
      dsimp only
      generalize chunk : (if n - i > OpenFiles.Memory.writeMax then OpenFiles.Memory.writeMax else n - i) = n1
      have size : 0 < n1 ∧ n1 ≤ OpenFiles.Memory.writeMax ∧ n1 ≤ n - i := by
        rw [← chunk]
        split <;> omega
      obtain ⟨some', small, rest⟩ := size
      refine Calls.wp_bind.mpr (Calls.wp_mono ?_ (writeInode_runs rests home writable (addr + i) some' small))
      rintro r v' ⟨keeps, rests', user, ⟨rfl, did⟩ | ⟨rfl, did⟩⟩
      · rw [if_pos (by decide), if_neg (by omega)]
        exact ⟨keeps, rests', user, i, did.trans wrote, Or.inr ⟨rfl, Or.inl more⟩⟩
      · rw [if_neg (by omega), if_neg (not_not.mpr rfl)]
        have wrote' : v'.did = cells v'.user addr (addr + (i + r)) := by
          rw [did, wrote, user, ← add_assoc]
          exact (cells_append (by omega) (by omega)).symm
        refine Calls.wp_mono ?_ (ih rests' (keeps.file ▸ home) (keeps.file ▸ writable) (by omega) (by omega)
          (Or.inr (by omega)) wrote')
        rintro _ w ⟨kept, rests'', same, all⟩
        exact ⟨keeps.trans kept, rests'', same.trans user, user ▸ all⟩
    · exact done v rests range ‹_› wrote

/-- What a system call has done to the memory of its process and with which bytes, when
it ends with a result. -/
def Outcome (before user : ℤ → β) (did : List β) : SysCall F → ℤ → Prop
  | .read (some (_, addr, n)), r =>
    user = store before addr did ∧ (r = -1 ∧ did = [] ∨ r = did.length ∧ (0 ≤ n → r ≤ n))
  | .write (some (_, addr, n)), r => user = before ∧ Wrote addr n before did r
  | .read none, r | .write none, r => r = -1 ∧ did = [] ∧ user = before

/-- Every file is that of an inode or a pipe. -/
def Typed (v : View F Inode Pipe β) : Prop := ∀ f, (v.file f).type ≠ .none

def Over (last : SysCall F × ℤ) (v : View F Inode Pipe β) : Prop :=
  Rests v ∧ Typed v ∧ Outcome v.before v.user v.did last.1 last.2

theorem fileread_runs {v : View F Inode Pipe β} (rests : Rests v) (typed : Typed v) (new : v.did = [])
    (same : v.user = v.before) (f : F) (addr n : ℤ) :
    Runs (fileread f addr n)
      (fun r v' => Keeps v v' ∧ Rests v' ∧ Outcome v'.before v'.user v'.did (.read (some (f, addr, n))) r) v := by
  refine runs_ask trivial fun file v' ⟨here, static, _⟩ => ?_
  subst here
  have unmoved : v'.user = store v'.before addr v'.did := by
    rw [new, same]
    rfl
  split
  · exact ⟨⟨rfl, rfl⟩, rests, unmoved, Or.inl ⟨rfl, new⟩⟩
  · rename_i readable
    split
    · refine ⟨trivial, fun r w moved => ?_⟩
      rcases moved with ⟨rfl, rfl⟩ | ⟨bytes, rfl, few, rfl⟩
      · exact ⟨⟨rfl, rfl⟩, rests, unmoved, Or.inl ⟨rfl, new⟩⟩
      · rw [new, List.nil_append]
        refine ⟨⟨rfl, rfl⟩, ⟨rests.lock, rests.trans, rests.due⟩, congrArg (store · addr bytes) same,
          Or.inr ⟨rfl, fun positive => ?_⟩⟩
        rcases few with few | rfl
        · exact few
        · exact positive
    · refine Calls.wp_mono ?_ (readInode_runs rests (by rw [← static]; rfl)
        (by rw [← static]; exact Bool.eq_true_of_not_eq_false readable) addr n)
      rintro r w ⟨keeps, rests', ⟨rfl, user, did⟩ | ⟨bytes, rfl, few, user, did⟩⟩
      · exact ⟨keeps, rests', by rw [user, did, keeps.before, unmoved], Or.inl ⟨rfl, did.trans new⟩⟩
      · rw [new, List.nil_append] at did
        refine ⟨keeps, rests', ?_, Or.inr ⟨by rw [did], few⟩⟩
        rw [user, did, keeps.before, same]
    · rename_i none
      refine absurd ?_ (typed f)
      rw [← static]
      exact none

theorem filewrite_runs {v : View F Inode Pipe β} (rests : Rests v) (typed : Typed v) (new : v.did = [])
    (same : v.user = v.before) (f : F) (addr n : ℤ) :
    Runs (filewrite f addr n)
      (fun r v' => Keeps v v' ∧ Rests v' ∧ Outcome v'.before v'.user v'.did (.write (some (f, addr, n))) r) v := by
  refine runs_ask trivial fun file v' ⟨here, static, _⟩ => ?_
  subst here
  have nothing : v'.did = cells v'.user addr (addr + 0) := by
    rw [new, cells_nil (by omega)]
  split
  · exact ⟨⟨rfl, rfl⟩, rests, same, 0, same ▸ nothing, Or.inr ⟨rfl, Or.inr rfl⟩⟩
  · rename_i writable
    split
    · refine ⟨trivial, fun r w moved => ?_⟩
      obtain ⟨k, count, rfl⟩ := moved
      rw [new, List.nil_append]
      refine ⟨⟨rfl, rfl⟩, ⟨rests.lock, rests.trans, rests.due⟩, same, ?_⟩
      rcases count with ⟨rfl, few⟩ | ⟨all, rfl⟩
      · exact ⟨k, by rw [same], Or.inr ⟨rfl, Or.inl few⟩⟩
      · refine ⟨n, ?_, Or.inl ⟨all, rfl⟩⟩
        have count : (addr + n.toNat - addr).toNat = (addr + n - addr).toNat := by omega
        rw [same, cells, cells, count]
    · refine Calls.wp_mono ?_ (filewriteLoop_runs rests (by rw [← static]; rfl)
        (by rw [← static]; exact Bool.eq_true_of_not_eq_false writable) (by omega) le_rfl (Or.inl rfl) nothing)
      rintro r w ⟨keeps, rests', user, wrote⟩
      rw [same, ← keeps.before] at wrote
      exact ⟨keeps, rests', by rw [user, same, keeps.before], wrote⟩
    · rename_i none
      refine absurd ?_ (typed f)
      rw [← static]
      exact none

theorem syscall_runs {v : View F Inode Pipe β} {last : SysCall F × ℤ} (ended : Over last v) (call : SysCall F) :
    Runs (syscall call) Over v := by
  obtain ⟨rests, typed, _⟩ := ended
  refine runs_ask trivial fun _ v' begun => ?_
  subst begun
  have rests' : Rests { v with before := v.user, did := [] } := ⟨rests.lock, rests.trans, rests.due⟩
  have finish {prog : Prog F Inode Pipe ℤ}
      (run : Runs prog (fun r v' => Keeps { v with before := v.user, did := [] } v' ∧ Rests v' ∧
        Outcome v'.before v'.user v'.did call r) { v with before := v.user, did := [] }) :
      Runs (prog >>= fun result => return (call, result)) Over { v with before := v.user, did := [] } := by
    refine Calls.wp_bind.mpr (Calls.wp_mono ?_ run)
    rintro r w ⟨keeps, rest, outcome⟩
    refine ⟨rest, fun f => ?_, outcome⟩
    rw [keeps.file]
    exact typed f
  cases call with
  | read args =>
    cases args with
    | none => exact ⟨rests', typed, rfl, rfl, rfl⟩
    | some args => exact finish (fileread_runs rests' typed rfl rfl args.1 args.2.1 args.2.2)
  | write args =>
    cases args with
    | none => exact ⟨rests', typed, rfl, rfl, rfl⟩
    | some args => exact finish (filewrite_runs rests' typed rfl rfl args.1 args.2.1 args.2.2)

end

section
variable {Pid F Inode Pipe β Ext : Type} [DecidableEq Pid] [DecidableEq F] [DecidableEq Inode]
  {fs : Functions Pid Inode Pipe β Ext} {first s : State Pid F Inode Pipe β} {p : Pid} {f : F} {ip : Inode}

/-- Open files that nobody uses at the moment. -/
structure Idle (s : State Pid F Inode Pipe β) : Prop where
  rest : ∀ p, ∃ last, s.rest p = .ret last ∧ Outcome (s.mem.before p) (s.mem.user p) (s.mem.did p) last.1 last.2
  typed : ∀ f, (s.mem.file f).type ≠ .none
  size : ∀ ip, (s.mem.data ip).length < 2 ^ 32
  lock : ∀ ip, s.mem.lock ip = none
  trans : s.mem.trans = none
  events : ∀ ip, s.mem.events ip = []
  due : ∀ f, s.mem.due f = 0

/-- The states of the runs of processes that read and write files. -/
structure Reach (fs : Functions Pid Inode Pipe β Ext) (first s : State Pid F Inode Pipe β) : Prop where
  idle : Idle first
  run : ((kernel fs F).system (· = first)).Reach s

omit [DecidableEq Pid] [DecidableEq Inode] in
theorem Idle.kept (idle : Idle s) : Kept s.mem.file s.mem.data s.mem where
  same _ := rfl
  offset f := by rw [idle.events, idle.due]; rfl
  idle f _ := idle.due f
  consecutive ip := by rw [idle.events]; trivial
  faithful ip := by rw [idle.events]; trivial
  data ip := by rw [idle.events]; rfl
  size := idle.size
  through ip e member := by
    rw [idle.events] at member
    cases member

theorem Idle.sound (documented : Documented fs) (idle : Idle s) :
    (views documented s.mem.file s.mem.data).Sound Over s := by
  refine ⟨idle.kept, fun p => ?_⟩
  obtain ⟨last, here, outcome⟩ := idle.rest p
  have unlocked (ip : Inode) : s.mem.lock ip ≠ some p := by
    rw [idle.lock]
    nofun
  rw [here]
  refine ⟨⟨fun ip => decide_eq_false (unlocked ip), decide_eq_false ?_, fun f => if_neg (unlocked _)⟩, idle.typed,
    outcome⟩
  rw [idle.trans]
  nofun

theorem Reach.sound (documented : Documented fs) (reach : Reach fs first s) :
    (views documented first.mem.file first.mem.data).Sound Over s :=
  Service.Views.sound_of_reach _ (fun s (same : s = first) => by
      subst same
      exact reach.idle.sound documented)
    (fun p input prog last v begun ended => by
      cases input with
      | enter call =>
        cases begun
        exact syscall_runs ended call
      | go => cases begun)
    (reach.run.mono fun _ _ _ _ _ _ => trivial)

theorem Reach.kept (documented : Documented fs) (reach : Reach fs first s) :
    Kept first.mem.file first.mem.data s.mem :=
  (reach.sound documented).1

end

section

/-- Inodes in the memory, no longer than `maxSize`; nobody else uses the pipes. -/
def ram {Pid Inode Pipe β : Type} [DecidableEq Pid] [DecidableEq Inode] (maxSize : BitVec 32) :
    Functions Pid Inode Pipe β Unit where
  beginTrans p _ s := if s.trans = none then some { s with trans := some p } else none
  commitTrans _ _ s := some { s with trans := none }
  ilock p ip _ s := if s.lock ip = none then some (s.setLock ip (some p)) else none
  iunlock _ ip _ s := some (s.setLock ip none)
  readi p ip addr off n _ s :=
    let bytes := ((s.data ip).drop off.toNat).take n.toNat
    if (s.data ip).length < off.toNat ∨ off + n < off then some (-1, s)
    else some (bytes.length, s.give p addr bytes)
  writei p ip addr off n _ s :=
    if (s.data ip).length < off.toNat ∨ off + n < off ∨ maxSize < off + n then some (-1, s)
    else some (n.toNat, s.put ip off.toNat (cells (s.user p) addr (addr + n.toNat)))
  piperead _ _ _ _ _ s := some (-1, s)
  pipewrite _ _ _ n _ s := if 0 < n then some ((-1, 0), s) else some ((n, 0), s)

theorem documented_ram {Pid Inode Pipe β : Type} [DecidableEq Pid] [DecidableEq Inode] (maxSize : BitVec 32) :
    Documented (ram maxSize : Functions Pid Inode Pipe β Unit) where
  beginTrans begun := by
    obtain ⟨free, same⟩ := Option.ite_none_right_eq_some.mp begun
    exact ⟨free, (Option.some.inj same).symm⟩
  commitTrans _ done := (Option.some.inj done).symm
  ilock locked := by
    obtain ⟨free, same⟩ := Option.ite_none_right_eq_some.mp locked
    exact ⟨free, (Option.some.inj same).symm⟩
  iunlock _ unlocked := (Option.some.inj unlocked).symm
  readi _ read := by
    simp only [ram] at read
    split at read
    · cases read
      exact Or.inl ⟨rfl, rfl⟩
    · rename_i inside
      cases read
      exact Or.inr ⟨Nat.le_of_not_lt (not_or.mp inside).1, _, rfl, rfl, rfl⟩
  writei _ _ wrote := by
    simp only [ram] at wrote
    split at wrote
    · cases wrote
      exact Or.inl ⟨rfl, rfl⟩
    · rename_i inside
      cases wrote
      simp only [not_or, BitVec.lt_def, BitVec.toNat_add] at inside
      exact Or.inr ⟨by omega, by omega, rfl, rfl⟩
  piperead read := by
    cases read
    exact Or.inl ⟨rfl, rfl⟩
  pipewrite {_ _ _ n _ _ _ _ _} wrote := by
    simp only [ram] at wrote
    split at wrote <;> cases wrote
    · exact ⟨rfl, Or.inl ⟨rfl, by omega⟩⟩
    · exact ⟨rfl, Or.inr ⟨rfl, by omega⟩⟩

/-- Two processes and two files of one inode with four bytes: `true` is read from
the begin, and `false` may be written at the end. -/
def shared (writes : Bool) : State Bool Bool Unit Unit ℕ where
  mem := {
    file f := ⟨.inode, 1, f, !f && writes, (), (), if f then 0 else 4⟩
    data _ := [10, 11, 12, 13]
    user _ _ := 7
    lock _ := none
    trans := none
    events _ := []
    due _ := 0
    before _ _ := 7
    did _ := [] }
  rest _ := .ret (.read none, -1)

abbrev small (writes : Bool) :=
  (kernel (ram 100 : Functions Bool Unit Unit ℕ Unit) Bool).system (· = shared writes)

theorem shared_idle (writes : Bool) : Idle (shared writes) where
  rest _ := ⟨_, rfl, rfl, rfl, rfl⟩
  typed f := by cases f <;> nofun
  size _ := by
    change 4 < 2 ^ 32
    decide
  lock _ := rfl
  trans := rfl
  events _ := rfl
  due _ := rfl

theorem Reach.of_shared {writes : Bool} {s : State Bool Bool Unit Unit ℕ} {labels : List (Bool × Input Bool Unit)}
    (reached : (small writes).run labels (shared writes) = some s) : Reach (ram 100) (shared writes) s :=
  ⟨shared_idle writes, .of_run (.start rfl) reached⟩

/-- Both processes read two bytes through the same file, one after the other at the lock. -/
def reading : List (Bool × Input Bool Unit) :=
  schedule [(false, .enter (.read (some (true, 0, 2))), 1), (true, .enter (.read (some (true, 0, 2))), 1),
    (false, .go (), 3), (true, .go (), 2), (false, .go (), 5), (true, .go (), 6)]

theorem reading_result : ∃ s, (small false).run reading (shared false) = some s ∧
    s.rest true = .ret (.read (some (true, 0, 2)), 2) := by
  have computed : ((small false).run reading (shared false)).map (fun s => (s.rest true).result) =
      some (some (.read (some (true, 0, 2)), 2)) := by decide
  obtain ⟨s, reached, ended⟩ := Option.map_eq_some_iff.mp computed
  exact ⟨s, reached, Calls.result_eq_some.mp ended⟩

/-- Process `false` appends two bytes. -/
def appending : List (Bool × Input Bool Unit) :=
  schedule [(false, .enter (.write (some (false, 0, 2))), 1), (false, .go (), 10)]

theorem appending_result : ∃ s, (small true).run appending (shared true) = some s ∧
    s.rest false = .ret (.write (some (false, 0, 2)), 2) := by
  have computed : ((small true).run appending (shared true)).map (fun s => (s.rest false).result) =
      some (some (.write (some (false, 0, 2)), 2)) := by decide
  obtain ⟨s, reached, ended⟩ := Option.map_eq_some_iff.mp computed
  exact ⟨s, reached, Calls.result_eq_some.mp ended⟩

end

section
variable {Pid F Inode Pipe β Ext : Type} [DecidableEq Pid] [DecidableEq F] [DecidableEq Inode]
  {fs : Functions Pid Inode Pipe β Ext} {first s : State Pid F Inode Pipe β} {p : Pid} {f : F} {ip : Inode}

/-- Processes that share an open file get and write disjoint pieces one behind the
other, whatever the interleaving: every transfer through a file ends before the next
one begins, and between the calls the offset counts all bytes that have gone through. -/
theorem transfers_disjoint (documented : Documented fs) (reach : Reach fs first s) (ip : Inode) :
    ((s.mem.events ip).Pairwise fun later e => later.file = e.file → e.off + e.bytes.length ≤ later.off) ∧
      ∀ f, (first.mem.file f).ip = ip → s.mem.lock ip = none →
        (s.mem.file f).off.toNat = (first.mem.file f).off.toNat + moved f (s.mem.events ip) := by
  refine ⟨((reach.kept documented).consecutive ip).disjoint, fun f home free => ?_⟩
  subst home
  have counted := (reach.kept documented).offset f
  rwa [(reach.kept documented).idle f free, Nat.add_zero] at counted

theorem transfers_disjoint_reading : ∃ s, (small false).run reading (shared false) = some s ∧
    (s.mem.events ()).Pairwise fun later e => later.file = e.file → e.off + e.bytes.length ≤ later.off := by
  obtain ⟨s, reached, _⟩ := reading_result
  exact ⟨s, reached, (transfers_disjoint (documented_ram 100) (.of_shared reached) ()).1⟩

/-- While no file of an inode can be written, all processes together read every byte
once through a file: what has come through it is one piece of the data. -/
theorem read_once (documented : Documented fs) (reach : Reach fs first s)
    (readOnly : ∀ g, (first.mem.file g).ip = (first.mem.file f).ip → (first.mem.file g).writable = false) :
    Transfers.bytes f (s.mem.events (first.mem.file f).ip) =
      ((first.mem.data (first.mem.file f).ip).drop (first.mem.file f).off.toNat).take
        (moved f (s.mem.events (first.mem.file f).ip)) := by
  refine ((reach.kept documented).consecutive _).bytes_eq ((reach.kept documented).faithful _) fun e member => ?_
  obtain ⟨home, right⟩ := (reach.kept documented).through _ e member
  by_contra write
  rw [Bool.not_eq_false] at write
  rw [if_pos write, readOnly e.file home] at right
  cases right

theorem read_once_reading : ∃ s, (small false).run reading (shared false) = some s ∧
    Transfers.bytes true (s.mem.events ()) = [10, 11, 12, 13].take (moved true (s.mem.events ())) := by
  obtain ⟨s, reached, _⟩ := reading_result
  exact ⟨s, reached, read_once (f := true) (documented_ram 100) (.of_shared reached) fun g _ => by cases g <;> rfl⟩

/-- When only one file of an inode can be written, which begins at the end and is
not read, its data are the first data and then everything that any process has written,
in order and without gaps. -/
theorem appended (documented : Documented fs) (reach : Reach fs first s) (unread : (first.mem.file f).readable = false)
    (sole : ∀ g, (first.mem.file g).ip = (first.mem.file f).ip → (first.mem.file g).writable = true → g = f)
    (atEnd : (first.mem.file f).off.toNat = (first.mem.data (first.mem.file f).ip).length) :
    s.mem.data (first.mem.file f).ip =
      first.mem.data (first.mem.file f).ip ++ Transfers.bytes f (s.mem.events (first.mem.file f).ip) := by
  rw [(reach.kept documented).data]
  refine ((reach.kept documented).consecutive _).written_eq (fun e member => ⟨fun write => ?_, fun same => ?_⟩) atEnd
  · obtain ⟨home, right⟩ := (reach.kept documented).through _ e member
    rw [if_pos write] at right
    exact sole e.file home right
  · obtain ⟨_, right⟩ := (reach.kept documented).through _ e member
    by_contra read
    rw [if_neg read, same, unread] at right
    cases right

theorem appended_appending : ∃ s, (small true).run appending (shared true) = some s ∧
    s.mem.data () = [10, 11, 12, 13] ++ Transfers.bytes false (s.mem.events ()) := by
  obtain ⟨s, reached, _⟩ := appending_result
  exact ⟨s, reached, appended (f := false) (documented_ram 100) (.of_shared reached) rfl (by decide) rfl⟩

/-- A finished call has moved exactly the bytes that its result tells: `fileread` has put
the bytes that it got to the address and changed nothing else of its process, at most
as many as wanted, and `filewrite` has written all bytes of its process from the address on,
or with -1 only the first ones, and has changed nothing of its process. -/
theorem moved_of_ret (documented : Documented fs) (reach : Reach fs first s) {last : SysCall F × ℤ}
    (ended : s.rest p = .ret last) :
    Outcome (s.mem.before p) (s.mem.user p) (s.mem.did p) last.1 last.2 :=
  ((reach.sound documented).post_of_ret _ ended).2.2

theorem moved_of_ret_appending : ∃ s, (small true).run appending (shared true) = some s ∧
    Wrote 0 2 (s.mem.before false) (s.mem.did false) 2 := by
  obtain ⟨s, reached, ended⟩ := appending_result
  exact ⟨s, reached, (moved_of_ret (documented_ram 100) (.of_shared reached) ended).2⟩

/-- `fileread` and `filewrite` reach no panic, "short filewrite" included, move bytes
only under the lock of the inode and at the offset of the file, and leave no lock and no
transaction behind. -/
theorem calls_keep_rules (documented : Documented fs) (reach : Reach fs first s) (p : Pid) :
    (∀ c k, s.rest p = .call c k → pre (view p s.mem) c) ∧ (∀ text, s.rest p ≠ .panic text) ∧
      ∀ last, s.rest p = .ret last → (∀ ip, s.mem.lock ip ≠ some p) ∧ s.mem.trans ≠ some p := by
  have sound := reach.sound documented
  refine ⟨fun _ _ here => sound.pre_of_call _ here, fun text => sound.not_panic _ p text, fun last ended => ?_⟩
  obtain ⟨rests, _⟩ := sound.post_of_ret _ ended
  exact ⟨fun ip => of_decide_eq_false (rests.lock ip), of_decide_eq_false rests.trans⟩

theorem calls_keep_rules_appending : ∃ s, (small true).run appending (shared true) = some s ∧
    s.mem.trans ≠ some false := by
  obtain ⟨s, reached, ended⟩ := appending_result
  exact ⟨s, reached, ((calls_keep_rules (documented_ram 100) (.of_shared reached) false).2.2 _ ended).2⟩

/-- An inode of ten bytes, locked by the process that is going to read it. -/
def locked : Store Bool Unit ℕ where
  data _ := List.replicate 10 0
  user _ _ := 7
  lock _ := some false
  trans := none

end
end DeviceProgramming.FileData
