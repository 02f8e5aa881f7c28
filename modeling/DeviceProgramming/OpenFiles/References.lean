import DeviceProgramming.OpenFiles.Counting

namespace DeviceProgramming.OpenFiles

section
variable {Pid Inode Pipe : Type*} [Fintype Pid] {s : State Pid Inode Pipe} {p : Pid} {f : Slot}

namespace Inv

theorem owed_le (inv : Inv s) (p : Pid) (f : Slot) : (s.pc p).owed f ≤ descriptors (s.mem.ofile p) f := by
  by_cases uses : (s.pc p).uses = some f
  · have more := inv.used p f uses
    omega
  · rw [Pc.owed_eq_zero uses]
    omega

/-- A process that uses a file, or has it in hand, has a share of it. -/
theorem share_pos (inv : Inv s) (has : (s.pc p).uses = some f ∨ 1 ≤ (s.pc p).inHand f) : 1 ≤ share s p f := by
  have enough := inv.owed_le p f
  have nonneg := (s.pc p).inHand_nonneg f
  unfold share
  rcases has with uses | held
  · have more := inv.used p f uses
    omega
  · omega

theorem ref_pos (inv : Inv s) (has : (s.pc p).uses = some f ∨ 1 ≤ (s.pc p).inHand f) : 1 ≤ (s.mem.file f).ref :=
  (inv.share_pos has).trans (inv.counted.share_le p f)

omit [Fintype Pid] in
theorem has_of_fresh (fresh : (s.pc p).fresh = some f) : (s.pc p).uses = some f ∨ 1 ≤ (s.pc p).inHand f := by
  cases at' : s.pc p <;> rw [at'] at fresh <;> cases fresh
  case fileallocUnlock | openFd => exact Or.inr (one_self f).ge
  case openSet => exact Or.inl rfl

/-- A file that a process has a descriptor of has a type, unless the process is
opening it. -/
theorem typed_of_uses (inv : Inv s) (uses : (s.pc p).uses = some f) (done : (s.pc p).fresh = none) :
    (s.mem.file f).type ≠ .none := by
  intro none
  have one := inv.used p f uses
  have nonneg : 0 ≤ (s.pc p).owed f := by
    cases s.pc p
    case filedupLock g after | filedupRef g after =>
      cases after with
      | sysDup => exact one_nonneg g f
      | fork => exact le_rfl
    all_goals exact le_rfl
  have positive : 1 ≤ descriptors (s.mem.ofile p) f := by omega
  obtain ⟨fd, here⟩ := exists_descriptor positive
  rw [inv.typed p fd f here none] at done
  cases done

theorem not_panics (inv : Inv s) (text : String) : ¬ Panics s.mem (s.pc p) text := by
  generalize at' : s.pc p = pc
  intro panics
  cases panics with
  | filedup low =>
    have one := inv.ref_pos (p := p) (Or.inl (by rw [at']; rfl))
    omega
  | @fileclose f after low =>
    have one := inv.ref_pos (p := p) (f := f) (Or.inr (by
      rw [at']
      exact le_add_of_le_of_nonneg (one_self f).ge (after.inHand_nonneg f)))
    omega
  | fileread none | filewrite none =>
    exact inv.typed_of_uses (p := p) (by rw [at']; rfl) (by rw [at']; rfl) none

end Inv
end

variable {Pid Inode Pipe : Type*} [Fintype Pid] [DecidableEq Pid] [DecidableEq Inode] [DecidableEq Pipe]

section
variable {p : Pid} {pc next : Pc Pid Inode Pipe} {m m' : Memory Pid Inode Pipe} {f : Slot}

omit [Fintype Pid] in
/-- A process comes to use a file that it has a descriptor of. -/
theorem Effect.used (effect : Effect p m pc m' next)
    (used : ∀ g, pc.uses = some g → pc.owed g + 1 ≤ descriptors (m.ofile p) g) (now : next.uses = some f) :
    next.owed f + 1 ≤ descriptors (m'.ofile p) f := by
  cases effect
  case dup src fd g here lowest =>
    cases now
    have one := descriptors_pos here
    simp only [Memory.setOfile, Function.update_self, descriptors_store lowest.1, Pc.owed, one_self]
    omega
  case read fd g here | write fd g n here | fstat fd g here | fork child fd g here empty =>
    cases now
    have one := descriptors_pos here
    simp only [Pc.owed]
    omega
  case filedupRef g after live =>
    cases now
    have before := used f rfl
    cases after with
    | sysDup fd =>
      simp only [Pc.owed, one_self] at before ⊢
      change (0 : ℤ) + 1 ≤ descriptors (m.ofile p) f
      omega
    | fork child fd => exact before
  case openFdSome g ip omode fd lowest =>
    cases now
    simp only [Memory.setOfile, Function.update_self, descriptors_store lowest.1, Pc.owed, one_self]
    omega
  case filewriteLoop g n =>
    cases now
    exact used f rfl
  case panic text panics => exact used f now
  case short g n i m' moved =>
    cases now
    have same := ofile_offset moved
    change (0 : ℤ) + 1 ≤ descriptors (m'.ofile p) f
    rw [same]
    exact used f rfl
  case loopNext g n i r moved =>
    cases now
    rw [ofile_offset moved]
    exact used f rfl
  case filecloseGive ff after => simp at now
  all_goals cases now

omit [Fintype Pid] in
theorem Effect.fresh (effect : Effect p m pc m' next) (free : ∀ g, (m.file g).ref = 0 → (m.file g).type = .none)
    (fresh : ∀ g, pc.fresh = some g → (m.file g).type = .none ∧ (m.file g).ref = 1) (now : next.fresh = some f) :
    (m'.file f).type = .none ∧ (m'.file f).ref = 1 := by
  cases effect
  case fileallocTake k ip omode zero =>
    cases now
    simp [Memory.setFile, free f zero]
  case openFdSome g ip omode fd lowest =>
    cases now
    exact fresh f rfl
  case panic text panics => exact fresh f now
  case filecloseGive ff after => simp at now
  all_goals cases now

omit [Fintype Pid] in
theorem Effect.ends {rf wf : Slot} (effect : Effect p m pc m' (.pipeFd rf wf)) :
    (m'.file rf).type ≠ .none ∧ (m'.file wf).type ≠ .none := by
  generalize next : Pc.pipeFd rf wf = target at effect
  cases effect
  case pipeSome rf' wf' pipe differ read write run =>
    cases next
    rw [Memory.pipeAlloc, if_pos ⟨differ, read, write⟩] at run
    cases run
    simp [differ]
  case filecloseGive ff after => cases after <;> cases next
  case panic text panics =>
    subst next
    cases panics
  all_goals cases next

theorem of_update {ofile : Fd → Option Slot} {fd fd' : Fd} {x : Option Slot}
    (here : Function.update ofile fd x fd' = some f) : x = some f ∨ ofile fd' = some f := by
  by_cases same : fd' = fd
  · subst same
    rw [Function.update_self] at here
    exact Or.inl here
  · rw [Function.update_of_ne same] at here
    exact Or.inr here

omit [Fintype Pid] in
/-- The descriptors that a process has after a statement. -/
theorem Effect.stored (effect : Effect p m pc m' next) {fd : Fd} (here : m'.ofile p fd = some f) :
    m.ofile p fd = some f ∨ next.fresh = some f ∨ (∃ rf wf, pc = .pipeFd rf wf ∧ (f = rf ∨ f = wf)) ∨
      (pc = .user ∧ 1 ≤ descriptors (m.ofile p) f) ∨ ∃ child fd, pc = .forkStore f child fd := by
  cases effect
  case dup src at' g old lowest =>
    simp only [Memory.setOfile, Function.update_self] at here
    rcases of_update here with new | before
    · cases new
      exact Or.inr (Or.inr (Or.inr (Or.inl ⟨rfl, descriptors_pos old⟩)))
    · exact Or.inl before
  case close at' g old =>
    simp only [Memory.setOfile, Function.update_self] at here
    rcases of_update here with new | before
    · cases new
    · exact Or.inl before
  case forkStore g child at' empty =>
    by_cases own : p = child
    · subst own
      simp only [Memory.setOfile, Function.update_self] at here
      rcases of_update here with new | before
      · cases new
        exact Or.inr (Or.inr (Or.inr (Or.inr ⟨_, _, rfl⟩)))
      · exact Or.inl before
    · simp only [Memory.setOfile, Function.update_of_ne own] at here
      exact Or.inl here
  case openFdSome g ip omode at' lowest =>
    simp only [Memory.setOfile, Function.update_self] at here
    rcases of_update here with new | before
    · cases new
      exact Or.inr (Or.inl rfl)
    · exact Or.inl before
  case pipeFdSome rf wf fd0 fd1 lowest lowest' =>
    simp only [Memory.setOfile, Function.update_self] at here
    rcases of_update here with new | before
    · cases new
      exact Or.inr (Or.inr (Or.inl ⟨_, _, rfl, Or.inr rfl⟩))
    · rcases of_update before with new | before
      · cases new
        exact Or.inr (Or.inr (Or.inl ⟨_, _, rfl, Or.inl rfl⟩))
      · exact Or.inl before
  case filecloseGive ff after =>
    refine Or.inl ?_
    rw [← here]
    unfold Memory.filecloseGive
    split <;> rfl
  case pipeSome rf wf pipe differ read write run =>
    rw [Memory.pipeAlloc, if_pos ⟨differ, read, write⟩] at run
    cases run
    exact Or.inl here
  case short g n i m' moved =>
    have same := ofile_offset moved
    exact Or.inl (by rw [← here, ← same]; rfl)
  case fileread g r moved | loopRet g n i r moved | loopNext g n i r moved =>
    exact Or.inl (by rw [← here, ofile_offset moved])
  all_goals exact Or.inl here

omit [Fintype Pid] in
/-- What becomes of a file that `sys_open` has allocated. -/
theorem Effect.fresh_cases (effect : Effect p m pc m' next) (fresh : pc.fresh = some f) :
    next.fresh = some f ∨ (∃ ip omode, pc = .openFd f ip omode) ∨ (m'.file f).type = .inode := by
  cases effect
  case openFdNone g ip omode full =>
    cases fresh
    exact Or.inr (Or.inl ⟨ip, omode, rfl⟩)
  case openFdSome g ip omode fd lowest =>
    cases fresh
    exact Or.inl rfl
  case openSet fd g ip omode =>
    cases fresh
    refine Or.inr (Or.inr ?_)
    simp [Memory.openSet, Memory.setFile]
  case panic text panics => cases panics <;> cases fresh
  all_goals cases fresh

omit [Fintype Pid] in
theorem Effect.calm (effect : Effect p m pc m' next) (calm : ∀ text, ¬ Panics m pc text)
    (before : m.panicked = none) : m'.panicked = none ∨ m'.panicked = some "short filewrite" := by
  cases effect
  case panic text panics => exact absurd panics (calm text)
  case short => exact Or.inr rfl
  case filecloseGive ff after =>
    refine Or.inl ?_
    rw [← before]
    unfold Memory.filecloseGive
    split <;> rfl
  case pipeSome rf wf pipe differ read write run =>
    rw [Memory.pipeAlloc, if_pos ⟨differ, read, write⟩] at run
    cases run
    exact Or.inl before
  case fileread g r moved | loopRet g n i r moved | loopNext g n i r moved =>
    rcases moved with rfl | ⟨r, rfl⟩ <;> exact Or.inl before
  all_goals exact Or.inl before

end

section
variable {s s' : State Pid Inode Pipe} {p q : Pid} {f : Slot} {input : Input Pid Inode Pipe} {next : Pc Pid Inode Pipe}

omit [DecidableEq Inode] [DecidableEq Pipe] in
/-- A lock operation changes nothing that is counted. -/
theorem Inv.keep (inv : Inv s) (mem : s'.mem = s.mem) (moved : s'.pc = Function.update s.pc p next)
    (kept : Kept (s.pc p) next) : Inv s' := by
  have same : share s' = share s := by
    funext q f
    unfold share
    rw [mem]
    rcases update_cases moved q with ⟨rfl, now⟩ | ⟨_, now⟩ <;> rw [now]
    rw [kept.inHand, kept.owed]
  refine ⟨by rw [same, mem]; exact inv.counted, fun q f uses => ?_, by rw [mem]; exact inv.free, fun q f fresh => ?_,
    fun q fd f here none => ?_, fun q rf wf at' => ?_, by rw [mem]; exact inv.calm⟩
  · rw [mem]
    rcases update_cases moved q with ⟨rfl, now⟩ | ⟨_, now⟩ <;> rw [now] at uses ⊢
    · rw [kept.owed]
      exact inv.used q f (kept.uses f uses)
    · exact inv.used q f uses
  · rw [mem]
    rcases update_cases moved q with ⟨rfl, now⟩ | ⟨_, now⟩ <;> rw [now] at fresh
    · exact inv.fresh q f (kept.fresh ▸ fresh)
    · exact inv.fresh q f fresh
  · rw [mem] at here none
    have old := inv.typed q fd f here none
    rcases update_cases moved q with ⟨rfl, now⟩ | ⟨_, now⟩ <;> rw [now]
    · rw [kept.fresh]
      exact old
    · exact old
  · rw [mem]
    rcases update_cases moved q with ⟨rfl, now⟩ | ⟨_, now⟩ <;> rw [now] at at'
    · exact absurd at' (kept.ends rf wf)
    · exact inv.ends q rf wf at'

omit [Fintype Pid] in
/-- A process that does not move keeps what it has, or gets a descriptor from `fork`. -/
theorem descriptors_le (effect : Effect p s.mem (s.pc p) s'.mem next) (other : q ≠ p) (f : Slot) :
    descriptors (s.mem.ofile q) f ≤ descriptors (s'.mem.ofile q) f := by
  rcases effect.ofile_cases other with same | ⟨g, fd, _, empty, stored⟩
  · rw [same]
  · have more := descriptors_store (f := g) empty f
    have nonneg := one_nonneg g f
    rw [stored]
    omega

theorem used_step (inv : Inv s) (effect : Effect p s.mem (s.pc p) s'.mem next)
    (moved : s'.pc = Function.update s.pc p next) (uses : (s'.pc q).uses = some f) :
    (s'.pc q).owed f + 1 ≤ descriptors (s'.mem.ofile q) f := by
  rcases update_cases moved q with ⟨rfl, now⟩ | ⟨other, now⟩ <;> rw [now] at uses ⊢
  · exact effect.used (inv.used q) uses
  · have before := inv.used q f uses
    have more := descriptors_le effect other f
    omega

theorem share_nonneg_step (inv : Inv s) (effect : Effect p s.mem (s.pc p) s'.mem next)
    (moved : s'.pc = Function.update s.pc p next) (q : Pid) (f : Slot) : 0 ≤ share s' q f := by
  have held := (s'.pc q).inHand_nonneg f
  unfold share
  by_cases uses : (s'.pc q).uses = some f
  · have more := used_step inv effect moved uses
    omega
  · rw [Pc.owed_eq_zero uses]
    omega

theorem counted_step (inv : Inv s) (effect : Effect p s.mem (s.pc p) s'.mem next)
    (moved : s'.pc = Function.update s.pc p next) : Counted (fun f => (s'.mem.file f).ref) (share s') := by
  have mine : s'.pc p = next := by rw [moved, Function.update_self]
  have theirs (q : Pid) (other : q ≠ p) : s'.pc q = s.pc q := by rw [moved, Function.update_of_ne other]
  have nonneg := share_nonneg_step inv effect moved
  by_cases fork : ∃ f child fd, s.pc p = .forkStore f child fd
  · -- The parent hands its new reference over to the child.
    obtain ⟨f, child, fd, at'⟩ := fork
    have stays := effect
    rw [at'] at stays
    obtain ⟨empty, mem, done⟩ : s.mem.ofile child fd = none ∧
        s'.mem = s.mem.setOfile child (Function.update (s.mem.ofile child) fd (some f)) ∧ next = .ret 0 := by
      generalize s'.mem = m' at stays
      cases stays with
      | forkStore empty => exact ⟨empty, rfl, rfl⟩
      | panic panics => cases panics
    have file : (fun f => (s'.mem.file f).ref) = fun f => (s.mem.file f).ref := by rw [mem]; rfl
    have gets (g : Slot) : (descriptors (s'.mem.ofile child) g : ℤ) = descriptors (s.mem.ofile child) g + one f g := by
      rw [mem]
      simp only [Memory.setOfile, Function.update_self]
      exact descriptors_store empty g
    rw [file]
    by_cases own : child = p
    · subst own
      refine inv.counted.move (a := child) (fun q other => ?_) (fun g => ?_) (nonneg child)
      · funext g
        have keeps : s'.mem.ofile q = s.mem.ofile q := by rw [mem]; exact Function.update_of_ne other ..
        rw [share, share, theirs q other, keeps]
      · rw [share, share, gets, mine, done, at']
        simp only [Pc.inHand, Pc.owed]
        ring
    · refine inv.counted.pass (a := p) (b := child) (Ne.symm own) (fun q other third => ?_) (fun g => ?_) (nonneg p)
        (nonneg child)
      · funext g
        have keeps : s'.mem.ofile q = s.mem.ofile q := by rw [mem]; exact Function.update_of_ne third ..
        rw [share, share, theirs q other, keeps]
      · have keeps : s'.mem.ofile p = s.mem.ofile p := by rw [mem]; exact Function.update_of_ne (Ne.symm own) ..
        simp only [share, gets, mine, done, at', keeps, theirs child own, Pc.inHand, Pc.owed]
        ring
  · have notFork : ∀ f child fd, s.pc p ≠ .forkStore f child fd := fun f child fd at' => fork ⟨f, child, fd, at'⟩
    refine inv.counted.move (a := p) (fun q other => ?_) (fun g => ?_) (nonneg p)
    · funext g
      rcases effect.ofile_cases other with keeps | ⟨f, fd, at', _⟩
      · rw [share, share, theirs q other, keeps]
      · exact absurd at' (notFork f q fd)
    · have balance := effect.share inv.not_panics notFork g
      rw [share, share, mine]
      exact balance

omit [Fintype Pid] [DecidableEq Pid] [DecidableEq Inode] [DecidableEq Pipe] in
/-- A descriptor is a share of its file. -/
theorem share_pos_of_used (used : (s.pc p).uses = some f → (s.pc p).owed f + 1 ≤ descriptors (s.mem.ofile p) f)
    (has : 1 ≤ descriptors (s.mem.ofile p) f ∨ 1 ≤ (s.pc p).inHand f) : 1 ≤ share s p f := by
  have nonneg := (s.pc p).inHand_nonneg f
  unfold share
  by_cases uses : (s.pc p).uses = some f
  · have more := used uses
    omega
  · rw [Pc.owed_eq_zero uses]
    omega

/-- A file that somebody has after a statement is not closed by it. -/
theorem ref_pos_step (inv : Inv s) (effect : Effect p s.mem (s.pc p) s'.mem next)
    (moved : s'.pc = Function.update s.pc p next)
    (has : 1 ≤ descriptors (s'.mem.ofile q) f ∨ 1 ≤ (s'.pc q).inHand f) : 1 ≤ (s'.mem.file f).ref :=
  (share_pos_of_used (used_step inv effect moved) has).trans ((counted_step inv effect moved).share_le q f)

theorem fresh_step (inv : Inv s) (effect : Effect p s.mem (s.pc p) s'.mem next)
    (moved : s'.pc = Function.update s.pc p next) (fresh : (s'.pc q).fresh = some f) :
    (s'.mem.file f).type = .none ∧ (s'.mem.file f).ref = 1 := by
  rcases update_cases moved q with ⟨rfl, now⟩ | ⟨other, now⟩ <;> rw [now] at fresh
  · exact effect.fresh inv.free (inv.fresh q) fresh
  · have before := inv.fresh q f fresh
    have theirs := inv.share_pos (Inv.has_of_fresh fresh)
    have both := inv.counted.two_le other f
    rcases effect.file_cases f with same | free | uses | held
    · rwa [same]
    · omega
    · have mine := inv.share_pos (Or.inl uses)
      omega
    · have mine := inv.share_pos (Or.inr held)
      omega

theorem typed_step (inv : Inv s) (effect : Effect p s.mem (s.pc p) s'.mem next)
    (moved : s'.pc = Function.update s.pc p next) {fd : Fd} (here : s'.mem.ofile q fd = some f)
    (none : (s'.mem.file f).type = .none) : (s'.pc q).fresh = some f := by
  have live := ref_pos_step inv effect moved (Or.inl (by exact_mod_cast descriptors_pos here))
  have before : (s.mem.file f).type = .none := by
    rcases effect.type_cases f none with old | closed
    · exact old
    · omega
  rcases update_cases moved q with ⟨rfl, now⟩ | ⟨other, now⟩ <;> rw [now]
  · rcases effect.stored here with old | fresh | ⟨rf, wf, at', same⟩ | ⟨at', some'⟩ | ⟨child, fd', at'⟩
    · have fresh := inv.typed q fd f old before
      rcases effect.fresh_cases fresh with still | ⟨ip, omode, at'⟩ | inode
      · exact still
      · -- The process that is about to store the descriptor has the whole count in hand.
        have one := (inv.fresh q f fresh).2
        have all := inv.counted.share_le q f
        have stored := descriptors_pos old
        simp only [share, at', Pc.inHand, Pc.owed, one_self] at all
        omega
      · rw [none] at inode
        cases inode
    · exact fresh
    · have ends := inv.ends q rf wf at'
      rcases same with rfl | rfl
      · exact absurd before ends.1
      · exact absurd before ends.2
    · obtain ⟨fd', old⟩ := exists_descriptor some'
      have fresh := inv.typed q fd' f old before
      rw [at'] at fresh
      cases fresh
    · exact absurd before (inv.typed_of_uses (by rw [at']; rfl) (by rw [at']; rfl))
  · rcases effect.ofile_cases other with same | ⟨g, fd', at', empty, stored⟩
    · rw [same] at here
      exact inv.typed q fd f here before
    · rw [stored] at here
      rcases of_update here with new | old
      · cases new
        exact absurd before (inv.typed_of_uses (by rw [at']; rfl) (by rw [at']; rfl))
      · exact inv.typed q fd f old before

theorem ends_step (inv : Inv s) (effect : Effect p s.mem (s.pc p) s'.mem next)
    (moved : s'.pc = Function.update s.pc p next) {rf wf : Slot} (at' : s'.pc q = .pipeFd rf wf) :
    (s'.mem.file rf).type ≠ .none ∧ (s'.mem.file wf).type ≠ .none := by
  have held (f : Slot) : (s'.pc q).inHand f = one rf f + one wf f := by rw [at']; rfl
  have live (f : Slot) (own : 1 ≤ one rf f + one wf f) : 1 ≤ (s'.mem.file f).ref :=
    ref_pos_step inv effect moved (q := q) (Or.inr (by rwa [held]))
  have atRead := live rf (le_add_of_le_of_nonneg (one_self rf).ge (one_nonneg wf rf))
  have atWrite := live wf (le_add_of_nonneg_of_le (one_nonneg rf wf) (one_self wf).ge)
  rcases update_cases moved q with ⟨rfl, now⟩ | ⟨other, now⟩ <;> rw [now] at at'
  · subst at'
    exact effect.ends
  · have before := inv.ends q rf wf at'
    refine ⟨fun none => ?_, fun none => ?_⟩
    · rcases effect.type_cases rf none with old | closed
      · exact before.1 old
      · omega
    · rcases effect.type_cases wf none with old | closed
      · exact before.2 old
      · omega

theorem Inv.step (inv : Inv s) (live : s.mem.panicked = none) (effect : Effect p s.mem (s.pc p) s'.mem next)
    (moved : s'.pc = Function.update s.pc p next) : Inv s' where
  counted := counted_step inv effect moved
  used _ _ uses := used_step inv effect moved uses
  free f zero := effect.free f (inv.free f) (fun uses => inv.ref_pos (Or.inl uses)) zero
  fresh _ _ fresh := fresh_step inv effect moved fresh
  typed _ _ _ here none := typed_step inv effect moved here none
  ends _ _ _ at' := ends_step inv effect moved at'
  calm := effect.calm inv.not_panics live

omit [DecidableEq Pid] [DecidableEq Inode] [DecidableEq Pipe] in
theorem inv_boot (boot : Boot s) : Inv s := by
  have at' (q : Pid) : s.pc q = .user := Threads.pc_of_run (boot.thread q)
  have empty (q : Pid) (f : Slot) : descriptors (s.mem.ofile q) f = 0 :=
    countAt_eq_zero.mpr fun fd => by simp [boot.ofile q fd]
  refine ⟨.start boot.ref fun q f => ?_, fun q f uses => ?_, fun f _ => boot.type f, fun q f fresh => ?_,
    fun q fd f here => ?_, fun q rf wf here => ?_, Or.inl boot.panicked⟩
  · rw [share, at', empty]
    rfl
  · rw [at'] at uses
    cases uses
  · rw [at'] at fresh
    cases fresh
  · rw [boot.ofile] at here
    cases here
  · rw [at'] at here
    cases here

theorem inv_of_reach {ok : State Pid Inode Pipe → Pid × Input Pid Inode Pipe → Prop}
    (reach : ((program Pid Inode Pipe).system Boot).ReachUnder ok s) : Inv s := by
  refine reach.invariant (motive := Inv) (fun _ boot => inv_boot boot) ?_
  intro s s' label earlier inv _ moved
  obtain ⟨live, step⟩ := Program.step_of_next moved
  obtain ⟨next, moves, same | effect⟩ := step_cases (running_of_reach earlier) step
  · exact inv.keep same.1 moves (kept_of_target same.2)
  · exact inv.step (by simpa [program] using live) effect moves

end
end DeviceProgramming.OpenFiles
