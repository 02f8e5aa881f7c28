import DeviceProgramming.Concatenate.Departure

namespace DeviceProgramming.Concatenate

/-- The files that a thread has selected and not yet unlinked. -/
def Point.chosen (p : Point) : List Name := match p.stmt with
  | .scan2 => p.locals.filehead1.toList
  | .unlock | .open1 | .open2 | .unlink1 => p.locals.filehead1.toList ++ p.locals.filehead2.toList
  | .unlink2 => p.locals.filehead2.toList
  | _ => []

/-- `rewinddir` is called only while no other thread has selected a file that is
still in the directory; and a thread that has selected its first file calls it
only when it goes on with the scan and finds this file again as the first one. -/
def RewindsAlone {K : ℕ} (s : State K) (label : Fin K × Input) : Prop :=
  (s.pc label.1).stmt = .scan1 ∨ (s.pc label.1).stmt = .scan2 → label.2.isError = false →
    s.mem.atEnd label.2 = true → (s.pc label.1).locals.rewinded = false →
    (∀ u, u ≠ label.1 → ∀ name ∈ (s.pc u).chosen, name ∉ s.mem.names) ∧
    ((s.pc label.1).stmt = .scan2 → ∀ name ∈ (s.pc label.1).locals.filehead1.toList,
      (s.pc label.1).locals.next2 = true ∧ (files label.2.listing).head? = some name)

/-- The names in the directory are distinct, and none of them is special. -/
structure Memory.Proper (m : Memory) : Prop where
  nodup : (m.dir.map Prod.fst).Nodup
  ordinary : ∀ entry ∈ m.dir, special entry.1 = false

structure Selecting {K : ℕ} (s : State K) : Prop where
  proper : s.mem.Proper
  stream : s.mem.stream.Nodup
  ordinary : ∀ t, ∀ name ∈ (s.pc t).chosen, special name = false
  apart : ∀ t u, t ≠ u → ∀ name ∈ (s.pc t).chosen, name ∉ (s.pc u).chosen
  read : ∀ t, ∀ name ∈ (s.pc t).chosen, name ∈ s.mem.stream →
    (s.pc t).stmt = .scan2 ∧ (files s.mem.stream).head? = some name

variable {K : ℕ} {s s' : State K} {t u : Fin K} {input : Input} {m m' : Memory} {l : Locals} {next : Point}
  {stmt : Stmt}

theorem Memory.Proper.nodup_names (proper : m.Proper) : m.names.Nodup := by
  have elsewhere (name : Name) (skips : special name = true) : name ∉ m.dir.map Prod.fst := by
    intro member
    obtain ⟨entry, there, rfl⟩ := List.mem_map.mp member
    rw [proper.ordinary entry there] at skips
    cases skips
  have first := elsewhere dot rfl
  have second := elsewhere dotdot rfl
  have third := elsewhere tmpName rfl
  simp only [Memory.names, List.nodup_cons, List.mem_cons, not_or]
  exact ⟨⟨by decide, by decide, first⟩, ⟨by decide, second⟩, third, proper.nodup⟩

theorem mem_dir_of_names {name : Name} (member : name ∈ m.names) (ordinary : special name = false) :
    name ∈ m.dir.map Prod.fst := by
  simp only [Memory.names, List.mem_cons] at member
  rcases member with rfl | rfl | rfl | found
  · cases ordinary
  · cases ordinary
  · cases ordinary
  · exact found

/-- A stream that has just been opened lists names of the directory. -/
theorem Memory.Opened.mem_names {name : Name} (opened : m.Opened) (member : name ∈ m.stream) : name ∈ m.names := by
  rcases opened.stream with lists | lists
  · exact lists.mem_iff.mp member
  · have before := lists.mem_iff.mp member
    simp only [Memory.names, List.mem_cons] at before ⊢
    tauto

/-- A thread that scans the directory finds no file in the stream that another
thread has selected. -/
theorem Selecting.unread (inv : Selecting s) (owned : s.Owned fun _ => held)
    (running : ∀ v, s.thread v = .run (s.pc v)) (scans : (s.pc t).stmt = .scan1 ∨ (s.pc t).stmt = .scan2)
    (other : u ≠ t) : ∀ name ∈ (s.pc u).chosen, name ∉ s.mem.stream := by
  intro name chosen member
  have there := (inv.read u name chosen member).1
  refine other (owned.unique_run (running u) (running t) (l := .dirLock) ?_ ?_)
  · simp [held, there]
  · rcases scans with here | here <;> simp [held, here]

theorem proper_unlink (proper : m.Proper) (name : Name) : (m.unlink name).Proper := by
  unfold Memory.unlink
  split
  · exact proper
  · split
    · exact proper
    · refine ⟨proper.nodup.sublist (List.filter_sublist.map _), fun entry member => ?_⟩
      exact proper.ordinary entry (List.mem_of_mem_filter member)

theorem proper_link (proper : m.Proper) (name : Name) : (m.link name).Proper := by
  unfold Memory.link
  split
  · exact proper
  · split
    · exact proper
    · rename_i i _ new
      simp only [Memory.names, List.mem_cons, not_or] at new
      obtain ⟨one, two, three, absent⟩ := new
      refine ⟨List.nodup_cons.mpr ⟨absent, proper.nodup⟩, fun entry member => ?_⟩
      rcases List.mem_cons.mp member with rfl | old
      · simp [special, one, two, three]
      · exact proper.ordinary entry old

theorem Move.proper (move : Move input m l stmt m' next) (proper : m.Proper) : m'.Proper := by
  cases move with
  | unlink1 | unlink2 => exact proper_unlink proper _
  | link => exact proper_link proper _
  | openDest =>
    have dir := m.create_dir l.filename
    exact ⟨dir ▸ proper.nodup, dir ▸ proper.ordinary⟩
  | _ => exact ⟨proper.nodup, proper.ordinary⟩

/-- What has to be shown about the thread that has moved and about the others. -/
theorem Selecting.of_parts (inv : Selecting s) (points : s'.pc = Function.update s.pc t next)
    (proper : s'.mem.Proper) (stream : s'.mem.stream.Nodup)
    (ordinary : ∀ name ∈ next.chosen, special name = false)
    (apart : ∀ name ∈ next.chosen, ∀ u, u ≠ t → name ∉ (s.pc u).chosen)
    (read : ∀ name ∈ next.chosen, name ∈ s'.mem.stream →
      next.stmt = .scan2 ∧ (files s'.mem.stream).head? = some name)
    (others : ∀ u, u ≠ t → ∀ name ∈ (s.pc u).chosen, name ∈ s'.mem.stream →
      (s.pc u).stmt = .scan2 ∧ (files s'.mem.stream).head? = some name) : Selecting s' := by
  have places := update_cases points
  refine ⟨proper, stream, fun u => ?_, fun u v differ name chosen => ?_, fun u => ?_⟩
  · rcases places u with ⟨rfl, now⟩ | ⟨_, now⟩ <;> rw [now]
    · exact ordinary
    · exact inv.ordinary u
  · rcases places u with ⟨rfl, now⟩ | ⟨one, now⟩ <;> rw [now] at chosen
    · rcases places v with ⟨rfl, _⟩ | ⟨two, then'⟩
      · exact absurd rfl differ
      · rw [then']
        exact apart name chosen v two
    · rcases places v with ⟨rfl, then'⟩ | ⟨two, then'⟩ <;> rw [then']
      · exact fun second => apart name second u one chosen
      · exact inv.apart u v differ name chosen
  · rcases places u with ⟨rfl, now⟩ | ⟨other, now⟩ <;> rw [now]
    · exact read
    · exact others u other

/-- A thread that does not scan only unlinks what it has selected or gives it up. -/
theorem Move.elsewhere (move : Move input m l stmt m' next) (elsewhere : stmt ≠ .scan1 ∧ stmt ≠ .scan2) :
    m'.stream = m.stream ∧ ∀ name ∈ next.chosen, name ∈ Point.chosen ⟨stmt, l⟩ := by
  obtain ⟨first, second⟩ := elsewhere
  cases move with
  | error1 | end1 | rewind1 | skip1 | found1 => exact absurd rfl first
  | error2 | end2 | rewind2 | skip2 | crash2 | found2 => exact absurd rfl second
  | null1 | null2 => exact ⟨rfl, fun name chosen => chosen⟩
  | missing1 | opened1 | missing2 | opened2 =>
    refine ⟨rfl, fun name chosen => ?_⟩
    revert chosen
    split <;> simp [Point.chosen]
  | unlink1 => exact ⟨m.unlink_stream _, fun name chosen => List.mem_append_right _ chosen⟩
  | unlink2 => exact ⟨m.unlink_stream _, fun name chosen => nomatch chosen⟩
  | openDest => exact ⟨m.create_stream _, fun name chosen => nomatch chosen⟩
  | link => exact ⟨m.link_stream _, fun name chosen => nomatch chosen⟩
  | bad1 | end1File | read1 | write1 | bad2 | end2File | read2 | write2Fails | write2 | unlinkTmp =>
    exact ⟨rfl, fun name chosen => nomatch chosen⟩

theorem Selecting.elsewhere (inv : Selecting s) (points : s'.pc = Function.update s.pc t next)
    (move : Move input s.mem (s.pc t).locals (s.pc t).stmt s'.mem next)
    (elsewhere : (s.pc t).stmt ≠ .scan1 ∧ (s.pc t).stmt ≠ .scan2) : Selecting s' := by
  obtain ⟨stream, chosen⟩ := move.elsewhere elsewhere
  refine inv.of_parts points (move.proper inv.proper) ?_ ?_ ?_ ?_ ?_
  · rw [stream]
    exact inv.stream
  · exact fun name now => inv.ordinary t name (chosen name now)
  · exact fun name now u other => inv.apart t u (Ne.symm other) name (chosen name now)
  · intro name now member
    rw [stream] at member
    exact absurd (inv.read t name (chosen name now) member).1 elsewhere.2
  · rw [stream]
    exact fun u _ => inv.read u

/-- A scan reads on in the stream or rewinds it. -/
theorem Move.scan_stream (move : Move input m l stmt m' next) (scans : stmt = .scan1 ∨ stmt = .scan2)
    (nodup : m.stream.Nodup) :
    (m'.stream.Nodup ∧ ∀ name ∈ m'.stream, name ∈ m.stream) ∨
    (input.isError = false ∧ m.atEnd input = true ∧ l.rewinded = false ∧ m'.stream.Perm m.names) := by
  cases move with
  | error1 | end1 | error2 | end2 => exact Or.inl ⟨nodup, fun name member => member⟩
  | rewind1 fine ends once lists | rewind2 fine ends once lists => exact Or.inr ⟨fine, ends, once, lists⟩
  | skip1 here | found1 here | skip2 here | crash2 _ _ here | found2 _ _ here =>
    rw [here] at nodup ⊢
    exact Or.inl ⟨(List.nodup_cons.mp nodup).2, fun name member => List.mem_cons_of_mem _ member⟩
  | _ => simp at scans

theorem chosen_selected (l : Locals) :
    (selected l).chosen = [] ∨ (selected l).chosen = l.filehead1.toList ++ l.filehead2.toList := by
  unfold selected
  split
  · exact Or.inr rfl
  · exact Or.inl rfl

/-- What a scan selects is what was selected before, or the file it reads. -/
theorem Move.scan_chosen (move : Move input m l stmt m' next) (scans : stmt = .scan1 ∨ stmt = .scan2)
    {name : Name} (chosen : name ∈ next.chosen) :
    name ∈ Point.chosen ⟨stmt, l⟩ ∨ name ∈ m.stream ∧ special name = false := by
  cases move with
  | error1 | end1 | skip1 | end2 => cases chosen
  | rewind1 => split at chosen <;> cases chosen
  | error2 =>
    split at chosen
    · exact Or.inl chosen
    · cases chosen
  | rewind2 =>
    split at chosen
    · exact Or.inl chosen
    · rcases chosen_selected { l with rewinded := true, filehead2 := none } with none | some
      · rw [none] at chosen
        cases chosen
      · rw [some, Option.toList_none, List.append_nil] at chosen
        exact Or.inl chosen
  | found1 here ordinary =>
    cases List.mem_singleton.mp chosen
    exact Or.inr ⟨by rw [here]; exact List.mem_cons_self .., ordinary⟩
  | skip2 | crash2 => exact Or.inl chosen
  | @found2 entry rest first _ _ here ordinary head =>
    rcases chosen_selected { l with next2 := false, filehead2 := some entry } with none | some
    · rw [none] at chosen
      cases chosen
    · rw [some] at chosen
      rcases List.mem_append.mp chosen with old | new
      · exact Or.inl old
      · cases List.mem_singleton.mp new
        exact Or.inr ⟨by rw [here]; exact List.mem_cons_self .., ordinary⟩
  | _ => simp at scans

/-- A file that a thread has selected is in the stream only during its second
scan, as the first file there. -/
theorem Move.scan_read (move : Move input m l stmt m' next) (scans : stmt = .scan1 ∨ stmt = .scan2)
    (nodup : m.stream.Nodup) (ordinary : ∀ name ∈ Point.chosen ⟨stmt, l⟩, special name = false)
    (read : ∀ name ∈ Point.chosen ⟨stmt, l⟩, name ∈ m.stream → (files m.stream).head? = some name)
    (rewinds : stmt = .scan2 → input.isError = false → m.atEnd input = true → l.rewinded = false →
      ∀ name ∈ l.filehead1.toList, l.next2 = true ∧ (files input.listing).head? = some name)
    {name : Name} (chosen : name ∈ next.chosen) (member : name ∈ m'.stream) :
    next.stmt = .scan2 ∧ (files m'.stream).head? = some name := by
  cases move with
  | error1 | end1 | skip1 | end2 => cases chosen
  | rewind1 => split at chosen <;> cases chosen
  | error2 =>
    split at chosen
    · rename_i again
      rw [if_pos again]
      exact ⟨rfl, read name chosen member⟩
    · cases chosen
  | rewind2 fine ends once =>
    have first := rewinds rfl fine ends once
    split at chosen
    · rename_i again
      rw [if_pos again]
      exact ⟨rfl, (first name chosen).2⟩
    · rename_i stops
      rcases chosen_selected { l with rewinded := true, filehead2 := none } with none | some
      · rw [none] at chosen
        cases chosen
      · rw [some, Option.toList_none, List.append_nil] at chosen
        exact absurd (first name chosen).1 stops
  | found1 here =>
    cases List.mem_singleton.mp chosen
    rw [here] at nodup
    exact absurd member (List.nodup_cons.mp nodup).1
  | @skip2 entry rest here skips =>
    refine ⟨rfl, ?_⟩
    have old := read name chosen (by rw [here]; exact List.mem_cons_of_mem _ member)
    rw [here] at old nodup
    rcases skips with skips | same
    · simpa [files, skips] using old
    · have same : name = entry := by
        rw [Point.chosen, same] at chosen
        exact List.mem_singleton.mp chosen
      rw [same] at member
      exact absurd member (List.nodup_cons.mp nodup).1
  | crash2 _ _ _ _ null =>
    rw [Point.chosen, null] at chosen
    cases chosen
  | @found2 entry rest first _ _ here found head differs =>
    have fresh : name = entry → False := by
      rintro rfl
      rw [here] at nodup
      exact (List.nodup_cons.mp nodup).1 member
    rcases chosen_selected { l with next2 := false, filehead2 := some entry } with none | some
    · rw [none] at chosen
      cases chosen
    · rw [some] at chosen
      rcases List.mem_append.mp chosen with old | new
      · have before := read name old (by rw [here]; exact List.mem_cons_of_mem _ member)
        rw [here] at before
        simp only [files, found, Bool.not_false, List.filter_cons_of_pos, List.head?_cons,
          Option.some.injEq] at before
        exact (fresh before.symm).elim
      · exact (fresh (List.mem_singleton.mp new)).elim
  | _ => simp at scans

/-- While no rewound stream lists what another thread has selected, a scan keeps
the selections apart. -/
theorem Selecting.scan (inv : Selecting s) (owned : s.Owned fun _ => held)
    (running : ∀ v, s.thread v = .run (s.pc v)) (points : s'.pc = Function.update s.pc t next)
    (move : Move input s.mem (s.pc t).locals (s.pc t).stmt s'.mem next)
    (scans : (s.pc t).stmt = .scan1 ∨ (s.pc t).stmt = .scan2) (rewinds : RewindsAlone s (t, input)) :
    Selecting s' := by
  have unread (u : Fin K) (other : u ≠ t) := inv.unread owned running scans other
  have others : ∀ u, u ≠ t → ∀ name ∈ (s.pc u).chosen, name ∉ s'.mem.stream := by
    intro u other name chosen member
    rcases move.scan_stream scans inv.stream with ⟨_, on⟩ | ⟨fine, ends, once, lists⟩
    · exact unread u other name chosen (on name member)
    · exact (rewinds scans fine ends once).1 u other name chosen (lists.mem_iff.mp member)
  refine inv.of_parts points (move.proper inv.proper) ?_ ?_ ?_ ?_ ?_
  · rcases move.scan_stream scans inv.stream with ⟨nodup, _⟩ | ⟨_, _, _, lists⟩
    · exact nodup
    · exact lists.nodup_iff.mpr inv.proper.nodup_names
  · intro name chosen
    rcases move.scan_chosen scans chosen with old | ⟨_, ordinary⟩
    · exact inv.ordinary t name old
    · exact ordinary
  · intro name chosen u other second
    rcases move.scan_chosen scans chosen with old | ⟨member, _⟩
    · exact inv.apart t u (Ne.symm other) name old second
    · exact unread u other name second member
  · intro name chosen member
    refine move.scan_read scans inv.stream (inv.ordinary t) (fun name old there => (inv.read t name old there).2) ?_
      chosen member
    exact fun here fine ends once => (rewinds scans fine ends once).2 here
  · exact fun u other name chosen member => absurd member (others u other name chosen)

/-- The two calls for the lock keep what is selected. -/
theorem Selecting.keep (inv : Selecting s) (points : s'.pc = Function.update s.pc t next) (mem : s'.mem = s.mem)
    (chosen : next.chosen = (s.pc t).chosen) (elsewhere : (s.pc t).stmt ≠ .scan2) : Selecting s' := by
  refine inv.of_parts points ?_ ?_ ?_ ?_ ?_ ?_ <;> simp only [mem, chosen]
  · exact inv.proper
  · exact inv.stream
  · exact inv.ordinary t
  · exact fun name now u other => inv.apart t u (Ne.symm other) name now
  · exact fun name now member => absurd (inv.read t name now member).1 elsewhere
  · exact fun u _ => inv.read u

theorem Selecting.turn (inv : Selecting s) (owned : s.Owned fun _ => held)
    (running : ∀ v, s.thread v = .run (s.pc v)) (points : s'.pc = Function.update s.pc t next)
    (turn : Turn t input s s' next) (rewinds : RewindsAlone s (t, input)) : Selecting s' := by
  cases turn with
  | lock here _ mem there =>
    exact inv.keep points mem (by rw [there, Point.chosen, Point.chosen, here]) (by rw [here]; decide)
  | unlock here mem there =>
    exact inv.keep points mem (by rw [there, Point.chosen, Point.chosen, here]) (by rw [here]; decide)
  | move move =>
    by_cases scans : (s.pc t).stmt = .scan1 ∨ (s.pc t).stmt = .scan2
    · exact inv.scan owned running points move scans rewinds
    · exact inv.elsewhere points move (not_or.mp scans)

theorem selecting_launch (launch : Launch s) : Selecting s := by
  have nobody (t : Fin K) : (s.pc t).chosen = [] := by
    obtain ⟨isDir, at'⟩ := launch.thread t
    rw [Threads.pc, at']
    rfl
  have proper : s.mem.Proper := ⟨launch.opened.nodup, launch.opened.ordinary⟩
  refine ⟨proper, ?_, fun t => ?_, fun t u _ => ?_, fun t => ?_⟩
  · have nodup := proper.nodup_names
    rcases launch.opened.stream with lists | lists
    · exact lists.nodup_iff.mpr nodup
    · refine lists.nodup_iff.mpr (nodup.sublist ?_)
      exact .cons_cons _ (.cons_cons _ (.cons _ (.refl _)))
  · simp [nobody t]
  · simp [nobody t]
  · simp [nobody t]

end DeviceProgramming.Concatenate
