import DeviceProgramming.ReaderWriter.Moves

namespace DeviceProgramming.ReaderWriter

/-- The statements of `main` from the first creation on. -/
inductive MainAt
  | createReader (i : ℕ)
  | createWriter (i : ℕ)
  | joinReader (i : ℕ)
  | joinWriter (i : ℕ)
  | freeLibrary
  | freeCount
  | return'
  | returned
  deriving DecidableEq

/-- `main` and its threads: which of them have been created, the two arrays of
handles, whose elements are `none` until a handle is stored there, the handles
that `pthread_join` has come back from, and what has been freed. -/
structure Process (readers writers : ℕ) where
  threads : State readers writers
  created : Tid readers writers → Bool
  threads_reader : ℕ → Option (Tid readers writers)
  threads_writer : ℕ → Option (Tid readers writers)
  at' : MainAt
  joined : List (Option (Tid readers writers))
  libraryFreed : Bool
  countFreed : Bool

/-- A step of `main`, with whether `pthread_join` comes back from a handle that was never
stored, or of a thread. -/
inductive Turn (readers writers : ℕ)
  | main (comesBack : Bool)
  | thread (t : Tid readers writers)

/-- The statement uses `library`. -/
def Pc.usesLibrary : Pc → Bool
  | reader .lockLibrary | reader .read | reader .unlockLibrary => true
  | writer .lock | writer .update | writer .unlock => true
  | _ => false

/-- The statement uses `count`. -/
def Pc.usesCount : Pc → Bool
  | reader .lockCount | reader .increment | reader .unlockCount | reader .lockCount2 | reader .decrement
  | reader .unlockCount2 => true
  | _ => false

section
variable {readers writers : ℕ}

/-- `pthread_join` waits for the end of the thread; it may come back from a handle that was
never stored, for instance with an error, which `main` ignores. -/
def Process.join (p : Process readers writers) (comesBack : Bool) (handle : Option (Tid readers writers))
    (next : MainAt) : Option (Process readers writers) :=
  if handle.elim comesBack fun t => (p.threads.pc t).finished then
    some { p with joined := p.joined ++ [handle], at' := next }
  else none

/-- The steps of `main`. The second loop stores its handles in `threads_reader`. -/
def mainStep (comesBack : Bool) (p : Process readers writers) : Option (Process readers writers) :=
  match p.at' with
  | .createReader i =>
    if inside : i < readers then
      some { p with created := Function.update p.created (.reader ⟨i, inside⟩) true
                    threads_reader := Function.update p.threads_reader i (some (.reader ⟨i, inside⟩))
                    at' := .createReader (i + 1) }
    else some { p with at' := .createWriter 0 }
  | .createWriter i =>
    if inside : i < writers then
      some { p with created := Function.update p.created (.writer ⟨i, inside⟩) true
                    threads_reader := Function.update p.threads_reader i (some (.writer ⟨i, inside⟩))
                    at' := .createWriter (i + 1) }
    else some { p with at' := .joinReader 0 }
  | .joinReader i =>
    if i < readers then p.join comesBack (p.threads_reader i) (.joinReader (i + 1))
    else some { p with at' := .joinWriter 0 }
  | .joinWriter i =>
    if i < writers then p.join comesBack (p.threads_writer i) (.joinWriter (i + 1))
    else some { p with at' := .freeLibrary }
  | .freeLibrary => some { p with libraryFreed := true, at' := .freeCount }
  | .freeCount => some { p with countFreed := true, at' := .return' }
  | .return' => some { p with at' := .returned }
  | .returned => none

end

section
variable (readers writers : ℕ)

/-- The process after the two calls of `counter_init`. -/
def begin : Process readers writers where
  threads := launch readers writers
  created _ := false
  threads_reader _ := none
  threads_writer _ := none
  at' := .createReader 0
  joined := []
  libraryFreed := false
  countFreed := false

/-- `main` and the threads it has created take turns until `main` returns. -/
def process : System (Process readers writers) (Turn readers writers) where
  start := (· = begin readers writers)
  next p label := match label with
    | .main comesBack => mainStep comesBack p
    | .thread t =>
      if p.created t = true ∧ p.at' ≠ .returned then
        ((program readers writers).step p.threads t ()).map fun threads => { p with threads := threads }
      else none

end

variable {readers writers : ℕ}

/-- `main` has left the loops over the handles. -/
def MainAt.afterJoins : MainAt → Bool
  | freeLibrary | freeCount | return' | returned => true
  | _ => false

/-- `main` has not yet joined a handle of `threads_writer`. -/
def MainAt.beforeWriters : MainAt → Bool
  | createReader _ | createWriter _ | joinReader _ | joinWriter 0 => true
  | _ => false

/-- `main` outlives its workers: it joins stored handles only, each once, when
it leaves the join loops it has joined every thread it has created, and no thread
uses what has been freed. -/
structure Outlives (p : Process readers writers) : Prop where
  stored : none ∉ p.joined
  once : p.joined.Nodup
  all : p.at'.afterJoins = true → ∀ t, p.created t = true → some t ∈ p.joined
  untouched : ∀ t p', (process readers writers).next p (.thread t) = some p' →
    ¬ (p.libraryFreed = true ∧ (p.threads.pc t).usesLibrary = true) ∧
    ¬ (p.countFreed = true ∧ (p.threads.pc t).usesCount = true)

/-- The handle in `threads_reader[i]` after `r` readers and `w` writers have been created. -/
def handle (r w i : ℕ) : Option (Tid readers writers) :=
  if inside : i < w ∧ i < writers then some (.writer ⟨i, inside.2⟩)
  else if inside : i < r ∧ i < readers then some (.reader ⟨i, inside.2⟩)
  else none

/-- How many readers and writers have been created, and how many handles of the
two arrays have been joined. -/
def MainAt.progress (readers writers : ℕ) : MainAt → ℕ × ℕ × ℕ × ℕ
  | createReader i => (i, 0, 0, 0)
  | createWriter i => (readers, i, 0, 0)
  | joinReader i => (readers, writers, i, 0)
  | joinWriter i => (readers, writers, readers, i)
  | freeLibrary | freeCount | return' | returned => (readers, writers, readers, writers)

/-- Whether a thread is among the first `r` readers or the first `w` writers. -/
def Tid.within (r w : ℕ) : Tid readers writers → Bool
  | reader i => decide (i < r)
  | writer i => decide (i < w)

/-- What `main` has done up to a statement. -/
structure Inventory (r w jr jw : ℕ) (p : Process readers writers) : Prop where
  bounds : r ≤ readers ∧ w ≤ writers ∧ jr ≤ readers ∧ jw ≤ writers
  threads_reader : ∀ i, p.threads_reader i = handle r w i
  threads_writer : ∀ i, p.threads_writer i = none
  created : ∀ t, p.created t = t.within r w
  joined : p.joined = (List.range jr).map (handle readers writers) ++ List.replicate jw none

section
variable {p p' : Process readers writers} {i r w : ℕ} {comesBack : Bool}

theorem handle_reader (inside : r < readers) (i : ℕ) :
    Function.update (handle r 0 : ℕ → Option (Tid readers writers)) r (some (.reader ⟨r, inside⟩)) i =
      handle (r + 1) 0 i := by
  by_cases own : i = r
  · subst own
    simp [handle, inside]
  · have before : i < r + 1 ↔ i < r := by omega
    simp [handle, own, before]

theorem handle_writer (inside : w < writers) (i : ℕ) :
    Function.update (handle r w : ℕ → Option (Tid readers writers)) w (some (.writer ⟨w, inside⟩)) i =
      handle r (w + 1) i := by
  by_cases own : i = w
  · subst own
    simp [handle, inside]
  · have before : i < w + 1 ↔ i < w := by omega
    simp [handle, own, before]

theorem within_reader (inside : r < readers) (t : Tid readers writers) :
    Function.update (Tid.within r w) (.reader ⟨r, inside⟩) true t = t.within (r + 1) w := by
  by_cases own : t = .reader ⟨r, inside⟩
  · subst own
    simp [Tid.within]
  · rw [Function.update_of_ne own]
    cases t with
    | reader i =>
      have differ : (i : ℕ) ≠ r := fun same => own (congrArg Tid.reader (Fin.ext same))
      simp only [Tid.within, decide_eq_decide]
      omega
    | writer i => rfl

theorem within_writer (inside : w < writers) (t : Tid readers writers) :
    Function.update (Tid.within r w) (.writer ⟨w, inside⟩) true t = t.within r (w + 1) := by
  by_cases own : t = .writer ⟨w, inside⟩
  · subst own
    simp [Tid.within]
  · rw [Function.update_of_ne own]
    cases t with
    | reader i => rfl
    | writer i =>
      have differ : (i : ℕ) ≠ w := fun same => own (congrArg Tid.writer (Fin.ext same))
      simp only [Tid.within, decide_eq_decide]
      omega

theorem join_eq {handle : Option (Tid readers writers)} {next : MainAt}
    (joined : p.join comesBack handle next = some p') :
    p' = { p with joined := p.joined ++ [handle], at' := next } := by
  unfold Process.join at joined
  split at joined
  · exact (Option.some.inj joined).symm
  · cases joined

/-- What a process has done is what its statement of `main` says. -/
def Process.Accounted (p : Process readers writers) : Prop :=
  Inventory (p.at'.progress readers writers).1 (p.at'.progress readers writers).2.1
    (p.at'.progress readers writers).2.2.1 (p.at'.progress readers writers).2.2.2 p

/-- Nothing of it has changed. -/
theorem Process.Accounted.congr (accounted : p.Accounted)
    (progress : p'.at'.progress readers writers = p.at'.progress readers writers)
    (reader : p'.threads_reader = p.threads_reader) (writer : p'.threads_writer = p.threads_writer)
    (created : p'.created = p.created) (joined : p'.joined = p.joined) : p'.Accounted := by
  rw [Process.Accounted, progress]
  exact ⟨accounted.bounds, reader ▸ accounted.threads_reader, writer ▸ accounted.threads_writer,
    created ▸ accounted.created, joined.trans accounted.joined⟩

theorem accounted_step (accounted : p.Accounted) (step : mainStep comesBack p = some p') : p'.Accounted := by
  obtain ⟨bounds, reader, writer, created, joined⟩ := id accounted
  have readers' := funext reader
  have created' := funext created
  rw [mainStep] at step
  split at step
  · rename_i i here
    rw [here] at bounds joined readers' created'
    dsimp only [MainAt.progress] at bounds joined readers' created'
    split at step
    · rename_i inside
      cases step
      refine ⟨by dsimp only [MainAt.progress]; omega, fun j => ?_, writer, fun t => ?_, joined⟩
      · rw [readers']
        exact handle_reader inside j
      · rw [created']
        exact within_reader inside t
    · cases step
      obtain rfl : i = readers := by omega
      exact accounted.congr (by rw [here]; rfl) rfl rfl rfl rfl
  · rename_i i here
    rw [here] at bounds joined readers' created'
    dsimp only [MainAt.progress] at bounds joined readers' created'
    split at step
    · rename_i inside
      cases step
      refine ⟨by dsimp only [MainAt.progress]; omega, fun j => ?_, writer, fun t => ?_, joined⟩
      · rw [readers']
        exact handle_writer inside j
      · rw [created']
        exact within_writer inside t
    · cases step
      obtain rfl : i = writers := by omega
      exact accounted.congr (by rw [here]; rfl) rfl rfl rfl rfl
  · rename_i i here
    rw [here] at bounds joined readers' created'
    dsimp only [MainAt.progress] at bounds joined readers' created'
    split at step
    · rename_i inside
      rw [join_eq step]
      refine ⟨by dsimp only [MainAt.progress]; omega, fun j => congrFun readers' j, writer,
        fun t => congrFun created' t, ?_⟩
      dsimp only [MainAt.progress]
      rw [joined, readers', List.range_succ, List.map_append]
      simp
    · cases step
      obtain rfl : i = readers := by omega
      exact accounted.congr (by rw [here]; rfl) rfl rfl rfl rfl
  · rename_i i here
    rw [here] at bounds joined readers' created'
    dsimp only [MainAt.progress] at bounds joined readers' created'
    split at step
    · rename_i inside
      rw [join_eq step]
      refine ⟨by dsimp only [MainAt.progress]; omega, fun j => congrFun readers' j, writer,
        fun t => congrFun created' t, ?_⟩
      dsimp only [MainAt.progress]
      rw [joined, writer, List.append_assoc, List.replicate_succ']
    · cases step
      obtain rfl : i = writers := by omega
      exact accounted.congr (by rw [here]; rfl) rfl rfl rfl rfl
  case h_8 => cases step
  all_goals
    rename_i here
    cases step
    exact accounted.congr (by rw [here]; rfl) rfl rfl rfl rfl

theorem freed_step (freed : p.libraryFreed = true ∨ p.countFreed = true → p.at'.afterJoins = true)
    (step : mainStep comesBack p = some p') (now : p'.libraryFreed = true ∨ p'.countFreed = true) :
    p'.at'.afterJoins = true := by
  rw [mainStep] at step
  split at step
  case h_3 | h_4 =>
    rename_i i here
    rw [here] at freed
    split at step
    · rw [join_eq step] at now
      cases freed now
    · cases step
      cases freed now
  case h_8 => cases step
  case h_1 | h_2 =>
    rename_i i here
    rw [here] at freed
    split at step <;> cases step <;> cases freed now
  all_goals
    cases step
    rfl

/-- What `main` has done in every reached state. -/
theorem accounted_of_reach (reach : (process readers writers).Reach p) :
    p.Accounted ∧ (p.libraryFreed = true ∨ p.countFreed = true → p.at'.afterJoins = true) := by
  refine reach.invariant (motive := fun p => p.Accounted ∧
    (p.libraryFreed = true ∨ p.countFreed = true → p.at'.afterJoins = true)) ?_ ?_
  · rintro p rfl
    refine ⟨⟨?_, fun i => ?_, fun i => rfl, fun t => ?_, rfl⟩, fun freed => ?_⟩
    · exact ⟨Nat.zero_le _, Nat.zero_le _, Nat.zero_le _, Nat.zero_le _⟩
    · simp [begin, MainAt.progress, handle]
    · cases t <;> simp [begin, MainAt.progress, Tid.within]
    · rcases freed with freed | freed <;> cases freed
  · intro p p' label _ ⟨accounted, freed⟩ _ step
    cases label with
    | main => exact ⟨accounted_step accounted step, freed_step freed step⟩
    | thread t =>
      simp only [process] at step
      split at step
      · obtain ⟨threads, _, rfl⟩ := Option.map_eq_some_iff.mp step
        exact ⟨accounted.congr rfl rfl rfl rfl rfl, freed⟩
      · cases step

theorem handle_ne_none (writers : ℕ) (inside : i < readers) :
    (handle readers writers i : Option (Tid readers writers)) ≠ none := by
  rw [handle]
  split
  · simp
  · rw [dif_pos ⟨inside, inside⟩]
    simp

theorem index_of_handle {t : Tid readers writers} (stored : handle readers writers i = some t) :
    (∃ j, t = .writer j ∧ (j : ℕ) = i) ∨ ∃ j, t = .reader j ∧ (j : ℕ) = i ∧ writers ≤ i := by
  rw [handle] at stored
  split at stored
  · cases stored
    exact Or.inl ⟨_, rfl, rfl⟩
  · rename_i beyond
    split at stored
    · cases stored
      exact Or.inr ⟨_, rfl, rfl, by omega⟩
    · cases stored

/-- Each thread has its handle in one place at most. -/
theorem handle_injective {j : ℕ} (first : i < readers)
    (same : (handle readers writers i : Option (Tid readers writers)) = handle readers writers j) : i = j := by
  obtain ⟨t, stored⟩ := Option.ne_none_iff_exists'.mp (handle_ne_none writers first)
  rcases index_of_handle stored with ⟨a, rfl, atI⟩ | ⟨a, rfl, atI, _⟩ <;>
    rcases index_of_handle (same.symm.trans stored) with ⟨b, here, atJ⟩ | ⟨b, here, atJ, _⟩ <;> cases here <;> omega

/-- In a reached state the run so far is as it should be exactly before `main`
passes the first handle of `threads_writer` to `pthread_join`. -/
theorem outlives_iff_before (some : 1 ≤ writers) (reach : (process readers writers).Reach p) :
    Outlives p ↔ p.at'.beforeWriters = true := by
  obtain ⟨accounted, freed⟩ := accounted_of_reach reach
  have joined := accounted.joined
  have bounds := accounted.bounds
  constructor
  · intro outlives
    have stored := outlives.stored
    rw [joined] at stored
    cases here : p.at' with
    | createReader | createWriter | joinReader => rfl
    | joinWriter i =>
      cases i with
      | zero => rfl
      | succ i =>
        rw [here] at stored
        exact absurd (List.mem_append_right _ (List.mem_replicate.mpr ⟨Nat.succ_ne_zero i, rfl⟩)) stored
    | freeLibrary | freeCount | return' | returned =>
      rw [here] at stored
      have more : writers ≠ 0 := by omega
      exact absurd (List.mem_append_right _ (List.mem_replicate.mpr ⟨more, rfl⟩)) stored
  · intro before
    have early : p.at'.afterJoins = false ∧ (p.at'.progress readers writers).2.2.2 = 0 := by
      revert before
      cases p.at' with
      | joinWriter i => cases i <;> simp [MainAt.beforeWriters, MainAt.afterJoins, MainAt.progress]
      | _ => simp [MainAt.beforeWriters, MainAt.afterJoins, MainAt.progress]
    have notFreed : ¬ (p.libraryFreed = true ∨ p.countFreed = true) := fun gone =>
      Bool.false_ne_true (early.1.symm.trans (freed gone))
    rw [early.2, List.replicate_zero, List.append_nil] at joined
    refine ⟨?_, ?_, fun after => ?_, fun t p' _ => ⟨fun uses => ?_, fun uses => ?_⟩⟩
    · rw [joined, List.mem_map]
      rintro ⟨i, inside, none⟩
      rw [List.mem_range] at inside
      exact handle_ne_none writers (by omega) none
    · rw [joined]
      refine List.nodup_range.map_on fun i inside j _ same => ?_
      rw [List.mem_range] at inside
      exact handle_injective (by omega) same
    · exact absurd (early.1.symm.trans after) Bool.false_ne_true
    · exact notFreed (Or.inl uses.1)
    · exact notFreed (Or.inr uses.1)

/-- After the join loops the first readers have not been joined: their handles
were overwritten by those of the writers. -/
theorem unjoined_of_after (some : 1 ≤ writers) (reach : (process readers writers).Reach p)
    (after : p.at'.afterJoins = true) : none ∈ p.joined ∧
      ∀ i : Fin readers, (i : ℕ) < writers → p.created (.reader i) = true ∧ .some (.reader i) ∉ p.joined := by
  obtain ⟨accounted, _⟩ := accounted_of_reach reach
  have created := accounted.created
  have joined := accounted.joined
  have passed : p.at'.progress readers writers = (readers, writers, readers, writers) := by
    revert after
    cases p.at' <;> simp [MainAt.afterJoins, MainAt.progress]
  rw [passed] at joined created
  have more : writers ≠ 0 := by omega
  refine ⟨?_, fun i before => ⟨?_, fun member => ?_⟩⟩
  · rw [joined]
    exact List.mem_append_right _ (List.mem_replicate.mpr ⟨more, rfl⟩)
  · rw [created]
    exact decide_eq_true i.isLt
  · rw [joined] at member
    rcases List.mem_append.mp member with stored | never
    · obtain ⟨j, _, found⟩ := List.mem_map.mp stored
      rcases index_of_handle found with ⟨_, here, _⟩ | ⟨k, here, same, beyond⟩
      · cases here
      · cases here
        omega
    · cases (List.mem_replicate.mp never).2

end

end DeviceProgramming.ReaderWriter
