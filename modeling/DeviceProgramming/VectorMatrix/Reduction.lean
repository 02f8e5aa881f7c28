import DeviceProgramming.VectorMatrix.Threads

namespace DeviceProgramming.VectorMatrix

variable {F : Type*} [Zero F] [Add F] [Mul F] {k : ℕ}

section
variable (v1 v2 : ℕ → F) (rows : ℕ → ℕ → F) (k : ℕ)

/-- What a thread at a program point has computed of its row, whose element of `v` is `x`. -/
def Row (i : ℕ) (x : F) : Pc F → Prop
  | .clear => True
  | .load j => j ≤ k ∧ x = running (rowTerm rows v2 i) j
  | .store j sum => j < k ∧ sum = running (rowTerm rows v2 i) (j + 1)
  | _ => x = rowValue rows v2 k i

/-- What the reducing thread has computed of the result; all rows are done. -/
def Reduced (cnt : ℤ) : Pc F → Prop
  | .reduce i result => cnt = 0 ∧ i ≤ k ∧ result = running (resultTerm v1 v2 rows k) i
  | .print result => cnt = 0 ∧ result = running (resultTerm v1 v2 rows k) k
  | _ => True

end

/-- What holds in every reached state. -/
structure Inv (v1 v2 : ℕ → F) (rows : ℕ → ℕ → F) (s : State F k) : Prop where
  row : ∀ t : Fin k, Row v2 rows k t (s.mem.v t) (s.pc t)
  busy : ∀ t, s.owner () = some t ↔ (s.pc t).holds = true
  counter : s.mem.cnt = countAt Pc.counted s.pc
  reduced : ∀ t, Reduced v1 v2 rows k s.mem.cnt (s.pc t)

section
variable {v1 v2 : ℕ → F} {rows : ℕ → ℕ → F} {mat : ℤ → F} {s s' : State F k} {t u : Fin k} {next : Pc F}

omit [Zero F] [Add F] [Mul F] in
theorem Pc.holds_of_reducing {at' : Pc F} (reducing : at'.reducing = true) : at'.holds = true := by
  cases at' <;> first | rfl | cases reducing

theorem Row.of_not_counted {i : ℕ} {x : F} {at' : Pc F} (row : Row v2 rows k i x at')
    (done : at'.counted = false) : x = rowValue rows v2 k i := by
  cases at' <;> first | exact row | cases done

theorem Inv.holder (inv : Inv v1 v2 rows s) (own : (s.pc t).holds = true) (other : (s.pc u).holds = true) : u = t :=
  Option.some.inj (((inv.busy u).mpr other).symm.trans ((inv.busy t).mpr own))

/-- With the counter at zero every row has been computed. -/
theorem Inv.not_counted (inv : Inv v1 v2 rows s) (zero : s.mem.cnt = 0) (t : Fin k) : (s.pc t).counted = false := by
  have counter := inv.counter
  exact countAt_eq_zero.mp (by omega) t

theorem Inv.rows_done (inv : Inv v1 v2 rows s) (zero : s.mem.cnt = 0) {i : ℕ} (inside : i < k) :
    s.mem.v i = rowValue rows v2 k i :=
  (inv.row ⟨i, inside⟩).of_not_counted (inv.not_counted zero ⟨i, inside⟩)

section
variable {m m' : Memory F} {owner owner' : Unit → Option (Fin k)} {pc : Fin k → Pc F}

/-- A thread writes its own element of `v` only. -/
theorem Move.v_other (move : Move v1 v2 mat t m owner (pc t) m' owner' next) {i : ℕ} (other : i ≠ t) :
    m'.v i = m.v i := by
  generalize pc t = here at move
  cases move <;> first | rfl | exact Function.update_of_ne other ..

theorem Move.counter (move : Move v1 v2 mat t m owner (pc t) m' owner' next)
    (counter : m.cnt = countAt Pc.counted pc) : m'.cnt = countAt Pc.counted (Function.update pc t next) := by
  have moved := countAt_update Pc.counted pc t next
  generalize pc t = here at move moved
  cases move <;> simp only [Pc.counted, Bool.toNat_true, Bool.toNat_false] at moved ⊢ <;> omega

theorem Move.cnt_eq (move : Move v1 v2 mat t m owner (pc t) m' owner' next) (free : (pc t).holds = false) :
    m'.cnt = m.cnt := by
  generalize pc t = here at move free
  cases move <;> first | rfl | cases free

theorem Move.busy (move : Move v1 v2 mat t m owner (pc t) m' owner' next)
    (busy : ∀ u, owner () = some u ↔ (pc u).holds = true) (u : Fin k) :
    owner' () = some u ↔ (Function.update pc t next u).holds = true := by
  have own := busy t
  by_cases here : u = t
  · subst here
    rw [Function.update_self]
    generalize pc u = at' at move own
    cases move with
    | lock | unlock => simp [Pc.holds]
    | clear | load | loaded | store | decrement | last | notLast | reduce | reduced | print =>
      simpa [Pc.holds] using own
  · have old := busy u
    rw [Function.update_of_ne here, ← old]
    generalize pc t = at' at move own
    cases move with
    | lock free => simp [free, Ne.symm here]
    | unlock =>
      have held : owner () = some t := own.mpr rfl
      simp [held, Ne.symm here]
    | clear | load | loaded | store | decrement | last | notLast | reduce | reduced | print => rfl

theorem Move.row (rowMajor : RowMajor mat rows k) (fits : (k : ℤ) * k ≤ 2 ^ 31 - 1)
    (move : Move v1 v2 mat t m owner (pc t) m' owner' next) (row : Row v2 rows k t (m.v t) (pc t)) :
    Row v2 rows k t (m'.v t) next := by
  generalize pc t = here at move row
  cases move with
  | clear => exact ⟨Nat.zero_le k, Function.update_self ..⟩
  | @load j more =>
    refine ⟨more, ?_⟩
    rw [row.2, rowMajor.apply fits t.isLt more, running, rowTerm]
  | @loaded j all =>
    have whole : j = k := Nat.le_antisymm row.1 all
    show m.v t = rowValue rows v2 k t
    rw [row.2, whole, rowValue]
  | store => exact ⟨row.1, (Function.update_self ..).trans row.2⟩
  | lock | decrement | last | notLast | reduce | reduced | print | unlock => exact row

end

theorem Inv.step (rowMajor : RowMajor mat rows k) (fits : (k : ℤ) * k ≤ 2 ^ 31 - 1) (inv : Inv v1 v2 rows s)
    (move : Move v1 v2 mat t s.mem s.owner (s.pc t) s'.mem s'.owner next)
    (moved : s'.pc = Function.update s.pc t next) : Inv v1 v2 rows s' := by
  have places := update_cases moved
  refine ⟨fun u => ?_, fun u => ?_, ?_, fun u => ?_⟩
  · rcases places u with ⟨rfl, now⟩ | ⟨other, now⟩
    · rw [now]
      exact move.row rowMajor fits (inv.row u)
    · rw [now, move.v_other fun same => other (Fin.ext same)]
      exact inv.row u
  · rw [moved]
    exact move.busy inv.busy u
  · rw [moved]
    exact move.counter inv.counter
  · have reduced := inv.reduced u
    rcases places u with ⟨rfl, now⟩ | ⟨other, now⟩
    · have done := @inv.rows_done
      rw [now]
      generalize s.pc u = here at move reduced
      generalize s'.mem = mem, s'.owner = owner at move
      cases move with
      | last zero => exact ⟨zero, Nat.zero_le k, rfl⟩
      | @reduce i result more =>
        refine ⟨reduced.1, more, ?_⟩
        rw [reduced.2.2, done reduced.1 more, running, resultTerm]
      | @reduced i result all =>
        have whole : i = k := Nat.le_antisymm reduced.2.1 all
        exact ⟨reduced.1, by rw [reduced.2.2, whole]⟩
      | clear | load | loaded | store | lock | decrement | notLast | print | unlock => trivial
    · rw [now]
      by_cases own : (s.pc t).holds = true
      · cases at' : s.pc u with
        | reduce | print => exact absurd (inv.holder own (by rw [at']; rfl)) other
        | clear | load | store | lock | decrement | test | unlock | done => trivial
      · rwa [move.cnt_eq (Bool.eq_false_iff.mpr own)]

theorem inv_opening (opening : Opening k s) : Inv v1 v2 rows s := by
  have point (t : Fin k) : s.pc t = .clear := by
    rw [Threads.pc, opening.thread]
    rfl
  refine ⟨fun t => ?_, fun t => ?_, ?_, fun t => ?_⟩
  · rw [point t]
    trivial
  · rw [point t, opening.owner]
    simp [Pc.holds]
  · have all : (Finset.univ.filter fun t => (s.pc t).counted = true) = Finset.univ :=
      Finset.filter_true_of_mem fun t _ => by rw [point t]; rfl
    rw [opening.cnt, countAt, all, Finset.card_univ, Fintype.card_fin]
  · rw [point t]
    trivial

theorem inv_of_reach (rowMajor : RowMajor mat rows k) (fits : (k : ℤ) * k ≤ 2 ^ 31 - 1)
    {ok : State F k → Fin k × Unit → Prop} (reach : (threads v1 v2 mat k).ReachUnder ok s) : Inv v1 v2 rows s := by
  refine reach.invariant (motive := Inv v1 v2 rows) (fun _ opening => inv_opening opening) ?_
  intro s s' label earlier inv _ step
  obtain ⟨next, move, moved⟩ := move_of_step (running_of_reach earlier) (Program.step_of_next step).2
  exact inv.step rowMajor fits move moved

/-- The threads that have found the counter at zero, read off a run, last step first. -/
def reducers : List (State F k × (Fin k × Unit)) → List (Fin k)
  | [] => []
  | (s, t, _) :: path => match s.pc t with
    | .test => if s.mem.cnt = 0 then t :: reducers path else reducers path
    | _ => reducers path

/-- How far the reduction has come: not begun, being done by the only thread
that found the counter at zero, or printed by that thread. -/
inductive Stage (result : F) (who : List (Fin k)) (s : State F k) : Prop
  | before : who = [] → s.mem.printed = [] → (s.mem.cnt = 0 → ∃ t, s.pc t = .test) →
      (∀ t, (s.pc t).reducing = false) → Stage result who s
  | during (t : Fin k) : who = [t] → s.mem.printed = [] → s.mem.cnt = 0 → (s.pc t).reducing = true →
      Stage result who s
  | after (t : Fin k) : who = [t] → s.mem.printed = [result] → s.mem.cnt = 0 →
      (∀ u, s.pc u ≠ .test ∧ (s.pc u).reducing = false) → Stage result who s

end

end DeviceProgramming.VectorMatrix
