import DeviceProgramming.VectorMatrix.Sequential
import DeviceProgramming.Machine.Awake
import DeviceProgramming.Machine.Count
import DeviceProgramming.Machine.Int32

namespace DeviceProgramming.VectorMatrix

/-- The shared variables of `Lab2.3_2` that the threads write: `v`, the
counter of the barrier, and what they have printed. -/
structure Memory (F : Type*) where
  v : ℕ → F
  cnt : ℤ
  printed : List F

/-- The statements of `thread_func`. `v[i] += ...` reads and writes in two
steps, and each turn of the last loop is a step. -/
inductive Pc (F : Type*)
  | clear
  | load (j : ℕ)
  | store (j : ℕ) (sum : F)
  | lock
  | decrement
  | test
  | reduce (i : ℕ) (result : F)
  | print (result : F)
  | unlock
  | done

abbrev State (F : Type*) (k : ℕ) := Threads (Fin k) Unit Empty (Memory F) (Pc F)

/-- What `main` has prepared when it creates the first thread; the cells of `v`
are those that `malloc` returned. -/
structure Opening {F : Type*} (k : ℕ) (s : State F k) : Prop where
  cnt : s.mem.cnt = k
  printed : s.mem.printed = []
  owner : s.owner = fun _ => none
  thread : s.thread = fun _ => .run .clear

section
variable {F : Type*}

/-- `mat` holds the rows of a matrix one after the other. -/
def RowMajor (mat : ℤ → F) (rows : ℕ → ℕ → F) (k : ℕ) : Prop :=
  ∀ i < k, ∀ j < k, mat (k * i + j) = rows i j

/-- The index of an element of the matrix is an `int`. -/
theorem RowMajor.apply {mat : ℤ → F} {rows : ℕ → ℕ → F} {k i j : ℕ} (rowMajor : RowMajor mat rows k)
    (fits : (k : ℤ) * k ≤ 2 ^ 31 - 1) (row : i < k) (column : j < k) :
    mat (int32 (int32 (k * i) + j)) = rows i j := by
  have last : (k : ℤ) * i + k ≤ k * k := by
    have le : (i : ℤ) + 1 ≤ k := by omega
    have scaled := mul_le_mul_of_nonneg_left le (Int.natCast_nonneg k)
    rwa [mul_add, mul_one] at scaled
  have nonneg : (0 : ℤ) ≤ k * i := by positivity
  rw [int32_add, int32_of_range (by omega) (by omega), rowMajor i row j column]

/-- The thread has not yet taken itself off the counter. -/
def Pc.counted : Pc F → Bool
  | clear | load _ | store _ _ | lock | decrement => true
  | _ => false

def Pc.holds : Pc F → Bool
  | decrement | test | reduce _ _ | print _ | unlock => true
  | _ => false

/-- The thread is executing the final reduction. -/
def Pc.reducing : Pc F → Bool
  | reduce _ _ | print _ => true
  | _ => false

end

variable {F : Type*} [Zero F] [Add F] [Mul F]

section
variable (v1 v2 : ℕ → F) (mat : ℤ → F) (k : ℕ)

/-- `thread_func` for each of the `k` values of `i`. The index `k * i + j` is an
`int` expression. A thread that `main` has not yet created is one that has not
yet taken a step. -/
def program : Program (Fin k) Unit Empty (Memory F) (Pc F) Unit where
  instr i pc := match pc with
    | .clear => .exec fun _ m => some ({ m with v := Function.update m.v i 0 }, .load 0)
    | .load j => .exec fun _ m =>
        some (m, if j < k then .store j (m.v i + mat (int32 (int32 (k * i) + j)) * v2 i) else .lock)
    | .store j sum => .exec fun _ m => some ({ m with v := Function.update m.v i sum }, .load (j + 1))
    | .lock => .acquire () .decrement
    | .decrement => .exec fun _ m => some ({ m with cnt := m.cnt - 1 }, .test)
    | .test => .exec fun _ m => some (m, if m.cnt = 0 then .reduce 0 0 else .unlock)
    | .reduce i result => .exec fun _ m =>
        some (m, if i < k then .reduce (i + 1) (result + v1 i * m.v i) else .print result)
    | .print result => .exec fun _ m => some ({ m with printed := m.printed ++ [result] }, .unlock)
    | .unlock => .release () .done
    | .done => .exec fun _ _ => none
  halted _ := false

abbrev threads : System (State F k) (Fin k × Unit) := (program v1 v2 mat k).system (Opening k)

end

section
variable (v1 v2 : ℕ → F) (mat : ℤ → F) {k : ℕ}

/-- The statements of `thread_func` as moves. -/
inductive Move (t : Fin k) (m : Memory F) (owner : Unit → Option (Fin k)) :
    Pc F → Memory F → (Unit → Option (Fin k)) → Pc F → Prop
  | clear : Move t m owner .clear { m with v := Function.update m.v t 0 } owner (.load 0)
  | load {j} : j < k →
      Move t m owner (.load j) m owner (.store j (m.v t + mat (int32 (int32 (k * t) + j)) * v2 t))
  | loaded {j} : k ≤ j → Move t m owner (.load j) m owner .lock
  | store {j sum} : Move t m owner (.store j sum) { m with v := Function.update m.v t sum } owner (.load (j + 1))
  | lock : owner () = none → Move t m owner .lock m (Function.update owner () (some t)) .decrement
  | decrement : Move t m owner .decrement { m with cnt := m.cnt - 1 } owner .test
  | last : m.cnt = 0 → Move t m owner .test m owner (.reduce 0 0)
  | notLast : m.cnt ≠ 0 → Move t m owner .test m owner .unlock
  | reduce {i result} : i < k →
      Move t m owner (.reduce i result) m owner (.reduce (i + 1) (result + v1 i * m.v i))
  | reduced {i result} : k ≤ i → Move t m owner (.reduce i result) m owner (.print result)
  | print {result} : Move t m owner (.print result) { m with printed := m.printed ++ [result] } owner .unlock
  | unlock : Move t m owner .unlock m (Function.update owner () none) .done

end

section
variable {v1 v2 : ℕ → F} {mat : ℤ → F} {k : ℕ}

theorem awake : (program v1 v2 mat k).Awake where
  sleep {_ _ chan} := chan.elim
  wakeup {_ _ chan} := chan.elim

theorem running_of_reach {ok : State F k → Fin k × Unit → Prop} {s : State F k}
    (reach : (threads v1 v2 mat k).ReachUnder ok s) (t : Fin k) : s.thread t = .run (s.pc t) := by
  refine awake.running_of_reach ?_ reach t
  intro s opening u
  rw [Threads.pc, opening.thread]
  rfl

/-- Every step is one of the moves. -/
theorem move_of_step {s s' : State F k} {t : Fin k} (running : ∀ u, s.thread u = .run (s.pc u))
    (step : (program v1 v2 mat k).Step t () s s') :
    ∃ next, Move v1 v2 mat t s.mem s.owner (s.pc t) s'.mem s'.owner next ∧
      s'.pc = Function.update s.pc t next := by
  obtain ⟨next, done, moved⟩ := awake.step_cases running step
  refine ⟨next, ?_, moved⟩
  cases done with
  | acquire here free same owner =>
    rw [same, owner]
    cases at' : s.pc t <;> rw [at'] at here <;> cases here
    exact .lock free
  | release here same owner =>
    rw [same, owner]
    cases at' : s.pc t <;> rw [at'] at here <;> cases here
    exact .unlock
  | exec here run owner =>
    rw [owner]
    cases at' : s.pc t <;> rw [at'] at here <;> cases here
    case done.refl => cases run
    all_goals
      obtain ⟨mem, rfl⟩ := Prod.mk.inj (Option.some.inj run)
      rw [← mem]
    case clear.refl => exact .clear
    case load.refl =>
      split
      · rename_i more; exact .load more
      · rename_i all; exact .loaded (by omega)
    case store.refl => exact .store
    case decrement.refl => exact .decrement
    case test.refl =>
      split
      · rename_i zero; exact .last zero
      · rename_i more; exact .notLast more
    case reduce.refl =>
      split
      · rename_i more; exact .reduce more
      · rename_i all; exact .reduced (by omega)
    case print.refl => exact .print

end

end DeviceProgramming.VectorMatrix
