import DeviceProgramming.Machine.Cells
import DeviceProgramming.Machine.Threads

namespace DeviceProgramming.ParallelSort

/-- A `Region`. Addresses are offsets from `paddr`. -/
structure Region where
  regionLength : ℤ
  left : ℤ
  right : ℤ

/-- The length of a region, except the last one. -/
def regionLength (n nthreads : ℕ) : ℕ := n / nthreads

/-- The region that `main` gives to thread `i`. -/
def region (n nthreads : ℕ) (i : Fin nthreads) : Region where
  regionLength := regionLength n nthreads
  left := (i : ℕ) * regionLength n nthreads
  right := if (i : ℕ) = nthreads - 1 then n - 1 else ((i : ℕ) + 1) * regionLength n nthreads - 1

/-- The mutex of the barrier. -/
inductive Lock
  | barrier
  deriving DecidableEq

/-- The mapped file, the barrier and what has been printed. `round` is history:
how often each thread has passed the whole barrier. -/
structure Memory (nthreads : ℕ) where
  vec : ℤ → ℤ
  counter : ℤ
  sem : ℕ
  sem2 : ℕ
  printed : List (ℤ × ℤ)
  exited : Bool
  round : Fin nthreads → ℕ

/-- The statements of `thread_sort`. -/
inductive Pc
  | outer (cur : ℤ)
  | inner (cur tmp : ℤ)
  | swap (cur tmp : ℤ)
  | lock
  | decrement
  | border (i : ℕ) (swapped : Bool)
  | borderSwap (i : ℕ)
  | post (i : ℕ)
  | print (cur : ℤ)
  | exit
  | unlock
  | wait
  | lock2
  | increment
  | post2 (i : ℕ)
  | unlock2
  | wait2
  deriving DecidableEq

section
variable (n nthreads : ℕ)

/-- The header of the loop over the borders; `swapped` says where it ends. -/
def borderLoop (regionLength : ℤ) (i : ℕ) (swapped : Bool) (m : Memory nthreads) : Pc :=
  if i < nthreads then
    if m.vec (i * regionLength - 1) > m.vec (i * regionLength) then .borderSwap i
    else .border (i + 1) swapped
  else if swapped then .post 0 else .print 0

/-- The statements of thread `t`. `sem_wait` is blocked while the semaphore is 0. -/
def instr (t : Fin nthreads) : Pc → Instr Lock Empty (Memory nthreads) Pc Unit
  | .outer cur => .exec fun _ m =>
      some (m, if cur ≤ (region n nthreads t).right then .inner cur cur else .lock)
  | .inner cur tmp => .exec fun _ m =>
      some (m, if tmp ≥ (region n nthreads t).left + 1 ∧ m.vec (tmp - 1) > m.vec tmp then .swap cur tmp
        else .outer (cur + 1))
  | .swap cur tmp => .exec fun _ m =>
      some ({ m with vec := DeviceProgramming.swap m.vec (tmp - 1) tmp }, .inner cur (tmp - 1))
  | .lock => .acquire .barrier .decrement
  | .decrement => .exec fun _ m =>
      some ({ m with counter := m.counter - 1 }, if m.counter - 1 = 0 then .border 1 false else .unlock)
  | .border i swapped => .exec fun _ m =>
      some (m, borderLoop nthreads (region n nthreads t).regionLength i swapped m)
  | .borderSwap i => .exec fun _ m =>
      let regionLength := (region n nthreads t).regionLength
      some ({ m with vec := DeviceProgramming.swap m.vec (i * regionLength - 1) (i * regionLength) },
        .border (i + 1) true)
  | .post i => .exec fun _ m =>
      some (if i < nthreads then ({ m with sem := m.sem + 1 }, .post (i + 1)) else (m, .unlock))
  | .print cur => .exec fun _ m =>
      some (if cur < n then ({ m with printed := m.printed ++ [(cur, m.vec cur)] }, .print (cur + 1))
        else (m, .exit))
  | .exit => .exec fun _ m => some ({ m with exited := true }, .exit)
  | .unlock => .release .barrier .wait
  | .wait => .exec fun _ m => if m.sem = 0 then none else some ({ m with sem := m.sem - 1 }, .lock2)
  | .lock2 => .acquire .barrier .increment
  | .increment => .exec fun _ m =>
      some ({ m with counter := m.counter + 1 }, if m.counter + 1 = nthreads then .post2 0 else .unlock2)
  | .post2 i => .exec fun _ m =>
      some (if i < nthreads then ({ m with sem2 := m.sem2 + 1 }, .post2 (i + 1)) else (m, .unlock2))
  | .unlock2 => .release .barrier .wait2
  | .wait2 => .exec fun _ m =>
      if m.sem2 = 0 then none
      else some ({ m with sem2 := m.sem2 - 1, round := Function.update m.round t (m.round t + 1) },
        .outer (region n nthreads t).left)

/-- The threads as a concurrent program, which `exit` ends as a whole. -/
def program : Program (Fin nthreads) Lock Empty (Memory nthreads) Pc Unit where
  instr := instr n nthreads
  halted m := m.exited

abbrev State := Threads (Fin nthreads) Lock Empty (Memory nthreads) Pc

/-- The threads as `main` launches them on the array `vec`. -/
def launch (vec : ℤ → ℤ) : State nthreads where
  mem := { vec := vec, counter := nthreads, sem := 0, sem2 := 0, printed := [], exited := false,
           round := fun _ => 0 }
  owner _ := none
  thread t := .run (.outer (region n nthreads t).left)

/-- The runs of the threads on `vec`. -/
abbrev sorting (vec : ℤ → ℤ) : System (State nthreads) (Fin nthreads × Unit) :=
  (program n nthreads).system (· = launch n nthreads vec)

end

end DeviceProgramming.ParallelSort
