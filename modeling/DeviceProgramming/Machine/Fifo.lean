import Mathlib.Data.List.Basic

namespace DeviceProgramming.Fifo

/-- What is done to a queue. -/
inductive Event (α : Type*)
  | put (x : α)
  | get (x : α)

variable {α : Type*}

def puts (events : List (Event α)) : List α := events.filterMap fun
  | .put x => some x
  | .get _ => none

def gets (events : List (Event α)) : List α := events.filterMap fun
  | .put _ => none
  | .get x => some x

/-- The histories of a bounded queue, the latest event last, with what is queued
after them. -/
inductive Run (capacity : ℕ) : List (Event α) → List α → Prop
  | start : Run capacity [] []
  | put {events queue} (x : α) : Run capacity events queue → queue.length < capacity →
      Run capacity (events ++ [.put x]) (queue ++ [x])
  | get {events x queue} : Run capacity events (x :: queue) → Run capacity (events ++ [.get x]) queue

variable {capacity : ℕ} {events : List (Event α)} {queue : List α}

@[simp] theorem puts_put (events : List (Event α)) (x : α) : puts (events ++ [.put x]) = puts events ++ [x] := by
  simp [puts]

@[simp] theorem puts_get (events : List (Event α)) (x : α) : puts (events ++ [.get x]) = puts events := by
  simp [puts]

@[simp] theorem gets_put (events : List (Event α)) (x : α) : gets (events ++ [.put x]) = gets events := by
  simp [gets]

@[simp] theorem gets_get (events : List (Event α)) (x : α) : gets (events ++ [.get x]) = gets events ++ [x] := by
  simp [gets]

/-- What has been put is what has been got and then what is still queued. -/
theorem Run.puts_eq (run : Run capacity events queue) : puts events = gets events ++ queue := by
  induction run with
  | start => rfl
  | put x _ _ ih => rw [puts_put, gets_put, ih, List.append_assoc]
  | get _ ih => rw [puts_get, gets_get, ih, List.append_assoc, List.singleton_append]

end DeviceProgramming.Fifo
