import DeviceProgramming.MergeSort.Sequential
import DeviceProgramming.Machine.System

namespace DeviceProgramming.MergeSort

/-- The shared `data`. -/
structure Data where
  vet : ℤ → ℤ
  mutex : Bool

/-- An activation of `threaded_sort({left, right})`, with the activations below
it: the threads it has created and not yet joined, or the call it waits for. -/
inductive Task : ℤ → ℤ → Type
  | start (left right : ℤ) : Task left right
  | create1 {left right : ℤ} (more : left < right) : Task left right
  | create2 {left right : ℤ} (more : left < right) (thread1 : Task left (middle left right)) : Task left right
  | join1 {left right : ℤ} (more : left < right) (thread1 : Task left (middle left right))
      (thread2 : Task (middle left right + 1) right) : Task left right
  | join2 {left right : ℤ} (more : left < right) (thread2 : Task (middle left right + 1) right) :
      Task left right
  | call1 {left right : ℤ} (more : left < right) (below : Task left (middle left right)) : Task left right
  | call2 {left right : ℤ} (more : left < right) (below : Task (middle left right + 1) right) : Task left right
  | lock {left right : ℤ} (more : left < right) : Task left right
  | merge {left right : ℤ} (more : left < right) : Task left right
  | unlock {left right : ℤ} (more : left < right) : Task left right
  | ret (left right : ℤ) : Task left right

namespace Task

def isReturned {left right : ℤ} : Task left right → Bool
  | ret _ _ => true
  | _ => false

/-- Which of the two activations below the current one. -/
inductive Half
  | first
  | second
  deriving DecidableEq

/-- One step in the tree of activations; the label is the way from the top to
the activation that moves. `forks` says where threads are created. -/
def step (forks : ℤ → ℤ → Bool) :
    {left right : ℤ} → Task left right → List Half → Data → Option (Task left right × Data)
  | _, _, start left right, [], d =>
    if more : left < right then
      some (if forks left right then create1 more else call1 more (start ..), d)
    else some (ret .., d)
  | _, _, create1 more, [], d => some (create2 more (start ..), d)
  | _, _, create2 more thread1, [], d => some (join1 more thread1 (start ..), d)
  | _, _, create2 more thread1, .first :: way, d =>
    (thread1.step forks way d).map fun (thread1, d) => (create2 more thread1, d)
  | _, _, join1 more thread1 thread2, [], d =>
    if thread1.isReturned then some (join2 more thread2, d) else none
  | _, _, join1 more thread1 thread2, .first :: way, d =>
    (thread1.step forks way d).map fun (thread1, d) => (join1 more thread1 thread2, d)
  | _, _, join1 more thread1 thread2, .second :: way, d =>
    (thread2.step forks way d).map fun (thread2, d) => (join1 more thread1 thread2, d)
  | _, _, join2 more thread2, [], d => if thread2.isReturned then some (lock more, d) else none
  | _, _, join2 more thread2, .second :: way, d =>
    (thread2.step forks way d).map fun (thread2, d) => (join2 more thread2, d)
  | _, _, call1 more below, [], d => if below.isReturned then some (call2 more (start ..), d) else none
  | _, _, call1 more below, .first :: way, d =>
    (below.step forks way d).map fun (below, d) => (call1 more below, d)
  | _, _, call2 more below, [], d => if below.isReturned then some (lock more, d) else none
  | _, _, call2 more below, .second :: way, d =>
    (below.step forks way d).map fun (below, d) => (call2 more below, d)
  | _, _, lock more, [], d => if d.mutex then none else some (merge more, { d with mutex := true })
  | left, right, merge more, [], d =>
    some (unlock more, { d with vet := MergeSort.merge d.vet left (middle left right) right })
  | _, _, unlock _, [], d => some (ret .., { d with mutex := false })
  | _, _, _, _, _ => none

/-- What the array becomes when an activation and all those below it go on in
the order of the sequential program. -/
def finish : {left right : ℤ} → Task left right → (ℤ → ℤ) → ℤ → ℤ
  | _, _, start left right, vet => mergeSort vet left right
  | left, right, create1 _, vet =>
    MergeSort.merge (mergeSort (mergeSort vet left (middle left right)) (middle left right + 1) right) left
      (middle left right) right
  | left, right, create2 _ thread1, vet | left, right, call1 _ thread1, vet =>
    MergeSort.merge (mergeSort (thread1.finish vet) (middle left right + 1) right) left (middle left right) right
  | left, right, join1 _ thread1 thread2, vet =>
    MergeSort.merge (thread2.finish (thread1.finish vet)) left (middle left right) right
  | left, right, join2 _ thread2, vet | left, right, call2 _ thread2, vet =>
    MergeSort.merge (thread2.finish vet) left (middle left right) right
  | left, right, lock _, vet | left, right, merge _, vet =>
    MergeSort.merge vet left (middle left right) right
  | _, _, unlock _, vet | _, _, ret _ _, vet => vet

theorem finish_of_returned {left right : ℤ} {task : Task left right} (returned : task.isReturned = true) :
    task.finish = id := by
  cases task <;> cases returned
  rfl

/-- An activation and those below it work on their range only. -/
theorem finish_actsOn {left right : ℤ} (task : Task left right) : ActsOn (Set.Icc left right) task.finish := by
  induction task with
  | start left right => exact mergeSort_actsOn left right
  | create1 more => exact halves_actsOn more (mergeSort_actsOn ..) (mergeSort_actsOn ..)
  | create2 more thread1 ih | call1 more thread1 ih => exact halves_actsOn more ih (mergeSort_actsOn ..)
  | join1 more thread1 thread2 ih1 ih2 => exact halves_actsOn more ih1 ih2
  | join2 more thread2 ih | call2 more thread2 ih => exact halves_actsOn more (ActsOn.id _) ih
  | lock more | merge more => exact merge_actsOn (le_middle more) (middle_lt more)
  | unlock | ret => exact ActsOn.id _

/-- A step does not change what the sequential order would end with: a step in
the second half commutes with the rest of the first half. -/
theorem finish_step {forks : ℤ → ℤ → Bool} {left right : ℤ} {task task' : Task left right} {way : List Half}
    {d d' : Data} (step : task.step forks way d = some (task', d')) :
    task'.finish d'.vet = task.finish d.vet := by
  induction task generalizing way d d' with
  | start left right =>
    cases way with
    | cons => cases step
    | nil =>
      rw [Task.step] at step
      split at step
      · rename_i more
        cases step
        rw [finish, mergeSort_lt _ more]
        split <;> rfl
      · rename_i done
        cases step
        rw [finish, finish, mergeSort_le _ done]
  | create1 more =>
    cases way with
    | cons => cases step
    | nil => cases step; rfl
  | create2 more thread1 ih =>
    rcases way with _ | ⟨_ | _, way⟩
    · cases step; rfl
    · obtain ⟨⟨thread1', e⟩, moved, same⟩ := Option.map_eq_some_iff.mp step
      cases same
      rw [finish, finish, ih moved]
    · cases step
  | call1 more below ih =>
    rcases way with _ | ⟨_ | _, way⟩
    · rw [Task.step] at step
      split at step
      · rename_i returned
        cases step
        rw [finish, finish, finish, finish_of_returned returned, id]
      · cases step
    · obtain ⟨⟨below', e⟩, moved, same⟩ := Option.map_eq_some_iff.mp step
      cases same
      rw [finish, finish, ih moved]
    · cases step
  | @join1 left right more thread1 thread2 ih1 ih2 =>
    rcases way with _ | ⟨_ | _, way⟩
    · rw [Task.step] at step
      split at step
      · rename_i returned
        cases step
        rw [finish, finish, finish_of_returned returned, id]
      · cases step
    · obtain ⟨⟨thread1', e⟩, moved, same⟩ := Option.map_eq_some_iff.mp step
      cases same
      rw [finish, finish, ih1 moved]
    · obtain ⟨⟨thread2', e⟩, moved, same⟩ := Option.map_eq_some_iff.mp step
      cases same
      have apart := disjoint_halves left right
      rw [finish, finish, ← thread1.finish_actsOn.comm thread2'.finish_actsOn apart,
        ← thread1.finish_actsOn.comm thread2.finish_actsOn apart, ih2 moved]
  | join2 more thread2 ih | call2 more thread2 ih =>
    rcases way with _ | ⟨_ | _, way⟩
    · rw [Task.step] at step
      split at step
      · rename_i returned
        cases step
        rw [finish, finish, finish_of_returned returned, id]
      · cases step
    · cases step
    · obtain ⟨⟨thread2', e⟩, moved, same⟩ := Option.map_eq_some_iff.mp step
      cases same
      rw [finish, finish, ih moved]
  | lock more =>
    cases way with
    | cons => cases step
    | nil =>
      rw [Task.step] at step
      split at step
      · cases step
      · cases step; rfl
  | merge more =>
    cases way with
    | cons => cases step
    | nil => cases step; rfl
  | unlock more =>
    cases way with
    | cons => cases step
    | nil => cases step; rfl
  | ret =>
    cases way <;> cases step

end Task

/-- The runs of `threaded_sort({0, n-1})` on an array. -/
def sorting (forks : ℤ → ℤ → Bool) (n : ℕ) (vet : ℤ → ℤ) :
    System (Task 0 ((n : ℤ) - 1) × Data) (List Task.Half) where
  start s := s = (.start 0 ((n : ℤ) - 1), ⟨vet, false⟩)
  next s way := s.1.step forks way s.2

/-- `threaded_sort` of Lab2.1 creates threads at every level. -/
def Lab2_1.threadedSort (n : ℕ) (vet : ℤ → ℤ) : System (Task 0 ((n : ℤ) - 1) × Data) (List Task.Half) :=
  sorting (fun _ _ => true) n vet

/-- `threaded_sort` of Lab2.2 creates threads for ranges of at least `threshold`. -/
def Lab2_2.threadedSort (threshold : ℤ) (n : ℕ) (vet : ℤ → ℤ) :
    System (Task 0 ((n : ℤ) - 1) × Data) (List Task.Half) :=
  sorting (fun left right => decide (right - left ≥ threshold)) n vet

theorem finish_of_reach {forks : ℤ → ℤ → Bool} {n : ℕ} {vet : ℤ → ℤ} {s : Task 0 ((n : ℤ) - 1) × Data}
    (reach : (sorting forks n vet).Reach s) : s.1.finish s.2.vet = mergeSort vet 0 ((n : ℤ) - 1) := by
  refine reach.invariant (motive := fun s => s.1.finish s.2.vet = mergeSort vet 0 ((n : ℤ) - 1)) ?_ ?_
  · rintro s rfl
    rfl
  · intro s t way _ before _ moved
    exact (Task.finish_step moved).trans before

theorem returned_of_reach {forks : ℤ → ℤ → Bool} {n : ℕ} {vet : ℤ → ℤ} {s : Task 0 ((n : ℤ) - 1) × Data}
    (reach : (sorting forks n vet).Reach s) (returned : s.1.isReturned = true) :
    s.2.vet = mergeSort vet 0 ((n : ℤ) - 1) := by
  rw [← finish_of_reach reach, Task.finish_of_returned returned, id]

/-- When `threaded_sort({0, n-1})` returns, under any schedule and any
threshold, the array is what `mergeSort(vet, 0, n-1)` makes of it: its elements in order. -/
theorem threaded_sort_refines (n : ℕ) (vet : ℤ → ℤ) (s : Task 0 ((n : ℤ) - 1) × Data)
    (reach : (∃ threshold, (Lab2_2.threadedSort threshold n vet).Reach s) ∨ (Lab2_1.threadedSort n vet).Reach s)
    (returned : s.1.isReturned = true) :
    s.2.vet = mergeSort vet 0 ((n : ℤ) - 1) ∧ (cells s.2.vet 0 n).Pairwise (· ≤ ·) ∧
      (cells s.2.vet 0 n).Perm (cells vet 0 n) := by
  have same : s.2.vet = mergeSort vet 0 ((n : ℤ) - 1) := by
    rcases reach with ⟨threshold, reach⟩ | reach
    · exact returned_of_reach reach returned
    · exact returned_of_reach reach returned
  have sorted := mergeSort_sorts vet 0 ((n : ℤ) - 1)
  have perm := mergeSort_perm vet 0 ((n : ℤ) - 1)
  rw [← same, sub_add_cancel] at sorted perm
  exact ⟨same, sorted, perm⟩

/-- A schedule that sorts three elements: the second thread runs first. -/
def secondFirst : List (List Task.Half) :=
  [[], [], [], [.second], [.first], [.first], [.first], [.first, .first], [.first], [.first, .second], [.first],
    [.first], [.first], [.first], [], [], [], [], []]

set_option maxRecDepth 10000 in
theorem threaded_sort_refines_secondFirst :
    ∃ s : Task 0 (((3 : ℕ) : ℤ) - 1) × Data, s.1.isReturned = true ∧
      s.2.vet = mergeSort (fun z => -z) 0 (((3 : ℕ) : ℤ) - 1) ∧ (cells s.2.vet 0 (3 : ℕ)).Pairwise (· ≤ ·) := by
  have computed : ((Lab2_1.threadedSort 3 fun z => -z).run secondFirst
      (.start 0 (((3 : ℕ) : ℤ) - 1), ⟨fun z => -z, false⟩)).map (fun s => s.1.isReturned) = some true := by decide
  obtain ⟨s, reached, returned⟩ := Option.map_eq_some_iff.mp computed
  have reach : (Lab2_1.threadedSort 3 fun z => -z).Reach s := .of_run (.start rfl) reached
  obtain ⟨same, sorted, _⟩ := threaded_sort_refines 3 (fun z => -z) s (Or.inr reach) returned
  exact ⟨s, returned, same, sorted⟩

end DeviceProgramming.MergeSort
