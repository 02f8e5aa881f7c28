import DeviceProgramming.Machine.Count
import Mathlib.Data.Fintype.Card

namespace DeviceProgramming.Barrier

/-- Where a thread is in the barrier. The last thread to arrive gives a permit
of the first semaphore to each thread, the last one to be counted again a
permit of the second one. -/
inductive Place
  | arriving
  | opening (left : ℕ)
  | gathered
  | passed
  | closing (left : ℕ)
  | counted
  deriving DecidableEq

/-- The counter, the two semaphores, and the round and place of each thread. -/
structure State (Tid : Type*) where
  counter : ℤ
  sem : ℕ
  sem2 : ℕ
  round : Tid → ℕ
  place : Tid → Place

variable {Tid : Type*} [Fintype Tid] [DecidableEq Tid]

/-- The barrier before anyone has arrived. -/
def start (Tid : Type*) [Fintype Tid] : State Tid where
  counter := Fintype.card Tid
  sem := 0
  sem2 := 0
  round _ := 0
  place _ := .arriving

/-- The moves of a thread through the barrier. -/
inductive Step (t : Tid) (s : State Tid) : State Tid → Prop
  | arrive : s.place t = .arriving → s.counter - 1 ≠ 0 →
      Step t s { s with counter := s.counter - 1, place := Function.update s.place t .gathered }
  | arriveLast : s.place t = .arriving → s.counter - 1 = 0 →
      Step t s { s with counter := s.counter - 1
                        place := Function.update s.place t (.opening (Fintype.card Tid)) }
  | give {left} : s.place t = .opening (left + 1) →
      Step t s { s with sem := s.sem + 1, place := Function.update s.place t (.opening left) }
  | opened : s.place t = .opening 0 → Step t s { s with place := Function.update s.place t .gathered }
  | pass : s.place t = .gathered → 0 < s.sem →
      Step t s { s with sem := s.sem - 1, place := Function.update s.place t .passed }
  | count : s.place t = .passed → s.counter + 1 ≠ Fintype.card Tid →
      Step t s { s with counter := s.counter + 1, place := Function.update s.place t .counted }
  | countLast : s.place t = .passed → s.counter + 1 = Fintype.card Tid →
      Step t s { s with counter := s.counter + 1
                        place := Function.update s.place t (.closing (Fintype.card Tid)) }
  | give2 {left} : s.place t = .closing (left + 1) →
      Step t s { s with sem2 := s.sem2 + 1, place := Function.update s.place t (.closing left) }
  | closed : s.place t = .closing 0 → Step t s { s with place := Function.update s.place t .counted }
  | leave : s.place t = .counted → 0 < s.sem2 →
      Step t s { s with sem2 := s.sem2 - 1, round := Function.update s.round t (s.round t + 1)
                        place := Function.update s.place t .arriving }

namespace Place

def arrivals : Place → ℕ
  | arriving => 1
  | _ => 0

def gathers : Place → ℕ
  | opening _ | gathered => 1
  | _ => 0

def passes : Place → ℕ
  | passed => 1
  | _ => 0

def counts : Place → ℕ
  | closing _ | counted => 1
  | _ => 0

/-- The permits of the first semaphore that a thread has still to give. -/
def opens : Place → ℕ
  | opening left => left
  | _ => 0

/-- The permits of the second semaphore that a thread has still to give. -/
def closes : Place → ℕ
  | closing left => left
  | _ => 0

end Place

namespace State

/-- The sum of a weight over the places of all threads. -/
def sum (weight : Place → ℕ) (s : State Tid) : ℕ := total (fun _ => weight) s.place

omit [DecidableEq Tid] in
/-- Every thread is in one of the four phases. -/
theorem sum_phases (s : State Tid) :
    s.sum Place.arrivals + s.sum Place.gathers + s.sum Place.passes + s.sum Place.counts =
      Fintype.card Tid := by
  have one (t : Tid) : (s.place t).arrivals + (s.place t).gathers + (s.place t).passes +
      (s.place t).counts = 1 := by
    cases s.place t <;> rfl
  simp only [sum, total, ← Finset.sum_add_distrib, one]
  simp

omit [DecidableEq Tid] in
theorem weight_le_sum (weight : Place → ℕ) (s : State Tid) (t : Tid) : weight (s.place t) ≤ s.sum weight :=
  weight_le_total (fun _ => weight) s.place t

end State

/-- A place and round while the threads gather in round `r`: those that have
arrived wait for the others, some of which may still be leaving the round before. -/
def Place.Gathers (r : ℕ) : Place → ℕ → Prop
  | arriving, round | gathered, round => round = r
  | closing _, round | counted, round => round + 1 = r
  | _, _ => False

/-- A place and round once all threads have arrived in round `r`. -/
def Place.Releases (r : ℕ) : Place → ℕ → Prop
  | gathered, round | opening _, round | passed, round | counted, round => round = r
  | _, _ => False

theorem Place.Gathers.round {r round : ℕ} {p : Place} (gathers : p.Gathers r round) :
    round = r ∨ round + 1 = r := by
  cases p with
  | arriving | gathered => exact Or.inl gathers
  | closing | counted => exact Or.inr gathers
  | opening | passed => exact gathers.elim

theorem Place.Releases.round {r round : ℕ} {p : Place} (releases : p.Releases r round) : round = r := by
  cases p with
  | gathered | opening | passed | counted => exact releases
  | arriving | closing => exact releases.elim

structure Gathering (r : ℕ) (s : State Tid) : Prop where
  place : ∀ t, (s.place t).Gathers r (s.round t)
  sem : s.sem = 0
  sem2 : s.sem2 + s.sum Place.closes = s.sum Place.counts
  counter : s.counter = s.sum Place.arrivals + s.sum Place.counts
  positive : 0 < s.counter

structure Releasing (r : ℕ) (s : State Tid) : Prop where
  place : ∀ t, (s.place t).Releases r (s.round t)
  sem : s.sem + s.sum Place.opens = s.sum Place.gathers
  sem2 : s.sem2 = 0
  counter : s.counter = s.sum Place.counts
  below : s.counter < Fintype.card Tid

section
variable {s s' : State Tid} {t : Tid} {r : ℕ}

omit [DecidableEq Tid] in
theorem gathering_start [Nonempty Tid] : Gathering 0 (start Tid) where
  place t := rfl
  sem := rfl
  sem2 := by simp [start, State.sum, total, Place.closes, Place.counts]
  counter := by simp [start, State.sum, total, Place.arrivals, Place.counts]
  positive := by
    have some : 0 < Fintype.card Tid := Fintype.card_pos
    simp only [start]
    omega

omit [DecidableEq Tid] in
theorem Gathering.sum_passes (inv : Gathering r s) : s.sum Place.passes = 0 := total_eq_zero.mpr fun t => by
  have place := inv.place t
  cases here : s.place t <;> rw [here] at place <;> first | rfl | exact place.elim

omit [DecidableEq Tid] in
theorem Gathering.sum_opens (inv : Gathering r s) : s.sum Place.opens = 0 := total_eq_zero.mpr fun t => by
  have place := inv.place t
  cases here : s.place t <;> rw [here] at place <;> first | rfl | exact place.elim

omit [DecidableEq Tid] in
theorem Releasing.sum_arrivals (inv : Releasing r s) : s.sum Place.arrivals = 0 :=
  total_eq_zero.mpr fun t => by
    have place := inv.place t
    cases here : s.place t <;> rw [here] at place <;> first | rfl | exact place.elim

omit [DecidableEq Tid] in
theorem Releasing.sum_closes (inv : Releasing r s) : s.sum Place.closes = 0 :=
  total_eq_zero.mpr fun t => by
    have place := inv.place t
    cases here : s.place t <;> rw [here] at place <;> first | rfl | exact place.elim

theorem Step.sum (weight : Place → ℕ) (step : Step t s s') :
    s'.sum weight + weight (s.place t) = s.sum weight + weight (s'.place t) := by
  cases step <;> simp only [Function.update_self] <;> exact total_update (fun _ => weight) s.place t _

omit [Fintype Tid] in
theorem place_update {holds : Place → ℕ → Prop} {round : Tid → ℕ} {p : Place}
    (others : ∀ u, u ≠ t → holds (s.place u) (round u)) (own : holds p (round t)) (u : Tid) :
    holds (Function.update s.place t p u) (round u) := by
  by_cases here : u = t
  · subst here
    rwa [Function.update_self]
  · rw [Function.update_of_ne here]
    exact others u here

/-- When the last thread arrives everyone else is waiting. -/
theorem Gathering.others_gathered (inv : Gathering r s) (here : s.place t = .arriving)
    (last : s.counter - 1 = 0) {u : Tid} (other : u ≠ t) : s.place u = .gathered := by
  have counter := inv.counter
  have own := s.weight_le_sum Place.arrivals t
  have left := s.weight_le_sum Place.counts u
  have moved := total_update (fun _ => Place.arrivals) s.place t .gathered
  have arrived := weight_le_total (fun _ => Place.arrivals) (Function.update s.place t .gathered) u
  rw [Function.update_of_ne other] at arrived
  rw [here] at own moved
  change 1 ≤ _ at own
  change _ + 1 = s.sum Place.arrivals + 0 at moved
  have place := inv.place u
  cases now : s.place u <;> rw [now] at place arrived left
  case arriving => change 1 ≤ _ at arrived; omega
  case counted | closing => change 1 ≤ _ at left; omega
  all_goals exact place.elim

/-- While the threads gather, a step leaves them gathering or is the last arrival. -/
theorem Gathering.step (inv : Gathering r s) (step : Step t s s') :
    Gathering r s' ∨ Releasing r s' ∧ s.place t = .arriving ∧ s.counter - 1 = 0 := by
  have arrivals := step.sum Place.arrivals
  have gathers := step.sum Place.gathers
  have counts := step.sum Place.counts
  have opens := step.sum Place.opens
  have closes := step.sum Place.closes
  have counter := inv.counter
  have sem2 := inv.sem2
  have place := inv.place t
  have positive := inv.positive
  cases step with
  | arrive here more =>
    simp only [here, Function.update_self, Place.arrivals, Place.counts, Place.closes] at arrivals counts closes
    rw [here] at place
    refine Or.inl ⟨place_update (fun u _ => inv.place u) place, inv.sem, ?_, ?_, ?_⟩ <;> dsimp only <;> omega
  | arriveLast here last =>
    have phases := s.sum_phases
    have passes := inv.sum_passes
    have none := inv.sum_opens
    have some : 0 < Fintype.card Tid := Fintype.card_pos_iff.mpr ⟨t⟩
    simp only [here, Function.update_self, Place.arrivals, Place.gathers, Place.counts, Place.opens]
      at arrivals gathers counts opens
    have own := s.weight_le_sum Place.arrivals t
    rw [here] at own place
    change 1 ≤ _ at own
    have closed := inv.sem
    have others (u : Tid) (other : u ≠ t) : (s.place u).Releases r (s.round u) := by
      have waiting := inv.place u
      rw [inv.others_gathered here last other] at waiting ⊢
      exact waiting
    refine Or.inr ⟨⟨place_update others place, ?_, ?_, ?_, ?_⟩, here, last⟩ <;> dsimp only <;> omega
  | give here | opened here | count here | countLast here =>
    rw [here] at place
    exact place.elim
  | pass here permit =>
    rw [inv.sem] at permit
    cases permit
  | give2 here =>
    simp only [here, Function.update_self, Place.arrivals, Place.counts, Place.closes] at arrivals counts closes
    rw [here] at place
    refine Or.inl ⟨place_update (fun u _ => inv.place u) place, inv.sem, ?_, ?_, ?_⟩ <;> dsimp only <;> omega
  | closed here =>
    simp only [here, Function.update_self, Place.arrivals, Place.counts, Place.closes] at arrivals counts closes
    rw [here] at place
    refine Or.inl ⟨place_update (fun u _ => inv.place u) place, inv.sem, ?_, ?_, ?_⟩ <;> dsimp only <;> omega
  | leave here permit =>
    simp only [here, Function.update_self, Place.arrivals, Place.counts, Place.closes] at arrivals counts closes
    rw [here] at place
    have others (u : Tid) (other : u ≠ t) :
        (s.place u).Gathers r (Function.update s.round t (s.round t + 1) u) := by
      rw [Function.update_of_ne other]
      exact inv.place u
    have own : Place.arriving.Gathers r (Function.update s.round t (s.round t + 1) t) := by
      rw [Function.update_self]
      exact place
    refine Or.inl ⟨place_update others own, inv.sem, ?_, ?_, ?_⟩ <;> dsimp only <;> omega

/-- When the last thread is counted everyone else has been counted. -/
theorem Releasing.others_counted (inv : Releasing r s) (here : s.place t = .passed)
    (last : s.counter + 1 = Fintype.card Tid) {u : Tid} (other : u ≠ t) : s.place u = .counted := by
  have counter := inv.counter
  have phases := s.sum_phases
  have own := s.weight_le_sum Place.passes t
  have gathered := s.weight_le_sum Place.gathers u
  have moved := total_update (fun _ => Place.passes) s.place t .counted
  have passed := weight_le_total (fun _ => Place.passes) (Function.update s.place t .counted) u
  rw [Function.update_of_ne other] at passed
  rw [here] at own moved
  change 1 ≤ _ at own
  change _ + 1 = s.sum Place.passes + 0 at moved
  have place := inv.place u
  cases now : s.place u <;> rw [now] at place passed gathered
  case passed => change 1 ≤ _ at passed; omega
  case gathered | opening => change 1 ≤ _ at gathered; omega
  all_goals exact place.elim

/-- While the threads are released, a step leaves them so or counts the last one. -/
theorem Releasing.step (inv : Releasing r s) (step : Step t s s') :
    Releasing r s' ∨ Gathering (r + 1) s' ∧ ∀ u, s'.place u = .counted ∨ ∃ left, s'.place u = .closing left := by
  have arrivals := step.sum Place.arrivals
  have gathers := step.sum Place.gathers
  have passes := step.sum Place.passes
  have counts := step.sum Place.counts
  have opens := step.sum Place.opens
  have closes := step.sum Place.closes
  have counter := inv.counter
  have sem := inv.sem
  have place := inv.place t
  have below := inv.below
  cases step with
  | arrive here | arriveLast here | give2 here | closed here =>
    rw [here] at place
    exact place.elim
  | leave here permit =>
    rw [inv.sem2] at permit
    cases permit
  | give here | opened here | pass here permit | count here more =>
    simp only [here, Function.update_self, Place.gathers, Place.counts, Place.opens] at gathers counts opens
    rw [here] at place
    refine Or.inl ⟨place_update (fun u _ => inv.place u) place, ?_, inv.sem2, ?_, ?_⟩ <;>
      dsimp only <;> omega
  | countLast here last =>
    have phases := s.sum_phases
    have none := inv.sum_closes
    have unarrived := inv.sum_arrivals
    have own := s.weight_le_sum Place.passes t
    have closed := inv.sem2
    simp only [here, Function.update_self, Place.arrivals, Place.gathers, Place.passes, Place.counts,
      Place.closes] at arrivals gathers passes counts closes own
    rw [here] at place
    have others (u : Tid) (other : u ≠ t) : (s.place u).Gathers (r + 1) (s.round u) := by
      have counted := inv.place u
      rw [inv.others_counted here last other] at counted ⊢
      exact congrArg (· + 1) counted
    refine Or.inr ⟨⟨place_update others (congrArg (· + 1) place), ?_, ?_, ?_, ?_⟩, fun u => ?_⟩
    · dsimp only
      omega
    · dsimp only
      omega
    · dsimp only
      omega
    · dsimp only
      omega
    · by_cases own : u = t
      · subst own
        exact Or.inr ⟨_, Function.update_self ..⟩
      · simp only [Function.update_of_ne own]
        exact Or.inl (inv.others_counted here last own)

/-- The invariant of the barrier. -/
def Inv (s : State Tid) : Prop := ∃ r, Gathering r s ∨ Releasing r s

omit [DecidableEq Tid] in
theorem inv_start [Nonempty Tid] : Inv (start Tid) := ⟨0, Or.inl gathering_start⟩

theorem Inv.step (inv : Inv s) (step : Step t s s') : Inv s' := by
  obtain ⟨r, gathering | releasing⟩ := inv
  · rcases gathering.step step with stays | ⟨opens, _⟩
    · exact ⟨r, Or.inl stays⟩
    · exact ⟨r, Or.inr opens⟩
  · rcases releasing.step step with stays | ⟨closes, _⟩
    · exact ⟨r, Or.inr stays⟩
    · exact ⟨r + 1, Or.inl closes⟩

omit [DecidableEq Tid] in
/-- The counter and the semaphores stay between 0 and the number of threads. -/
theorem Inv.bounds (inv : Inv s) : 0 ≤ s.counter ∧ s.counter ≤ Fintype.card Tid ∧
    s.sem ≤ Fintype.card Tid ∧ s.sem2 ≤ Fintype.card Tid := by
  have phases := s.sum_phases
  obtain ⟨r, gathering | releasing⟩ := inv
  · have counter := gathering.counter
    have sem := gathering.sem
    have sem2 := gathering.sem2
    omega
  · have counter := releasing.counter
    have sem := releasing.sem
    have sem2 := releasing.sem2
    omega

omit [DecidableEq Tid] in
/-- No thread is more than one round ahead of another. -/
theorem Inv.round_le (inv : Inv s) (t u : Tid) : s.round t ≤ s.round u + 1 := by
  obtain ⟨r, gathering | releasing⟩ := inv
  · have first := (gathering.place t).round
    have second := (gathering.place u).round
    omega
  · have first := (releasing.place t).round
    have second := (releasing.place u).round
    omega

omit [DecidableEq Tid] in
/-- Nobody is still arriving while the barrier is being opened. -/
theorem Inv.not_arriving_of_opening (inv : Inv s) {left : ℕ} (opening : s.place t = .opening left) (u : Tid) :
    s.place u ≠ .arriving := by
  intro arriving
  obtain ⟨r, gathering | releasing⟩ := inv
  · have place := gathering.place t
    rw [opening] at place
    exact place
  · have place := releasing.place u
    rw [arriving] at place
    exact place

/-- A thread waits at an empty semaphore. -/
def State.Waits (s : State Tid) (t : Tid) : Prop :=
  (s.place t = .gathered ∧ s.sem = 0) ∨ (s.place t = .counted ∧ s.sem2 = 0)

omit [DecidableEq Tid] in
/-- The threads never all wait at empty semaphores. -/
theorem Inv.exists_not_waits [Nonempty Tid] (inv : Inv s) : ∃ t, ¬ s.Waits t := by
  by_contra all
  simp only [not_exists, not_not] at all
  obtain ⟨r, gathering | releasing⟩ := inv
  · have arrivals : s.sum Place.arrivals = 0 := total_eq_zero.mpr fun t => by
      rcases all t with ⟨at', _⟩ | ⟨at', _⟩ <;> rw [at'] <;> rfl
    have closes : s.sum Place.closes = 0 := total_eq_zero.mpr fun t => by
      rcases all t with ⟨at', _⟩ | ⟨at', _⟩ <;> rw [at'] <;> rfl
    have counter := gathering.counter
    have positive := gathering.positive
    have sem2 := gathering.sem2
    have some : 0 < s.sum Place.counts := by omega
    obtain ⟨t, counted⟩ := exists_of_total_pos some
    rcases all t with ⟨at', _⟩ | ⟨_, empty⟩
    · rw [at'] at counted; cases counted
    · omega
  · have opens : s.sum Place.opens = 0 := total_eq_zero.mpr fun t => by
      rcases all t with ⟨at', _⟩ | ⟨at', _⟩ <;> rw [at'] <;> rfl
    have passes : s.sum Place.passes = 0 := total_eq_zero.mpr fun t => by
      rcases all t with ⟨at', _⟩ | ⟨at', _⟩ <;> rw [at'] <;> rfl
    have arrivals := releasing.sum_arrivals
    have phases := s.sum_phases
    have counter := releasing.counter
    have below := releasing.below
    have sem := releasing.sem
    have some : 0 < s.sum Place.gathers := by omega
    obtain ⟨t, gathered⟩ := exists_of_total_pos some
    rcases all t with ⟨_, empty⟩ | ⟨at', _⟩
    · omega
    · rw [at'] at gathered; cases gathered

end

end DeviceProgramming.Barrier
