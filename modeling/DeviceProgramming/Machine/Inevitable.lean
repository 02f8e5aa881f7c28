import DeviceProgramming.Machine.System
import Mathlib.Order.WellFounded

namespace DeviceProgramming.System

variable {σ α β : Type*}

/-- From `s` on the system comes to `goal` in every run whose steps meet `ok`: it
can go on until it is there, and does not go on for ever. -/
inductive Inevitable (S : System σ α) (ok : σ → α → Prop) (goal : σ → Prop) : σ → Prop
  | now {s : σ} : goal s → Inevitable S ok goal s
  | later {s : σ} : (∃ a t, S.next s a = some t) →
      (∀ a t, ok s a → S.next s a = some t → Inevitable S ok goal t) → Inevitable S ok goal s

variable {S : System σ α} {ok : σ → α → Prop} {goal : σ → Prop} {s : σ}

/-- The rule of total correctness: an invariant under which the system can go on
until the goal, and a rank that each step brings down. -/
theorem Inevitable.of_rank [Preorder β] [WellFoundedLT β] (inv : σ → Prop) (rank : σ → β)
    (keeps : ∀ s a t, inv s → ok s a → S.next s a = some t → inv t)
    (goes : ∀ s, inv s → ¬ goal s → ∃ a t, S.next s a = some t)
    (falls : ∀ s a t, inv s → ¬ goal s → ok s a → S.next s a = some t → rank t < rank s)
    (here : inv s) : S.Inevitable ok goal s := by
  induction level : rank s using WellFoundedLT.induction generalizing s with
  | _ level ih =>
    subst level
    by_cases arrived : goal s
    · exact .now arrived
    · refine .later (goes s here arrived) fun a t allowed step => ?_
      exact ih (rank t) (falls s a t here arrived allowed step) (keeps s a t here allowed step) rfl

/-- The rule with a history that the invariant and the rank speak of, and that each step
carries on. -/
theorem Inevitable.of_history [Preorder β] [WellFoundedLT β] {γ : Type*} (inv : σ → γ → Prop) (rank : σ → γ → β)
    (goes : ∀ s g, inv s g → ¬ goal s → ∃ a t, S.next s a = some t)
    (falls : ∀ s g a t, inv s g → ¬ goal s → ok s a → S.next s a = some t → ∃ g', inv t g' ∧ rank t g' < rank s g)
    {g : γ} (here : inv s g) : S.Inevitable ok goal s := by
  induction level : rank s g using WellFoundedLT.induction generalizing s g with
  | _ level ih =>
    subst level
    by_cases arrived : goal s
    · exact .now arrived
    · refine .later (goes s g here arrived) fun a t allowed step => ?_
      obtain ⟨g', there, less⟩ := falls s g a t here arrived allowed step
      exact ih (rank t g') less there rfl

/-- The system whose steps all meet `allowed`. -/
def under (S : System σ α) (allowed : σ → α → Prop) [∀ s a, Decidable (allowed s a)] : System σ α where
  start := S.start
  next s a := if allowed s a then S.next s a else none

theorem under_next {allowed : σ → α → Prop} [∀ s a, Decidable (allowed s a)] {s t : σ} {a : α} :
    (S.under allowed).next s a = some t ↔ allowed s a ∧ S.next s a = some t := by
  by_cases may : allowed s a <;> simp [under, may]

/-- The rule for a system whose steps all meet `allowed`. -/
theorem Inevitable.under_of_history [Preorder β] [WellFoundedLT β] {γ : Type*} {allowed : σ → α → Prop}
    [∀ s a, Decidable (allowed s a)] (inv : σ → γ → Prop) (rank : σ → γ → β)
    (goes : ∀ s g, inv s g → ¬ goal s → ∃ a t, allowed s a ∧ S.next s a = some t)
    (falls : ∀ s g a t, inv s g → ¬ goal s → allowed s a → S.next s a = some t →
      ∃ g', inv t g' ∧ rank t g' < rank s g)
    {g : γ} (here : inv s g) : (S.under allowed).Inevitable (fun _ _ => True) goal s := by
  refine of_history inv rank (fun s g holds away => ?_) (fun s g a t holds away _ step => ?_) here
  · obtain ⟨a, t, may, step⟩ := goes s g holds away
    exact ⟨a, t, under_next.mpr ⟨may, step⟩⟩
  · obtain ⟨may, step⟩ := under_next.mp step
    exact falls s g a t holds away may step

/-- Where some step can always be taken, a run comes to an inevitable goal. -/
theorem Inevitable.exists_run {allowed : σ → α → Prop} [∀ s a, Decidable (allowed s a)] (inv : σ → Prop)
    (goes : ∀ s, inv s → ¬ goal s → ∃ a t, ok s a ∧ allowed s a ∧ S.next s a = some t ∧ inv t) (here : inv s)
    (certain : S.Inevitable ok goal s) : ∃ labels t, S.runUnder allowed labels s = some t ∧ goal t := by
  induction certain with
  | @now s arrived => exact ⟨[], s, rfl, arrived⟩
  | @later s _ _ ih =>
    by_cases arrived : goal s
    · exact ⟨[], s, rfl, arrived⟩
    · obtain ⟨a, middle, fine, may, step, there⟩ := goes s here arrived
      obtain ⟨labels, t, run, arrives⟩ := ih a middle fine step there
      exact ⟨a :: labels, t, by rw [runUnder_next may step, run], arrives⟩

end DeviceProgramming.System
