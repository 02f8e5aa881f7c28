import DeviceProgramming.Machine.Inevitable

namespace DeviceProgramming.System

variable {σ α τ β : Type*}

/-- Each step of `S` that meets `ok` is matched by a step of `T` that meets `allowed`. -/
def Simulates (S : System σ α) (T : System τ β) (ok : σ → α → Prop) (allowed : τ → β → Prop)
    (related : σ → τ → Prop) : Prop :=
  ∀ {s t a s'}, related s t → ok s a → S.next s a = some s' →
    ∃ b t', allowed t b ∧ T.next t b = some t' ∧ related s' t'

variable {S : System σ α} {T : System τ β} {ok : σ → α → Prop} {allowed : τ → β → Prop} {related : σ → τ → Prop}
  {s : σ} {t : τ}

/-- Every run of `S` is matched by a run of `T`. -/
theorem Simulates.reach (simulates : Simulates S T ok allowed related)
    (initial : ∀ s, S.start s → ∃ t, T.start t ∧ related s t) (reach : S.ReachUnder ok s) :
    ∃ t, T.ReachUnder allowed t ∧ related s t := by
  induction reach with
  | start begun =>
    obtain ⟨t, begun', here⟩ := initial _ begun
    exact ⟨t, .start begun', here⟩
  | next _ fine step ih =>
    obtain ⟨t, reached, here⟩ := ih
    obtain ⟨b, t', fine', step', there⟩ := simulates here fine step
    exact ⟨t', reached.next fine' step', there⟩

/-- What `T` inevitably comes to `S` comes to, as long as `S` can go on. -/
theorem Simulates.inevitable {goal : σ → Prop} {goal' : τ → Prop} (simulates : Simulates S T ok allowed related)
    (arrives : ∀ s t, related s t → goal' t → goal s)
    (goes : ∀ s t, related s t → ¬ goal s → ∃ a s', S.next s a = some s') (here : related s t)
    (certain : T.Inevitable allowed goal' t) : S.Inevitable ok goal s := by
  induction certain generalizing s with
  | now arrived => exact .now (arrives _ _ here arrived)
  | later _ _ ih =>
    by_cases arrived : goal s
    · exact .now arrived
    · refine .later (goes _ _ here arrived) fun a s' fine step => ?_
      obtain ⟨b, t', fine', step', there⟩ := simulates here fine step
      exact ih b t' fine' step' there

/-- An inevitable goal that a run has not come to is inevitable from there on. -/
theorem Inevitable.of_run {goal : σ → Prop} [∀ s a, Decidable (ok s a)] {labels : List α} {s' : σ}
    (certain : S.Inevitable ok goal s) (computed : S.runUnder ok labels s = some s')
    (never : ∀ first, first <+: labels → ∀ u, S.runUnder ok first s = some u → ¬ goal u) : S.Inevitable ok goal s' := by
  induction labels generalizing s with
  | nil =>
    cases Option.some.inj computed
    exact certain
  | cons label rest ih =>
    obtain ⟨allowed, middle, first, later⟩ := runUnder_cons computed
    cases certain with
    | now arrived => exact absurd arrived (never [] List.nil_prefix s rfl)
    | later _ ends =>
      refine ih (ends label middle allowed first) later fun before start u reached => ?_
      refine never (label :: before) (List.cons_prefix_cons.mpr ⟨rfl, start⟩) u ?_
      rw [runUnder_next allowed first, reached]

/-- A goal is not inevitable where a run without it comes back to its first state. -/
theorem not_inevitable_of_cycle {goal : σ → Prop} [∀ s a, Decidable (ok s a)] {labels : List α}
    (around : S.runUnder ok labels s = some s) (moves : labels ≠ [])
    (never : ∀ first, first <+: labels → ∀ u, S.runUnder ok first s = some u → ¬ goal u) :
    ¬ S.Inevitable ok goal s := by
  have goes {u : σ} {first rest : List α} (split : labels = first ++ rest) (reached : S.runUnder ok first s = some u)
      (more : rest ≠ []) : ∃ a u', ok u a ∧ S.next u a = some u' ∧
        ∃ first' rest', labels = first' ++ rest' ∧ rest' ≠ [] ∧ S.runUnder ok first' s = some u' := by
    obtain ⟨a, later, rfl⟩ := List.exists_cons_of_ne_nil more
    have onwards : S.runUnder ok (a :: later) u = some s := by
      rw [← runUnder_append reached, ← split, around]
    obtain ⟨allowed, middle, step, _⟩ := runUnder_cons onwards
    refine ⟨a, middle, allowed, step, ?_⟩
    have reached' : S.runUnder ok (first ++ [a]) s = some middle := by
      rw [runUnder_append reached, runUnder_next allowed step]
      rfl
    cases later with
    | nil =>
      rw [← split, around] at reached'
      cases Option.some.inj reached'
      exact ⟨[], labels, rfl, moves, rfl⟩
    | cons b others => exact ⟨first ++ [a], b :: others, by simp [split], by simp, reached'⟩
  intro certain
  suffices never_ends : ∀ u, S.Inevitable ok goal u → ∀ first rest, labels = first ++ rest → rest ≠ [] →
      S.runUnder ok first s ≠ some u from never_ends s certain [] labels rfl moves rfl
  intro u certain
  induction certain with
  | now arrived => exact fun first rest split _ reached => never first ⟨rest, split.symm⟩ _ reached arrived
  | later _ _ ih =>
    intro first rest split more reached
    obtain ⟨a, u', allowed, step, first', rest', split', more', reached'⟩ := goes split reached more
    exact ih a u' allowed step first' rest' split' more' reached'

end DeviceProgramming.System
