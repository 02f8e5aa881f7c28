import Mathlib.Data.Multiset.Bind

namespace DeviceProgramming

variable {α : Type*}

/-- `whole` consists of the lists in `parts`, each used once, some of them
written one behind the other. -/
def Regrouped (whole parts : Multiset (List α)) : Prop :=
  ∃ groups : Multiset (List (List α)), whole = groups.map List.flatten ∧
    parts = groups.bind fun group => (group : Multiset (List α))

namespace Regrouped

theorem refl (parts : Multiset (List α)) : Regrouped parts parts := by
  refine ⟨parts.map fun part => [part], ?_, ?_⟩
  · simp
  · rw [Multiset.bind_map]
    exact (Multiset.bind_singleton parts id).trans (Multiset.map_id parts) |>.symm

/-- Two lists are written one behind the other. -/
theorem join {x y : List α} {rest parts : Multiset (List α)} (before : Regrouped (x ::ₘ y ::ₘ rest) parts) :
    Regrouped ((x ++ y) ::ₘ rest) parts := by
  classical
  obtain ⟨groups, whole, all⟩ := before
  obtain ⟨first, inside, rfl, others⟩ := (Multiset.map_eq_cons _ _ _ _).mpr whole.symm
  obtain ⟨second, inside2, rfl, remaining⟩ := (Multiset.map_eq_cons _ _ _ _).mpr others
  obtain ⟨groups, rfl⟩ := Multiset.exists_cons_of_mem inside
  rw [Multiset.erase_cons_head] at inside2 remaining
  obtain ⟨groups, rfl⟩ := Multiset.exists_cons_of_mem inside2
  rw [Multiset.erase_cons_head] at remaining
  refine ⟨(first ++ second) ::ₘ groups, ?_, ?_⟩
  · rw [Multiset.map_cons, List.flatten_append, remaining]
  · rw [all]
    simp only [Multiset.cons_bind, ← Multiset.coe_add, add_assoc]

end Regrouped

end DeviceProgramming
