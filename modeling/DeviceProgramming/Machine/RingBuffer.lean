import Mathlib.Data.List.Basic
import Mathlib.Data.Nat.ModEq
import Mathlib.Logic.Function.Basic

namespace DeviceProgramming

/-- A circular buffer: the cells, the next cell to fill, the next one to take,
the number of values in it and its capacity. -/
structure RingBuffer (α : Type*) where
  buffer : ℕ → α
  into : ℕ
  out : ℕ
  count : ℕ
  dim : ℕ

namespace RingBuffer
variable {α : Type*}

/-- A new buffer of capacity `dim` in memory with any contents. -/
def create (memory : ℕ → α) (dim : ℕ) : RingBuffer α where
  buffer := memory
  into := 0
  out := 0
  count := 0
  dim := dim

def fill (b : RingBuffer α) (x : α) : RingBuffer α :=
  { b with
    buffer := Function.update b.buffer b.into x
    into := if b.into + 1 = b.dim then 0 else b.into + 1
    count := b.count + 1 }

def first (b : RingBuffer α) : α := b.buffer b.out

def take (b : RingBuffer α) : RingBuffer α :=
  { b with
    out := if b.out + 1 = b.dim then 0 else b.out + 1
    count := b.count - 1 }

/-- The values in the buffer, the oldest first. -/
def contents (b : RingBuffer α) : List α :=
  (List.range b.count).map fun j => b.buffer ((b.out + j) % b.dim)

/-- The indices are in range and `into` is `count` cells after `out`. -/
structure Valid (b : RingBuffer α) : Prop where
  count_le : b.count ≤ b.dim
  into_lt : 0 < b.dim → b.into < b.dim
  out_lt : 0 < b.dim → b.out < b.dim
  distance : 0 < b.dim → b.into = (b.out + b.count) % b.dim

variable {b : RingBuffer α}

@[simp] theorem length_contents (b : RingBuffer α) : b.contents.length = b.count := by
  simp [contents]

@[simp] theorem contents_create (memory : ℕ → α) (dim : ℕ) : (create memory dim).contents = [] := rfl

theorem valid_create (memory : ℕ → α) (dim : ℕ) : (create memory dim).Valid where
  count_le := Nat.zero_le _
  into_lt positive := positive
  out_lt positive := positive
  distance positive := by simp [create]

/-- The successor of an index in a circular buffer. -/
theorem wrap_eq {i dim : ℕ} (within : i < dim) : (if i + 1 = dim then 0 else i + 1) = (i + 1) % dim := by
  split
  · rename_i last
    rw [last, Nat.mod_self]
  · rw [Nat.mod_eq_of_lt (by omega)]

theorem Valid.fill (valid : b.Valid) (space : b.count ≠ b.dim) (x : α) : (b.fill x).Valid := by
  have bound := valid.count_le
  have positive : 0 < b.dim := by omega
  have into := valid.into_lt positive
  refine ⟨?_, fun _ => ?_, fun _ => valid.out_lt positive, fun _ => ?_⟩
  · change b.count + 1 ≤ b.dim
    omega
  · change (if b.into + 1 = b.dim then 0 else b.into + 1) < b.dim
    rw [wrap_eq into]
    exact Nat.mod_lt _ positive
  · change (if b.into + 1 = b.dim then 0 else b.into + 1) = (b.out + (b.count + 1)) % b.dim
    rw [wrap_eq into, valid.distance positive, Nat.mod_add_mod, Nat.add_assoc]

theorem Valid.take (valid : b.Valid) (some : b.count ≠ 0) : b.take.Valid := by
  have bound := valid.count_le
  have positive : 0 < b.dim := by omega
  have out := valid.out_lt positive
  refine ⟨?_, fun _ => valid.into_lt positive, fun _ => ?_, fun _ => ?_⟩
  · change b.count - 1 ≤ b.dim
    omega
  · change (if b.out + 1 = b.dim then 0 else b.out + 1) < b.dim
    rw [wrap_eq out]
    exact Nat.mod_lt _ positive
  · change b.into = ((if b.out + 1 = b.dim then 0 else b.out + 1) + (b.count - 1)) % b.dim
    rw [wrap_eq out, Nat.mod_add_mod, valid.distance positive]
    congr 1
    omega

/-- A value put into a buffer with space is its last one. -/
theorem Valid.contents_fill (valid : b.Valid) (space : b.count ≠ b.dim) (x : α) :
    (b.fill x).contents = b.contents ++ [x] := by
  have bound := valid.count_le
  have positive : 0 < b.dim := by omega
  have into := valid.distance positive
  have last : (b.fill x).buffer ((b.out + b.count) % b.dim) = x := by
    simp [RingBuffer.fill, ← into]
  have others (j : ℕ) (member : j ∈ List.range b.count) :
      (b.fill x).buffer ((b.out + j) % b.dim) = b.buffer ((b.out + j) % b.dim) := by
    have before := List.mem_range.mp member
    refine Function.update_of_ne (fun same => ?_) _ _
    rw [into] at same
    have equal : j ≡ b.count [MOD b.dim] := Nat.ModEq.add_left_cancel' b.out same
    have index : j = b.count := equal.eq_of_lt_of_lt (by omega) (by omega)
    omega
  change (List.range (b.count + 1)).map (fun j => (b.fill x).buffer ((b.out + j) % b.dim)) = _
  rw [List.range_succ, List.map_append, List.map_congr_left others, List.map_singleton, last]
  rfl

/-- Once a value has been taken the others are one nearer to `out`. -/
theorem Valid.index_take (valid : b.Valid) (some : b.count ≠ 0) (j : ℕ) :
    (b.out + (j + 1)) % b.dim = (b.take.out + j) % b.dim := by
  have bound := valid.count_le
  have out := valid.out_lt (by omega)
  change _ = ((if b.out + 1 = b.dim then 0 else b.out + 1) + j) % b.dim
  rw [wrap_eq out, Nat.mod_add_mod]
  congr 1
  omega

/-- The value taken out of a buffer is its first one. -/
theorem Valid.contents_take (valid : b.Valid) (some : b.count ≠ 0) :
    b.contents = b.first :: b.take.contents := by
  have bound := valid.count_le
  have positive : 0 < b.dim := by omega
  have out := valid.out_lt positive
  obtain ⟨rest, size⟩ := Nat.exists_eq_succ_of_ne_zero some
  have fewer : b.take.count = rest := by
    change b.count - 1 = rest
    omega
  rw [contents, contents, size, List.range_succ_eq_map, List.map_cons, List.map_map, fewer]
  congr 1
  · rw [Nat.add_zero, Nat.mod_eq_of_lt out]
    rfl
  · exact List.map_congr_left fun j _ => by rw [Function.comp_apply, Nat.succ_eq_add_one, valid.index_take some]; rfl

/-- Two buffers with the same values in the same cells; the other cells may differ. -/
structure Alike (b b' : RingBuffer α) : Prop where
  into : b'.into = b.into
  out : b'.out = b.out
  count : b'.count = b.count
  dim : b'.dim = b.dim
  cells : ∀ j, j < b.count → b'.buffer ((b.out + j) % b.dim) = b.buffer ((b.out + j) % b.dim)

theorem alike_create (memory memory' : ℕ → α) (dim : ℕ) : (create memory dim).Alike (create memory' dim) :=
  ⟨rfl, rfl, rfl, rfl, fun _ within => absurd within (Nat.not_lt_zero _)⟩

variable {b' : RingBuffer α}

theorem Alike.contents (alike : b.Alike b') : b'.contents = b.contents := by
  rw [RingBuffer.contents, RingBuffer.contents, alike.count, alike.out, alike.dim]
  exact List.map_congr_left fun j member => alike.cells j (List.mem_range.mp member)

theorem Alike.first (alike : b.Alike b') (valid : b.Valid) (some : b.count ≠ 0) : b'.first = b.first := by
  have bound := valid.count_le
  have cell := alike.cells 0 (by omega)
  rw [Nat.add_zero, Nat.mod_eq_of_lt (valid.out_lt (by omega))] at cell
  rw [RingBuffer.first, alike.out]
  exact cell

theorem Alike.fill (alike : b.Alike b') (valid : b.Valid) (space : b.count ≠ b.dim) (x : α) :
    (b.fill x).Alike (b'.fill x) := by
  have bound := valid.count_le
  have into := valid.distance (by omega)
  refine ⟨?_, alike.out, ?_, alike.dim, fun j within => ?_⟩
  · simp only [RingBuffer.fill, alike.into, alike.dim]
  · simp only [RingBuffer.fill, alike.count]
  · change j < b.count + 1 at within
    change Function.update b'.buffer b'.into x ((b.out + j) % b.dim) =
      Function.update b.buffer b.into x ((b.out + j) % b.dim)
    rw [alike.into]
    by_cases last : (b.out + j) % b.dim = b.into
    · rw [last, Function.update_self, Function.update_self]
    · have old : j ≠ b.count := by
        rintro rfl
        exact last into.symm
      rw [Function.update_of_ne last, Function.update_of_ne last]
      exact alike.cells j (by omega)

theorem Alike.take (alike : b.Alike b') (valid : b.Valid) (some : b.count ≠ 0) : b.take.Alike b'.take := by
  refine ⟨alike.into, ?_, ?_, alike.dim, fun j within => ?_⟩
  · simp only [RingBuffer.take, alike.out, alike.dim]
  · simp only [RingBuffer.take, alike.count]
  · change j < b.count - 1 at within
    change b'.buffer ((b.take.out + j) % b.dim) = b.buffer ((b.take.out + j) % b.dim)
    rw [← valid.index_take some]
    exact alike.cells (j + 1) (by omega)

end RingBuffer
end DeviceProgramming
