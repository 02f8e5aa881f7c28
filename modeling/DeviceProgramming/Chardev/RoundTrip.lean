import DeviceProgramming.Chardev.Device

namespace DeviceProgramming.Chardev

variable {m bytes : List UInt8} {d : Device} {o c : ℕ} {counts : List ℕ}

/-- Message `m` fills the content of the device. -/
structure Device.Contains (d : Device) (m : List UInt8) : Prop where
  size : d.contentSize = m.length
  bytes : ∀ c, c ≤ m.length → (List.range c).map d.charDevBuf = m.take c

theorem map_range_getD (m : List UInt8) {c : ℕ} (le : c ≤ m.length) :
    (List.range c).map (fun i => m.getD i 0) = m.take c := by
  refine List.ext_getElem (by simp [le]) fun i inside _ => ?_
  simp only [List.length_map, List.length_range] at inside
  simp [List.getD, show i < m.length by omega]

/-- A message that fits is the content after it has been written. -/
theorem contains_deviceWrite (fits : m.length ≤ bufLen) (d : Device) :
    (deviceWrite (fun i => m.getD i 0) m.length 0 d).2.Contains m := by
  have size : (if m.length > bufLen then bufLen else m.length) = m.length := if_neg (not_lt.mpr fits)
  constructor
  · exact size
  · intro c le
    rw [← map_range_getD m le]
    refine List.map_congr_left fun i inside => ?_
    rw [List.mem_range] at inside
    have here : i < m.length := by omega
    simp [deviceWrite, size, here]

theorem Device.Contains.open (contains : d.Contains m) {d' : Device}
    (opened : deviceOpen false (deviceRelease d).2 = some (0, d')) : d'.Contains m ∧ d'.offset = 0 := by
  simp only [deviceOpen, deviceRelease, Bool.false_eq_true, if_false, Nat.add_one_ne_zero, Option.some.injEq,
    Prod.mk.injEq, true_and] at opened
  subst opened
  exact ⟨⟨contains.size, contains.bytes⟩, rfl⟩

/-- A read copies from the beginning of the message, wherever the offset is. -/
theorem Device.Contains.read (contains : d.Contains m) (more : d.offset < m.length) (count : ℕ) :
    deviceRead count 0 d =
      (((min count m.length : ℕ) : ℤ), m.take count, { d with offset := d.offset + min count m.length }) := by
  have clamp : (if count > d.contentSize then d.contentSize else count) = min count m.length := by
    rw [contains.size]
    split <;> omega
  have taken : m.take (min count m.length) = m.take count := by
    rw [List.take_eq_take_iff]
    omega
  rw [deviceRead, if_neg (by rw [contains.size]; omega)]
  simp only [clamp, Nat.sub_zero, contains.bytes _ (Nat.min_le_right _ _), taken]

theorem Device.Contains.read_end (contains : d.Contains m) (done : m.length ≤ d.offset) (count : ℕ) :
    deviceRead count 0 d = (0, [], d) := by
  rw [deviceRead, if_pos (by rw [contains.size]; omega)]

/-- Every read at an offset inside the message asks for bytes that are the same
there as at the beginning of the message. -/
def Repeats (m : List UInt8) : ℕ → List ℕ → Prop
  | _, [] => True
  | o, count :: rest => (o < m.length → (m.drop o).take count = m.take count) ∧ Repeats m (o + count) rest

theorem repeats_end (done : m.length ≤ o) : Repeats m o counts := by
  induction counts generalizing o with
  | nil => trivial
  | cons count rest ih => exact ⟨fun more => absurd more (by omega), ih (by omega)⟩

theorem readAll_end (contains : d.Contains m) (done : m.length ≤ d.offset)
    (ended : readAll counts d = some bytes) : bytes = [] := by
  cases counts with
  | nil => cases ended
  | cons count rest =>
    simp only [readAll, contains.read_end done, if_true, Option.some.injEq] at ended
    exact ended.symm

/-- What reads from an offset return is the rest of the message exactly when
the message repeats its beginning at each of them. -/
theorem readAll_iff (contains : d.Contains m) (offset : d.offset = o) (inside : o ≤ m.length)
    (positive : ∀ c ∈ counts, 0 < c) (ended : readAll counts d = some bytes) :
    bytes = m.drop o ↔ Repeats m o counts := by
  induction counts generalizing d o bytes with
  | nil => cases ended
  | cons count rest ih =>
    subst offset
    rcases Nat.lt_or_ge d.offset m.length with more | done
    · obtain ⟨here, later⟩ := List.forall_mem_cons.mp positive
      have some : ((min count m.length : ℕ) : ℤ) ≠ 0 := by omega
      simp only [readAll, contains.read more, if_neg some] at ended
      obtain ⟨tail, last, rfl⟩ := Option.map_eq_some_iff.mp ended
      have contains' : Device.Contains { d with offset := d.offset + min count m.length } m :=
        ⟨contains.size, contains.bytes⟩
      simp only [Repeats, more, forall_const]
      rcases Nat.lt_or_ge (m.length - d.offset) count with beyond | within
      · -- this read goes past the end of the message
        obtain rfl := readAll_end contains' (by simp only; omega) last
        rw [List.append_nil, List.take_of_length_le (l := m.drop d.offset) (by rw [List.length_drop]; omega)]
        have rest : Repeats m (d.offset + count) rest := repeats_end (by omega)
        exact ⟨fun same => ⟨same.symm, rest⟩, fun same => same.1.symm⟩
      · have clamp : min count m.length = count := by omega
        have ih := ih contains' (o := d.offset + count) (by simp only [clamp]) (by omega) later last
        have split : m.drop d.offset = (m.drop d.offset).take count ++ m.drop (d.offset + count) := by
          rw [← List.drop_drop, List.take_append_drop]
        have length : (m.take count).length = ((m.drop d.offset).take count).length := by
          simp only [List.length_take, List.length_drop]
          omega
        rw [← ih]
        constructor
        · intro whole
          rw [split] at whole
          obtain ⟨first, second⟩ := List.append_inj whole length
          exact ⟨first.symm, second⟩
        · rintro ⟨first, second⟩
          rw [split, first, second]
    · rw [readAll_end contains done ended, List.drop_of_length_le done]
      exact ⟨fun _ => repeats_end done, fun _ => rfl⟩

/-- Enough reads come to the end. -/
theorem readAll_isSome (contains : d.Contains m) (positive : ∀ c ∈ counts, 0 < c)
    (enough : m.length - d.offset < counts.length) : (readAll counts d).isSome = true := by
  induction counts generalizing d with
  | nil => simp at enough
  | cons count rest ih =>
    rcases Nat.lt_or_ge d.offset m.length with more | done
    · obtain ⟨here, later⟩ := List.forall_mem_cons.mp positive
      have some : ((min count m.length : ℕ) : ℤ) ≠ 0 := by omega
      have contains' : Device.Contains { d with offset := d.offset + min count m.length } m :=
        ⟨contains.size, contains.bytes⟩
      rw [List.length_cons] at enough
      simp only [readAll, contains.read more, if_neg some, Option.isSome_map]
      exact ih contains' later (by simp only; omega)
    · simp only [readAll, contains.read_end done, if_true, Option.isSome_some]

/-- A message that has been written to the device, and is read after the device
has been opened again, comes back whole exactly when it repeats its beginning at
each read; and reads with positive counts come to its end. -/
theorem round_trip_iff (fits : m.length ≤ bufLen) (d : Device) {d' : Device}
    (opened : deviceOpen false (deviceRelease (deviceWrite (fun i => m.getD i 0) m.length 0 d).2).2 =
      some (0, d')) (positive : ∀ c ∈ counts, 0 < c) :
    (m.length < counts.length → (readAll counts d').isSome = true) ∧
      ∀ bytes, readAll counts d' = some bytes → (bytes = m ↔ Repeats m 0 counts) := by
  obtain ⟨contains, offset⟩ := (contains_deviceWrite fits d).open opened
  refine ⟨fun enough => readAll_isSome contains positive (by omega), fun bytes ended => ?_⟩
  have whole := readAll_iff contains offset (Nat.zero_le _) positive ended
  rwa [List.drop_zero] at whole

/-- A message of two bytes, read with one large count before the read that returns 0. -/
theorem round_trip_iff_largeCount :
    ∃ d', deviceOpen false (deviceRelease
        (deviceWrite (fun i => [1, 2].getD i 0) 2 0 (Device.init fun _ => 0)).2).2 = some (0, d') ∧
      readAll [5, 1] d' = some [1, 2] ∧ Repeats [1, 2] 0 [5, 1] := by
  refine ⟨_, rfl, by decide, ?_⟩
  exact ((@round_trip_iff [1, 2] [5, 1] (by decide) (Device.init fun _ => 0) _ rfl
    (by decide)).2 [1, 2] (by decide)).mp rfl

/-- Read byte by byte, the message `[1, 2]` comes back as `[1, 1]`. -/
theorem round_trip_fails :
    ¬ ∀ (m : List UInt8) (d d' : Device) (counts : List ℕ) (bytes : List UInt8), m.length ≤ bufLen →
      deviceOpen false (deviceRelease (deviceWrite (fun i => m.getD i 0) m.length 0 d).2).2 = some (0, d') →
      (∀ c ∈ counts, 0 < c) → readAll counts d' = some bytes → bytes = m := by
  intro claim
  have wrong : ([1, 1] : List UInt8) = [1, 2] :=
    claim [1, 2] (Device.init fun _ => 0) _ [1, 1, 1] [1, 1] (by decide) rfl (by decide) (by decide)
  revert wrong
  decide

end DeviceProgramming.Chardev
