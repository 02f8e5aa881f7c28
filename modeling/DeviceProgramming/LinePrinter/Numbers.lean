import DeviceProgramming.LinePrinter.Passes

namespace DeviceProgramming.LinePrinter

open Lines

variable {file body read rest text a b : List UInt8} {number : ℕ} {x : ℤ} {c : UInt8} {s : State}

/-- The digits of a number come behind the sign and the newline in the code. -/
theorem digit_ge (digit : c ∈ (Nat.toDigits 10 number).map Char.toUInt8) : 48 ≤ c.toNat := by
  obtain ⟨d, member, rfl⟩ := List.mem_map.mp digit
  have bounds := Nat.isDigit_of_mem_toDigits (by omega) (by omega) member
  simp only [Char.isDigit, Bool.and_eq_true, decide_eq_true_eq, ge_iff_le, UInt32.le_iff_toNat_le] at bounds
  obtain ⟨lower, upper⟩ := bounds
  have zero : '0'.val.toNat = 48 := rfl
  have nine : '9'.val.toNat = 57 := rfl
  have code : d.toUInt8.toNat = d.val.toNat % 256 := rfl
  omega

theorem newline_not_mem_decimal (x : ℤ) : newline ∉ decimal x := by
  intro member
  rcases List.mem_append.mp member with sign | digit
  · split at sign
    · cases List.mem_singleton.mp sign
    · cases sign
  · have bound := digit_ge digit
    exact absurd bound (by decide)

/-- A negative number is printed with its sign, and no line number has one. -/
theorem decimal_negative_ne (negative : x < 0) (number : ℕ) (a b : List UInt8) :
    decimal x ++ a ≠ decimal number ++ b := by
  intro same
  have nonneg : ¬ (number : ℤ) < 0 := by omega
  obtain ⟨c, digits, here⟩ := List.exists_cons_of_ne_nil (Nat.toDigits_ne_nil (n := number) (b := 10))
  have member : c ∈ Nat.toDigits 10 number := by
    rw [here]
    exact List.mem_cons_self ..
  have first : 48 ≤ c.toUInt8.toNat := digit_ge (List.mem_map_of_mem member)
  rw [decimal, decimal, if_pos negative, if_neg nonneg, Int.natAbs_natCast, here] at same
  have head : minus = c.toUInt8 := (List.cons.inj same).1
  rw [← head] at first
  exact absurd first (by decide)

theorem string_eq (free : 0 ∉ text) : string text = text := by
  rw [string, List.takeWhile_eq_self_iff]
  intro c member
  simp only [decide_eq_true_eq]
  rintro rfl
  exact free member

theorem int32_succ (fits : number + 1 < 2 ^ 31) : int32 (number + 1) = (number + 1 : ℕ) :=
  int32_of_range (by omega) (by push_cast; omega)

/-- A line number is printed as it is until it does not fit into an `int`. -/
theorem printf_eq_iff (small : number < 2 ^ 31) :
    printf (int32 (number + 1)) read ++ a = decimal (number + 1 : ℕ) ++ space :: b ↔
      number + 1 < 2 ^ 31 ∧ string read ++ a = b := by
  by_cases fits : number + 1 < 2 ^ 31
  · rw [int32_succ fits, printf, List.append_assoc, List.append_cancel_left_eq, List.cons_append, List.cons_inj_right]
    exact ⟨fun equal => ⟨fits, equal⟩, And.right⟩
  · have negative : int32 (number + 1) < 0 := by
      unfold int32
      omega
    rw [printf, List.append_assoc]
    exact ⟨fun same => absurd same (decimal_negative_ne negative _ _ _), fun both => absurd both.1 fits⟩

/-- The first newline comes behind the prefix. -/
theorem width_printf (x : ℤ) (a : List UInt8) :
    width newline (printf x read ++ a) = (decimal x).length + 1 + width newline (string read ++ a) := by
  have free : newline ∉ decimal x ++ [space] := by
    rw [List.mem_append, List.mem_singleton]
    exact not_or.mpr ⟨newline_not_mem_decimal x, by decide⟩
  have apart : printf x read ++ a = (decimal x ++ [space]) ++ (string read ++ a) := by
    simp [printf]
  rw [apart, width_append free, List.length_append, List.length_singleton]

theorem fgets_long (free : newline ∉ body) (long : 99 ≤ body.length) (rest : List UInt8) :
    fgets 100 (body ++ rest) = some (body.take 99, body.drop 99 ++ rest) := by
  have some : body ++ rest ≠ [] := by
    intro empty
    rw [(List.append_eq_nil_iff.mp empty).1] at long
    simp at long
  rw [fgets, if_neg some, piece_long free long]

theorem fgets_line (free : newline ∉ body) (short : body.length < 99) (rest : List UInt8) :
    fgets 100 (body ++ newline :: rest) = some (body ++ [newline], rest) := by
  rw [fgets, if_neg (by simp), piece_line free short]

theorem fgets_last (free : newline ∉ body) (some : body ≠ []) (short : body.length ≤ 99) :
    fgets 100 body = .some (body, []) := by
  rw [fgets, if_neg some, piece_last free short]

/-- Bytes of one line. -/
structure Plain (body : List UInt8) : Prop where
  line : newline ∉ body
  text : 0 ∉ body

theorem Plain.take (plain : Plain body) (n : ℕ) : Plain (body.take n) :=
  ⟨fun member => plain.line (List.mem_of_mem_take member), fun member => plain.text (List.mem_of_mem_take member)⟩

theorem Plain.drop (plain : Plain body) (n : ℕ) : Plain (body.drop n) :=
  ⟨fun member => plain.line (List.mem_of_mem_drop member), fun member => plain.text (List.mem_of_mem_drop member)⟩

theorem Plain.string_line (plain : Plain body) : string (body ++ [newline]) = body ++ [newline] := by
  refine string_eq ?_
  rw [List.mem_append, List.mem_singleton]
  exact not_or.mpr ⟨plain.text, by decide⟩

/-- What follows the bytes of a line. -/
def Follows (after : List UInt8) : Prop := after = [] ∨ ∃ more, after = newline :: more

theorem Follows.width_eq (follows : Follows rest) : width newline rest = 0 := by
  rcases follows with rfl | ⟨more, rfl⟩
  · exact width_nil
  · exact width_sep more

/-- The first line that is printed is longer than the first line of the file. -/
theorem width_printed (plain : Plain body) (follows : Follows rest) (some : body ++ rest ≠ []) (x : ℤ) :
    body.length < width newline (printed x (body ++ rest)) := by
  induction length : body.length using Nat.strong_induction_on generalizing body x with
  | _ length ih =>
    subst length
    by_cases long : 99 ≤ body.length
    · have cut : (body.take 99).length = 99 := List.length_take_of_le long
      have left : (body.drop 99).length = body.length - 99 := List.length_drop
      rw [printed_some (fgets_long plain.line long rest), width_printf, string_eq (plain.take 99).text,
        width_append (plain.take 99).line]
      by_cases more : body.drop 99 ++ rest = []
      · have none := congrArg List.length (List.append_eq_nil_iff.mp more).1
        rw [List.length_nil] at none
        omega
      · have later := ih _ (by omega) (plain.drop 99) more (int32 (x + 1)) rfl
        omega
    · rcases follows with rfl | ⟨more, rfl⟩
      · rw [List.append_nil] at some ⊢
        rw [printed_some (fgets_last plain.line some (by omega)), width_printf, string_eq plain.text,
          width_append plain.line]
        omega
      · rw [printed_some (fgets_line plain.line (by omega) more), width_printf, plain.string_line, List.append_assoc,
          width_append plain.line]
        omega

/-- A line that does not fit into the array is printed with a number in its midst. -/
theorem printed_long_ne (plain : Plain body) (long : 99 ≤ body.length) (follows : Follows rest)
    (more : body.drop 99 ++ rest ≠ []) (follows' : Follows b) (small : number < 2 ^ 31) :
    printed number (body ++ rest) ≠ decimal (number + 1 : ℕ) ++ space :: (body ++ b) := by
  intro same
  rw [printed_some (fgets_long plain.line long rest), printf_eq_iff small, string_eq (plain.take 99).text] at same
  have split : body ++ b = body.take 99 ++ (body.drop 99 ++ b) := by
    rw [← List.append_assoc, List.take_append_drop]
  rw [split, List.append_cancel_left_eq] at same
  have wider := width_printed (plain.drop 99) follows more (int32 (number + 1))
  rw [same.2, width_append (plain.drop 99).line, follows'.width_eq] at wider
  omega

theorem printed_eq_iff (text : 0 ∉ file) (small : number < 2 ^ 31) :
    printed number file = numberedFrom number (lines newline file) ↔
      (∀ line ∈ lines newline file, line.length ≤ 99) ∧ number + (lines newline file).length < 2 ^ 31 := by
  induction file using lines_induction newline generalizing number with
  | nil =>
    have nothing : printed number [] = [] := printed_none rfl number
    simpa [nothing, lines, numberedFrom] using small
  | last body some free =>
    have plain : Plain body := ⟨free, text⟩
    rw [lines_last some free]
    simp only [List.mem_singleton, forall_eq, List.length_singleton, numberedFrom, List.append_nil]
    by_cases short : body.length ≤ 99
    · rw [printed_some (fgets_last free some short), printf_eq_iff small, printed_none rfl, string_eq text]
      simp [short]
    · have left : (body.drop 99).length = body.length - 99 := List.length_drop
      have more : body.drop 99 ++ [] ≠ [] := by
        intro none
        rw [List.append_nil] at none
        rw [none, List.length_nil] at left
        omega
      have differs : printed number (body ++ []) ≠ decimal (number + 1 : ℕ) ++ space :: (body ++ []) :=
        printed_long_ne plain (by omega) (Or.inl rfl) more (Or.inl rfl) small
      rw [List.append_nil] at differs
      exact ⟨fun same => absurd same differs, fun fits => absurd fits.1 short⟩
  | line body rest free ih =>
    obtain ⟨text', behind⟩ : 0 ∉ body ∧ 0 ∉ newline :: rest := not_or.mp (mt List.mem_append.mpr text)
    have plain : Plain body := ⟨free, text'⟩
    have later : 0 ∉ rest := fun member => behind (List.mem_cons_of_mem _ member)
    rw [lines_append free]
    simp only [List.forall_mem_cons, List.length_append, List.length_cons, List.length_nil, numberedFrom, List.append_assoc,
      List.cons_append, List.nil_append]
    by_cases short : body.length < 99
    · rw [printed_some (fgets_line free short rest), printf_eq_iff small, plain.string_line, List.append_assoc,
        List.append_cancel_left_eq, List.singleton_append, List.cons_inj_right]
      by_cases fits : number + 1 < 2 ^ 31
      · rw [int32_succ fits, ih later fits]
        constructor
        · rintro ⟨_, all, count⟩
          exact ⟨⟨by omega, all⟩, by omega⟩
        · rintro ⟨⟨_, all⟩, count⟩
          exact ⟨fits, all, by omega⟩
      · constructor
        · rintro ⟨fits', _⟩
          exact absurd fits' fits
        · rintro ⟨_, count⟩
          omega
    · have differs := printed_long_ne plain (by omega) (Or.inr ⟨rest, rfl⟩) (by simp)
        (Or.inr ⟨numberedFrom (number + 1) (lines newline rest), rfl⟩) small
      exact ⟨fun same => absurd same differs, fun fits => absurd fits.1.1 (by omega)⟩

/-- A pass that prints, in which every line is read at once and the lines can be
counted, prints the file with its line numbers, and no other one does. -/
theorem numbers_lines_iff (text : 0 ∉ file) (begins : Begins file s) (enabled : s.print ≠ 0) :
    PrintsNumbered file s ↔
      (∀ line ∈ lines newline file, line.length ≤ 99) ∧ (lines newline file).length < 2 ^ 31 := by
  have small : 0 < 2 ^ 31 := Nat.two_pow_pos 31
  have same := printed_eq_iff text small
  rw [Nat.zero_add] at same
  exact (printsNumbered_iff begins enabled).trans same

/-- The parent at its start. -/
def launch (file : List UInt8) : State where
  stmt := .fgets
  line := List.replicate 100 0
  lineNumber := 0
  print := 1
  unread := file
  output := []

theorem launched (file : List UInt8) : Launch file (launch file) where
  stmt := rfl
  line := rfl
  lineNumber := rfl
  print := Or.inl rfl
  unread := rfl
  output := rfl

/-- A line and a last line without a newline. -/
def twoLines : List UInt8 := [104, 105, newline, 111]

theorem numbers_lines_iff_two : PrintsNumbered twoLines (launch twoLines) ∧
    numbered twoLines = [49, space, 104, 105, newline, 50, space, 111] := by
  have text : 0 ∉ twoLines := by decide
  have fits := numbers_lines_iff text (launched twoLines).begins (by decide)
  exact ⟨fits.mpr (by decide), by decide⟩

/-- A line of 99 letters, which leaves no room for its newline. -/
def fullLine : List UInt8 := List.replicate 99 97 ++ [newline]

/-- The newline is printed with a number of its own. -/
theorem newline_numbered : ¬ ∀ (file : List UInt8) (s : State), 0 ∉ file → (printer file).Reach s → Begins file s →
    s.print ≠ 0 → PrintsNumbered file s := by
  intro claim
  have text : 0 ∉ fullLine := by decide
  have begins := (launched fullLine).begins
  have prints := claim fullLine (launch fullLine) text (.start (launched fullLine)) begins (by decide)
  have small : 0 < 2 ^ 31 := Nat.two_pow_pos 31
  have fits := (printed_eq_iff text small).mp ((printsNumbered_iff begins (by decide)).mp prints)
  have long : ¬ ∀ line ∈ lines newline fullLine, line.length ≤ 99 := by decide
  exact long fits.1

end DeviceProgramming.LinePrinter
