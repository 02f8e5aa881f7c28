import Mathlib.Data.List.TakeWhile
import Mathlib.Tactic.Common

namespace DeviceProgramming.Lines

variable {α : Type*} [DecidableEq α] (sep : α)

/-- The lines of a text, each with its separator; the last one may have none. -/
def lines : List α → List (List α)
  | [] => []
  | a :: text =>
    if a = sep then [a] :: lines text
    else match lines text with
      | [] => [[a]]
      | line :: rest => (a :: line) :: rest

/-- At most `room` elements, but none behind a separator, and what comes after them. -/
def piece : ℕ → List α → List α × List α
  | _, [] => ([], [])
  | 0, text => ([], text)
  | room + 1, a :: text =>
    if a = sep then ([a], text)
    else
      let (read, rest) := piece room text
      (a :: read, rest)

/-- How many elements come before the first separator. -/
def width (text : List α) : ℕ := (text.takeWhile (· ≠ sep)).length

variable {sep} {text body rest : List α} {room : ℕ}

/-- A text is empty, a line without a separator, or a line and a shorter text. -/
@[elab_as_elim]
theorem lines_induction (sep : α) {motive : List α → Prop} (nil : motive [])
    (last : ∀ body, body ≠ [] → sep ∉ body → motive body)
    (line : ∀ body rest, sep ∉ body → motive rest → motive (body ++ sep :: rest)) (text : List α) :
    motive text := by
  induction length : text.length using Nat.strong_induction_on generalizing text with
  | _ length ih =>
    subst length
    by_cases member : sep ∈ text
    · obtain ⟨body, rest, rfl, free⟩ := List.eq_append_cons_of_mem member
      have shorter : rest.length < (body ++ sep :: rest).length := by
        rw [List.length_append, List.length_cons]
        omega
      exact line body rest free (ih _ shorter rest rfl)
    · by_cases empty : text = []
      · rw [empty]
        exact nil
      · exact last text empty member

theorem lines_last (some : body ≠ []) (free : sep ∉ body) : lines sep body = [body] := by
  induction body with
  | nil => exact absurd rfl some
  | cons a body ih =>
    rw [List.mem_cons, not_or] at free
    obtain ⟨other, free⟩ := free
    rw [lines, if_neg (Ne.symm other)]
    by_cases empty : body = []
    · rw [empty, lines]
    · rw [ih empty free]

theorem lines_append (free : sep ∉ body) (rest : List α) :
    lines sep (body ++ sep :: rest) = (body ++ [sep]) :: lines sep rest := by
  induction body with
  | nil => rw [List.nil_append, lines, if_pos rfl, List.nil_append]
  | cons a body ih =>
    rw [List.mem_cons, not_or] at free
    obtain ⟨other, free⟩ := free
    rw [List.cons_append, lines, if_neg (Ne.symm other), ih free]
    rfl

@[simp] theorem piece_nil (room : ℕ) : piece sep room [] = ([], []) := by
  cases room <;> rfl

@[simp] theorem piece_zero (text : List α) : piece sep 0 text = ([], text) := by
  cases text <;> rfl

/-- What has been read and what is left are the text. -/
theorem piece_append (sep : α) (room : ℕ) (text : List α) : (piece sep room text).1 ++ (piece sep room text).2 = text := by
  induction room, text using piece.induct sep with
  | case1 => rw [piece_nil, List.append_nil]
  | case2 => rw [piece_zero, List.nil_append]
  | case3 room text => rw [piece, if_pos rfl, List.singleton_append]
  | case4 room a text other _ _ _ ih =>
    rw [piece, if_neg other, List.cons_append, ih]

theorem piece_some (sep : α) (some : text ≠ []) (open' : 0 < room) : (piece sep room text).1 ≠ [] := by
  obtain ⟨a, text, rfl⟩ := List.exists_cons_of_ne_nil some
  obtain ⟨room, rfl⟩ := Nat.exists_eq_succ_of_ne_zero open'.ne'
  rw [piece]
  split <;> simp

/-- A line that is too long is cut. -/
theorem piece_long (free : sep ∉ body) (long : room ≤ body.length) (rest : List α) :
    piece sep room (body ++ rest) = (body.take room, body.drop room ++ rest) := by
  induction body generalizing room with
  | nil =>
    obtain rfl : room = 0 := Nat.le_zero.mp long
    rw [piece_zero, List.take_nil, List.drop_nil]
  | cons a body ih =>
    rw [List.mem_cons, not_or] at free
    obtain ⟨other, free⟩ := free
    cases room with
    | zero => rw [piece_zero, List.take_zero, List.drop_zero]
    | succ room =>
      rw [List.cons_append, piece, if_neg (Ne.symm other), ih free (Nat.le_of_succ_le_succ long)]
      rfl

theorem piece_line (free : sep ∉ body) (short : body.length < room) (rest : List α) :
    piece sep room (body ++ sep :: rest) = (body ++ [sep], rest) := by
  induction body generalizing room with
  | nil =>
    obtain ⟨room, rfl⟩ := Nat.exists_eq_succ_of_ne_zero short.ne'
    rw [List.nil_append, piece, if_pos rfl, List.nil_append]
  | cons a body ih =>
    rw [List.mem_cons, not_or] at free
    obtain ⟨other, free⟩ := free
    rw [List.length_cons] at short
    obtain ⟨room, rfl⟩ := Nat.exists_eq_succ_of_ne_zero (Nat.ne_zero_of_lt short)
    rw [List.cons_append, piece, if_neg (Ne.symm other), ih free (Nat.lt_of_succ_lt_succ short)]
    rfl

theorem piece_last (free : sep ∉ body) (short : body.length ≤ room) : piece sep room body = (body, []) := by
  induction body generalizing room with
  | nil => rw [piece_nil]
  | cons a body ih =>
    rw [List.mem_cons, not_or] at free
    obtain ⟨other, free⟩ := free
    rw [List.length_cons] at short
    obtain ⟨room, rfl⟩ := Nat.exists_eq_succ_of_ne_zero (Nat.ne_zero_of_lt short)
    rw [piece, if_neg (Ne.symm other), ih free (Nat.le_of_succ_le_succ short)]

theorem width_append (free : sep ∉ body) (text : List α) : width sep (body ++ text) = body.length + width sep text := by
  rw [width, List.takeWhile_append_of_pos, List.length_append, width]
  intro a member
  simp only [ne_eq, decide_not, Bool.not_eq_eq_eq_not, Bool.not_true, decide_eq_false_iff_not]
  rintro rfl
  exact free member

@[simp] theorem width_nil : width sep [] = 0 := rfl

@[simp] theorem width_sep (text : List α) : width sep (sep :: text) = 0 := by
  simp [width]

end DeviceProgramming.Lines
