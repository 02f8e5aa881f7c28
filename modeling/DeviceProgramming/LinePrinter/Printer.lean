import DeviceProgramming.Machine.Inevitable
import DeviceProgramming.Machine.Int32
import DeviceProgramming.Machine.Lines

namespace DeviceProgramming.LinePrinter

open Lines

abbrev newline : UInt8 := 10
abbrev space : UInt8 := 32
abbrev minus : UInt8 := 45

/-- `fgets(line, size, f)`: what is stored in front of the terminator, and the rest
of the file; `none` at its end. -/
def fgets (size : ℕ) (unread : List UInt8) : Option (List UInt8 × List UInt8) :=
  if unread = [] then none else some (piece newline (size - 1) unread)

/-- An array after `fgets` has stored `read` and the terminator in it. -/
def store (read line : List UInt8) : List UInt8 := read ++ 0 :: line.drop (read.length + 1)

/-- What `%s` prints of an array. -/
def string (line : List UInt8) : List UInt8 := line.takeWhile (· ≠ 0)

/-- What `%i` prints of an `int`. -/
def decimal (x : ℤ) : List UInt8 :=
  (if x < 0 then [minus] else []) ++ (Nat.toDigits 10 x.natAbs).map Char.toUInt8

/-- `printf("%i %s", line_number, line)` -/
def printf (lineNumber : ℤ) (line : List UInt8) : List UInt8 := decimal lineNumber ++ space :: string line

/-- The statements of the parent's loops. -/
inductive Stmt
  | fgets
  | increment
  | test
  | printf
  | reset
  | rewind
  | ended
  deriving DecidableEq

/-- The variables of the parent, what it has still to read of the file and what it
has printed. -/
structure State where
  stmt : Stmt
  line : List UInt8
  lineNumber : ℤ
  print : ℤ
  unread : List UInt8
  output : List UInt8

/-- The parent executes a statement, or a signal of the child runs a handler. -/
inductive Event
  | goes
  | altern
  | endParent
  deriving DecidableEq

/-- A statement of the parent's loops. -/
def step (file : List UInt8) (s : State) : Option State := match s.stmt with
  | .fgets => match LinePrinter.fgets 100 s.unread with
    | none => some { s with stmt := .reset }
    | some (read, rest) => some { s with stmt := .increment, line := store read s.line, unread := rest }
  | .increment => some { s with stmt := .test, lineNumber := int32 (s.lineNumber + 1) }
  | .test => some { s with stmt := if s.print = 0 then .fgets else .printf }
  | .printf => some { s with stmt := .fgets, output := s.output ++ LinePrinter.printf s.lineNumber s.line }
  | .reset => some { s with stmt := .rewind, lineNumber := 0 }
  | .rewind => some { s with stmt := .fgets, unread := file }
  | .ended => none

/-- `altern` and `end_parent` run between two statements. -/
def next (file : List UInt8) (s : State) : Event → Option State
  | .goes => step file s
  | .altern => if s.stmt = .ended then none else some { s with print := 1 - s.print }
  | .endParent => if s.stmt = .ended then none else some { s with stmt := .ended }

/-- The parent has opened the file; a signal may already have changed `print`. -/
structure Launch (file : List UInt8) (s : State) : Prop where
  stmt : s.stmt = .fgets
  line : s.line = List.replicate 100 0
  lineNumber : s.lineNumber = 0
  print : s.print = 1 ∨ s.print = 0
  unread : s.unread = file
  output : s.output = []

abbrev printer (file : List UInt8) : System State Event where
  start := Launch file
  next := next file

/-- The parent before a pass of the inner loop. -/
structure Begins (file : List UInt8) (s : State) : Prop where
  stmt : s.stmt = .fgets
  lineNumber : s.lineNumber = 0
  unread : s.unread = file

/-- In a pass that prints every line. -/
def Printing (s : State) (_ : Event) : Prop := s.stmt ≠ .reset ∧ s.print ≠ 0

instance (s : State) (event : Event) : Decidable (Printing s event) := inferInstanceAs (Decidable (_ ∧ _))

/-- Each line behind its number, from `number + 1` on. -/
def numberedFrom : ℕ → List (List UInt8) → List UInt8
  | _, [] => []
  | number, line :: rest => decimal (number + 1 : ℕ) ++ space :: line ++ numberedFrom (number + 1) rest

/-- The file with its line numbers. -/
def numbered (file : List UInt8) : List UInt8 := numberedFrom 0 (lines newline file)

/-- A pass ends when no more signals come, and when it has ended it has printed the
file with its line numbers. -/
structure PrintsNumbered (file : List UInt8) (s : State) : Prop where
  ends : (printer file).Inevitable (fun _ event => event = .goes) (fun s => s.stmt = .reset) s
  output : ∀ events s', (printer file).runUnder Printing events s = some s' → s'.stmt = .reset →
    s'.output = s.output ++ numbered file

end DeviceProgramming.LinePrinter
