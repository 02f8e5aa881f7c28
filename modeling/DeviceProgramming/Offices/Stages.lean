import DeviceProgramming.Offices.Office

namespace DeviceProgramming.Offices

/-- The way of a student's `Info` through the offices: `o` is the normal office
that served the student and `u` whether it found the student urgent. -/
inductive Stage
  | fresh
  | normalQ
  | taken (o : Fin numOffices)
  | drawn (o : Fin numOffices) (u : Bool)
  | answered (o : Fin numOffices) (u : Bool)
  | home (o : Fin numOffices) (u : Bool)
  | specialQ (o : Fin numOffices)
  | special (o : Fin numOffices)
  | specialAnswered (o : Fin numOffices)
  | back (o : Fin numOffices)
  | urgentQ (o : Fin numOffices)
  | urgent (o : Fin numOffices)
  | urgentAnswered (o : Fin numOffices)
  | served (o : Fin numOffices)
  deriving DecidableEq

/-- Where an `Info` can be: in the hands of a thread or in a queue. -/
inductive Place (k : ℕ)
  | thread (t : Tid k)
  | queue (q : Queue k)
  deriving DecidableEq

namespace Stage
variable {k : ℕ}

def place (i : Fin k) : Stage → Place k
  | fresh | home _ _ | back _ | served _ => .thread (.student i)
  | normalQ => .queue .normal
  | taken o | drawn o _ | urgent o => .thread (.office o)
  | answered _ _ | specialAnswered _ | urgentAnswered _ => .queue (.answer i)
  | specialQ _ => .queue .special
  | special _ => .thread .specialOffice
  | urgentQ o => .queue (.urgent o)

def info (i : Fin k) : Stage → Info k
  | fresh | normalQ | taken _ => ⟨i, numOffices, 0⟩
  | drawn o u | answered o u | home o u => ⟨i, o, u.toNat⟩
  | specialQ o | special o | specialAnswered o | back o | urgentQ o => ⟨i, o, 1⟩
  | urgent o | urgentAnswered o | served o => ⟨i, o, 0⟩

/-- The call of `send` that put the `Info` into its queue. -/
def site : Stage → Site
  | answered o _ => .officeReply false o
  | specialQ _ => .ask .special
  | specialAnswered _ => .specialReply
  | urgentQ _ => .ask .urgent
  | urgentAnswered o => .officeReply true o
  | _ => .ask .normal

def message (i : Fin k) (stage : Stage) : Message k := ⟨stage.info i, stage.site⟩

/-- The answer that the student is waiting for. -/
def awaiting : Stage → Option Service
  | normalQ | taken _ | drawn _ _ | answered _ _ => some .normal
  | specialQ _ | special _ | specialAnswered _ => some .special
  | urgentQ _ | urgent _ | urgentAnswered _ => some .urgent
  | fresh | home _ _ | back _ | served _ => none

/-- The office that the student has been to. -/
def office : Stage → Option (Fin numOffices)
  | fresh | normalQ => none
  | taken o | drawn o _ | answered o _ | home o _ | specialQ o | special o | specialAnswered o | back o
  | urgentQ o | urgent o | urgentAnswered o | served o => some o

/-- The answers that the student has received. -/
def history (i : Fin k) : Stage → List (Message k)
  | fresh | normalQ | taken _ | drawn _ _ | answered _ _ => []
  | home o u => [(answered o u).message i]
  | specialQ o | special o | specialAnswered o => [(answered o true).message i]
  | back o | urgentQ o | urgent o | urgentAnswered o =>
      [(answered o true).message i, (specialAnswered o).message i]
  | served o =>
      [(answered o true).message i, (specialAnswered o).message i, (urgentAnswered o).message i]

/-- The stage after the `Info` has been put into a queue. -/
def sent : Stage → Stage
  | fresh => normalQ
  | drawn o u => answered o u
  | home o _ => specialQ o
  | special o => specialAnswered o
  | back o => urgentQ o
  | urgent o => urgentAnswered o
  | other => other

/-- The stage after the `Info` has been taken from a queue, from `normal_Q` by
office `o`. -/
def received (o : Fin numOffices) : Stage → Stage
  | normalQ => taken o
  | answered o u => home o u
  | specialQ o => special o
  | specialAnswered o => back o
  | urgentQ o => urgent o
  | urgentAnswered o => served o
  | other => other

/-- The stages in which a student asks for nothing more. -/
def Last : Stage → Prop
  | home _ false | served _ => True
  | _ => False

@[simp] theorem info_id (i : Fin k) (stage : Stage) : (stage.info i).id = i := by
  cases stage <;> rfl

end Stage

end DeviceProgramming.Offices
