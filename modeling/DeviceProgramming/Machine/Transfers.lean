import Mathlib.Data.List.Basic

namespace DeviceProgramming.Transfers

/-- Bytes that are read or written through a file at an offset. -/
structure Event (F β : Type*) where
  file : F
  write : Bool
  off : ℕ
  bytes : List β

variable {F β : Type*} [DecidableEq F]

/-- All bytes that went through a file; in a list of events the latest one is first. -/
def bytes (f : F) : List (Event F β) → List β
  | [] => []
  | e :: earlier => bytes f earlier ++ if e.file = f then e.bytes else []

def moved (f : F) (events : List (Event F β)) : ℕ := (bytes f events).length

/-- Every transfer through a file begins where the one before it has ended. -/
def Consecutive (start : F → ℕ) : List (Event F β) → Prop
  | [] => True
  | e :: earlier => e.off = start e.file + moved e.file earlier ∧ Consecutive start earlier

/-- A file with bytes written over it. -/
def overwrite (data : List β) (off : ℕ) (bytes : List β) : List β :=
  data.take off ++ bytes ++ data.drop (off + bytes.length)

def written (first : List β) : List (Event F β) → List β
  | [] => first
  | e :: earlier => if e.write then overwrite (written first earlier) e.off e.bytes else written first earlier

/-- Every read gets what the writes before it have left. -/
def Faithful (first : List β) : List (Event F β) → Prop
  | [] => True
  | e :: earlier =>
    (e.write = false → e.bytes <+: (written first earlier).drop e.off) ∧ Faithful first earlier

variable {start : F → ℕ} {f : F} {e : Event F β} {events : List (Event F β)} {first : List β}

theorem bytes_cons_self (e : Event F β) (earlier : List (Event F β)) :
    bytes e.file (e :: earlier) = bytes e.file earlier ++ e.bytes := by
  rw [bytes, if_pos rfl]

theorem bytes_cons_of_ne (other : e.file ≠ f) : bytes f (e :: events) = bytes f events := by
  rw [bytes, if_neg other, List.append_nil]

theorem moved_cons_self (e : Event F β) (earlier : List (Event F β)) :
    moved e.file (e :: earlier) = moved e.file earlier + e.bytes.length := by
  rw [moved, bytes_cons_self, List.length_append, moved]

theorem moved_cons_of_ne (other : e.file ≠ f) : moved f (e :: events) = moved f events := by
  rw [moved, bytes_cons_of_ne other, moved]

theorem length_overwrite {data bytes : List β} {off : ℕ} (inside : off ≤ data.length) :
    (overwrite data off bytes).length = max data.length (off + bytes.length) := by
  simp only [overwrite, List.length_append, List.length_take, List.length_drop]
  omega

/-- A transfer ends before a later one through the same file begins. -/
theorem Consecutive.disjoint (consecutive : Consecutive start events) :
    events.Pairwise fun later e => later.file = e.file → e.off + e.bytes.length ≤ later.off := by
  induction events with
  | nil => exact .nil
  | cons later earlier ih =>
    obtain ⟨begins, before⟩ := consecutive
    refine .cons (fun e member same => ?_) (ih before)
    rw [begins, same]
    clear begins ih
    induction earlier with
    | nil => cases member
    | cons x earlier ih =>
      obtain ⟨there, before⟩ := before
      rcases List.mem_cons.mp member with rfl | member
      · rw [there, moved_cons_self]
        omega
      · have ends := ih before member
        have grown : moved e.file earlier ≤ moved e.file (x :: earlier) := by
          rw [moved, moved, bytes, List.length_append]
          exact Nat.le_add_right ..
        omega

/-- When all writes go through one file that begins at the end, they only add to the data. -/
theorem Consecutive.written_eq (consecutive : Consecutive start events)
    (only : ∀ e ∈ events, e.write = true ↔ e.file = f) (atEnd : start f = first.length) :
    written first events = first ++ bytes f events := by
  induction events with
  | nil => exact (List.append_nil _).symm
  | cons e earlier ih =>
    obtain ⟨begins, before⟩ := consecutive
    obtain ⟨writes, others⟩ := List.forall_mem_cons.mp only
    have earlier_eq := ih before others
    rw [written]
    split
    · obtain rfl := writes.mp ‹_›
      have whole : (first ++ bytes e.file earlier).length = e.off := by
        rw [begins, atEnd, List.length_append, moved]
      rw [earlier_eq, overwrite, ← whole, List.take_length, List.drop_eq_nil_of_le (Nat.le_add_right ..),
        List.append_nil, bytes_cons_self, List.append_assoc]
    · rw [earlier_eq, bytes_cons_of_ne fun same => ‹¬ _› (writes.mpr same)]

omit [DecidableEq F] in
theorem written_of_reads (reads : ∀ e ∈ events, e.write = false) : written first events = first := by
  induction events with
  | nil => rfl
  | cons e earlier ih =>
    obtain ⟨read, others⟩ := List.forall_mem_cons.mp reads
    rw [written, read]
    exact ih others

/-- While nobody writes, all that is read through one file is a piece of the data: no
byte is left out and none is read twice. -/
theorem Consecutive.bytes_eq (consecutive : Consecutive start events) (faithful : Faithful first events)
    (reads : ∀ e ∈ events, e.write = false) : bytes f events = (first.drop (start f)).take (moved f events) := by
  induction events with
  | nil => rfl
  | cons e earlier ih =>
    obtain ⟨begins, before⟩ := consecutive
    obtain ⟨got, honest⟩ := faithful
    obtain ⟨read, others⟩ := List.forall_mem_cons.mp reads
    have earlier_eq := ih before honest others
    by_cases same : e.file = f
    · subst same
      have piece := List.prefix_iff_eq_take.mp (got read)
      rw [written_of_reads others, begins, ← List.drop_drop] at piece
      rw [moved_cons_self, List.take_add, bytes_cons_self, ← earlier_eq, ← piece]
    · rw [moved_cons_of_ne same, bytes_cons_of_ne same]
      exact earlier_eq

end DeviceProgramming.Transfers
