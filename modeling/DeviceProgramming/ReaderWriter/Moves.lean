import DeviceProgramming.ReaderWriter.Library
import DeviceProgramming.Machine.Count

namespace DeviceProgramming.ReaderWriter

variable {readers writers : ℕ}

/-- A reader that has executed its increment and not yet its decrement. -/
def Pc.counted : Pc → Bool
  | reader .lockLibrary | reader .unlockCount | reader .read | reader .lockCount2 | reader .decrement => true
  | _ => false

/-- A reader for which the readers hold the library. -/
def Pc.inside : Pc → Bool
  | reader .unlockCount | reader .read | reader .lockCount2 | reader .decrement | reader .unlockLibrary => true
  | _ => false

/-- A reader in its critical region. -/
def Pc.reading : Pc → Bool
  | reader .read | reader .lockCount2 => true
  | _ => false

/-- A writer in its critical region. -/
def Pc.writing : Pc → Bool
  | writer .update | writer .unlock => true
  | _ => false

/-- A writer that has updated the library. -/
def Pc.updated : Pc → Bool
  | writer .unlock | writer .done => true
  | _ => false

def Pc.holdsCount : Pc → Bool
  | reader .increment | reader .lockLibrary | reader .unlockCount | reader .decrement
  | reader .unlockLibrary | reader .unlockCount2 => true
  | _ => false

def Pc.finished : Pc → Bool
  | reader .done | writer .done => true
  | _ => false

def Tid.isReader : Tid readers writers → Bool
  | reader _ => true
  | writer _ => false

def Pc.isReader : Pc → Bool
  | reader _ => true
  | writer _ => false

/-- The statements of `reader` and `writer` as moves: what they need and what
they leave in the memory and in the locks. -/
inductive Move (t : Tid readers writers) (m : Memory) (owner : Lock → Option (Tid readers writers)) :
    Pc → Memory → (Lock → Option (Tid readers writers)) → Pc → Prop
  | lockCount : owner .count = none →
      Move t m owner (.reader .lockCount) m (Function.update owner .count (some t)) (.reader .increment)
  | first : m.count + 1 = 1 →
      Move t m owner (.reader .increment) { m with count := m.count + 1 } owner (.reader .lockLibrary)
  | join : m.count + 1 ≠ 1 →
      Move t m owner (.reader .increment) { m with count := m.count + 1 } owner (.reader .unlockCount)
  | takeLibrary : owner .library = none →
      Move t m owner (.reader .lockLibrary) m (Function.update owner .library (some t)) (.reader .unlockCount)
  | enter : Move t m owner (.reader .unlockCount) m (Function.update owner .count none) (.reader .read)
  | read : Move t m owner (.reader .read) { m with printed := m.printed ++ [m.library] } owner
      (.reader .lockCount2)
  | lockCount2 : owner .count = none →
      Move t m owner (.reader .lockCount2) m (Function.update owner .count (some t)) (.reader .decrement)
  | last : m.count - 1 = 0 →
      Move t m owner (.reader .decrement) { m with count := m.count - 1 } owner (.reader .unlockLibrary)
  | leave : m.count - 1 ≠ 0 →
      Move t m owner (.reader .decrement) { m with count := m.count - 1 } owner (.reader .unlockCount2)
  | giveLibrary :
      Move t m owner (.reader .unlockLibrary) m (Function.update owner .library none) (.reader .unlockCount2)
  | unlockCount2 : Move t m owner (.reader .unlockCount2) m (Function.update owner .count none) (.reader .done)
  | lock : owner .library = none →
      Move t m owner (.writer .lock) m (Function.update owner .library (some t)) (.writer .update)
  | update : Move t m owner (.writer .update) { m with library := m.library + 1 } owner (.writer .unlock)
  | unlock : Move t m owner (.writer .unlock) m (Function.update owner .library none) (.writer .done)

theorem awake (readers writers : ℕ) : (program readers writers).Awake where
  sleep {_ _ chan} := nomatch chan
  wakeup {_ _ chan} := nomatch chan

theorem running_of_reach {ok : State readers writers → Tid readers writers × Unit → Prop}
    {s : State readers writers} (reach : (library readers writers).ReachUnder ok s) (t : Tid readers writers) :
    s.thread t = .run (s.pc t) := by
  refine (awake readers writers).running_of_reach ?_ reach t
  rintro s rfl u
  rfl

section
variable {s s' : State readers writers} {t : Tid readers writers}

/-- Every step is one of the moves. -/
theorem move_of_step (running : ∀ u, s.thread u = .run (s.pc u))
    (step : (program readers writers).Step t () s s') :
    ∃ next, Move t s.mem s.owner (s.pc t) s'.mem s'.owner next ∧ s'.pc = Function.update s.pc t next := by
  obtain ⟨next, done, moved⟩ := (awake readers writers).step_cases running step
  refine ⟨next, ?_, moved⟩
  cases done with
  | acquire here free same owner =>
    rw [same, owner]
    cases at' : s.pc t with
    | reader r =>
      rw [at'] at here
      cases r <;> cases here <;> constructor <;> exact free
    | writer w =>
      rw [at'] at here
      cases w <;> cases here
      exact .lock free
  | release here same owner =>
    rw [same, owner]
    cases at' : s.pc t with
    | reader r =>
      rw [at'] at here
      cases r <;> cases here <;> constructor
    | writer w =>
      rw [at'] at here
      cases w <;> cases here
      exact .unlock
  | exec here run owner =>
    rw [owner]
    cases at' : s.pc t with
    | reader r =>
      rw [at'] at here
      cases r <;> cases here
      case reader.increment.refl =>
        obtain ⟨mem, rfl⟩ := Prod.mk.inj (Option.some.inj run)
        rw [← mem]
        split
        · rename_i one; exact .first one
        · rename_i many; exact .join many
      case reader.read.refl =>
        obtain ⟨mem, rfl⟩ := Prod.mk.inj (Option.some.inj run)
        rw [← mem]
        exact .read
      case reader.decrement.refl =>
        obtain ⟨mem, rfl⟩ := Prod.mk.inj (Option.some.inj run)
        rw [← mem]
        split
        · rename_i zero; exact .last zero
        · rename_i many; exact .leave many
      case reader.done.refl => cases run
    | writer w =>
      rw [at'] at here
      cases w <;> cases here
      case writer.update.refl =>
        obtain ⟨mem, rfl⟩ := Prod.mk.inj (Option.some.inj run)
        rw [← mem]
        exact .update
      case writer.done.refl => cases run

end

section
variable {t : Tid readers writers} {m m' : Memory} {owner owner' : Lock → Option (Tid readers writers)}
  {pc : Tid readers writers → Pc} {next : Pc}

theorem Move.isReader (move : Move t m owner (pc t) m' owner' next) : next.isReader = (pc t).isReader := by
  generalize pc t = here at move
  cases move <;> rfl

/-- `count->counter` counts the readers between their two updates of it. -/
theorem Move.counter (move : Move t m owner (pc t) m' owner' next) (counter : m.count = countAt Pc.counted pc) :
    m'.count = countAt Pc.counted (Function.update pc t next) := by
  have moved := countAt_update Pc.counted pc t next
  generalize pc t = here at move moved
  cases move <;> simp only [Pc.counted, Bool.toNat_true, Bool.toNat_false] at moved ⊢ <;> omega

/-- Only the owner of `count->lock` changes the counter. -/
theorem Move.count_eq (move : Move t m owner (pc t) m' owner' next) (elsewhere : (pc t).holdsCount = false) :
    m'.count = m.count := by
  generalize pc t = here at move elsewhere
  cases move <;> first | rfl | cases elsewhere

theorem Move.count_of_first (move : Move t m owner (pc t) m' owner' next) (first : next = .reader .lockLibrary) :
    m'.count = 1 := by
  generalize pc t = here at move
  subst first
  cases move with
  | first one => exact one

theorem Move.count_of_last (move : Move t m owner (pc t) m' owner' next) (last : next = .reader .unlockLibrary) :
    m'.count = 0 := by
  generalize pc t = here at move
  subst last
  cases move with
  | last zero => exact zero

theorem Move.updates (move : Move t m owner (pc t) m' owner' next)
    (updates : m.library = countAt Pc.updated pc) :
    m'.library = countAt Pc.updated (Function.update pc t next) := by
  have moved := countAt_update Pc.updated pc t next
  generalize pc t = here at move moved
  cases move <;> simp only [Pc.updated, Bool.toNat_true, Bool.toNat_false] at moved ⊢ <;> omega

/-- The owner of `count->lock` is the reader between taking and releasing it. -/
theorem Move.busy (move : Move t m owner (pc t) m' owner' next)
    (busy : ∀ u, owner .count = some u ↔ (pc u).holdsCount = true) (u : Tid readers writers) :
    owner' .count = some u ↔ (Function.update pc t next u).holdsCount = true := by
  have own := busy t
  by_cases here : u = t
  · subst here
    rw [Function.update_self]
    generalize pc u = at' at move own
    cases move with
    | lockCount | lockCount2 | enter | unlockCount2 => simp [Pc.holdsCount]
    | first | join | read | last | leave | lock | update | unlock => simpa [Pc.holdsCount] using own
    | takeLibrary | giveLibrary => simpa [Pc.holdsCount] using own
  · have old := busy u
    rw [Function.update_of_ne here, ← old]
    generalize pc t = at' at move own
    cases move with
    | lockCount free | lockCount2 free => simp [free, Ne.symm here]
    | enter | unlockCount2 =>
      have held : owner .count = some t := own.mpr rfl
      simp [held, Ne.symm here]
    | first | join | takeLibrary | read | last | leave | giveLibrary | lock | update | unlock => simp

end

end DeviceProgramming.ReaderWriter
