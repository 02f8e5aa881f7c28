import DeviceProgramming.Machine.Threads

namespace DeviceProgramming.Program

variable {Tid Lock Chan Mem Pc Input : Type*} [DecidableEq Tid] [DecidableEq Lock] [DecidableEq Chan]

/-- Thread `t` is at a statement and the others are where `thread` has them. -/
def alone (mem : Mem) (owner : Lock → Option Tid) (thread : Tid → Activity Lock Chan Pc) (t : Tid) (pc : Pc) :
    Threads Tid Lock Chan Mem Pc :=
  ⟨mem, owner, Function.update thread t (.run pc)⟩

omit [DecidableEq Lock] [DecidableEq Chan] in
@[simp] theorem thread_alone (mem : Mem) (owner : Lock → Option Tid) (thread : Tid → Activity Lock Chan Pc) (t : Tid)
    (pc : Pc) : (alone mem owner thread t pc).thread t = .run pc :=
  Function.update_self ..

variable {P : Program Tid Lock Chan Mem Pc Input} {mem mem' : Mem} {owner : Lock → Option Tid}
  {thread : Tid → Activity Lock Chan Pc} {t : Tid} {pc next : Pc} {lock : Lock} {input : Input}

theorem step_alone_acquire (live : P.halted mem = false) (here : P.instr t pc = .acquire lock next)
    (free : owner lock = none) :
    P.step (alone mem owner thread t pc) t input =
      some (alone mem (Function.update owner lock (some t)) thread t next) := by
  have step : P.Step t input (alone mem owner thread t pc)
      ⟨mem, Function.update owner lock (some t), Function.update (Function.update thread t (.run pc)) t (.run next)⟩ :=
    .acquire (Function.update_self ..) here free
  rw [step_iff.mpr ⟨live, step⟩, Function.update_idem]
  rfl

theorem step_alone_release (live : P.halted mem = false) (here : P.instr t pc = .release lock next) :
    P.step (alone mem owner thread t pc) t input =
      some (alone mem (Function.update owner lock none) thread t next) := by
  have step : P.Step t input (alone mem owner thread t pc)
      ⟨mem, Function.update owner lock none, Function.update (Function.update thread t (.run pc)) t (.run next)⟩ :=
    .release (Function.update_self ..) here
  rw [step_iff.mpr ⟨live, step⟩, Function.update_idem]
  rfl

theorem step_alone_exec (live : P.halted mem = false) {effect : Input → Mem → Option (Mem × Pc)}
    (here : P.instr t pc = .exec effect) (run : effect input mem = some (mem', next)) :
    P.step (alone mem owner thread t pc) t input = some (alone mem' owner thread t next) := by
  have step : P.Step t input (alone mem owner thread t pc)
      ⟨mem', owner, Function.update (Function.update thread t (.run pc)) t (.run next)⟩ :=
    .exec (Function.update_self ..) here run
  rw [step_iff.mpr ⟨live, step⟩, Function.update_idem]
  rfl

theorem next_of_step {start : Threads Tid Lock Chan Mem Pc → Prop} {s s' : Threads Tid Lock Chan Mem Pc}
    (moved : P.step s t input = some s') : (P.system start).next s (t, input) = some s' := moved

end DeviceProgramming.Program
