import DeviceProgramming.Machine.Threads

namespace DeviceProgramming

universe w

/-- A program that calls its environment and goes on according to the answers. -/
inductive Calls (C : Type*) (R : C → Type*) (α : Type*)
  | ret (a : α)
  | panic (text : String)
  | call (c : C) (rest : R c → Calls C R α)

variable {Pid C σ V Input : Type*} {R : C → Type w} {α β : Type w}

namespace Calls

def bind (prog : Calls C R α) (rest : α → Calls C R β) : Calls C R β := match prog with
  | .ret a => rest a
  | .panic text => .panic text
  | .call c k => .call c fun r => (k r).bind rest

instance : Monad (Calls C R) where
  pure := .ret
  bind := bind

/-- One call, whose answer is the result. -/
def ask (c : C) : Calls C R (R c) := .call c .ret

/-- The result of a program that is over. -/
def result : Calls C R α → Option α
  | .ret a => some a
  | _ => none

theorem result_eq_some {prog : Calls C R α} {a : α} : prog.result = some a ↔ prog = .ret a := by
  cases prog <;> simp [result]

/-- A program whose calls are answered at once by a function of the state. -/
def run (answer : (c : C) → σ → R c × σ) : Calls C R α → σ → Except String α × σ
  | .ret a, m => (.ok a, m)
  | .panic text, m => (.error text, m)
  | .call c k, m => run answer (k (answer c m).1) (answer c m).2

section
variable {answer : (c : C) → σ → R c × σ} {m : σ}

@[simp] theorem run_pure {a : α} : run answer (pure a : Calls C R α) m = (.ok a, m) := rfl

@[simp] theorem run_panic {text : String} : run answer (.panic text : Calls C R α) m = (.error text, m) := rfl

@[simp] theorem run_ask_bind {c : C} {f : R c → Calls C R α} :
    run answer (ask c >>= f) m = run answer (f (answer c m).1) (answer c m).2 := rfl

theorem run_bind {x : Calls C R β} {f : β → Calls C R α} {b : β} {m' : σ} (ends : run answer x m = (.ok b, m')) :
    run answer (x >>= f) m = run answer (f b) m' := by
  change run answer (x.bind f) m = _
  induction x generalizing m with
  | ret a =>
    cases ends
    rfl
  | panic text => cases ends
  | call c k ih => exact ih _ ends

end

/-- What has to hold of the view of a process for all its calls to be allowed, for no
panic to be reached and for the result to be as wanted, whatever the answers are. -/
def wp (pre : V → C → Prop) (next : V → (c : C) → R c → V → Prop) (post : α → V → Prop) : Calls C R α → V → Prop
  | .ret a, v => post a v
  | .panic _, _ => False
  | .call c k, v => pre v c ∧ ∀ r v', next v c r v' → wp pre next post (k r) v'

variable {pre : V → C → Prop} {next : V → (c : C) → R c → V → Prop} {post : α → V → Prop} {v : V}

@[simp] theorem wp_ret {a : α} : wp pre next post (.ret a) v ↔ post a v := Iff.rfl

@[simp] theorem wp_pure {a : α} : wp pre next post (pure a : Calls C R α) v ↔ post a v := Iff.rfl

@[simp] theorem wp_panic {text : String} : ¬ wp pre next post (.panic text : Calls C R α) v := id

@[simp] theorem wp_bind {x : Calls C R β} {f : β → Calls C R α} :
    wp pre next post (x >>= f) v ↔ wp pre next (fun b => wp pre next post (f b)) x v := by
  change wp pre next post (x.bind f) v ↔ _
  induction x generalizing v with
  | ret b => rfl
  | panic text => rfl
  | call c k ih => exact and_congr_right fun _ => forall₃_congr fun r v' _ => ih r

theorem wp_mono {weaker : α → V → Prop} (weaken : ∀ a v, post a v → weaker a v) {prog : Calls C R α}
    (before : wp pre next post prog v) : wp pre next weaker prog v := by
  induction prog generalizing v with
  | ret a => exact weaken a v before
  | panic text => exact before
  | call c k ih => exact ⟨before.1, fun r v' moved => ih r (before.2 r v' moved)⟩

end Calls

/-- What the environment answers to a process, with an outside choice as input, and
the programs that a process may begin. A call that gets no answer waits. -/
structure Service (Pid C : Type*) (R : C → Type w) (σ Input : Type*) (α : Type w) where
  answer : Pid → (c : C) → Input → σ → Option (R c × σ)
  enter : Pid → Input → Option (Calls C R α)

/-- The memory of the environment and what every process has still to do. -/
structure Service.State (Pid C : Type*) (R : C → Type w) (σ : Type*) (α : Type w) where
  mem : σ
  rest : Pid → Calls C R α

namespace Service
variable [DecidableEq Pid] (S : Service Pid C R σ Input α)

def step (s : State Pid C R σ α) (p : Pid) (input : Input) : Option (State Pid C R σ α) := match s.rest p with
  | .ret _ => (S.enter p input).map fun prog => { s with rest := Function.update s.rest p prog }
  | .panic _ => none
  | .call c k => (S.answer p c input s.mem).map fun (r, mem) => ⟨mem, Function.update s.rest p (k r)⟩

def system (start : State Pid C R σ α → Prop) : System (State Pid C R σ α) (Pid × Input) where
  start := start
  next s label := S.step s label.1 label.2

/-- The steps in which the outside choice for an answer meets a condition. -/
def Meets (ok : Pid → C → Input → σ → Prop) (s : State Pid C R σ α) (label : Pid × Input) : Prop :=
  ∀ c k, s.rest label.1 = .call c k → ok label.1 c label.2 s.mem

instance (ok : Pid → C → Input → σ → Prop) [∀ p c input m, Decidable (ok p c input m)] (s : State Pid C R σ α)
    (label : Pid × Input) : Decidable (Meets ok s label) :=
  match here : s.rest label.1 with
  | .ret _ => isTrue fun c k busy => by cases here.symm.trans busy
  | .panic _ => isTrue fun c k busy => by cases here.symm.trans busy
  | .call c k => decidable_of_iff (ok label.1 c label.2 s.mem)
    ⟨fun meets c' k' busy => by cases here.symm.trans busy; exact meets, fun meets => meets c k here⟩

/-- A view of the memory for each process, which only its own calls change; `next`
says how they do. -/
structure Views (ok : Pid → C → Input → σ → Prop) (V : Type*) where
  view : Pid → σ → V
  inv : σ → Prop
  pre : V → C → Prop
  next : V → (c : C) → R c → V → Prop
  own : ∀ {p c input m r m'}, inv m → pre (view p m) c → ok p c input m → S.answer p c input m = some (r, m') →
    next (view p m) c r (view p m') ∧ inv m'
  other : ∀ {p c input m r m' q}, inv m → pre (view p m) c → S.answer p c input m = some (r, m') → q ≠ p →
    view q m' = view q m

namespace Views
variable {S} {ok : Pid → C → Input → σ → Prop} (W : S.Views ok V) {post : α → V → Prop}
  {s s' : State Pid C R σ α}

/-- What every process has still to do is right for its view. -/
def Sound (post : α → V → Prop) (s : State Pid C R σ α) : Prop :=
  W.inv s.mem ∧ ∀ p, Calls.wp W.pre W.next post (s.rest p) (W.view p s.mem)

theorem Sound.step (sound : W.Sound post s)
    (enter : ∀ p input prog a v, S.enter p input = some prog → post a v → Calls.wp W.pre W.next post prog v)
    {p : Pid} {input : Input} (allowed : Meets ok s (p, input)) (moved : S.step s p input = some s') :
    W.Sound post s' := by
  obtain ⟨inv, right⟩ := sound
  have mine := right p
  unfold Service.step at moved
  split at moved
  · rename_i a here
    obtain ⟨prog, begun, rfl⟩ := Option.map_eq_some_iff.mp moved
    rw [here] at mine
    refine ⟨inv, fun q => ?_⟩
    dsimp only
    rcases update_cases (rfl : Function.update s.rest p prog = _) q with ⟨rfl, now⟩ | ⟨_, now⟩ <;> rw [now]
    · exact enter q input prog a _ begun mine
    · exact right q
  · cases moved
  · rename_i c k here
    obtain ⟨⟨r, mem⟩, answered, rfl⟩ := Option.map_eq_some_iff.mp moved
    rw [here] at mine
    obtain ⟨next, kept⟩ := W.own inv mine.1 (allowed c k here) answered
    refine ⟨kept, fun q => ?_⟩
    dsimp only
    rcases update_cases (rfl : Function.update s.rest p (k r) = _) q with ⟨rfl, now⟩ | ⟨other, now⟩ <;> rw [now]
    · exact mine.2 r _ next
    · rw [W.other inv mine.1 answered other]
      exact right q

/-- Processes whose programs are right one by one are right in every interleaving. -/
theorem sound_of_reach {start : State Pid C R σ α → Prop} (initial : ∀ s, start s → W.Sound post s)
    (enter : ∀ p input prog a v, S.enter p input = some prog → post a v → Calls.wp W.pre W.next post prog v)
    (reach : (S.system start).ReachUnder (Meets ok) s) : W.Sound post s :=
  reach.invariant initial fun _ _ _ _ sound allowed moved => sound.step W enter allowed moved

omit [DecidableEq Pid] in
/-- In every state the call that a process makes next is one that it is allowed. -/
theorem Sound.pre_of_call (sound : W.Sound post s) {p : Pid} {c : C} {k : R c → Calls C R α}
    (here : s.rest p = .call c k) : W.pre (W.view p s.mem) c := by
  have mine := sound.2 p
  rw [here] at mine
  exact mine.1

omit [DecidableEq Pid] in
theorem Sound.not_panic (sound : W.Sound post s) (p : Pid) (text : String) : s.rest p ≠ .panic text := by
  intro here
  have mine := sound.2 p
  rw [here] at mine
  exact mine

omit [DecidableEq Pid] in
theorem Sound.post_of_ret (sound : W.Sound post s) {p : Pid} {a : α} (here : s.rest p = .ret a) :
    post a (W.view p s.mem) := by
  have mine := sound.2 p
  rw [here] at mine
  exact mine

end Views
end Service
end DeviceProgramming
