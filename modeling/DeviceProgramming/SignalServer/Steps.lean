import DeviceProgramming.SignalServer.Server
import DeviceProgramming.Machine.Count

namespace DeviceProgramming.SignalServer

/-- The statements of `main` with what they change. -/
inductive MainStep (s : State) : State → Prop
  | create1 : s.main = .create1 → MainStep s ({ s with main := .create2 }.goto .client1 .fopen)
  | create2 : s.main = .create2 → MainStep s ({ s with main := .join1 }.goto .client2 .fopen)
  | join1 : s.main = .join1 → s.client .client1 = .done → MainStep s { s with main := .join2 }
  | join2 : s.main = .join2 → s.client .client2 = .done → MainStep s { s with main := .print }
  | print : s.main = .print → MainStep s { s with reported := some s.requestNb, main := .returned }

/-- The statements of `thread_func` with what they change. -/
inductive ClientStep (files : Files) (i : Client) (left : ℤ) (s : State) : State → Prop
  | closed : s.client i = .fopen → files i = none → ClientStep files i left s (s.goto i .done)
  | fopen {bytes} : s.client i = .fopen → files i = some bytes →
      ClientStep files i left s ({ s with stream := Function.update s.stream i bytes }.goto i .waitMutex)
  | waitMutex : s.client i = .waitMutex → s.mutex ≠ 0 →
      ClientStep files i left s ({ s with mutex := s.mutex - 1 }.goto i .fread)
  | fread {x rest} : s.client i = .fread → readInt (s.stream i) = some (x, rest) →
      ClientStep files i left s
        ({ s with number := x, stream := Function.update s.stream i rest }.goto i .postMutex)
  | fail : s.client i = .fread → readInt (s.stream i) = none →
      ClientStep files i left s
        ({ s with number := if s.stream i = [] then s.number else int32 left
                  stream := Function.update s.stream i [] }.goto i .postMutexEnd)
  | postMutexEnd : s.client i = .postMutexEnd →
      ClientStep files i left s ({ s with mutex := s.mutex + 1 }.goto i .fclose)
  | fclose : s.client i = .fclose → ClientStep files i left s (s.goto i .done)
  | postMutex : s.client i = .postMutex →
      ClientStep files i left s ({ s with mutex := s.mutex + 1 }.goto i .kill)
  | kill : s.client i = .kill → ClientStep files i left s ({ s with pending := true }.goto i .waitReady)
  | waitReady : s.client i = .waitReady → s.ready ≠ 0 →
      ClientStep files i left s ({ s with ready := s.ready - 1 }.goto i .waitMutex2)
  | waitMutex2 : s.client i = .waitMutex2 → s.mutex ≠ 0 →
      ClientStep files i left s ({ s with mutex := s.mutex - 1 }.goto i .print)
  | print : s.client i = .print →
      ClientStep files i left s ({ s with printed := s.printed ++ [(i, s.number)] }.goto i .postMutex2)
  | postMutex2 : s.client i = .postMutex2 →
      ClientStep files i left s ({ s with mutex := s.mutex + 1 }.goto i .waitMutex)

/-- The statements of `server_func` with what they change. -/
inductive HandlerStep (t : Tid) (s : State) : State → Prop
  | waitMutex : s.handler t = some .waitMutex → s.mutex ≠ 0 →
      HandlerStep t s ({ s with mutex := s.mutex - 1 }.handle t (some .double))
  | double : s.handler t = some .double →
      HandlerStep t s ({ s with number := int32 (s.number * 2) }.handle t (some .count))
  | count : s.handler t = some .count →
      HandlerStep t s ({ s with requestNb := int32 (s.requestNb + 1) }.handle t (some .postMutex))
  | postMutex : s.handler t = some .postMutex →
      HandlerStep t s ({ s with mutex := s.mutex + 1 }.handle t (some .postReady))
  | postReady : s.handler t = some .postReady →
      HandlerStep t s ({ s with ready := s.ready + 1 }.handle t (some .signal))
  | signal : s.handler t = some .signal → HandlerStep t s (s.handle t none)

/-- Who moves in a step. -/
inductive Step (files : Files) (s : State) : Label → State → Prop
  | main {left s'} : s.handler .main = none → MainStep s s' → Step files s (.run .main left) s'
  | client {i left s'} : s.handler (.client i) = none → ClientStep files i left s s' →
      Step files s (.run (.client i) left) s'
  | handler {t left s'} : HandlerStep t s s' → Step files s (.run t left) s'
  | deliver {t} : s.pending = true → s.handler t = none → s.alive t = true →
      Step files s (.deliver t) ({ s with pending := false }.handle t (some .waitMutex))

variable {files : Files} {s s' : State} {i : Client} {t : Tid} {left : ℤ} {label : Label}

theorem mainStep_of_some (moved : mainStep s = some s') : MainStep s s' := by
  unfold mainStep at moved
  split at moved
  · rename_i here; cases Option.some.inj moved; exact .create1 here
  · rename_i here; cases Option.some.inj moved; exact .create2 here
  · rename_i here
    split at moved
    · rename_i done; cases Option.some.inj moved; exact .join1 here done
    · cases moved
  · rename_i here
    split at moved
    · rename_i done; cases Option.some.inj moved; exact .join2 here done
    · cases moved
  · rename_i here; cases Option.some.inj moved; exact .print here
  · cases moved

theorem clientStep_of_some (moved : clientStep files i left s = some s') : ClientStep files i left s s' := by
  unfold clientStep at moved
  split at moved
  · cases moved
  · cases moved
  · rename_i here
    split at moved
    · rename_i closed; cases Option.some.inj moved; exact .closed here closed
    · rename_i bytes opens; cases Option.some.inj moved; exact .fopen here opens
  · rename_i here
    split at moved
    · cases moved
    · rename_i free; cases Option.some.inj moved; exact .waitMutex here free
  · rename_i here
    split at moved
    · rename_i x rest read; cases Option.some.inj moved; exact .fread here read
    · rename_i fails; cases Option.some.inj moved; exact .fail here fails
  · rename_i here; cases Option.some.inj moved; exact .postMutexEnd here
  · rename_i here; cases Option.some.inj moved; exact .fclose here
  · rename_i here; cases Option.some.inj moved; exact .postMutex here
  · rename_i here; cases Option.some.inj moved; exact .kill here
  · rename_i here
    split at moved
    · cases moved
    · rename_i permit; cases Option.some.inj moved; exact .waitReady here permit
  · rename_i here
    split at moved
    · cases moved
    · rename_i free; cases Option.some.inj moved; exact .waitMutex2 here free
  · rename_i here; cases Option.some.inj moved; exact .print here
  · rename_i here; cases Option.some.inj moved; exact .postMutex2 here

theorem handlerStep_of_some {at' : HandlerAt} (here : s.handler t = some at')
    (moved : handlerStep t s at' = some s') : HandlerStep t s s' := by
  cases at' with
  | waitMutex =>
    change (if s.mutex = 0 then none else _) = some s' at moved
    split at moved
    · cases moved
    · rename_i free; cases Option.some.inj moved; exact .waitMutex here free
  | double => cases Option.some.inj moved; exact .double here
  | count => cases Option.some.inj moved; exact .count here
  | postMutex => cases Option.some.inj moved; exact .postMutex here
  | postReady => cases Option.some.inj moved; exact .postReady here
  | signal => cases Option.some.inj moved; exact .signal here

/-- A computed step, and that the process had not ended. -/
theorem step_of_next (moved : next files s label = some s') : s.main ≠ .returned ∧ Step files s label s' := by
  cases label with
  | run t left =>
    change (if s.main = .returned then none else _) = some s' at moved
    split at moved
    · cases moved
    · rename_i live
      refine ⟨live, ?_⟩
      split at moved
      · rename_i at' here
        exact .handler (handlerStep_of_some here moved)
      · rename_i idle
        cases t with
        | main => exact .main idle (mainStep_of_some moved)
        | client i => exact .client idle (clientStep_of_some moved)
  | deliver t =>
    change (if _ then some _ else none) = some s' at moved
    split at moved
    · rename_i allowed
      cases Option.some.inj moved
      exact ⟨allowed.1, .deliver allowed.2.1 allowed.2.2.1 allowed.2.2.2⟩
    · cases moved

end DeviceProgramming.SignalServer
