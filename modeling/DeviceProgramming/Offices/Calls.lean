import DeviceProgramming.Machine.RingBuffer
import DeviceProgramming.Machine.Threads

namespace DeviceProgramming.Offices

/-- The statements of `send`. -/
inductive SendAt
  | lock
  | test
  | wait
  | fill
  | notify
  | lockCond
  | token
  | broadcast
  | unlockCond
  | unlock
  deriving DecidableEq

/-- The statements of `receive`; the last two come after the message is read. -/
inductive ReceiveAt (α : Type*)
  | lock
  | test
  | wait
  | take
  | notify (message : α)
  | unlock (message : α)
  deriving DecidableEq

/-- A `Buffer` in the memory: its lock, its condition variables, and the other fields. -/
structure Buffer (Lock Chan Mem α : Type*) where
  lock : Lock
  notfull : Chan
  notempty : Chan
  fields : Mem → RingBuffer α

namespace Buffer
variable {Lock Chan Mem α Pc Input : Type*}

/-- The statements of `send(buf, info)`, with the lock and the condition variable of `cond`:
`fill` puts the message into the buffer and `token` sets the value in `cond`. -/
def send (buf : Buffer Lock Chan Mem α) (condLock : Lock) (cond : Chan) (fill token : Mem → Mem)
    (point : SendAt → Pc) (after : Pc) : SendAt → Instr Lock Chan Mem Pc Input
  | .lock => .acquire buf.lock (point .test)
  | .test => .exec fun _ m =>
      some (m, if (buf.fields m).count = (buf.fields m).dim then point .wait else point .fill)
  | .wait => .sleep buf.notfull buf.lock (point .test)
  | .fill => .exec fun _ m => some (fill m, point .notify)
  | .notify => .wakeup buf.notempty (point .lockCond)
  | .lockCond => .acquire condLock (point .token)
  | .token => .exec fun _ m => some (token m, point .broadcast)
  | .broadcast => .wakeup cond (point .unlockCond)
  | .unlockCond => .release condLock (point .unlock)
  | .unlock => .release buf.lock after

/-- The statements of `receive(buf)`: `take` takes the first message out of the buffer. -/
def receive (buf : Buffer Lock Chan Mem α) (take : Mem → Mem) (point : ReceiveAt α → Pc) (after : α → Pc) :
    ReceiveAt α → Instr Lock Chan Mem Pc Input
  | .lock => .acquire buf.lock (point .test)
  | .test => .exec fun _ m => some (m, if (buf.fields m).count = 0 then point .wait else point .take)
  | .wait => .sleep buf.notempty buf.lock (point .test)
  | .take => .exec fun _ m => some (take m, point (.notify (buf.fields m).first))
  | .notify message => .wakeup buf.notfull (point (.unlock message))
  | .unlock message => .release buf.lock (after message)

end Buffer

end DeviceProgramming.Offices
