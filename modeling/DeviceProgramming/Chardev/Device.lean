import Mathlib.Data.Nat.Notation
import Mathlib.Data.Int.Notation
import Mathlib.Order.Lattice

namespace DeviceProgramming.Chardev

/-- `BUF_LEN`. -/
abbrev bufLen : ℕ := 128

/-- The variables of the driver; `me` is the value of the semaphore. -/
structure Device where
  contentSize : ℕ
  offset : ℕ
  charDevBuf : ℕ → UInt8
  me : ℕ

/-- The device when the module has been loaded. -/
def Device.init (charDevBuf : ℕ → UInt8) : Device := ⟨0, 0, charDevBuf, 1⟩

/-- `device_open`, which waits for the semaphore unless a signal interrupts it. -/
def deviceOpen (interrupted : Bool) (d : Device) : Option (ℤ × Device) :=
  if interrupted then some (-1, d)
  else if d.me = 0 then none
  else some (0, { d with me := d.me - 1, offset := 0 })

def deviceRelease (d : Device) : ℤ × Device := (0, { d with me := d.me + 1 })

/-- `device_read`, with the bytes that arrive in the buffer of the user;
`notCopied` is what `copy_to_user` returns. -/
def deviceRead (count notCopied : ℕ) (d : Device) : ℤ × List UInt8 × Device :=
  if d.offset ≥ d.contentSize then (0, [], d)
  else
    let count := if count > d.contentSize then d.contentSize else count
    (count, (List.range (count - notCopied)).map d.charDevBuf, { d with offset := d.offset + count })

/-- `device_write` of the bytes in `buff`; `notCopied` is what `copy_from_user`
returns, which fills the bytes it cannot copy with zeros. -/
def deviceWrite (buff : ℕ → UInt8) (count notCopied : ℕ) (d : Device) : ℤ × Device :=
  let cleared := fun i => if i < d.contentSize then 0 else d.charDevBuf i
  let contentSize := if count > bufLen then bufLen else count
  let copied := fun i => if i < contentSize - notCopied then buff i else 0
  (contentSize, { d with
    contentSize := contentSize
    charDevBuf := fun i => if i < contentSize then copied i else cleared i })

/-- Calls of `device_read` with these counts until one returns 0, and the bytes
they returned; `none` if none of them returns 0. -/
def readAll : List ℕ → Device → Option (List UInt8)
  | [], _ => none
  | count :: rest, d =>
    let (ret, bytes, d) := deviceRead count 0 d
    if ret = 0 then some [] else (readAll rest d).map (bytes ++ ·)

end DeviceProgramming.Chardev
