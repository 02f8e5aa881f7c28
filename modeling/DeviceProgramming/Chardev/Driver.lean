import DeviceProgramming.Chardev.Device
import DeviceProgramming.Machine.Int32
import DeviceProgramming.Machine.System

namespace DeviceProgramming.Chardev

/-- An `int` converted to `size_t`. -/
def sizeT (x : ℤ) : ℕ := (x % 2 ^ 64).toNat

/-- A `size_t` converted to `ssize_t`. -/
def ssizeT (x : ℕ) : ℤ := ((x : ℤ) + 2 ^ 63) % 2 ^ 64 - 2 ^ 63

theorem sizeT_of_nonneg {x : ℤ} (lower : 0 ≤ x) (upper : x < 2 ^ 31) : sizeT x = x.toNat := by
  unfold sizeT
  omega

theorem ssizeT_of_lt {x : ℕ} (small : x < 2 ^ 63) : ssizeT x = x := by
  unfold ssizeT
  omega

/-- The variables of the driver, with two of type `int`. -/
structure Driver where
  contentSize : ℤ
  offset : ℤ
  charDevBuf : ℕ → UInt8
  me : ℕ

/-- The calls of the four operations; the outside decides about a signal during
`device_open` and about the bytes that a copy does not reach. -/
inductive Call
  | deviceOpen (interrupted : Bool)
  | deviceRelease
  | deviceRead (count : UInt64) (notCopied : ℕ)
  | deviceWrite (buff : ℕ → UInt8) (count : UInt64) (notCopied : ℕ)

namespace Driver

/-- The driver when the module has been loaded. -/
def init : Driver := ⟨0, 0, fun _ => 0, 1⟩

def deviceOpen (interrupted : Bool) (d : Driver) : Option (ℤ × Driver) :=
  if interrupted then some (-1, d)
  else if d.me = 0 then none
  else some (0, { d with me := d.me - 1, offset := 0 })

def deviceRelease (d : Driver) : ℤ × Driver := (0, { d with me := d.me + 1 })

/-- `count` after its comparison with `content_size`. -/
def readSize (d : Driver) (count : ℕ) : ℕ := if count > sizeT d.contentSize then sizeT d.contentSize else count

/-- `device_read` with the bytes that arrive at the user. -/
def deviceRead (count notCopied : ℕ) (d : Driver) : ℤ × List UInt8 × Driver :=
  if d.offset ≥ d.contentSize then (0, [], d)
  else
    let count := d.readSize count
    (ssizeT count, (List.range (count - notCopied)).map d.charDevBuf,
      { d with offset := int32 ((sizeT d.offset : ℤ) + count) })

/-- `content_size` after a write. -/
def writeSize (count : ℕ) : ℤ := if count > bufLen then bufLen else int32 count

def deviceWrite (buff : ℕ → UInt8) (count notCopied : ℕ) (d : Driver) : ℤ × Driver :=
  let cleared := fun i : ℕ => if (i : ℤ) < d.contentSize then 0 else d.charDevBuf i
  let contentSize := writeSize count
  let copied := fun i => if i < sizeT contentSize - notCopied then buff i else 0
  (contentSize, { d with
    contentSize := contentSize
    charDevBuf := fun i => if i < sizeT contentSize then copied i else cleared i })

/-- What a call returns; `none` is a `device_open` that waits. -/
def run (d : Driver) : Call → Option (ℤ × Driver)
  | .deviceOpen interrupted => d.deviceOpen interrupted
  | .deviceRelease => some d.deviceRelease
  | .deviceRead count notCopied =>
    let (ret, _, d) := d.deviceRead count.toNat notCopied
    some (ret, d)
  | .deviceWrite buff count notCopied => some (d.deviceWrite buff count.toNat notCopied)

/-- The indices of `char_dev_buf` that a call reads or writes. -/
def touches (d : Driver) : Call → List ℕ
  | .deviceOpen _ | .deviceRelease => []
  | .deviceRead count _ => if d.offset ≥ d.contentSize then [] else List.range (d.readSize count.toNat)
  | .deviceWrite _ count _ => List.range d.contentSize.toNat ++ List.range (sizeT (writeSize count.toNat))

/-- The same variables as natural numbers. -/
def toDevice (d : Driver) : Device := ⟨d.contentSize.toNat, d.offset.toNat, d.charDevBuf, d.me⟩

/-- The content fits into the buffer, the offset has not gone past its end by a
whole buffer, and nothing is left behind the content. -/
structure Tidy (d : Driver) : Prop where
  size : 0 ≤ d.contentSize ∧ d.contentSize ≤ bufLen
  offset : 0 ≤ d.offset ∧ d.offset < 2 * bufLen
  rest : ∀ i : ℕ, d.contentSize ≤ i → d.charDevBuf i = 0

end Driver

/-- The calls of any users, one after the other. -/
abbrev driver : System Driver Call where
  start d := d = .init
  next d call := (d.run call).map Prod.snd

variable {d : Driver}

theorem bufLen_eq : bufLen = 128 := rfl

theorem clamp_eq (count size : ℕ) : (if count > size then size else count) = min count size := by
  split <;> omega

theorem writeSize_eq (count : ℕ) : Driver.writeSize count = (min count bufLen : ℕ) := by
  have len := bufLen_eq
  unfold Driver.writeSize int32
  split <;> omega

theorem sizeT_writeSize (count : ℕ) : sizeT (Driver.writeSize count) = min count bufLen := by
  have len := bufLen_eq
  rw [writeSize_eq, sizeT_of_nonneg (by omega) (by omega), Int.toNat_natCast]

namespace Driver

theorem Tidy.readSize_eq (tidy : d.Tidy) (count : ℕ) : d.readSize count = min count d.contentSize.toNat := by
  have size := tidy.size
  have len := bufLen_eq
  rw [readSize, clamp_eq, sizeT_of_nonneg size.1 (by omega)]

theorem Tidy.offset_eq (tidy : d.Tidy) (more : d.offset < d.contentSize) (count : ℕ) :
    int32 ((sizeT d.offset : ℤ) + d.readSize count) = d.offset + d.readSize count := by
  have size := tidy.size
  have offset := tidy.offset
  have len := bufLen_eq
  have read := tidy.readSize_eq count
  rw [sizeT_of_nonneg offset.1 (by omega), Int.toNat_of_nonneg offset.1]
  exact int32_of_range (by omega) (by omega)

theorem Tidy.offset_deviceRead (tidy : d.Tidy) (count notCopied : ℕ) : (d.deviceRead count notCopied).2.2.offset =
    if d.offset ≥ d.contentSize then d.offset else d.offset + d.readSize count := by
  unfold Driver.deviceRead
  split
  · rfl
  · rename_i more
    exact tidy.offset_eq (not_le.mp more) count

/-- Within its bounds the driver reads like the one with natural numbers. -/
theorem Tidy.deviceRead_toDevice (tidy : d.Tidy) (count notCopied : ℕ) :
    Chardev.deviceRead count notCopied d.toDevice =
      ((d.deviceRead count notCopied).1, (d.deviceRead count notCopied).2.1,
        (d.deviceRead count notCopied).2.2.toDevice) := by
  have size := tidy.size
  have offset := tidy.offset
  have len := bufLen_eq
  unfold Chardev.deviceRead Driver.deviceRead
  by_cases done : d.offset ≥ d.contentSize
  · have done' : d.toDevice.offset ≥ d.toDevice.contentSize := Int.toNat_le_toNat done
    rw [if_pos done, if_pos done']
  · have more : ¬ d.toDevice.offset ≥ d.toDevice.contentSize := by
      simp only [toDevice]
      omega
    have read := tidy.readSize_eq count
    have clamp : (if count > d.toDevice.contentSize then d.toDevice.contentSize else count) = d.readSize count := by
      rw [read, clamp_eq]
      rfl
    have next : (d.offset + d.readSize count).toNat = d.offset.toNat + d.readSize count := by omega
    rw [if_neg done, if_neg more]
    simp only [clamp, ssizeT_of_lt (show d.readSize count < 2 ^ 63 by omega), tidy.offset_eq (not_le.mp done)]
    simp only [toDevice, next]

theorem Tidy.deviceWrite_toDevice (tidy : d.Tidy) (buff : ℕ → UInt8) (count notCopied : ℕ) :
    Chardev.deviceWrite buff count notCopied d.toDevice =
      ((d.deviceWrite buff count notCopied).1, (d.deviceWrite buff count notCopied).2.toDevice) := by
  have size := tidy.size
  have stored := sizeT_writeSize count
  have size' : (if count > bufLen then bufLen else count) = (writeSize count).toNat := by
    rw [clamp_eq, writeSize_eq, Int.toNat_natCast]
  have same : sizeT (writeSize count) = (writeSize count).toNat := by rw [stored, writeSize_eq, Int.toNat_natCast]
  simp only [Chardev.deviceWrite, Driver.deviceWrite, toDevice, size', same]
  refine congrArg₂ Prod.mk (by rw [writeSize_eq]; rfl) ?_
  refine congrArg (fun buf => Device.mk _ _ buf _) (funext fun i => ?_)
  exact if_congr Iff.rfl rfl (if_congr (by omega) rfl rfl)

/-- What a call makes of the driver. -/
inductive Ran (d : Driver) : Call → Driver → Prop
  | interrupted : Ran d (.deviceOpen true) d
  | opened : Ran d (.deviceOpen false) { d with me := d.me - 1, offset := 0 }
  | released : Ran d .deviceRelease { d with me := d.me + 1 }
  | read {count notCopied} : Ran d (.deviceRead count notCopied) (d.deviceRead count.toNat notCopied).2.2
  | written {buff count notCopied} :
      Ran d (.deviceWrite buff count notCopied) (d.deviceWrite buff count.toNat notCopied).2

theorem ran_of_run {call : Call} {ret : ℤ} {d' : Driver} (run : d.run call = some (ret, d')) : Ran d call d' := by
  cases call with
  | deviceOpen interrupted =>
    simp only [Driver.run, deviceOpen] at run
    cases interrupted with
    | true =>
      rw [if_pos rfl] at run
      cases Option.some.inj run
      exact .interrupted
    | false =>
      rw [if_neg (by decide)] at run
      split at run
      · cases run
      · cases Option.some.inj run
        exact .opened
  | deviceRelease =>
    cases Option.some.inj run
    exact .released
  | deviceRead count notCopied =>
    obtain rfl : (d.deviceRead count.toNat notCopied).2.2 = d' := congrArg Prod.snd (Option.some.inj run)
    exact .read
  | deviceWrite buff count notCopied =>
    obtain rfl : (d.deviceWrite buff count.toNat notCopied).2 = d' := congrArg Prod.snd (Option.some.inj run)
    exact .written

section
variable (d) (buff : ℕ → UInt8) (count notCopied : ℕ)

@[simp] theorem contentSize_deviceWrite :
    (d.deviceWrite buff count notCopied).2.contentSize = (min count bufLen : ℕ) := writeSize_eq count

theorem charDevBuf_deviceWrite (i : ℕ) :
    (d.deviceWrite buff count notCopied).2.charDevBuf i =
      if i < min count bufLen then if i < min count bufLen - notCopied then buff i else 0
      else if (i : ℤ) < d.contentSize then 0 else d.charDevBuf i := by
  rw [← sizeT_writeSize]
  rfl

/-- A read changes the offset only. -/
theorem deviceRead_frame : (d.deviceRead count notCopied).2.2 =
    { d with offset := (d.deviceRead count notCopied).2.2.offset } := by
  unfold deviceRead
  split <;> rfl

end

end Driver

end DeviceProgramming.Chardev
