import DeviceProgramming.Chardev.Driver

namespace DeviceProgramming.Chardev

/-- What a `device_write` stores: the bytes that could be copied, and a zero for
each of the others. -/
def Call.message : Call → Option (List UInt8)
  | .deviceWrite buff count notCopied =>
    let size := min count.toNat bufLen
    some ((List.range size).map fun i => if i < size - notCopied then buff i else 0)
  | _ => none

/-- What the most recent `device_write` of a run has stored. -/
def lastMessage (path : List (Driver × Call)) : List UInt8 :=
  (path.findSome? fun step => step.2.message).getD []

/-- The bytes in front of `content_size`. -/
def Driver.content (d : Driver) : List UInt8 := (List.range d.contentSize.toNat).map d.charDevBuf

variable {d d' : Driver} {call : Call} {path : List (Driver × Call)}

theorem tidy_init : Driver.init.Tidy where
  size := by decide
  offset := by decide
  rest _ _ := rfl

/-- A write clears the whole old content before it stores the new one. -/
theorem Driver.Tidy.deviceWrite (tidy : d.Tidy) (buff : ℕ → UInt8) (count notCopied : ℕ) :
    (d.deviceWrite buff count notCopied).2.Tidy where
  size := by
    rw [contentSize_deviceWrite]
    omega
  offset := tidy.offset
  rest i behind := by
    rw [contentSize_deviceWrite] at behind
    rw [charDevBuf_deviceWrite, if_neg (by omega)]
    split
    · rfl
    · exact tidy.rest i (by omega)

theorem Driver.Tidy.deviceRead (tidy : d.Tidy) (count notCopied : ℕ) :
    (d.deviceRead count notCopied).2.2.Tidy := by
  have size := tidy.size
  have offset := tidy.offset
  have read := tidy.readSize_eq count
  have next := tidy.offset_deviceRead count notCopied
  rw [Driver.deviceRead_frame]
  refine ⟨size, ?_, tidy.rest⟩
  rw [next]
  split <;> omega

theorem Driver.Tidy.run (tidy : d.Tidy) (ran : Driver.Ran d call d') : d'.Tidy := by
  cases ran with
  | interrupted => exact tidy
  | opened => exact ⟨tidy.size, ⟨le_rfl, by simp⟩, tidy.rest⟩
  | released => exact ⟨tidy.size, tidy.offset, tidy.rest⟩
  | read => exact tidy.deviceRead ..
  | written => exact tidy.deviceWrite ..

/-- Only a write changes the content. -/
theorem Driver.Ran.content (ran : Driver.Ran d call d') : d'.content = call.message.getD d.content := by
  cases ran with
  | interrupted | opened | released => rfl
  | read =>
    rw [Driver.deviceRead_frame]
    rfl
  | written =>
    rw [Call.message, Option.getD_some, Driver.content, Driver.contentSize_deviceWrite, Int.toNat_natCast]
    refine List.map_congr_left fun i inside => ?_
    rw [Driver.charDevBuf_deviceWrite, if_pos (List.mem_range.mp inside)]

theorem tidy_of_reach (reach : driver.Reach d) : d.Tidy := by
  refine reach.invariant ?_ ?_
  · rintro s rfl
    exact tidy_init
  · intro s s' call _ before _ moved
    obtain ⟨⟨ret, next⟩, ran, rfl⟩ := Option.map_eq_some_iff.mp moved
    exact before.run (Driver.ran_of_run ran)

/-- The content is what the last write has stored. -/
theorem content_of_run (run : driver.Run path d) : d.content = lastMessage path := by
  induction run with
  | start begun =>
    subst begun
    rfl
  | @next path before after call earlier moved ih =>
    obtain ⟨⟨ret, next⟩, ran, rfl⟩ := Option.map_eq_some_iff.mp moved
    rw [(Driver.ran_of_run ran).content, ih, lastMessage, lastMessage, List.findSome?_cons]
    cases call.message <;> rfl

theorem Driver.Tidy.touches_lt (tidy : d.Tidy) : ∀ i ∈ d.touches call, i < bufLen := by
  have size := tidy.size
  intro i member
  cases call with
  | deviceOpen | deviceRelease => cases member
  | deviceRead count notCopied =>
    simp only [Driver.touches] at member
    split at member
    · cases member
    · rw [List.mem_range, tidy.readSize_eq] at member
      omega
  | deviceWrite buff count notCopied =>
    simp only [Driver.touches, List.mem_append, List.mem_range, sizeT_writeSize] at member
    omega

/-- A read returns a beginning of the content. -/
theorem Driver.Tidy.read_prefix (tidy : d.Tidy) (count notCopied : ℕ) :
    (d.deviceRead count notCopied).2.1 <+: d.content := by
  unfold Driver.deviceRead
  split
  · exact List.nil_prefix
  · have read := tidy.readSize_eq count
    have fewer : d.readSize count - notCopied ≤ d.contentSize.toNat := by omega
    refine List.IsPrefix.map _ ?_
    rw [← Nat.min_eq_left fewer, ← List.take_range]
    exact List.take_prefix ..

/-- Whatever is called, the content stays within the buffer, nothing is left
behind it, no copy goes past the buffer, and a read returns only bytes that the
most recent write has stored. -/
theorem device_never_overflows (run : driver.Run path d) :
    (0 ≤ d.contentSize ∧ d.contentSize ≤ bufLen) ∧ (0 ≤ d.offset ∧ d.offset < 2 * bufLen) ∧
      (∀ i : ℕ, d.contentSize ≤ i → d.charDevBuf i = 0) ∧ (∀ call, ∀ i ∈ d.touches call, i < bufLen) ∧
      ∀ (count : UInt64) (notCopied : ℕ), (d.deviceRead count.toNat notCopied).2.1 <+: lastMessage path := by
  have tidy : d.Tidy := tidy_of_reach (run.reachUnder fun _ _ => trivial)
  refine ⟨tidy.size, tidy.offset, tidy.rest, fun call => tidy.touches_lt, fun count notCopied => ?_⟩
  rw [← content_of_run run]
  exact tidy.read_prefix ..

/-- A message of two bytes whose second byte cannot be copied. -/
theorem device_never_overflows_oneWrite : ∃ path d, driver.Run path d ∧ lastMessage path = [5, 0] ∧
    (d.deviceRead 3 0).2.1 = [5, 0] ∧ (d.deviceRead (UInt64.toNat 3) 0).2.1 <+: lastMessage path := by
  have run : driver.Run [(Driver.init, .deviceWrite (fun _ => 5) 2 1)] (Driver.init.deviceWrite (fun _ => 5) 2 1).2 :=
    .next (.start rfl) rfl
  exact ⟨_, _, run, by decide, by decide, (device_never_overflows run).2.2.2.2 3 0⟩

end DeviceProgramming.Chardev
