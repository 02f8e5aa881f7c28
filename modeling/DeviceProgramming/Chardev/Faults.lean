import DeviceProgramming.Chardev.Messages

namespace DeviceProgramming.Chardev

/-- What `copy_from_user` or `copy_to_user` returns in a call. -/
def Call.notCopied : Call → ℕ
  | .deviceOpen _ | .deviceRelease => 0
  | .deviceRead _ notCopied | .deviceWrite _ _ notCopied => notCopied

/-- How many bytes `copy_from_user` or `copy_to_user` is asked to copy in a call. -/
def Driver.asked (d : Driver) : Call → ℕ
  | .deviceOpen _ | .deviceRelease => 0
  | .deviceRead count _ => if d.offset ≥ d.contentSize then 0 else d.readSize count.toNat
  | .deviceWrite _ count _ => sizeT (writeSize count.toNat)

def Call.isWrite : Call → Bool
  | .deviceWrite _ _ _ => true
  | _ => false

/-- A call that could not copy everything returns no more than what it copied,
and a write that could copy nothing changes neither the size nor the buffer. -/
def Driver.Honest (d : Driver) (call : Call) : Prop :=
  ∀ ret d', d.run call = some (ret, d') →
    (0 < call.notCopied → ret ≤ 0 ∨ ret ≤ (d.asked call - call.notCopied : ℕ)) ∧
    (call.isWrite = true → 0 < d.asked call → call.notCopied = d.asked call →
      d'.contentSize = d.contentSize ∧ d'.charDevBuf = d.charDevBuf)

variable {d d' : Driver} {call : Call} {ret : ℤ}

/-- A call that copies returns what it asked for, whatever was copied. -/
theorem ret_eq (ran : d.run call = some (ret, d')) (asks : 0 < d.asked call) : ret = ssizeT (d.asked call) := by
  cases call with
  | deviceOpen | deviceRelease => cases asks
  | deviceRead count notCopied =>
    obtain rfl : (d.deviceRead count.toNat notCopied).1 = ret := congrArg Prod.fst (Option.some.inj ran)
    simp only [Driver.asked, Driver.deviceRead] at asks ⊢
    split
    · rename_i done
      rw [if_pos done] at asks
      cases asks
    · rfl
  | deviceWrite buff count notCopied =>
    obtain rfl : (d.deviceWrite buff count.toNat notCopied).1 = ret := congrArg Prod.fst (Option.some.inj ran)
    have len := bufLen_eq
    rw [Driver.asked, sizeT_writeSize, ssizeT_of_lt (by omega)]
    exact writeSize_eq _

theorem asked_lt (d : Driver) (call : Call) : d.asked call < 2 ^ 64 := by
  cases call with
  | deviceOpen | deviceRelease => exact Nat.two_pow_pos 64
  | deviceRead count notCopied =>
    have small := count.toNat_lt
    simp only [Driver.asked, Driver.readSize, clamp_eq]
    split <;> omega
  | deviceWrite buff count notCopied =>
    have len := bufLen_eq
    rw [Driver.asked, sizeT_writeSize]
    omega

/-- A write asks for no more bytes than fit into the buffer. -/
theorem asked_of_isWrite (write : call.isWrite = true) : d.asked call ≤ bufLen := by
  cases call with
  | deviceWrite buff count notCopied =>
    rw [Driver.asked, sizeT_writeSize]
    exact min_le_right ..
  | deviceOpen | deviceRelease | deviceRead => cases write

/-- Within the bounds of the driver a call asks for no more than fits into the buffer. -/
theorem Driver.Tidy.asked_le (tidy : d.Tidy) (call : Call) : d.asked call ≤ bufLen := by
  have size := tidy.size
  cases call with
  | deviceOpen | deviceRelease => exact Nat.zero_le _
  | deviceRead count notCopied =>
    have read := tidy.readSize_eq count.toNat
    simp only [Driver.asked]
    split <;> omega
  | deviceWrite => exact asked_of_isWrite rfl

/-- A number of bytes that is negative as a `ssize_t` is reported as an error. -/
theorem honest_of_negative (huge : 2 ^ 63 ≤ d.asked call) : d.Honest call := by
  intro ret d' ran
  have len := bufLen_eq
  refine ⟨fun _ => Or.inl ?_, fun write => ?_⟩
  · have small := asked_lt d call
    rw [ret_eq ran (by omega), ssizeT]
    omega
  · have fits := asked_of_isWrite (d := d) write
    omega

theorem not_honest (possible : call.notCopied ≤ d.asked call) (fault : 0 < call.notCopied)
    (fits : d.asked call < 2 ^ 63) : ¬ d.Honest call := by
  intro honest
  have asks : 0 < d.asked call := by omega
  obtain ⟨⟨ret, d'⟩, ran⟩ : ∃ result, d.run call = some result := by
    cases call with
    | deviceOpen | deviceRelease => cases fault
    | deviceRead | deviceWrite => exact ⟨_, rfl⟩
  have returned := ret_eq ran asks
  rw [ssizeT_of_lt fits] at returned
  have bound := (honest ret d' ran).1 fault
  omega

/-- Whatever the variables hold, a call reports only bytes that it has really
copied if and only if there was no byte that it could not copy, or it asks for so
many that their number is a negative `ssize_t`. In the states that can be reached
no call asks for that many. -/
theorem reports_copied_iff (possible : call.notCopied ≤ d.asked call) :
    (d.Honest call ↔ call.notCopied = 0 ∨ 2 ^ 63 ≤ d.asked call) ∧ (driver.Reach d → d.asked call ≤ bufLen) := by
  refine ⟨⟨fun honest => ?_, ?_⟩, fun reach => (tidy_of_reach reach).asked_le call⟩
  · by_contra fault
    exact not_honest possible (by omega) (by omega) honest
  · rintro (complete | huge)
    · intro ret d' ran
      refine ⟨fun fault => ?_, fun _ asks all => ?_⟩
      · omega
      · omega
    · exact honest_of_negative huge

/-- A write of one byte that cannot be copied, to the device as it was loaded. -/
theorem reports_copied_iff_oneByte :
    (Driver.init.Honest (.deviceWrite (fun _ => 5) 1 1) ↔ Call.notCopied (.deviceWrite (fun _ => 5) 1 1) = 0 ∨
      2 ^ 63 ≤ Driver.init.asked (.deviceWrite (fun _ => 5) 1 1)) ∧
    (driver.Reach .init → Driver.init.asked (.deviceWrite (fun _ => 5) 1 1) ≤ bufLen) :=
  reports_copied_iff (by decide)

theorem write_reports_fault : ¬ ∀ (d : Driver) (call : Call), driver.Reach d → call.notCopied ≤ d.asked call →
    d.Honest call := by
  intro claim
  have honest := claim Driver.init (.deviceWrite (fun _ => 5) 1 1) (.start rfl) (by decide)
  exact not_honest (by decide) (by decide) (by decide) honest

end DeviceProgramming.Chardev
