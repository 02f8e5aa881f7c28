import DeviceProgramming.Xv6.Sysfile

namespace DeviceProgramming.Xv6.Sysfile

abbrev maxArg : ℕ := 32

/-- The byte at an address is the low one of the word there. -/
def Proc.byte (proc : Proc) (addr : BitVec 32) : BitVec 8 := (proc.word addr).setWidth 8

/-- The loop of `fetchstr` from `s` on, with the number of addresses before `ep`. -/
def strLoop (proc : Proc) (pp : BitVec 32) : ℕ → BitVec 32 → ℤ
  | 0, _ => -1
  | left + 1, s => if proc.byte s = 0 then int32 (s.toNat - pp.toNat) else strLoop proc pp left (s + 1)

/-- What `fetchstr` returns; the pointer it sets is the address itself. -/
def fetchstr (proc : Proc) (addr : BitVec 32) : ℤ :=
  if proc.sz ≤ addr then -1 else strLoop proc addr (proc.sz.toNat - addr.toNat) addr

/-- The pointer that `argptr` sets; `size` is an `int` that the sum converts to
unsigned. -/
def argptr (proc : Proc) (n : ℕ) (size : ℤ) : Option (BitVec 32) := match argint proc n with
  | none => none
  | some i =>
    let addr := BitVec.ofInt 32 i
    if proc.sz ≤ addr ∨ proc.sz < addr + BitVec.ofInt 32 size then none else some addr

/-- The pointer that `argstr` sets; `none` stands for a negative result. -/
def argstr (proc : Proc) (n : ℕ) : Option (BitVec 32) := match argint proc n with
  | none => none
  | some i =>
    let addr := BitVec.ofInt 32 i
    if fetchstr proc addr < 0 then none else some addr

/-- The loop of `sys_exec` from entry `i` of `argv` on, with the number of
entries that are left. -/
def argvLoop (proc : Proc) (uargv : BitVec 32) : ℕ → ℕ → Option (List (BitVec 32))
  | 0, _ => none
  | left + 1, i => match fetchint proc (uargv + BitVec.ofNat 32 (4 * i)) with
    | none => none
    | some word =>
      let uarg := BitVec.ofInt 32 word
      if uarg = 0 then some []
      else if fetchstr proc uarg < 0 then none
      else (argvLoop proc uargv left (i + 1)).map (uarg :: ·)

/-- The arguments with which `sys_exec` calls `exec`, without the null pointer at
the end; `none` when it returns -1 before. -/
def sysExec (proc : Proc) : Option (BitVec 32 × List (BitVec 32)) := match argstr proc 0, argint proc 1 with
  | some path, some uargv => (argvLoop proc (BitVec.ofInt 32 uargv) maxArg 0).map (path, ·)
  | _, _ => none

/-- A string of `len` bytes in front of its NUL lies within the process. -/
structure Proc.IsString (proc : Proc) (addr : BitVec 32) (len : ℕ) : Prop where
  inside : addr.toNat + len < proc.sz.toNat
  nul : proc.byte (addr + BitVec.ofNat 32 len) = 0
  before : ∀ j < len, proc.byte (addr + BitVec.ofNat 32 j) ≠ 0

/-- A string of a length that an `int` can hold. -/
def Proc.HasString (proc : Proc) (addr : BitVec 32) : Prop := ∃ len, len < 2 ^ 31 ∧ proc.IsString addr len

/-- The pointers that stand in the user's array from entry `i` on, up to the null
pointer that ends it. -/
structure Proc.ArgvFrom (proc : Proc) (uargv : BitVec 32) (i : ℕ) (args : List (BitVec 32)) : Prop where
  entry : ∀ j (within : j < args.length),
    fetchint proc (uargv + BitVec.ofNat 32 (4 * (i + j))) = some (args[j].toInt)
  pointer : ∀ arg ∈ args, arg ≠ 0
  string : ∀ arg ∈ args, proc.HasString arg
  null : fetchint proc (uargv + BitVec.ofNat 32 (4 * (i + args.length))) = some 0

variable {proc : Proc} {addr : BitVec 32}

theorem fetchint_eq_some {i : ℤ} : fetchint proc addr = some i ↔
    ¬ (proc.sz ≤ addr ∨ proc.sz < addr + 4) ∧ (proc.word addr).toInt = i := by
  unfold fetchint
  split <;> simp_all

theorem add_ofNat (addr : BitVec 32) (a b : ℕ) :
    addr + BitVec.ofNat 32 a + BitVec.ofNat 32 b = addr + BitVec.ofNat 32 (a + b) := by
  rw [BitVec.ofNat_add, BitVec.add_assoc]

/-- The loop finds the first NUL behind the bytes it has passed. -/
theorem strLoop_eq {left passed : ℕ} (room : addr.toNat + passed + left = proc.sz.toNat)
    (before : ∀ j < passed, proc.byte (addr + BitVec.ofNat 32 j) ≠ 0) :
    (∃ len, proc.IsString addr len ∧
        strLoop proc addr left (addr + BitVec.ofNat 32 passed) = int32 len) ∨
      (∀ len, ¬ proc.IsString addr len) ∧ strLoop proc addr left (addr + BitVec.ofNat 32 passed) = -1 := by
  induction left generalizing passed with
  | zero =>
    refine Or.inr ⟨fun len string => ?_, rfl⟩
    have inside := string.inside
    exact before len (by omega) string.nul
  | succ left ih =>
    have small := proc.sz.isLt
    by_cases nul : proc.byte (addr + BitVec.ofNat 32 passed) = 0
    · refine Or.inl ⟨passed, ⟨by omega, nul, before⟩, ?_⟩
      rw [strLoop, if_pos nul]
      have place : (addr + BitVec.ofNat 32 passed).toNat = addr.toNat + passed := by
        rw [BitVec.toNat_add, BitVec.toNat_ofNat]
        omega
      rw [place]
      congr 1
      omega
    · have shorter : addr.toNat + (passed + 1) + left = proc.sz.toNat := by omega
      have next := ih shorter fun j within => by
        rcases Nat.lt_succ_iff_lt_or_eq.mp within with old | rfl
        · exact before j old
        · exact nul
      rw [strLoop, if_neg nul]
      rw [← add_ofNat] at next
      exact next

theorem Proc.IsString.unique {len other : ℕ} (string : proc.IsString addr len) (second : proc.IsString addr other) :
    len = other := by
  rcases Nat.lt_trichotomy len other with less | same | more
  · exact absurd string.nul (second.before len less)
  · exact same
  · exact absurd second.nul (string.before other more)

/-- `fetchstr` returns the length of the string, -1 when there is none, and a
negative number also when the length is no `int`. -/
theorem fetchstr_cases (proc : Proc) (addr : BitVec 32) :
    (∃ len, proc.IsString addr len ∧ fetchstr proc addr = int32 len) ∨
      (∀ len, ¬ proc.IsString addr len) ∧ fetchstr proc addr = -1 := by
  unfold fetchstr
  split
  · rename_i outside
    refine Or.inr ⟨fun len string => ?_, rfl⟩
    have inside := string.inside
    rw [BitVec.le_def] at outside
    omega
  · rename_i inside
    rw [BitVec.le_def] at inside
    have room : addr.toNat + 0 + (proc.sz.toNat - addr.toNat) = proc.sz.toNat := by omega
    have found := strLoop_eq room (by simp)
    simpa using found

theorem fetchstr_nonneg_iff : ¬ fetchstr proc addr < 0 ↔ proc.HasString addr := by
  rcases fetchstr_cases proc addr with ⟨len, string, value⟩ | ⟨none, value⟩
  · have inside := string.inside
    have small := proc.sz.isLt
    rw [value]
    constructor
    · intro nonneg
      refine ⟨len, ?_, string⟩
      unfold int32 at nonneg
      omega
    · rintro ⟨other, bound, second⟩
      rw [string.unique second, int32_of_range (by omega) (by omega)]
      omega
  · rw [value]
    constructor
    · intro impossible
      exact absurd (by decide) impossible
    · rintro ⟨len, _, string⟩
      exact absurd string (none len)

/-- `argstr` gives a pointer exactly when it can be fetched and points to a
string within the process. -/
theorem argstr_eq_some {n : ℕ} : argstr proc n = some addr ↔
    (∃ i, argint proc n = some i ∧ BitVec.ofInt 32 i = addr) ∧ proc.HasString addr := by
  unfold argstr
  cases argint proc n with
  | none => simp
  | some i =>
    simp only [Option.some.injEq, exists_eq_left']
    constructor
    · intro fetched
      split at fetched
      · cases fetched
      · rename_i nonneg
        cases fetched
        exact ⟨rfl, fetchstr_nonneg_iff.mp nonneg⟩
    · rintro ⟨rfl, string⟩
      rw [if_neg (fetchstr_nonneg_iff.mpr string)]

theorem ArgvFrom.nil {uargv : BitVec 32} {i : ℕ} :
    proc.ArgvFrom uargv i [] ↔ fetchint proc (uargv + BitVec.ofNat 32 (4 * i)) = some 0 := by
  constructor
  · intro array
    exact array.null
  · intro null
    exact ⟨fun j within => absurd within (Nat.not_lt_zero j), by simp, by simp, null⟩

theorem ArgvFrom.cons {uargv arg : BitVec 32} {rest : List (BitVec 32)} {i : ℕ} :
    proc.ArgvFrom uargv i (arg :: rest) ↔
      fetchint proc (uargv + BitVec.ofNat 32 (4 * i)) = some arg.toInt ∧ arg ≠ 0 ∧ proc.HasString arg ∧
        proc.ArgvFrom uargv (i + 1) rest := by
  have shift (j : ℕ) : i + 1 + j = i + (j + 1) := by omega
  constructor
  · intro array
    obtain ⟨pointer, pointers⟩ := List.forall_mem_cons.mp array.pointer
    obtain ⟨string, strings⟩ := List.forall_mem_cons.mp array.string
    refine ⟨array.entry 0 (Nat.zero_lt_succ _), pointer, string, fun j within => ?_, pointers, strings, ?_⟩
    · rw [shift]
      exact array.entry (j + 1) (Nat.succ_lt_succ within)
    · rw [shift]
      exact array.null
  · rintro ⟨first, pointer, string, array⟩
    refine ⟨fun j within => ?_, List.forall_mem_cons.mpr ⟨pointer, array.pointer⟩,
      List.forall_mem_cons.mpr ⟨string, array.string⟩, ?_⟩
    · cases j with
      | zero => exact first
      | succ j =>
        have entry := array.entry j (Nat.lt_of_succ_lt_succ within)
        rw [shift] at entry
        exact entry
    · have null := array.null
      rw [shift] at null
      exact null

theorem argvLoop_eq_some {uargv : BitVec 32} {left i : ℕ} {args : List (BitVec 32)} :
    argvLoop proc uargv left i = some args ↔ args.length < left ∧ proc.ArgvFrom uargv i args := by
  induction left generalizing i args with
  | zero => simp [argvLoop]
  | succ left ih =>
    rw [argvLoop]
    cases word : fetchint proc (uargv + BitVec.ofNat 32 (4 * i)) with
    | none =>
      cases args with
      | nil => simp [ArgvFrom.nil, word]
      | cons arg rest => simp [ArgvFrom.cons, word]
    | some value =>
      obtain ⟨_, same⟩ := fetchint_eq_some.mp word
      generalize proc.word (uargv + BitVec.ofNat 32 (4 * i)) = uarg at same
      subst same
      simp only [BitVec.ofInt_toInt]
      by_cases null : uarg = 0
      · subst null
        cases args with
        | nil => simp [ArgvFrom.nil, word]
        | cons arg rest =>
          simp only [if_pos, Option.some.injEq, reduceCtorEq, ArgvFrom.cons, word, false_iff, not_and]
          intro _ same pointer
          exact absurd (BitVec.toInt_inj.mp same).symm pointer
      · have nonzero : uarg.toInt ≠ 0 := fun zero => null (BitVec.toInt_inj.mp zero)
        rw [if_neg null]
        cases args with
        | nil =>
          simp only [ArgvFrom.nil, word, Option.some.injEq, nonzero, and_false, iff_false]
          split <;> simp
        | cons arg rest =>
          simp only [ArgvFrom.cons, word, Option.some.injEq, BitVec.toInt_inj, List.length_cons]
          by_cases string : proc.HasString uarg
          · rw [if_neg (fetchstr_nonneg_iff.mpr string)]
            simp only [Option.map_eq_some_iff, ih, List.cons.injEq, Nat.succ_lt_succ_iff]
            constructor
            · rintro ⟨_, ⟨short, array⟩, rfl, rfl⟩
              exact ⟨short, rfl, null, string, array⟩
            · rintro ⟨short, rfl, _, _, array⟩
              exact ⟨rest, ⟨short, array⟩, rfl, rfl⟩
          · have negative : fetchstr proc uarg < 0 := Classical.byContradiction fun nonneg =>
              string (fetchstr_nonneg_iff.mp nonneg)
            rw [if_pos negative]
            simp only [reduceCtorEq, false_iff]
            rintro ⟨_, rfl, _, found, _⟩
            exact string found

/-- A pointer that `sys_exec` hands over: one that the user's memory holds, to a
string that lies there. -/
theorem exec_arguments_iff (proc : Proc) (path : BitVec 32) (args : List (BitVec 32)) :
    sysExec proc = some (path, args) ↔
      (∃ i, argint proc 0 = some i ∧ BitVec.ofInt 32 i = path) ∧ proc.HasString path ∧
        args.length < maxArg ∧ ∃ uargv, argint proc 1 = some uargv ∧ proc.ArgvFrom (BitVec.ofInt 32 uargv) 0 args := by
  rw [← and_assoc, ← argstr_eq_some, sysExec]
  cases argstr proc 0 with
  | none => simp
  | some pointer =>
    cases argint proc 1 with
    | none => simp
    | some uargv =>
      simp only [Option.map_eq_some_iff, Prod.mk.injEq, argvLoop_eq_some, Option.some.injEq, exists_eq_left']
      constructor
      · rintro ⟨_, array, rfl, rfl⟩
        exact ⟨rfl, array⟩
      · rintro ⟨rfl, array⟩
        exact ⟨args, array, rfl, rfl⟩

/-- A block of `size` bytes lies within the process. -/
def Proc.Inside (proc : Proc) (addr : BitVec 32) (size : ℤ) : Prop :=
  0 ≤ size ∧ addr.toNat + size ≤ proc.sz.toNat

theorem inside_of_check {proc : Proc} {size : ℤ} {addr : BitVec 32} (int : -2 ^ 31 ≤ size ∧ size < 2 ^ 31)
    (kernbase : proc.sz.toNat < 2 ^ 31) :
    ¬(proc.sz ≤ addr ∨ proc.sz < addr + BitVec.ofInt 32 size) ↔
      addr.toNat < proc.sz.toNat ∧ (proc.Inside addr size ∨ size < 0 ∧ 0 ≤ addr.toNat + size) := by
  have sum : (addr + BitVec.ofInt 32 size).toNat = (addr.toNat + (size % 2 ^ 32).toNat) % 2 ^ 32 := by
    rw [BitVec.toNat_add, BitVec.toNat_ofInt]
    rfl
  have small := addr.isLt
  rw [BitVec.le_def, BitVec.lt_def, sum, Proc.Inside]
  omega

/-- The check of `argptr` lets a block through when it lies within the process,
and for a negative size when the block that ends at the pointer does. -/
theorem argptr_iff (proc : Proc) (n : ℕ) (size : ℤ) (addr : BitVec 32) (int : -2 ^ 31 ≤ size ∧ size < 2 ^ 31)
    (kernbase : proc.sz.toNat < 2 ^ 31) :
    argptr proc n size = some addr ↔
      (∃ i, argint proc n = some i ∧ BitVec.ofInt 32 i = addr) ∧ addr.toNat < proc.sz.toNat ∧
        (proc.Inside addr size ∨ size < 0 ∧ 0 ≤ addr.toNat + size) := by
  unfold argptr
  cases argint proc n with
  | none => simp
  | some i =>
    simp only [Option.ite_none_left_eq_some, Option.some.injEq, exists_eq_left']
    constructor
    · rintro ⟨checked, rfl⟩
      exact ⟨rfl, (inside_of_check int kernbase).mp checked⟩
    · rintro ⟨rfl, inside⟩
      exact ⟨(inside_of_check int kernbase).mpr inside, rfl⟩

theorem argptr_iff_negative : argptr ⟨4096, 0, fun _ => 16⟩ 0 (-8) = some 16 :=
  (argptr_iff ⟨4096, 0, fun _ => 16⟩ 0 (-8) 16 (by decide) (by decide)).mpr
    ⟨⟨16, by decide, by decide⟩, by decide, Or.inr (by decide)⟩

end DeviceProgramming.Xv6.Sysfile
