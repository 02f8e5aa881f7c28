import DeviceProgramming.FileData.Files

namespace DeviceProgramming.FileData

open OpenFiles (File)
open Transfers (Event overwrite Consecutive Faithful written moved)

variable {Pid F Inode Pipe β : Type} [DecidableEq Pid] [DecidableEq F] [DecidableEq Inode]

/-- An open file without its offset, which is all that a call may change of it. -/
def fixed (file : File Inode Pipe) : File Inode Pipe := { file with off := 0 }

omit [DecidableEq Inode] in
theorem of_fixed {a b : File Inode Pipe} (same : fixed a = fixed b) :
    a.type = b.type ∧ a.readable = b.readable ∧ a.writable = b.writable ∧ a.pipe = b.pipe ∧ a.ip = b.ip := by
  simp only [fixed, File.mk.injEq] at same
  obtain ⟨type, _, readable, writable, pipe, ip, _⟩ := same
  exact ⟨type, readable, writable, pipe, ip⟩

/-- What only the calls of a process change: the locks that it holds with the offsets
of the files of these inodes, its transaction, its memory and its history. -/
@[ext] structure View (F Inode Pipe β : Type) where
  file : F → File Inode Pipe
  off : F → BitVec 32
  due : F → ℕ
  lock : Inode → Bool
  trans : Bool
  user : ℤ → β
  before : ℤ → β
  did : List β

def view (p : Pid) (m : Memory Pid F Inode Pipe β) : View F Inode Pipe β where
  file f := fixed (m.file f)
  off f := if m.lock (m.file f).ip = some p then (m.file f).off else 0
  due f := if m.lock (m.file f).ip = some p then m.due f else 0
  lock ip := decide (m.lock ip = some p)
  trans := decide (m.trans = some p)
  user := m.user p
  before := m.before p
  did := m.did p

/-- The calls that are allowed: an inode is read and written under its lock and at the
offset of the file, and the offset counts everything before the lock is given back. -/
def pre (v : View F Inode Pipe β) : Call F Inode Pipe → Prop
  | .beginTrans => v.trans = false ∧ ∀ ip, v.lock ip = false
  | .commitTrans => v.trans = true ∧ ∀ ip, v.lock ip = false
  | .ilock _ => ∀ ip, v.lock ip = false
  | .iunlock ip => v.lock ip = true ∧ ∀ f, v.due f = 0
  | .setOff f off => v.lock (v.file f).ip = true ∧ off.toNat = (v.off f).toNat + v.due f
  | .readi f ip _ off _ =>
    (v.file f).readable = true ∧ (v.file f).ip = ip ∧ v.lock ip = true ∧ off = v.off f ∧ v.due f = 0
  | .writei f ip _ off _ =>
    (v.file f).writable = true ∧ (v.file f).ip = ip ∧ v.lock ip = true ∧ v.trans = true ∧ off = v.off f ∧ v.due f = 0
  | .syscall | .file _ | .piperead .. | .pipewrite .. => True

/-- What an allowed call returns and does to the view of its process. -/
def next (v : View F Inode Pipe β) : (c : Call F Inode Pipe) → Answer c → View F Inode Pipe β → Prop
  | .syscall, _, v' => v' = { v with before := v.user, did := [] }
  | .beginTrans, _, v' => v' = { v with trans := true }
  | .commitTrans, _, v' => v' = { v with trans := false }
  | .ilock ip, _, v' => ∃ off, v' = { v with lock := Function.update v.lock ip true, off := off }
  | .iunlock ip, _, v' => ∃ off, v' = { v with lock := Function.update v.lock ip false, off := off }
  | .file f, r, v' => v' = v ∧ fixed r = v.file f ∧ (v.lock (v.file f).ip = true → r.off = v.off f)
  | .setOff f off, _, v' => v' = { v with off := Function.update v.off f off, due := Function.update v.due f 0 }
  | .readi f _ addr off n, r, v' => r = -1 ∧ v' = v ∨ ∃ bytes : List β,
    r = bytes.length ∧ bytes.length ≤ n.toNat ∧ off.toNat + bytes.length < 2 ^ 32 ∧
      v' = { v with
        due := Function.update v.due f bytes.length
        did := v.did ++ bytes
        user := store v.user addr bytes }
  | .writei f _ addr off n, r, v' => r = -1 ∧ v' = v ∨ r = n.toNat ∧ off.toNat + n.toNat < 2 ^ 32 ∧
    v' = { v with
      due := Function.update v.due f n.toNat
      did := v.did ++ cells v.user addr (addr + n.toNat) }
  | .piperead _ addr n, r, v' => r = -1 ∧ v' = v ∨ ∃ bytes : List β,
    r = bytes.length ∧ (r ≤ n ∨ bytes = []) ∧ v' = { v with did := v.did ++ bytes, user := store v.user addr bytes }
  | .pipewrite _ addr n, r, v' => ∃ k : ℕ, (r = -1 ∧ k < n ∨ r = n ∧ k = n.toNat) ∧
    v' = { v with did := v.did ++ cells v.user addr (addr + k) }

/-- What has gone through the files, told from the first memory. -/
structure Kept (start : F → File Inode Pipe) (first : Inode → List β) (m : Memory Pid F Inode Pipe β) : Prop where
  same : ∀ f, fixed (m.file f) = fixed (start f)
  offset : ∀ f, (m.file f).off.toNat + m.due f = (start f).off.toNat + moved f (m.events (start f).ip)
  idle : ∀ f, m.lock (start f).ip = none → m.due f = 0
  consecutive : ∀ ip, Consecutive (fun f => (start f).off.toNat) (m.events ip)
  faithful : ∀ ip, Faithful (first ip) (m.events ip)
  data : ∀ ip, m.data ip = written (first ip) (m.events ip)
  size : ∀ ip, (m.data ip).length < 2 ^ 32
  through : ∀ ip, ∀ e ∈ m.events ip, (start e.file).ip = ip ∧
    if e.write then (start e.file).writable = true else (start e.file).readable = true

section
variable {m m' : Memory Pid F Inode Pipe β} {p q : Pid} {f : F} {ip : Inode} {start : F → File Inode Pipe}
  {first : Inode → List β} {off n : BitVec 32} {bytes : List β}

omit [DecidableEq Pid] [DecidableEq Inode] in
theorem Kept.ip_eq (kept : Kept start first m) (f : F) : (m.file f).ip = (start f).ip :=
  (of_fixed (kept.same f)).2.2.2.2

omit [DecidableEq Pid] [DecidableEq Inode] in
theorem Kept.keep (kept : Kept start first m) (file : m'.file = m.file) (data : m'.data = m.data)
    (lock : m'.lock = m.lock) (events : m'.events = m.events) (due : m'.due = m.due) : Kept start first m' := by
  obtain ⟨same, offset, idle, consecutive, faithful, content, size, through⟩ := kept
  constructor <;> simp only [file, data, lock, events, due] <;> assumption

theorem view_record (p : Pid) (off : BitVec 32) (write : Bool) (bytes : List β) (same : (m.file f).ip = ip)
    (held : m.lock ip = some p) (none : m.due f = 0) :
    view p (m.record p f ip write off bytes) =
      { view p m with
        due := Function.update (view p m).due f bytes.length
        did := (view p m).did ++ bytes } := by
  refine View.ext rfl rfl (funext fun g => ?_) rfl rfl rfl rfl (Function.update_self ..)
  change (if m.lock (m.file g).ip = some p then Function.update m.due f (m.due f + bytes.length) g else 0) =
    Function.update (view p m).due f bytes.length g
  by_cases own : g = f
  · subst own
    subst same
    rw [Function.update_self, Function.update_self, if_pos held, none, Nat.zero_add]
  · rw [Function.update_of_ne own, Function.update_of_ne own]
    rfl

theorem view_record_other (other : q ≠ p) (off : BitVec 32) (write : Bool) (bytes : List β)
    (same : (m.file f).ip = ip) (held : m.lock ip = some p) :
    view q (m.record p f ip write off bytes) = view q m := by
  have away : m.lock (m.file f).ip ≠ some q := by
    rw [same, held]
    exact fun both => other (Option.some.inj both).symm
  refine View.ext rfl rfl (funext fun g => ?_) rfl rfl rfl rfl (Function.update_of_ne other ..)
  change (if m.lock (m.file g).ip = some q then Function.update m.due f (m.due f + bytes.length) g else 0) = _
  by_cases own : g = f
  · subst own
    rw [if_neg away]
    exact (if_neg away).symm
  · rw [Function.update_of_ne own]
    rfl

omit [DecidableEq F] [DecidableEq Inode] in
theorem view_give (p : Pid) (m : Memory Pid F Inode Pipe β) (addr : ℤ) (bytes : List β) :
    view p (m.after (m.give p addr bytes)) = { view p m with user := store (view p m).user addr bytes } :=
  View.ext rfl rfl rfl rfl rfl (Function.update_self ..) rfl rfl

omit [DecidableEq F] [DecidableEq Inode] in
theorem view_give_other (other : q ≠ p) (m : Memory Pid F Inode Pipe β) (addr : ℤ) (bytes : List β) :
    view q (m.after (m.give p addr bytes)) = view q m :=
  View.ext rfl rfl rfl rfl rfl (Function.update_of_ne other ..) rfl rfl

omit [DecidableEq F] [DecidableEq Inode] in
theorem view_move (p : Pid) (m : Memory Pid F Inode Pipe β) (bytes : List β) :
    view p (m.move p bytes) = { view p m with did := (view p m).did ++ bytes } :=
  View.ext rfl rfl rfl rfl rfl rfl rfl (Function.update_self ..)

omit [DecidableEq F] [DecidableEq Inode] in
theorem view_move_other (other : q ≠ p) (m : Memory Pid F Inode Pipe β) (bytes : List β) :
    view q (m.move p bytes) = view q m :=
  View.ext rfl rfl rfl rfl rfl rfl rfl (Function.update_of_ne other ..)

/-- A transfer at the offset of a file, under the lock of its inode. -/
theorem Kept.record (kept : Kept start first m) (write : Bool) (same : (m.file f).ip = ip) (held : m.lock ip = some p)
    (none : m.due f = 0) (allowed : if write then (m.file f).writable = true else (m.file f).readable = true)
    {data : List β} (bound : data.length < 2 ^ 32)
    (now : if write then data = overwrite (m.data ip) (m.file f).off.toNat bytes
      else data = m.data ip ∧ bytes <+: (m.data ip).drop (m.file f).off.toNat) :
    Kept start first { m.record p f ip write (m.file f).off bytes with data := Function.update m.data ip data } := by
  have home : (start f).ip = ip := (kept.ip_eq f).symm.trans same
  have begins : (m.file f).off.toNat = (start f).off.toNat + moved f (m.events ip) := by
    have count := kept.offset f
    rwa [none, home] at count
  obtain ⟨_, readable, writable, _⟩ := of_fixed (kept.same f)
  let e : Event F β := ⟨f, write, (m.file f).off.toNat, bytes⟩
  -- only the history of this inode changes
  have here : Function.update m.events ip (e :: m.events ip) ip = e :: m.events ip := Function.update_self ..
  have away {x : Inode} (other : x ≠ ip) : Function.update m.events ip (e :: m.events ip) x = m.events x :=
    Function.update_of_ne other ..
  refine ⟨kept.same, fun g => ?_, fun g free => ?_, ?_, ?_, fun x => ?_, ?_, ?_⟩
  · change (m.file g).off.toNat + Function.update m.due f (m.due f + bytes.length) g =
      (start g).off.toNat + moved g (Function.update m.events ip (e :: m.events ip) (start g).ip)
    by_cases own : g = f
    · subst own
      have grown : moved g (e :: m.events ip) = moved g (m.events ip) + bytes.length := Transfers.moved_cons_self e _
      rw [Function.update_self, home, here, grown, none]
      omega
    · rw [Function.update_of_ne own, kept.offset g]
      by_cases home : (start g).ip = ip
      · rw [home, here, Transfers.moved_cons_of_ne (e := e) fun same => own same.symm]
      · rw [away home]
  · change Function.update m.due f (m.due f + bytes.length) g = 0
    have own : g ≠ f := by
      rintro rfl
      cases held.symm.trans (home ▸ free)
    rw [Function.update_of_ne own]
    exact kept.idle g free
  · refine (Function.forall_update_iff m.events fun _ => Consecutive _).mpr ⟨?_, fun x _ => kept.consecutive x⟩
    exact ⟨begins, kept.consecutive ip⟩
  · refine (Function.forall_update_iff m.events fun x => Faithful (first x)).mpr ⟨?_, fun x _ => kept.faithful x⟩
    refine ⟨fun read => ?_, kept.faithful ip⟩
    obtain rfl : write = false := read
    rw [← kept.data ip]
    exact now.2
  · change Function.update m.data ip data x = written (first x) (Function.update m.events ip (e :: m.events ip) x)
    by_cases home : x = ip
    · subst home
      rw [here, Function.update_self, written, ← kept.data x]
      cases write with
      | true => exact now
      | false => exact now.1
    · rw [away home, Function.update_of_ne home]
      exact kept.data x
  · exact (Function.forall_update_iff m.data fun _ data => data.length < 2 ^ 32).mpr ⟨bound, fun x _ => kept.size x⟩
  · refine (Function.forall_update_iff m.events fun x events => ∀ e ∈ events, (start e.file).ip = x ∧
      if e.write then (start e.file).writable = true else (start e.file).readable = true).mpr
      ⟨List.forall_mem_cons.mpr ⟨⟨home, ?_⟩, kept.through ip⟩, fun x _ => kept.through x⟩
    change if write then (start f).writable = true else (start f).readable = true
    rwa [← writable, ← readable]

omit [DecidableEq F] in
theorem lock_setLock (m : Memory Pid F Inode Pipe β) (p : Pid) (ip : Inode) (owner : Option Pid) :
    (view p (m.after (m.setLock ip owner))).lock = Function.update (view p m).lock ip (decide (owner = some p)) := by
  funext x
  change decide (Function.update m.lock ip owner x = some p) = _
  by_cases same : x = ip
  · rw [same, Function.update_self, Function.update_self]
  · rw [Function.update_of_ne same, Function.update_of_ne same]
    rfl

omit [DecidableEq F] in
/-- The view when the lock of an inode is taken or given back while no offset of its files lags behind. -/
theorem view_setLock {owner : Option Pid} {held : Bool} (now : decide (owner = some p) = held)
    (counted : ∀ f, (m.file f).ip = ip → (view p m).due f = 0) (idle : ∀ f, (m.file f).ip = ip → m.due f = 0) :
    ∃ off, view p (m.after (m.setLock ip owner)) =
      { view p m with lock := Function.update (view p m).lock ip held, off := off } := by
  refine ⟨_, View.ext rfl rfl (funext fun f => ?_) (now ▸ lock_setLock m p ip owner) rfl rfl rfl rfl⟩
  change (if Function.update m.lock ip owner (m.file f).ip = some p then m.due f else 0) = (view p m).due f
  by_cases same : (m.file f).ip = ip
  · rw [counted f same, idle f same, ite_self]
  · rw [Function.update_of_ne same]
    rfl

omit [DecidableEq F] in
theorem view_setLock_other (before : m.lock ip ≠ some q) {owner : Option Pid} (after : owner ≠ some q) :
    view q (m.after (m.setLock ip owner)) = view q m := by
  have same (x : Inode) : Function.update m.lock ip owner x = some q ↔ m.lock x = some q := by
    by_cases same : x = ip
    · rw [same, Function.update_self]
      exact iff_of_false after before
    · rw [Function.update_of_ne same]
  refine View.ext rfl (funext fun f => ?_) (funext fun f => ?_) (funext fun x => ?_) rfl rfl rfl rfl
  · exact if_congr (same _) rfl rfl
  · exact if_congr (same _) rfl rfl
  · exact decide_eq_decide.mpr (same x)

omit [DecidableEq Pid] [DecidableEq Inode] in
theorem file_setOff_of_ne {g : F} (own : g ≠ f) : (m.setOff f off).file g = m.file g := Function.update_of_ne own ..

omit [DecidableEq Pid] [DecidableEq Inode] in
theorem file_setOff_self (m : Memory Pid F Inode Pipe β) (f : F) (off : BitVec 32) :
    (m.setOff f off).file f = { m.file f with off := off } := Function.update_self ..

omit [DecidableEq Pid] [DecidableEq Inode] in
theorem fixed_setOff (m : Memory Pid F Inode Pipe β) (f g : F) (off : BitVec 32) :
    fixed ((m.setOff f off).file g) = fixed (m.file g) := by
  by_cases own : g = f
  · rw [own, file_setOff_self]
    rfl
  · rw [file_setOff_of_ne own]

omit [DecidableEq Inode] in
theorem view_setOff (held : m.lock (m.file f).ip = some p) :
    view p (m.setOff f off) =
      { view p m with
        off := Function.update (view p m).off f off
        due := Function.update (view p m).due f 0 } := by
  have ips (g : F) : ((m.setOff f off).file g).ip = (m.file g).ip := (of_fixed (fixed_setOff m f g off)).2.2.2.2
  refine View.ext (funext fun g => fixed_setOff m f g off) (funext fun g => ?_) (funext fun g => ?_) rfl rfl rfl rfl rfl
  · change (if m.lock ((m.setOff f off).file g).ip = some p then ((m.setOff f off).file g).off else 0) =
      Function.update (view p m).off f off g
    rw [ips]
    by_cases own : g = f
    · subst own
      rw [if_pos held, Function.update_self, file_setOff_self]
    · rw [Function.update_of_ne own, file_setOff_of_ne own]
      rfl
  · change (if m.lock ((m.setOff f off).file g).ip = some p then Function.update m.due f 0 g else 0) =
      Function.update (view p m).due f 0 g
    rw [ips]
    by_cases own : g = f
    · rw [own, Function.update_self, Function.update_self, ite_self]
    · rw [Function.update_of_ne own, Function.update_of_ne own]
      rfl

omit [DecidableEq Inode] in
theorem view_setOff_other (away : m.lock (m.file f).ip ≠ some q) : view q (m.setOff f off) = view q m := by
  have ips (g : F) : ((m.setOff f off).file g).ip = (m.file g).ip := (of_fixed (fixed_setOff m f g off)).2.2.2.2
  refine View.ext (funext fun g => fixed_setOff m f g off) (funext fun g => ?_) (funext fun g => ?_) rfl rfl rfl rfl rfl
  · change (if m.lock ((m.setOff f off).file g).ip = some q then ((m.setOff f off).file g).off else 0) = _
    rw [ips]
    by_cases own : g = f
    · subst own
      exact (if_neg away).trans (if_neg away).symm
    · rw [file_setOff_of_ne own]
      rfl
  · change (if m.lock ((m.setOff f off).file g).ip = some q then Function.update m.due f 0 g else 0) = _
    rw [ips]
    by_cases own : g = f
    · subst own
      exact (if_neg away).trans (if_neg away).symm
    · rw [Function.update_of_ne own]
      rfl

omit [DecidableEq Pid] [DecidableEq Inode] in
/-- The offset comes to count what has been moved. -/
theorem Kept.setOff (kept : Kept start first m) (counts : off.toNat = (m.file f).off.toNat + m.due f) :
    Kept start first (m.setOff f off) := by
  refine ⟨fun g => (fixed_setOff m f g off).trans (kept.same g), fun g => ?_, fun g free => ?_, kept.consecutive,
    kept.faithful, kept.data, kept.size, kept.through⟩
  · change ((m.setOff f off).file g).off.toNat + Function.update m.due f 0 g =
      (start g).off.toNat + moved g (m.events (start g).ip)
    by_cases own : g = f
    · rw [own, file_setOff_self, Function.update_self, ← kept.offset f, counts, Nat.add_zero]
    · rw [file_setOff_of_ne own, Function.update_of_ne own]
      exact kept.offset g
  · change Function.update m.due f 0 g = 0
    by_cases own : g = f
    · rw [own, Function.update_self]
    · rw [Function.update_of_ne own]
      exact kept.idle g free

end

/-- What a call is documented to return and to leave. -/
inductive Does (p : Pid) (m : Memory Pid F Inode Pipe β) : (c : Call F Inode Pipe) → Answer c →
    Memory Pid F Inode Pipe β → Prop
  | syscall : Does p m .syscall () { m with
      before := Function.update m.before p (m.user p)
      did := Function.update m.did p [] }
  | file {f} : Does p m (.file f) (m.file f) m
  | setOff {f off} : Does p m (.setOff f off) () (m.setOff f off)
  | beginTrans : m.trans = none → Does p m .beginTrans () { m with trans := some p }
  | commitTrans : m.trans = some p → Does p m .commitTrans () { m with trans := none }
  | ilock {ip} : m.lock ip = none → Does p m (.ilock ip) () (m.after (m.setLock ip (some p)))
  | iunlock {ip} : m.lock ip = some p → Does p m (.iunlock ip) () (m.after (m.setLock ip none))
  | readiFails {f ip addr off n} : Does p m (.readi f ip addr off n) (-1) m
  | readi {f ip addr off n bytes} : bytes <+: (m.data ip).drop off.toNat → bytes.length ≤ n.toNat →
      off.toNat + bytes.length ≤ (m.data ip).length →
      Does p m (.readi f ip addr off n) bytes.length ((m.after (m.give p addr bytes)).record p f ip false off bytes)
  | writeiFails {f ip addr off n} : Does p m (.writei f ip addr off n) (-1) m
  | writei {f ip addr off n bytes} : bytes = cells (m.user p) addr (addr + n.toNat) → off.toNat ≤ (m.data ip).length →
      off.toNat + n.toNat < 2 ^ 32 →
      Does p m (.writei f ip addr off n) n.toNat ((m.after (m.put ip off.toNat bytes)).record p f ip true off bytes)
  | pipereadFails {pipe addr n} : Does p m (.piperead pipe addr n) (-1) m
  | piperead {pipe addr n bytes} : bytes.length ≤ n ∨ bytes = [] →
      Does p m (.piperead pipe addr n) bytes.length ((m.after (m.give p addr bytes)).move p bytes)
  | pipewrite {pipe addr} {n r : ℤ} {k : ℕ} : r = -1 ∧ k < n ∨ r = n ∧ k = n.toNat →
      Does p m (.pipewrite pipe addr n) r (m.move p (cells (m.user p) addr (addr + k)))

section
variable {m m' : Memory Pid F Inode Pipe β} {p q : Pid} {f : F} {ip : Inode} {start : F → File Inode Pipe}
  {first : Inode → List β} {off n : BitVec 32} {addr : ℤ} {bytes : List β} {Ext : Type}
  {fs : Functions Pid Inode Pipe β Ext} {ext : Ext}

omit [DecidableEq F] [DecidableEq Inode] in
theorem move_nil (m : Memory Pid F Inode Pipe β) (p : Pid) : m.move p [] = m := by
  rw [Memory.move, List.append_nil, Function.update_eq_self]

theorem does_readi (documented : Documented fs) (held : m.lock ip = some p) {r : ℤ}
    (answered : answer fs p (.readi f ip addr off n) (.go ext) m = some (r, m')) :
    Does p m (.readi f ip addr off n) r m' := by
  obtain ⟨⟨r, s⟩, read, same⟩ := Option.map_eq_some_iff.mp answered
  cases same
  rcases documented.readi held read with ⟨rfl, rfl⟩ | ⟨begins, bytes, piece, rfl, rfl⟩
  · exact .readiFails
  · have got : cells ((m.give p addr bytes).user p) addr (addr + bytes.length) = bytes := by
      rw [Store.give]
      dsimp only
      rw [Function.update_self, cells_store]
    rw [if_neg (by omega), got]
    have count := congrArg List.length piece
    rw [List.length_take, List.length_drop] at count
    refine .readi (piece ▸ List.take_prefix ..) ?_ ?_ <;> omega

theorem does_writei (documented : Documented fs) (held : m.lock ip = some p) (busy : m.trans = some p) {r : ℤ}
    (answered : answer fs p (.writei f ip addr off n) (.go ext) m = some (r, m')) :
    Does p m (.writei f ip addr off n) r m' := by
  obtain ⟨⟨r, s⟩, wrote, same⟩ := Option.map_eq_some_iff.mp answered
  cases same
  rcases documented.writei held busy wrote with ⟨rfl, rfl⟩ | ⟨begins, ends, rfl, rfl⟩
  · exact .writeiFails
  · rw [if_neg (by omega)]
    exact .writei rfl begins ends

theorem does_piperead (documented : Documented fs) {pipe : Pipe} {n r : ℤ}
    (answered : answer fs p (.piperead pipe addr n) (.go ext) m = some (r, m')) :
    Does p m (.piperead pipe addr n) r m' := by
  obtain ⟨⟨r, s⟩, read, same⟩ := Option.map_eq_some_iff.mp answered
  cases same
  rcases documented.piperead read with ⟨rfl, rfl⟩ | ⟨bytes, few, rfl, rfl⟩
  · rw [cells_nil (by omega), move_nil]
    exact .pipereadFails
  · have got : cells ((m.give p addr bytes).user p) addr (addr + bytes.length) = bytes := by
      rw [Store.give]
      dsimp only
      rw [Function.update_self, cells_store]
    rw [got]
    exact .piperead few

theorem does_pipewrite (documented : Documented fs) {pipe : Pipe} {n r : ℤ}
    (answered : answer fs p (.pipewrite pipe addr n) (.go ext) m = some (r, m')) :
    Does p m (.pipewrite pipe addr n) r m' := by
  obtain ⟨⟨⟨r, k⟩, s⟩, wrote, same⟩ := Option.map_eq_some_iff.mp answered
  cases same
  obtain ⟨rfl, count⟩ := documented.pipewrite wrote
  exact .pipewrite count

/-- An allowed call does what it is documented to do. -/
theorem does_of_answer (documented : Documented fs) {c : Call F Inode Pipe} {r : Answer c} {input : Input F Ext}
    (allowed : pre (view p m) c) (answered : answer fs p c input m = some (r, m')) : Does p m c r m' := by
  cases c with
  | syscall => cases input <;> cases answered <;> exact .syscall
  | file f => cases input <;> cases answered <;> exact .file
  | setOff f off => cases input <;> cases answered <;> exact .setOff
  | beginTrans =>
    cases input with
    | enter => cases answered
    | go ext =>
      obtain ⟨s, begun, same⟩ := Option.map_eq_some_iff.mp answered
      cases same
      obtain ⟨free, rfl⟩ := documented.beginTrans begun
      exact .beginTrans free
  | commitTrans =>
    cases input with
    | enter => cases answered
    | go ext =>
      obtain ⟨s, done, same⟩ := Option.map_eq_some_iff.mp answered
      cases same
      have busy : m.trans = some p := of_decide_eq_true allowed.1
      obtain rfl := documented.commitTrans busy done
      exact .commitTrans busy
  | ilock ip =>
    cases input with
    | enter => cases answered
    | go ext =>
      obtain ⟨s, locked, same⟩ := Option.map_eq_some_iff.mp answered
      cases same
      obtain ⟨free, rfl⟩ := documented.ilock locked
      exact .ilock free
  | iunlock ip =>
    cases input with
    | enter => cases answered
    | go ext =>
      obtain ⟨s, unlocked, same⟩ := Option.map_eq_some_iff.mp answered
      cases same
      have held : m.lock ip = some p := of_decide_eq_true allowed.1
      obtain rfl := documented.iunlock held unlocked
      exact .iunlock held
  | readi f ip addr off n =>
    cases input with
    | enter => cases answered
    | go ext =>
      obtain ⟨_, _, held, _⟩ := allowed
      exact does_readi documented (of_decide_eq_true held) answered
  | writei f ip addr off n =>
    cases input with
    | enter => cases answered
    | go ext =>
      obtain ⟨_, _, held, busy, _⟩ := allowed
      exact does_writei documented (of_decide_eq_true held) (of_decide_eq_true busy) answered
  | piperead pipe addr n =>
    cases input with
    | enter => cases answered
    | go ext => exact does_piperead documented answered
  | pipewrite pipe addr n =>
    cases input with
    | enter => cases answered
    | go ext => exact does_pipewrite documented answered

end
section
variable {m m' : Memory Pid F Inode Pipe β} {p q : Pid} {f : F} {ip : Inode} {start : F → File Inode Pipe}
  {first : Inode → List β} {off n : BitVec 32} {addr : ℤ} {bytes : List β} {c : Call F Inode Pipe} {r : Answer c}

omit [DecidableEq Pid] in
/-- The lock of an inode changes hands while every offset of its files counts everything. -/
theorem Kept.setLock (kept : Kept start first m) (idle : ∀ f, (m.file f).ip = ip → m.due f = 0) (owner : Option Pid) :
    Kept start first (m.after (m.setLock ip owner)) := by
  refine ⟨kept.same, kept.offset, fun f none => ?_, kept.consecutive, kept.faithful, kept.data, kept.size, kept.through⟩
  by_cases home : (m.file f).ip = ip
  · exact idle f home
  · rw [← kept.ip_eq f] at none
    refine kept.idle f ?_
    rw [← kept.ip_eq f]
    exact (Function.update_of_ne home ..).symm.trans none

theorem own_ilock (kept : Kept start first m) (free : m.lock ip = none) :
    next (view p m) (.ilock ip) () (view p (m.after (m.setLock ip (some p)))) ∧
      Kept start first (m.after (m.setLock ip (some p))) := by
  have idle (f : F) (home : (m.file f).ip = ip) : m.due f = 0 := kept.idle f (by rw [← kept.ip_eq f, home, free])
  refine ⟨view_setLock (decide_eq_true rfl) (fun f home => ?_) idle, kept.setLock idle _⟩
  exact if_neg (by rw [home, free]; nofun)

theorem own_iunlock (kept : Kept start first m) (held : m.lock ip = some p) (counted : ∀ f, (view p m).due f = 0) :
    next (view p m) (.iunlock ip) () (view p (m.after (m.setLock ip none))) ∧
      Kept start first (m.after (m.setLock ip none)) := by
  have idle (f : F) (home : (m.file f).ip = ip) : m.due f = 0 := (if_pos (home ▸ held)).symm.trans (counted f)
  exact ⟨view_setLock (decide_eq_false nofun) (fun f _ => counted f) idle, kept.setLock idle _⟩

theorem own_setOff (kept : Kept start first m) (allowed : pre (view p m) (.setOff f off)) :
    next (view p m) (.setOff f off) () (view p (m.setOff f off)) ∧ Kept start first (m.setOff f off) := by
  obtain ⟨held, counts⟩ := allowed
  have mine : m.lock (m.file f).ip = some p := of_decide_eq_true held
  refine ⟨view_setOff mine, kept.setOff ?_⟩
  rw [counts]
  exact congrArg₂ _ (congrArg _ (if_pos mine)) (if_pos mine)

omit [DecidableEq F] [DecidableEq Inode] in
/-- What the view of a process shows of a file while it holds the lock of its inode. -/
theorem shown_of_held (home : (m.file f).ip = ip) (held : m.lock ip = some p) :
    (view p m).off f = (m.file f).off ∧ (view p m).due f = m.due f := by
  have at_file : m.lock (m.file f).ip = some p := (congrArg m.lock home).trans held
  exact ⟨if_pos at_file, if_pos at_file⟩

theorem own_readi (kept : Kept start first m) (allowed : pre (view p m) (.readi f ip addr off n))
    (piece : bytes <+: (m.data ip).drop off.toNat) (few : bytes.length ≤ n.toNat)
    (inside : off.toNat + bytes.length ≤ (m.data ip).length) :
    next (view p m) (.readi f ip addr off n) (bytes.length : ℤ)
        (view p ((m.after (m.give p addr bytes)).record p f ip false off bytes)) ∧
      Kept start first ((m.after (m.give p addr bytes)).record p f ip false off bytes) := by
  obtain ⟨readable, home, held, now, counted⟩ := allowed
  have mine : m.lock ip = some p := of_decide_eq_true held
  obtain ⟨shown, due⟩ := shown_of_held (p := p) home mine
  have none_due : m.due f = 0 := due.symm.trans counted
  rw [shown] at now
  subst now
  refine ⟨Or.inr ⟨bytes, rfl, few, lt_of_le_of_lt inside (kept.size ip), ?_⟩, ?_⟩
  · rw [view_record (m := m.after (m.give p addr bytes)) p _ false bytes home mine none_due, view_give]
  · have stays := kept.record false home mine none_due readable (kept.size ip) ⟨rfl, piece⟩
    rw [Function.update_eq_self] at stays
    exact stays.keep rfl rfl rfl rfl rfl

theorem own_writei (kept : Kept start first m) (allowed : pre (view p m) (.writei f ip addr off n))
    (all : bytes = cells (m.user p) addr (addr + n.toNat)) (begins : off.toNat ≤ (m.data ip).length)
    (ends : off.toNat + n.toNat < 2 ^ 32) :
    next (view p m) (.writei f ip addr off n) (n.toNat : ℤ)
        (view p ((m.after (m.put ip off.toNat bytes)).record p f ip true off bytes)) ∧
      Kept start first ((m.after (m.put ip off.toNat bytes)).record p f ip true off bytes) := by
  obtain ⟨writable, home, held, trans, now, counted⟩ := allowed
  have mine : m.lock ip = some p := of_decide_eq_true held
  obtain ⟨shown, due⟩ := shown_of_held (p := p) home mine
  have none_due : m.due f = 0 := due.symm.trans counted
  rw [shown] at now
  subst now
  have count : bytes.length = n.toNat := by simp [all]
  refine ⟨Or.inr ⟨rfl, ends, ?_⟩, kept.record true home mine none_due writable ?_ rfl⟩
  · have seen := view_record (m := m.after (m.put ip (m.file f).off.toNat bytes)) p (m.file f).off true bytes home mine
      none_due
    rw [count] at seen
    rw [seen, all]
    rfl
  · have before := kept.size ip
    rw [Transfers.length_overwrite begins, count]
    omega

/-- An allowed call does to the view of its process what `next` says. -/
theorem own_view (kept : Kept start first m) (allowed : pre (view p m) c) (does : Does p m c r m') :
    next (view p m) c r (view p m') ∧ Kept start first m' := by
  cases does with
  | syscall =>
    exact ⟨View.ext rfl rfl rfl rfl rfl rfl (Function.update_self ..) (Function.update_self ..),
      kept.keep rfl rfl rfl rfl rfl⟩
  | beginTrans => exact ⟨View.ext rfl rfl rfl rfl (decide_eq_true rfl) rfl rfl rfl, kept.keep rfl rfl rfl rfl rfl⟩
  | commitTrans => exact ⟨rfl, kept.keep rfl rfl rfl rfl rfl⟩
  | ilock free => exact own_ilock kept free
  | iunlock held => exact own_iunlock kept held allowed.2
  | file => exact ⟨⟨rfl, rfl, fun held => (if_pos (of_decide_eq_true held)).symm⟩, kept⟩
  | setOff => exact own_setOff kept allowed
  | readiFails | writeiFails | pipereadFails => exact ⟨Or.inl ⟨rfl, rfl⟩, kept⟩
  | readi piece few inside => exact own_readi kept allowed piece few inside
  | writei all begins ends => exact own_writei kept allowed all begins ends
  | @piperead pipe addr n bytes few =>
    refine ⟨Or.inr ⟨bytes, rfl, few, ?_⟩, kept.keep rfl rfl rfl rfl rfl⟩
    rw [view_move, view_give]
  | pipewrite count => exact ⟨⟨_, count, view_move ..⟩, kept.keep rfl rfl rfl rfl rfl⟩

/-- An allowed call leaves the view of every other process as it is. -/
theorem other_view (allowed : pre (view p m) c) (does : Does p m c r m') (other : q ≠ p) : view q m' = view q m := by
  have apart : some p ≠ some q := fun same => other (Option.some.inj same).symm
  cases does with
  | syscall =>
    exact View.ext rfl rfl rfl rfl rfl rfl (Function.update_of_ne other ..) (Function.update_of_ne other ..)
  | beginTrans free =>
    refine View.ext rfl rfl rfl rfl (decide_eq_decide.mpr (iff_of_false apart ?_)) rfl rfl rfl
    rw [free]
    nofun
  | commitTrans mine =>
    refine View.ext rfl rfl rfl rfl ?_ rfl rfl rfl
    change decide (none = some q) = decide (m.trans = some q)
    rw [mine, decide_eq_decide]
    exact iff_of_false nofun apart
  | ilock free => exact view_setLock_other (by rw [free]; nofun) apart
  | iunlock mine => exact view_setLock_other (by rwa [mine]) nofun
  | file | readiFails | writeiFails | pipereadFails => rfl
  | setOff =>
    have mine : m.lock (m.file _).ip = some p := of_decide_eq_true allowed.1
    exact view_setOff_other (by rwa [mine])
  | @readi f ip addr off n bytes =>
    obtain ⟨_, home, held, _⟩ := allowed
    rw [view_record_other (m := m.after (m.give p addr bytes)) other off false bytes home (of_decide_eq_true held),
      view_give_other other]
  | @writei f ip addr off n bytes =>
    obtain ⟨_, home, held, _⟩ := allowed
    exact view_record_other (m := m.after (m.put ip off.toNat bytes)) other off true _ home (of_decide_eq_true held)
  | piperead => rw [view_move_other other, view_give_other other]
  | pipewrite => exact view_move_other other ..

/-- The views of the processes. -/
def views {Ext : Type} {fs : Functions Pid Inode Pipe β Ext} (documented : Documented fs)
    (start : F → File Inode Pipe) (first : Inode → List β) :
    (kernel fs F).Views (fun _ _ _ _ => True) (View F Inode Pipe β) where
  view := view
  inv := Kept start first
  pre := pre
  next := next
  own kept allowed _ answered := own_view kept allowed (does_of_answer documented allowed answered)
  other _ allowed answered other := other_view allowed (does_of_answer documented allowed answered) other

end
end DeviceProgramming.FileData
