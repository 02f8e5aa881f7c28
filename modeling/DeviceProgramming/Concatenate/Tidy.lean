import DeviceProgramming.Concatenate.Conservation

namespace DeviceProgramming.Concatenate

/-- A thread is about to use a null pointer. -/
def Point.UsesNull (p : Point) (input : Input) (m : Memory) : Prop :=
  (p.stmt = .scan2 ∧ p.locals.filehead1 = none ∧ input.isError = false ∧ m.atEnd input = false ∧
    m.stream.head?.any (fun entry => !special entry) = true) ∨
  (p.stmt = .open1 ∧ p.locals.filehead1 = none) ∨ (p.stmt = .open2 ∧ p.locals.filehead2 = none)

/-- A step that takes no file from another thread: it rewinds the directory
alone, its file in `tmp` is new, the name it links is new, and it does not end
the process while a thread has unlinked files in its hands. -/
structure KeepsFiles {K : ℕ} (s : State K) (label : Fin K × Input) : Prop where
  rewinds : RewindsAlone s label
  creates : (s.pc label.1).stmt = .openDest → s.mem.tmp.lookup (s.pc label.1).locals.filename = none
  links : (s.pc label.1).stmt = .link → (s.pc label.1).locals.filename ∉ s.mem.names
  crashes : (s.pc label.1).UsesNull label.2 s.mem → ∀ t, (s.pc t).stmt.carries = false

/-- Every thread works on files of its own. -/
structure Tidy {K : ℕ} (s : State K) : Prop where
  selecting : Selecting s
  working : ∀ t, (s.pc t).Working s.mem
  listed : ∀ name ∈ s.mem.stream, special name = false → (s.mem.dir.lookup name).isSome
  regular : ∀ entry ∈ s.mem.dir, (s.mem.node entry.2).isDirectory = false
  written : ∀ t, ∀ i ∈ (s.pc t).writes, (s.mem.node i).isDirectory = false
  old : ∀ entry ∈ s.mem.dir, entry.2 < s.mem.fresh
  used : ∀ t i, i ∈ (s.pc t).reads ∨ i ∈ (s.pc t).writes → i < s.mem.fresh
  separate : ∀ t, ∀ i ∈ (s.pc t).writes, (∀ entry ∈ s.mem.dir, entry.2 ≠ i) ∧
    ∀ u, i ∉ (s.pc u).reads ∧ (u ≠ t → i ∉ (s.pc u).writes)
  tmpNames : ∀ t u, t ≠ u → (s.pc t).stmt.hasTmp = true → (s.pc u).stmt.hasTmp = true →
    (s.pc t).locals.filename ≠ (s.pc u).locals.filename
  gone : ∀ t, (s.pc t).stmt = .unlink2 → ∀ name ∈ (s.pc t).locals.filehead1, name ∉ s.mem.stream ∧
    ∀ u, u ≠ t → name ∉ (s.pc u).chosen
  crashed : s.mem.crashed = true → ∀ t, (s.pc t).stmt.carries = false

variable {K : ℕ} {s s' : State K} {t u : Fin K} {input : Input} {m m' : Memory} {l : Locals} {next p : Point}
  {stmt : Stmt} {name : Name} {i : Inode}

theorem Turn.touches (turn : Turn t input s s' next) (working : (s.pc t).Working s.mem)
    (new : (s.pc t).stmt = .openDest → s.mem.tmp.lookup (s.pc t).locals.filename = none) :
    Touches s.mem s'.mem (s.pc t) next := by
  cases turn with
  | lock here _ mem there =>
    rw [mem, there]
    exact .of_early rfl rfl rfl rfl rfl rfl
  | unlock here mem there =>
    rw [mem, there]
    exact .of_early rfl rfl rfl rfl rfl rfl
  | move move => exact move.touches working new

/-- The inodes that were there before and that the mover does not write stay. -/
theorem Tidy.node_of_dir (tidy : Tidy s) (touches : Touches s.mem m' (s.pc t) next) {entry : Name × Inode}
    (member : entry ∈ s.mem.dir) : m'.node entry.2 = s.mem.node entry.2 :=
  touches.keepsNode _ (tidy.old entry member) fun write => (tidy.separate t _ write).1 entry member rfl

theorem Tidy.node_of_reads (tidy : Tidy s) (touches : Touches s.mem m' (s.pc t) next) (read : i ∈ (s.pc u).reads) :
    m'.node i = s.mem.node i :=
  touches.keepsNode _ (tidy.used u i (Or.inl read)) fun write => ((tidy.separate t i write).2 u).1 read

theorem Tidy.node_of_writes (tidy : Tidy s) (touches : Touches s.mem m' (s.pc t) next) (other : u ≠ t)
    (write : i ∈ (s.pc u).writes) : m'.node i = s.mem.node i :=
  touches.keepsNode _ (tidy.used u i (Or.inr write)) fun own =>
    ((tidy.separate t i own).2 u).2 other write

theorem Point.chosen_of_removes (removed : name ∈ p.removes) : name ∈ p.chosen ∧ p.stmt ≠ .scan2 := by
  obtain ⟨stmt, l⟩ := p
  cases stmt with
  | unlink1 => exact ⟨List.mem_append_left _ removed, nofun⟩
  | unlink2 => exact ⟨removed, nofun⟩
  | _ => cases removed

/-- A step of one thread leaves to the others what they work on. -/
theorem Tidy.agrees (tidy : Tidy s) (touches : Touches s.mem m' (s.pc t) next) (other : u ≠ t) :
    Agrees s.mem m' (s.pc u) where
  dir name chosen i found := by
    refine touches.keepsDir name (fun removed => ?_) i found
    exact tidy.selecting.apart u t other name chosen (Point.chosen_of_removes removed).1
  tmp has i found := by
    refine touches.keepsTmp _ i (fun here => ?_) found
    exact tidy.tmpNames u t other has (by rw [here]; rfl)
  data i uses := by
    rcases uses with read | write
    · rw [Memory.data, Memory.data, tidy.node_of_reads touches read]
    · rw [Memory.data, Memory.data, tidy.node_of_writes touches other write]

theorem Tidy.working_turn (tidy : Tidy s) (turn : Turn t input s s' next)
    (new : (s.pc t).stmt = .openDest → s.mem.tmp.lookup (s.pc t).locals.filename = none) : next.Working s'.mem := by
  have working := tidy.working t
  cases turn with
  | lock here _ mem there =>
    rw [there]
    exact .of_early rfl rfl (fun name chosen => nomatch chosen) List.nodup_nil
  | unlock here mem there =>
    have same : next.chosen = (s.pc t).chosen := by rw [there, Point.chosen, Point.chosen, here]
    rw [mem]
    refine .of_early (by rw [there]; rfl) (by rw [there]; rfl) ?_ ?_
    · rw [same]
      exact working.found
    · rw [same]
      exact working.distinct
  | move move =>
    refine working.move move (fun name i found => tidy.regular _ (mem_of_lookup found)) tidy.listed new ?_
    exact fun i read write => ((tidy.separate t i write).2 t).1 read

/-- A step reads on in the stream or rewinds it. -/
theorem Turn.stream_cases (turn : Turn t input s s' next) (nodup : s.mem.stream.Nodup) :
    (∀ name ∈ s'.mem.stream, name ∈ s.mem.stream) ∨
    (((s.pc t).stmt = .scan1 ∨ (s.pc t).stmt = .scan2) ∧ input.isError = false ∧ s.mem.atEnd input = true ∧
      (s.pc t).locals.rewinded = false ∧ s'.mem.stream.Perm s.mem.names) := by
  cases turn with
  | lock _ _ mem | unlock _ mem =>
    rw [mem]
    exact Or.inl fun name member => member
  | move move =>
    by_cases scans : (s.pc t).stmt = .scan1 ∨ (s.pc t).stmt = .scan2
    · rcases move.scan_stream scans nodup with ⟨_, on⟩ | rewound
      · exact Or.inl on
      · exact Or.inr ⟨scans, rewound⟩
    · rw [(move.elsewhere (not_or.mp scans)).1]
      exact Or.inl fun name member => member

/-- A thread selects only what the stream lists. -/
theorem Turn.chosen_cases (turn : Turn t input s s' next) (chosen : name ∈ next.chosen) :
    name ∈ (s.pc t).chosen ∨ name ∈ s.mem.stream := by
  cases turn with
  | lock _ _ _ there =>
    rw [there] at chosen
    cases chosen
  | unlock here _ there =>
    rw [there] at chosen
    left
    rw [Point.chosen, here]
    exact chosen
  | move move =>
    by_cases scans : (s.pc t).stmt = .scan1 ∨ (s.pc t).stmt = .scan2
    · exact (move.scan_chosen scans chosen).imp_right And.left
    · exact Or.inl ((move.elsewhere (not_or.mp scans)).2 name chosen)

theorem selected_ne_unlink2 (l : Locals) : (selected l).stmt ≠ .unlink2 := by
  unfold selected
  split <;> exact nofun

theorem Move.of_unlink2 (move : Move input m l stmt m' next) (there : next.stmt = .unlink2) :
    stmt = .unlink1 ∧ next.locals = l := by
  cases move with
  | unlink1 => exact ⟨rfl, rfl⟩
  | rewind1 | missing1 | opened1 | missing2 | opened2 =>
    revert there
    split <;> exact nofun
  | error2 | rewind2 =>
    split at there
    · cases there
    · exact absurd there (selected_ne_unlink2 _)
  | found2 => exact absurd there (selected_ne_unlink2 _)
  | error1 | end1 | skip1 | found1 | end2 | skip2 | crash2 | null1 | null2 | unlink2 | openDest | bad1 | end1File
  | read1 | write1 | bad2 | end2File | read2 | write2Fails | write2 | link | unlinkTmp => cases there

theorem Turn.of_unlink2 (turn : Turn t input s s' next) (there : next.stmt = .unlink2) :
    (s.pc t).stmt = .unlink1 ∧ next.locals = (s.pc t).locals := by
  cases turn with
  | lock _ _ _ at' | unlock _ _ at' =>
    rw [at'] at there
    cases there
  | move move => exact move.of_unlink2 there

/-- Only the use of a null pointer ends the process. -/
theorem Move.usesNull (move : Move input m l stmt m' next) (live : m.crashed = false) (crashed : m'.crashed = true) :
    Point.UsesNull ⟨stmt, l⟩ input m ∧ next.stmt = stmt := by
  have still (same : m'.crashed = m.crashed) : False := by
    rw [same, live] at crashed
    cases crashed
  cases move with
  | crash2 fine more here ordinary null =>
    exact ⟨Or.inl ⟨rfl, null, fine, more, by simp [here, ordinary]⟩, rfl⟩
  | null1 null => exact ⟨Or.inr (Or.inl ⟨rfl, null⟩), rfl⟩
  | null2 null => exact ⟨Or.inr (Or.inr ⟨rfl, null⟩), rfl⟩
  | unlink1 | unlink2 => exact (still (m.unlink_crashed _)).elim
  | openDest => exact (still (m.create_crashed _)).elim
  | link => exact (still (m.link_crashed _)).elim
  | _ => exact (still rfl).elim

theorem Turn.usesNull (turn : Turn t input s s' next) (live : s.mem.crashed = false) (crashed : s'.mem.crashed = true) :
    (s.pc t).UsesNull input s.mem ∧ next.stmt = (s.pc t).stmt := by
  cases turn with
  | lock _ _ mem | unlock _ mem =>
    rw [mem, live] at crashed
    cases crashed
  | move move => exact move.usesNull live crashed

/-- A name that a thread is about to unlink is no longer in the stream. -/
theorem Tidy.not_removed (tidy : Tidy s) (member : name ∈ s.mem.stream) : name ∉ (s.pc t).removes := by
  intro removed
  obtain ⟨chosen, later⟩ := Point.chosen_of_removes removed
  exact later (tidy.selecting.read t name chosen member).1

theorem Tidy.listed_turn (tidy : Tidy s) (turn : Turn t input s s' next)
    (touches : Touches s.mem s'.mem (s.pc t) next) (member : name ∈ s'.mem.stream) (ordinary : special name = false) :
    (s'.mem.dir.lookup name).isSome := by
  rcases turn.stream_cases tidy.selecting.stream with on | ⟨scans, _, _, _, lists⟩
  · obtain ⟨i, found⟩ := Option.isSome_iff_exists.mp (tidy.listed name (on name member) ordinary)
    rw [touches.keepsDir name (tidy.not_removed (on name member)) i found]
    rfl
  · have inside : name ∈ s.mem.dir.map Prod.fst := mem_dir_of_names (lists.mem_iff.mp member) ordinary
    have kept : name ∉ (s.pc t).removes := by
      rcases scans with here | here <;> simp [Point.removes, here]
    obtain ⟨i, found⟩ := Option.isSome_iff_exists.mp (lookup_isSome inside)
    rw [touches.keepsDir name kept i found]
    rfl

/-- Nobody rewinds the directory before a thread has unlinked its second file. -/
theorem Tidy.not_rewound (tidy : Tidy s) (rewinds : RewindsAlone s (t, input)) (other : u ≠ t)
    (here : (s.pc u).stmt = .unlink2) (scans : (s.pc t).stmt = .scan1 ∨ (s.pc t).stmt = .scan2)
    (fine : input.isError = false) (ends : s.mem.atEnd input = true) (once : (s.pc t).locals.rewinded = false) :
    False := by
  obtain ⟨second, some⟩ := Option.isSome_iff_exists.mp ((tidy.working u).file2 (by rw [here]; rfl)).2
  have chosen : second ∈ (s.pc u).chosen := by simp [Point.chosen, here, some]
  obtain ⟨i, found⟩ := Option.isSome_iff_exists.mp ((tidy.working u).found second chosen)
  refine (rewinds scans fine ends once).1 u other second chosen ?_
  simp only [Memory.names, List.mem_cons]
  exact Or.inr (Or.inr (Or.inr (List.mem_map.mpr ⟨_, mem_of_lookup found, rfl⟩)))

theorem Tidy.gone_turn (tidy : Tidy s) (turn : Turn t input s s' next) (points : s'.pc = Function.update s.pc t next)
    (rewinds : RewindsAlone s (t, input)) (v : Fin K) (there : (s'.pc v).stmt = .unlink2)
    (first : name ∈ (s'.pc v).locals.filehead1) :
    name ∉ s'.mem.stream ∧ ∀ u, u ≠ v → name ∉ (s'.pc u).chosen := by
  have places := update_cases points
  rcases places v with ⟨rfl, now⟩ | ⟨other, now⟩ <;> rw [now] at there first
  · obtain ⟨here, same⟩ := turn.of_unlink2 there
    rw [same] at first
    have chosen : name ∈ (s.pc v).chosen := by simp [Point.chosen, here, Option.mem_def.mp first]
    refine ⟨fun member => ?_, fun u other => ?_⟩
    · rcases turn.stream_cases tidy.selecting.stream with on | ⟨scans, _⟩
      · rw [(tidy.selecting.read v name chosen (on name member)).1] at here
        cases here
      · rcases scans with scans | scans <;> cases here.symm.trans scans
    · rcases places u with ⟨rfl, _⟩ | ⟨_, still⟩
      · exact absurd rfl other
      · rw [still]
        exact tidy.selecting.apart v u (Ne.symm other) name chosen
  · obtain ⟨unread, unchosen⟩ := tidy.gone v there name first
    refine ⟨fun member => ?_, fun u differs => ?_⟩
    · rcases turn.stream_cases tidy.selecting.stream with on | ⟨scans, fine, ends, once, _⟩
      · exact unread (on name member)
      · exact tidy.not_rewound rewinds other there scans fine ends once
    · rcases places u with ⟨rfl, moved⟩ | ⟨_, still⟩
      · rw [moved]
        intro chosen
        rcases turn.chosen_cases chosen with old | member
        · exact unchosen u differs old
        · exact unread member
      · rw [still]
        exact unchosen u differs

theorem Tidy.separate_turn (tidy : Tidy s) (touches : Touches s.mem s'.mem (s.pc t) next)
    (points : s'.pc = Function.update s.pc t next) (v : Fin K) (write : i ∈ (s'.pc v).writes) :
    (∀ entry ∈ s'.mem.dir, entry.2 ≠ i) ∧ ∀ u, i ∉ (s'.pc u).reads ∧ (u ≠ v → i ∉ (s'.pc u).writes) := by
  have places := update_cases points
  rcases places v with ⟨rfl, now⟩ | ⟨other, now⟩ <;> rw [now] at write
  · rcases touches.writes i write with old | ⟨rfl, _, dir⟩
    · obtain ⟨listed, others⟩ := tidy.separate v i old
      refine ⟨fun entry member => ?_, fun u => ?_⟩
      · rcases touches.dir entry member with before | ⟨_, none, _⟩
        · exact listed entry before
        · rw [none] at write
          cases write
      · rcases places u with ⟨rfl, moved⟩ | ⟨_, still⟩
        · rw [moved]
          refine ⟨fun read => ?_, fun differs => absurd rfl differs⟩
          rcases touches.reads i read with before | ⟨entry, member, rfl⟩
          · exact (others u).1 before
          · exact listed entry member rfl
        · rw [still]
          exact others u
    · refine ⟨fun entry member => ?_, fun u => ?_⟩
      · rw [dir] at member
        exact (tidy.old entry member).ne
      · rcases places u with ⟨rfl, moved⟩ | ⟨_, still⟩
        · rw [moved]
          refine ⟨fun read => ?_, fun differs => absurd rfl differs⟩
          rcases touches.reads _ read with before | ⟨entry, member, same⟩
          · exact (tidy.used u _ (Or.inl before)).false
          · exact (tidy.old entry member).ne same
        · rw [still]
          exact ⟨fun read => (tidy.used u _ (Or.inl read)).false, fun _ own => (tidy.used u _ (Or.inr own)).false⟩
  · obtain ⟨listed, others⟩ := tidy.separate v i write
    refine ⟨fun entry member => ?_, fun u => ?_⟩
    · rcases touches.dir entry member with before | ⟨own, _⟩
      · exact listed entry before
      · rintro rfl
        exact (others t).2 (Ne.symm other) own
    · rcases places u with ⟨rfl, moved⟩ | ⟨_, still⟩
      · rw [moved]
        refine ⟨fun read => ?_, fun differs own => ?_⟩
        · rcases touches.reads i read with before | ⟨entry, member, rfl⟩
          · exact (others u).1 before
          · exact listed entry member rfl
        · rcases touches.writes i own with before | ⟨rfl, _⟩
          · exact (others u).2 differs before
          · exact (tidy.used v _ (Or.inr write)).false
      · rw [still]
        exact others u

theorem Tidy.tmpNames_turn (tidy : Tidy s) (touches : Touches s.mem s'.mem (s.pc t) next) (other : u ≠ t)
    (has : next.stmt.hasTmp = true) (second : (s.pc u).stmt.hasTmp = true) :
    next.locals.filename ≠ (s.pc u).locals.filename := by
  rcases touches.hasTmp has with ⟨before, same⟩ | new
  · rw [same]
    exact tidy.tmpNames t u (Ne.symm other) before second
  · intro same
    have taken := (tidy.working u).tmp second
    rw [← same, new] at taken
    cases taken

/-- A step that takes no file from another thread leaves each thread to work on
files of its own. -/
theorem Tidy.turn (tidy : Tidy s) (owned : s.Owned fun _ => held) (running : ∀ v, s.thread v = .run (s.pc v))
    (live : s.mem.crashed = false) (points : s'.pc = Function.update s.pc t next) (turn : Turn t input s s' next)
    (keeps : KeepsFiles s (t, input)) : Tidy s' := by
  have touches := turn.touches (tidy.working t) keeps.creates
  have places := update_cases points
  refine ⟨tidy.selecting.turn owned running points turn keeps.rewinds, fun v => ?_,
    fun name => tidy.listed_turn turn touches, fun entry member => ?_, fun v i write => ?_, fun entry member => ?_,
    fun v i uses => ?_, fun v i => tidy.separate_turn touches points v, fun v w differ has second => ?_,
    fun v there name => tidy.gone_turn turn points keeps.rewinds v there, fun crashed v => ?_⟩
  · rcases places v with ⟨rfl, now⟩ | ⟨other, now⟩ <;> rw [now]
    · exact tidy.working_turn turn keeps.creates
    · exact (tidy.working v).agree (tidy.agrees touches other)
  · rcases touches.dir entry member with old | ⟨write, _, same⟩
    · rw [tidy.node_of_dir touches old]
      exact tidy.regular entry old
    · rw [same]
      exact tidy.written t _ write
  · rcases places v with ⟨rfl, now⟩ | ⟨other, now⟩ <;> rw [now] at write
    · exact touches.kind i write (tidy.written v)
    · rw [tidy.node_of_writes touches other write]
      exact tidy.written v i write
  · rcases touches.dir entry member with old | ⟨write, _⟩
    · exact (tidy.old entry old).trans_le touches.fresh
    · exact (tidy.used t _ (Or.inr write)).trans_le touches.fresh
  · rcases places v with ⟨rfl, now⟩ | ⟨other, now⟩ <;> rw [now] at uses
    · rcases uses with read | write
      · rcases touches.reads i read with old | ⟨entry, member, rfl⟩
        · exact (tidy.used v i (Or.inl old)).trans_le touches.fresh
        · exact (tidy.old entry member).trans_le touches.fresh
      · rcases touches.writes i write with old | ⟨rfl, grown, _⟩
        · exact (tidy.used v i (Or.inr old)).trans_le touches.fresh
        · exact grown
    · exact (tidy.used v i uses).trans_le touches.fresh
  · rcases places v with ⟨rfl, now⟩ | ⟨one, now⟩ <;> rw [now] at has ⊢
    · rcases places w with ⟨rfl, _⟩ | ⟨two, then'⟩
      · exact absurd rfl differ
      · rw [then'] at second ⊢
        exact tidy.tmpNames_turn touches two has second
    · rcases places w with ⟨rfl, then'⟩ | ⟨two, then'⟩ <;> rw [then'] at second ⊢
      · exact (tidy.tmpNames_turn touches one second has).symm
      · exact tidy.tmpNames v w differ has second
  · obtain ⟨null, same⟩ := turn.usesNull live crashed
    have empty := keeps.crashes null
    rcases places v with ⟨rfl, now⟩ | ⟨_, now⟩ <;> rw [now]
    · rw [same]
      exact empty v
    · exact empty v

theorem tidy_launch (launch : Launch s) (regular : ∀ entry ∈ s.mem.dir, (s.mem.node entry.2).isDirectory = false) :
    Tidy s := by
  have start (t : Fin K) : (s.pc t).stmt = .lock := by
    obtain ⟨isDir, at'⟩ := launch.thread t
    rw [Threads.pc, at']
    rfl
  have early (t : Fin K) : (s.pc t).stmt.opened1 = false := by rw [start t]; rfl
  refine ⟨selecting_launch launch, fun t => ?_, fun name member ordinary => ?_, regular, fun t i write => ?_,
    fun entry member => launch.opened.inodes entry (List.mem_append_left _ member), fun t i uses => ?_, fun t i write => ?_,
    fun t u _ has => ?_, fun t here => ?_, fun crashed => ?_⟩
  · have none : (s.pc t).chosen = [] := by rw [Point.chosen, start t]
    refine .of_early (early t) (by rw [start t]; rfl) (fun name chosen => ?_) ?_
    · rw [none] at chosen
      cases chosen
    · rw [none]
      exact List.nodup_nil
  · exact lookup_isSome (mem_dir_of_names (launch.opened.mem_names member) ordinary)
  · rw [Point.writes_of_early (early t)] at write
    cases write
  · rw [Point.reads_of_early (early t), Point.writes_of_early (early t)] at uses
    rcases uses with none | none <;> cases none
  · rw [Point.writes_of_early (early t)] at write
    cases write
  · rw [start t] at has
    cases has
  · rw [start t] at here
    cases here
  · rw [launch.opened.live] at crashed
    cases crashed

end DeviceProgramming.Concatenate
