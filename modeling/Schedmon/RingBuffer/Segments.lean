import Schedmon.Daemon.State
import Schedmon.Library.Directory
import Schedmon.RingBuffer

/-!
# The segments of several daemons

`init_shm` and the end of `cleanup`, one system call or store at a time.  Any number
of daemons may run at once, each may be killed between two steps, and a call that can
fail ends the daemon where the source exits.
-/

namespace Schedmon

open Library Transition

/-- A shared memory object, zero-filled by `ftruncate`. -/
structure Segment where
  sized : Bool
  ring : RingBuffer SmoothedMetrics

/-- A new object. -/
def Segment.new : Segment where
  sized := false
  ring :=
    { slots := fun _ => SmoothedMetrics.zero
      head := 0
      tail := 0
      abiVersion := 0
      slotSize := 0 }

/-- What `rb_create_named` does, in order.  `close` after `mmap` changes nothing that
is modelled. -/
inductive CreateOp
  | shmUnlink
  | shmOpen
  | fchmod
  | ftruncate
  | mmap
  | memset
  | storeHead
  | storeTail
  | storeAbiVersion
  | storeSlotSize
  deriving DecidableEq

/-- The position in `rb_create_named`. -/
def CreateOp.index : CreateOp → ℕ
  | .shmUnlink => 0
  | .shmOpen => 1
  | .fchmod => 2
  | .ftruncate => 3
  | .mmap => 4
  | .memset => 5
  | .storeHead => 6
  | .storeTail => 7
  | .storeAbiVersion => 8
  | .storeSlotSize => 9

/-- Whether `init_shm` exits where the operation fails. -/
def CreateOp.exits : CreateOp → Bool
  | .shmOpen => true
  | .ftruncate => true
  | .mmap => true
  | _ => false

/-- Where a daemon is. -/
inductive DaemonPc
  /-- Before `init_shm`. -/
  | boot
  /-- In the call of `rb_create_named` for a name. -/
  | create (r : Ring) (op : CreateOp)
  /-- After `init_shm`, up to the end of the sampling loop. -/
  | run
  /-- In the call of `rb_destroy_named` for a name. -/
  | munmap (r : Ring)
  | unlink (r : Ring)
  | dead
  deriving DecidableEq

/-- Where a daemon goes on after an operation; after the last one comes the call for
the other name, or the loop. -/
def CreateOp.next (r : Ring) : CreateOp → DaemonPc
  | .shmUnlink => .create r .shmOpen
  | .shmOpen => .create r .fchmod
  | .fchmod => .create r .ftruncate
  | .ftruncate => .create r .mmap
  | .mmap => .create r .memset
  | .memset => .create r .storeHead
  | .storeHead => .create r .storeTail
  | .storeTail => .create r .storeAbiVersion
  | .storeAbiVersion => .create r .storeSlotSize
  | .storeSlotSize =>
      match r with
      | .classifier => .create .dashboard .shmUnlink
      | .dashboard => .run

/-- After a call of `rb_destroy_named` comes that for the other name, or the exit. -/
def afterDestroy : Ring → DaemonPc
  | .classifier => .munmap .dashboard
  | .dashboard => .dead

/-- One daemon. -/
structure Instance where
  pc : DaemonPc
  /-- The segment behind its descriptor, and later its mapping, of each name. -/
  segment : Ring → Option ℕ

/-- A daemon that has not started, has exited or was killed. -/
def Instance.gone : Instance := ⟨.dead, fun _ => none⟩

/-- The names, the segments and the daemons. -/
structure ShmWorld where
  dir : Directory ℕ Ring
  segments : ℕ → Segment
  instances : ℕ → Instance
  started : ℕ

/-- One step of the system. -/
inductive ShmAction
  | start
  /-- A daemon's next step; `ok` is whether its system call succeeds. -/
  | advance (d : ℕ) (ok : Bool)
  /-- The loop of a daemon calls `rb_push`. -/
  | push (d : ℕ) (r : Ring) (m : SmoothedMetrics)
  /-- The loop of a daemon ends after a signal. -/
  | stop (d : ℕ)
  | kill (d : ℕ)
  /-- A consumer stores a tail. -/
  | consume (seg : ℕ) (tail : Int)

namespace ShmWorld

/-- No daemon has been started and the names are free. -/
def start : ShmWorld where
  dir := .empty
  segments := fun _ => .new
  instances := fun _ => .gone
  started := 0

/-- Replace one daemon. -/
def setInstance (w : ShmWorld) (d : ℕ) (i : Instance) : ShmWorld :=
  { w with instances := Function.update w.instances d i }

/-- A daemon goes on to another point. -/
def goto (w : ShmWorld) (d : ℕ) (pc : DaemonPc) : ShmWorld :=
  w.setInstance d { w.instances d with pc := pc }

/-- A daemon exits. -/
def exit (w : ShmWorld) (d : ℕ) : ShmWorld :=
  w.setInstance d .gone

/-- A daemon writes to its segment of a name. -/
def write (w : ShmWorld) (d : ℕ) (r : Ring) (f : Segment → Segment) : ShmWorld :=
  match (w.instances d).segment r with
  | some seg => { w with segments := Function.update w.segments seg (f (w.segments seg)) }
  | none => w

/-- What one operation of `rb_create_named` does when it succeeds. -/
def createEffect (w : ShmWorld) (d : ℕ) (r : Ring) : CreateOp → ShmWorld
  | .shmUnlink => { w with dir := w.dir.unlink d r }
  | .shmOpen =>
      let opened := w.dir.openOrCreate d r
      { w with dir := opened.2 }.setInstance d
        { w.instances d with
          segment := Function.update (w.instances d).segment r (some opened.1) }
  | .fchmod => w
  | .ftruncate => w.write d r fun s => { s with sized := true }
  | .mmap => w
  | .memset =>
      w.write d r fun s =>
        { s with ring := { s.ring with slots := fun _ => SmoothedMetrics.zero } }
  | .storeHead => w.write d r fun s => { s with ring := { s.ring with head := 0 } }
  | .storeTail => w.write d r fun s => { s with ring := { s.ring with tail := 0 } }
  | .storeAbiVersion =>
      w.write d r fun s =>
        { s with ring := { s.ring with abiVersion := monitorAbiVersion } }
  | .storeSlotSize =>
      w.write d r fun s =>
        { s with ring := { s.ring with slotSize := smoothedMetricsSize } }

/-- One operation of `rb_create_named`. -/
def createStep (w : ShmWorld) (d : ℕ) (r : Ring) (op : CreateOp) (ok : Bool) : ShmWorld :=
  if op.exits && !ok then w.exit d else (w.createEffect d r op).goto d (op.next r)

/-- One step, where it is possible. -/
def step : ShmAction → ShmWorld → Option ShmWorld
  | .start, w =>
      some { w with
        instances := Function.update w.instances w.started ⟨.boot, fun _ => none⟩
        started := w.started + 1 }
  | .advance d ok, w =>
      match (w.instances d).pc with
      | .boot =>
          some (if ok then w.goto d (.create .classifier .shmUnlink) else w.exit d)
      | .create r op => some (w.createStep d r op ok)
      | .run => none
      | .munmap r =>
          some (w.setInstance d
            { pc := .unlink r
              segment := Function.update (w.instances d).segment r none })
      | .unlink r =>
          some ({ w with dir := w.dir.unlink d r }.goto d (afterDestroy r))
      | .dead => none
  | .push d r m, w =>
      match (w.instances d).pc with
      | .run => some (w.write d r fun s => { s with ring := (rbPush s.ring m).2 })
      | _ => none
  | .stop d, w =>
      match (w.instances d).pc with
      | .run => some (w.goto d (.munmap .classifier))
      | _ => none
  | .kill d, w =>
      match (w.instances d).pc with
      | .dead => none
      | _ => some (w.exit d)
  | .consume seg tail, w =>
      some { w with
        segments := Function.update w.segments seg
          { w.segments seg with
            ring := { (w.segments seg).ring with tail := tail } } }

end ShmWorld

/-! ## What a daemon has done -/

/-- Whether a daemon at a point has a segment for a name. -/
def DaemonPc.holds (r : Ring) : DaemonPc → Bool
  | .boot => false
  | .create .classifier op => r = .classifier && CreateOp.shmOpen.index < op.index
  | .create .dashboard op => r = .classifier || CreateOp.shmOpen.index < op.index
  | .run => true
  | .munmap .classifier => true
  | .unlink .classifier => r = .dashboard
  | .munmap .dashboard => r = .dashboard
  | .unlink .dashboard => false
  | .dead => false

/-- Whether a daemon at a point has done an operation for a name. -/
def DaemonPc.past (r : Ring) (op : CreateOp) : DaemonPc → Bool
  | .boot => false
  | .create .classifier at' => r = .classifier && op.index < at'.index
  | .create .dashboard at' => r = .classifier || op.index < at'.index
  | _ => true

theorem holds_next (r other : Ring) (op : CreateOp) :
    (op.next r).holds other =
      ((DaemonPc.create r op).holds other || (other = r && op = .shmOpen)) := by
  cases r <;> cases other <;> cases op <;> rfl

theorem past_next (r other : Ring) (op earlier : CreateOp) :
    (op.next r).past other earlier =
      ((DaemonPc.create r op).past other earlier || (other = r && earlier = op)) := by
  cases r <;> cases other <;> cases op <;> cases earlier <;> rfl

/-- What a daemon has stored in its segment of a name. -/
structure Prepared (pc : DaemonPc) (r : Ring) (s : Segment) : Prop where
  sized : pc.past r .ftruncate = true → s.sized = true
  abiVersion : pc.past r .storeAbiVersion = true →
    s.ring.abiVersion = monitorAbiVersion
  slotSize : pc.past r .storeSlotSize = true →
    s.ring.slotSize = smoothedMetricsSize

/-- What no step takes back. -/
structure Segment.Grown (s next : Segment) : Prop where
  sized : s.sized = true → next.sized = true
  abiVersion : s.ring.abiVersion = monitorAbiVersion →
    next.ring.abiVersion = monitorAbiVersion
  slotSize : s.ring.slotSize = smoothedMetricsSize →
    next.ring.slotSize = smoothedMetricsSize

theorem Segment.Grown.refl (s : Segment) : s.Grown s := ⟨id, id, id⟩

theorem Prepared.grown
    {pc : DaemonPc}
    {r : Ring}
    {s next : Segment}
    (prepared : Prepared pc r s)
    (grown : s.Grown next) :
    Prepared pc r next :=
  ⟨fun past => grown.sized (prepared.sized past),
    fun past => grown.abiVersion (prepared.abiVersion past),
    fun past => grown.slotSize (prepared.slotSize past)⟩

namespace ShmWorld

/-- What holds of one daemon. -/
structure Sound (w : ShmWorld) (d : ℕ) : Prop where
  holds : ∀ r, ((w.instances d).segment r).isSome = (w.instances d).pc.holds r
  opened : ∀ r seg, (w.instances d).segment r = some seg →
    (d, .opened r seg) ∈ w.dir.log
  prepared : ∀ r seg, (w.instances d).segment r = some seg →
    Prepared (w.instances d).pc r (w.segments seg)

/-- What a step of one daemon, or of none, leaves to the others. -/
structure Extends (w next : ShmWorld) : Prop where
  log : ∀ e ∈ w.dir.log, e ∈ next.dir.log
  grown : ∀ seg, (w.segments seg).Grown (next.segments seg)

variable {w next : ShmWorld} {d : ℕ}

theorem Sound.of_same
    (sound : w.Sound d)
    (same : next.instances d = w.instances d)
    (extends' : w.Extends next) :
    next.Sound d := by
  refine ⟨?_, ?_, ?_⟩
  · rw [same]
    exact sound.holds
  · rw [same]
    exact fun r seg found => extends'.log _ (sound.opened r seg found)
  · rw [same]
    exact fun r seg found => (sound.prepared r seg found).grown (extends'.grown seg)

theorem sound_of_none
    (none : ∀ r, (w.instances d).segment r = none)
    (holds : ∀ r, (w.instances d).pc.holds r = false) :
    w.Sound d := by
  refine ⟨fun r => ?_, fun r seg found => ?_, fun r seg found => ?_⟩
  · rw [none, holds]
    rfl
  · rw [none] at found
    cases found
  · rw [none] at found
    cases found

theorem sound_of_gone (gone : w.instances d = .gone) : w.Sound d :=
  sound_of_none (fun _ => by rw [gone]; rfl) fun _ => by rw [gone]; rfl

/-! ## Writes to a segment -/

theorem write_instances (w : ShmWorld) (d : ℕ) (r : Ring) (f : Segment → Segment) :
    (w.write d r f).instances = w.instances := by
  unfold write
  split <;> rfl

theorem write_dir (w : ShmWorld) (d : ℕ) (r : Ring) (f : Segment → Segment) :
    (w.write d r f).dir = w.dir := by
  unfold write
  split <;> rfl

theorem write_segment
    {r : Ring}
    {seg : ℕ}
    (found : (w.instances d).segment r = some seg)
    (f : Segment → Segment) :
    (w.write d r f).segments seg = f (w.segments seg) := by
  unfold write
  rw [found]
  exact Function.update_self _ _ _

theorem extends_write
    (r : Ring)
    {f : Segment → Segment}
    (grows : ∀ s, Segment.Grown s (f s)) :
    w.Extends (w.write d r f) := by
  refine ⟨fun e member => by rwa [write_dir], fun seg => ?_⟩
  unfold write
  split
  · next at' found =>
      by_cases same : seg = at'
      · subst same
        dsimp only
        rw [Function.update_self]
        exact grows _
      · dsimp only
        rw [Function.update_of_ne same]
        exact .refl _
  · exact .refl _

theorem setInstance_self (w : ShmWorld) (d : ℕ) (i : Instance) :
    (w.setInstance d i).instances d = i :=
  Function.update_self _ _ _

theorem setInstance_of_ne
    (w : ShmWorld)
    {d other : ℕ}
    (different : other ≠ d)
    (i : Instance) :
    (w.setInstance d i).instances other = w.instances other :=
  Function.update_of_ne different _ _

/-! ## Operations of `rb_create_named` -/

theorem extends_createEffect
    (names : w.dir.Consistent)
    (d : ℕ)
    (r : Ring)
    (op : CreateOp) :
    w.Extends (w.createEffect d r op) := by
  cases op with
  | shmUnlink => exact ⟨fun e member => List.mem_append_left _ member, fun _ => .refl _⟩
  | shmOpen =>
      refine ⟨fun e member => ?_, fun _ => .refl _⟩
      obtain ⟨-, -, log, -⟩ := Directory.openOrCreate_spec names d r
      change e ∈ (w.dir.openOrCreate d r).2.log
      rw [log]
      exact List.mem_append_left _ member
  | fchmod => exact ⟨fun _ member => member, fun _ => .refl _⟩
  | ftruncate =>
      simp only [createEffect]
      exact extends_write r fun s => ⟨fun _ => rfl, id, id⟩
  | mmap => exact ⟨fun _ member => member, fun _ => .refl _⟩
  | memset =>
      simp only [createEffect]
      exact extends_write r fun s => ⟨id, id, id⟩
  | storeHead =>
      simp only [createEffect]
      exact extends_write r fun s => ⟨id, id, id⟩
  | storeTail =>
      simp only [createEffect]
      exact extends_write r fun s => ⟨id, id, id⟩
  | storeAbiVersion =>
      simp only [createEffect]
      exact extends_write r fun s => ⟨id, fun _ => rfl, id⟩
  | storeSlotSize =>
      simp only [createEffect]
      exact extends_write r fun s => ⟨id, id, fun _ => rfl⟩

theorem createEffect_other
    (w : ShmWorld)
    {d other : ℕ}
    (different : other ≠ d)
    (r : Ring)
    (op : CreateOp) :
    (w.createEffect d r op).instances other = w.instances other := by
  cases op with
  | shmOpen => exact setInstance_of_ne _ different _
  | _ => first | rfl | exact congrFun (write_instances _ _ _ _) other

/-- Only `shm_open` gives the daemon a segment. -/
theorem createEffect_segment
    (w : ShmWorld)
    (d : ℕ)
    (r : Ring)
    (op : CreateOp) :
    ((w.createEffect d r op).instances d).segment =
      if op = .shmOpen then
        Function.update (w.instances d).segment r (some (w.dir.openOrCreate d r).1)
      else (w.instances d).segment := by
  cases op with
  | shmOpen => exact congrArg Instance.segment (setInstance_self _ _ _)
  | _ => first | rfl | exact congrArg Instance.segment (congrFun (write_instances _ _ _ _) d)

theorem goto_pc (w : ShmWorld) (d : ℕ) (pc : DaemonPc) :
    ((w.goto d pc).instances d).pc = pc := by
  rw [goto, setInstance_self]

theorem goto_segment (w : ShmWorld) (d : ℕ) (pc : DaemonPc) :
    ((w.goto d pc).instances d).segment = (w.instances d).segment := by
  rw [goto, setInstance_self]

/-- A daemon goes on after an operation with what it has done before and that. -/
theorem Sound.create
    {r : Ring}
    {op : CreateOp}
    (names : w.dir.Consistent)
    (sound : w.Sound d)
    (at' : (w.instances d).pc = .create r op) :
    ((w.createEffect d r op).goto d (op.next r)).Sound d := by
  have grows := extends_createEffect names d r op
  have before := sound.holds
  rw [at'] at before
  refine ⟨fun other => ?_, fun other seg found => ?_, fun other seg found => ?_⟩
  · rw [goto_segment, goto_pc, createEffect_segment, holds_next, ← before other]
    by_cases opens : op = .shmOpen
    · by_cases same : other = r
      · simp [opens, same]
      · simp [opens, same]
    · simp [opens]
  · rw [goto_segment, createEffect_segment] at found
    change (d, _) ∈ (w.createEffect d r op).dir.log
    by_cases opens : op = .shmOpen
    · subst opens
      by_cases same : other = r
      · subst same
        obtain ⟨-, -, log, -⟩ := Directory.openOrCreate_spec names d other
        rw [if_pos rfl, Function.update_self] at found
        cases found
        change (d, _) ∈ (w.dir.openOrCreate d other).2.log
        rw [log]
        exact List.mem_append_right _ List.mem_cons_self
      · rw [if_pos rfl, Function.update_of_ne same] at found
        exact grows.log _ (sound.opened other seg found)
    · rw [if_neg opens] at found
      exact grows.log _ (sound.opened other seg found)
  · rw [goto_segment, createEffect_segment] at found
    rw [goto_pc]
    by_cases fresh : op = .shmOpen ∧ other = r
    · obtain ⟨rfl, rfl⟩ := fresh
      constructor <;> intro past <;> cases other <;> cases past
    · have known : (w.instances d).segment other = some seg := by
        by_cases opens : op = .shmOpen
        · have different : other ≠ r := fun same => fresh ⟨opens, same⟩
          rwa [if_pos opens, Function.update_of_ne different] at found
        · rwa [if_neg opens] at found
      have prepared := (sound.prepared other seg known).grown (grows.grown seg)
      rw [at'] at prepared
      change Prepared (op.next r) other ((w.createEffect d r op).segments seg)
      refine ⟨fun past => ?_, fun past => ?_, fun past => ?_⟩
      · rw [past_next, Bool.or_eq_true, Bool.and_eq_true, decide_eq_true_eq,
          decide_eq_true_eq] at past
        rcases past with earlier | ⟨rfl, rfl⟩
        · exact prepared.sized earlier
        · exact congrArg Segment.sized (write_segment known _)
      · rw [past_next, Bool.or_eq_true, Bool.and_eq_true, decide_eq_true_eq,
          decide_eq_true_eq] at past
        rcases past with earlier | ⟨rfl, rfl⟩
        · exact prepared.abiVersion earlier
        · exact congrArg (fun s => s.ring.abiVersion) (write_segment known _)
      · rw [past_next, Bool.or_eq_true, Bool.and_eq_true, decide_eq_true_eq,
          decide_eq_true_eq] at past
        rcases past with earlier | ⟨rfl, rfl⟩
        · exact prepared.slotSize earlier
        · exact congrArg (fun s => s.ring.slotSize) (write_segment known _)

theorem createEffect_consistent
    (names : w.dir.Consistent)
    (d : ℕ)
    (r : Ring)
    (op : CreateOp) :
    (w.createEffect d r op).dir.Consistent := by
  cases op with
  | shmUnlink => exact names.unlink d r
  | shmOpen => exact names.openOrCreate d r
  | fchmod => exact names
  | mmap => exact names
  | _ =>
      simp only [createEffect]
      rw [write_dir]
      exact names

/-! ## Other steps -/

/-- A daemon that only moves, to a point with the same segments and no more to show. -/
theorem Sound.moved
    {pc : DaemonPc}
    (sound : w.Sound d)
    (moved : next.instances d = { w.instances d with pc := pc })
    (grows : w.Extends next)
    (holds : ∀ r, pc.holds r = (w.instances d).pc.holds r)
    (past : ∀ r op, pc.past r op = true → (w.instances d).pc.past r op = true ∨
      (w.instances d).pc.holds r = false) :
    next.Sound d := by
  refine ⟨fun r => ?_, fun r seg found => ?_, fun r seg found => ?_⟩
  · rw [moved]
    exact (sound.holds r).trans (holds r).symm
  · rw [moved] at found
    exact grows.log _ (sound.opened r seg found)
  · rw [moved] at found ⊢
    have held := sound.holds r
    rw [show (w.instances d).segment r = some seg from found, Option.isSome_some] at held
    have prepared := (sound.prepared r seg found).grown (grows.grown seg)
    have before (op : CreateOp) (now : pc.past r op = true) :
        (w.instances d).pc.past r op = true :=
      (past r op now).resolve_right fun none => by rw [none] at held; cases held
    exact ⟨fun now => prepared.sized (before _ now),
      fun now => prepared.abiVersion (before _ now),
      fun now => prepared.slotSize (before _ now)⟩

/-- A daemon that gives up a segment keeps the other. -/
theorem Sound.munmap
    {r : Ring}
    (sound : w.Sound d)
    (at' : (w.instances d).pc = .munmap r) :
    (w.setInstance d ⟨.unlink r, Function.update (w.instances d).segment r none⟩).Sound
      d := by
  have held := sound.holds
  rw [at'] at held
  have kept {other : Ring} {seg : ℕ}
      (found : Function.update (w.instances d).segment r none other = some seg) :
      (w.instances d).segment other = some seg := by
    by_cases same : other = r
    · rw [same, Function.update_self] at found
      cases found
    · rwa [Function.update_of_ne same] at found
  refine ⟨fun other => ?_, fun other seg found => ?_, fun other seg found => ?_⟩
  · rw [setInstance_self]
    dsimp only
    by_cases same : other = r
    · subst same
      rw [Function.update_self]
      cases other <;> rfl
    · rw [Function.update_of_ne same, held]
      cases r <;> cases other <;> first | rfl | exact absurd rfl same
  · rw [setInstance_self] at found
    exact sound.opened other seg (kept found)
  · rw [setInstance_self] at found ⊢
    have prepared := sound.prepared other seg (kept found)
    rw [at'] at prepared
    exact ⟨prepared.sized, prepared.abiVersion, prepared.slotSize⟩

/-- The invariant of any number of daemons. -/
structure Invariant (w : ShmWorld) : Prop where
  names : w.dir.Consistent
  sound : ∀ d, w.Sound d

/-- A step in which one daemon at most does something. -/
theorem Invariant.of_step
    (holds : w.Invariant)
    (d : ℕ)
    (names : next.dir.Consistent)
    (sound : next.Sound d)
    (grows : w.Extends next)
    (others : ∀ other ≠ d, next.instances other = w.instances other) :
    next.Invariant := by
  refine ⟨names, fun other => ?_⟩
  by_cases same : other = d
  · exact same ▸ sound
  · exact (holds.sound other).of_same (others other same) grows

theorem Extends.refl (w : ShmWorld) : w.Extends w :=
  ⟨fun _ member => member, fun _ => .refl _⟩

theorem invariant_start : start.Invariant where
  names := Directory.consistent_empty
  sound := fun _ => sound_of_gone rfl

/-- A daemon exits or is killed. -/
theorem Invariant.exit
    (holds : w.Invariant)
    (d : ℕ) :
    (w.exit d).Invariant :=
  holds.of_step d holds.names (sound_of_gone (setInstance_self _ _ _))
    ⟨fun _ member => member, fun _ => .refl _⟩
    fun _ different => setInstance_of_ne _ different _

/-- A daemon moves. -/
theorem Invariant.goto
    {pc : DaemonPc}
    (holds : w.Invariant)
    (d : ℕ)
    (same : ∀ r, pc.holds r = (w.instances d).pc.holds r)
    (past : ∀ r op, pc.past r op = true → (w.instances d).pc.past r op = true ∨
      (w.instances d).pc.holds r = false) :
    (w.goto d pc).Invariant :=
  holds.of_step d holds.names
    ((holds.sound d).moved (setInstance_self _ _ _)
      ⟨fun _ member => member, fun _ => .refl _⟩ same past)
    ⟨fun _ member => member, fun _ => .refl _⟩
    fun _ different => setInstance_of_ne _ different _

/-- Only segments change. -/
theorem Invariant.of_segments
    (holds : w.Invariant)
    {segments : ℕ → Segment}
    (grown : ∀ seg, (w.segments seg).Grown (segments seg)) :
    { w with segments := segments }.Invariant :=
  ⟨holds.names, fun d => (holds.sound d).of_same rfl ⟨fun _ member => member, grown⟩⟩

theorem rbPush_grown (s : Segment) (m : SmoothedMetrics) :
    s.Grown { s with ring := (rbPush s.ring m).2 } := by
  unfold rbPush
  dsimp only
  split
  · exact .refl s
  · exact ⟨id, id, id⟩

/-- A daemon's own steps. -/
theorem Invariant.advance
    {ok : Bool}
    (holds : w.Invariant)
    (taken : step (.advance d ok) w = some next) :
    next.Invariant := by
  simp only [step] at taken
  split at taken
  · next at' =>
      cases taken
      split
      · refine holds.goto d ?_ ?_
        · rw [at']
          exact fun r => by cases r <;> rfl
        · rw [at']
          exact fun r op _ => .inr rfl
      · exact holds.exit d
  · next r op at' =>
      cases taken
      unfold createStep
      split
      · exact holds.exit d
      · have grows := extends_createEffect holds.names d r op
        refine holds.of_step d (createEffect_consistent holds.names d r op)
          ((holds.sound d).create holds.names at') ⟨grows.log, grows.grown⟩
          fun other different => ?_
        rw [ShmWorld.goto, setInstance_of_ne _ different, createEffect_other w different]
  · cases taken
  · next r at' =>
      cases taken
      refine holds.of_step d holds.names ?_ ⟨fun _ member => member, fun _ => .refl _⟩
        fun _ different => setInstance_of_ne _ different _
      exact (holds.sound d).munmap at'
  · next r at' =>
      cases taken
      have grows : w.Extends ({ w with dir := w.dir.unlink d r }.goto d (afterDestroy r)) :=
        ⟨fun e member => List.mem_append_left _ member, fun _ => .refl _⟩
      refine holds.of_step d (holds.names.unlink d r)
        ((holds.sound d).moved (setInstance_self _ _ _) grows ?_ ?_) grows
        fun _ different => setInstance_of_ne _ different _
      · rw [at']
        exact fun other => by cases r <;> cases other <;> rfl
      · rw [at']
        exact fun _ _ _ => .inl rfl
  · cases taken

/-- Every step keeps the invariant. -/
theorem invariant_step
    (action : ShmAction)
    (w next : ShmWorld)
    (holds : w.Invariant)
    (taken : step action w = some next) :
    next.Invariant := by
  cases action with
  | start =>
      cases taken
      refine holds.of_step w.started holds.names ?_
        ⟨fun _ member => member, fun _ => .refl _⟩
        fun _ different => Function.update_of_ne different _ _
      apply sound_of_none
      · intro r
        dsimp only
        rw [Function.update_self]
      · intro r
        dsimp only
        rw [Function.update_self]
        rfl
  | advance d ok => exact holds.advance taken
  | push d r m =>
      simp only [step] at taken
      split at taken
      · cases taken
        unfold write
        split
        · next seg found =>
            refine holds.of_segments fun other => ?_
            by_cases same : other = seg
            · subst same
              rw [Function.update_self]
              exact rbPush_grown _ m
            · rw [Function.update_of_ne same]
              exact .refl _
        · exact holds
      · cases taken
  | stop d =>
      simp only [step] at taken
      split at taken
      · next running =>
          cases taken
          refine holds.goto d ?_ ?_
          · rw [running]
            exact fun r => rfl
          · rw [running]
            exact fun r op _ => .inl rfl
      · cases taken
  | kill d =>
      simp only [step] at taken
      split at taken
      · cases taken
      · cases taken
        exact holds.exit d
  | consume seg tail =>
      cases taken
      refine holds.of_segments fun other => ?_
      by_cases same : other = seg
      · subst same
        rw [Function.update_self]
        exact ⟨id, id, id⟩
      · rw [Function.update_of_ne same]
        exact .refl _

/-! ## Any number of daemons -/

/-- Two daemons side by side, and the end of the older one: the younger one goes on,
but its name is gone. -/
def overlapping : List ShmAction :=
  .start :: List.replicate 21 (.advance 0 true) ++
    (.start :: List.replicate 21 (.advance 1 true)) ++
      (.stop 0 :: List.replicate 4 (.advance 0 true))

/-- What holds besides as long as there are never two daemons. -/
structure Alone (w : ShmWorld) : Prop where
  names : ∀ d r seg, (w.instances d).segment r = some seg → w.dir.names r = some seg
  opening : ∀ d r, (w.instances d).pc = .create r .shmOpen → w.dir.names r = none
  owner : ∀ d e r other seg, (d, .opened r seg) ∈ w.dir.log →
    (e, .opened other seg) ∈ w.dir.log → d = e

/-- At most one daemon lives. -/
def AtMostOne (w : ShmWorld) : Prop :=
  ∀ d e, (w.instances d).pc ≠ .dead → (w.instances e).pc ≠ .dead → d = e

theorem Invariant.segment_none
    (holds : w.Invariant)
    {r : Ring}
    (without : (w.instances d).pc.holds r = false) :
    (w.instances d).segment r = none := by
  have held := (holds.sound d).holds r
  rwa [without, Option.isSome_eq_false_iff, Option.isNone_iff_eq_none] at held

theorem Invariant.others_none
    (holds : w.Invariant)
    (one : w.AtMostOne)
    {d other : ℕ}
    (living : (w.instances d).pc ≠ .dead)
    (different : other ≠ d) :
    (w.instances other).pc = .dead ∧ ∀ r, (w.instances other).segment r = none := by
  have dead : (w.instances other).pc = .dead := by
    by_contra alive
    exact different (one other d alive living)
  exact ⟨dead, fun r => holds.segment_none (by rw [dead]; rfl)⟩

/-- Steps that touch no name and give no daemon a segment. -/
theorem Alone.calm
    (alone : w.Alone)
    (dir : next.dir = w.dir)
    (segments : ∀ d r seg, (next.instances d).segment r = some seg →
      (w.instances d).segment r = some seg)
    (opening : ∀ d r, (next.instances d).pc = .create r .shmOpen →
      (w.instances d).pc = .create r .shmOpen) :
    next.Alone := by
  refine ⟨?_, ?_, ?_⟩
  · rw [dir]
    exact fun d r seg found => alone.names d r seg (segments d r seg found)
  · rw [dir]
    exact fun d r at' => alone.opening d r (opening d r at')
  · rw [dir]
    exact alone.owner

theorem Alone.setInstance
    {i : Instance}
    (alone : w.Alone)
    (d : ℕ)
    (segments : ∀ r seg, i.segment r = some seg → (w.instances d).segment r = some seg)
    (opening : ∀ r, i.pc ≠ .create r .shmOpen) :
    (w.setInstance d i).Alone := by
  refine alone.calm rfl (fun other r seg found => ?_) fun other r at' => ?_
  · by_cases same : other = d
    · subst same
      rw [setInstance_self] at found
      exact segments r seg found
    · rwa [setInstance_of_ne _ same] at found
  · by_cases same : other = d
    · subst same
      rw [setInstance_self] at at'
      exact absurd at' (opening r)
    · rwa [setInstance_of_ne _ same] at at'

/-- The only daemon removes a name under which it has no segment. -/
theorem Alone.unlink
    {r : Ring}
    {pc : DaemonPc}
    (alone : w.Alone)
    (holds : w.Invariant)
    (one : w.AtMostOne)
    (living : (w.instances d).pc ≠ .dead)
    (without : (w.instances d).pc.holds r = false)
    (opening : ∀ other, pc = .create other .shmOpen → other = r) :
    ({ w with dir := w.dir.unlink d r }.goto d pc).Alone := by
  have mine := holds.segment_none without
  refine ⟨fun e other seg found => ?_, fun e other at' => ?_, fun e f other third seg left right => ?_⟩
  · by_cases same : e = d
    · subst same
      rw [goto_segment] at found
      have different : other ≠ r := by
        rintro rfl
        rw [show (w.instances e).segment other = none from mine] at found
        cases found
      exact (Function.update_of_ne different _ _).trans (alone.names e other seg found)
    · rw [ShmWorld.goto, setInstance_of_ne _ same] at found
      rw [show (w.instances e).segment other = none from
        (holds.others_none one living same).2 other] at found
      cases found
  · by_cases same : e = d
    · subst same
      rw [goto_pc] at at'
      rw [opening other at']
      exact Function.update_self _ _ _
    · rw [ShmWorld.goto, setInstance_of_ne _ same] at at'
      rw [show (w.instances e).pc = .dead from (holds.others_none one living same).1] at at'
      cases at'
  · rcases List.mem_append.mp left with old | new
    · rcases List.mem_append.mp right with older | newer
      · exact alone.owner _ _ _ _ _ old older
      · cases List.mem_singleton.mp newer
    · cases List.mem_singleton.mp new

/-- The only daemon opens a name that it has removed. -/
theorem Alone.open
    {r : Ring}
    (alone : w.Alone)
    (holds : w.Invariant)
    (one : w.AtMostOne)
    (at' : (w.instances d).pc = .create r .shmOpen) :
    ((w.createEffect d r .shmOpen).goto d (CreateOp.next r .shmOpen)).Alone := by
  have living : (w.instances d).pc ≠ .dead := by
    rw [at']
    nofun
  obtain ⟨here, elsewhere, log, fresh⟩ := Directory.openOrCreate_spec holds.names d r
  have unused := fresh (alone.opening d r at')
  refine ⟨fun e other seg found => ?_, fun e other opening => ?_, fun e f other third seg left right => ?_⟩
  · change (w.dir.openOrCreate d r).2.names other = some seg
    by_cases same : e = d
    · subst same
      rw [goto_segment, createEffect_segment, if_pos rfl] at found
      by_cases own : other = r
      · subst own
        rw [Function.update_self] at found
        rw [here, found]
      · rw [Function.update_of_ne own] at found
        rw [elsewhere other own]
        exact alone.names e other seg found
    · rw [ShmWorld.goto, setInstance_of_ne _ same, createEffect_other w same] at found
      rw [(holds.others_none one living same).2 other] at found
      cases found
  · by_cases same : e = d
    · subst same
      rw [goto_pc] at opening
      cases opening
    · rw [ShmWorld.goto, setInstance_of_ne _ same, createEffect_other w same,
        (holds.others_none one living same).1] at opening
      cases opening
  · change _ ∈ (w.dir.openOrCreate d r).2.log at left
    change _ ∈ (w.dir.openOrCreate d r).2.log at right
    rw [log] at left right
    rcases List.mem_append.mp left with old | new
    · rcases List.mem_append.mp right with older | newer
      · exact alone.owner _ _ _ _ _ old older
      · cases List.mem_singleton.mp newer
        exact absurd old (unused _ _)
    · cases List.mem_singleton.mp new
      rcases List.mem_append.mp right with older | newer
      · exact absurd older (unused _ _)
      · cases List.mem_singleton.mp newer
        rfl

/-- The other operations of `rb_create_named` touch no name. -/
theorem Alone.createEffect
    {r : Ring}
    {op : CreateOp}
    (alone : w.Alone)
    (keeps : op ≠ .shmUnlink)
    (opens : op ≠ .shmOpen) :
    ((w.createEffect d r op).goto d (op.next r)).Alone := by
  have effect : (w.createEffect d r op).Alone := by
    cases op with
    | shmUnlink => exact absurd rfl keeps
    | shmOpen => exact absurd rfl opens
    | fchmod => exact alone
    | mmap => exact alone
    | _ =>
        simp only [ShmWorld.createEffect]
        exact alone.calm (write_dir _ _ _ _) (fun e other seg found => by
          rwa [write_instances] at found) fun e other at' => by rwa [write_instances] at at'
  refine effect.setInstance d (fun other seg found => found) fun other equal => ?_
  cases op <;> cases r <;> cases equal
  exact absurd rfl keeps
  exact absurd rfl keeps

/-- A step of the only daemon, or of a consumer. -/
theorem Alone.step
    {action : ShmAction}
    (alone : w.Alone)
    (holds : w.Invariant)
    (one : w.AtMostOne)
    (taken : ShmWorld.step action w = some next) :
    next.Alone := by
  cases action with
  | start =>
      cases taken
      have born : (w.setInstance w.started ⟨.boot, fun _ => none⟩).Alone :=
        alone.setInstance w.started (fun r seg found => by cases found) nofun
      exact ⟨born.names, born.opening, born.owner⟩
  | advance d ok =>
      simp only [ShmWorld.step] at taken
      split at taken
      · cases taken
        split
        · exact alone.setInstance d (fun _ _ found => found) nofun
        · exact alone.setInstance d (fun _ _ found => by cases found) nofun
      · next r op at' =>
          cases taken
          unfold createStep
          split
          · exact alone.setInstance d (fun _ _ found => by cases found) nofun
          · by_cases removes : op = .shmUnlink
            · subst removes
              refine alone.unlink holds one (by rw [at']; nofun) ?_ fun other equal => ?_
              · rw [at']
                cases r <;> rfl
              · cases equal
                rfl
            · by_cases opens : op = .shmOpen
              · subst opens
                exact alone.open holds one at'
              · exact alone.createEffect removes opens
      · cases taken
      · next r at' =>
          cases taken
          refine alone.setInstance d (fun other seg found => ?_) nofun
          by_cases same : other = r
          · rw [same] at found
            dsimp only at found
            rw [Function.update_self] at found
            cases found
          · dsimp only at found
            rwa [Function.update_of_ne same] at found
      · next r at' =>
          cases taken
          refine alone.unlink holds one (by rw [at']; nofun) ?_ fun other equal => ?_
          · rw [at']
            cases r <;> rfl
          · cases r <;> cases equal
      · cases taken
  | push d r m =>
      simp only [ShmWorld.step] at taken
      split at taken
      · cases taken
        exact alone.calm (write_dir _ _ _ _) (fun e other seg found => by
          rwa [write_instances] at found) fun e other at' => by rwa [write_instances] at at'
      · cases taken
  | stop d =>
      simp only [ShmWorld.step] at taken
      split at taken
      · cases taken
        exact alone.setInstance d (fun _ _ found => found) nofun
      · cases taken
  | kill d =>
      simp only [ShmWorld.step] at taken
      split at taken
      · cases taken
      · cases taken
        exact alone.setInstance d (fun _ _ found => by cases found) nofun
  | consume seg tail =>
      cases taken
      exact alone.calm rfl (fun _ _ _ found => found) fun _ _ at' => at'

end ShmWorld

end Schedmon
