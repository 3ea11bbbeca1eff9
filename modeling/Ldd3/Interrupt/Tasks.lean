import Ldd3.Base.Sections
import Ldd3.Interrupt.Fin

/-!
Tasks that run `sdev_read` and `sdev_write` of `interrupt/fin.c` at the same time. A call is cut at
every access to the semaphore, to `waitq` and to the ring; the count and the copy of a critical
section are one step, the pointer update and its wrap are one step each.

`sdev_read` waits with `wait_event`: a first test, then `prepare_to_wait`, a test and `schedule`, over
again until the test holds. A signal does not end it. `schedule` returns once the task is no longer
marked as sleeping, and `wake_up` takes the mark from every task on the queue. Only a write wakes.

The test is `have_read`, and it is made without the semaphore. A reader that has moved `rp` to `end`
and not yet back to `buf` makes it fail, whatever lies at `buf`.
-/

namespace Ldd3.Interrupt.Tasks

open Base.Tasks Base.Cells Base.Ring Base.Words

inductive Req where
  | read (len : Nat)
  | write (data : List UInt8)

/-- A call that went through its last critical section, with what it returns. -/
structure Entry where
  req : Req
  fault : Nat
  ret : Nat
  delivered : List UInt8

/-- `log` is not in the source: the calls in the order of their last critical sections. -/
structure Shared where
  dev : Sdev
  log : List Entry

-- `blind` is not in the source: `rp` stood on `end` when the test before `schedule` failed
inductive Pc where
  | idle
  | down (r : Req)
  | test (len : Nat) | up (len : Nat) | pretest (len : Nat) | prepare (len : Nat)
  | waiting (len : Nat) (marked : Bool) | sleeping (len : Nat) (marked : Bool) (blind : Prop)
  | redown (len : Nat)
  | copy (r : Req) | bump (e : Entry) | wrap (e : Entry) | release (e : Entry) | wake (e : Entry)
  | returned (ret : Except Errno Nat)

inductive Notice where
  | none | wake

def Pc.notify : Notice → Pc → Pc
  | .wake, .waiting len _ => .waiting len false
  | .wake, .sleeping len _ blind => .sleeping len false blind
  | _, x => x

def Req.move (d : Sdev) (count : Nat) : Req → Sdev
  | .read _ => { d with rp := d.rp + count }
  | .write _ => { d with wp := d.wp + count }

def Req.wrap (d : Sdev) : Req → Sdev
  | .read _ => if d.rp = d.bufEnd then { d with rp := d.buf } else d
  | .write _ => if d.wp = d.bufEnd then { d with wp := d.buf } else d

inductive PcStep : Shared → Pc → Shared → Pc → Notice → Prop where
  | call (s r) : PcStep s .idle s (.down r) .none
  | interrupted (s r) : PcStep s (.down r) s (.returned (.error .ERESTARTSYS)) .none
  | downRead (s len) (free : 0 < s.dev.sem) :
      PcStep s (.down (.read len)) { s with dev := down s.dev } (.test len) .none
  | downWrite (s data) (free : 0 < s.dev.sem) :
      PcStep s (.down (.write data)) { s with dev := down s.dev } (.copy (.write data)) .none
  | nothing (s len) (none : haveRead s.dev = 0) : PcStep s (.test len) s (.up len) .none
  | ready (s len) (some : haveRead s.dev ≠ 0) : PcStep s (.test len) s (.copy (.read len)) .none
  | up (s len) : PcStep s (.up len) { s with dev := up s.dev } (.pretest len) .none
  | pretestHolds (s len) (some : haveRead s.dev ≠ 0) : PcStep s (.pretest len) s (.redown len) .none
  | pretestFails (s len) (none : haveRead s.dev = 0) : PcStep s (.pretest len) s (.prepare len) .none
  | prepareToWait (s len) : PcStep s (.prepare len) s (.waiting len true) .none
  | retestHolds (s len m) (some : haveRead s.dev ≠ 0) : PcStep s (.waiting len m) s (.redown len) .none
  | retestFails (s len m) (none : haveRead s.dev = 0) :
      PcStep s (.waiting len m) s (.sleeping len m (s.dev.rp = s.dev.bufEnd)) .none
  | resumes (s len blind) : PcStep s (.sleeping len false blind) s (.prepare len) .none
  | reinterrupted (s len) : PcStep s (.redown len) s (.returned (.error .ERESTARTSYS)) .none
  | redown (s len) (free : 0 < s.dev.sem) :
      PcStep s (.redown len) { s with dev := down s.dev } (.test len) .none
  | copyToUser (s len fault count left e) (counted : count = readCount s.dev len)
      (missed : left = min fault count) (fine : ¬ left < 0)
      (entry : e = ⟨.read len, fault, count, fetch s.dev.mem s.dev.rp (count - left)⟩) :
      PcStep s (.copy (.read len)) { s with log := s.log ++ [e] } (.bump e) .none
  | copyToUserFails (s len fault left) (missed : left = min fault (readCount s.dev len))
      (negative : left < 0) : PcStep s (.copy (.read len)) s (.returned (.error .EAGAIN)) .none
  | copyFromUser (s data fault count left e) (counted : count = writeCount s.dev data.length)
      (missed : left = min fault count) (fine : ¬ toInt32 (left : Nat) < 0)
      (entry : e = ⟨.write data, fault, count, []⟩) :
      PcStep s (.copy (.write data)) ⟨copyFromUser s.dev data count left, s.log ++ [e]⟩ (.bump e) .none
  -- the two failed copies return without `up`
  | copyFromUserFails (s data fault count left) (counted : count = writeCount s.dev data.length)
      (missed : left = min fault count) (negative : toInt32 (left : Nat) < 0) :
      PcStep s (.copy (.write data)) { s with dev := copyFromUser s.dev data count left }
        (.returned (.error .EAGAIN)) .none
  | bump (s e) : PcStep s (.bump e) { s with dev := e.req.move s.dev e.ret } (.wrap e) .none
  | wrap (s e) : PcStep s (.wrap e) { s with dev := e.req.wrap s.dev } (.release e) .none
  | releaseRead (s e len) (read : e.req = .read len) :
      PcStep s (.release e) { s with dev := Interrupt.up s.dev } (.returned (.ok e.ret)) .none
  | releaseWrite (s e data) (write : e.req = .write data) :
      PcStep s (.release e) { s with dev := Interrupt.up s.dev } (.wake e) .none
  | wake (s e) : PcStep s (.wake e) s (.returned (.ok e.ret)) .wake
  | back (s ret) : PcStep s (.returned ret) s .idle .none

def program : Program Shared Pc Notice := ⟨PcStep, Pc.notify⟩

def loaded (ι : Type*) (g : Geometry) (mem : Int → UInt8) : Config Shared Pc ι :=
  ⟨⟨start g mem, []⟩, fun _ => .idle⟩

/-! ### The history -/

def Req.call : Req → Call
  | .read len => .read false len
  | .write data => .write false data

/-- `History g mem log d`: the calls of `log`, run one after the other from `start`, return what
`log` says and leave the device `d`. -/
inductive History (g : Geometry) (mem : Int → UInt8) : List Entry → Sdev → Prop where
  | start : History g mem [] (start g mem)
  | call {log d d' e} : History g mem log d →
      e.req.call.perform d e.fault = some ⟨.ok e.ret, e.delivered, d'⟩ → History g mem (log ++ [e]) d'

variable {g : Geometry} {mem : Int → UInt8}

theorem perform_good {d d' : Sdev} {r : Req} {fault ret : Nat} {delivered : List UInt8} (good : Good d)
    (performed : r.call.perform d fault = some ⟨.ok ret, delivered, d'⟩) :
    Good d' ∧ d'.toGeometry = d.toGeometry := by
  obtain ⟨within, free⟩ := good
  cases r with
  | read len =>
    rcases sdevRead_cases performed with ⟨taken, _⟩ | ⟨_, ready, done⟩
    · omega
    · cases done
      have nonempty : d.rp ≠ d.wp := fun empty => ready ((haveRead_zero_iff within).mpr empty)
      have bound := readCount_le within nonempty len
      have high := within.wp_high
      refine ⟨⟨bumpRp_within within ?_, free⟩, rfl⟩
      split at bound <;> omega
  | write data =>
    rcases sdevWrite_cases performed with ⟨taken, _⟩ | ⟨_, _, done⟩ | ⟨_, done⟩
    · omega
    · cases done
    · cases done
      have counted := writeCount_eq within data.length
      have high := within.wp_high
      refine ⟨⟨bumpWp_within (d := copyFromUser d data _ _) ?_ ?_, free⟩, rfl⟩
      · exact ⟨within.rp_low, within.rp_high, within.wp_low, within.wp_high⟩
      · simp only [copyFromUser]
        omega

theorem History.good {log : List Entry} {d : Sdev} (history : History g mem log d) :
    Good d ∧ d.toGeometry = g := by
  induction history with
  | start => exact ⟨⟨start_within g mem, rfl⟩, rfl⟩
  | call _ performed ih =>
    obtain ⟨good, same⟩ := perform_good ih.1 performed
    exact ⟨good, same.trans ih.2⟩

/-! ### The critical sections -/

def Pc.depth : Pc → Nat
  | .test _ | .up _ | .copy _ | .bump _ | .wrap _ | .release _ => 1
  | _ => 0

/-- The pointers are in the buffer or right behind it. -/
structure Loose (d : Sdev) : Prop where
  rp_low : d.buf ≤ d.rp
  rp_high : d.rp ≤ d.bufEnd
  wp_low : d.buf ≤ d.wp
  wp_high : d.wp ≤ d.bufEnd

/-- What the task inside has still to do turns the device into the one of the history. -/
def Stage (d : Sdev) (dev : Sdev) : Pc → Prop
  | .copy r => up dev = d ∧ ∀ len, r = .read len → haveRead dev ≠ 0
  | .bump e =>
    up (e.req.wrap (e.req.move dev e.ret)) = d ∧ Within dev ∧ Loose (e.req.move dev e.ret) ∧
      ∀ len, e.req = .read len → dev.rp ≠ dev.wp
  | .wrap e => up (e.req.wrap dev) = d ∧ Loose dev ∧ ∀ len, e.req = .read len → dev.wp < dev.bufEnd
  | _ => up dev = d

def guard (g : Geometry) (mem : Int → UInt8) : Guard Shared Pc Sdev where
  sem s := s.dev.sem
  depth := Pc.depth
  history s d := History g mem s.log d
  stage d s x := Stage d s.dev x
  settled d s := s.dev = d

theorem up_down (d : Sdev) : up (down d) = d := by simp [up, down]

theorem finish_read (d : Sdev) (len count : Nat) :
    up (Req.wrap (Req.move d count (.read len)) (.read len)) = bumpRp (up d) count := by
  by_cases wraps : d.rp + (count : Int) = d.bufEnd <;> simp [Req.wrap, Req.move, bumpRp, advance, up, wraps]

theorem finish_write (d : Sdev) (data : List UInt8) (count : Nat) :
    up (Req.wrap (Req.move d count (.write data)) (.write data)) = bumpWp (up d) count := by
  by_cases wraps : d.wp + (count : Int) = d.bufEnd <;> simp [Req.wrap, Req.move, bumpWp, advance, up, wraps]

theorem within_up {d : Sdev} : Within (up d) ↔ Within d :=
  ⟨fun h => ⟨h.rp_low, h.rp_high, h.wp_low, h.wp_high⟩, fun h => ⟨h.rp_low, h.rp_high, h.wp_low, h.wp_high⟩⟩

theorem Loose.of_within {d : Sdev} (h : Within d) : Loose d :=
  ⟨h.rp_low, h.rp_high.le, h.wp_low, h.wp_high.le⟩

theorem depth_notify (n : Notice) (x : Pc) : (x.notify n).depth = x.depth := by
  cases n <;> cases x <;> rfl

theorem notify_of_depth {n : Notice} {x : Pc} (inside : 0 < x.depth) : x.notify n = x := by
  cases x <;> cases n <;> first | rfl | exact absurd inside (Nat.lt_irrefl 0)

/-- With a buffer below `2^31` bytes the number of missed bytes is never negative as an `int`. -/
theorem missed_nonneg {d : Sdev} (h : Within d) (small : d.bufEnd - d.buf < 2 ^ 31) (len fault : Nat) :
    ¬ toInt32 (min fault (writeCount d len) : Nat) < 0 := by
  have counted := writeCount_eq h len
  have low := h.wp_low
  rw [toInt32_of_range (by omega) (by omega)]
  omega

theorem stage_copyToUser {s : Shared} {len : Nat} {d : Sdev} (fault : Nat) (history : History g mem s.log d)
    (settled : up s.dev = d) (some : haveRead s.dev ≠ 0) :
    ∃ d', History g mem (s.log ++ [⟨.read len, fault, readCount s.dev len,
        fetch s.dev.mem s.dev.rp (readCount s.dev len - min fault (readCount s.dev len))⟩]) d' ∧
      up (Req.wrap (Req.move s.dev (readCount s.dev len) (.read len)) (.read len)) = d' ∧
      Within s.dev ∧ Loose (Req.move s.dev (readCount s.dev len) (.read len)) ∧ s.dev.rp ≠ s.dev.wp := by
  obtain ⟨⟨within, free⟩, _⟩ := history.good
  subst settled
  have inside := within_up.mp within
  have nonempty : s.dev.rp ≠ s.dev.wp := fun empty => some ((haveRead_zero_iff inside).mpr empty)
  refine ⟨_, history.call ?_, finish_read _ _ _, inside, ?_, nonempty⟩
  · exact sdevRead_ready (d := up s.dev) (by omega) some false len fault
  · have bound := readCount_le inside nonempty len
    obtain ⟨rpLow, rpHigh, wpLow, wpHigh⟩ := inside
    constructor <;> simp only [Req.move] <;> (try split at bound) <;> omega

theorem stage_copyFromUser {s : Shared} {d : Sdev} (data : List UInt8) (fault : Nat)
    (small : g.bufEnd - g.buf < 2 ^ 31) (history : History g mem s.log d) (settled : up s.dev = d) :
    let count := writeCount s.dev data.length
    let filled := copyFromUser s.dev data count (min fault count)
    ∃ d', History g mem (s.log ++ [⟨.write data, fault, count, []⟩]) d' ∧
      up (Req.wrap (Req.move filled count (.write data)) (.write data)) = d' ∧ Within filled ∧
      Loose (Req.move filled count (.write data)) := by
  obtain ⟨⟨within, free⟩, rfl⟩ := history.good
  subst settled
  have inside := within_up.mp within
  have fine := missed_nonneg inside small data.length fault
  have counted := writeCount_eq inside data.length
  obtain ⟨rpLow, rpHigh, wpLow, wpHigh⟩ := inside
  refine ⟨_, history.call ?_, finish_write _ _ _, ⟨rpLow, rpHigh, wpLow, wpHigh⟩, ?_⟩
  · change sdevWrite (up s.dev) false data fault = _
    have taken : ¬ (up s.dev).sem ≤ 0 := by omega
    have same : writeCount (up s.dev) data.length = writeCount s.dev data.length := rfl
    simp only [sdevWrite, if_neg taken, same, if_neg fine]
    simp [up, bumpWp, copyFromUser, down]
  · constructor <;> simp only [Req.move, copyFromUser] <;> omega

theorem guard_inside {s s' : Shared} {x x' : Pc} {n : Notice} {d : Sdev} (small : g.bufEnd - g.buf < 2 ^ 31)
    (stepped : PcStep s x s' x' n) (inside : 0 < x.depth) (history : History g mem s.log d)
    (stage : Stage d s.dev x) :
    s'.dev.sem + x'.depth = s.dev.sem + x.depth ∧ x'.depth ≤ x.depth ∧
      ∃ d', History g mem s'.log d' ∧ (0 < x'.depth → Stage d' s'.dev x') ∧ (x'.depth = 0 → s'.dev = d') := by
  cases stepped with
  | nothing len none => exact ⟨rfl, Nat.le_refl _, d, history, fun _ => stage, fun out => absurd out Nat.one_ne_zero⟩
  | ready len some =>
    exact ⟨rfl, Nat.le_refl _, d, history, fun _ => ⟨stage, fun _ _ => some⟩, fun out => absurd out Nat.one_ne_zero⟩
  | up len =>
    exact ⟨by simp [Interrupt.up, Pc.depth], Nat.zero_le _, d, history, fun inside => absurd inside (Nat.lt_irrefl 0),
      fun _ => stage⟩
  | copyToUser len fault count left e counted missed fine entry =>
    obtain ⟨settled, some⟩ := stage
    subst counted missed entry
    obtain ⟨d', history', finish, within, loose, nonempty⟩ :=
      stage_copyToUser fault history settled (some len rfl)
    exact ⟨rfl, Nat.le_refl _, d', history', fun _ => ⟨finish, within, loose, fun _ _ => nonempty⟩,
      fun out => absurd out Nat.one_ne_zero⟩
  | copyToUserFails len fault left missed negative => exact absurd negative (Nat.not_lt_zero _)
  | copyFromUser data fault count left e counted missed fine entry =>
    obtain ⟨settled, _⟩ := stage
    subst counted missed entry
    obtain ⟨d', history', finish, within, loose⟩ :=
      stage_copyFromUser data fault small history settled
    exact ⟨rfl, Nat.le_refl _, d', history', fun _ => ⟨finish, within, loose, fun _ read => by cases read⟩,
      fun out => absurd out Nat.one_ne_zero⟩
  | copyFromUserFails data fault count left counted missed negative =>
    obtain ⟨⟨within, _⟩, rfl⟩ := history.good
    obtain ⟨rfl, _⟩ := stage
    subst counted missed
    exact absurd negative (missed_nonneg (within_up.mp within) small data.length fault)
  | bump e =>
    obtain ⟨finish, within, loose, _⟩ := stage
    refine ⟨?_, Nat.le_refl _, d, history, fun _ => ⟨finish, loose, fun len read => ?_⟩,
      fun out => absurd out Nat.one_ne_zero⟩
    · cases e.req <;> rfl
    · rw [read]
      exact within.wp_high
  | wrap e =>
    refine ⟨?_, Nat.le_refl _, d, history, fun _ => stage.1, fun out => absurd out Nat.one_ne_zero⟩
    cases e.req <;> simp only [Req.wrap, Pc.depth] <;> split <;> rfl
  | releaseRead e len read =>
    exact ⟨by simp [Interrupt.up, Pc.depth], Nat.zero_le _, d, history, fun inside => absurd inside (Nat.lt_irrefl 0),
      fun _ => stage⟩
  | releaseWrite e data write =>
    exact ⟨by simp [Interrupt.up, Pc.depth], Nat.zero_le _, d, history, fun inside => absurd inside (Nat.lt_irrefl 0),
      fun _ => stage⟩
  | _ => exact absurd inside (Nat.lt_irrefl 0)

theorem guard_outside {s s' : Shared} {x x' : Pc} {n : Notice} (stepped : PcStep s x s' x' n)
    (outside : x.depth = 0) :
    (s' = s ∧ x'.depth = 0) ∨
      (0 < s.dev.sem ∧ s' = { s with dev := down s.dev } ∧ x'.depth = 1 ∧ Stage s.dev (down s.dev) x') := by
  cases stepped with
  | downRead len free => exact Or.inr ⟨free, rfl, rfl, up_down _⟩
  | downWrite data free => exact Or.inr ⟨free, rfl, rfl, up_down _, fun _ read => by cases read⟩
  | redown len free => exact Or.inr ⟨free, rfl, rfl, up_down _⟩
  | _ => first | exact Or.inl ⟨rfl, rfl⟩ | exact absurd outside Nat.one_ne_zero

theorem guard_sound (small : g.bufEnd - g.buf < 2 ^ 31) : (guard g mem).Sound program where
  inside stepped inside _ history stage := guard_inside small stepped inside history stage
  outside {s x s' x' n} stepped outside := by
    rcases guard_outside stepped outside with ⟨rfl, still⟩ | ⟨free, rfl, entered, stage⟩
    · exact Or.inl ⟨⟨id, id, id⟩, still, rfl⟩
    · refine Or.inr ⟨free, entered, rfl, fun {d} history settled => ⟨history, ?_⟩⟩
      have same : s.dev = d := settled
      rw [← same]
      exact stage
  depth_notify := depth_notify
  stage_notify inside stage := by
    change Stage _ _ (Pc.notify _ _)
    rw [notify_of_depth inside]
    exact stage

variable {ι : Type*} [DecidableEq ι] [Fintype ι] {c : Config Shared Pc ι}

theorem guarded (small : g.bufEnd - g.buf < 2 ^ 31) (reachable : program.Reachable (loaded ι g mem) c) :
    (guard g mem).Guarded c := by
  have initial : ∃ d, (guard g mem).history (loaded ι g mem).shared d ∧
      (guard g mem).settled d (loaded ι g mem).shared := ⟨_, .start, rfl⟩
  exact reachable.guarded (guard_sound small) rfl (fun _ => rfl) initial

theorem Stage.loose {d dev : Sdev} {x : Pc} (within : Within d) (stage : Stage d dev x) : Loose dev := by
  cases x with
  | copy r =>
    obtain ⟨rfl, _⟩ := stage
    exact .of_within (within_up.mp within)
  | bump e => exact .of_within stage.2.1
  | wrap e => exact stage.2.1
  | _ =>
    have settled : up dev = d := stage
    subst settled
    exact .of_within (within_up.mp within)

theorem loose_dev (small : g.bufEnd - g.buf < 2 ^ 31) (reachable : program.Reachable (loaded ι g mem) c) :
    Loose c.shared.dev := by
  obtain ⟨d, history, stages, alone⟩ := (guarded small reachable).serial
  obtain ⟨⟨within, _⟩, _⟩ := History.good history
  by_cases inside : ∃ t, 0 < (c.task t).depth
  · obtain ⟨t, inside⟩ := inside
    exact Stage.loose within (stages t inside)
  · have settled : c.shared.dev = d := alone fun t => by
      have out : ¬ 0 < (c.task t).depth := fun positive => inside ⟨t, positive⟩
      exact Nat.eq_zero_of_not_pos out
    rw [settled]
    exact .of_within within

/-! ### Sleeping readers -/

/-- A reader that will not run before it is woken and that did not test while `rp` stood on `end`. -/
def Pc.Asleep : Pc → Prop
  | .sleeping _ marked blind => marked = true ∧ ¬ blind
  | _ => False

/-- A writer that has moved `wp` and not yet woken `waitq`. -/
def Pc.Owes : Pc → Prop
  | .wrap e | .release e | .wake e => ∃ data, e.req = .write data
  | _ => False

def readers : Discipline Shared Pc where
  committed := Pc.Asleep
  ready s _ := s.dev.rp ≠ s.dev.wp
  owes := Pc.Owes

theorem asleep_of_notify {n : Notice} {x : Pc} (asleep : (x.notify n).Asleep) : x.Asleep := by
  cases x with
  | sleeping len m blind =>
    cases n
    · exact asleep
    · exact absurd asleep.1 Bool.false_ne_true
  | _ => cases n <;> exact asleep

theorem not_asleep_of_wake {x : Pc} : ¬ (x.notify .wake).Asleep := by
  cases x with
  | sleeping len m blind => exact fun asleep => Bool.false_ne_true asleep.1
  | _ => exact id

theorem owes_notify {n : Notice} {x : Pc} (owes : x.Owes) : (x.notify n).Owes := by
  cases x <;> first | exact absurd owes id | (cases n <;> exact owes)

/-- The test fails on an empty ring and while `rp` stands on `end`. -/
theorem haveRead_zero {d : Sdev} (loose : Loose d) (none : haveRead d = 0) (before : d.rp ≠ d.bufEnd) :
    d.rp = d.wp := by
  have size := d.fits
  obtain ⟨rpLow, rpHigh, wpLow, wpHigh⟩ := loose
  unfold haveRead at none
  rcases Int.lt_trichotomy d.rp d.wp with ahead | empty | behind
  · rw [if_pos ahead, toU64_of_range (by omega) (by omega)] at none
    omega
  · exact empty
  · rw [if_neg (by omega), if_neg (by omega), toU64_of_range (by omega) (by omega)] at none
    omega

theorem asleep_step {s s' : Shared} {x x' : Pc} {n : Notice} (loose : Loose s.dev) (stepped : PcStep s x s' x' n)
    (asleep : x'.Asleep) : s'.dev.rp = s'.dev.wp := by
  cases stepped with
  | retestFails len m none => exact haveRead_zero loose none asleep.2
  | _ => exact absurd asleep id

theorem owes_step {s s' : Shared} {x x' : Pc} {n : Notice} (stepped : PcStep s x s' x' n) (owes : x.Owes) :
    x'.Owes ∨ n = .wake := by
  cases stepped with
  | wrap e => exact Or.inl owes
  | releaseRead e len read =>
    obtain ⟨data, write⟩ := owes
    rw [read] at write
    cases write
  | releaseWrite e data write => exact Or.inl owes
  | wake e => exact Or.inr rfl
  | _ => exact absurd owes id

/-- Only a writer makes the ring non-empty. -/
theorem nonempty_rises {s s' : Shared} {x x' : Pc} {n : Notice} {d : Sdev} (stepped : PcStep s x s' x' n)
    (stage : 0 < x.depth → Stage d s.dev x) (empty : s.dev.rp = s.dev.wp) (ready : s'.dev.rp ≠ s'.dev.wp) :
    x'.Owes := by
  cases stepped with
  | bump e =>
    obtain ⟨_, _, _, nonempty⟩ := stage Nat.one_pos
    obtain ⟨req, fault, ret, delivered⟩ := e
    cases req with
    | read len => exact absurd empty (nonempty len rfl)
    | write data => exact ⟨data, rfl⟩
  | wrap e =>
    obtain ⟨_, _, below⟩ := stage Nat.one_pos
    obtain ⟨req, fault, ret, delivered⟩ := e
    cases req with
    | read len =>
      have bound := below len rfl
      have stays : Req.wrap s.dev (.read len) = s.dev := if_neg (by omega)
      simp only [stays] at ready
      exact absurd empty ready
    | write data => exact ⟨data, rfl⟩
  | _ => exact absurd empty ready

theorem noLostWakeup (small : g.bufEnd - g.buf < 2 ^ 31) (reachable : program.Reachable (loaded ι g mem) c) :
    readers.NoLostWakeup c := by
  refine reachable.no_lost_wakeup readers (fun _ asleep => asleep) ?_ ?_ ?_ ?_ ?_
  · intro c t s' x' n reachable stepped asleep ready
    exact absurd (asleep_step (loose_dev small reachable) stepped asleep) ready
  · intro c t u s' x' n reachable _ stepped ready
    obtain ⟨d, _, stages, _⟩ := (guarded small reachable).serial
    by_cases empty : c.shared.dev.rp = c.shared.dev.wp
    · exact Or.inr (nonempty_rises stepped (stages t) empty ready)
    · exact Or.inl empty
  · intro s x s' x' n stepped owes
    rcases owes_step stepped owes with still | rfl
    · exact Or.inl still
    · exact Or.inr fun y => not_asleep_of_wake
  · intro n y asleep
    exact asleep_of_notify asleep
  · intro n y owes
    exact owes_notify owes

/-- A reader that sleeps although there is something to read is about to be woken by a writer, or it
went to sleep while another reader had `rp` on `end`. -/
theorem stranded_only_blind (small : g.bufEnd - g.buf < 2 ^ 31) (reachable : program.Reachable (loaded ι g mem) c)
    (t : ι) (len : Nat) (blind : Prop) (asleep : c.task t = .sleeping len true blind)
    (some : haveRead c.shared.dev ≠ 0) :
    blind ∨ ∃ u e data, (c.task u = .wrap e ∨ c.task u = .release e ∨ c.task u = .wake e) ∧ e.req = .write data := by
  by_cases seen : blind
  · exact Or.inl seen
  refine Or.inr ?_
  have sleeping : (c.task t).Asleep := by
    rw [asleep]
    exact ⟨rfl, seen⟩
  have ready : c.shared.dev.rp ≠ c.shared.dev.wp := by
    intro empty
    apply some
    rw [haveRead, if_neg (by omega), if_pos empty]
  obtain ⟨u, owes⟩ := noLostWakeup small reachable t sleeping ready
  have owing : (c.task u).Owes := owes
  generalize at' : c.task u = x at owing
  cases x with
  | wrap e =>
    obtain ⟨data, write⟩ := owing
    exact ⟨u, e, data, Or.inl at', write⟩
  | release e =>
    obtain ⟨data, write⟩ := owing
    exact ⟨u, e, data, Or.inr (Or.inl at'), write⟩
  | wake e =>
    obtain ⟨data, write⟩ := owing
    exact ⟨u, e, data, Or.inr (Or.inr at'), write⟩
  | _ => exact absurd owing id

/-! ### A stranded reader -/

omit [Fintype ι] in
theorem write_alone (reachable : program.Reachable (loaded ι g mem) c) {t : ι} (idle : c.task t = .idle)
    (free : 0 < c.shared.dev.sem) (data : List UInt8) :
    ∃ c', program.Reachable (loaded ι g mem) c' ∧
      c'.shared.dev = bumpWp (copyFromUser c.shared.dev data (writeCount c.shared.dev data.length) 0)
        (writeCount c.shared.dev data.length) ∧
      c'.shared.log = c.shared.log ++ [⟨.write data, 0, writeCount c.shared.dev data.length, []⟩] ∧
      c'.task t = .idle ∧ ∀ u, u ≠ t → (∀ n, program.notify n (c.task u) = c.task u) → c'.task u = c.task u := by
  have alone := Program.Bout.step (P := program) _ (.call c.shared (.write data)) <|
    .step _ (.downWrite _ data free) <|
    .step _ (.copyFromUser _ data 0 _ _ _ rfl rfl (by simp [toInt32]) rfl) <|
    .step _ (.bump _ _) <|
    .step _ (.wrap _ _) <|
    .step _ (.releaseWrite _ _ data rfl) <|
    .step _ (.wake _ _) <|
    .step _ (.back _ _) <| .refl _ _
  rw [← idle] at alone
  obtain ⟨c', reached, shared, own, others⟩ := reachable.bout t alone
  refine ⟨c', reached, ?_, by rw [shared]; rfl, own.trans idle, others⟩
  rw [shared, finish_write]
  simp [bumpWp, copyFromUser, up, down, writeCount]

omit [Fintype ι] in
/-- A read up to the moment between its two updates of `rp`. -/
theorem read_halfway (reachable : program.Reachable (loaded ι g mem) c) {t : ι} (idle : c.task t = .idle)
    (free : 0 < c.shared.dev.sem) (some : haveRead c.shared.dev ≠ 0) (len : Nat) :
    ∃ c' e, program.Reachable (loaded ι g mem) c' ∧
      c'.shared.dev = { down c.shared.dev with rp := c.shared.dev.rp + readCount c.shared.dev len } ∧
      c'.task t = .wrap e ∧ e.req = .read len ∧
      ∀ u, u ≠ t → (∀ n, program.notify n (c.task u) = c.task u) → c'.task u = c.task u := by
  have alone := Program.Bout.step (P := program) _ (.call c.shared (.read len)) <|
    .step _ (.downRead _ len free) <|
    .step _ (.ready _ len some) <|
    .step _ (.copyToUser _ len 0 _ _ _ rfl rfl (Nat.not_lt_zero _) rfl) <|
    .step _ (.bump _ _) <| .refl _ _
  rw [← idle] at alone
  obtain ⟨c', reached, shared, own, others⟩ := reachable.bout t alone
  exact ⟨c', _, reached, by rw [shared]; rfl, own, rfl, others⟩

omit [Fintype ι] in
theorem finish_alone (reachable : program.Reachable (loaded ι g mem) c) {t : ι} {e : Entry} {len : Nat}
    (halfway : c.task t = .wrap e) (read : e.req = .read len) :
    ∃ c', program.Reachable (loaded ι g mem) c' ∧ c'.shared.dev = up (Req.wrap c.shared.dev (.read len)) ∧
      c'.task t = .idle ∧ ∀ u, u ≠ t → c'.task u = c.task u := by
  have alone := Program.Solo.step (P := program) _ (.wrap c.shared e) (fun _ => rfl) <|
    .step _ (.releaseRead _ e len read) (fun _ => rfl) <|
    .step _ (.back _ _) (fun _ => rfl) <| .refl _ _
  rw [← halfway, read] at alone
  obtain ⟨c', reached, shared, own, others⟩ := reachable.solo t alone
  exact ⟨c', reached, by rw [shared], own, others⟩

def threeBytes : Geometry where
  buf := 0
  bufEnd := 3
  two_le := by decide
  fits := by decide

theorem notify_idle (n : Notice) : program.notify n .idle = .idle := by cases n <;> rfl

theorem notify_pretest (n : Notice) (len : Nat) : program.notify n (.pretest len) = .pretest len := by
  cases n <;> rfl

/-- Task 0 has found nothing to read and is about to test again; the two others are between calls. -/
structure Scene (c : Config Shared Pc (Fin 3)) (d : Sdev) : Prop where
  reached : program.Reachable (loaded (Fin 3) threeBytes fun _ => 0) c
  dev : c.shared.dev = d
  waits : c.task 0 = .pretest 1
  reader : c.task 1 = .idle
  writer : c.task 2 = .idle

variable {scene : Config Shared Pc (Fin 3)} {d : Sdev}

theorem scene_opens : ∃ c, Scene c (up (down (start threeBytes fun _ => 0))) := by
  have start : program.Reachable (loaded (Fin 3) threeBytes fun _ => 0) (loaded _ _ _) := .init
  obtain ⟨c, reached, shared, waits, rest⟩ := start.bout 0 <|
    .step _ (.call _ (.read 1)) <| .step _ (.downRead _ 1 (by decide)) <|
    .step _ (.nothing _ 1 (by decide)) <| .step _ (.up _ 1) <| .refl _ _
  exact ⟨c, reached, congrArg Shared.dev shared, waits, rest 1 (by decide) notify_idle,
    rest 2 (by decide) notify_idle⟩

theorem Scene.write (at' : Scene scene d) (free : 0 < d.sem) (data : List UInt8) :
    ∃ c, Scene c (bumpWp (copyFromUser d data (writeCount d data.length) 0) (writeCount d data.length)) := by
  obtain ⟨reached, rfl, waits, reader, writer⟩ := at'
  obtain ⟨c, reached', dev, _, own, rest⟩ := write_alone reached writer free data
  have waits' := rest 0 (by decide) fun n => by rw [waits, notify_pretest]
  have reader' := rest 1 (by decide) fun n => by rw [reader, notify_idle]
  exact ⟨c, reached', dev, waits'.trans waits, reader'.trans reader, own⟩

theorem Scene.halfway (at' : Scene scene d) (free : 0 < d.sem) (some : haveRead d ≠ 0) (len : Nat) :
    ∃ c e, program.Reachable (loaded (Fin 3) threeBytes fun _ => 0) c ∧
      c.shared.dev = { down d with rp := d.rp + readCount d len } ∧ c.task 0 = .pretest 1 ∧ c.task 1 = .wrap e ∧
      e.req = .read len ∧ c.task 2 = .idle := by
  obtain ⟨reached, rfl, waits, reader, writer⟩ := at'
  obtain ⟨c, e, reached', dev, own, read, rest⟩ := read_halfway reached reader free some len
  have waits' := rest 0 (by decide) fun n => by rw [waits, notify_pretest]
  have writer' := rest 2 (by decide) fun n => by rw [writer, notify_idle]
  exact ⟨c, e, reached', dev, waits'.trans waits, own, read, writer'.trans writer⟩

theorem Scene.read (at' : Scene scene d) (free : 0 < d.sem) (some : haveRead d ≠ 0) (len : Nat) :
    ∃ c, Scene c (up (Req.wrap { down d with rp := d.rp + readCount d len } (.read len))) := by
  obtain ⟨c, e, reached, dev, waits, reader, read, writer⟩ := at'.halfway free some len
  obtain ⟨c', reached', dev', own, rest⟩ := finish_alone reached reader read
  rw [dev] at dev'
  exact ⟨c', reached', dev', (rest 0 (by decide)).trans waits, own, (rest 2 (by decide)).trans writer⟩

/-- A buffer of three bytes. Reader 0 finds it empty. The other two then fill it across its end and
reader 1 takes the upper bytes; reader 0 tests between the two updates of `rp` and goes to sleep. Now
everybody else is done, one byte can be read, and only a further write will wake reader 0. -/
theorem stranded_only_blind_at_rest :
    ∃ (c : Config Shared Pc (Fin 3)) (blind : Prop), program.Reachable (loaded (Fin 3) threeBytes fun _ => 0) c ∧
      c.task 0 = .sleeping 1 true blind ∧ c.task 1 = .idle ∧ c.task 2 = .idle ∧
        haveRead c.shared.dev = 1 ∧ blind := by
  obtain ⟨c₀, scene₀⟩ := scene_opens
  obtain ⟨c₁, scene₁⟩ := scene₀.write (by decide) [1, 2]
  obtain ⟨c₂, scene₂⟩ := scene₁.read (by decide) (by decide) 2
  obtain ⟨c₃, scene₃⟩ := scene₂.write (by decide) [3]
  obtain ⟨c₄, scene₄⟩ := scene₃.write (by decide) [4]
  obtain ⟨c₅, e, reached₅, dev₅, waits₅, reader₅, read, writer₅⟩ := scene₄.halfway (by decide) (by decide) 1
  have none : haveRead c₅.shared.dev = 0 := by rw [dev₅]; decide
  have alone := Program.Solo.step (P := program) _ (.pretestFails c₅.shared 1 none) (fun _ => rfl) <|
    .step _ (.prepareToWait _ 1) (fun _ => rfl) <| .step _ (.retestFails _ 1 true none) (fun _ => rfl) <| .refl _ _
  rw [← waits₅] at alone
  obtain ⟨c₆, reached₆, shared₆, sleeps₆, rest₆⟩ := reached₅.solo 0 alone
  obtain ⟨c₇, reached₇, dev₇, reader₇, rest₇⟩ := finish_alone reached₆ ((rest₆ 1 (by decide)).trans reader₅) read
  rw [shared₆, dev₅] at dev₇
  have sleeps₇ := (rest₇ 0 (by decide)).trans sleeps₆
  have writer₇ : c₇.task 2 = .idle := by rw [rest₇ 2 (by decide), rest₆ 2 (by decide), writer₅]
  have some : haveRead c₇.shared.dev = 1 := by rw [dev₇]; decide
  refine ⟨c₇, _, reached₇, sleeps₇, reader₇, writer₇, some, ?_⟩
  rcases stranded_only_blind (by decide) reached₇ 0 1 _ sleeps₇ (by rw [some]; decide) with
    blind | ⟨u, e, data, owes, _⟩
  · exact blind
  · have all : ∀ u : Fin 3, u = 0 ∨ u = 1 ∨ u = 2 := by decide
    rcases all u with rfl | rfl | rfl
    · simp [sleeps₇] at owes
    · simp [reader₇] at owes
    · simp [writer₇] at owes

end Ldd3.Interrupt.Tasks
