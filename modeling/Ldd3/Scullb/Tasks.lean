import Ldd3.Base.Sections
import Ldd3.Scullb.Ring
import Mathlib.Algebra.BigOperators.Ring.Finset

/-!
Tasks that run `sdev_read`, `sdev_write` and `sdev_poll` of `nonblock/scullb.c` at the same time.
A call is cut at every access to the semaphore, to a wait queue and to the ring; the count and the
copy of a critical section are one step, the pointer update and its wrap are one step each.

`sdev_read` waits with `wait_event_interruptible` on `inq`: a first test, then `prepare_to_wait`,
a test, the look for a signal and `schedule`, over again until the test holds. `sdev_write` waits by
hand on `outq`: `prepare_to_wait`, a test, `schedule`, `finish_wait` and then the look for a signal.
`schedule` returns once the task is no longer marked as sleeping; a wake-up of the queue takes the
mark from every task on it, a signal from the task it is sent to. The tests outside the semaphore
read both pointers at once.
-/

namespace Ldd3.Scullb.Tasks

open Base.Tasks Base.Cells Base.Words

inductive Req where
  | read (nonblock : Bool) (len : Nat)
  | write (nonblock : Bool) (data : List UInt8)
  | poll

/-- A call that went through its last critical section, with what it returns. -/
structure Entry where
  req : Req
  fault : Nat
  ret : Nat
  delivered : List UInt8

/-- `log` is not in the source: the calls in the order of their last critical sections. -/
structure Shared where
  ring : Sdev
  sem : Int
  log : List Entry

inductive Wait where
  | retest | pending | schedule

inductive Pc where
  | idle
  | down (r : Req) | test (r : Req) | up (r : Req) | flags (r : Req)
  | pretest (r : Req) | prepare (r : Req) | waiting (r : Req) (marked : Bool) (w : Wait) | finished (r : Req)
  | redown (r : Req)
  | copy (r : Req) | bump (e : Entry) | wrap (e : Entry) | release (e : Entry) | wake (e : Entry)
  | fault
  | returned (ret : Except Errno Nat)

inductive Notice where
  | none | wakeInq | wakeOutq

def Pc.notify : Notice → Pc → Pc
  | .wakeInq, .waiting (.read nonblock len) _ w => .waiting (.read nonblock len) false w
  | .wakeOutq, .waiting (.write nonblock data) _ w => .waiting (.write nonblock data) false w
  | _, x => x

def Req.notice : Req → Notice
  | .read _ _ => .wakeOutq
  | .write _ _ => .wakeInq
  | .poll => .none

def Req.nonblock : Req → Bool
  | .read nonblock _ | .write nonblock _ => nonblock
  | .poll => false

/-- The condition of the `while` loop. -/
def Req.Blocked (d : Sdev) : Req → Prop
  | .read _ _ => d.rp = d.wp
  | .write _ _ => haveSpace d = 0
  | .poll => False

def Req.advance (d : Sdev) (count : Nat) : Req → Sdev
  | .read _ _ => bumpRp d count
  | .write _ _ => bumpWp d count
  | .poll => d

def Req.settle (d : Sdev) : Req → Sdev
  | .read _ _ => wrapRp d
  | .write _ _ => wrapWp d
  | .poll => d

inductive PcStep : Shared → Pc → Shared → Pc → Notice → Prop where
  | call (s r) : PcStep s .idle s (.down r) .none
  | interrupted (s r) : PcStep s (.down r) s (.returned (.error .ERESTARTSYS)) .none
  | down (s r) (free : 0 < s.sem) : PcStep s (.down r) { s with sem := s.sem - 1 } (.test r) .none
  | mustWait (s r) (blocked : r.Blocked s.ring) : PcStep s (.test r) s (.up r) .none
  | readReady (s nonblock len) (ready : ¬ Req.Blocked s.ring (.read nonblock len)) :
      PcStep s (.test (.read nonblock len)) s (.copy (.read nonblock len)) .none
  | writeReady (s nonblock data) (ready : ¬ Req.Blocked s.ring (.write nonblock data)) :
      PcStep s (.test (.write nonblock data)) s (.copy (.write nonblock data)) .none
  | pollMask (s) :
      PcStep s (.test .poll) { s with log := s.log ++ [⟨.poll, 0, pollMask s.ring, []⟩] }
        (.release ⟨.poll, 0, pollMask s.ring, []⟩) .none
  | up (s r) : PcStep s (.up r) { s with sem := s.sem + 1 } (.flags r) .none
  | wouldBlock (s r) (set : r.nonblock = true) :
      PcStep s (.flags r) s (.returned (.error .EAGAIN)) .none
  | readWaits (s nonblock len) (clear : nonblock = false) :
      PcStep s (.flags (.read nonblock len)) s (.pretest (.read nonblock len)) .none
  | writeWaits (s nonblock data) (clear : nonblock = false) :
      PcStep s (.flags (.write nonblock data)) s (.prepare (.write nonblock data)) .none
  | pretestHolds (s r) (ready : ¬ r.Blocked s.ring) : PcStep s (.pretest r) s (.redown r) .none
  | pretestFails (s r) (blocked : r.Blocked s.ring) : PcStep s (.pretest r) s (.prepare r) .none
  | prepareToWait (s r) : PcStep s (.prepare r) s (.waiting r true .retest) .none
  | readRetestHolds (s nonblock len m) (ready : ¬ Req.Blocked s.ring (.read nonblock len)) :
      PcStep s (.waiting (.read nonblock len) m .retest) s (.redown (.read nonblock len)) .none
  | readRetestFails (s nonblock len m) (blocked : Req.Blocked s.ring (.read nonblock len)) :
      PcStep s (.waiting (.read nonblock len) m .retest) s (.waiting (.read nonblock len) m .pending) .none
  | readSignal (s nonblock len m) :
      PcStep s (.waiting (.read nonblock len) m .pending) s (.returned (.error .ERESTARTSYS)) .none
  | readNoSignal (s nonblock len m) :
      PcStep s (.waiting (.read nonblock len) m .pending) s (.waiting (.read nonblock len) m .schedule) .none
  | readResumes (s nonblock len) :
      PcStep s (.waiting (.read nonblock len) false .schedule) s (.prepare (.read nonblock len)) .none
  | writeRetestHolds (s nonblock data m) (ready : ¬ Req.Blocked s.ring (.write nonblock data)) :
      PcStep s (.waiting (.write nonblock data) m .retest) s (.finished (.write nonblock data)) .none
  | writeRetestFails (s nonblock data m) (blocked : Req.Blocked s.ring (.write nonblock data)) :
      PcStep s (.waiting (.write nonblock data) m .retest) s (.waiting (.write nonblock data) m .schedule) .none
  | writeResumes (s nonblock data) :
      PcStep s (.waiting (.write nonblock data) false .schedule) s (.finished (.write nonblock data)) .none
  | signal (s r m w) : PcStep s (.waiting r m w) s (.waiting r false w) .none
  | signalPending (s r) : PcStep s (.finished r) s (.returned (.error .ERESTARTSYS)) .none
  | noSignal (s r) : PcStep s (.finished r) s (.redown r) .none
  | reinterrupted (s r) : PcStep s (.redown r) s (.returned (.error .ERESTARTSYS)) .none
  | redown (s r) (free : 0 < s.sem) : PcStep s (.redown r) { s with sem := s.sem - 1 } (.test r) .none
  | copyToUser (s nonblock len fault count left e) (counted : count = readCount s.ring len)
      (missed : left = min fault count) (fine : ¬ left < 0)
      (entry : e = ⟨.read nonblock len, fault, count, fetch s.ring.mem s.ring.rp (count - left)⟩) :
      PcStep s (.copy (.read nonblock len)) { s with log := s.log ++ [e] } (.bump e) .none
  | copyToUserFails (s nonblock len fault left) (missed : left = min fault (readCount s.ring len))
      (negative : left < 0) : PcStep s (.copy (.read nonblock len)) s .fault .none
  | copyFromUser (s nonblock data fault count left e) (counted : count = writeCount s.ring data.length)
      (missed : left = min fault count) (fine : ¬ toInt32 (left : Nat) < 0)
      (entry : e = ⟨.write nonblock data, fault, count, []⟩) :
      PcStep s (.copy (.write nonblock data))
        { s with ring := copyFromUser s.ring data count left, log := s.log ++ [e] } (.bump e) .none
  | copyFromUserFails (s nonblock data fault count left) (counted : count = writeCount s.ring data.length)
      (missed : left = min fault count) (negative : toInt32 (left : Nat) < 0) :
      PcStep s (.copy (.write nonblock data)) { s with ring := copyFromUser s.ring data count left } .fault .none
  | bump (s e) : PcStep s (.bump e) { s with ring := e.req.advance s.ring e.ret } (.wrap e) .none
  | wrap (s e) : PcStep s (.wrap e) { s with ring := e.req.settle s.ring } (.release e) .none
  | release (s e) : PcStep s (.release e) { s with sem := s.sem + 1 } (.wake e) .none
  | wake (s e) : PcStep s (.wake e) s (.returned (.ok e.ret)) e.req.notice
  | faultUp (s) : PcStep s .fault { s with sem := s.sem + 1 } (.returned (.error .EFAULT)) .none
  | back (s ret) : PcStep s (.returned ret) s .idle .none

/-- What is not in the source: the downs less the ups of the task, whether its running call has
changed the ring, and the calls it has returned from with success. -/
structure Task where
  pc : Pc
  held : Int
  touched : Prop
  returned : List Entry

def Pc.ended : Pc → List Entry
  | .wake e => [e]
  | _ => []

inductive Step : Shared → Task → Shared → Task → Notice → Prop where
  | mk {s x s' pc' n} (stepped : PcStep s x.pc s' pc' n) :
      Step s x s' ⟨pc', x.held + (s.sem - s'.sem), (x.pc ≠ .idle ∧ x.touched) ∨ s'.ring ≠ s.ring,
        x.returned ++ x.pc.ended⟩ n

def program : Program Shared Task Notice := ⟨Step, fun n x => { x with pc := x.pc.notify n }⟩

def loaded (ι : Type*) (g : Geometry) (mem : Int → UInt8) : Config Shared Task ι :=
  ⟨⟨start g mem, 1, []⟩, fun _ => ⟨.idle, 0, False, []⟩⟩

/-! ### The semaphore -/

/-- One while the task is between a down and the matching up. -/
def Pc.depth : Pc → Nat
  | .test _ | .up _ | .copy _ | .bump _ | .wrap _ | .release _ | .fault => 1
  | _ => 0

theorem notify_of_depth {n : Notice} {x : Pc} (inside : 0 < x.depth) : x.notify n = x := by
  cases x <;> cases n <;> first | rfl | exact absurd inside (Nat.lt_irrefl 0)

@[simp] theorem depth_notify (n : Notice) (x : Pc) : (x.notify n).depth = x.depth := by
  cases n <;> cases x <;> first | rfl | (rename_i r _ _; cases r <;> rfl)

theorem step_depth {s s' : Shared} {x x' : Pc} {n : Notice} (stepped : PcStep s x s' x' n) :
    (x'.depth : Int) = x.depth + (s.sem - s'.sem) := by
  cases stepped <;> simp [Pc.depth]

theorem depth_le_one (x : Pc) : x.depth ≤ 1 := by
  cases x <;> simp [Pc.depth]

variable {ι : Type*} [DecidableEq ι] {g : Geometry} {mem : Int → UInt8} {c : Config Shared Task ι}

theorem held_depth (reachable : program.Reachable (loaded ι g mem) c) (t : ι) :
    (c.task t).held = (c.task t).pc.depth := by
  refine reachable.local_invariant (A := fun _ x => x.held = x.pc.depth) (fun _ => rfl) ?_ ?_ t
  · intro c t s' x' n _ before stepped
    cases stepped with
    | mk stepped => rw [step_depth stepped, before]
  · intro c t u s' x' n _ _ _ before _
    simpa [program] using before

/-! ### The history -/

/-- The call run alone. -/
def Req.perform (d : Sdev) (fault : Nat) : Req → Option Done
  | .read nonblock len => sdevRead d nonblock len fault
  | .write nonblock data => sdevWrite d nonblock data fault
  | .poll => some (sdevPoll d)

/-- `History g mem log d`: the calls of `log`, run one after the other from `start`, return what
`log` says and leave the device `d`. -/
inductive History (g : Geometry) (mem : Int → UInt8) : List Entry → Sdev → Prop where
  | start : History g mem [] (start g mem)
  | call {log d d' e} : History g mem log d →
      e.req.perform d e.fault = some ⟨.ok e.ret, e.delivered, d'⟩ → History g mem (log ++ [e]) d'

theorem History.within {log : List Entry} {d : Sdev} (history : History g mem log d) : Within d := by
  induction history with
  | start => exact start_within g mem
  | @call log d d' e _ performed within =>
    obtain ⟨req, fault, ret, delivered⟩ := e
    cases req with
    | read nonblock len =>
      simp only [Req.perform] at performed
      by_cases empty : d.rp = d.wp
      · rw [sdevRead_empty empty] at performed
        split at performed <;> cases performed
      · rw [sdevRead_ready empty] at performed
        cases performed
        exact within_afterRead within len
    | write nonblock data =>
      simp only [Req.perform] at performed
      rw [sdevWrite_ready within] at performed
      cases performed
      exact within_afterWrite within data _
    | poll =>
      cases performed
      exact within

/-- How the ring stands to the device `d` of the history while a task is inside: what the task has
still to do to the ring turns it into `d`. -/
def Stage (d ring : Sdev) : Pc → Prop
  | .copy r => ring = d ∧ ¬ r.Blocked ring
  | .bump e => Within ring ∧ ¬ e.req.Blocked ring ∧ e.req.settle (e.req.advance ring e.ret) = d
  | .wrap e => (∀ nonblock len, e.req = .read nonblock len → ring.wp < ring.bufEnd) ∧ e.req.settle ring = d
  | .fault => False
  | _ => ring = d

theorem stage_step {s s' : Shared} {x x' : Pc} {n : Notice} {d : Sdev} (stepped : PcStep s x s' x' n)
    (inside : 0 < x.depth) (history : History g mem s.log d) (stage : Stage d s.ring x) :
    ∃ d', History g mem s'.log d' ∧ (0 < x'.depth → Stage d' s'.ring x') ∧ (x'.depth = 0 → s'.ring = d') := by
  have within := history.within
  cases stepped with
  | mustWait r blocked => exact ⟨d, history, fun _ => stage, fun _ => stage⟩
  | readReady nonblock len ready => exact ⟨d, history, fun _ => ⟨stage, ready⟩, fun _ => stage⟩
  | writeReady nonblock data ready => exact ⟨d, history, fun _ => ⟨stage, ready⟩, fun _ => stage⟩
  | pollMask =>
    have same : s.ring = d := stage
    exact ⟨d, history.call (by rw [same]; rfl), fun _ => stage, fun _ => stage⟩
  | up r => exact ⟨d, history, fun _ => stage, fun _ => stage⟩
  | copyToUser nonblock len fault count left e counted missed fine entry =>
    obtain ⟨same, ready⟩ := stage
    subst same counted missed entry
    exact ⟨_, history.call (sdevRead_ready ready nonblock len fault), fun _ => ⟨within, ready, rfl⟩,
      fun none => absurd none Nat.one_ne_zero⟩
  | copyToUserFails nonblock len fault left missed negative => exact absurd negative (Nat.not_lt_zero _)
  | copyFromUser nonblock data fault count left e counted missed fine entry =>
    obtain ⟨same, ready⟩ := stage
    subst same counted missed entry
    exact ⟨_, history.call (sdevWrite_ready within nonblock data fault),
      fun _ => ⟨⟨within.rp_low, within.rp_high, within.wp_low, within.wp_high⟩, ready, rfl⟩,
      fun none => absurd none Nat.one_ne_zero⟩
  | copyFromUserFails nonblock data fault count left counted missed negative =>
    obtain ⟨same, _⟩ := stage
    have bound := (writeCount_le within data.length).2
    have size := d.fits
    have span := d.span
    have low := within.wp_low
    rw [same] at counted
    rw [toInt32_of_range (by omega) (by omega)] at negative
    omega
  | bump e =>
    obtain ⟨bounds, _, settled⟩ := stage
    refine ⟨d, history, fun _ => ⟨?_, settled⟩, fun none => absurd none Nat.one_ne_zero⟩
    intro nonblock len read
    rw [read]
    exact bounds.wp_high
  | wrap e => exact ⟨d, history, fun _ => stage.2, fun _ => stage.2⟩
  | release e => exact ⟨d, history, fun _ => stage, fun _ => stage⟩
  | faultUp => exact absurd stage id
  | _ => exact absurd inside (Nat.lt_irrefl 0)

theorem outside_step {s s' : Shared} {x x' : Pc} {n : Notice} (stepped : PcStep s x s' x' n)
    (outside : x.depth = 0) :
    s'.ring = s.ring ∧ s'.log = s.log ∧ (x'.depth = 0 ∨ 0 < s.sem ∧ ∃ r, x' = .test r) := by
  cases stepped with
  | down r free => exact ⟨rfl, rfl, Or.inr ⟨free, r, rfl⟩⟩
  | redown r free => exact ⟨rfl, rfl, Or.inr ⟨free, r, rfl⟩⟩
  | _ => first | exact ⟨rfl, rfl, Or.inl rfl⟩ | exact absurd outside Nat.one_ne_zero

def guard (g : Geometry) (mem : Int → UInt8) : Guard Shared Task Sdev where
  sem s := s.sem
  depth x := x.pc.depth
  history s d := History g mem s.log d
  stage d s x := Stage d s.ring x.pc
  settled d s := s.ring = d

theorem guard_sound : (guard g mem).Sound program where
  inside := by
    intro s x s' x' n d stepped inside _ history stage
    cases stepped with
    | mk stepped =>
      have inside : 0 < x.pc.depth := inside
      have counted := step_depth stepped
      obtain ⟨d', history', still, left⟩ := stage_step stepped inside history stage
      refine ⟨?_, (depth_le_one _).trans inside, d', history', still, left⟩
      simp only [guard]
      omega
  outside := by
    intro s x s' x' n stepped outside
    cases stepped with
    | mk stepped =>
      have outside : x.pc.depth = 0 := outside
      have counted := step_depth stepped
      obtain ⟨ring, log, still | ⟨free, r, rfl⟩⟩ := outside_step stepped outside
      · refine Or.inl ⟨?_, still, ?_⟩
        · constructor <;> simp only [guard, ring, log] <;> exact id
        · simp only [guard]
          omega
      · refine Or.inr ⟨free, rfl, ?_, fun history settled => ?_⟩
        · have entered : Pc.depth (.test r) = 1 := rfl
          simp only [guard]
          omega
        · exact ⟨by simpa only [guard, log] using history, ring.trans settled⟩
  depth_notify n y := depth_notify n y.pc
  stage_notify := by
    intro d s n y inside stage
    show Stage d s.ring (y.pc.notify n)
    rwa [notify_of_depth inside]

variable [Fintype ι]

theorem guarded (reachable : program.Reachable (loaded ι g mem) c) : (guard g mem).Guarded c := by
  have initial : ∃ d, (guard g mem).history (loaded ι g mem).shared d ∧
      (guard g mem).settled d (loaded ι g mem).shared := ⟨_, .start, rfl⟩
  exact reachable.guarded guard_sound rfl (fun _ => rfl) initial

theorem sem_depth (reachable : program.Reachable (loaded ι g mem) c) :
    c.shared.sem + (∑ t, (c.task t).pc.depth : Nat) = 1 :=
  (guarded reachable).balance

theorem sem_held (reachable : program.Reachable (loaded ι g mem) c) :
    c.shared.sem + ∑ t, (c.task t).held = 1 := by
  rw [Finset.sum_congr rfl fun t _ => held_depth reachable t, ← Nat.cast_sum]
  exact sem_depth reachable

/-- The log is a sequential history, and the ring is the device it leaves up to what the task
inside has still to do. -/
theorem serial (reachable : program.Reachable (loaded ι g mem) c) :
    ∃ d, History g mem c.shared.log d ∧
      (∀ t, 0 < (c.task t).pc.depth → Stage d c.shared.ring (c.task t).pc) ∧
      ((∀ t, (c.task t).pc.depth = 0) → c.shared.ring = d) :=
  (guarded reachable).serial

theorem within_at_test (reachable : program.Reachable (loaded ι g mem) c) {t : ι} {r : Req}
    (testing : (c.task t).pc = .test r) : Within c.shared.ring := by
  obtain ⟨d, history, stages, _⟩ := serial reachable
  have stage := stages t
  rw [testing] at stage
  have same : c.shared.ring = d := stage Nat.one_pos
  rw [same]
  exact history.within

theorem no_fault (reachable : program.Reachable (loaded ι g mem) c) (t : ι) : (c.task t).pc ≠ .fault := by
  obtain ⟨d, _, stages, _⟩ := serial reachable
  intro fault
  have stage := stages t
  rw [fault] at stage
  exact stage Nat.one_pos

/-! ### Failed calls -/

/-- Where a call that has changed the ring can be. -/
def Pc.Committed : Pc → Prop
  | .bump _ | .wrap _ | .release _ | .wake _ | .fault | .returned (.ok _) | .idle => True
  | _ => False

omit [DecidableEq ι] [Fintype ι] in
theorem committed_step {s s' : Shared} {x x' : Pc} {n : Notice} (stepped : PcStep s x s' x' n)
    (sound : x ≠ .fault) (changed : (x ≠ .idle ∧ x.Committed) ∨ s'.ring ≠ s.ring) : x'.Committed := by
  rcases changed with ⟨busy, committed⟩ | changed
  · cases stepped <;> trivial
  · cases stepped <;> trivial

theorem committed_of_touched (reachable : program.Reachable (loaded ι g mem) c) (t : ι)
    (touched : (c.task t).touched) : (c.task t).pc.Committed := by
  refine reachable.local_invariant (A := fun _ x => x.touched → x.pc.Committed) ?_ ?_ ?_ t touched
  · intro t _
    trivial
  · intro c t s' x' n reachable before stepped touched
    cases stepped with
    | mk stepped =>
      exact committed_step stepped (no_fault reachable t) (touched.imp_left fun same => ⟨same.1, before same.2⟩)
  · intro c t u s' x' n _ _ _ yours _ touched
    have earlier := yours touched
    show ((c.task u).pc.notify n).Committed
    generalize (c.task u).pc = x at earlier
    cases x <;> first | exact absurd earlier id | (cases n <;> exact earlier)

/-! ### Serialisation -/

/-- The call that is past its last critical section's copy and has not returned. -/
def Pc.inflight : Pc → List Entry
  | .bump e | .wrap e | .release e | .wake e => [e]
  | _ => []

/-- The ring once the task has done what it has still to do to it. -/
def Pc.settled (ring : Sdev) : Pc → Sdev
  | .bump e => e.req.settle (e.req.advance ring e.ret)
  | .wrap e => e.req.settle ring
  | _ => ring

theorem inflight_notify (n : Notice) (x : Pc) : (x.notify n).inflight = x.inflight := by
  cases n <;> cases x <;> first | rfl | (rename_i r _ _; cases r <;> rfl)

theorem step_log {s s' : Shared} {x x' : Pc} {n : Notice} (stepped : PcStep s x s' x' n) :
    ∃ more, s'.log = s.log ++ more ∧ x.ended ++ x'.inflight = x.inflight ++ more := by
  cases stepped <;> first | exact ⟨[], (List.append_nil _).symm, rfl⟩ | exact ⟨_, rfl, rfl⟩

theorem log_tracked (reachable : program.Reachable (loaded ι g mem) c) :
    (c.shared.log : Multiset Entry) =
      ∑ t, (((c.task t).returned ++ (c.task t).pc.inflight : List Entry) : Multiset Entry) := by
  refine reachable.tracked (fun s : Shared => (s.log : Multiset Entry))
    (fun x : Task => ((x.returned ++ x.pc.inflight : List Entry) : Multiset Entry)) ?_ ?_ ?_
  · simp [loaded, Pc.inflight]
  · intro s x s' x' n stepped
    cases stepped with
    | mk stepped =>
      obtain ⟨more, log, own⟩ := step_log stepped
      refine ⟨(more : Multiset Entry), by rw [log, Multiset.coe_add], ?_⟩
      rw [Multiset.coe_add, List.append_assoc, own, List.append_assoc]
  · intro n x
    simp [program, inflight_notify]

theorem settled_of_stage {d ring : Sdev} {x : Pc} (stage : Stage d ring x) : x.settled ring = d := by
  cases x with
  | copy r => exact stage.1
  | bump e => exact stage.2.2
  | wrap e => exact stage.2
  | fault => exact absurd stage id
  | _ => exact stage

omit [Fintype ι] in
theorem held_cases (reachable : program.Reachable (loaded ι g mem) c) (t : ι) :
    ((c.task t).held = 0 ∧ (c.task t).pc.depth = 0) ∨ ((c.task t).held = 1 ∧ 0 < (c.task t).pc.depth) := by
  have held := held_depth reachable t
  have most := depth_le_one (c.task t).pc
  omega

theorem count_held (reachable : program.Reachable (loaded ι g mem) c) :
    (c.count (fun x => x.held = 1) : Int) = ∑ t, (c.task t).held := by
  rw [count_eq_sum, Nat.cast_sum]
  apply Finset.sum_congr rfl
  intro t _
  rcases held_cases reachable t with ⟨out, _⟩ | ⟨inside, _⟩
  · rw [out]
    rfl
  · rw [inside]
    rfl

/-- The calls are serialised. The semaphore and the tasks inside make one; no return path leaves
with it; only the task inside changes the ring; a failed call has not changed it; and the ring is,
up to what the task inside has still to do, what the successful calls leave when they run one after
the other in the order of their last critical sections. -/
theorem calls_serialised (reachable : program.Reachable (loaded ι g mem) c) :
    c.shared.sem + c.count (fun x => x.held = 1) = 1 ∧
    (∀ t, (c.task t).held = 0 ∨ (c.task t).held = 1) ∧
    (∀ t ret, (c.task t).pc = .returned ret → (c.task t).held = 0) ∧
    (∀ t s' x' n, program.step c.shared (c.task t) s' x' n → s'.ring ≠ c.shared.ring → (c.task t).held = 1) ∧
    (∀ t e, (c.task t).pc = .returned (.error e) → ¬ (c.task t).touched) ∧
    (∃ d, History g mem c.shared.log d ∧
      (∀ t, (c.task t).held = 1 → (c.task t).pc.settled c.shared.ring = d) ∧
      ((∀ t, (c.task t).held = 0) → c.shared.ring = d)) ∧
    (c.shared.log : Multiset Entry) =
      ∑ t, (((c.task t).returned ++ (c.task t).pc.inflight : List Entry) : Multiset Entry) := by
  have held := held_cases reachable
  refine ⟨?_, ?_, ?_, ?_, ?_, ?_, log_tracked reachable⟩
  · rw [count_held reachable]
    exact sem_held reachable
  · intro t
    exact (held t).imp And.left And.left
  · intro t ret returned
    rw [held_depth reachable t, returned]
    rfl
  · intro t s' x' n stepped changed
    rcases held t with ⟨_, outside⟩ | ⟨inside, _⟩
    · cases stepped with
      | mk stepped => exact absurd (outside_step stepped outside).1 changed
    · exact inside
  · intro t e returned touched
    have committed := committed_of_touched reachable t touched
    rw [returned] at committed
    exact committed
  · obtain ⟨d, history, stages, alone⟩ := serial reachable
    refine ⟨d, history, ?_, ?_⟩
    · intro t inside
      rcases held t with ⟨out, _⟩ | ⟨_, depth⟩
      · omega
      · exact settled_of_stage (stages t depth)
    · intro outside
      apply alone
      intro t
      rcases held t with ⟨_, depth⟩ | ⟨inside, _⟩
      · exact depth
      · have out := outside t
        omega

theorem notify_none (x : Task) : program.notify .none x = x := rfl

theorem refuse_alone {s : Shared} (free : 0 < s.sem) (empty : s.ring.rp = s.ring.wp) (len : Nat) {x : Task}
    (idle : x.pc = .idle) :
    ∃ x', program.Solo s x { s with sem := s.sem - 1 + 1 } x' ∧ x'.pc = .returned (.error .EAGAIN) := by
  obtain ⟨pc, held, touched, returned⟩ := x
  cases idle
  exact ⟨_, .step _ (.mk (.call s (.read true len))) notify_none <|
    .step _ (.mk (.down s _ free)) notify_none <|
    .step _ (.mk (.mustWait _ _ empty)) notify_none <|
    .step _ (.mk (.up _ _)) notify_none <|
    .step _ (.mk (.wouldBlock _ _ rfl)) notify_none <| .refl _ _, rfl⟩

theorem copy_alone {s : Shared} (free : 0 < s.sem) (space : haveSpace s.ring ≠ 0) (data : List UInt8) {x : Task}
    (idle : x.pc = .idle) :
    ∃ s' x' e, program.Solo s x s' x' ∧ x'.pc = .bump e ∧ e.req = .write false data := by
  obtain ⟨pc, held, touched, returned⟩ := x
  cases idle
  exact ⟨_, _, _, .step _ (.mk (.call s (.write false data))) notify_none <|
    .step _ (.mk (.down s _ free)) notify_none <|
    .step _ (.mk (.writeReady _ _ _ space)) notify_none <|
    .step _ (.mk (.copyFromUser _ _ _ 0 _ _ _ rfl rfl (by simp [toInt32]) rfl)) notify_none <| .refl _ _, rfl, rfl⟩

/-- A non-blocking read of the empty ring has failed and a write of three bytes is inside, with the
copy made and the pointer still to move. -/
theorem calls_serialised_read_write :
    ∃ c : Config Shared Task (Fin 2), program.Reachable (loaded (Fin 2) devGeometry fun _ => 0) c ∧
      (c.task 0).pc = .returned (.error .EAGAIN) ∧ ¬ (c.task 0).touched ∧ (c.task 1).held = 1 ∧
      c.shared.sem + c.count (fun x => x.held = 1) = 1 := by
  have start : program.Reachable (loaded (Fin 2) devGeometry fun _ => 0) (loaded _ _ _) := .init
  obtain ⟨x₁, first, refused⟩ := refuse_alone (s := (loaded (Fin 2) devGeometry fun _ => 0).shared)
    (by decide) rfl 8 (x := (loaded (Fin 2) devGeometry fun _ => 0).task 0) rfl
  obtain ⟨c₁, reached₁, shared₁, own₁, same₁⟩ := start.solo 0 first
  obtain ⟨s₂, x₂, e, second, inside, _⟩ := copy_alone (s := c₁.shared) (by rw [shared₁]; decide)
    (by rw [shared₁]; decide) [1, 2, 3] (x := c₁.task 1) (by rw [same₁ 1 (by decide)]; rfl)
  obtain ⟨c₂, reached₂, _, own₂, same₂⟩ := reached₁.solo 1 second
  have serialised := calls_serialised reached₂
  have failed : (c₂.task 0).pc = .returned (.error .EAGAIN) := by rw [same₂ 0 (by decide), own₁, refused]
  refine ⟨c₂, reached₂, failed, serialised.2.2.2.2.1 0 _ failed, ?_, serialised.1⟩
  rw [held_depth reached₂ 1, own₂, inside]
  rfl

end Ldd3.Scullb.Tasks
