import Ldd3.Base.Runs
import Ldd3.Scullb.Ring

/-!
What `have_space` promises and what `sdev_write` does. In every ring that calls can reach from
`start`, `have_space` is the number of unread bytes, or `bufsize - 1` when there are none; it is
never the free space, except by coincidence, and never zero. So `sdev_poll` always reports the
device as writable and `sdev_write` never waits. With `wp` right behind `rp` it then accepts nothing
and returns 0, and elsewhere it may accept less than fits, or one byte more.

The users here may fault: every request carries the number of bytes its copy misses.
-/

namespace Ldd3.Scullb

open Base.Runs Base.Words

inductive Request where
  | read (nonblock : Bool) (len fault : Nat)
  | write (nonblock : Bool) (data : List UInt8) (fault : Nat)

def Request.perform (d : Sdev) : Request → Option Done
  | .read nonblock len fault => sdevRead d nonblock len fault
  | .write nonblock data fault => sdevWrite d nonblock data fault

-- a run is a sequence of requests that all complete
def serve (d : Sdev) (requests : List Request) : Option Sdev :=
  requests.foldlM (fun d r => (r.perform d).map Done.dev) d

theorem perform_within {d : Sdev} {r : Request} {done : Done} (h : Within d)
    (performed : r.perform d = some done) : Within done.dev := by
  cases r with
  | read nonblock len fault =>
    by_cases empty : d.rp = d.wp
    · rw [Request.perform, sdevRead_empty empty] at performed
      cases nonblock <;> simp at performed
      subst performed
      exact h
    · rw [Request.perform, sdevRead_ready empty] at performed
      cases performed
      exact within_afterRead h len
  | write nonblock data fault =>
    rw [Request.perform, sdevWrite_ready h] at performed
    cases performed
    exact within_afterWrite h data _

theorem serve_within {d d' : Sdev} {requests : List Request} (h : Within d)
    (served : serve d requests = some d') : Within d' := by
  refine foldlM_invariant ?_ h served
  intro d r d' h stepped
  obtain ⟨done, performed, rfl⟩ := Option.map_eq_some_iff.mp stepped
  exact perform_within h performed

variable {d : Sdev}

theorem haveSpace_unread (h : Within d) (ready : d.rp ≠ d.wp) :
    haveSpace d = ((unread d).length : Int) := by
  rcases Int.lt_or_gt_of_ne ready with ahead | behind
  · rw [haveSpace_ahead h ahead, length_unread_ahead ahead.le]
  · rw [haveSpace_behind h behind, length_unread_behind h behind]
    omega

theorem unread_nil_iff (h : Within d) : (unread d).length = 0 ↔ d.rp = d.wp := by
  have span := d.span
  obtain ⟨rpLow, rpHigh, wpLow, wpHigh⟩ := h
  by_cases ahead : d.rp ≤ d.wp
  · have count := length_unread_ahead ahead
    omega
  · have count := length_unread_behind ⟨rpLow, rpHigh, wpLow, wpHigh⟩ (Int.not_le.mp ahead)
    omega

/-! ### Polling -/

-- `POLLIN` is bit 0 and `POLLOUT` is bit 2
def pollIn (d : Sdev) : Prop := (pollMask d).testBit 0

def pollOut (d : Sdev) : Prop := (pollMask d).testBit 2

theorem pollIn_iff : pollIn d ↔ d.rp ≠ d.wp := by
  unfold pollIn pollMask
  by_cases ready : d.rp ≠ d.wp <;> by_cases space : haveSpace d ≠ 0 <;> simp [ready, space]

theorem pollOut_always (h : Within d) : pollOut d := by
  have space : haveSpace d ≠ 0 := by have := (haveSpace_range h).1; omega
  unfold pollOut pollMask
  by_cases ready : d.rp ≠ d.wp <;> simp [ready, space] <;> decide

/-- The answer of a call that is not to block, against what was polled before it. -/
structure Agrees (polled : Prop) (ret : Option (Except Errno Nat)) : Prop where
  some_iff : polled ↔ ∃ count, 1 ≤ count ∧ ret = some (.ok count)
  otherwise : ¬ polled → ret = some (.error .EAGAIN)
  not_zero : ret ≠ some (.ok 0)

structure PollAgrees (d : Sdev) : Prop where
  read : ∀ len fault, 0 < len →
    Agrees (pollIn d) ((sdevRead (sdevPoll d).dev true len fault).map Done.ret)
  write : ∀ data fault, 0 < data.length →
    Agrees (pollOut d) ((sdevWrite (sdevPoll d).dev true data fault).map Done.ret)

theorem agrees_some {polled : Prop} {count : Nat} (yes : polled) (positive : 1 ≤ count) :
    Agrees polled (some (.ok count)) where
  some_iff := ⟨fun _ => ⟨count, positive, rfl⟩, fun _ => yes⟩
  otherwise no := absurd yes no
  not_zero same := by cases same; omega

theorem agrees_again {polled : Prop} (no : ¬ polled) : Agrees polled (some (.error .EAGAIN)) where
  some_iff := ⟨fun yes => absurd yes no, fun ⟨_, _, same⟩ => by cases same⟩
  otherwise _ := rfl
  not_zero same := by cases same

theorem readCount_pos (h : Within d) (ready : d.rp ≠ d.wp) {len : Nat} (positive : 0 < len) :
    1 ≤ readCount d len := by
  rcases Int.lt_or_gt_of_ne ready with ahead | behind
  · rw [readCount_ahead h ahead]
    omega
  · have high := h.rp_high
    rw [readCount_behind h behind.le]
    omega

theorem writeCount_pos_iff (h : Within d) {len : Nat} (positive : 0 < len) :
    1 ≤ writeCount d len ↔ d.wp + 1 ≠ d.rp := by
  have space := (haveSpace_range h).1
  have high := h.wp_high
  by_cases ahead : d.rp ≤ d.wp
  · rw [writeCount_ahead h ahead]
    omega
  · rw [writeCount_behind h (Int.not_le.mp ahead)]
    omega

theorem read_agrees (h : Within d) {len : Nat} (fault : Nat) (positive : 0 < len) :
    Agrees (pollIn d) ((sdevRead (sdevPoll d).dev true len fault).map Done.ret) := by
  change Agrees (pollIn d) ((sdevRead d true len fault).map Done.ret)
  by_cases empty : d.rp = d.wp
  · rw [sdevRead_empty empty]
    exact agrees_again fun polled => pollIn_iff.mp polled empty
  · rw [sdevRead_ready empty]
    exact agrees_some (pollIn_iff.mpr empty) (readCount_pos h empty positive)

theorem write_agrees_iff (h : Within d) {data : List UInt8} (fault : Nat) (positive : 0 < data.length) :
    Agrees (pollOut d) ((sdevWrite (sdevPoll d).dev true data fault).map Done.ret) ↔
      d.wp + 1 ≠ d.rp := by
  change Agrees (pollOut d) ((sdevWrite d true data fault).map Done.ret) ↔ _
  rw [sdevWrite_ready h, ← writeCount_pos_iff h positive]
  constructor
  · intro agrees
    obtain ⟨count, atLeast, same⟩ := agrees.some_iff.mp (pollOut_always h)
    cases same
    exact atLeast
  · exact agrees_some (pollOut_always h)

/-- `sdev_poll` agrees with the calls that follow it exactly if `wp` is not right behind `rp`. -/
theorem pollAgrees_iff (g : Geometry) (mem : Int → UInt8) (requests : List Request)
    (served : serve (start g mem) requests = some d) : PollAgrees d ↔ d.wp + 1 ≠ d.rp := by
  have h := serve_within (start_within g mem) served
  constructor
  · intro agrees
    exact (write_agrees_iff h 0 (by decide)).mp (agrees.write [0] 0 (by decide))
  · intro apart
    exact ⟨fun _ fault positive => read_agrees h fault positive,
      fun _ fault positive => (write_agrees_iff h fault positive).mpr apart⟩

-- the ring of 42 bytes, filled to one byte below `rp`
def filling : List Request :=
  [.write true (List.replicate 41 97) 0, .read true 10 0, .write true [98] 0,
    .write true (List.replicate 9 99) 0]

theorem pollAgrees_filling :
    ∃ d, serve (start devGeometry fun _ => 0) (filling.take 3) = some d ∧ PollAgrees d :=
  ⟨_, rfl, (pollAgrees_iff devGeometry (fun _ => 0) (filling.take 3) rfl).mpr (by decide)⟩

/-- The device polls as writable and takes no byte of a write. -/
theorem poll_then_nothing_written :
    ∃ d, serve (start devGeometry fun _ => 0) filling = some d ∧ pollMask d = 0x145 ∧
      (sdevWrite d true [100] 0).map Done.ret = some (.ok 0) ∧ ¬ PollAgrees d := by
  refine ⟨_, rfl, rfl, rfl, fun agrees => ?_⟩
  exact (agrees.write [100] 0 (by decide)).not_zero rfl

/-! ### How much a write accepts -/

-- the free cells from `wp` on, one cell being kept empty
def freeRun (d : Sdev) : Int :=
  if d.wp < d.rp then d.rp - d.wp - 1
  else if d.buf < d.rp then d.bufEnd - d.wp else d.bufEnd - d.wp - 1

structure AcceptsAll (d : Sdev) (data : List UInt8) : Prop where
  count : ∀ nonblock fault accepted, (sdevWrite d nonblock data fault).map Done.ret = some (.ok accepted) →
    (accepted : Int) = min (data.length : Int) (freeRun d)
  waits : ∀ fault, sdevWrite d false data fault = none ↔ freeRun d = 0
  again : ∀ fault, (sdevWrite d true data fault).map Done.ret = some (.error .EAGAIN) ↔ freeRun d = 0

/-- When the count of unread bytes may stand for the free space. -/
def SpaceSuffices (d : Sdev) (len : Nat) : Prop :=
  (unread d).length = 0 ∨
    freeRun d ≠ 0 ∧ min (len : Int) (freeRun d) ≤ (unread d).length ∧
      (d.rp = d.buf → min len (unread d).length ≤ freeRun d)

theorem writeCount_iff (h : Within d) (len : Nat) :
    freeRun d ≠ 0 ∧ (writeCount d len : Int) = min (len : Int) (freeRun d) ↔ SpaceSuffices d len := by
  have span := d.span
  have size := d.two_le
  have bounds := h
  obtain ⟨rpLow, rpHigh, wpLow, wpHigh⟩ := bounds
  unfold SpaceSuffices
  rcases Int.lt_trichotomy d.rp d.wp with ahead | empty | behind
  · have count := length_unread_ahead ahead.le
    have accepted := writeCount_ahead h ahead.le len
    rw [haveSpace_ahead h ahead] at accepted
    rw [freeRun, if_neg (by omega)]
    split <;> omega
  · have count := (unread_nil_iff h).mpr empty
    have accepted := writeCount_ahead h empty.le len
    rw [haveSpace_empty empty.symm] at accepted
    rw [freeRun, if_neg (by omega)]
    split <;> omega
  · have count := length_unread_behind h behind
    have accepted := writeCount_behind h behind len
    rw [haveSpace_behind h behind] at accepted
    rw [freeRun, if_pos behind]
    omega

theorem acceptsAll_iff (h : Within d) (data : List UInt8) :
    AcceptsAll d data ↔ SpaceSuffices d data.length := by
  rw [← writeCount_iff h]
  have ready := sdevWrite_ready h
  constructor
  · intro accepts
    refine ⟨fun full => ?_, accepts.count true 0 _ (by rw [ready]; rfl)⟩
    have waiting := (accepts.waits 0).mpr full
    rw [ready] at waiting
    cases waiting
  · rintro ⟨space, count⟩
    refine ⟨fun nonblock fault accepted returned => ?_, fun fault => ?_, fun fault => ?_⟩
    · rw [ready] at returned
      cases returned
      exact count
    · rw [ready]
      exact ⟨fun waiting => (by cases waiting), fun full => absurd full space⟩
    · rw [ready]
      exact ⟨fun refused => (by cases refused), fun full => absurd full space⟩

theorem haveSpace_free_iff (h : Within d) :
    haveSpace d = d.bufsize - 1 - (unread d).length ↔
      (unread d).length = 0 ∨ 2 * ((unread d).length : Int) = d.bufsize - 1 := by
  by_cases ready : d.rp = d.wp
  · have none := (unread_nil_iff h).mpr ready
    rw [haveSpace_empty ready.symm]
    omega
  · have some : (unread d).length ≠ 0 := fun none => ready ((unread_nil_iff h).mp none)
    rw [haveSpace_unread h ready]
    omega

/-- A write accepts all that fits, and waits exactly if nothing does, only where the number of
unread bytes can stand for the free space. `have_space` is the free space of an empty ring and of
one that is half full. -/
theorem accepts_all_that_fits_iff (g : Geometry) (mem : Int → UInt8) (requests : List Request)
    (served : serve (start g mem) requests = some d) :
    (∀ data, AcceptsAll d data ↔ SpaceSuffices d data.length) ∧
      (haveSpace d = d.bufsize - 1 - (unread d).length ↔
        (unread d).length = 0 ∨ 2 * ((unread d).length : Int) = d.bufsize - 1) := by
  have h := serve_within (start_within g mem) served
  exact ⟨acceptsAll_iff h, haveSpace_free_iff h⟩

/-- Half of the ring is filled. -/
theorem accepts_all_when_half_full :
    ∃ d, serve (start devGeometry fun _ => 0) [.write true (List.replicate 21 97) 0] = some d ∧
      (unread d).length = 21 ∧ freeRun d = 20 ∧ AcceptsAll d (List.replicate 5 98) := by
  have both := accepts_all_that_fits_iff devGeometry (fun _ => 0) [.write true (List.replicate 21 97) 0] rfl
  exact ⟨_, rfl, rfl, rfl, (both.1 _).mpr (Or.inr (by decide))⟩

/-- One unread byte: 40 cells are free, 40 bytes fit in one run and a write of 10 bytes accepts
one. -/
theorem ten_bytes_one_accepted :
    ∃ d, serve (start devGeometry fun _ => 0) [.write true [97] 0] = some d ∧ freeRun d = 40 ∧
      (unread d).length = 1 ∧ haveSpace d = 1 ∧
      (sdevWrite d true (List.replicate 10 98) 0).map Done.ret = some (.ok 1) ∧
      ¬ AcceptsAll d (List.replicate 10 98) := by
  refine ⟨_, rfl, rfl, rfl, rfl, rfl, fun accepts => ?_⟩
  exact absurd (accepts.count true 0 1 rfl) (by decide)

end Ldd3.Scullb
