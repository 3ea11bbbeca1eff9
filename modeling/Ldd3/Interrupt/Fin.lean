import Ldd3.Base.Fifo
import Ldd3.Base.Ring
import Ldd3.Base.Words

/-!
The ring of `interrupt/fin.c`; `interrupt/finopage.c` has the same code. `sdev_write` looks only at
the distance from `wp` to the physical end and never at `rp`, so a write may run over unread bytes
or come to stand on `rp`, which encodes an empty ring.

A call is one critical section under `sem`. Its copy misses `fault` bytes, or all; what a copy from
the user misses is filled with zeros. A call that does not complete, because the semaphore is taken
or because there is nothing to read, is `none`. A failed copy returns without `up`.
-/

namespace Ldd3.Interrupt

open Base.Cells Base.Fifo Base.Ring Base.Words

-- the fields that only `start` sets
structure Geometry where
  buf : Int
  bufEnd : Int
  two_le : buf + 2 ≤ bufEnd
  fits : bufEnd - buf < 2 ^ 64

/-- The buffer of `SSIZE` bytes. -/
def ssizeGeometry : Geometry where
  buf := 0
  bufEnd := 40
  two_le := by decide
  fits := by decide

structure Sdev extends Geometry where
  wp : Int
  rp : Int
  sem : Int
  mem : Int → UInt8

def start (g : Geometry) (mem : Int → UInt8) : Sdev :=
  { g with wp := g.buf, rp := g.buf, sem := 1, mem := mem }

def haveRead (d : Sdev) : Nat :=
  if d.rp < d.wp then toU64 (d.wp - d.rp) else if d.rp = d.wp then 0 else toU64 (d.bufEnd - d.rp)

def down (d : Sdev) : Sdev := { d with sem := d.sem - 1 }

def up (d : Sdev) : Sdev := { d with sem := d.sem + 1 }

structure Done where
  ret : Except Errno Nat
  delivered : List UInt8
  dev : Sdev

def readCount (d : Sdev) (len : Nat) : Nat := min (min (haveRead d) len) (toU64 (d.bufEnd - d.rp))

def bumpRp (d : Sdev) (count : Nat) : Sdev := { d with rp := advance d.buf d.bufEnd d.rp count }

def sdevRead (d : Sdev) (signal : Bool) (len fault : Nat) : Option Done :=
  if d.sem ≤ 0 then
    if signal then some ⟨.error .ERESTARTSYS, [], d⟩ else none
  else if haveRead d = 0 then none
  else
    let count := readCount d len
    let left := min fault count
    if left < 0 then some ⟨.error .EAGAIN, fetch d.mem d.rp (count - left), down d⟩
    else some ⟨.ok count, fetch d.mem d.rp (count - left), up (bumpRp (down d) count)⟩

def writeCount (d : Sdev) (len : Nat) : Nat := min len (toU64 (d.bufEnd - d.wp))

def copyFromUser (d : Sdev) (data : List UInt8) (count left : Nat) : Sdev :=
  { d with mem := blit d.mem d.wp (data.take (count - left) ++ List.replicate left 0) }

def bumpWp (d : Sdev) (count : Nat) : Sdev := { d with wp := advance d.buf d.bufEnd d.wp count }

def sdevWrite (d : Sdev) (signal : Bool) (data : List UInt8) (fault : Nat) : Option Done :=
  if d.sem ≤ 0 then
    if signal then some ⟨.error .ERESTARTSYS, [], d⟩ else none
  else
    let count := writeCount d data.length
    let left := min fault count
    -- the result of the copy goes through the `int` variable `err`
    if toInt32 left < 0 then some ⟨.error .EAGAIN, [], copyFromUser (down d) data count left⟩
    else some ⟨.ok count, [], up (bumpWp (copyFromUser (down d) data count left) count)⟩

def unread (d : Sdev) : List UInt8 := held d.mem d.buf d.bufEnd d.rp d.wp

structure Within (d : Sdev) : Prop where
  rp_low : d.buf ≤ d.rp
  rp_high : d.rp < d.bufEnd
  wp_low : d.buf ≤ d.wp
  wp_high : d.wp < d.bufEnd

variable {d : Sdev}

theorem start_within (g : Geometry) (mem : Int → UInt8) : Within (start g mem) := by
  have size := g.two_le
  constructor <;> simp only [start] <;> omega

theorem haveRead_ahead (h : Within d) (ahead : d.rp < d.wp) : haveRead d = (d.wp - d.rp).toNat := by
  have size := d.fits
  obtain ⟨rpLow, _, _, wpHigh⟩ := h
  rw [haveRead, if_pos ahead, toU64_of_range (by omega) (by omega)]

theorem haveRead_behind (h : Within d) (behind : d.wp < d.rp) :
    haveRead d = (d.bufEnd - d.rp).toNat := by
  have size := d.fits
  obtain ⟨rpLow, rpHigh, _, _⟩ := h
  rw [haveRead, if_neg (by omega), if_neg (by omega), toU64_of_range (by omega) (by omega)]

theorem haveRead_zero_iff (h : Within d) : haveRead d = 0 ↔ d.rp = d.wp := by
  have high := h.rp_high
  rcases Int.lt_trichotomy d.rp d.wp with ahead | empty | behind
  · rw [haveRead_ahead h ahead]
    omega
  · rw [haveRead, if_neg (by omega), if_pos empty]
    exact ⟨fun _ => empty, fun _ => rfl⟩
  · rw [haveRead_behind h behind]
    omega

theorem readCount_le (h : Within d) (ready : d.rp ≠ d.wp) (len : Nat) :
    d.rp + readCount d len ≤ if d.rp ≤ d.wp then d.wp else d.bufEnd := by
  have high := h.rp_high
  rw [readCount]
  rcases Int.lt_or_gt_of_ne ready with ahead | behind
  · rw [haveRead_ahead h ahead, if_pos ahead.le]
    omega
  · rw [haveRead_behind h behind, if_neg (by omega)]
    omega

theorem writeCount_eq (h : Within d) (len : Nat) :
    writeCount d len = min len (d.bufEnd - d.wp).toNat := by
  have size := d.fits
  obtain ⟨_, _, wpLow, wpHigh⟩ := h
  rw [writeCount, toU64_of_range (by omega) (by omega)]

theorem bumpRp_within (h : Within d) {count : Nat} (bound : d.rp + count ≤ d.bufEnd) :
    Within (bumpRp d count) := by
  have range := advance_range h.rp_low h.rp_high bound
  exact ⟨range.1, range.2, h.wp_low, h.wp_high⟩

theorem bumpWp_within (h : Within d) {count : Nat} (bound : d.wp + count ≤ d.bufEnd) :
    Within (bumpWp d count) := by
  have range := advance_range h.wp_low h.wp_high bound
  exact ⟨h.rp_low, h.rp_high, range.1, range.2⟩

/-! ### What a call returns -/

theorem sdevRead_ready (free : 0 < d.sem) (ready : haveRead d ≠ 0) (signal : Bool) (len fault : Nat) :
    sdevRead d signal len fault = some ⟨.ok (readCount d len),
      fetch d.mem d.rp (readCount d len - min fault (readCount d len)),
      bumpRp d (readCount d len)⟩ := by
  have released : up (bumpRp (down d) (readCount d len)) = bumpRp d (readCount d len) := by
    simp [up, bumpRp, down]
  simp [sdevRead, ready, released, Int.not_le.mpr free]

theorem sdevWrite_whole (free : 0 < d.sem) (signal : Bool) (data : List UInt8) :
    sdevWrite d signal data 0 = some ⟨.ok (writeCount d data.length), [],
      bumpWp (copyFromUser d data (writeCount d data.length) 0) (writeCount d data.length)⟩ := by
  simp [sdevWrite, Int.not_le.mpr free, toInt32, up, bumpWp, copyFromUser, down]

theorem sdevRead_cases {signal : Bool} {len fault : Nat} {done : Done} (called : sdevRead d signal len fault = some done) :
    (d.sem ≤ 0 ∧ done = ⟨.error .ERESTARTSYS, [], d⟩) ∨
      (0 < d.sem ∧ haveRead d ≠ 0 ∧ done = ⟨.ok (readCount d len),
        fetch d.mem d.rp (readCount d len - min fault (readCount d len)), bumpRp d (readCount d len)⟩) := by
  by_cases taken : d.sem ≤ 0
  · rw [sdevRead, if_pos taken] at called
    cases signal with
    | false => cases called
    | true => exact Or.inl ⟨taken, (Option.some.inj called).symm⟩
  · by_cases none : haveRead d = 0
    · rw [sdevRead, if_neg taken, if_pos none] at called
      cases called
    · rw [sdevRead_ready (by omega) none] at called
      exact Or.inr ⟨by omega, none, (Option.some.inj called).symm⟩

/-- A write that is granted the semaphore succeeds, unless its copy misses so much that the number is
negative as an `int`; then it keeps the semaphore. -/
theorem sdevWrite_cases {signal : Bool} {data : List UInt8} {fault : Nat} {done : Done}
    (called : sdevWrite d signal data fault = some done) :
    let count := writeCount d data.length
    (d.sem ≤ 0 ∧ done = ⟨.error .ERESTARTSYS, [], d⟩) ∨
      (0 < d.sem ∧ 2 ^ 31 ≤ fault ∧
        done = ⟨.error .EAGAIN, [], down (copyFromUser d data count (min fault count))⟩) ∨
      (0 < d.sem ∧ done = ⟨.ok count, [], bumpWp (copyFromUser d data count (min fault count)) count⟩) := by
  by_cases taken : d.sem ≤ 0
  · rw [sdevWrite, if_pos taken] at called
    cases signal with
    | false => cases called
    | true => exact Or.inl ⟨taken, (Option.some.inj called).symm⟩
  · simp only [sdevWrite, if_neg taken] at called
    split at called
    · rename_i negative
      have missed : 2 ^ 31 ≤ fault := by
        by_contra few
        rw [toInt32_of_range (by omega) (by omega)] at negative
        omega
      exact Or.inr (Or.inl ⟨by omega, missed, (Option.some.inj called).symm⟩)
    · refine Or.inr (Or.inr ⟨by omega, (Option.some.inj called).symm.trans ?_⟩)
      simp only [up, bumpWp, copyFromUser, down, Int.sub_add_cancel]

/-! ### The ring as a queue -/

-- the calls of users whose copies succeed
inductive Call where
  | read (signal : Bool) (len : Nat)
  | write (signal : Bool) (data : List UInt8)

def Call.perform (d : Sdev) (fault : Nat) : Call → Option Done
  | .read signal len => sdevRead d signal len fault
  | .write signal data => sdevWrite d signal data fault

def Call.accepted : Call → Except Errno Nat → List UInt8
  | .write _ data, .ok count => data.take count
  | _, _ => []

def pipe : Pipe Sdev Call UInt8 where
  call d c := (c.perform d 0).map fun done => ⟨done.dev, done.delivered, c.accepted done.ret⟩
  held := unread

/-- The write does not leave a cell free. -/
def Overruns (d : Sdev) : Call → Prop
  | .read _ _ => False
  | .write _ data =>
    d.bufEnd - d.buf ≤ (unread d).length + min (data.length : Int) (d.bufEnd - d.wp)

def Good (d : Sdev) : Prop := Within d ∧ d.sem = 1

theorem pipe_read {signal : Bool} {len : Nat} {done : Outcome Sdev UInt8} (good : Good d)
    (called : pipe.call d (.read signal len) = some done) :
    d.rp ≠ d.wp ∧ done = ⟨bumpRp d (readCount d len), fetch d.mem d.rp (readCount d len), []⟩ := by
  obtain ⟨h, free⟩ := good
  obtain ⟨result, performed, rfl⟩ := Option.map_eq_some_iff.mp called
  rw [Call.perform] at performed
  by_cases empty : d.rp = d.wp
  · have none := (haveRead_zero_iff h).mpr empty
    simp [sdevRead, free, none] at performed
  · have ready : haveRead d ≠ 0 := fun none => empty ((haveRead_zero_iff h).mp none)
    rw [sdevRead_ready (by omega) ready] at performed
    cases performed
    simp [empty, Call.accepted]

theorem pipe_write (good : Good d) (signal : Bool) (data : List UInt8) :
    pipe.call d (.write signal data) = some
      ⟨bumpWp (copyFromUser d data (writeCount d data.length) 0) (writeCount d data.length), [],
        data.take (writeCount d data.length)⟩ := by
  simp only [pipe, Call.perform]
  rw [sdevWrite_whole (by rw [good.2]; omega)]
  rfl

theorem length_accepted (data : List UInt8) :
    (data.take (writeCount d data.length)).length = writeCount d data.length := by
  rw [List.length_take, Nat.min_eq_left]
  exact Nat.min_le_left _ _

theorem unread_write (data : List UInt8) :
    unread (bumpWp (copyFromUser d data (writeCount d data.length) 0) (writeCount d data.length)) =
      held (blit d.mem d.wp (data.take (writeCount d data.length))) d.buf d.bufEnd d.rp
        (advance d.buf d.bufEnd d.wp (data.take (writeCount d data.length)).length) := by
  rw [length_accepted]
  simp [unread, bumpWp, copyFromUser]

theorem pipe_lawful : Lawful pipe Good Overruns where
  good_step := by
    rintro d (⟨signal, len⟩ | ⟨signal, data⟩) done good _ called
    · obtain ⟨ready, rfl⟩ := pipe_read good called
      refine ⟨bumpRp_within good.1 ?_, good.2⟩
      have bound := readCount_le good.1 ready len
      have high := good.1.wp_high
      split at bound <;> omega
    · rw [pipe_write good] at called
      cases called
      refine ⟨bumpWp_within (d := copyFromUser d data _ 0) ?_ ?_, good.2⟩
      · exact ⟨good.1.rp_low, good.1.rp_high, good.1.wp_low, good.1.wp_high⟩
      · have high := good.1.wp_high
        rw [writeCount_eq good.1]
        simp only [copyFromUser]
        omega
  keeps := by
    rintro d (⟨signal, len⟩ | ⟨signal, data⟩) done good clean called
    · obtain ⟨ready, rfl⟩ := pipe_read good called
      simp only [List.append_nil]
      exact held_take good.1.wp_low good.1.wp_high (readCount_le good.1 ready len)
    · rw [pipe_write good] at called
      cases called
      have high := good.1.wp_high
      have room : ((unread d).length : Int) + (data.take (writeCount d data.length)).length <
          d.bufEnd - d.buf := by
        rw [length_accepted, writeCount_eq good.1]
        simp only [Overruns] at clean
        omega
      change unread d ++ _ = [] ++ unread _
      rw [unread_write, List.nil_append]
      exact (held_put good.1.rp_low good.1.rp_high good.1.wp_low room).symm
  broken := by
    rintro d (⟨signal, len⟩ | ⟨signal, data⟩) good lost
    · exact absurd lost id
    · refine ⟨_, pipe_write good signal data, ?_⟩
      change unread d ++ _ ≠ [] ++ unread _
      rw [unread_write, List.nil_append]
      intro same
      -- a whole turn of the ring is missing
      have high := good.1.wp_high
      have size := d.two_le
      have counted : (writeCount d data.length : Int) = min (data.length : Int) (d.bufEnd - d.wp) := by
        rw [writeCount_eq good.1]
        omega
      simp only [Overruns, ← counted] at lost
      have turn := length_held_overrun (m := d.mem)
        (blit d.mem d.wp (data.take (writeCount d data.length))) good.1.rp_low good.1.rp_high good.1.wp_low
        (by omega) lost
      have lengths := congrArg List.length same
      rw [length_accepted, List.length_append, length_accepted] at lengths
      simp only [unread] at lengths
      omega

def started (g : Geometry) (mem : Int → UInt8) : Flow Sdev UInt8 := ⟨start g mem, [], []⟩

/-- The ring is a queue after every prefix of a run exactly if every write of the run leaves a cell
free. -/
theorem fifo_iff_cell_free (g : Geometry) (mem : Int → UInt8) (calls : List Call) :
    (∀ prior f, prior <+: calls → run pipe (started g mem) prior = some f →
        f.given ++ unread f.state = f.taken) ↔
      Never pipe Overruns (started g mem) calls := by
  have good : Good (started g mem).state := ⟨start_within g mem, rfl⟩
  have law : Law pipe (started g mem) := by simp [Law, started, pipe, unread, start]
  exact pipe_lawful.law_iff_never good law

/-- One write of 40 bytes: all are accepted and none can be read. -/
theorem full_write_lost :
    ∃ f, run pipe (started ssizeGeometry fun _ => 0) [.write false (List.replicate 40 97)] = some f ∧
      f.given = [] ∧ unread f.state = [] ∧ f.taken.length = 40 ∧
      f.given ++ unread f.state ≠ f.taken := by
  exact ⟨_, rfl, rfl, rfl, rfl, by decide⟩

end Ldd3.Interrupt
