import Ldd3.Base.Fifo
import Ldd3.Scullb.Ring

/-!
The pipe as a queue of bytes. A read takes its bytes from the front of the unread range. A write
appends its bytes, unless it fills the buffer from a `wp` past `rp` to the physical end while `rp`
is at `buf`: then `wp` wraps onto `rp`, which encodes an empty ring, and every unread byte is lost.
`have_space` lets such a write through because it returns the number of unread bytes where free
space is meant.

A run is a sequence of calls that all complete; its flow is the device with everything that the calls
returned and accepted so far.
-/

namespace Ldd3.Scullb

open Base.Cells Base.Fifo Base.Ring Base.Words

variable {d : Sdev}

def Overruns (d : Sdev) (len : Nat) : Prop :=
  d.rp = d.buf ∧ d.buf < d.wp ∧ d.bufEnd - d.wp ≤ len ∧ d.bufEnd - d.wp ≤ d.wp - d.buf

instance (d : Sdev) (len : Nat) : Decidable (Overruns d len) := by
  unfold Overruns
  infer_instance

/-! ### One call -/

theorem readCount_run (h : Within d) (ready : d.rp ≠ d.wp) (len : Nat) :
    d.rp + readCount d len ≤ if d.rp ≤ d.wp then d.wp else d.bufEnd := by
  rcases Int.lt_or_gt_of_ne ready with ahead | behind
  · rw [readCount_ahead h ahead, if_pos ahead.le]
    omega
  · have high := h.rp_high
    rw [readCount_behind h behind.le, if_neg (by omega)]
    omega

theorem unread_afterRead (h : Within d) (ready : d.rp ≠ d.wp) (len : Nat) :
    unread d = fetch d.mem d.rp (readCount d len) ++ unread (afterRead d (readCount d len)) := by
  rw [unread_eq, unread_eq, afterRead_eq]
  exact held_take h.wp_low h.wp_high (readCount_run h ready len)

/-- An overrun is a write that leaves no cell of the ring free. -/
theorem overruns_iff (h : Within d) (len : Nat) :
    Overruns d len ↔ d.bufsize ≤ (unread d).length + (writeCount d len : Int) := by
  have span := d.span
  have size := d.two_le
  have bounds := h
  obtain ⟨rpLow, rpHigh, wpLow, wpHigh⟩ := bounds
  unfold Overruns
  rcases Int.lt_trichotomy d.rp d.wp with ahead | empty | behind
  · have count := writeCount_ahead h ahead.le len
    rw [haveSpace_ahead h ahead] at count
    rw [length_unread_ahead ahead.le]
    omega
  · have count := writeCount_ahead h empty.le len
    rw [haveSpace_empty empty.symm] at count
    rw [length_unread_ahead empty.le]
    omega
  · have count := writeCount_behind h behind len
    rw [length_unread_behind h behind]
    omega

theorem length_accepted (h : Within d) (data : List UInt8) :
    (data.take (writeCount d data.length)).length = writeCount d data.length := by
  rw [List.length_take, Nat.min_eq_left (writeCount_le h data.length).1]

theorem unread_written (h : Within d) (data : List UInt8) :
    unread (afterWrite d data (writeCount d data.length) 0) =
      held (blit d.mem d.wp (data.take (writeCount d data.length))) d.buf d.bufEnd d.rp
        (advance d.buf d.bufEnd d.wp (data.take (writeCount d data.length)).length) := by
  rw [unread_eq, afterWrite_eq, copyFromUser_whole, length_accepted h]

theorem unread_afterWrite (h : Within d) (data : List UInt8) (clean : ¬ Overruns d data.length) :
    unread (afterWrite d data (writeCount d data.length) 0) =
      unread d ++ data.take (writeCount d data.length) := by
  have span := d.span
  rw [overruns_iff h, unread_eq] at clean
  rw [unread_written h]
  exact held_put h.rp_low h.rp_high h.wp_low (by rw [length_accepted h]; omega)

theorem length_unread_overrun (h : Within d) (data : List UInt8) (overruns : Overruns d data.length) :
    (unread (afterWrite d data (writeCount d data.length) 0)).length <
      (unread d).length + writeCount d data.length := by
  have span := d.span
  have size := d.two_le
  have bound := (writeCount_le h data.length).2
  rw [overruns_iff h, unread_eq] at overruns
  have turn := length_held_overrun (m := d.mem) (blit d.mem d.wp (data.take (writeCount d data.length)))
    h.rp_low h.rp_high h.wp_low bound (by omega)
  rw [unread_written h, length_accepted h, unread_eq]
  omega

/-! ### The pipe as a queue -/

-- the calls of users whose copies succeed
inductive Call where
  | read (nonblock : Bool) (len : Nat)
  | write (nonblock : Bool) (data : List UInt8)

def Call.perform (d : Sdev) : Call → Option Done
  | .read nonblock len => sdevRead d nonblock len 0
  | .write nonblock data => sdevWrite d nonblock data 0

def Call.accepted : Call → Except Errno Nat → List UInt8
  | .write _ data, .ok count => data.take count
  | _, _ => []

def pipe : Pipe Sdev Call UInt8 where
  call d c := (c.perform d).map fun done => ⟨done.dev, done.delivered, c.accepted done.ret⟩
  held := unread

def Call.Loses (d : Sdev) : Call → Prop
  | .read _ _ => False
  | .write _ data => Overruns d data.length

theorem pipe_read {nonblock : Bool} {len : Nat} {done : Outcome Sdev UInt8}
    (called : pipe.call d (.read nonblock len) = some done) :
    done = ⟨d, [], []⟩ ∨
      d.rp ≠ d.wp ∧ done = ⟨afterRead d (readCount d len), fetch d.mem d.rp (readCount d len), []⟩ := by
  obtain ⟨result, performed, rfl⟩ := Option.map_eq_some_iff.mp called
  rw [Call.perform] at performed
  by_cases empty : d.rp = d.wp
  · rw [sdevRead_empty empty] at performed
    cases nonblock <;> simp at performed
    subst performed
    exact Or.inl rfl
  · rw [sdevRead_ready empty] at performed
    cases performed
    exact Or.inr ⟨empty, by simp [Call.accepted]⟩

theorem pipe_write (h : Within d) (nonblock : Bool) (data : List UInt8) :
    pipe.call d (.write nonblock data) = some
      ⟨afterWrite d data (writeCount d data.length) 0, [], data.take (writeCount d data.length)⟩ := by
  simp only [pipe, Call.perform]
  rw [sdevWrite_ready h, Nat.zero_min]
  rfl

theorem pipe_lawful : Lawful pipe Within Call.Loses where
  good_step := by
    rintro d (⟨nonblock, len⟩ | ⟨nonblock, data⟩) done h _ called
    · rcases pipe_read called with rfl | ⟨_, rfl⟩
      · exact h
      · exact within_afterRead h len
    · rw [pipe_write h] at called
      cases called
      exact within_afterWrite h data 0
  keeps := by
    rintro d (⟨nonblock, len⟩ | ⟨nonblock, data⟩) done h clean called
    · rcases pipe_read called with rfl | ⟨ready, rfl⟩
      · exact List.append_nil _
      · simp only [List.append_nil]
        exact unread_afterRead h ready len
    · rw [pipe_write h] at called
      cases called
      exact (unread_afterWrite h data clean).symm
  broken := by
    rintro d (⟨nonblock, len⟩ | ⟨nonblock, data⟩) h lost
    · exact absurd lost id
    · refine ⟨_, pipe_write h nonblock data, fun same => ?_⟩
      -- what the write reported as accepted exceeds what is left
      have fewer := length_unread_overrun h data lost
      have lengths := congrArg List.length same
      simp only [List.length_append, List.length_nil, length_accepted h, pipe] at lengths
      omega

def started (g : Geometry) (mem : Int → UInt8) : Flow Sdev UInt8 := ⟨start g mem, [], []⟩

/-- The pipe is a queue after every prefix of a run exactly if no write of the run overruns. -/
theorem fifo_iff_noOverrun (g : Geometry) (mem : Int → UInt8) (calls : List Call) :
    (∀ prior f, prior <+: calls → run pipe (started g mem) prior = some f →
        f.given ++ unread f.state = f.taken) ↔
      Never pipe Call.Loses (started g mem) calls := by
  have within : Within (started g mem).state := start_within g mem
  have law : Law pipe (started g mem) := by simp [Law, started, pipe, unread, start]
  exact pipe_lawful.law_iff_never within law

/-- Two writes of 21 bytes: both are accepted in full, nothing was read and nothing is left to
read. -/
theorem two_half_writes_lost :
    ∃ f, run pipe (started devGeometry fun _ => 0)
        [.write false (List.replicate 21 97), .write false (List.replicate 21 98)] = some f ∧
      f.given = [] ∧ unread f.state = [] ∧ f.taken.length = 42 ∧ f.given ++ unread f.state ≠ f.taken := by
  exact ⟨_, rfl, rfl, rfl, rfl, by decide⟩

end Ldd3.Scullb
