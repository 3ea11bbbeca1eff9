import Ldd3.Interrupt.Fin
import Ldd3.Scullb.Space

/-!
Copies that miss bytes, in the ring of `scullb` and in the one of `fin.c`. `copy_to_user` and
`copy_from_user` return how many bytes they missed, an unsigned number, and all four callers test it
with `< 0`. So a call goes on as if everything had been copied: a read removes bytes nobody got, and
a write adds the zeros that stand for bytes it did not get. Only a `fin.c` buffer of `2^31` bytes and
more can make the `int` in `sdev_write` negative, and that path returns with the semaphore taken.
-/

namespace Ldd3.Interrupt

open Base.Ring Base.Runs Base.Words

-- what both devices have in common; `free` says that the semaphore can be taken
structure Snapshot where
  buf : Int
  bufEnd : Int
  rp : Int
  wp : Int
  unread : List UInt8
  free : Bool

-- every path of the two `scullb` calls releases the semaphore
def ofScullb (d : Scullb.Sdev) : Snapshot := ⟨d.buf, d.bufEnd, d.rp, d.wp, Scullb.unread d, true⟩

def ofFin (d : Sdev) : Snapshot := ⟨d.buf, d.bufEnd, d.rp, d.wp, unread d, decide (0 < d.sem)⟩

/-- A read of `count` bytes whose copy misses `missed` of them fails and changes nothing, or takes
what it delivered. -/
structure ReadSafe (count missed : Nat) (ret : Except Errno Nat) (delivered : List UInt8)
    (s s' : Snapshot) : Prop where
  outcome :
    ((∃ e, ret = .error e) ∧ s'.rp = s.rp ∧ s'.wp = s.wp ∧ s'.unread = s.unread) ∨
    (ret = .ok (count - missed) ∧ s'.rp = advance s.buf s.bufEnd s.rp (count - missed) ∧ s'.wp = s.wp)
  removed : ∃ taken, s.unread = taken ++ s'.unread ∧ taken <+: delivered
  released : s'.free = true

/-- A write fails and changes nothing, or adds what it obtained. -/
structure WriteSafe (count missed : Nat) (ret : Except Errno Nat) (obtained : List UInt8)
    (s s' : Snapshot) : Prop where
  outcome :
    ((∃ e, ret = .error e) ∧ s'.rp = s.rp ∧ s'.wp = s.wp ∧ s'.unread = s.unread) ∨
    (ret = .ok (count - missed) ∧ s'.wp = advance s.buf s.bufEnd s.wp (count - missed) ∧ s'.rp = s.rp)
  added : ∃ fresh, s'.unread = s.unread ++ fresh ∧ fresh <+: obtained
  released : s'.free = true

theorem outcome_not_safe {count missed : Nat} {failed moved : Prop} (positive : 0 < missed)
    (bound : missed ≤ count) :
    ¬ (((∃ e, (.ok count : Except Errno Nat) = .error e) ∧ failed) ∨
      ((.ok count : Except Errno Nat) = .ok (count - missed) ∧ moved)) := by
  rintro (⟨⟨_, same⟩, _⟩ | ⟨same, _⟩)
  · cases same
  · have := Except.ok.inj same
    omega

/-! ### Runs with faults on the ring of `fin.c` -/

variable {d : Sdev}

def serve (d : Sdev) (requests : List (Call × Nat)) : Option Sdev :=
  requests.foldlM (fun d r => (r.1.perform d r.2).map Done.dev) d

theorem perform_sem {d : Sdev} {c : Call} {fault : Nat} {done : Done} (bound : d.sem ≤ 1)
    (performed : c.perform d fault = some done) : done.dev.sem ≤ 1 := by
  cases c with
  | read signal len =>
    rcases sdevRead_cases performed with ⟨_, rfl⟩ | ⟨_, _, rfl⟩ <;> exact bound
  | write signal data =>
    rcases sdevWrite_cases performed with ⟨_, rfl⟩ | ⟨_, _, rfl⟩ | ⟨_, rfl⟩
    · exact bound
    · simp only [down, copyFromUser]
      omega
    · exact bound

theorem serve_sem {d d' : Sdev} {requests : List (Call × Nat)} (bound : d.sem ≤ 1)
    (served : serve d requests = some d') : d'.sem ≤ 1 := by
  refine foldlM_invariant (I := fun d : Sdev => d.sem ≤ 1) ?_ bound served
  intro d r d' bound stepped
  obtain ⟨done, performed, rfl⟩ := Option.map_eq_some_iff.mp stepped
  exact perform_sem bound performed

theorem readCount_end (h : Within d) (ready : haveRead d ≠ 0) (len : Nat) : d.rp + readCount d len ≤ d.bufEnd := by
  have bound := readCount_le h (fun same => ready ((haveRead_zero_iff h).mpr same)) len
  have high := h.wp_high
  split at bound <;> omega

theorem writeCount_end (h : Within d) (len : Nat) : d.wp + writeCount d len ≤ d.bufEnd := by
  have high := h.wp_high
  rw [writeCount_eq h]
  omega

theorem perform_within {c : Call} {fault : Nat} {done : Done} (h : Within d)
    (performed : c.perform d fault = some done) : Within done.dev ∧ done.dev.toGeometry = d.toGeometry := by
  cases c with
  | read signal len =>
    rcases sdevRead_cases performed with ⟨_, rfl⟩ | ⟨_, ready, rfl⟩
    · exact ⟨h, rfl⟩
    · exact ⟨bumpRp_within h (readCount_end h ready len), rfl⟩
  | write signal data =>
    rcases sdevWrite_cases performed with ⟨_, rfl⟩ | ⟨_, _, rfl⟩ | ⟨_, rfl⟩
    · exact ⟨h, rfl⟩
    · exact ⟨⟨h.rp_low, h.rp_high, h.wp_low, h.wp_high⟩, rfl⟩
    · have moved := bumpWp_within h (writeCount_end h data.length)
      exact ⟨⟨moved.rp_low, moved.rp_high, moved.wp_low, moved.wp_high⟩, rfl⟩

theorem serve_within {g : Geometry} {mem : Int → UInt8} {requests : List (Call × Nat)}
    (served : serve (start g mem) requests = some d) : Within d ∧ d.toGeometry = g := by
  refine foldlM_invariant (I := fun d : Sdev => Within d ∧ d.toGeometry = g) ?_ ⟨start_within g mem, rfl⟩ served
  rintro d r d' ⟨h, same⟩ stepped
  obtain ⟨done, performed, rfl⟩ := Option.map_eq_some_iff.mp stepped
  obtain ⟨h', same'⟩ := perform_within h performed
  exact ⟨h', same'.trans same⟩

/-! ### The four calls -/

theorem scullb_read_not_safe {d : Scullb.Sdev} (ready : d.rp ≠ d.wp) (nonblock : Bool) {len missed : Nat}
    (positive : 0 < missed) (bound : missed ≤ Scullb.readCount d len) :
    ∃ done, Scullb.sdevRead d nonblock len missed = some done ∧
      ¬ ReadSafe (Scullb.readCount d len) missed done.ret done.delivered (ofScullb d)
        (ofScullb done.dev) :=
  ⟨_, Scullb.sdevRead_ready ready nonblock len missed,
    fun isSafe => outcome_not_safe positive bound isSafe.outcome⟩

theorem scullb_write_not_safe {d : Scullb.Sdev} (h : Scullb.Within d) (nonblock : Bool)
    {data : List UInt8} {missed : Nat} (positive : 0 < missed)
    (bound : missed ≤ Scullb.writeCount d data.length) :
    ∃ done, Scullb.sdevWrite d nonblock data missed = some done ∧
      ¬ WriteSafe (Scullb.writeCount d data.length) missed done.ret
        (data.take (Scullb.writeCount d data.length - missed)) (ofScullb d) (ofScullb done.dev) :=
  ⟨_, Scullb.sdevWrite_ready h nonblock data missed,
    fun isSafe => outcome_not_safe positive bound isSafe.outcome⟩

theorem fin_read_not_safe {d : Sdev} (free : 0 < d.sem) (ready : haveRead d ≠ 0) (signal : Bool)
    {len missed : Nat} (positive : 0 < missed) (bound : missed ≤ readCount d len) :
    ∃ done, sdevRead d signal len missed = some done ∧
      ¬ ReadSafe (readCount d len) missed done.ret done.delivered (ofFin d) (ofFin done.dev) :=
  ⟨_, sdevRead_ready free ready signal len missed,
    fun isSafe => outcome_not_safe positive bound isSafe.outcome⟩

theorem fin_write_not_safe {d : Sdev} (free : d.sem = 1) (signal : Bool) {data : List UInt8}
    {missed : Nat} (positive : 0 < missed) (bound : missed ≤ writeCount d data.length) :
    ∃ done, sdevWrite d signal data missed = some done ∧
      ¬ WriteSafe (writeCount d data.length) missed done.ret
        (data.take (writeCount d data.length - missed)) (ofFin d) (ofFin done.dev) := by
  simp only [sdevWrite, Nat.min_eq_left bound]
  rw [if_neg (by omega)]
  split
  · -- the semaphore was 1 and nobody gives it back
    refine ⟨_, rfl, fun isSafe => ?_⟩
    have released := isSafe.released
    simp [ofFin, copyFromUser, down, free] at released
  · exact ⟨_, rfl, fun isSafe => outcome_not_safe positive bound isSafe.outcome⟩

/-- A copy that misses bytes is never handled safely, in any ring that calls can reach. -/
theorem faulting_copy_never_safe (mem : Int → UInt8) (missed : Nat) (positive : 0 < missed) :
    (∀ g requests d, Scullb.serve (Scullb.start g mem) requests = some d →
      (∀ nonblock len, d.rp ≠ d.wp → missed ≤ Scullb.readCount d len →
        ∃ done, Scullb.sdevRead d nonblock len missed = some done ∧
          ¬ ReadSafe (Scullb.readCount d len) missed done.ret done.delivered (ofScullb d)
            (ofScullb done.dev)) ∧
      (∀ nonblock (data : List UInt8), missed ≤ Scullb.writeCount d data.length →
        ∃ done, Scullb.sdevWrite d nonblock data missed = some done ∧
          ¬ WriteSafe (Scullb.writeCount d data.length) missed done.ret
            (data.take (Scullb.writeCount d data.length - missed)) (ofScullb d) (ofScullb done.dev))) ∧
    (∀ g requests d, serve (start g mem) requests = some d → 0 < d.sem →
      (∀ signal len, haveRead d ≠ 0 → missed ≤ readCount d len →
        ∃ done, sdevRead d signal len missed = some done ∧
          ¬ ReadSafe (readCount d len) missed done.ret done.delivered (ofFin d) (ofFin done.dev)) ∧
      (∀ signal (data : List UInt8), missed ≤ writeCount d data.length →
        ∃ done, sdevWrite d signal data missed = some done ∧
          ¬ WriteSafe (writeCount d data.length) missed done.ret
            (data.take (writeCount d data.length - missed)) (ofFin d) (ofFin done.dev))) := by
  refine ⟨fun g requests d served => ⟨?_, ?_⟩, fun g requests d served free => ⟨?_, ?_⟩⟩
  · intro nonblock len ready bound
    exact scullb_read_not_safe ready nonblock positive bound
  · intro nonblock data bound
    have within := Scullb.serve_within (Scullb.start_within g mem) served
    exact scullb_write_not_safe within nonblock positive bound
  · intro signal len ready bound
    exact fin_read_not_safe free ready signal positive bound
  · intro signal data bound
    have taken := serve_sem (by simp [start]) served
    exact fin_write_not_safe (by omega) signal positive bound

theorem faulting_write_of_three :
    ∃ done, sdevWrite (start ssizeGeometry fun _ => 0) false [97, 98, 99] 2 = some done ∧
      ¬ WriteSafe 3 2 done.ret [97] (ofFin (start ssizeGeometry fun _ => 0)) (ofFin done.dev) :=
  ((faulting_copy_never_safe (fun _ => 0) 2 (by decide)).2 ssizeGeometry [] _ rfl (by decide)).2
    false [97, 98, 99] (by decide)

/-- Five bytes are in the pipe and a read of them misses two: it returns 5, the user has 3 and the
pipe is empty. -/
theorem two_bytes_lost :
    ∃ d done, Scullb.serve (Scullb.start Scullb.devGeometry fun _ => 0)
        [.write true [97, 98, 99, 100, 101] 0] = some d ∧
      Scullb.sdevRead d true 5 2 = some done ∧ done.ret = .ok 5 ∧ done.delivered = [97, 98, 99] ∧
      Scullb.unread done.dev = [] ∧
      ¬ ReadSafe 5 2 done.ret done.delivered (ofScullb d) (ofScullb done.dev) := by
  refine ⟨_, _, rfl, rfl, rfl, rfl, rfl, fun isSafe => ?_⟩
  exact outcome_not_safe (show 0 < 2 by decide) (show 2 ≤ 5 by decide) isSafe.outcome

end Ldd3.Interrupt
