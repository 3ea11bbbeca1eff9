import Ldd3.RwBlock.Ring

/-!
What a read of the `rw_block` ring returns, and what `flag` tells a reader.

The straight branch of `sdev_read` returns all there is, even to a user who asked for less. The round
branch respects the request but never takes the byte before `write`, so it leaves one byte behind
when it is asked for everything. Both clear `flag` and every write sets it, whatever is left to read
then: after a read that went round, a reader sleeps while bytes are unread, and after a write that
stopped on `read`, one comes through for nothing.
-/

namespace Ldd3.RwBlock

open Base.Cells Base.Ring Base.Runs Base.Words

variable {d : Sdev}

/-! ### The outcomes of a call -/

inductive Reads (d : Sdev) (len : Nat) : Done → Prop where
  | straight (ahead : d.read < d.write) :
      Reads d len ⟨d.write - d.read, fetch d.mem (d.buf + d.read) (d.write - d.read).toNat,
        { d with flag := 0, read := d.write }⟩
  | short (behind : d.write < d.read) (short : (len : Int) < d.size - d.read) :
      Reads d len ⟨len, fetch d.mem (d.buf + d.read) len, { d with flag := 0, read := d.read + len }⟩
  | round (behind : d.write < d.read) (long : d.size - d.read ≤ len) (count : Nat)
      (second : (count : Int) = max (min (len - (d.size - d.read)) (d.write - 1)) 0) :
      Reads d len ⟨d.size - d.read + count,
        fetch d.mem (d.buf + d.read) (d.size - d.read).toNat ++ fetch d.mem d.buf count,
        { d with flag := 0, read := count }⟩
  | empty (same : d.read = d.write) : Reads d len ⟨0, [], { d with flag := 0 }⟩

theorem sdevRead_reads (h : Within d) {signal : Bool} {len : Nat} (limit : len ≤ maxRwCount) {done : Done}
    (called : sdevRead d signal len = some done) : Reads d len done := by
  have bound : len < 2 ^ 64 := (lt_of_limit limit).trans (by decide)
  have cleared := h.setFlag 0
  unfold sdevRead at called
  split at called
  · cases called
  · simp only at called
    split at called
    · rename_i ahead
      rw [readStraight_eq cleared ahead] at called
      cases called
      exact .straight ahead
    · split at called
      · rename_i behind
        by_cases short : (len : Int) < d.size - d.read
        · rw [readRound_short cleared short] at called
          cases called
          exact .short behind short
        · obtain ⟨count, second, round⟩ := readRound_long cleared behind bound (Int.not_lt.mp short)
          rw [round] at called
          cases called
          exact .round behind (Int.not_lt.mp short) count second
      · cases called
        exact .empty (by omega)

theorem sdevRead_waits_iff (d : Sdev) (signal : Bool) (len : Nat) :
    sdevRead d signal len = none ↔ d.flag = 0 ∧ signal = false := by
  unfold sdevRead
  constructor
  · intro called
    split at called
    · assumption
    · simp only at called
      split at called
      · cases called
      · split at called <;> cases called
  · exact fun waits => if_pos waits

-- `write` after a write of `len` bytes: `write + len` in front of the end, and otherwise the length of
-- its second copy, which is cut to `size`
def landing (d : Sdev) (len : Nat) : Int :=
  if (len : Int) < d.size - d.write then d.write + len else min (len - (d.size - d.write)) d.size

theorem sdevWrite_lands (h : Within d) {data : List UInt8} (limit : data.length ≤ maxRwCount) :
    ∃ mem, (sdevWrite d data).dev = { d with flag := 1, mem := mem, write := landing d data.length } := by
  by_cases short : (data.length : Int) < d.size - d.write
  · rw [sdevWrite_straight h short, landing, if_pos short]
    exact ⟨_, rfl⟩
  · obtain ⟨first, second, _, secondEq, done⟩ := sdevWrite_round h (lt_of_limit limit) (Int.not_lt.mp short)
    rw [done, landing, if_neg short, ← secondEq]
    exact ⟨_, rfl⟩

/-! ### Runs of calls -/

-- a run is a sequence of calls that all complete
def serve (d : Sdev) (calls : List Call) : Option Sdev :=
  calls.foldlM (fun d c => (c.perform d).map Done.dev) d

theorem Reads.within (h : Within d) {len : Nat} {done : Done} (reads : Reads d len done) : Within done.dev := by
  obtain ⟨readLow, readHigh, writeLow, writeHigh⟩ := h
  cases reads with
  | straight ahead => exact ⟨writeLow, writeHigh, writeLow, writeHigh⟩
  | short behind short => exact ⟨by simp only; omega, by simp only; omega, writeLow, writeHigh⟩
  | round behind long count second => exact ⟨by simp only; omega, by simp only; omega, writeLow, writeHigh⟩
  | empty same => exact ⟨readLow, readHigh, writeLow, writeHigh⟩

theorem sdevWrite_within (h : Within d) {data : List UInt8} (limit : data.length ≤ maxRwCount) :
    Within (sdevWrite d data).dev := by
  obtain ⟨mem, dev⟩ := sdevWrite_lands h limit
  obtain ⟨readLow, readHigh, writeLow, writeHigh⟩ := h
  have range : 0 ≤ landing d data.length ∧ landing d data.length ≤ d.size := by
    rw [landing]
    split <;> omega
  rw [dev]
  exact ⟨readLow, readHigh, range.1, range.2⟩

theorem perform_within (d : Sdev) (call : Call) (d' : Sdev) (h : Within d)
    (stepped : (call.perform d).map Done.dev = some d') : Within d' := by
  obtain ⟨done, performed, rfl⟩ := Option.map_eq_some_iff.mp stepped
  cases call with
  | read signal len limit => exact (sdevRead_reads h limit performed).within h
  | write data limit =>
    cases performed
    exact sdevWrite_within h limit

theorem serve_within {g : Geometry} {mem : Int → UInt8} {calls : List Call}
    (served : serve (start g mem) calls = some d) : Within d :=
  foldlM_invariant perform_within (start_good g mem).within served

/-! ### How much a read returns -/

/-- A read stays inside the buffer of the user exactly if not more than that much is unread in front
of `write`. -/
theorem read_fits_iff {g : Geometry} {mem : Int → UInt8} {calls : List Call}
    (served : serve (start g mem) calls = some d) (signal : Bool) {len : Nat} (limit : len ≤ maxRwCount)
    {done : Done} (called : sdevRead d signal len = some done) :
    (done.delivered.length ≤ len ∧ done.ret ≤ len) ↔ d.write - d.read ≤ len := by
  have h := serve_within served
  have bounds := h
  obtain ⟨readLow, readHigh, writeLow, writeHigh⟩ := bounds
  cases sdevRead_reads h limit called with
  | straight ahead =>
    simp only [length_fetch]
    omega
  | short behind short =>
    simp only [length_fetch]
    omega
  | round behind long count second =>
    simp only [List.length_append, length_fetch]
    omega
  | empty same =>
    simp only [List.length_nil]
    omega

def threeWritten : List Call := threeBytes.take 1

theorem read_fits_three_bytes :
    ∃ d done, serve (start sdevGeometry fun _ => 0) threeWritten = some d ∧
      sdevRead d false 10 = some done ∧ done.delivered.length ≤ 10 ∧ done.ret ≤ (10 : Nat) := by
  have served : serve (start sdevGeometry fun _ => 0) threeWritten = some _ := rfl
  have limit : 10 ≤ maxRwCount := by decide
  exact ⟨_, _, served, rfl, (read_fits_iff served false limit rfl).mpr (by decide)⟩

/-- Three bytes are unread and one is asked for. -/
theorem read_past_request :
    ∃ d done, serve (start sdevGeometry fun _ => 0) threeWritten = some d ∧
      sdevRead d false 1 = some done ∧ done.delivered = [97, 98, 99] ∧ done.ret = 3 :=
  ⟨_, _, rfl, rfl, rfl, rfl⟩

/-- Asked for everything, a read returns it exactly if it does not have to go on at the bottom of the
buffer. -/
theorem read_drains_iff {g : Geometry} {mem : Int → UInt8} {calls : List Call}
    (served : serve (start g mem) calls = some d) (ready : d.read ≠ d.write) (signal : Bool) {len : Nat}
    (limit : len ≤ maxRwCount)
    (enough : (if d.read < d.write then d.write - d.read else d.size - d.read + d.write) ≤ len) {done : Done}
    (called : sdevRead d signal len = some done) :
    (done.delivered = unread d ∧ done.ret = (unread d).length ∧ done.dev.read = done.dev.write) ↔
      d.read < d.write ∨ d.write = 0 := by
  have h := serve_within served
  have bounds := h
  obtain ⟨readLow, readHigh, writeLow, writeHigh⟩ := bounds
  cases sdevRead_reads h limit called with
  | straight ahead =>
    have span : d.buf + d.write - (d.buf + d.read) = d.write - d.read := by omega
    have all : fetch d.mem (d.buf + d.read) (d.write - d.read).toNat = unread d := by
      rw [unread, held_ahead (by omega), span]
    exact iff_of_true ⟨all, (length_unread_ahead ahead.le).symm, rfl⟩ (Or.inl ahead)
  | short behind short =>
    rw [if_neg (by omega)] at enough
    omega
  | round behind long count second =>
    have counted := length_unread_behind behind readHigh writeLow
    by_cases bottom : d.write = 0
    · have none : count = 0 := by omega
      have span : d.buf + d.size - (d.buf + d.read) = d.size - d.read := by omega
      have all : fetch d.mem (d.buf + d.read) (d.size - d.read).toNat = unread d := by
        rw [unread, held_behind (by omega), bottom, span]
        simp
      refine iff_of_true ⟨?_, by simp only; omega, by simp only; omega⟩ (Or.inr bottom)
      simp only [none, fetch_zero, List.append_nil, all]
    · refine iff_of_false ?_ (by omega)
      rintro ⟨_, returned, _⟩
      simp only at returned
      omega
  | empty same => exact absurd same ready

theorem read_drains_three_bytes :
    ∃ d done, serve (start sdevGeometry fun _ => 0) threeWritten = some d ∧
      sdevRead d false 3 = some done ∧ done.delivered = unread d ∧ done.ret = (unread d).length ∧
      done.dev.read = done.dev.write := by
  have served : serve (start sdevGeometry fun _ => 0) threeWritten = some _ := rfl
  have limit : 3 ≤ maxRwCount := by decide
  exact ⟨_, _, served, rfl,
    (read_drains_iff served (by decide) false limit (by decide) rfl).mpr (Or.inl (by decide))⟩

-- the last write goes round to index 8
def aroundEnd : List Call :=
  [.write (List.replicate 40 97) (by decide), .read false 100 (by decide), .write (List.replicate 10 98) (by decide)]

/-- Ten bytes are unread and a hundred are asked for. -/
theorem read_leaves_byte :
    ∃ d done, serve (start sdevGeometry fun _ => 0) aroundEnd = some d ∧ (unread d).length = 10 ∧
      sdevRead d false 100 = some done ∧ done.ret = 9 ∧ done.dev.read = 7 ∧ done.dev.write = 8 :=
  ⟨_, _, rfl, rfl, rfl, rfl, rfl, rfl⟩

/-! ### What the flag says -/

/-- `flag` is set exactly while there are bytes to read, so that a reader only sleeps when there are
none and gets at least one when it does not have to sleep. -/
structure Tracks (d : Sdev) : Prop where
  flag_iff : d.flag ≠ 0 ↔ d.read ≠ d.write
  sleeps : ∀ len, sdevRead d false len = none → unread d = []
  gets : ∀ len done, 0 < len → len ≤ maxRwCount → d.flag ≠ 0 → sdevRead d false len = some done → 1 ≤ done.ret

/-- With `read` at `size`, a reader of one byte or none at the bottom gets nothing. -/
theorem tracks_iff (h : Within d) :
    Tracks d ↔ (d.flag ≠ 0 ↔ d.read ≠ d.write) ∧ ¬ (d.flag ≠ 0 ∧ d.read = d.size ∧ d.write ≤ 1) := by
  have bounds := h
  obtain ⟨readLow, readHigh, writeLow, writeHigh⟩ := bounds
  constructor
  · intro tracks
    refine ⟨tracks.flag_iff, ?_⟩
    rintro ⟨raised, top, bottom⟩
    cases called : sdevRead d false 1 with
    | none => exact raised ((sdevRead_waits_iff d false 1).mp called).1
    | some done =>
      have got := tracks.gets 1 done Nat.one_pos (by decide) raised called
      cases sdevRead_reads h (by decide) called with
      | straight ahead => omega
      | short behind short => omega
      | round behind long count second =>
        simp only at got
        omega
      | empty same => exact absurd same (tracks.flag_iff.mp raised)
  · rintro ⟨exactly, stuck⟩
    refine ⟨exactly, ?_, ?_⟩
    · intro len called
      have lowered := ((sdevRead_waits_iff d false len).mp called).1
      have same : d.read = d.write := by
        by_contra differs
        exact exactly.mpr differs lowered
      rw [unread, same, held_self]
    · intro len done positive limit raised called
      have differs := exactly.mp raised
      cases sdevRead_reads h limit called with
      | straight ahead => simp only; omega
      | short behind short => simp only; omega
      | round behind long count second =>
        simp only
        by_contra less
        exact stuck ⟨raised, by omega, by omega⟩
      | empty same => exact absurd same differs

/-- The call leaves `flag` right. The index that a write leaves is not `read`, and for a reader at `size`
it is neither 0 nor 1. A read finds its bytes in one piece, or finds `write` at 0 and takes all up to
the end. -/
def Settles (d : Sdev) : Call → Prop
  | .read _ len _ => d.read ≤ d.write ∨ (d.write = 0 ∧ d.size - d.read ≤ len)
  | .write data _ => landing d data.length ≠ d.read ∧ (d.read = d.size → 2 ≤ landing d data.length)

theorem read_tracks_iff (h : Within d) {signal : Bool} {len : Nat} (limit : len ≤ maxRwCount) {done : Done}
    (called : sdevRead d signal len = some done) : Tracks done.dev ↔ Settles d (.read signal len limit) := by
  have reads := sdevRead_reads h limit called
  rw [tracks_iff (reads.within h)]
  cases reads with
  | straight ahead =>
    simp only [Settles]
    omega
  | short behind short =>
    simp only [Settles]
    omega
  | round behind long count second =>
    have writeLow := h.write_low
    simp only [Settles]
    omega
  | empty same =>
    simp only [Settles]
    omega

theorem write_tracks_iff (h : Within d) {data : List UInt8} (limit : data.length ≤ maxRwCount) :
    Tracks (sdevWrite d data).dev ↔ Settles d (.write data limit) := by
  rw [tracks_iff (sdevWrite_within h limit)]
  obtain ⟨mem, dev⟩ := sdevWrite_lands h limit
  rw [dev]
  simp only [Settles]
  omega

theorem perform_tracks_iff (d : Sdev) (call : Call) (d' : Sdev) (h : Within d)
    (stepped : (call.perform d).map Done.dev = some d') : Tracks d' ↔ Settles d call := by
  obtain ⟨done, performed, rfl⟩ := Option.map_eq_some_iff.mp stepped
  cases call with
  | read signal len limit => exact read_tracks_iff h limit performed
  | write data limit =>
    cases performed
    exact write_tracks_iff h limit

theorem start_tracks (g : Geometry) (mem : Int → UInt8) : Tracks (start g mem) :=
  (tracks_iff (start_good g mem).within).mpr ⟨by simp [start], by simp [start]⟩

/-- `flag` is right after every prefix of a run exactly if every call of the run leaves it right. -/
theorem flag_tracks_iff (g : Geometry) (mem : Int → UInt8) (calls : List Call) :
    (∀ prior d, prior <+: calls → serve (start g mem) prior = some d → Tracks d) ↔
      ∀ prior call d d', prior ++ [call] <+: calls → serve (start g mem) prior = some d →
        (call.perform d).map Done.dev = some d' → Settles d call :=
  always_iff perform_within perform_tracks_iff (start_good g mem).within (start_tracks g mem) calls

/-- The read that goes round clears `flag` with a byte left, and the next reader sleeps on it. -/
theorem reader_sleeps_on_byte :
    ∃ d, serve (start sdevGeometry fun _ => 0) (aroundEnd ++ [.read false 100 (by decide)]) = some d ∧
      d.flag = 0 ∧ d.read ≠ d.write ∧ unread d = [98] ∧ sdevRead d false 1 = none ∧ ¬ Tracks d := by
  refine ⟨_, rfl, rfl, by decide, rfl, rfl, fun tracks => ?_⟩
  exact absurd (tracks.sleeps 1 rfl) (by decide)

end Ldd3.RwBlock
