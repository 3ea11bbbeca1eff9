import Ldd3.Base.Turns
import Ldd3.Interrupt.Tasks

/-!
What the tasks that share the ring of `interrupt/fin.c` see. `sdev_write` never looks at `rp`, so
that the ring overruns whenever the writers get a turn ahead; all the same the calls return, in the
order of their last critical sections, what they return on a `Tape`. A write takes what fits up to
the end of the buffer, a read what lies in one piece.
-/

namespace Ldd3.Interrupt

open Base.Cells Base.Ring Base.Turns Base.Words

def Geometry.size (g : Geometry) : Nat := (g.bufEnd - g.buf).toNat

def writeTape (size : Nat) (s : Tape UInt8) (data : List UInt8) (fault : Nat) : Reply UInt8 :=
  let count := min data.length (size - s.items.length % size)
  ⟨count, [], s.put size (copied 0 data count fault)⟩

/-! ### A ring and its tape -/

def Sdev.Shown (d : Sdev) (s : Tape UInt8) : Prop := Shows d.mem d.buf d.size d.rp d.wp s

variable {d : Sdev} {s : Tape UInt8}

theorem Geometry.bufEnd_eq (g : Geometry) : g.bufEnd = g.buf + g.size := by
  have positive := g.two_le
  unfold Geometry.size
  omega

theorem start_shown (g : Geometry) (mem : Int → UInt8) : (start g mem).Shown ⟨[], 0⟩ := by
  have positive := g.two_le
  refine shows_empty mem g.buf ?_
  change 0 < g.size
  unfold Geometry.size
  omega

theorem Sdev.Shown.unread (shown : d.Shown s) : Interrupt.unread d = s.unread := by
  rw [Interrupt.unread, d.bufEnd_eq]
  exact Shows.held shown

theorem readCount_shown (h : Within d) (shown : d.Shown s) (ready : d.rp ≠ d.wp) (len : Nat) :
    readCount d len = min len (s.run d.size) := by
  have ending := d.bufEnd_eq
  have size := d.fits
  have low := Nat.mod_lt s.next (Shows.positive shown)
  have read := shown.read
  have whole : toU64 (d.bufEnd - d.rp) = d.size - s.next % d.size := by
    rw [toU64_of_range (by omega) (by omega)]
    omega
  rw [readCount, whole, Tape.run]
  rcases Int.lt_or_gt_of_ne ready with ahead | behind
  · have front := (Shows.ahead_iff shown).mp ahead.le
    have position := Shows.ahead shown front
    rw [haveRead_ahead h ahead]
    omega
  · have back : ¬ s.next % d.size + s.unread.length < d.size := by
      rw [← Shows.ahead_iff shown]
      omega
    rw [haveRead_behind h behind]
    omega

theorem writeCount_shown (h : Within d) (shown : d.Shown s) (len : Nat) :
    writeCount d len = min len (d.size - s.items.length % d.size) := by
  have ending := d.bufEnd_eq
  have write := shown.write
  rw [writeCount_eq h]
  omega

/-! ### One call -/

theorem sdevRead_tape {len fault ret : Nat} {delivered : List UInt8} {d' : Sdev} (good : Good d) (shown : d.Shown s)
    (called : sdevRead d false len fault = some ⟨.ok ret, delivered, d'⟩) :
    ∃ s', s.read d.size len fault = some ⟨ret, delivered, s'⟩ ∧ d'.Shown s' := by
  obtain ⟨within, free⟩ := good
  rcases sdevRead_cases called with ⟨taken, _⟩ | ⟨_, ready, done⟩
  · omega
  have nonempty : d.rp ≠ d.wp := fun empty => ready ((haveRead_zero_iff within).mpr empty)
  have filled : s.unread ≠ [] := fun none => nonempty ((Shows.empty_iff shown).mpr none)
  have counted := readCount_shown within shown nonempty len
  cases done
  refine ⟨s.take (min len (s.run d.size)), ?_, ?_⟩
  · have bytes := Shows.fetch_front (c := min len (s.run d.size) - min fault (min len (s.run d.size))) shown
      (by omega)
    simp only [Tape.read, if_neg filled]
    rw [counted, bytes]
  · rw [counted, bumpRp, d.bufEnd_eq]
    exact Shows.take shown (Nat.min_le_right _ _)

theorem sdevWrite_tape {data : List UInt8} {fault ret : Nat} {delivered : List UInt8} {d' : Sdev} (good : Good d)
    (shown : d.Shown s) (called : sdevWrite d false data fault = some ⟨.ok ret, delivered, d'⟩) :
    writeTape d.size s data fault = ⟨ret, delivered, s.put d.size (copied 0 data ret fault)⟩ ∧
      d'.Shown (s.put d.size (copied 0 data ret fault)) := by
  obtain ⟨within, free⟩ := good
  have counted := writeCount_shown within shown data.length
  have low := Nat.mod_lt s.items.length (Shows.positive shown)
  have bound : writeCount d data.length ≤ data.length := Nat.min_le_left _ _
  rcases sdevWrite_cases called with ⟨taken, _⟩ | ⟨_, _, done⟩ | ⟨_, done⟩
  · omega
  · cases done
  cases done
  have length := length_copied (0 : UInt8) bound fault
  refine ⟨by simp only [writeTape, ← counted], ?_⟩
  have put := Shows.put (copied 0 data (writeCount d data.length) fault) shown (by omega)
  rw [length, ← d.bufEnd_eq] at put
  exact put

namespace Tasks

open Base.Tasks
open scoped List

/-! ### Whole runs -/

def Req.answer (size : Nat) (s : Tape UInt8) (fault : Nat) : Req → Option (Reply UInt8)
  | .read len => s.read size len fault
  | .write data => some (writeTape size s data fault)

/-- The calls of `log`, made one after the other on a tape, return what `log` says. -/
inductive Played (size : Nat) : List Entry → Tape UInt8 → Prop where
  | start : Played size [] ⟨[], 0⟩
  | call {log s s' e} : Played size log s →
      e.req.answer size s e.fault = some ⟨e.ret, e.delivered, s'⟩ → Played size (log ++ [e]) s'

variable {g : Geometry} {mem : Int → UInt8}

theorem History.played {log : List Entry} {d : Sdev} (history : History g mem log d) :
    ∃ s, Played g.size log s ∧ d.Shown s := by
  induction history with
  | start => exact ⟨_, .start, start_shown g mem⟩
  | @call log d d' e before performed ih =>
    obtain ⟨s, played, shown⟩ := ih
    obtain ⟨good, same⟩ := before.good
    obtain ⟨req, fault, ret, delivered⟩ := e
    rw [← same] at played ⊢
    cases req with
    | read len =>
      obtain ⟨s', answered, shown'⟩ := sdevRead_tape good shown performed
      exact ⟨s', played.call answered, shown'⟩
    | write data =>
      obtain ⟨answered, shown'⟩ := sdevWrite_tape good shown performed
      exact ⟨_, played.call (congrArg some answered), shown'⟩

def Entry.move (e : Entry) : Move UInt8 :=
  match e.req with
  | .read _ => ⟨e.delivered, e.ret, []⟩
  | .write data => ⟨[], 0, copied 0 data e.ret e.fault⟩

theorem Played.moved {size : Nat} {log : List Entry} {s : Tape UInt8} (played : Played size log s) :
    Moved size (log.map Entry.move) s := by
  induction played with
  | start => exact .start
  | @call log s s' e _ answered ih =>
    obtain ⟨req, fault, ret, delivered⟩ := e
    rw [List.map_append]
    cases req with
    | read len => exact ih.read answered
    | write data =>
      simp only [Req.answer, writeTape, Option.some.injEq, Reply.mk.injEq] at answered
      obtain ⟨rfl, rfl, rfl⟩ := answered
      exact ih.put _

variable {ι : Type*} [DecidableEq ι] [Fintype ι] {c : Config Shared Pc ι}

theorem depth_indicator (x : Pc) : (if x.depth = 1 then 1 else 0) = x.depth := by cases x <;> rfl

/-- Whatever the tasks do, at most one is in a critical section and the calls return what they return
on a tape. What was delivered, and then what is unread, are bytes that were stored, in the order in
which they were stored; and the bytes that are missing are whole turns of the buffer. -/
theorem ring_loses_whole_turns (small : g.bufEnd - g.buf < 2 ^ 31)
    (reachable : program.Reachable (loaded ι g mem) c) :
    c.shared.dev.sem + (c.count fun x => x.depth = 1) = 1 ∧
    ∃ s, Played g.size c.shared.log s ∧ (c.shared.dev.sem = 1 → unread c.shared.dev = s.unread) ∧
      (c.shared.log.map Entry.move).flatMap Move.delivered ++ s.unread <+
        (c.shared.log.map Entry.move).flatMap Move.stored ∧
      ∃ turns, ((c.shared.log.map Entry.move).flatMap Move.stored).length =
        ((c.shared.log.map Entry.move).map Move.removed).sum + s.unread.length + turns * g.size := by
  have guarded := guarded small reachable
  obtain ⟨d, history, _, alone⟩ := guarded.serial
  obtain ⟨s, played, shown⟩ := History.played history
  obtain ⟨sublist, missing⟩ := played.moved.whole shown.next_le
  refine ⟨?_, s, played, ?_, sublist, missing⟩
  · have balance := guarded.balance
    rw [count_eq_sum, Finset.sum_congr rfl fun t _ => depth_indicator (c.task t)]
    exact balance
  · intro free
    have settled : c.shared.dev = d := alone (guarded.outside_of_free (by change 0 < c.shared.dev.sem; omega))
    rw [settled]
    exact shown.unread

/-- A write that fills the buffer loses all it stored. -/
theorem ring_loses_whole_turns_filled :
    ∃ c : Config Shared Pc (Fin 2), program.Reachable (loaded (Fin 2) threeBytes fun _ => 0) c ∧
      (c.shared.log.map Entry.move).flatMap Move.stored = [1, 2, 3] ∧ unread c.shared.dev = [] ∧
      ∃ s turns, Played 3 c.shared.log s ∧
        3 = ((c.shared.log.map Entry.move).map Move.removed).sum + s.unread.length + turns * 3 := by
  have start : program.Reachable (loaded (Fin 2) threeBytes fun _ => 0) (loaded _ _ _) := .init
  obtain ⟨c, reached, dev, log, _⟩ := write_alone start (t := 0) rfl (by decide) [1, 2, 3]
  obtain ⟨_, s, played, _, _, turns, missing⟩ := ring_loses_whole_turns (by decide) reached
  have three : (c.shared.log.map Entry.move).flatMap Move.stored = [1, 2, 3] := by rw [log]; decide
  rw [three] at missing
  exact ⟨c, reached, three, by rw [dev]; decide, s, turns, played, missing⟩

end Tasks

end Ldd3.Interrupt
