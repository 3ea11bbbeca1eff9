import Ldd3.Base.Turns
import Ldd3.Scullb.Tasks

/-!
What the tasks that share a `scullb` see. The ring is not a queue once a write has overrun, but it
is never worse than a tape of which whole turns of the buffer get lost: the calls of any number of
tasks return, in the order of their last critical sections, what they return on a `Tape`. So no
byte is ever garbled, delivered twice or delivered out of order, and between two reads either
nothing is missing or `bufsize` bytes are, or a multiple of it.

The tape also has what the calls decide on. `have_space` is the number of unread bytes, the
contiguous space of a write ends at the end of the buffer or right before the next byte to read.
-/

namespace Ldd3.Scullb

open Base.Cells Base.Ring Base.Turns

def Geometry.size (g : Geometry) : Nat := g.bufsize.toNat

/-! ### The calls on a tape -/

def space (size : Nat) (s : Tape UInt8) : Nat := if s.unread = [] then size - 1 else s.unread.length

def room (size : Nat) (s : Tape UInt8) : Nat :=
  if s.next % size + s.unread.length < size then size - (s.next % size + s.unread.length)
  else size - s.unread.length - 1

def writeTape (size : Nat) (s : Tape UInt8) (data : List UInt8) (fault : Nat) : Reply UInt8 :=
  let count := min (min data.length (space size s)) (room size s)
  ⟨count, [], s.put size (copied 0 data count fault)⟩

def pollTape (s : Tape UInt8) : Reply UInt8 :=
  ⟨(if s.unread = [] then 0 else 0x41) ||| 0x104, [], s⟩

/-! ### A ring and its tape -/

def Sdev.Shown (d : Sdev) (s : Tape UInt8) : Prop := Shows d.mem d.buf d.size d.rp d.wp s

variable {d : Sdev} {s : Tape UInt8}

theorem Geometry.size_cast (g : Geometry) : (g.size : Int) = g.bufsize := by
  have positive := g.two_le
  unfold Geometry.size
  omega

theorem Geometry.bufEnd_eq (g : Geometry) : g.bufEnd = g.buf + g.size := by
  rw [g.size_cast, g.span]

theorem Geometry.two_le_size (g : Geometry) : 2 ≤ g.size := by
  have positive := g.two_le
  unfold Geometry.size
  omega

theorem start_shown (g : Geometry) (mem : Int → UInt8) : (start g mem).Shown ⟨[], 0⟩ :=
  shows_empty mem g.buf (Nat.lt_of_lt_of_le Nat.two_pos g.two_le_size)

theorem Sdev.Shown.unread (shown : d.Shown s) : Scullb.unread d = s.unread := by
  rw [unread_eq, d.bufEnd_eq]
  exact Shows.held shown

theorem Sdev.Shown.length_lt (shown : d.Shown s) : s.unread.length < d.size := by
  have short := shown.short
  have low := shown.next_le
  rw [length_unread]
  omega

theorem haveSpace_shown (h : Within d) (shown : d.Shown s) : haveSpace d = space d.size s := by
  have length := shown.unread
  have size := d.size_cast
  have positive := d.two_le_size
  rcases Int.lt_trichotomy d.rp d.wp with ahead | empty | behind
  · have filled : s.unread ≠ [] := fun none => by have := (shown.empty_iff).mpr none; omega
    have position := Shows.ahead shown ((Shows.ahead_iff shown).mp (by omega))
    rw [haveSpace_ahead h ahead, space, if_neg filled]
    omega
  · have none := (Shows.empty_iff shown).mp empty
    rw [haveSpace_empty empty.symm, space, if_pos none]
    omega
  · have filled : s.unread ≠ [] := fun none => by have := (Shows.empty_iff shown).mpr none; omega
    have back : ¬ s.next % d.size + s.unread.length < d.size := by
      rw [← Shows.ahead_iff shown]
      omega
    have position := Shows.behind shown (Nat.not_lt.mp back)
    rw [haveSpace_behind h behind, space, if_neg filled]
    omega

theorem readCount_shown (h : Within d) (shown : d.Shown s) (ready : d.rp ≠ d.wp) (len : Nat) :
    readCount d len = min len (s.run d.size) := by
  have ending := d.bufEnd_eq
  have low := Nat.mod_lt s.next (Shows.positive shown)
  have read := shown.read
  rcases Int.lt_or_gt_of_ne ready with ahead | behind
  · have front := (Shows.ahead_iff shown).mp ahead.le
    have position := Shows.ahead shown front
    rw [readCount_ahead h ahead, Tape.run]
    omega
  · have back : ¬ s.next % d.size + s.unread.length < d.size := by
      rw [← Shows.ahead_iff shown]
      omega
    rw [readCount_behind h behind.le, Tape.run]
    omega

theorem writeCount_shown (h : Within d) (shown : d.Shown s) (len : Nat) :
    writeCount d len = min (min len (space d.size s)) (room d.size s) := by
  have ending := d.bufEnd_eq
  have room' := haveSpace_shown h shown
  have read := shown.read
  by_cases ahead : d.rp ≤ d.wp
  · have front := (Shows.ahead_iff shown).mp ahead
    have position := Shows.ahead shown front
    rw [writeCount_ahead h ahead, room', room, if_pos front]
    omega
  · have back : ¬ s.next % d.size + s.unread.length < d.size := by
      rw [← Shows.ahead_iff shown]
      exact ahead
    have position := Shows.behind shown (Nat.not_lt.mp back)
    rw [writeCount_behind h (by omega), room', room, if_neg back]
    omega

/-! ### One call -/

theorem sdevRead_tape {nonblock : Bool} {len fault ret : Nat} {delivered : List UInt8} {d' : Sdev}
    (h : Within d) (shown : d.Shown s) (called : sdevRead d nonblock len fault = some ⟨.ok ret, delivered, d'⟩) :
    ∃ s', s.read d.size len fault = some ⟨ret, delivered, s'⟩ ∧ d'.Shown s' ∧
      d'.toGeometry = d.toGeometry := by
  by_cases empty : d.rp = d.wp
  · rw [sdevRead_empty empty] at called
    split at called <;> cases called
  have filled : s.unread ≠ [] := fun none => empty ((Shows.empty_iff shown).mpr none)
  have counted := readCount_shown h shown empty len
  rw [sdevRead_ready empty] at called
  cases called
  refine ⟨s.take (min len (s.run d.size)), ?_, ?_, by rw [afterRead_eq]⟩
  · simp only [Tape.read, if_neg filled]
    have bytes := Shows.fetch_front (c := min len (s.run d.size) - min fault (min len (s.run d.size))) shown
      (by omega)
    rw [counted, bytes]
  · rw [afterRead_eq, counted, d.bufEnd_eq]
    exact Shows.take shown (Nat.min_le_right _ _)

theorem sdevWrite_tape {nonblock : Bool} {data : List UInt8} {fault ret : Nat} {delivered : List UInt8} {d' : Sdev}
    (h : Within d) (shown : d.Shown s)
    (called : sdevWrite d nonblock data fault = some ⟨.ok ret, delivered, d'⟩) :
    writeTape d.size s data fault = ⟨ret, delivered, s.put d.size (copied 0 data ret fault)⟩ ∧
      d'.Shown (s.put d.size (copied 0 data ret fault)) ∧ d'.toGeometry = d.toGeometry := by
  have counted := writeCount_shown h shown data.length
  obtain ⟨bound, inside⟩ := writeCount_le h data.length
  rw [sdevWrite_ready h] at called
  cases called
  have length := length_copied (0 : UInt8) bound fault
  refine ⟨?_, ?_, by rw [afterWrite_eq]⟩
  · simp only [writeTape, ← counted]
  · have ending := d.bufEnd_eq
    have write := shown.write
    have put := Shows.put (copied 0 data (writeCount d data.length) fault) shown (by omega)
    rw [length] at put
    rw [afterWrite_eq, ending]
    exact put

namespace Tasks

open Base.Tasks Base.Words
open scoped List

/-! ### Whole runs -/

def Req.answer (size : Nat) (s : Tape UInt8) (fault : Nat) : Req → Option (Reply UInt8)
  | .read _ len => s.read size len fault
  | .write _ data => some (writeTape size s data fault)
  | .poll => some (pollTape s)

/-- The calls of `log`, made one after the other on a tape, return what `log` says. -/
inductive Played (size : Nat) : List Entry → Tape UInt8 → Prop where
  | start : Played size [] ⟨[], 0⟩
  | call {log s s' e} : Played size log s →
      e.req.answer size s e.fault = some ⟨e.ret, e.delivered, s'⟩ → Played size (log ++ [e]) s'

variable {g : Geometry} {mem : Int → UInt8}

theorem History.played {log : List Entry} {d : Sdev} (history : History g mem log d) :
    ∃ s, Played g.size log s ∧ d.Shown s ∧ d.toGeometry = g := by
  induction history with
  | start => exact ⟨_, .start, start_shown g mem, rfl⟩
  | @call log d d' e before performed ih =>
    obtain ⟨s, played, shown, same⟩ := ih
    have within := before.within
    obtain ⟨req, fault, ret, delivered⟩ := e
    rw [← same] at played ⊢
    cases req with
    | read nonblock len =>
      obtain ⟨s', answered, shown', same'⟩ := sdevRead_tape within shown performed
      exact ⟨s', played.call answered, shown', same'⟩
    | write nonblock data =>
      obtain ⟨answered, shown', same'⟩ := sdevWrite_tape within shown performed
      exact ⟨_, played.call (congrArg some answered), shown', same'⟩
    | poll =>
      have mask : pollMask d = (pollTape s).ret := by
        have seen : haveSpace d ≠ 0 := by
          have := (haveSpace_range within).1
          omega
        have empty := Shows.empty_iff shown
        by_cases none : s.unread = [] <;> simp [pollMask, pollTape, seen, empty, none]
      simp only [Req.perform, sdevPoll, Option.some.injEq, Done.mk.injEq, Except.ok.injEq] at performed
      obtain ⟨rfl, rfl, rfl⟩ := performed
      rw [mask]
      exact ⟨s, played.call rfl, shown, rfl⟩

def Entry.move (e : Entry) : Move UInt8 :=
  match e.req with
  | .read _ _ => ⟨e.delivered, e.ret, []⟩
  | .write _ data => ⟨[], 0, copied 0 data e.ret e.fault⟩
  | .poll => ⟨[], 0, []⟩

theorem Played.moved {size : Nat} {log : List Entry} {s : Tape UInt8} (played : Played size log s) :
    Moved size (log.map Entry.move) s := by
  induction played with
  | start => exact .start
  | @call log s s' e _ answered ih =>
    obtain ⟨req, fault, ret, delivered⟩ := e
    rw [List.map_append]
    cases req with
    | read nonblock len => exact ih.read answered
    | write nonblock data =>
      simp only [Req.answer, writeTape, Option.some.injEq, Reply.mk.injEq] at answered
      obtain ⟨rfl, rfl, rfl⟩ := answered
      exact ih.put _
    | poll =>
      cases answered
      exact ih.look

variable {ι : Type*} [DecidableEq ι] [Fintype ι] {c : Config Shared Task ι}

/-- Whatever the tasks do, the calls return what they return on a tape. What was delivered, and
then what is unread, are bytes that were stored, in the order in which they were stored; and the
bytes that are missing are whole turns of the buffer. -/
theorem pipe_loses_whole_turns (reachable : program.Reachable (loaded ι g mem) c) :
    ∃ s, Played g.size c.shared.log s ∧
      ((∀ t, (c.task t).held = 0) → unread c.shared.ring = s.unread) ∧
      s.unread.length < g.size ∧
      (c.shared.log.map Entry.move).flatMap Move.delivered ++ s.unread <+
        (c.shared.log.map Entry.move).flatMap Move.stored ∧
      ∃ turns, ((c.shared.log.map Entry.move).flatMap Move.stored).length =
        ((c.shared.log.map Entry.move).map Move.removed).sum + s.unread.length + turns * g.size := by
  obtain ⟨d, history, _, alone⟩ := serial reachable
  obtain ⟨s, played, shown, rfl⟩ := history.played
  obtain ⟨sublist, missing⟩ := played.moved.whole shown.next_le
  refine ⟨s, played, ?_, shown.length_lt, sublist, missing⟩
  intro outside
  have ring : c.shared.ring = d := by
    apply alone
    intro t
    have out := outside t
    rcases held_cases reachable t with ⟨_, depth⟩ | ⟨inside, _⟩
    · exact depth
    · omega
  rw [ring]
  exact shown.unread

theorem write_alone {s : Shared} (free : 0 < s.sem) (h : Within s.ring) (data : List UInt8) {x : Task}
    (idle : x.pc = .idle) :
    ∃ x' count, program.Solo s x
        ⟨afterWrite s.ring data count 0, s.sem - 1 + 1, s.log ++ [⟨.write false data, 0, count, []⟩]⟩ x' ∧
      count = writeCount s.ring data.length := by
  obtain ⟨pc, held, touched, returned⟩ := x
  cases idle
  have space : haveSpace s.ring ≠ 0 := by
    have := (haveSpace_range h).1
    omega
  exact ⟨_, _, .step _ (.mk (.call s (.write false data))) notify_none <|
    .step _ (.mk (.down s _ free)) notify_none <|
    .step _ (.mk (.writeReady _ _ _ space)) notify_none <|
    .step _ (.mk (.copyFromUser _ _ _ 0 _ _ _ rfl rfl (by simp [toInt32]) rfl)) notify_none <|
    .step _ (.mk (.bump _ _)) notify_none <|
    .step _ (.mk (.wrap _ _)) notify_none <|
    .step _ (.mk (.release _ _)) notify_none <| .refl _ _, rfl⟩

def twoBytes : Geometry where
  buf := 0
  bufEnd := 2
  bufsize := 2
  span := by decide
  two_le := by decide
  fits := by decide

/-- In a buffer of two bytes the second write of a byte loses both. -/
theorem pipe_loses_whole_turns_overrun :
    ∃ c : Config Shared Task (Fin 2), program.Reachable (loaded (Fin 2) twoBytes fun _ => 0) c ∧
      (c.shared.log.map Entry.move).flatMap Move.stored = [1, 2] ∧ unread c.shared.ring = [] ∧
      ∃ s turns, Played 2 c.shared.log s ∧
        2 = ((c.shared.log.map Entry.move).map Move.removed).sum + s.unread.length + turns * 2 := by
  have start : program.Reachable (loaded (Fin 2) twoBytes fun _ => 0) (loaded _ _ _) := .init
  obtain ⟨x₁, count₁, first, counted₁⟩ := write_alone (s := (loaded (Fin 2) twoBytes fun _ => 0).shared)
    (by decide) (start_within _ _) [1] (x := (loaded (Fin 2) twoBytes fun _ => 0).task 0) rfl
  have one : count₁ = 1 := by rw [counted₁]; decide
  subst one
  obtain ⟨c₁, reached₁, shared₁, _, same₁⟩ := start.solo 0 first
  obtain ⟨x₂, count₂, second, counted₂⟩ := write_alone (s := c₁.shared) (by rw [shared₁]; decide)
    (by rw [shared₁]; constructor <;> decide) [2] (x := c₁.task 1) (by rw [same₁ 1 (by decide)]; rfl)
  have next : count₂ = 1 := by rw [counted₂, shared₁]; decide
  subst next
  obtain ⟨c₂, reached₂, shared₂, _, _⟩ := reached₁.solo 1 second
  obtain ⟨s, played, _, _, _, turns, missing⟩ := pipe_loses_whole_turns reached₂
  have both : (c₂.shared.log.map Entry.move).flatMap Move.stored = [1, 2] := by rw [shared₂, shared₁]; decide
  rw [both] at missing
  refine ⟨c₂, reached₂, both, ?_, s, turns, played, missing⟩
  rw [shared₂, shared₁]
  decide

end Tasks

end Ldd3.Scullb
