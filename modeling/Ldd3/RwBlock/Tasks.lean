import Ldd3.Base.Tasks
import Ldd3.RwBlock.Reads

/-!
Calls of the `rw_block` ring that run at the same time. The driver has no lock: `flag`, `read` and
`write` are looked at and set while other calls are under way, each expression of the source in one
step, and a copy moves one byte a step. A copy may miss bytes and nobody notices, so it may end
anywhere; and it moves none if its count, as a `size_t`, is larger than any address space.

A read changes `read` and a write changes `write`. With one reader and one writer every index that a
call goes on with is therefore still good when it is used, even the difference of the straight
branch, which is negative if the writer has gone round in between. With two readers or with two
writers the copies leave the buffer.
-/

namespace Ldd3.RwBlock.Tasks

open Base.Tasks Base.Words

/-- `touched` is not in the source: the indices in the buffer that the copies went to. -/
structure Shared where
  dev : Sdev
  touched : List Int

inductive Side where
  | reader | writer
  deriving DecidableEq

-- `toUser` and `fromUser` are copies on their way, `next` is where the call goes on after them;
-- `user` is the memory of the writing process from its buffer on
inductive Pc where
  | idle
  | sleep (len : Nat)
  | clear (len : Nat)
  | ahead (len : Nat)
  | behind (len : Nat)
  | straightCount
  | straightCopy (count : Int)
  | straightBump (count : Int)
  | firstCount (len : Nat)
  | firstCopy (len : Nat) (count : Int)
  | firstTest (len : Nat) (count : Int)
  | firstBump (count : Int)
  | reset (len : Nat) (sum : Int)
  | secondCount (len : Nat) (sum : Int)
  | secondTest (sum count : Int)
  | secondLess (sum : Int)
  | secondCopy (sum count : Int)
  | secondBump (sum count : Int)
  | toUser (index count : Int) (moved : List UInt8) (next : Pc)
  | setFlag (user : Int → UInt8) (len : Nat)
  | room (user : Int → UInt8) (len : Nat)
  | straightStore (user : Int → UInt8) (len : Nat)
  | straightMove (count : Int)
  | upperCount (user : Int → UInt8) (len : Nat)
  | upperStore (user : Int → UInt8) (len : Nat) (sum : Int)
  | rewind (user : Int → UInt8) (len : Nat) (sum : Int)
  | lowerStore (user : Int → UInt8) (len : Nat) (sum : Int)
  | lowerMove (sum count : Int)
  | fromUser (index count : Int) (user : Int → UInt8) (moved : Nat) (next : Pc)
  | wake (ret : Int)
  | returned (ret : Int)

/-- The side of the driver that a call is on. -/
def Pc.side : Pc → Option Side
  | .idle | .returned _ => none
  | .toUser _ _ _ next | .fromUser _ _ _ _ next => next.side
  | .setFlag _ _ | .room _ _ | .straightStore _ _ | .straightMove _ | .upperCount _ _ | .upperStore _ _ _
  | .rewind _ _ _ | .lowerStore _ _ _ | .lowerMove _ _ | .wake _ => some .writer
  | _ => some .reader

inductive PcStep : Shared → Pc → Shared → Pc → Prop where
  | read (s len) (limit : len ≤ maxRwCount) : PcStep s .idle s (.sleep len)
  | woken (s len) (set : s.dev.flag ≠ 0) : PcStep s (.sleep len) s (.clear len)
  | signal (s len) : PcStep s (.sleep len) s (.clear len)
  | clear (s len) : PcStep s (.clear len) { s with dev.flag := 0 } (.ahead len)
  | ahead (s len) (yes : s.dev.read < s.dev.write) : PcStep s (.ahead len) s .straightCount
  | notAhead (s len) (no : ¬ s.dev.read < s.dev.write) : PcStep s (.ahead len) s (.behind len)
  | behind (s len) (yes : s.dev.write < s.dev.read) : PcStep s (.behind len) s (.firstCount len)
  | nothing (s len) (no : ¬ s.dev.write < s.dev.read) : PcStep s (.behind len) s (.returned 0)
  | straightCount (s) : PcStep s .straightCount s (.straightCopy (toInt32 (s.dev.write - s.dev.read)))
  | straightCopy (s count) :
      PcStep s (.straightCopy count) s (.toUser s.dev.read count [] (.straightBump count))
  | straightBump (s count) :
      PcStep s (.straightBump count) { s with dev.read := toInt32 (s.dev.read + count) } (.returned count)
  | firstCount (s len) : PcStep s (.firstCount len) s (.firstCopy len (RwBlock.firstCount s.dev len))
  | firstCopy (s len count) :
      PcStep s (.firstCopy len count) s (.toUser s.dev.read count [] (.firstTest len count))
  | short (s len count) (yes : len < toU64 (s.dev.size - s.dev.read)) :
      PcStep s (.firstTest len count) s (.firstBump count)
  | long (s len count) (no : ¬ len < toU64 (s.dev.size - s.dev.read)) :
      PcStep s (.firstTest len count) s (.reset len count)
  | firstBump (s count) :
      PcStep s (.firstBump count) { s with dev.read := toInt32 (s.dev.read + count) } (.returned count)
  | reset (s len sum) : PcStep s (.reset len sum) { s with dev.read := 0 } (.secondCount len sum)
  | secondCount (s len sum) : PcStep s (.secondCount len sum) s (.secondTest sum
      (if toU64 (len - sum) < toU64 s.dev.write then toInt32 (len - sum) else s.dev.write))
  | all (s sum count) (yes : s.dev.write ≤ count) : PcStep s (.secondTest sum count) s (.secondLess sum)
  | part (s sum count) (no : ¬ s.dev.write ≤ count) : PcStep s (.secondTest sum count) s (.secondCopy sum count)
  | secondLess (s sum) : PcStep s (.secondLess sum) s (.secondCopy sum (toInt32 (s.dev.write - 1)))
  | secondCopy (s sum count) :
      PcStep s (.secondCopy sum count) s (.toUser 0 (max count 0) [] (.secondBump sum (max count 0)))
  | secondBump (s sum count) : PcStep s (.secondBump sum count)
      { s with dev.read := toInt32 (s.dev.read + count) } (.returned (toInt32 (sum + count)))
  | toUser (s index count moved next) (more : moved.length < toU64 count) (ok : toU64 count < 2 ^ 63) :
      PcStep s (.toUser index count moved next) { s with touched := s.touched ++ [index + (moved.length : Int)] }
        (.toUser index count (moved ++ [s.dev.mem (s.dev.buf + index + (moved.length : Int))]) next)
  | toUserEnd (s index count moved next) : PcStep s (.toUser index count moved next) s next
  | write (s user len) (limit : len ≤ maxRwCount) : PcStep s .idle s (.setFlag user len)
  | setFlag (s user len) : PcStep s (.setFlag user len) { s with dev.flag := 1 } (.room user len)
  | fits (s user len) (yes : len < toU64 (s.dev.size - s.dev.write)) :
      PcStep s (.room user len) s (.straightStore user len)
  | reaches (s user len) (no : ¬ len < toU64 (s.dev.size - s.dev.write)) :
      PcStep s (.room user len) s (.upperCount user len)
  | straightStore (s user len) : PcStep s (.straightStore user len) s
      (.fromUser s.dev.write (toInt32 len) user 0 (.straightMove (toInt32 len)))
  | straightMove (s count) :
      PcStep s (.straightMove count) { s with dev.write := toInt32 (s.dev.write + count) } (.wake count)
  | upperCount (s user len) :
      PcStep s (.upperCount user len) s (.upperStore user len (toInt32 (s.dev.size - s.dev.write)))
  | upperStore (s user len sum) :
      PcStep s (.upperStore user len sum) s (.fromUser s.dev.write sum user 0 (.rewind user len sum))
  | rewind (s user len sum) : PcStep s (.rewind user len sum) { s with dev.write := 0 } (.lowerStore user len sum)
  | lowerStore (s user len sum) : PcStep s (.lowerStore user len sum) s
      (.fromUser 0 (roundCount s.dev len sum) (fun k => user (sum + k)) 0
        (.lowerMove sum (roundCount s.dev len sum)))
  | lowerMove (s sum count) :
      PcStep s (.lowerMove sum count) { s with dev.write := count } (.wake (toInt32 (sum + count)))
  | fromUser (s index count user moved next) (more : moved < toU64 count) (ok : toU64 count < 2 ^ 63) :
      PcStep s (.fromUser index count user moved next)
        ⟨{ s.dev with mem := Function.update s.dev.mem (s.dev.buf + index + (moved : Int)) (user moved) },
          s.touched ++ [index + (moved : Int)]⟩
        (.fromUser index count user (moved + 1) next)
  | fromUserEnd (s index count user moved next) : PcStep s (.fromUser index count user moved next) s next
  | wake (s ret) : PcStep s (.wake ret) s (.returned ret)
  | back (s ret) : PcStep s (.returned ret) s .idle

/-- A task makes calls of one side only. -/
structure Task where
  side : Side
  pc : Pc

inductive TaskStep : Shared → Task → Shared → Task → Unit → Prop where
  | mk {s s' x x'} (side : Side) (stepped : PcStep s x s' x') (own : x'.side = none ∨ x'.side = some side) :
      TaskStep s ⟨side, x⟩ s' ⟨side, x'⟩ ()

def program : Program Shared Task Unit := ⟨TaskStep, fun _ x => x⟩

variable {ι : Type*} {g : Geometry} {mem : Int → UInt8} {side : ι → Side}

def loaded (g : Geometry) (mem : Int → UInt8) (side : ι → Side) : Config Shared Task ι :=
  ⟨⟨start g mem, []⟩, fun t => ⟨side t, .idle⟩⟩

def Inside (s : Shared) : Prop := ∀ i ∈ s.touched, 0 ≤ i ∧ i < s.dev.size

/-! ### One reader and one writer -/

/-- What a call knows of the index that its side moves. -/
def Fine (d : Sdev) : Pc → Prop
  | .straightCopy count | .straightBump count => 0 ≤ d.read + count ∧ d.read + count ≤ d.size
  | .firstCopy _ count | .firstTest _ count | .firstBump count => 0 ≤ count ∧ d.read + count ≤ d.size
  | .secondCount _ _ | .secondLess _ => d.read = 0
  | .secondTest _ count | .secondBump _ count => d.read = 0 ∧ 0 ≤ count ∧ count ≤ d.size
  | .secondCopy _ count => d.read = 0 ∧ count ≤ d.size
  | .toUser index count _ next =>
      -2 ^ 31 ≤ count ∧ (0 ≤ count → 0 ≤ index ∧ index + count ≤ d.size) ∧ next.side = some .reader ∧ Fine d next
  | .setFlag _ len | .room _ len => len ≤ maxRwCount
  | .straightStore _ len => (len : Int) < d.size - d.write
  | .straightMove count => 0 ≤ count ∧ d.write + count ≤ d.size
  | .upperCount _ len => d.size - d.write ≤ len ∧ len ≤ maxRwCount
  | .upperStore _ len sum => sum = d.size - d.write ∧ sum ≤ len ∧ len ≤ maxRwCount
  | .rewind _ len sum | .lowerStore _ len sum => 0 ≤ sum ∧ sum ≤ len ∧ len ≤ maxRwCount
  | .lowerMove _ count => 0 ≤ count ∧ count ≤ d.size
  | .fromUser index count _ _ next =>
      -2 ^ 31 ≤ count ∧ (0 ≤ count → 0 ≤ index ∧ index + count ≤ d.size) ∧ next.side = some .writer ∧ Fine d next
  | _ => True

/-- It is about the index of its own side. -/
theorem Fine.frame {d d' : Sdev} {x : Pc} (fine : Fine d x) (size : d'.size = d.size)
    (read : x.side = some .reader → d'.read = d.read) (write : x.side = some .writer → d'.write = d.write) :
    Fine d' x := by
  induction x with
  | upperStore user len sum =>
    unfold Fine at fine ⊢
    rw [size, write rfl]
    exact fine
  | _ => simp_all [Fine, Pc.side]

theorem side_step {s s' : Shared} {x x' : Pc} (stepped : PcStep s x s' x') :
    s'.dev.toGeometry = s.dev.toGeometry ∧ (x.side ≠ some .reader → s'.dev.read = s.dev.read) ∧
      (x.side ≠ some .writer → s'.dev.write = s.dev.write) := by
  cases stepped <;> simp [Pc.side]

theorem inside_copy {size index count : Int} {k : Nat} (low : -2 ^ 31 ≤ count)
    (inside : 0 ≤ count → 0 ≤ index ∧ index + count ≤ size) (more : k < toU64 count)
    (ok : toU64 count < 2 ^ 63) : 0 ≤ index + (k : Int) ∧ index + (k : Int) < size := by
  by_cases negative : count < 0
  · have huge := toU64_of_negative low negative
    omega
  · have range := inside (by omega)
    unfold toU64 at more
    omega

theorem Inside.snoc {s : Shared} (inside : Inside s) {i : Int} (low : 0 ≤ i) (high : i < s.dev.size) :
    ∀ j ∈ s.touched ++ [i], 0 ≤ j ∧ j < s.dev.size := by
  intro j member
  rcases List.mem_append.mp member with earlier | last
  · exact inside j earlier
  · cases List.mem_singleton.mp last
    exact ⟨low, high⟩

theorem fine_step {s s' : Shared} {x x' : Pc} (stepped : PcStep s x s' x') (within : Within s.dev)
    (fine : Fine s.dev x) (inside : Inside s) : Within s'.dev ∧ Fine s'.dev x' ∧ Inside s' := by
  have size := s.dev.fits
  have positive := s.dev.one_le
  have bounds := within
  obtain ⟨readLow, readHigh, writeLow, writeHigh⟩ := bounds
  cases stepped with
  | straightCount =>
    refine ⟨within, ?_, inside⟩
    rw [toInt32_of_range (by omega) (by omega)]
    unfold Fine
    omega
  | straightCopy count =>
    unfold Fine at fine
    exact ⟨within, ⟨by omega, fun _ => by omega, rfl, fine⟩, inside⟩
  | straightBump count | firstBump count =>
    unfold Fine at fine
    refine ⟨?_, trivial, inside⟩
    rw [toInt32_of_range (by omega) (by omega)]
    exact ⟨by simp only; omega, by simp only; omega, writeLow, writeHigh⟩
  | firstCount len =>
    have count := firstCount_eq within len
    refine ⟨within, ?_, inside⟩
    unfold Fine
    omega
  | firstCopy len count =>
    unfold Fine at fine
    exact ⟨within, ⟨by omega, fun _ => by omega, rfl, fine⟩, inside⟩
  | short len count yes => exact ⟨within, fine, inside⟩
  | reset len sum => exact ⟨⟨Int.le_refl 0, by simp only; omega, writeLow, writeHigh⟩, rfl, inside⟩
  | secondCount len sum =>
    refine ⟨within, ⟨fine, ?_⟩, inside⟩
    have wide : toU64 s.dev.write = s.dev.write.toNat := toU64_of_range writeLow (by omega)
    split
    · rename_i less
      rw [toInt32_of_toU64 (by omega)]
      omega
    · omega
  | all sum count yes => exact ⟨within, fine.1, inside⟩
  | part sum count no => exact ⟨within, ⟨fine.1, fine.2.2⟩, inside⟩
  | secondLess sum =>
    refine ⟨within, ⟨fine, ?_⟩, inside⟩
    rw [toInt32_of_range (by omega) (by omega)]
    omega
  | secondCopy sum count =>
    obtain ⟨zero, most⟩ := fine
    exact ⟨within, ⟨by omega, fun _ => by omega, rfl, zero, by omega, by omega⟩, inside⟩
  | secondBump sum count =>
    obtain ⟨zero, low, high⟩ := fine
    refine ⟨?_, trivial, inside⟩
    rw [toInt32_of_range (by omega) (by omega)]
    exact ⟨by simp only; omega, by simp only; omega, writeLow, writeHigh⟩
  | toUser index count moved next more ok =>
    obtain ⟨above, below⟩ := inside_copy fine.1 fine.2.1 more ok
    exact ⟨within, fine, inside.snoc above below⟩
  | toUserEnd index count moved next => exact ⟨within, fine.2.2.2, inside⟩
  | write user len limit => exact ⟨within, limit, inside⟩
  | setFlag user len => exact ⟨⟨readLow, readHigh, writeLow, writeHigh⟩, fine, inside⟩
  | clear len => exact ⟨⟨readLow, readHigh, writeLow, writeHigh⟩, trivial, inside⟩
  | fits user len yes =>
    have wide := s.dev.toU64_above writeLow writeHigh
    refine ⟨within, ?_, inside⟩
    unfold Fine
    omega
  | reaches user len no =>
    have wide := s.dev.toU64_above writeLow writeHigh
    refine ⟨within, ⟨?_, fine⟩, inside⟩
    omega
  | straightStore user len =>
    unfold Fine at fine
    have count : toInt32 len = len := toInt32_of_range (by omega) (by omega)
    rw [count]
    exact ⟨within, ⟨by omega, fun _ => by omega, rfl, by omega, by omega⟩, inside⟩
  | straightMove count =>
    obtain ⟨low, high⟩ := fine
    refine ⟨?_, trivial, inside⟩
    rw [toInt32_of_range (by omega) (by omega)]
    exact ⟨readLow, readHigh, by simp only; omega, by simp only; omega⟩
  | upperCount user len =>
    obtain ⟨least, limit⟩ := fine
    refine ⟨within, ?_, inside⟩
    rw [s.dev.toInt32_above writeLow writeHigh]
    exact ⟨rfl, least, limit⟩
  | upperStore user len sum =>
    obtain ⟨rfl, least, limit⟩ := fine
    exact ⟨within, ⟨by omega, fun _ => by omega, rfl, by omega, least, limit⟩, inside⟩
  | rewind user len sum => exact ⟨⟨readLow, readHigh, Int.le_refl 0, by simp only; omega⟩, fine, inside⟩
  | lowerStore user len sum =>
    obtain ⟨low, least, limit⟩ := fine
    have bound := lt_of_limit limit
    have count : 0 ≤ roundCount s.dev len sum ∧ roundCount s.dev len sum ≤ s.dev.size := by
      rw [roundCount, toInt32_of_range (by omega) (by omega)]
      split <;> omega
    exact ⟨within, ⟨by omega, fun _ => by omega, rfl, count⟩, inside⟩
  | lowerMove sum count =>
    obtain ⟨low, high⟩ := fine
    exact ⟨⟨readLow, readHigh, low, high⟩, trivial, inside⟩
  | fromUser index count user moved next more ok =>
    obtain ⟨low, range, reader, later⟩ := fine
    obtain ⟨above, below⟩ := inside_copy low range more ok
    refine ⟨⟨readLow, readHigh, writeLow, writeHigh⟩, ⟨low, range, reader, ?_⟩, inside.snoc above below⟩
    exact later.frame rfl (fun _ => rfl) fun _ => rfl
  | fromUserEnd index count user moved next => exact ⟨within, fine.2.2.2, inside⟩
  | _ => exact ⟨within, trivial, inside⟩

structure Inv (side : ι → Side) (c : Config Shared Task ι) : Prop where
  within : Within c.shared.dev
  inside : Inside c.shared
  sided : ∀ t, (c.task t).side = side t
  own : ∀ t, (c.task t).pc.side = none ∨ (c.task t).pc.side = some (side t)
  fine : ∀ t, Fine c.shared.dev (c.task t).pc

def Alone (side : ι → Side) (w : Side) : Prop := ∀ t u, side t = w → side u = w → t = u

variable {c : Config Shared Task ι}

/-- The other tasks are on the other side. -/
theorem Inv.others (inv : Inv side c) (alone : ∀ w, Alone side w) {t u : ι} (other : u ≠ t) {w : Side}
    (mine : (c.task t).pc.side = some w) : (c.task u).pc.side ≠ some w := by
  intro theirs
  apply other
  have sided : ∀ v, (c.task v).pc.side = some w → side v = w := by
    intro v on
    rcases inv.own v with none | some
    · rw [none] at on
      cases on
    · rw [some] at on
      exact Option.some.inj on
  exact alone w u t (sided u theirs) (sided t mine)

variable [DecidableEq ι]

theorem Inv.step (inv : Inv side c) (alone : ∀ w, Alone side w) {t : ι} {s' : Shared} {x' : Task}
    (stepped : program.step c.shared (c.task t) s' x' ()) : Inv side (program.after c t s' x' ()) := by
  have others := fun u (other : u ≠ t) w => inv.others alone other (w := w)
  have mine := inv.sided t
  have fine := inv.fine t
  generalize c.task t = x at stepped others mine fine
  cases stepped with
  | @mk _ _ pc' w stepped own =>
    obtain ⟨within, fine', inside⟩ := fine_step stepped inv.within fine inv.inside
    obtain ⟨geometry, read, write⟩ := side_step stepped
    refine ⟨within, inside, fun u => ?_, fun u => ?_, fun u => ?_⟩
    all_goals
      by_cases same : u = t
    · rw [same, after_same]
      exact mine
    · rw [after_other same]
      exact inv.sided u
    · rw [same, after_same, ← mine]
      exact own
    · rw [after_other same]
      exact inv.own u
    · rw [same, after_same]
      exact fine'
    · rw [after_other same]
      refine (inv.fine u).frame (congrArg Geometry.size geometry) (fun on => ?_) fun on => ?_
      · exact read fun reads => others u same .reader reads on
      · exact write fun writes => others u same .writer writes on

/-- The places of a read that finds nothing. -/
def Pc.Quiet : Pc → Prop
  | .idle | .sleep _ | .clear _ | .ahead _ | .behind _ | .returned _ => True
  | _ => False

theorem quiet_step {s s' : Shared} {x x' : Pc} (stepped : PcStep s x s' x') (same : s.dev.write = s.dev.read)
    (quiet : x.Quiet) (own : x'.side ≠ some .writer) :
    s'.dev.write = s'.dev.read ∧ s'.touched = s.touched ∧ x'.Quiet := by
  cases stepped with
  | ahead len yes | behind len yes => omega
  | write => exact absurd rfl own
  | read | woken | signal | clear | notAhead | nothing | back => exact ⟨same, rfl, trivial⟩
  | _ => exact absurd quiet id

abbrev ring (read write flag : Int) (mem : Int → UInt8) (touched : List Int) : Shared :=
  ⟨⟨sdevGeometry, read, write, flag, mem⟩, touched⟩

theorem step_alone {s s₁ s₂ : Shared} {x x₁ x₂ : Pc} (w : Side) (stepped : PcStep s x s₁ x₁)
    (own : x₁.side = none ∨ x₁.side = some w) (rest : program.Solo s₁ ⟨w, x₁⟩ s₂ ⟨w, x₂⟩) :
    program.Solo s ⟨w, x⟩ s₂ ⟨w, x₂⟩ :=
  .step () (.mk w stepped own) (fun _ => rfl) rest

variable {r f : Int} {m : Int → UInt8} {l : List Int}

/-- A write of all but one byte, none of which arrives. -/
theorem write_alone :
    program.Solo (ring r 0 f m l) ⟨.writer, .idle⟩ (ring r 41 1 m l) ⟨.writer, .wake 41⟩ := by
  refine step_alone .writer (.write _ (fun _ => 0) 41 (by decide)) (Or.inr rfl) ?_
  refine step_alone .writer (.setFlag _ _ _) (Or.inr rfl) ?_
  refine step_alone .writer (.fits _ _ _ (show 41 < toU64 (42 - 0) by decide)) (Or.inr rfl) ?_
  refine step_alone .writer (.straightStore _ _ _) (Or.inr rfl) ?_
  refine step_alone .writer (.fromUserEnd _ _ _ _ _ _) (Or.inr rfl) ?_
  refine step_alone .writer (.straightMove _ _) (Or.inr rfl) ?_
  exact .refl _ _

end Ldd3.RwBlock.Tasks
