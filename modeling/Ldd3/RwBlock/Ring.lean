import Ldd3.Base.Fifo
import Ldd3.Base.Ring
import Ldd3.Base.Words

/-!
The ring of `rw_block/scullb.c`. Its positions `read` and `write` are indices, and both calls may go
round the end of the buffer: a read in up to two copies, a write in exactly two once it reaches the
end. A write never looks at `read`; the lines that did are commented out. What it writes over is
lost, and a write that comes to stand on `read` empties the ring.

A read sleeps until some write has set `flag`, unless a signal ends its sleep: the result of the wait
is dropped. In the straight branch it copies everything there is, whatever was asked for: the clamp
assigns `len` where `count` is meant. Copies succeed here; their error returns cannot be taken, since
the number of bytes a copy missed is unsigned and is tested with `< 0`.
-/

namespace Ldd3.RwBlock

open Base.Cells Base.Fifo Base.Ring Base.Words

-- the fields that only `start` sets; `size` is an `int`
structure Geometry where
  buf : Int
  size : Int
  one_le : 1 ≤ size
  fits : size < 2 ^ 31

def SDEVSIZE : Int := 42

def sdevGeometry : Geometry where
  buf := 0
  size := SDEVSIZE
  one_le := by decide
  fits := by decide

structure Sdev extends Geometry where
  read : Int
  write : Int
  flag : Int
  mem : Int → UInt8

def start (g : Geometry) (mem : Int → UInt8) : Sdev :=
  { g with read := 0, write := 0, flag := 0, mem := mem }

structure Done where
  ret : Int
  delivered : List UInt8
  dev : Sdev

/-! ### `sdev_read` -/

def readStraight (d : Sdev) : Done :=
  let count := toInt32 (d.write - d.read)
  ⟨count, fetch d.mem (d.buf + d.read) (toU64 count), { d with read := toInt32 (d.read + count) }⟩

def firstCount (d : Sdev) (len : Nat) : Int :=
  let count := toInt32 (d.size - d.read)
  if len < toU64 count then toInt32 len else count

def secondCount (d : Sdev) (len : Nat) (sum : Int) : Int :=
  let count := if toU64 (len - sum) < toU64 d.write then toInt32 (len - sum) else d.write
  let count := if d.write ≤ count then toInt32 (d.write - 1) else count
  max count 0

def readRound (d : Sdev) (len : Nat) : Done :=
  let sum := firstCount d len
  let first := fetch d.mem (d.buf + d.read) (toU64 sum)
  if len < toU64 (d.size - d.read) then ⟨sum, first, { d with read := toInt32 (d.read + sum) }⟩
  else
    let count := secondCount d len sum
    ⟨toInt32 (sum + count), first ++ fetch d.mem d.buf (toU64 count), { d with read := count }⟩

def sdevRead (d : Sdev) (signal : Bool) (len : Nat) : Option Done :=
  if d.flag = 0 ∧ signal = false then none
  else
    let d := { d with flag := 0 }
    if d.read < d.write then some (readStraight d)
    else if d.write < d.read then some (readRound d len)
    else some ⟨0, [], d⟩

/-! ### `sdev_write` -/

def writeStraight (d : Sdev) (data : List UInt8) : Done :=
  let count := toInt32 data.length
  ⟨count, [], { d with
    mem := blit d.mem (d.buf + d.write) (data.take (toU64 count))
    write := toInt32 (d.write + count) }⟩

def roundCount (d : Sdev) (len : Nat) (sum : Int) : Int :=
  let count := toInt32 (len - sum)
  if d.size < count then d.size else count

def writeRound (d : Sdev) (data : List UInt8) : Done :=
  let sum := toInt32 (d.size - d.write)
  let mem := blit d.mem (d.buf + d.write) (data.take (toU64 sum))
  let count := roundCount d data.length sum
  ⟨toInt32 (sum + count), [], { d with
    mem := blit mem d.buf ((data.drop (toU64 sum)).take (toU64 count))
    write := count }⟩

def sdevWrite (d : Sdev) (data : List UInt8) : Done :=
  let d := { d with flag := 1 }
  if data.length < toU64 (d.size - d.write) then writeStraight d data else writeRound d data

def unread (d : Sdev) : List UInt8 :=
  held d.mem d.buf (d.buf + d.size) (d.buf + d.read) (d.buf + d.write)

/-! ### Reads from good states -/

structure Good (d : Sdev) : Prop where
  read_low : 0 ≤ d.read
  read_high : d.read < d.size
  write_low : 0 ≤ d.write
  write_high : d.write < d.size

-- an over-long write leaves `write` at `size`, and the next read `read` as well
structure Within (d : Sdev) : Prop where
  read_low : 0 ≤ d.read
  read_high : d.read ≤ d.size
  write_low : 0 ≤ d.write
  write_high : d.write ≤ d.size

/-- The room above an index is in the range of every type that the code converts it to. -/
theorem Geometry.toInt32_above (g : Geometry) {i : Int} (low : 0 ≤ i) (high : i ≤ g.size) :
    toInt32 (g.size - i) = g.size - i := by
  have size := g.fits
  exact toInt32_of_range (by omega) (by omega)

theorem Geometry.toU64_above (g : Geometry) {i : Int} (low : 0 ≤ i) (high : i ≤ g.size) :
    toU64 (g.size - i) = (g.size - i).toNat := by
  have size := g.fits
  exact toU64_of_range (by omega) (by omega)

variable {d : Sdev}

theorem start_good (g : Geometry) (mem : Int → UInt8) : Good (start g mem) := by
  have size := g.one_le
  constructor <;> simp only [start] <;> omega

theorem Good.within (h : Good d) : Within d := ⟨h.read_low, h.read_high.le, h.write_low, h.write_high.le⟩

theorem Within.setFlag (h : Within d) (flag : Int) : Within { d with flag := flag } :=
  ⟨h.read_low, h.read_high, h.write_low, h.write_high⟩

theorem readStraight_eq (h : Within d) (ahead : d.read < d.write) :
    readStraight d = ⟨d.write - d.read, fetch d.mem (d.buf + d.read) (d.write - d.read).toNat,
      { d with read := d.write }⟩ := by
  have size := d.fits
  obtain ⟨readLow, _, _, writeHigh⟩ := h
  have count : toInt32 (d.write - d.read) = d.write - d.read := toInt32_of_range (by omega) (by omega)
  have moved : toInt32 (d.read + (d.write - d.read)) = d.write := by
    rw [toInt32_of_range (by omega) (by omega)]
    omega
  have copied : toU64 (d.write - d.read) = (d.write - d.read).toNat := toU64_of_range (by omega) (by omega)
  simp only [readStraight, count, moved, copied]

theorem firstCount_eq (h : Within d) (len : Nat) : firstCount d len = min (len : Int) (d.size - d.read) := by
  have size := d.fits
  obtain ⟨readLow, readHigh, _, _⟩ := h
  have count := d.toInt32_above readLow readHigh
  have wide := d.toU64_above readLow readHigh
  rw [firstCount, count, wide]
  split
  · rw [toInt32_of_range (by omega) (by omega)]
    omega
  · omega

theorem secondCount_eq (h : Within d) {len : Nat} (bound : len < 2 ^ 64) (reaches : d.size - d.read ≤ len) :
    secondCount d len (d.size - d.read) =
      max (min (len - (d.size - d.read)) (d.write - 1)) 0 := by
  have size := d.fits
  obtain ⟨readLow, readHigh, writeLow, writeHigh⟩ := h
  have wide : toU64 d.write = d.write.toNat := toU64_of_range (by omega) (by omega)
  have rest : toU64 (len - (d.size - d.read)) = (len - (d.size - d.read)).toNat :=
    toU64_of_range (by omega) (by omega)
  have last : toInt32 (d.write - 1) = d.write - 1 := toInt32_of_range (by omega) (by omega)
  simp only [secondCount, wide, rest, last]
  by_cases short : (len - (d.size - d.read)).toNat < d.write.toNat
  · rw [if_pos short, toInt32_of_range (by omega) (by omega), if_neg (by omega)]
    omega
  · rw [if_neg short, if_pos (Int.le_refl _)]
    omega

theorem readStraight_spec (h : Good d) (ahead : d.read < d.write) :
    Good (readStraight d).dev ∧
      unread d = (readStraight d).delivered ++ unread (readStraight d).dev := by
  rw [readStraight_eq h.within ahead]
  refine ⟨⟨h.write_low, h.write_high, h.write_low, h.write_high⟩, ?_⟩
  have span : d.buf + d.write - (d.buf + d.read) = d.write - d.read := by omega
  simp only [unread, held_self, List.append_nil]
  rw [held_ahead (by omega), span]

theorem readRound_short (h : Within d) {len : Nat} (short : (len : Int) < d.size - d.read) :
    readRound d len = ⟨len, fetch d.mem (d.buf + d.read) len, { d with read := d.read + len }⟩ := by
  have size := d.fits
  have first : firstCount d len = len := by
    rw [firstCount_eq h]
    omega
  obtain ⟨readLow, readHigh, _, _⟩ := h
  have wide := d.toU64_above readLow readHigh
  have moved : toInt32 (d.read + len) = d.read + len := toInt32_of_range (by omega) (by omega)
  have copied : toU64 (len : Int) = len := by
    rw [toU64_of_range (by omega) (by omega)]
    rfl
  have inside : len < (d.size - d.read).toNat := by omega
  simp only [readRound, wide, if_pos inside, first, moved, copied]

/-- A read that goes round leaves at least the last byte before `write`, so it never uses up the
lower piece. -/
theorem readRound_long (h : Within d) (behind : d.write < d.read) {len : Nat} (bound : len < 2 ^ 64)
    (long : d.size - d.read ≤ len) :
    ∃ count : Nat, (count : Int) = max (min (len - (d.size - d.read)) (d.write - 1)) 0 ∧
      readRound d len = ⟨d.size - d.read + count,
        fetch d.mem (d.buf + d.read) (d.size - d.read).toNat ++ fetch d.mem d.buf count,
        { d with read := count }⟩ := by
  have size := d.fits
  have first : firstCount d len = d.size - d.read := by
    rw [firstCount_eq h]
    omega
  have second := secondCount_eq h bound long
  obtain ⟨readLow, readHigh, writeLow, writeHigh⟩ := h
  have wide := d.toU64_above readLow readHigh
  have outside : ¬ len < (d.size - d.read).toNat := by omega
  simp only [readRound, wide, if_neg outside, first]
  generalize secondCount d len (d.size - d.read) = count at second ⊢
  have back : ((count.toNat : Nat) : Int) = count := by omega
  refine ⟨count.toNat, by omega, ?_⟩
  have copied : toU64 count = count.toNat := toU64_of_range (by omega) (by omega)
  have total : toInt32 (d.size - d.read + count) = d.size - d.read + count :=
    toInt32_of_range (by omega) (by omega)
  rw [total, copied, back]

theorem readRound_spec (h : Good d) (behind : d.write < d.read) {len : Nat} (bound : len < 2 ^ 64) :
    Good (readRound d len).dev ∧
      unread d = (readRound d len).delivered ++ unread (readRound d len).dev := by
  have bounds := h
  obtain ⟨readLow, readHigh, writeLow, writeHigh⟩ := bounds
  by_cases short : (len : Int) < d.size - d.read
  · rw [readRound_short h.within short]
    refine ⟨⟨by simp only; omega, by simp only; omega, writeLow, writeHigh⟩, ?_⟩
    have taken := @held_take _ d.buf (d.buf + d.size) (d.buf + d.read) (d.buf + d.write) len d.mem
      (by omega) (by omega) (by rw [if_neg (by omega)]; omega)
    rw [advance_stays (by omega), Int.add_assoc] at taken
    exact taken
  · obtain ⟨count, small, done⟩ := readRound_long h.within behind bound (Int.not_lt.mp short)
    rw [done]
    refine ⟨⟨by simp only; omega, by simp only; omega, writeLow, writeHigh⟩, ?_⟩
    -- the two copies are two takes, the first of which wraps
    have upper := @held_take _ d.buf (d.buf + d.size) (d.buf + d.read) (d.buf + d.write)
      (d.size - d.read).toNat d.mem (by omega) (by omega) (by rw [if_neg (by omega)]; omega)
    have lower := @held_take _ d.buf (d.buf + d.size) d.buf (d.buf + d.write) count d.mem
      (by omega) (by omega) (by rw [if_pos (by omega)]; omega)
    rw [advance_wraps (by omega)] at upper
    rw [advance_stays (by omega)] at lower
    rw [unread, upper, lower, List.append_assoc]
    rfl

/-! ### Writes from good states -/

theorem writeStraight_eq (h : Within d) {data : List UInt8} (short : (data.length : Int) < d.size - d.write) :
    writeStraight d data = ⟨data.length, [],
      { d with mem := blit d.mem (d.buf + d.write) data, write := d.write + data.length }⟩ := by
  have size := d.fits
  obtain ⟨_, _, writeLow, writeHigh⟩ := h
  have count : toInt32 data.length = data.length := toInt32_of_range (by omega) (by omega)
  have moved : toInt32 (d.write + data.length) = d.write + data.length :=
    toInt32_of_range (by omega) (by omega)
  have copied : toU64 (data.length : Int) = data.length := by
    rw [toU64_of_range (by omega) (by omega)]
    rfl
  simp only [writeStraight, count, moved, copied, List.take_length]

theorem writeRound_eq (h : Within d) {data : List UInt8} (bound : data.length < 2 ^ 31)
    (long : d.size - d.write ≤ data.length) :
    ∃ first second : Nat, (first : Int) = d.size - d.write ∧
      (second : Int) = min (data.length - (d.size - d.write)) d.size ∧
      writeRound d data = ⟨first + second, [], { d with
        mem := blit (blit d.mem (d.buf + d.write) (data.take first)) d.buf ((data.drop first).take second)
        write := second }⟩ := by
  have size := d.fits
  obtain ⟨_, _, writeLow, writeHigh⟩ := h
  refine ⟨(d.size - d.write).toNat, (min (data.length - (d.size - d.write)) d.size).toNat, by omega,
    by omega, ?_⟩
  have sum := d.toInt32_above writeLow writeHigh
  have copied := d.toU64_above writeLow writeHigh
  have count : roundCount d data.length (d.size - d.write) =
      min (data.length - (d.size - d.write)) d.size := by
    rw [roundCount, toInt32_of_range (by omega) (by omega)]
    split <;> omega
  have range : 0 ≤ min (data.length - (d.size - d.write)) d.size ∧
      d.size - d.write + min (data.length - (d.size - d.write)) d.size ≤ data.length := by omega
  simp only [writeRound, sum, copied, count]
  generalize (min (data.length - (d.size - d.write)) d.size : Int) = second at range ⊢
  have total : toInt32 (d.size - d.write + second) = d.size - d.write + second :=
    toInt32_of_range (by omega) (by omega)
  have rest : toU64 second = second.toNat := toU64_of_range (by omega) (by omega)
  have back : ((second.toNat : Nat) : Int) = second := by omega
  have front : (((d.size - d.write).toNat : Nat) : Int) = d.size - d.write := by omega
  rw [total, rest, back, front]

/-! ### The ring as a queue -/

-- `MAX_RW_COUNT`: the VFS cuts every request down to it
def maxRwCount : Nat := 0x7ffff000

theorem lt_of_limit {n : Nat} (limit : n ≤ maxRwCount) : n < 2 ^ 31 :=
  limit.trans_lt (by decide)

inductive Call where
  | read (signal : Bool) (len : Nat) (limit : len ≤ maxRwCount)
  | write (data : List UInt8) (limit : data.length ≤ maxRwCount)

def Call.perform (d : Sdev) : Call → Option Done
  | .read signal len _ => sdevRead d signal len
  | .write data _ => some (sdevWrite d data)

def Call.accepted : Call → Int → List UInt8
  | .read _ _ _, _ => []
  | .write data _, ret => data.take ret.toNat

def pipe : Pipe Sdev Call UInt8 where
  call d c := (c.perform d).map fun done => ⟨done.dev, done.delivered, c.accepted done.ret⟩
  held := unread

/-- The write does not fit beside the unread bytes with one cell left free. -/
def Overruns (d : Sdev) : Call → Prop
  | .read _ _ _ => False
  | .write data _ => d.size ≤ (unread d).length + data.length

theorem length_unread_ahead (ahead : d.read ≤ d.write) :
    ((unread d).length : Int) = d.write - d.read := by
  rw [unread, length_held_ahead (by omega)]
  omega

theorem length_unread_behind (behind : d.write < d.read) (high : d.read ≤ d.size) (low : 0 ≤ d.write) :
    ((unread d).length : Int) = d.size - d.read + d.write := by
  rw [unread, length_held_behind (by omega) (by omega) (by omega)]
  omega

theorem sdevRead_spec (h : Good d) {signal : Bool} {len : Nat} (bound : len < 2 ^ 64) {done : Done}
    (called : sdevRead d signal len = some done) :
    Good done.dev ∧ unread d = done.delivered ++ unread done.dev := by
  -- `flag` is cleared first, which neither the bounds nor the unread bytes depend on
  have cleared : Good { d with flag := 0 } := ⟨h.read_low, h.read_high, h.write_low, h.write_high⟩
  have same : unread d = unread { d with flag := 0 } := rfl
  unfold sdevRead at called
  rw [same]
  split at called
  · cases called
  · simp only at called
    split at called
    · cases called
      exact readStraight_spec cleared ‹_›
    · split at called
      · cases called
        exact readRound_spec cleared ‹_› bound
      · cases called
        exact ⟨cleared, rfl⟩

theorem sdevWrite_straight (h : Within d) {data : List UInt8} (short : (data.length : Int) < d.size - d.write) :
    sdevWrite d data = ⟨data.length, [], { d with
      flag := 1, mem := blit d.mem (d.buf + d.write) data, write := d.write + data.length }⟩ := by
  have wide : data.length < toU64 (d.size - d.write) := by
    rw [d.toU64_above h.write_low h.write_high]
    omega
  simp only [sdevWrite, if_pos wide]
  rw [writeStraight_eq (h.setFlag 1) short]

theorem sdevWrite_round (h : Within d) {data : List UInt8} (bound : data.length < 2 ^ 31)
    (long : d.size - d.write ≤ data.length) :
    ∃ first second : Nat, (first : Int) = d.size - d.write ∧
      (second : Int) = min (data.length - (d.size - d.write)) d.size ∧
      sdevWrite d data = ⟨first + second, [], { d with
        flag := 1
        mem := blit (blit d.mem (d.buf + d.write) (data.take first)) d.buf ((data.drop first).take second)
        write := second }⟩ := by
  have wide : ¬ data.length < toU64 (d.size - d.write) := by
    rw [d.toU64_above h.write_low h.write_high]
    omega
  obtain ⟨first, second, firstEq, secondEq, done⟩ := writeRound_eq (h.setFlag 1) bound long
  refine ⟨first, second, firstEq, secondEq, ?_⟩
  simp only [sdevWrite, if_neg wide]
  exact done

/-- A write that leaves a cell free appends all of its bytes. -/
theorem sdevWrite_keeps (h : Good d) {data : List UInt8} (bound : data.length < 2 ^ 31)
    (room : (unread d).length + data.length < d.size) :
    (sdevWrite d data).ret = data.length ∧ Good (sdevWrite d data).dev ∧
      unread (sdevWrite d data).dev = unread d ++ data := by
  have bounds := h
  obtain ⟨readLow, readHigh, writeLow, writeHigh⟩ := bounds
  by_cases short : (data.length : Int) < d.size - d.write
  · rw [sdevWrite_straight h.within short]
    refine ⟨rfl, ⟨readLow, readHigh, by simp only; omega, by simp only; omega⟩, ?_⟩
    have put := @held_put _ d.buf (d.buf + d.size) (d.buf + d.read) (d.buf + d.write) d.mem data
      (by omega) (by omega) (by omega) (by rw [← unread]; omega)
    rw [advance_stays (by omega), Int.add_assoc] at put
    exact put
  · -- `read` is at or below `write`, and what goes round stays below `read`
    have ahead : d.read ≤ d.write := by
      by_contra behind
      rw [length_unread_behind (by omega) readHigh.le writeLow] at room
      omega
    obtain ⟨first, second, firstEq, secondEq, done⟩ := sdevWrite_round h.within bound (Int.not_lt.mp short)
    have count := length_unread_ahead ahead
    have whole : data.length = first + second := by omega
    have firstTaken : (data.take first).length = first := by
      rw [List.length_take, whole]
      omega
    have secondTaken : (data.drop first).take second = data.drop first :=
      List.take_of_length_le (by rw [List.length_drop]; omega)
    have upper := @held_put _ d.buf (d.buf + d.size) (d.buf + d.read) (d.buf + d.write) d.mem
      (data.take first) (by omega) (by omega) (by omega)
      (by rw [← unread, firstTaken]; omega)
    rw [advance_wraps (by omega), ← unread] at upper
    have lower := @held_put _ d.buf (d.buf + d.size) (d.buf + d.read) d.buf
      (blit d.mem (d.buf + d.write) (data.take first)) (data.drop first) (by omega) (by omega) (by omega)
      (by rw [upper, List.length_append, firstTaken, List.length_drop]; omega)
    rw [upper, List.append_assoc, List.take_append_drop, advance_stays (by rw [List.length_drop]; omega),
      List.length_drop, show data.length - first = second by omega] at lower
    rw [done, secondTaken]
    refine ⟨by simp only; omega, ⟨readLow, readHigh, by simp only; omega, by simp only; omega⟩, ?_⟩
    exact lower

/-- A write that leaves no cell free loses at least one turn of the ring. -/
theorem sdevWrite_broken (h : Good d) {data : List UInt8} (bound : data.length < 2 ^ 31)
    (full : d.size ≤ (unread d).length + data.length) :
    ((unread (sdevWrite d data).dev).length : Int) <
      (unread d).length + (data.take (sdevWrite d data).ret.toNat).length := by
  have size := d.one_le
  have bounds := h
  obtain ⟨readLow, readHigh, writeLow, writeHigh⟩ := bounds
  by_cases short : (data.length : Int) < d.size - d.write
  · -- then `write` was below `read` and is not any more
    have behind : d.write < d.read := by
      by_contra ahead
      rw [length_unread_ahead (by omega)] at full
      omega
    rw [length_unread_behind behind readHigh.le writeLow] at full ⊢
    rw [sdevWrite_straight h.within short, length_unread_ahead (by simp only; omega)]
    simp only [Int.toNat_natCast, List.take_length]
    omega
  · obtain ⟨first, second, firstEq, secondEq, done⟩ := sdevWrite_round h.within bound (Int.not_lt.mp short)
    have taken : (data.take (first + second : Int).toNat).length = first + second := by
      rw [List.length_take]
      omega
    have read : (sdevWrite d data).dev.read = d.read := by rw [done]
    have write : (sdevWrite d data).dev.write = second := by rw [done]
    have sizes : (sdevWrite d data).dev.size = d.size := by rw [done]
    rw [show (sdevWrite d data).ret = first + second by rw [done], taken]
    generalize (sdevWrite d data).dev = d' at read write sizes ⊢
    by_cases ahead : d.read ≤ d.write
    · rw [length_unread_ahead ahead] at full ⊢
      rw [length_unread_ahead (by omega)]
      omega
    · rw [length_unread_behind (by omega) readHigh.le writeLow] at full ⊢
      by_cases past : d'.read ≤ d'.write
      · rw [length_unread_ahead past]
        omega
      · rw [length_unread_behind (by omega) (by omega) (by omega)]
        omega

theorem sdevWrite_delivered (d : Sdev) (data : List UInt8) : (sdevWrite d data).delivered = [] := by
  simp only [sdevWrite]
  split <;> rfl

theorem pipe_lawful : Lawful pipe Good Overruns where
  good_step := by
    rintro d (⟨signal, len, limit⟩ | ⟨data, limit⟩) done h clean called
    · obtain ⟨result, performed, rfl⟩ := Option.map_eq_some_iff.mp called
      exact (sdevRead_spec h ((lt_of_limit limit).trans (by decide)) performed).1
    · cases called
      exact (sdevWrite_keeps h (lt_of_limit limit) (Int.not_le.mp clean)).2.1
  keeps := by
    rintro d (⟨signal, len, limit⟩ | ⟨data, limit⟩) done h clean called
    · obtain ⟨result, performed, rfl⟩ := Option.map_eq_some_iff.mp called
      simp only [Call.accepted, List.append_nil]
      exact (sdevRead_spec h ((lt_of_limit limit).trans (by decide)) performed).2
    · cases called
      obtain ⟨ret, _, appended⟩ := sdevWrite_keeps h (lt_of_limit limit) (Int.not_le.mp clean)
      simp only [Call.accepted, ret, Int.toNat_natCast, List.take_length, sdevWrite_delivered]
      exact appended.symm
  broken := by
    rintro d (⟨signal, len, limit⟩ | ⟨data, limit⟩) h lost
    · exact absurd lost id
    · refine ⟨_, rfl, fun same => ?_⟩
      have fewer := sdevWrite_broken h (lt_of_limit limit) lost
      have lengths := congrArg List.length same
      simp only [Call.accepted, pipe, List.length_append, sdevWrite_delivered, List.length_nil] at lengths
      omega

def started (g : Geometry) (mem : Int → UInt8) : Flow Sdev UInt8 := ⟨start g mem, [], []⟩

/-- What the reads returned is a prefix of what the writes accepted, and all of it once nothing is
unread. -/
def Fifo (f : Flow Sdev UInt8) : Prop :=
  f.given <+: f.taken ∧ (unread f.state = [] → f.given = f.taken)

theorem Fifo.of_law {f : Flow Sdev UInt8} (law : f.given ++ unread f.state = f.taken) : Fifo f := by
  refine ⟨⟨unread f.state, law⟩, fun none => ?_⟩
  rw [← law, none, List.append_nil]

/-- After every run whose writes all leave a cell of the ring free, what was returned followed by
what is unread is what was accepted; a run with another write breaks that. -/
theorem fifo_of_cell_free (g : Geometry) (mem : Int → UInt8) (calls : List Call) :
    ((∀ prior f, prior <+: calls → run pipe (started g mem) prior = some f →
        f.given ++ unread f.state = f.taken) ↔ Never pipe Overruns (started g mem) calls) ∧
    (Never pipe Overruns (started g mem) calls →
      ∀ prior f, prior <+: calls → run pipe (started g mem) prior = some f → Fifo f) := by
  have law : Law pipe (started g mem) := by simp [Law, started, pipe, unread, start]
  have exactly : (∀ prior f, prior <+: calls → run pipe (started g mem) prior = some f → Law pipe f) ↔
      Never pipe Overruns (started g mem) calls := pipe_lawful.law_iff_never (start_good g mem) law
  exact ⟨exactly, fun clean prior f isPrefix ran => Fifo.of_law (exactly.mpr clean prior f isPrefix ran)⟩

def threeBytes : List Call := [.write [97, 98, 99] (by decide), .read false 10 (by decide)]

theorem fifo_three_bytes :
    ∃ f, run pipe (started sdevGeometry fun _ => 0) threeBytes = some f ∧ f.given = [97, 98, 99] ∧ Fifo f := by
  refine ⟨_, rfl, rfl, ?_⟩
  refine (fifo_of_cell_free sdevGeometry (fun _ => 0) threeBytes).2 ?_ threeBytes _ (List.prefix_refl _) rfl
  refine never_cons ?_ fun g _ => never_cons id fun _ _ => never_nil
  simp only [Overruns]
  decide

/-- One write of 42 bytes: all are accepted, none was returned and nothing is unread. -/
theorem whole_buffer_lost :
    ∃ f, run pipe (started sdevGeometry fun _ => 0)
        [.write (List.replicate 42 97) (by decide)] = some f ∧
      f.given = [] ∧ unread f.state = [] ∧ f.taken.length = 42 ∧ ¬ Fifo f := by
  refine ⟨_, rfl, rfl, rfl, rfl, fun fifo => ?_⟩
  exact absurd (fifo.2 rfl) (by decide)

end Ldd3.RwBlock
