import Ldd3.Base.Ring
import Ldd3.Base.Words

/-!
The pipe device of `nonblock/scullb.c`. The same ring code is in `access/scullb.c` and in
`access/scullb-onlyone_access.c`. Pointers are integer addresses and the kernel memory is a
function from addresses, so nothing keeps a copy inside the buffer except the code's own counts.

Each call is given with the tests, counts and pointer updates of its critical section as separate
functions, because the tasks of `Scullb.Tasks` run them as separate steps. The semaphore and the
wait queues belong to that module. A whole call run alone gives a `Done`: its value, the bytes the
user got and the device it left; `none` is a call that goes to sleep.
-/

namespace Ldd3.Scullb

open Base.Cells Base.Ring Base.Words

-- the fields that only `start` sets; `bufsize` is an `int`
structure Geometry where
  buf : Int
  bufEnd : Int
  bufsize : Int
  span : bufEnd = buf + bufsize
  two_le : 2 ≤ bufsize
  fits : bufsize < 2 ^ 31

/-- The buffer of `DEVSIZE` bytes. -/
def devGeometry : Geometry where
  buf := 0
  bufEnd := 42
  bufsize := 42
  span := by decide
  two_le := by decide
  fits := by decide

structure Sdev extends Geometry where
  rp : Int
  wp : Int
  mem : Int → UInt8

def start (g : Geometry) (mem : Int → UInt8) : Sdev :=
  { g with rp := g.buf, wp := g.buf, mem := mem }

def haveSpace (d : Sdev) : Int :=
  if d.wp = d.rp then d.bufsize - 1 else (d.wp - d.rp + d.bufsize).tmod d.bufsize

/-! ### The critical section of `sdev_read` -/

def readCount (d : Sdev) (len : Nat) : Nat :=
  if d.rp < d.wp then min len (toU64 (d.wp - d.rp)) else min len (toU64 (d.bufEnd - d.rp))

def bumpRp (d : Sdev) (count : Nat) : Sdev := { d with rp := d.rp + count }

def wrapRp (d : Sdev) : Sdev := if d.rp = d.bufEnd then { d with rp := d.buf } else d

def afterRead (d : Sdev) (count : Nat) : Sdev := wrapRp (bumpRp d count)

/-! ### The critical section of `sdev_write` -/

def writeCount (d : Sdev) (len : Nat) : Nat :=
  let count := min len (toU64 (haveSpace d))
  if d.rp ≤ d.wp then min count (toU64 (d.bufEnd - d.wp)) else min count (toU64 (d.rp - d.wp - 1))

-- a copy that misses the last `left` bytes fills them with zeros
def copyFromUser (d : Sdev) (data : List UInt8) (count left : Nat) : Sdev :=
  { d with mem := blit d.mem d.wp (data.take (count - left) ++ List.replicate left 0) }

def bumpWp (d : Sdev) (count : Nat) : Sdev := { d with wp := d.wp + count }

def wrapWp (d : Sdev) : Sdev := if d.wp = d.bufEnd then { d with wp := d.buf } else d

def afterWrite (d : Sdev) (data : List UInt8) (count left : Nat) : Sdev :=
  wrapWp (bumpWp (copyFromUser d data count left) count)

/-! ### Whole calls -/

structure Done where
  ret : Except Errno Nat
  delivered : List UInt8
  dev : Sdev

def sdevRead (d : Sdev) (nonblock : Bool) (len fault : Nat) : Option Done :=
  if d.rp = d.wp then
    if nonblock then some ⟨.error .EAGAIN, [], d⟩ else none
  else
    let count := readCount d len
    -- the copy misses `fault` bytes, or all; its result is unsigned and never below zero
    let left := min fault count
    if left < 0 then some ⟨.error .EFAULT, fetch d.mem d.rp (count - left), d⟩
    else some ⟨.ok count, fetch d.mem d.rp (count - left), afterRead d count⟩

def sdevWrite (d : Sdev) (nonblock : Bool) (data : List UInt8) (fault : Nat) : Option Done :=
  if haveSpace d = 0 then
    if nonblock then some ⟨.error .EAGAIN, [], d⟩ else none
  else
    let count := writeCount d data.length
    let left := min fault count
    -- the result of the copy goes through the `int` variable `ret`
    if toInt32 left < 0 then some ⟨.error .EFAULT, [], copyFromUser d data count left⟩
    else some ⟨.ok count, [], afterWrite d data count left⟩

/-- `POLLIN | POLLRDNORM` is 0x41 and `POLLOUT | POLLWRNORM` is 0x104. -/
def pollMask (d : Sdev) : Nat :=
  (if d.rp ≠ d.wp then 0x41 else 0) ||| (if haveSpace d ≠ 0 then 0x104 else 0)

def sdevPoll (d : Sdev) : Done := ⟨.ok (pollMask d), [], d⟩

-- the cyclic range from `rp` to `wp`
def unread (d : Sdev) : List UInt8 :=
  if d.rp ≤ d.wp then fetch d.mem d.rp (d.wp - d.rp).toNat
  else fetch d.mem d.rp (d.bufEnd - d.rp).toNat ++ fetch d.mem d.buf (d.wp - d.buf).toNat

theorem unread_eq (d : Sdev) : unread d = held d.mem d.buf d.bufEnd d.rp d.wp := rfl

/-! ### Pointer bounds -/

structure Within (d : Sdev) : Prop where
  rp_low : d.buf ≤ d.rp
  rp_high : d.rp < d.bufEnd
  wp_low : d.buf ≤ d.wp
  wp_high : d.wp < d.bufEnd

variable {d : Sdev}

theorem start_within (g : Geometry) (mem : Int → UInt8) : Within (start g mem) := by
  have span := g.span
  have positive := g.two_le
  constructor <;> simp only [start] <;> omega

theorem length_unread_ahead (ahead : d.rp ≤ d.wp) : ((unread d).length : Int) = d.wp - d.rp :=
  length_held_ahead ahead

theorem length_unread_behind (h : Within d) (behind : d.wp < d.rp) :
    ((unread d).length : Int) = d.bufsize - (d.rp - d.wp) := by
  have span := d.span
  have count : ((unread d).length : Int) = d.bufEnd - d.rp + (d.wp - d.buf) :=
    length_held_behind behind h.rp_high.le h.wp_low
  omega

theorem haveSpace_empty (empty : d.wp = d.rp) : haveSpace d = d.bufsize - 1 := if_pos empty

theorem haveSpace_ahead (h : Within d) (ahead : d.rp < d.wp) : haveSpace d = d.wp - d.rp := by
  obtain ⟨rpLow, _, _, wpHigh⟩ := h
  have span := d.span
  have size := d.two_le
  have fill : (d.wp - d.rp + d.bufsize).tmod d.bufsize = (d.wp - d.rp) % d.bufsize := by
    rw [Int.tmod_eq_emod_of_nonneg (by omega), Int.add_emod_right]
  rw [haveSpace, if_neg (by omega), fill]
  exact Int.emod_eq_of_lt (by omega) (by omega)

theorem haveSpace_behind (h : Within d) (behind : d.wp < d.rp) :
    haveSpace d = d.wp - d.rp + d.bufsize := by
  obtain ⟨_, rpHigh, wpLow, _⟩ := h
  have span := d.span
  rw [haveSpace, if_neg (by omega), Int.tmod_eq_emod_of_nonneg (by omega)]
  exact Int.emod_eq_of_lt (by omega) (by omega)

/-- `have_space` is never zero: outside an empty ring it is the number of unread bytes. -/
theorem haveSpace_range (h : Within d) : 0 < haveSpace d ∧ haveSpace d < d.bufsize := by
  have size := d.two_le
  have span := d.span
  obtain ⟨rpLow, rpHigh, wpLow, wpHigh⟩ := h
  rcases Int.lt_trichotomy d.rp d.wp with ahead | empty | behind
  · rw [haveSpace_ahead ⟨rpLow, rpHigh, wpLow, wpHigh⟩ ahead]; omega
  · rw [haveSpace_empty empty.symm]; omega
  · rw [haveSpace_behind ⟨rpLow, rpHigh, wpLow, wpHigh⟩ behind]; omega

theorem readCount_ahead (h : Within d) (ahead : d.rp < d.wp) (len : Nat) :
    readCount d len = min len (d.wp - d.rp).toNat := by
  have span := d.span
  have size := d.fits
  obtain ⟨rpLow, _, _, wpHigh⟩ := h
  rw [readCount, if_pos ahead, toU64_of_range (by omega) (by omega)]

theorem readCount_behind (h : Within d) (behind : d.wp ≤ d.rp) (len : Nat) :
    readCount d len = min len (d.bufEnd - d.rp).toNat := by
  have span := d.span
  have size := d.fits
  obtain ⟨rpLow, rpHigh, _, _⟩ := h
  rw [readCount, if_neg (by omega), toU64_of_range (by omega) (by omega)]

theorem writeCount_ahead (h : Within d) (ahead : d.rp ≤ d.wp) (len : Nat) :
    writeCount d len = min (min len (haveSpace d).toNat) (d.bufEnd - d.wp).toNat := by
  have span := d.span
  have size := d.fits
  have space := haveSpace_range h
  obtain ⟨_, _, wpLow, wpHigh⟩ := h
  simp only [writeCount, if_pos ahead]
  rw [toU64_of_range (by omega) (by omega), toU64_of_range (by omega) (by omega)]

theorem writeCount_behind (h : Within d) (behind : d.wp < d.rp) (len : Nat) :
    writeCount d len = min (min len (haveSpace d).toNat) (d.rp - d.wp - 1).toNat := by
  have span := d.span
  have size := d.fits
  have space := haveSpace_range h
  obtain ⟨_, rpHigh, wpLow, _⟩ := h
  simp only [writeCount, if_neg (Int.not_le.mpr behind)]
  rw [toU64_of_range (by omega) (by omega), toU64_of_range (by omega) (by omega)]

theorem readCount_le (h : Within d) (len : Nat) : d.rp + readCount d len ≤ d.bufEnd := by
  have bounds := h
  obtain ⟨_, rpHigh, _, wpHigh⟩ := bounds
  by_cases ahead : d.rp < d.wp
  · rw [readCount_ahead h ahead len]; omega
  · rw [readCount_behind h (by omega) len]; omega

theorem writeCount_le (h : Within d) (len : Nat) :
    writeCount d len ≤ len ∧ d.wp + writeCount d len ≤ d.bufEnd := by
  have bounds := h
  obtain ⟨_, rpHigh, _, wpHigh⟩ := bounds
  by_cases ahead : d.rp ≤ d.wp
  · rw [writeCount_ahead h ahead len]; omega
  · rw [writeCount_behind h (by omega) len]; omega

theorem afterRead_eq (d : Sdev) (count : Nat) :
    afterRead d count = { d with rp := advance d.buf d.bufEnd d.rp count } := by
  by_cases wraps : d.rp + (count : Int) = d.bufEnd
  · rw [advance_wraps wraps]
    exact if_pos wraps
  · rw [advance_stays wraps]
    exact if_neg wraps

theorem afterWrite_eq (d : Sdev) (data : List UInt8) (count left : Nat) :
    afterWrite d data count left =
      { d with wp := advance d.buf d.bufEnd d.wp count, mem := (copyFromUser d data count left).mem } := by
  by_cases wraps : d.wp + (count : Int) = d.bufEnd
  · rw [advance_wraps wraps]
    exact if_pos wraps
  · rw [advance_stays wraps]
    exact if_neg wraps

theorem copyFromUser_whole (data : List UInt8) (count : Nat) :
    (copyFromUser d data count 0).mem = blit d.mem d.wp (data.take count) := by
  simp [copyFromUser]

theorem within_afterRead (h : Within d) (len : Nat) : Within (afterRead d (readCount d len)) := by
  have range := advance_range h.rp_low h.rp_high (readCount_le h len)
  rw [afterRead_eq]
  exact ⟨range.1, range.2, h.wp_low, h.wp_high⟩

theorem within_afterWrite (h : Within d) (data : List UInt8) (left : Nat) :
    Within (afterWrite d data (writeCount d data.length) left) := by
  have range := advance_range h.wp_low h.wp_high (writeCount_le h data.length).2
  rw [afterWrite_eq]
  exact ⟨h.rp_low, h.rp_high, range.1, range.2⟩

/-! ### What a call returns -/

theorem sdevRead_empty (empty : d.rp = d.wp) (nonblock : Bool) (len fault : Nat) :
    sdevRead d nonblock len fault = if nonblock then some ⟨.error .EAGAIN, [], d⟩ else none :=
  if_pos empty

theorem sdevRead_ready (ready : d.rp ≠ d.wp) (nonblock : Bool) (len fault : Nat) :
    sdevRead d nonblock len fault = some ⟨.ok (readCount d len),
      fetch d.mem d.rp (readCount d len - min fault (readCount d len)),
      afterRead d (readCount d len)⟩ := by
  simp [sdevRead, ready]

/-- A write never sleeps and never reports a fault: there always seems to be space, and the number
of bytes a copy missed fits an `int`. -/
theorem sdevWrite_ready (h : Within d) (nonblock : Bool) (data : List UInt8) (fault : Nat) :
    sdevWrite d nonblock data fault = some ⟨.ok (writeCount d data.length), [],
      afterWrite d data (writeCount d data.length) (min fault (writeCount d data.length))⟩ := by
  have space := (haveSpace_range h).1
  have bound := (writeCount_le h data.length).2
  have size := d.fits
  have span := d.span
  have low := h.wp_low
  have missed : ¬ toInt32 (min fault (writeCount d data.length) : Nat) < 0 := by
    rw [toInt32_of_range (by omega) (by omega)]
    omega
  simp only [sdevWrite]
  rw [if_neg (by omega), if_neg missed]

end Ldd3.Scullb
