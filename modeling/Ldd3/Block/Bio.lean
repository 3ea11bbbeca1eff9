import Ldd3.Base.Cells
import Ldd3.Base.Words

/-!
The drivers that take whole bios: `bdev_request` of `block/bdev.c` and `request_fn` of
`block/ram2block/ram2.c`. The two differ in the disk size they check against. The memory is a
function of the byte offset from the disk's first byte, so a copy that left the disk would show as
a change outside `[0, size)`. A call returns the segments it leaves behind, the copies it made on
the disk side as offset and length, and the statuses it ended the bio with.
-/

namespace Ldd3.Block

open Base.Cells Base.Words

structure Bio where
  sector : Nat
  size : Nat
  rw : Nat
  segs : List (List UInt8)
  total : (segs.map List.length).sum = size

/-- `bio_data_dir`: 0 is `READ` and 1 is `WRITE`. -/
def bioDataDir (b : Bio) : Nat := b.rw % 2

structure Outcome where
  data : Int → UInt8
  segs : List (List UInt8)
  copies : List (Int × Nat)
  endio : List (Except Errno Unit)

/-- The body of `bio_for_each_segment` with the cursor `buf`; `none` is the jump to `fail`. -/
def forEachSegment (dir : Nat) (data : Int → UInt8) (buf : Int) :
    List (List UInt8) → Option ((Int → UInt8) × List (List UInt8) × List (Int × Nat))
  | [] => some (data, [], [])
  | seg :: rest =>
    if dir = 2 ∨ dir = 0 then
      (forEachSegment dir data (buf + seg.length) rest).map fun (data', segs, copies) =>
        (data', fetch data buf seg.length :: segs, (buf, seg.length) :: copies)
    else if dir = 1 then
      (forEachSegment dir (blit data buf seg) (buf + seg.length) rest).map fun (data', segs, copies) =>
        (data', seg :: segs, (buf, seg.length) :: copies)
    else none

def serveBio (size : Nat) (data : Int → UInt8) (b : Bio) : Outcome :=
  if (b.sector * 512 % 2 ^ 64 + b.size) % 2 ^ 64 > size then ⟨data, b.segs, [], [.error Errno.EIO]⟩
  else
    match forEachSegment (bioDataDir b) data ((b.sector * 512 % 2 ^ 64 : Nat) : Int) b.segs with
    | some (data', segs, copies) => ⟨data', segs, copies, [.ok ()]⟩
    | none => ⟨data, b.segs, [], [.error Errno.EIO]⟩

/-- `struct bdev`; `size` is an `int`. -/
structure Bdev where
  size : Nat
  data : Int → UInt8
  fits : size < 2 ^ 31

def Bdev.bdevRequest (d : Bdev) (b : Bio) : Outcome := serveBio d.size d.data b

def Ram2.requestFn (data : Int → UInt8) (b : Bio) : Outcome := serveBio (32 * 1024 * 512) data b

def Bio.start (b : Bio) : Int := (b.sector * 512 : Nat)

/-- The bio lies on the disk and its byte range does not wrap. -/
def Bio.Fits (b : Bio) (size : Nat) : Prop := b.sector * 512 + b.size ≤ size

instance (b : Bio) (size : Nat) : Decidable (b.Fits size) := inferInstanceAs (Decidable (_ ≤ _))

theorem Bio.length_flatten (b : Bio) : b.segs.flatten.length = b.size := by
  rw [List.length_flatten, b.total]

theorem bioDataDir_cases (b : Bio) : bioDataDir b = 0 ∨ bioDataDir b = 1 := by
  unfold bioDataDir
  omega

/-! ### The segment loop -/

def CopiesWithin (copies : List (Int × Nat)) (low high : Int) : Prop :=
  ∀ copy ∈ copies, low ≤ copy.1 ∧ copy.1 + copy.2 ≤ high

theorem forEachSegment_read (data : Int → UInt8) (buf : Int) (segs : List (List UInt8)) :
    ∃ filled copies, forEachSegment 0 data buf segs = some (data, filled, copies) ∧
      filled.map List.length = segs.map List.length ∧
      filled.flatten = fetch data buf segs.flatten.length ∧
      CopiesWithin copies buf (buf + segs.flatten.length) := by
  induction segs generalizing buf with
  | nil => exact ⟨[], [], rfl, rfl, rfl, by simp [CopiesWithin]⟩
  | cons seg rest ih =>
    obtain ⟨filled, copies, passed, lengths, bytes, within⟩ := ih (buf + seg.length)
    refine ⟨fetch data buf seg.length :: filled, (buf, seg.length) :: copies, ?_, ?_, ?_, ?_⟩
    · simp [forEachSegment, passed]
    · simp [lengths]
    · rw [List.flatten_cons, List.flatten_cons, List.length_append, fetch_add, bytes]
    · intro copy member
      rw [List.flatten_cons, List.length_append]
      rcases List.mem_cons.mp member with rfl | member
      · simp only
        omega
      · have inside := within copy member
        omega

theorem forEachSegment_write (data : Int → UInt8) (buf : Int) (segs : List (List UInt8)) :
    ∃ copies, forEachSegment 1 data buf segs = some (blit data buf segs.flatten, segs, copies) ∧
      CopiesWithin copies buf (buf + segs.flatten.length) := by
  induction segs generalizing data buf with
  | nil => exact ⟨[], by simp [forEachSegment], by simp [CopiesWithin]⟩
  | cons seg rest ih =>
    obtain ⟨copies, passed, within⟩ := ih (blit data buf seg) (buf + seg.length)
    refine ⟨(buf, seg.length) :: copies, ?_, ?_⟩
    · simp [forEachSegment, passed, blit_append]
    · intro copy member
      rw [List.flatten_cons, List.length_append]
      rcases List.mem_cons.mp member with rfl | member
      · simp only
        omega
      · have inside := within copy member
        omega

/-! ### One bio -/

/-- What a bio does to a disk that is a flat array of bytes. -/
structure Served (size : Nat) (data : Int → UInt8) (b : Bio) (o : Outcome) : Prop where
  write_inside : b.Fits size → bioDataDir b = 1 →
    ∀ k (bound : k < b.segs.flatten.length), o.data (b.start + k) = b.segs.flatten[k]
  write_outside : b.Fits size → bioDataDir b = 1 →
    ∀ a, a < b.start ∨ b.start + b.size ≤ a → o.data a = data a
  write_segs : b.Fits size → bioDataDir b = 1 → o.segs = b.segs
  read_data : b.Fits size → bioDataDir b = 0 → o.data = data
  read_lengths : b.Fits size → bioDataDir b = 0 → o.segs.map List.length = b.segs.map List.length
  read_bytes : b.Fits size → bioDataDir b = 0 → o.segs.flatten = fetch data b.start b.size
  rejected : ¬ b.Fits size → o.data = data ∧ o.segs = b.segs
  ended : o.endio = [if b.Fits size then .ok () else .error Errno.EIO]
  copies : CopiesWithin o.copies 0 size

variable {size : Nat} {b : Bio}

theorem Bio.start_mod (noWrap : b.sector * 512 + b.size < 2 ^ 64) : b.sector * 512 % 2 ^ 64 = b.sector * 512 :=
  Nat.mod_eq_of_lt (Nat.lt_of_le_of_lt (Nat.le_add_right _ _) noWrap)

theorem serveBio_rejected (data : Int → UInt8) (noWrap : b.sector * 512 + b.size < 2 ^ 64)
    (outside : ¬ b.Fits size) : serveBio size data b = ⟨data, b.segs, [], [.error Errno.EIO]⟩ := by
  rw [serveBio, Bio.start_mod noWrap, Nat.mod_eq_of_lt noWrap]
  exact if_pos (Nat.not_le.mp outside)

theorem serveBio_accepted {data data' : Int → UInt8} {segs : List (List UInt8)} {copies : List (Int × Nat)}
    (inside : b.Fits size) (noWrap : b.sector * 512 + b.size < 2 ^ 64)
    (passed : forEachSegment (bioDataDir b) data b.start b.segs = some (data', segs, copies)) :
    serveBio size data b = ⟨data', segs, copies, [.ok ()]⟩ := by
  rw [Bio.start] at passed
  rw [serveBio, Bio.start_mod noWrap, Nat.mod_eq_of_lt noWrap, if_neg (Nat.not_lt.mpr inside), passed]

theorem serveBio_read (data : Int → UInt8) (inside : b.Fits size) (fits : size < 2 ^ 64) (read : bioDataDir b = 0) :
    ∃ segs copies, serveBio size data b = ⟨data, segs, copies, [.ok ()]⟩ ∧
      segs.map List.length = b.segs.map List.length ∧ segs.flatten = fetch data b.start b.size ∧
      CopiesWithin copies b.start (b.start + b.size) := by
  have length := b.length_flatten
  obtain ⟨segs, copies, passed, lengths, bytes, within⟩ := forEachSegment_read data b.start b.segs
  have noWrap : b.sector * 512 + b.size < 2 ^ 64 := Nat.lt_of_le_of_lt inside fits
  rw [length] at bytes within
  refine ⟨segs, copies, ?_, lengths, bytes, within⟩
  rw [← read] at passed
  exact serveBio_accepted inside noWrap passed

theorem serveBio_write (data : Int → UInt8) (inside : b.Fits size) (fits : size < 2 ^ 64)
    (write : bioDataDir b = 1) :
    ∃ copies, serveBio size data b = ⟨blit data b.start b.segs.flatten, b.segs, copies, [.ok ()]⟩ ∧
      CopiesWithin copies b.start (b.start + b.size) := by
  have length := b.length_flatten
  obtain ⟨copies, passed, within⟩ := forEachSegment_write data b.start b.segs
  have noWrap : b.sector * 512 + b.size < 2 ^ 64 := Nat.lt_of_le_of_lt inside fits
  rw [length] at within
  refine ⟨copies, ?_, within⟩
  rw [← write] at passed
  exact serveBio_accepted inside noWrap passed

theorem served_write (data : Int → UInt8) (inside : b.Fits size) (fits : size < 2 ^ 64) (write : bioDataDir b = 1) :
    Served size data b (serveBio size data b) := by
  have length := b.length_flatten
  obtain ⟨copies, served, within⟩ := serveBio_write data inside fits write
  have notRead : bioDataDir b ≠ 0 := by omega
  rw [served]
  refine ⟨?_, ?_, fun _ _ => rfl, fun _ read => absurd read notRead, fun _ read => absurd read notRead,
    fun _ read => absurd read notRead, fun outside => absurd inside outside, by simp [inside], ?_⟩
  · intro _ _ k bound
    exact blit_inside bound
  · intro _ _ a outside
    rcases outside with below | above
    · exact blit_below below
    · exact blit_above (by rw [length]; exact above)
  · intro copy member
    have bounds := within copy member
    unfold Bio.Fits at inside
    unfold Bio.start at bounds
    omega

theorem served_read (data : Int → UInt8) (inside : b.Fits size) (fits : size < 2 ^ 64) (read : bioDataDir b = 0) :
    Served size data b (serveBio size data b) := by
  obtain ⟨segs, copies, served, lengths, bytes, within⟩ := serveBio_read data inside fits read
  have notWrite : bioDataDir b ≠ 1 := by omega
  rw [served]
  refine ⟨fun _ write => absurd write notWrite, fun _ write => absurd write notWrite,
    fun _ write => absurd write notWrite, fun _ _ => rfl, fun _ _ => lengths, fun _ _ => bytes,
    fun outside => absurd inside outside, by simp [inside], ?_⟩
  intro copy member
  have bounds := within copy member
  unfold Bio.Fits at inside
  unfold Bio.start at bounds
  omega

theorem served_rejected (data : Int → UInt8) (outside : ¬ b.Fits size) (noWrap : b.sector * 512 + b.size < 2 ^ 64) :
    Served size data b (serveBio size data b) := by
  rw [serveBio_rejected data noWrap outside]
  exact ⟨fun inside => absurd inside outside, fun inside => absurd inside outside,
    fun inside => absurd inside outside, fun inside => absurd inside outside,
    fun inside => absurd inside outside, fun inside => absurd inside outside, fun _ => ⟨rfl, rfl⟩,
    by simp [outside], by simp [CopiesWithin]⟩

theorem serveBio_served (data : Int → UInt8) (fits : size < 2 ^ 64) (noWrap : b.sector * 512 + b.size < 2 ^ 64) :
    Served size data b (serveBio size data b) := by
  by_cases inside : b.Fits size
  · rcases bioDataDir_cases b with read | write
    · exact served_read data inside fits read
    · exact served_write data inside fits write
  · exact served_rejected data inside noWrap

/-- The two bios transfer the same bytes, split into segments in any two ways. -/
structure SameTransfer (b b' : Bio) : Prop where
  sector : b'.sector = b.sector
  size : b'.size = b.size
  dir : bioDataDir b' = bioDataDir b
  bytes : bioDataDir b = 1 → b'.segs.flatten = b.segs.flatten

theorem serveBio_split (data : Int → UInt8) {b' : Bio} (same : SameTransfer b b') (fits : size < 2 ^ 64)
    (noWrap : b.sector * 512 + b.size < 2 ^ 64) :
    (serveBio size data b').data = (serveBio size data b).data ∧
      (serveBio size data b').endio = (serveBio size data b).endio ∧
      (b.Fits size → bioDataDir b = 0 →
        (serveBio size data b').segs.flatten = (serveBio size data b).segs.flatten) := by
  have fitsIff : b'.Fits size ↔ b.Fits size := by rw [Bio.Fits, Bio.Fits, same.sector, same.size]
  have started : b'.start = b.start := by rw [Bio.start, Bio.start, same.sector]
  by_cases inside : b.Fits size
  · rcases bioDataDir_cases b with read | write
    · obtain ⟨segs, copies, served, _, bytes, _⟩ := serveBio_read data inside fits read
      obtain ⟨segs', copies', served', _, bytes', _⟩ :=
        serveBio_read data (fitsIff.mpr inside) fits (same.dir.trans read)
      rw [served, served']
      refine ⟨rfl, rfl, fun _ _ => ?_⟩
      rw [bytes, bytes', started, same.size]
    · obtain ⟨copies, served, _⟩ := serveBio_write data inside fits write
      obtain ⟨copies', served', _⟩ :=
        serveBio_write data (fitsIff.mpr inside) fits (same.dir.trans write)
      rw [served, served', started, same.bytes write]
      exact ⟨rfl, rfl, fun _ _ => rfl⟩
  · rw [serveBio_rejected data noWrap inside,
      serveBio_rejected data (by rw [same.sector, same.size]; exact noWrap) fun outside => inside (fitsIff.mp outside)]
    exact ⟨rfl, rfl, fun inside' => absurd inside' inside⟩

/-! ### Runs of bios -/

def Bdev.after (d : Bdev) (bios : List Bio) : Bdev :=
  bios.foldl (fun d b => { d with data := (d.bdevRequest b).data }) d

/-- The byte an accepted write puts at address `a`. -/
def Bio.written (b : Bio) (size : Nat) (a : Int) : Option UInt8 :=
  if b.Fits size ∧ bioDataDir b = 1 ∧ b.start ≤ a then b.segs.flatten[(a - b.start).toNat]? else none

/-- The byte the last accepted write to address `a` put there. -/
def lastWritten (size : Nat) (data : Int → UInt8) (bios : List Bio) (a : Int) : UInt8 :=
  (bios.reverse.findSome? fun b => b.written size a).getD (data a)

def Bdev.outcomes (d : Bdev) : List Bio → List Outcome
  | [] => []
  | b :: rest => d.bdevRequest b :: ({ d with data := (d.bdevRequest b).data } : Bdev).outcomes rest

@[simp] theorem Bdev.after_size (d : Bdev) (bios : List Bio) : (d.after bios).size = d.size := by
  induction bios generalizing d with
  | nil => rfl
  | cons b rest ih => exact ih _

theorem Bdev.after_snoc (d : Bdev) (bios : List Bio) (b : Bio) :
    (d.after (bios ++ [b])).data = ((d.after bios).bdevRequest b).data := by
  simp [Bdev.after]

theorem lastWritten_snoc (size : Nat) (data : Int → UInt8) (bios : List Bio) (b : Bio) (a : Int) :
    lastWritten size data (bios ++ [b]) a = (b.written size a).getD (lastWritten size data bios a) := by
  unfold lastWritten
  rw [List.reverse_concat, List.findSome?_cons]
  cases b.written size a <;> rfl

theorem serveBio_written (data : Int → UInt8) (fits : size < 2 ^ 64) (noWrap : b.sector * 512 + b.size < 2 ^ 64)
    (a : Int) :
    (serveBio size data b).data a = (b.written size a).getD (data a) := by
  have served := serveBio_served data fits noWrap
  by_cases inside : b.Fits size
  · rcases bioDataDir_cases b with read | write
    · rw [served.read_data inside read, Bio.written, if_neg (by omega)]
      rfl
    · obtain ⟨copies, outcome, _⟩ := serveBio_write data inside fits write
      rw [outcome, Bio.written]
      simp only [inside, write, true_and, blit]
      split <;> rfl
  · rw [(served.rejected inside).1, Bio.written, if_neg fun all => inside all.1]
    rfl

theorem Bdev.after_lastWritten (d : Bdev) (bios : List Bio)
    (noWrap : ∀ b ∈ bios, b.sector * 512 + b.size < 2 ^ 64) (a : Int) :
    (d.after bios).data a = lastWritten d.size d.data bios a := by
  have fits : d.size < 2 ^ 64 := Nat.lt_trans d.fits (by decide)
  induction bios using List.reverseRecOn with
  | nil => rfl
  | append_singleton bios b ih =>
    have written := serveBio_written (d.after bios).data fits (noWrap b (by simp)) a
    rw [Bdev.after_snoc, Bdev.bdevRequest, Bdev.after_size, written, lastWritten_snoc,
      ih fun b member => noWrap b (List.mem_append_left _ member)]

/-- The disk is a flat array of bytes: in every run each bio does to the disk it finds exactly what
`Served` says, a read returns for each byte the value last written there, and the effect does not
depend on how the bytes are split into segments. -/
theorem flat_array (d : Bdev) (bios : List Bio) (noWrap : ∀ b ∈ bios, b.sector * 512 + b.size < 2 ^ 64)
    (prior : List Bio) (b : Bio) (rest : List Bio) (position : bios = prior ++ b :: rest) :
    Served d.size (d.after prior).data b ((d.after prior).bdevRequest b) ∧
    (b.Fits d.size → bioDataDir b = 0 → ∀ k : Nat, k < b.size →
      ((d.after prior).bdevRequest b).segs.flatten[k]? =
        some (lastWritten d.size d.data prior (b.start + k))) ∧
    (∀ b', SameTransfer b b' →
      ((d.after prior).bdevRequest b').data = ((d.after prior).bdevRequest b).data ∧
      ((d.after prior).bdevRequest b').endio = ((d.after prior).bdevRequest b).endio ∧
      (b.Fits d.size → bioDataDir b = 0 →
        ((d.after prior).bdevRequest b').segs.flatten = ((d.after prior).bdevRequest b).segs.flatten)) := by
  have fits : d.size < 2 ^ 64 := Nat.lt_trans d.fits (by decide)
  have mine := noWrap b (by simp [position])
  have earlier : ∀ b ∈ prior, b.sector * 512 + b.size < 2 ^ 64 := fun b member =>
    noWrap b (by simp [position, member])
  have served : Served d.size (d.after prior).data b ((d.after prior).bdevRequest b) := by
    rw [Bdev.bdevRequest, Bdev.after_size]
    exact serveBio_served _ fits mine
  refine ⟨served, ?_, ?_⟩
  · intro inside read k bound
    rw [served.read_bytes inside read, getElem?_fetch _ _ bound, d.after_lastWritten prior earlier]
  · intro b' same
    have split := serveBio_split (d.after prior).data same fits mine
    rw [Bdev.bdevRequest, Bdev.bdevRequest, Bdev.after_size]
    exact split

def twoSectors : Bdev := ⟨1024, fun _ => 0, by decide⟩

def writeThree : Bio := ⟨1, 3, 1, [[7], [8, 9]], by decide⟩

def readThree : Bio := ⟨1, 3, 0, [[0, 0], [0]], by decide⟩

/-- Three bytes written at the second sector in segments of one and two, read back in segments of
two and one. -/
theorem flat_array_read_back :
    ((twoSectors.after [writeThree]).bdevRequest readThree).segs.flatten[2]? = some 9 := by
  have noWrap : ∀ b ∈ [writeThree, readThree], b.sector * 512 + b.size < 2 ^ 64 := by decide
  have inside : readThree.Fits twoSectors.size := by decide
  have read := (flat_array twoSectors [writeThree, readThree] noWrap [writeThree] readThree [] rfl).2.1
    inside rfl 2 (by decide)
  have last : lastWritten twoSectors.size twoSectors.data [writeThree] (readThree.start + 2) = 9 := by decide
  exact read.trans (congrArg some last)

end Ldd3.Block
