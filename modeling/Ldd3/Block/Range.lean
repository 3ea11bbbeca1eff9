import Ldd3.Block.Bio

/-!
The range check of the bio drivers. `bdev_request` and `request_fn` compare the end of a bio with the
disk size after computing it modulo `2 ^ 64`, and use the wrapped product of the sector again as the
address to copy at. A bio whose end wraps to a value on the disk is accepted, although it lies beyond
every disk: with a sector of `2 ^ 55` it is taken for one at sector 0, and just below that its bytes
come from in front of the buffer.
-/

namespace Ldd3.Block

open Base.Cells Base.Words

variable {size : Nat} {b b' : Bio}

def Accepted (o : Outcome) : Prop := o.endio = [.ok ()]

-- `buf - data` before the first segment
def Bio.address (b : Bio) : Nat := b.sector * 512 % 2 ^ 64

def runs (buf : Int) : List (List UInt8) → List (Int × Nat)
  | [] => []
  | seg :: rest => (buf, seg.length) :: runs (buf + seg.length) rest

theorem forEachSegment_runs {dir : Nat} (known : dir = 0 ∨ dir = 1) (data : Int → UInt8) (buf : Int)
    (segs : List (List UInt8)) :
    ∃ data' segs', forEachSegment dir data buf segs = some (data', segs', runs buf segs) := by
  induction segs generalizing data buf with
  | nil => exact ⟨data, [], rfl⟩
  | cons seg rest ih =>
    rcases known with rfl | rfl
    · obtain ⟨data', segs', passed⟩ := ih data (buf + seg.length)
      exact ⟨data', fetch data buf seg.length :: segs', by simp [forEachSegment, passed, runs]⟩
    · obtain ⟨data', segs', passed⟩ := ih (blit data buf seg) (buf + seg.length)
      exact ⟨data', seg :: segs', by simp [forEachSegment, passed, runs]⟩

theorem runs_within (buf : Int) (segs : List (List UInt8)) :
    CopiesWithin (runs buf segs) buf (buf + segs.flatten.length) := by
  induction segs generalizing buf with
  | nil => simp [runs, CopiesWithin]
  | cons seg rest ih =>
    intro copy member
    rw [List.flatten_cons, List.length_append]
    rcases List.mem_cons.mp member with rfl | later
    · simp only
      omega
    · have inside := ih (buf + seg.length) copy later
      omega

/-! ### The check as it is computed -/

theorem serveBio_checks (size : Nat) (data : Int → UInt8) (b : Bio) :
    (Accepted (serveBio size data b) ↔ (b.sector * 512 + b.size) % 2 ^ 64 ≤ size) ∧
      (Accepted (serveBio size data b) → (serveBio size data b).copies = runs b.address b.segs) := by
  obtain ⟨data', segs', passed⟩ := forEachSegment_runs (bioDataDir_cases b) data b.address b.segs
  rw [Bio.address] at passed ⊢
  rw [serveBio, Nat.mod_add_mod, passed]
  by_cases outside : (b.sector * 512 + b.size) % 2 ^ 64 > size
  · rw [if_pos outside]
    have refused : ¬ Accepted ⟨data, b.segs, [], [.error Errno.EIO]⟩ := by
      intro accepted
      cases accepted
    exact ⟨iff_of_false refused (Nat.not_le.mpr outside), fun accepted => absurd accepted refused⟩
  · rw [if_neg outside]
    exact ⟨iff_of_true rfl (Nat.not_lt.mp outside), fun _ => rfl⟩

/-! ### The check as it is meant -/

/-- A bio is accepted exactly if it lies on the disk, and is then copied at its sector and stays on
the disk. -/
structure Bio.Checked (b : Bio) (size : Nat) (serve : Bio → Outcome) : Prop where
  accepts : Accepted (serve b) ↔ b.Fits size
  placed : Accepted (serve b) → (serve b).copies = runs b.start b.segs
  inside : Accepted (serve b) → CopiesWithin (serve b).copies 0 size

/-- Accepted bios at different sectors do not start at one address. -/
def Apart (serve : Bio → Outcome) (b b' : Bio) : Prop :=
  Accepted (serve b) → Accepted (serve b') → b.sector ≠ b'.sector → b.address ≠ b'.address

/-- The end of the bio does not wrap, or not to a place on the disk. -/
def Bio.Unwrapped (b : Bio) (size : Nat) : Prop :=
  b.sector * 512 + b.size < 2 ^ 64 ∨ size < (b.sector * 512 + b.size) % 2 ^ 64

theorem checked_iff (data : Int → UInt8) (fits : size < 2 ^ 64) :
    b.Checked size (serveBio size data) ↔ b.Unwrapped size := by
  obtain ⟨accepted, copied⟩ := serveBio_checks size data b
  constructor
  · rintro ⟨accepts, _, _⟩
    by_contra wrapped
    simp only [Bio.Unwrapped, not_or, Nat.not_lt] at wrapped
    have inside := accepts.mp (accepted.mpr wrapped.2)
    rw [Bio.Fits] at inside
    omega
  · intro unwrapped
    have exactly : Accepted (serveBio size data b) ↔ b.Fits size := by
      rw [accepted, Bio.Fits]
      rcases unwrapped with noWrap | outside
      · rw [Nat.mod_eq_of_lt noWrap]
      · have beyond := Nat.mod_le (b.sector * 512 + b.size) (2 ^ 64)
        omega
    have placed : Accepted (serveBio size data b) → (serveBio size data b).copies = runs b.start b.segs := by
      intro ok
      have inside := exactly.mp ok
      rw [Bio.Fits] at inside
      rw [copied ok, Bio.address, Bio.start, Nat.mod_eq_of_lt (by omega)]
    refine ⟨exactly, placed, fun ok copy member => ?_⟩
    have inside := exactly.mp ok
    rw [placed ok] at member
    have bounds := runs_within b.start b.segs copy member
    rw [b.length_flatten] at bounds
    unfold Bio.Fits at inside
    unfold Bio.start at bounds
    omega

theorem apart_of_fits (data : Int → UInt8) (fits : size < 2 ^ 64) (checked : b.Checked size (serveBio size data))
    (checked' : b'.Checked size (serveBio size data)) : Apart (serveBio size data) b b' := by
  intro ok ok' differs same
  have inside := checked.accepts.mp ok
  have inside' := checked'.accepts.mp ok'
  rw [Bio.Fits] at inside inside'
  rw [Bio.address, Bio.address, Nat.mod_eq_of_lt (by omega), Nat.mod_eq_of_lt (by omega)] at same
  omega

theorem exact_iff (data : Int → UInt8) (fits : size < 2 ^ 64) :
    (b.Checked size (serveBio size data) ∧ b'.Checked size (serveBio size data) ∧ Apart (serveBio size data) b b') ↔
      b.Unwrapped size ∧ b'.Unwrapped size := by
  rw [← checked_iff data fits, ← checked_iff data fits]
  exact ⟨fun ⟨checked, checked', _⟩ => ⟨checked, checked'⟩,
    fun ⟨checked, checked'⟩ => ⟨checked, checked', apart_of_fits data fits checked checked'⟩⟩

def Ram2.diskSize : Nat := 32 * 1024 * 512

/-- The check of both drivers is exact for two bios exactly if neither end wraps onto the disk. -/
theorem range_check_exact_iff (d : Bdev) (data : Int → UInt8) (b b' : Bio) :
    ((b.Checked d.size d.bdevRequest ∧ b'.Checked d.size d.bdevRequest ∧ Apart d.bdevRequest b b') ↔
      b.Unwrapped d.size ∧ b'.Unwrapped d.size) ∧
    ((b.Checked Ram2.diskSize (Ram2.requestFn data) ∧ b'.Checked Ram2.diskSize (Ram2.requestFn data) ∧
        Apart (Ram2.requestFn data) b b') ↔
      b.Unwrapped Ram2.diskSize ∧ b'.Unwrapped Ram2.diskSize) :=
  ⟨exact_iff d.data (Nat.lt_trans d.fits (by decide)), exact_iff data (by decide)⟩

def farBio : Bio := ⟨2 ^ 55, 1, 1, [[7]], by decide⟩

def frontBio : Bio where
  sector := 2 ^ 55 - 1
  size := 512
  rw := 1
  segs := [List.replicate 512 7]
  total := by simp only [List.map_cons, List.map_nil, List.length_replicate, List.sum_cons, List.sum_nil, Nat.add_zero]

def firstBio : Bio := ⟨0, 1, 1, [[7]], by decide⟩

/-- Two bios far beyond a disk of two sectors. Both are accepted; one is written to the first sector
of the disk, and one in front of the buffer. -/
theorem wrapped_bios_accepted :
    Accepted (twoSectors.bdevRequest farBio) ∧ ¬ farBio.Fits twoSectors.size ∧
      farBio.sector ≠ firstBio.sector ∧ farBio.address = firstBio.address ∧
      (twoSectors.bdevRequest farBio).data 0 = 7 ∧
      Accepted (twoSectors.bdevRequest frontBio) ∧ ¬ frontBio.Fits twoSectors.size ∧
      ¬ CopiesWithin (twoSectors.bdevRequest frontBio).copies 0 twoSectors.size := by
  obtain ⟨accepts, copied⟩ := serveBio_checks twoSectors.size twoSectors.data frontBio
  have accepted := accepts.mpr (by decide +kernel)
  have written : (twoSectors.bdevRequest farBio).data 0 = 7 := by decide +kernel
  refine ⟨rfl, by decide, by decide, rfl, written, accepted, by decide +kernel, fun inside => ?_⟩
  rw [Bdev.bdevRequest, copied accepted] at inside
  have high := (inside _ (List.mem_cons_self ..)).2
  have beyond : (twoSectors.size : Int) < frontBio.address := by decide +kernel
  simp only at high
  omega

end Ldd3.Block
