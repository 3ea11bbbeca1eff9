import Ldd3.Block.Queue

/-!
The queue driver of `block/sbull/ram.c`, with its missing brackets put in. Its loop is the one of the
other queue drivers, but `sbull_transfer` checks the range of a chunk, and has no result to say that it
refused. `sbull_request` sets the status of every fs request to 0, so a chunk beyond the end of the disk
is completed as if it had been moved. The end of the range is computed modulo `2 ^ 64`, so a chunk may
also pass the check and be copied beyond the end.
-/

namespace Ldd3.Block

open Base.Cells Base.Words

/-- `size` is an `int` that only `start` sets. -/
structure Sbull where
  size : Nat
  fits : size < 2 ^ 31

/-- The disk of `nsectors` sectors of `hardsect_size` bytes. -/
def Sbull.start : Sbull := ⟨1024 * 512, by decide⟩

def Sbull.sbullTransfer (dev : Sbull) : Transfer := fun data sector nsect buffer write =>
  let offset := sector * 512 % 2 ^ 64
  let nbytes := nsect * 512 % 2 ^ 64
  if (offset + nbytes) % 2 ^ 64 > dev.size then (data, buffer)
  else if write then (blit data offset (buffer.take nbytes), buffer)
  else (data, fetch data offset nbytes ++ buffer.drop nbytes)

def Sbull.sbullRequest (dev : Sbull) (fuel : Nat) (d : Driver) : Option Driver :=
  let (req, d) := blkFetchRequest d
  drain dev.sbullTransfer fuel req (.ok ()) d

/-! ### The passes of the loop -/

def chunkPasses (tag : Nat) (fs write : Bool) : Nat → List Chunk → List Request
  | _, [] => []
  | pos, c :: rest => ⟨tag, fs, write, pos, c, rest⟩ :: chunkPasses tag fs write (pos + c.sectors) rest

/-- The request as it is at each pass of the loop, one for each chunk. -/
def Request.passes (r : Request) : List Request := chunkPasses r.tag r.fs r.write r.pos r.chunks

theorem chunkPasses_owed (tag : Nat) (fs write : Bool) (pos : Nat) (chunks : List Chunk) :
    (chunkPasses tag fs write pos chunks).map (fun r => (r.tag, r.pos, r.status)) =
      (starts pos chunks).map fun sector => (tag, sector, if fs then .ok () else .error Errno.EIO) := by
  induction chunks generalizing pos with
  | nil => rfl
  | cons c rest ih =>
    rw [chunkPasses, starts, List.map_cons, List.map_cons, ih]
    rfl

theorem passes_owed (queue : List Request) :
    (queue.flatMap Request.passes).map (fun r => (r.tag, r.pos, r.status)) = queue.flatMap Request.owed := by
  rw [List.map_flatMap]
  exact congrArg (queue.flatMap ·) (funext fun r => chunkPasses_owed r.tag r.fs r.write r.pos r.chunks)

/-- Every pass completes its chunk under the status of its request. -/
theorem passes_completed (transfer : Transfer) (data : Int → UInt8) (queue : List Request) :
    List.Forall₂ (fun r e => e.status = r.status) (queue.flatMap Request.passes)
      (serveQueue transfer data queue).2 := by
  have same := (passes_owed queue).trans (serveQueue_summary transfer data queue).symm
  rw [← List.forall₂_eq_eq_eq, List.forall₂_map_left_iff, List.forall₂_map_right_iff] at same
  refine same.imp ?_
  intro r e equal
  exact (congrArg (fun summary => summary.2.2) equal).symm

theorem Request.status_ok_iff (r : Request) : r.status = .ok () ↔ r.fs = true := by
  cases fs : r.fs <;> simp [Request.status, fs]

/-! ### What was moved -/

/-- At this pass `sbull_transfer` is called and copies the whole chunk, whatever the disk holds, between
its buffer and bytes of the disk from `start` on. -/
structure Moved (dev : Sbull) (start : Nat) (r : Request) : Prop where
  called : r.fs = true
  copied : ∀ data, dev.sbullTransfer data r.pos r.cur.sectors r.cur.buffer r.write =
    if r.write then (blit data start r.cur.buffer, r.cur.buffer)
    else (data, fetch data start r.cur.buffer.length)
  inside : start + r.cur.buffer.length ≤ dev.size

theorem sbullTransfer_inside {dev : Sbull} {r : Request}
    (inside : r.pos * 512 % 2 ^ 64 + r.cur.buffer.length ≤ dev.size) (data : Int → UInt8) :
    dev.sbullTransfer data r.pos r.cur.sectors r.cur.buffer r.write =
      if r.write then (blit data (r.pos * 512 % 2 ^ 64 : Nat) r.cur.buffer, r.cur.buffer)
      else (data, fetch data (r.pos * 512 % 2 ^ 64 : Nat) r.cur.buffer.length) := by
  have size := dev.fits
  have nbytes : r.cur.sectors * 512 % 2 ^ 64 = r.cur.buffer.length := by
    rw [← r.cur.whole, Nat.mod_eq_of_lt (by omega)]
  simp only [Sbull.sbullTransfer, nbytes, List.take_length, List.drop_length, List.append_nil]
  rw [if_neg (by omega)]

theorem moved_iff (dev : Sbull) (r : Request) :
    Moved dev (r.pos * 512 % 2 ^ 64) r ↔
      r.fs = true ∧ r.pos * 512 % 2 ^ 64 + r.cur.buffer.length ≤ dev.size :=
  ⟨fun moved => ⟨moved.called, moved.inside⟩,
    fun ⟨fs, inside⟩ => ⟨fs, sbullTransfer_inside inside, inside⟩⟩

theorem moved_unwrapped_iff (dev : Sbull) (r : Request) :
    Moved dev (r.pos * 512) r ↔ r.fs = true ∧ r.pos * 512 + r.cur.buffer.length ≤ dev.size := by
  have size := dev.fits
  constructor
  · intro moved
    exact ⟨moved.called, moved.inside⟩
  · rintro ⟨fs, inside⟩
    have same : r.pos * 512 % 2 ^ 64 = r.pos * 512 := Nat.mod_eq_of_lt (by omega)
    have moved := (moved_iff dev r).mpr ⟨fs, by rwa [same]⟩
    rwa [same] at moved

/-- A log reports success for exactly the moved chunks if every chunk of an fs request is moved. -/
theorem reports_iff {moved fits : Request → Prop} (decides : ∀ r, moved r ↔ r.fs = true ∧ fits r)
    {passes : List Request} {log : List Completion}
    (completed : List.Forall₂ (fun r e => e.status = r.status) passes log) :
    List.Forall₂ (fun r e => e.status = .ok () ↔ moved r) passes log ↔ ∀ r ∈ passes, r.fs = true → fits r := by
  induction completed with
  | nil => simp
  | @cons r e passes log status _ ih =>
    rw [List.forall₂_cons, ih, List.forall_mem_cons, status, r.status_ok_iff, decides]
    refine and_congr_left fun _ => ?_
    exact ⟨fun same fs => (same.mp fs).2, fun inside => ⟨fun fs => ⟨fs, inside fs⟩, And.left⟩⟩

/-- `sbull_request` empties the queue, and it reports success for exactly the chunks it moved if no chunk
of an fs request reaches beyond the disk. The start of a chunk is taken modulo `2 ^ 64` or as it is. -/
theorem success_iff_moved (dev : Sbull) (data : Int → UInt8) (queue : List Request) (fuel : Nat)
    (enough : chunkCount queue ≤ fuel) :
    ∃ final, dev.sbullRequest fuel ⟨queue, data, []⟩ = some final ∧ final.queue = [] ∧
      (List.Forall₂ (fun r e => e.status = .ok () ↔ Moved dev (r.pos * 512 % 2 ^ 64) r)
          (queue.flatMap Request.passes) final.log ↔
        ∀ r ∈ queue.flatMap Request.passes, r.fs = true →
          r.pos * 512 % 2 ^ 64 + r.cur.buffer.length ≤ dev.size) ∧
      (List.Forall₂ (fun r e => e.status = .ok () ↔ Moved dev (r.pos * 512) r)
          (queue.flatMap Request.passes) final.log ↔
        ∀ r ∈ queue.flatMap Request.passes, r.fs = true → r.pos * 512 + r.cur.buffer.length ≤ dev.size) := by
  have completed := passes_completed dev.sbullTransfer data queue
  have drained := drain_queue dev.sbullTransfer queue fuel enough (.ok ()) data []
  exact ⟨⟨[], _, _⟩, drained, rfl, reports_iff (moved_iff dev) completed,
    reports_iff (moved_unwrapped_iff dev) completed⟩

theorem success_iff_moved_three_requests :
    ∃ final, Sbull.start.sbullRequest 5 ⟨threeRequests, fun _ => 0, []⟩ = some final ∧ final.queue = [] ∧
      List.Forall₂ (fun r e => e.status = .ok () ↔ Moved .start (r.pos * 512 % 2 ^ 64) r)
        (threeRequests.flatMap Request.passes) final.log := by
  have one : ∀ byte, (sectorOf byte).sectors = 1 := fun _ => rfl
  obtain ⟨final, ended, empty, reports, _⟩ := success_iff_moved .start (fun _ => 0) threeRequests 5
    (by simp [threeRequests, chunkCount, Request.chunks])
  refine ⟨final, ended, empty, reports.mpr ?_⟩
  simp [threeRequests, Request.passes, chunkPasses, Request.chunks, Chunk.whole, one, Sbull.start]

theorem sbullTransfer_refuses {dev : Sbull} {sector nsect : Nat}
    (beyond : dev.size < (sector * 512 + nsect * 512) % 2 ^ 64) (data : Int → UInt8) (buffer : List UInt8)
    (write : Bool) : dev.sbullTransfer data sector nsect buffer write = (data, buffer) := by
  rw [Nat.add_mod] at beyond
  exact if_pos beyond

def pastEnd : Request := ⟨0, true, true, 1024, sectorOf 7, []⟩

/-- A write of the sector behind the last one is completed with status 0, and the disk is as it was. -/
theorem write_past_end_succeeds :
    ∃ final, Sbull.start.sbullRequest 1 ⟨[pastEnd], fun _ => 0, []⟩ = some final ∧
      final.log.map Completion.status = [.ok ()] ∧ final.data = (fun _ => 0) ∧
      ¬ Moved .start (pastEnd.pos * 512 % 2 ^ 64) pastEnd := by
  have drained := drain_queue Sbull.start.sbullTransfer [pastEnd] 1 (Nat.le_refl 1) (.ok ()) (fun _ => 0) []
  have refused (data : Int → UInt8) : Sbull.start.sbullTransfer data pastEnd.pos pastEnd.cur.sectors
      pastEnd.cur.buffer pastEnd.write = (data, pastEnd.cur.buffer) := sbullTransfer_refuses (by decide) _ _ _
  have fs : pastEnd.fs = true := rfl
  have last : pastEnd.rest = [] := rfl
  refine ⟨_, drained, ?_, ?_, ?_⟩
  · simp [serveQueue, Request.serve, Request.chunks, serveChunks, serveChunk, fs, last]
  · simp [serveQueue, Request.serve, Request.chunks, serveChunks, serveChunk, fs, last, refused]
  · rw [moved_iff, pastEnd.cur.whole]
    decide

end Ldd3.Block
