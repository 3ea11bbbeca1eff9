import Ldd3.Block.Bio

/-!
The drivers that drain a request queue: `bdev_request` of `block/bdev-regular.c` and `request_fn`
of `block/ramblock/ram.c`. Their loops are the same and are given once, over the transfer function.

Of the block layer the loop uses `blk_fetch_request`, which dequeues the next request,
`blk_rq_pos`, `blk_rq_cur_sectors` and `buffer`, which describe the current chunk of a request, and
`__blk_end_request_cur`, which completes that chunk and says whether chunks remain. A request
always has a current chunk and a chunk is never empty; both are part of the types.
-/

namespace Ldd3.Block

open Base.Cells Base.Words

structure Chunk where
  sectors : Nat
  buffer : List UInt8
  positive : 0 < sectors
  whole : buffer.length = sectors * 512

structure Request where
  tag : Nat
  fs : Bool
  write : Bool
  pos : Nat
  cur : Chunk
  rest : List Chunk

structure Completion where
  tag : Nat
  sector : Nat
  status : Except Errno Unit
  buffer : List UInt8

structure Driver where
  queue : List Request
  data : Int → UInt8
  log : List Completion

abbrev Transfer := (Int → UInt8) → Nat → Nat → List UInt8 → Bool → (Int → UInt8) × List UInt8

def blkFetchRequest (d : Driver) : Option Request × Driver :=
  match d.queue with
  | [] => (none, d)
  | r :: queue => (some r, { d with queue := queue })

/-- The rest of a request once its current chunk is complete. -/
def blkEndRequestCur (r : Request) : Option Request :=
  match r.rest with
  | [] => none
  | c :: rest => some { r with pos := r.pos + r.cur.sectors, cur := c, rest := rest }

/-- One pass of the loop up to `done`: the status, the disk and the chunk's buffer. -/
def serveChunk (transfer : Transfer) (data : Int → UInt8) (r : Request) :
    Except Errno Unit × (Int → UInt8) × List UInt8 :=
  if !r.fs then (.error Errno.EIO, data, r.cur.buffer)
  else (.ok (), transfer data r.pos r.cur.sectors r.cur.buffer r.write)

/-- The `while` loop with its variables `rst` and `err`; `none` is a loop that needs more passes. -/
def drain (transfer : Transfer) : Nat → Option Request → Except Errno Unit → Driver → Option Driver
  | _, none, _, d => some d
  | 0, some _, _, _ => none
  | fuel + 1, some r, _, d =>
    let (err, data, buffer) := serveChunk transfer d.data r
    let d := { d with data := data, log := d.log ++ [⟨r.tag, r.pos, err, buffer⟩] }
    match blkEndRequestCur r with
    | some r => drain transfer fuel (some r) err d
    | none =>
      let (rst, d) := blkFetchRequest d
      drain transfer fuel rst err d

def BdevRegular.blkTransfer : Transfer := fun data sector sectors buffer write =>
  if write then (blit data ((sector * 512 % 2 ^ 64 : Nat) : Int) (buffer.take (sectors * 512 % 2 ^ 64)), buffer)
  else (data, fetch data ((sector * 512 % 2 ^ 64 : Nat) : Int) (sectors * 512 % 2 ^ 64))

def BdevRegular.bdevRequest (fuel : Nat) (d : Driver) : Option Driver :=
  let (rst, d) := blkFetchRequest d
  drain BdevRegular.blkTransfer fuel rst (.ok ()) d

def Ram.blkTransfer : Transfer := fun data sector nsectors buffer write =>
  let read := !write
  if read then (data, fetch data ((sector * 512 % 2 ^ 64 : Nat) : Int) (nsectors * 512 % 2 ^ 64))
  else (blit data ((sector * 512 % 2 ^ 64 : Nat) : Int) (buffer.take (nsectors * 512 % 2 ^ 64)), buffer)

-- `err` is not initialised in this copy; every pass assigns it before it is used
def Ram.requestFn (fuel : Nat) (err : Except Errno Unit) (d : Driver) : Option Driver :=
  let (rst, d) := blkFetchRequest d
  drain Ram.blkTransfer fuel rst err d

def Request.chunks (r : Request) : List Chunk := r.cur :: r.rest

def Request.bytes (r : Request) : Nat := ((r.chunks.map Chunk.buffer).map List.length).sum

/-- The bio that asks `bdev.c` for the same transfer. -/
def Request.bio (r : Request) : Bio where
  sector := r.pos
  size := r.bytes
  rw := if r.write then 1 else 0
  segs := r.chunks.map Chunk.buffer
  total := rfl

/-! ### What the loop computes -/

/-- The chunks of one request, served in order from sector `pos` on. -/
def serveChunks (transfer : Transfer) (tag : Nat) (fs write : Bool) :
    Nat → (Int → UInt8) → List Chunk → (Int → UInt8) × List Completion
  | _, data, [] => (data, [])
  | pos, data, c :: rest =>
    let served := serveChunk transfer data ⟨tag, fs, write, pos, c, rest⟩
    let later := serveChunks transfer tag fs write (pos + c.sectors) served.2.1 rest
    (later.1, ⟨tag, pos, served.1, served.2.2⟩ :: later.2)

def Request.serve (transfer : Transfer) (data : Int → UInt8) (r : Request) :
    (Int → UInt8) × List Completion :=
  serveChunks transfer r.tag r.fs r.write r.pos data r.chunks

def serveQueue (transfer : Transfer) : (Int → UInt8) → List Request → (Int → UInt8) × List Completion
  | data, [] => (data, [])
  | data, r :: queue =>
    let served := r.serve transfer data
    let later := serveQueue transfer served.1 queue
    (later.1, served.2 ++ later.2)

variable (transfer : Transfer)

theorem drain_err (fuel : Nat) (rst : Option Request) (e e' : Except Errno Unit) (d : Driver) :
    drain transfer fuel rst e d = drain transfer fuel rst e' d := by
  cases fuel <;> cases rst <;> rfl

theorem drain_last (fuel : Nat) {r : Request} (last : r.rest = []) (e : Except Errno Unit) (d : Driver) :
    drain transfer (fuel + 1) (some r) e d =
      let served := serveChunk transfer d.data r
      let d' : Driver := ⟨d.queue, served.2.1, d.log ++ [⟨r.tag, r.pos, served.1, served.2.2⟩]⟩
      drain transfer fuel (blkFetchRequest d').1 served.1 (blkFetchRequest d').2 := by
  obtain ⟨tag, fs, write, pos, cur, rest⟩ := r
  cases last
  rfl

theorem drain_more (fuel : Nat) {r : Request} {c : Chunk} {rest : List Chunk} (more : r.rest = c :: rest)
    (e : Except Errno Unit) (d : Driver) :
    drain transfer (fuel + 1) (some r) e d =
      let served := serveChunk transfer d.data r
      drain transfer fuel (some { r with pos := r.pos + r.cur.sectors, cur := c, rest := rest }) served.1
        ⟨d.queue, served.2.1, d.log ++ [⟨r.tag, r.pos, served.1, served.2.2⟩]⟩ := by
  obtain ⟨tag, fs, write, pos, cur, _⟩ := r
  cases more
  rfl

theorem drain_request (fuel : Nat) (r : Request) (e : Except Errno Unit) (d : Driver) :
    drain transfer (fuel + r.chunks.length) (some r) e d =
      let d' : Driver := ⟨d.queue, (r.serve transfer d.data).1, d.log ++ (r.serve transfer d.data).2⟩
      drain transfer fuel (blkFetchRequest d').1 e (blkFetchRequest d').2 := by
  obtain ⟨tag, fs, write, pos, cur, rest⟩ := r
  induction rest generalizing d pos cur with
  | nil => exact (drain_last transfer fuel rfl e d).trans (drain_err _ _ _ _ _ _)
  | cons c rest ih =>
    refine (drain_more transfer (fuel + rest.length + 1) rfl e d).trans ((drain_err _ _ _ _ e _).trans ?_)
    refine (ih _ (pos + cur.sectors) c).trans ?_
    simp only [Request.serve, Request.chunks, serveChunks, List.append_assoc, List.singleton_append]

def chunkCount (queue : List Request) : Nat := (queue.map fun r => r.chunks.length).sum

theorem drain_queue (queue : List Request) (fuel : Nat) (enough : chunkCount queue ≤ fuel)
    (e : Except Errno Unit) (data : Int → UInt8) (log : List Completion) :
    drain transfer fuel (blkFetchRequest ⟨queue, data, log⟩).1 e (blkFetchRequest ⟨queue, data, log⟩).2 =
      some ⟨[], (serveQueue transfer data queue).1, log ++ (serveQueue transfer data queue).2⟩ := by
  induction queue generalizing fuel data log with
  | nil => cases fuel <;> simp [blkFetchRequest, drain, serveQueue]
  | cons r queue ih =>
    simp only [chunkCount, List.map_cons, List.sum_cons] at enough
    obtain ⟨left, rfl⟩ : ∃ left, fuel = left + r.chunks.length := ⟨fuel - r.chunks.length, by omega⟩
    have first := drain_request transfer left r e ⟨queue, data, log⟩
    have later := ih left (by unfold chunkCount; omega) (r.serve transfer data).1
      (log ++ (r.serve transfer data).2)
    simp only [serveQueue]
    rw [← List.append_assoc, ← later]
    exact first

/-! ### The statuses -/

def starts : Nat → List Chunk → List Nat
  | _, [] => []
  | pos, c :: rest => pos :: starts (pos + c.sectors) rest

def Request.status (r : Request) : Except Errno Unit := if r.fs then .ok () else .error Errno.EIO

/-- The completions a request is owed: every chunk once, in order, under one status. -/
def Request.owed (r : Request) : List (Nat × Nat × Except Errno Unit) :=
  (starts r.pos r.chunks).map fun sector => (r.tag, sector, r.status)

def Completion.summary (e : Completion) : Nat × Nat × Except Errno Unit := (e.tag, e.sector, e.status)

theorem serveChunks_summary (tag : Nat) (fs write : Bool) (pos : Nat) (data : Int → UInt8)
    (chunks : List Chunk) :
    (serveChunks transfer tag fs write pos data chunks).2.map Completion.summary =
      (starts pos chunks).map fun sector => (tag, sector, if fs then .ok () else .error Errno.EIO) := by
  induction chunks generalizing pos data with
  | nil => rfl
  | cons c rest ih =>
    simp only [serveChunks, starts, List.map_cons, ih]
    cases fs <;> simp [serveChunk, Completion.summary]

theorem serveQueue_summary (data : Int → UInt8) (queue : List Request) :
    (serveQueue transfer data queue).2.map Completion.summary = queue.flatMap Request.owed := by
  induction queue generalizing data with
  | nil => rfl
  | cons r queue ih =>
    have own := serveChunks_summary transfer r.tag r.fs r.write r.pos data r.chunks
    simp only [serveQueue, List.map_append, List.flatMap_cons, ih]
    exact congrArg (· ++ queue.flatMap Request.owed) own

theorem serve_status (data : Int → UInt8) (r : Request) :
    ∀ e ∈ (r.serve transfer data).2, e.status = r.status := by
  intro e member
  have listed := List.mem_map_of_mem (f := Completion.summary) member
  rw [Request.serve, serveChunks_summary] at listed
  obtain ⟨sector, _, same⟩ := List.mem_map.mp listed
  exact (congrArg (fun s => s.2.2) same).symm

/-! ### Agreement with the bio path -/

theorem serve_nonfs {r : Request} (data : Int → UInt8) (nonfs : r.fs = false) :
    (r.serve transfer data).1 = data ∧
      (r.serve transfer data).2.map Completion.buffer = r.chunks.map Chunk.buffer := by
  have general : ∀ (chunks : List Chunk) (pos : Nat),
      (serveChunks transfer r.tag r.fs r.write pos data chunks).1 = data ∧
        (serveChunks transfer r.tag r.fs r.write pos data chunks).2.map Completion.buffer =
          chunks.map Chunk.buffer := by
    intro chunks
    induction chunks with
    | nil => intro pos; exact ⟨rfl, rfl⟩
    | cons c rest ih =>
      intro pos
      have later := ih (pos + c.sectors)
      simp only [nonfs] at later ⊢
      simp [serveChunks, serveChunk, later]
  exact general r.chunks r.pos

theorem blkTransfer_write (data : Int → UInt8) (pos : Nat) (c : Chunk)
    (inside : pos * 512 + c.buffer.length < 2 ^ 64) :
    BdevRegular.blkTransfer data pos c.sectors c.buffer true =
      (blit data ((pos * 512 : Nat) : Int) c.buffer, c.buffer) := by
  simp only [BdevRegular.blkTransfer, if_true]
  rw [Nat.mod_eq_of_lt (Nat.lt_of_le_of_lt (Nat.le_add_right _ _) inside), ← c.whole,
    Nat.mod_eq_of_lt (Nat.lt_of_le_of_lt (Nat.le_add_left _ _) inside), List.take_length]

theorem blkTransfer_read (data : Int → UInt8) (pos : Nat) (c : Chunk)
    (inside : pos * 512 + c.buffer.length < 2 ^ 64) :
    BdevRegular.blkTransfer data pos c.sectors c.buffer false =
      (data, fetch data ((pos * 512 : Nat) : Int) c.buffer.length) := by
  simp only [BdevRegular.blkTransfer, Bool.false_eq_true, if_false]
  rw [Nat.mod_eq_of_lt (Nat.lt_of_le_of_lt (Nat.le_add_right _ _) inside), ← c.whole,
    Nat.mod_eq_of_lt (Nat.lt_of_le_of_lt (Nat.le_add_left _ _) inside)]

/-- Chunk by chunk the loop moves the cursor, the disk and the buffers as `forEachSegment` does. -/
theorem serveChunks_segments (tag : Nat) (write : Bool) (pos : Nat) (data : Int → UInt8) (chunks : List Chunk)
    (inside : pos * 512 + ((chunks.map Chunk.buffer).map List.length).sum < 2 ^ 64) :
    ∃ copies, forEachSegment (if write then 1 else 0) data ((pos * 512 : Nat) : Int)
        (chunks.map Chunk.buffer) =
      some ((serveChunks BdevRegular.blkTransfer tag true write pos data chunks).1,
        (serveChunks BdevRegular.blkTransfer tag true write pos data chunks).2.map Completion.buffer,
        copies) := by
  induction chunks generalizing pos data with
  | nil => exact ⟨[], rfl⟩
  | cons c rest ih =>
    have whole := c.whole
    simp only [List.map_cons, List.sum_cons] at inside ⊢
    have cursor : ((pos * 512 : Nat) : Int) + c.buffer.length = (((pos + c.sectors) * 512 : Nat) : Int) := by
      omega
    have mine : pos * 512 + c.buffer.length < 2 ^ 64 :=
      Nat.lt_of_le_of_lt (by omega) inside
    have others : (pos + c.sectors) * 512 + ((rest.map Chunk.buffer).map List.length).sum < 2 ^ 64 :=
      Nat.lt_of_le_of_lt (by omega) inside
    cases write with
    | true =>
      obtain ⟨copies, later⟩ := ih (pos + c.sectors) (blit data ((pos * 512 : Nat) : Int) c.buffer) others
      have moved := blkTransfer_write data pos c mine
      refine ⟨(((pos * 512 : Nat) : Int), c.buffer.length) :: copies, ?_⟩
      simp only [if_true] at later ⊢
      rw [forEachSegment, if_neg (by decide), if_pos rfl, cursor, later]
      simp only [serveChunks, serveChunk, moved, Bool.not_true, Bool.false_eq_true, if_false, Option.map_some,
        List.map_cons]
    | false =>
      obtain ⟨copies, later⟩ := ih (pos + c.sectors) data others
      have moved := blkTransfer_read data pos c mine
      refine ⟨(((pos * 512 : Nat) : Int), c.buffer.length) :: copies, ?_⟩
      simp only [Bool.false_eq_true, if_false] at later ⊢
      rw [forEachSegment, if_pos (Or.inr rfl), cursor, later]
      simp only [serveChunks, serveChunk, moved, Bool.not_true, Bool.false_eq_true, if_false, Option.map_some,
        List.map_cons]

theorem serve_bio {r : Request} (d : Bdev) (fs : r.fs = true) (inside : r.pos * 512 + r.bytes ≤ d.size) :
    (d.bdevRequest r.bio).data = (r.serve BdevRegular.blkTransfer d.data).1 ∧
      (d.bdevRequest r.bio).segs = (r.serve BdevRegular.blkTransfer d.data).2.map Completion.buffer := by
  have noWrap : r.bio.sector * 512 + r.bio.size < 2 ^ 64 :=
    Nat.lt_of_le_of_lt inside (Nat.lt_trans d.fits (by decide))
  obtain ⟨copies, passed⟩ := serveChunks_segments r.tag r.write r.pos d.data r.chunks noWrap
  have dir : bioDataDir r.bio = if r.write then 1 else 0 := by
    cases write : r.write <;> simp [bioDataDir, Request.bio, write]
  rw [← dir] at passed
  have served : d.bdevRequest r.bio = ⟨(r.serve BdevRegular.blkTransfer d.data).1,
      (r.serve BdevRegular.blkTransfer d.data).2.map Completion.buffer, copies, [.ok ()]⟩ := by
    rw [Bdev.bdevRequest, Request.serve, fs]
    exact serveBio_accepted inside noWrap passed
  rw [served]
  exact ⟨rfl, rfl⟩

/-! ### Whole queues -/

def fsBios (queue : List Request) : List Bio := (queue.filter fun r => r.fs).map Request.bio

theorem filter_eq_of_status {log : List Completion} {status : Except Errno Unit}
    (uniform : ∀ e ∈ log, e.status = status) (keep : Except Errno Unit → Bool) :
    log.filter (fun e => keep e.status) = if keep status then log else [] := by
  cases kept : keep status with
  | true => exact List.filter_eq_self.mpr fun e member => by rw [uniform e member, kept]
  | false => exact List.filter_eq_nil_iff.mpr fun e member => by rw [uniform e member, kept]; decide

theorem serveQueue_bios (d : Bdev) (queue : List Request)
    (inside : ∀ r ∈ queue, r.fs = true → r.pos * 512 + r.bytes ≤ d.size) :
    (serveQueue BdevRegular.blkTransfer d.data queue).1 = (d.after (fsBios queue)).data ∧
    ((serveQueue BdevRegular.blkTransfer d.data queue).2.filter fun e => e.status.isOk).map Completion.buffer =
      (d.outcomes (fsBios queue)).flatMap Outcome.segs ∧
    ((serveQueue BdevRegular.blkTransfer d.data queue).2.filter fun e => !e.status.isOk).map Completion.buffer =
      (queue.filter fun r => !r.fs).flatMap fun r => r.chunks.map Chunk.buffer := by
  induction queue generalizing d with
  | nil => exact ⟨rfl, rfl, rfl⟩
  | cons r queue ih =>
    have uniform := serve_status BdevRegular.blkTransfer d.data r
    have ok := filter_eq_of_status uniform fun status => status.isOk
    have failed := filter_eq_of_status uniform fun status => !status.isOk
    simp only [serveQueue, List.filter_append, List.map_append, ok, failed]
    cases fs : r.fs with
    | true =>
      obtain ⟨data, segs⟩ := serve_bio d fs (inside r List.mem_cons_self fs)
      obtain ⟨final, good, bad⟩ := ih { d with data := (d.bdevRequest r.bio).data } fun r' member =>
        inside r' (List.mem_cons_of_mem _ member)
      have bios : fsBios (r :: queue) = r.bio :: fsBios queue := by simp [fsBios, fs]
      rw [← data, bios]
      refine ⟨final, ?_, ?_⟩
      · simp only [Request.status, fs, if_true, Except.isOk, Except.toBool, Bdev.outcomes, List.flatMap_cons,
          ← segs]
        exact congrArg _ good
      · simpa [Request.status, fs, Except.isOk, Except.toBool] using bad
    | false =>
      obtain ⟨data, segs⟩ := serve_nonfs BdevRegular.blkTransfer d.data fs
      obtain ⟨final, good, bad⟩ := ih d fun r' member => inside r' (List.mem_cons_of_mem _ member)
      have bios : fsBios (r :: queue) = fsBios queue := by simp [fsBios, fs]
      rw [data, bios]
      refine ⟨final, ?_, ?_⟩
      · simpa [Request.status, fs, Except.isOk, Except.toBool] using good
      · simpa [Request.status, fs, Except.isOk, Except.toBool, segs] using bad

theorem Ram.blkTransfer_eq : Ram.blkTransfer = BdevRegular.blkTransfer := by
  funext data sector sectors buffer write
  cases write <;> rfl

/-- `ram.c` never reads the initial value of its `err`, so its loop is the one of `bdev-regular.c`. -/
theorem Ram.requestFn_eq (fuel : Nat) (err : Except Errno Unit) (d : Driver) :
    Ram.requestFn fuel err d = BdevRegular.bdevRequest fuel d := by
  rw [Ram.requestFn, Ram.blkTransfer_eq]
  exact drain_err _ _ _ _ _ _

/-- The queue driver agrees with the bio driver: it empties the queue, ends every chunk once and in
order under the status its request is owed, and leaves the disk and the buffers of the fs requests
as `bdev.c` leaves them for the same transfers. A non-fs request moves no byte. -/
theorem queue_agrees (d : Bdev) (queue : List Request)
    (inside : ∀ r ∈ queue, r.fs = true → r.pos * 512 + r.bytes ≤ d.size)
    (fuel : Nat) (enough : chunkCount queue ≤ fuel) :
    ∃ final, BdevRegular.bdevRequest fuel ⟨queue, d.data, []⟩ = some final ∧ final.queue = [] ∧
      final.log.map Completion.summary = queue.flatMap Request.owed ∧
      final.data = (d.after (fsBios queue)).data ∧
      (final.log.filter fun e => e.status.isOk).map Completion.buffer =
        (d.outcomes (fsBios queue)).flatMap Outcome.segs ∧
      (final.log.filter fun e => !e.status.isOk).map Completion.buffer =
        (queue.filter fun r => !r.fs).flatMap fun r => r.chunks.map Chunk.buffer := by
  obtain ⟨data, good, bad⟩ := serveQueue_bios d queue inside
  have summary := serveQueue_summary BdevRegular.blkTransfer d.data queue
  have drained := drain_queue BdevRegular.blkTransfer queue fuel enough (.ok ()) d.data []
  exact ⟨⟨[], _, _⟩, drained, rfl, summary, data, good, bad⟩

def sectorOf (byte : UInt8) : Chunk := ⟨1, List.replicate 512 byte, by decide, List.length_replicate⟩

def threeRequests : List Request :=
  [⟨0, true, true, 1, sectorOf 7, []⟩, ⟨1, false, true, 0, sectorOf 9, [sectorOf 9]⟩,
    ⟨2, true, false, 0, sectorOf 0, [sectorOf 0]⟩]

/-- A write, a non-fs request of two chunks and a read of two chunks, on a disk of two sectors. -/
theorem queue_agrees_three_requests :
    ∃ final, BdevRegular.bdevRequest 5 ⟨threeRequests, twoSectors.data, []⟩ = some final ∧ final.queue = [] ∧
      final.log.map Completion.summary = [(0, 1, .ok ()), (1, 0, .error Errno.EIO), (1, 1, .error Errno.EIO),
        (2, 0, .ok ()), (2, 1, .ok ())] := by
  have one : ∀ byte, (sectorOf byte).sectors = 1 := fun _ => rfl
  obtain ⟨final, ended, empty, summary, _⟩ := queue_agrees twoSectors threeRequests
    (by simp [threeRequests, Request.bytes, Request.chunks, Chunk.whole, one, twoSectors]) 5
    (by simp [threeRequests, chunkCount, Request.chunks])
  exact ⟨final, ended, empty, summary⟩

end Ldd3.Block
