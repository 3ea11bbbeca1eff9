import Ldd3.RwBlock.Reads

/-!
The copies of the `rw_block` ring. A call makes at most two, one up to the end of the buffer and one
from its bottom, and passes their counts on as an `int`. An over-long write leaves `write` at `size`,
one past the last index, and the next read then leaves `read` there. Both branches of either call get
along with that: what they copy from there is empty, and no count is negative. A copy that misses
bytes goes unnoticed, so the indices do not depend on it.
-/

namespace Ldd3.RwBlock

open Base.Cells Base.Words

/-- The index in the kernel buffer that a copy starts at, and the count it is called with. -/
structure Copy where
  index : Int
  count : Int
  deriving DecidableEq

def readCopies (d : Sdev) (len : Nat) : List Copy :=
  if d.read < d.write then [⟨d.read, toInt32 (d.write - d.read)⟩]
  else if d.write < d.read then
    let sum := firstCount d len
    if len < toU64 (d.size - d.read) then [⟨d.read, sum⟩] else [⟨d.read, sum⟩, ⟨0, secondCount d len sum⟩]
  else []

def writeCopies (d : Sdev) (len : Nat) : List Copy :=
  if len < toU64 (d.size - d.write) then [⟨d.write, toInt32 len⟩]
  else
    let sum := toInt32 (d.size - d.write)
    [⟨d.write, sum⟩, ⟨0, roundCount d len sum⟩]

def Call.copies (d : Sdev) : Call → List Copy
  | .read _ len _ => readCopies d len
  | .write data _ => writeCopies d data.length

/-! ### What the copies move -/

def copyToUser (d : Sdev) (copies : List Copy) : List UInt8 :=
  copies.flatMap fun c => fetch d.mem (d.buf + c.index) (toU64 c.count)

-- each copy goes on in the user's bytes where the one before it stopped
def copyFromUser (buf : Int) : List Copy → List UInt8 → (Int → UInt8) → Int → UInt8
  | [], _, mem => mem
  | c :: rest, data, mem =>
    copyFromUser buf rest (data.drop (toU64 c.count)) (blit mem (buf + c.index) (data.take (toU64 c.count)))

def Call.toUser (d : Sdev) : Call → List UInt8
  | .read _ len _ => copyToUser d (readCopies d len)
  | .write _ _ => []

def Call.fromUser (d : Sdev) : Call → Int → UInt8
  | .read _ _ _ => d.mem
  | .write data _ => copyFromUser d.buf (writeCopies d data.length) data d.mem

/-- The bytes that a call delivers and the bytes that it stores are those of its copies. -/
structure Transfers (d : Sdev) (call : Call) (done : Done) : Prop where
  delivered : done.delivered = call.toUser d
  stored : done.dev.mem = call.fromUser d

variable {d : Sdev}

theorem sdevRead_transfers {signal : Bool} {len : Nat} (limit : len ≤ maxRwCount) {done : Done}
    (called : sdevRead d signal len = some done) : Transfers d (.read signal len limit) done := by
  unfold sdevRead at called
  split at called
  · cases called
  · simp only at called
    split at called
    · rename_i ahead
      cases called
      refine ⟨?_, rfl⟩
      simp only [Call.toUser, readCopies, if_pos ahead, copyToUser, List.flatMap_singleton]
      rfl
    · rename_i ahead
      split at called
      · rename_i behind
        cases called
        unfold readRound
        simp only
        split
        · rename_i short
          refine ⟨?_, rfl⟩
          simp only [Call.toUser, readCopies, if_neg ahead, if_pos behind, if_pos short, copyToUser,
            List.flatMap_singleton]
          rfl
        · rename_i long
          refine ⟨?_, rfl⟩
          simp only [Call.toUser, readCopies, if_neg ahead, if_pos behind, if_neg long, copyToUser,
            List.flatMap_cons, List.flatMap_nil, List.append_nil, Int.add_zero]
          rfl
      · rename_i behind
        cases called
        refine ⟨?_, rfl⟩
        simp only [Call.toUser, readCopies, if_neg ahead, if_neg behind, copyToUser, List.flatMap_nil]

theorem sdevWrite_transfers (d : Sdev) {data : List UInt8} (limit : data.length ≤ maxRwCount) :
    Transfers d (.write data limit) (sdevWrite d data) := by
  refine ⟨sdevWrite_delivered d data, ?_⟩
  unfold sdevWrite
  simp only
  split
  · rename_i short
    simp only [Call.fromUser, writeCopies, if_pos short, copyFromUser]
    rfl
  · rename_i long
    simp only [Call.fromUser, writeCopies, if_neg long, copyFromUser, Int.add_zero]
    rfl

theorem perform_transfers {call : Call} {done : Done} (performed : call.perform d = some done) :
    Transfers d call done := by
  cases call with
  | read signal len limit => exact sdevRead_transfers limit performed
  | write data limit =>
    cases performed
    exact sdevWrite_transfers d limit

/-! ### Where they are -/

/-- The count is not negative, and the range from the index on lies between 0 and `size`. -/
structure Copy.Inside (size : Int) (c : Copy) : Prop where
  count : 0 ≤ c.count
  low : 0 ≤ c.index
  high : c.index + c.count ≤ size

theorem readCopies_inside (h : Within d) {len : Nat} (limit : len ≤ maxRwCount) :
    ∀ c ∈ readCopies d len, c.Inside d.size := by
  have bound : len < 2 ^ 64 := (lt_of_limit limit).trans (by decide)
  have size := d.fits
  have first := firstCount_eq h len
  have bounds := h
  obtain ⟨readLow, readHigh, writeLow, writeHigh⟩ := bounds
  have wide := d.toU64_above readLow readHigh
  unfold readCopies
  split
  · have count : toInt32 (d.write - d.read) = d.write - d.read := toInt32_of_range (by omega) (by omega)
    rw [count]
    exact List.forall_mem_singleton.mpr ⟨by simp only; omega, readLow, by simp only; omega⟩
  · split
    · simp only [wide]
      split
      · exact List.forall_mem_singleton.mpr ⟨by simp only; omega, readLow, by simp only; omega⟩
      · have whole : firstCount d len = d.size - d.read := by omega
        have second := secondCount_eq h bound (by omega)
        rw [whole, List.forall_mem_cons]
        refine ⟨⟨by simp only; omega, readLow, by simp only; omega⟩, List.forall_mem_singleton.mpr ?_⟩
        exact ⟨by simp only; omega, Int.le_refl 0, by simp only; omega⟩
    · exact List.forall_mem_nil _

theorem writeCopies_inside (h : Within d) {len : Nat} (limit : len ≤ maxRwCount) :
    ∀ c ∈ writeCopies d len, c.Inside d.size := by
  have bound := lt_of_limit limit
  have size := d.fits
  obtain ⟨_, _, writeLow, writeHigh⟩ := h
  have wide := d.toU64_above writeLow writeHigh
  unfold writeCopies
  rw [wide]
  split
  · have count : toInt32 len = len := toInt32_of_range (by omega) (by omega)
    rw [count]
    exact List.forall_mem_singleton.mpr ⟨by simp only; omega, writeLow, by simp only; omega⟩
  · have sum := d.toInt32_above writeLow writeHigh
    have rest : toInt32 (len - (d.size - d.write)) = len - (d.size - d.write) :=
      toInt32_of_range (by omega) (by omega)
    have second : 0 ≤ roundCount d len (d.size - d.write) ∧ roundCount d len (d.size - d.write) ≤ d.size := by
      rw [roundCount, rest]
      split <;> omega
    simp only [sum]
    rw [List.forall_mem_cons]
    refine ⟨⟨by simp only; omega, writeLow, by simp only; omega⟩, List.forall_mem_singleton.mpr ?_⟩
    exact ⟨second.1, Int.le_refl 0, by simp only; omega⟩

theorem copies_inside (h : Within d) (call : Call) : ∀ c ∈ call.copies d, c.Inside d.size := by
  cases call with
  | read signal len limit => exact readCopies_inside h limit
  | write data limit => exact writeCopies_inside h limit

/-- A write stops at `size` exactly if it goes round and then has a whole turn left to write. -/
theorem write_at_size_iff (h : Within d) {data : List UInt8} (limit : data.length ≤ maxRwCount) :
    (sdevWrite d data).dev.write = d.size ↔ 2 * d.size ≤ d.write + data.length := by
  have low := h.write_low
  have high := h.write_high
  obtain ⟨mem, dev⟩ := sdevWrite_lands h limit
  rw [dev]
  simp only [landing]
  split <;> omega

theorem perform_geometry {call : Call} {done : Done} (h : Within d) (performed : call.perform d = some done) :
    done.dev.toGeometry = d.toGeometry := by
  cases call with
  | read signal len limit => cases sdevRead_reads h limit performed <;> rfl
  | write data limit =>
    obtain ⟨mem, dev⟩ := sdevWrite_lands h limit
    cases performed
    rw [dev]

/-! ### Runs -/

def Copy.Covers (buf : Int) (c : Copy) (a : Int) : Prop := buf + c.index ≤ a ∧ a < buf + c.index + c.count

def Call.written (d : Sdev) : Call → List Copy
  | .read _ _ _ => []
  | .write data _ => writeCopies d data.length

/-- A call whose copies may miss bytes. It goes on as if they did not: only what a write leaves in the
ranges of its copies can be something else. -/
inductive Faulty (d : Sdev) (call : Call) : Sdev → Prop where
  | mk {done : Done} {mem : Int → UInt8} (performed : call.perform d = some done)
      (changed : ∀ a, mem a ≠ d.mem a → ∃ c ∈ call.written d, c.Covers d.buf a) :
      Faulty d call { done.dev with mem := mem }

def FaultyRun : Sdev → List Call → Sdev → Prop
  | d, [], d' => d' = d
  | d, call :: calls, d' => ∃ middle, Faulty d call middle ∧ FaultyRun middle calls d'

theorem copyFromUser_changed {size buf a : Int} (fits : size < 2 ^ 31) {copies : List Copy}
    (inside : ∀ c ∈ copies, c.Inside size) {data : List UInt8} {mem : Int → UInt8}
    (changed : copyFromUser buf copies data mem a ≠ mem a) : ∃ c ∈ copies, c.Covers buf a := by
  induction copies generalizing data mem with
  | nil => exact absurd rfl changed
  | cons c rest ih =>
    obtain ⟨⟨count, low, high⟩, later⟩ := List.forall_mem_cons.mp inside
    by_cases first : blit mem (buf + c.index) (data.take (toU64 c.count)) a = mem a
    · rw [← first, copyFromUser] at changed
      obtain ⟨other, member, covers⟩ := ih later changed
      exact ⟨other, List.mem_cons_of_mem _ member, covers⟩
    · have copied : toU64 c.count = c.count.toNat := toU64_of_range (by omega) (by omega)
      have short : (data.take (toU64 c.count)).length ≤ c.count.toNat := by
        rw [copied]
        exact List.length_take_le _ _
      obtain ⟨above, below⟩ := blit_changed first
      exact ⟨c, List.mem_cons_self, above, by omega⟩

theorem perform_faulty (h : Within d) {call : Call} {done : Done} (performed : call.perform d = some done) :
    Faulty d call done.dev := by
  have stored := (perform_transfers performed).stored
  refine @Faulty.mk d call done done.dev.mem performed ?_
  intro a changed
  rw [stored] at changed
  cases call with
  | read signal len limit => exact absurd rfl changed
  | write data limit => exact copyFromUser_changed d.fits (writeCopies_inside h limit) changed

/-- What every run keeps. -/
structure Kept (g : Geometry) (mem : Int → UInt8) (d : Sdev) : Prop where
  within : Within d
  geometry : d.toGeometry = g
  outside : ∀ a, a < g.buf ∨ g.buf + g.size ≤ a → d.mem a = mem a

theorem start_kept (g : Geometry) (mem : Int → UInt8) : Kept g mem (start g mem) :=
  ⟨(start_good g mem).within, rfl, fun _ _ => rfl⟩

variable {g : Geometry} {mem : Int → UInt8}

theorem Faulty.kept {d' : Sdev} {call : Call} (faulty : Faulty d call d') (kept : Kept g mem d) : Kept g mem d' := by
  obtain ⟨h, same, outside⟩ := kept
  cases faulty with
  | @mk done mem' performed changed =>
    have stepped : (call.perform d).map Done.dev = some done.dev := by rw [performed, Option.map_some]
    obtain ⟨readLow, readHigh, writeLow, writeHigh⟩ := perform_within d call done.dev h stepped
    refine ⟨⟨readLow, readHigh, writeLow, writeHigh⟩, (perform_geometry h performed).trans same, ?_⟩
    intro a around
    rw [← outside a around]
    by_contra differs
    obtain ⟨c, member, above, below⟩ := changed a differs
    have inside : c.Inside d.size := by
      cases call with
      | read signal len limit => cases member
      | write data limit => exact writeCopies_inside h limit c member
    obtain ⟨count, low, high⟩ := inside
    rw [← same] at around
    omega

theorem FaultyRun.kept {calls : List Call} {d' : Sdev} (ran : FaultyRun d calls d') (kept : Kept g mem d) :
    Kept g mem d' := by
  induction calls generalizing d with
  | nil => rwa [show d' = d from ran]
  | cons call calls ih =>
    obtain ⟨middle, faulty, rest⟩ := ran
    exact ih rest (faulty.kept kept)

/-- A run in which no copy misses anything is one of these runs. -/
theorem serve_faultyRun {calls : List Call} {d' : Sdev} (h : Within d) (served : serve d calls = some d') :
    FaultyRun d calls d' := by
  induction calls generalizing d with
  | nil =>
    cases served
    rfl
  | cons call calls ih =>
    rw [serve, List.foldlM_cons] at served
    obtain ⟨middle, stepped, rest⟩ := Option.bind_eq_some_iff.mp served
    obtain ⟨done, performed, rfl⟩ := Option.map_eq_some_iff.mp stepped
    exact ⟨done.dev, perform_faulty h performed, ih (perform_within d call done.dev h stepped) rest⟩

/-- Before and after every call of every run both indices are between 0 and `size`, and every copy of
the call has a count that is not negative and stays inside the buffer. -/
theorem copies_in_buffer {calls : List Call} (ran : FaultyRun (start g mem) calls d) (call : Call) :
    Within d ∧ d.toGeometry = g ∧ (∀ c ∈ call.copies d, c.Inside g.size) ∧
      (∀ d', Faulty d call d' → Within d') ∧ (∀ a, a < g.buf ∨ g.buf + g.size ≤ a → d.mem a = mem a) ∧
      (∀ done, call.perform d = some done → Faulty d call done.dev ∧ Transfers d call done) ∧
      ∀ data limit, call = .write data limit →
        ((sdevWrite d data).dev.write = g.size ↔ 2 * g.size ≤ d.write + data.length) := by
  have kept := ran.kept (start_kept g mem)
  have inside := copies_inside kept.within call
  rw [kept.geometry] at inside
  refine ⟨kept.within, kept.geometry, inside, fun d' faulty => (faulty.kept kept).within, kept.outside,
    ?_, ?_⟩
  · intro done performed
    exact ⟨perform_faulty kept.within performed, perform_transfers performed⟩
  · intro data limit _
    have lands := write_at_size_iff kept.within limit
    rwa [kept.geometry] at lands

def twoTurns : Call := .write (List.replicate 84 97) (by decide)

theorem copies_in_buffer_at_size :
    ∃ d, FaultyRun (start sdevGeometry fun _ => 0) [twoTurns] d ∧ d.write = sdevGeometry.size ∧
      twoTurns.copies d = [⟨42, 0⟩, ⟨0, 42⟩] ∧ ∀ c ∈ twoTurns.copies d, c.Inside sdevGeometry.size := by
  have served : serve (start sdevGeometry fun _ => 0) [twoTurns] = some _ := rfl
  have ran := serve_faultyRun (start_good sdevGeometry fun _ => 0).within served
  exact ⟨_, ran, rfl, by decide, (copies_in_buffer ran twoTurns).2.2.1⟩

end Ldd3.RwBlock
