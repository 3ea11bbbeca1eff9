import Ldd3.Interrupt.Faults

/-!
The pointers of the two pointer rings, `scullb` and `fin.c`, and what a client of `fin.c` can rely on.
In every run, with copies that miss bytes or not, `rp` and `wp` stay inside the buffer, so does every
copy, and no difference that is converted to `size_t` is negative. A write to `fin.c` accepts at least
one byte as long as no write's copy misses `2 ^ 31` bytes, so a client that writes the rest until
nothing is left comes to an end. It cannot rely on one write and one read of the same length: both stop at the
physical end of the buffer.
-/

namespace Ldd3.Interrupt

open Base.Cells Base.Ring Base.Runs Base.Words

/-- The ranges of the buffer that a call copies, as start and length, and the differences that it
converts to `size_t`. -/
structure Use where
  copied : List (Int × Nat)
  converted : List Int

def Use.none : Use := ⟨[], []⟩

def ofScullbRequest (d : Scullb.Sdev) : Scullb.Request → Use
  | .read _ len _ =>
    if d.rp = d.wp then .none
    else ⟨[(d.rp, Scullb.readCount d len)], [if d.rp < d.wp then d.wp - d.rp else d.bufEnd - d.rp]⟩
  | .write _ data _ =>
    if Scullb.haveSpace d = 0 then .none
    else ⟨[(d.wp, Scullb.writeCount d data.length)],
      [Scullb.haveSpace d, if d.rp ≤ d.wp then d.bufEnd - d.wp else d.rp - d.wp - 1]⟩

def ofScullbLen : Scullb.Request → Nat
  | .read _ len _ => len
  | .write _ data _ => data.length

-- the first difference of a read is the one that `have_read` returns
def ofFinCall (d : Sdev) : Call → Use
  | .read _ len =>
    if d.sem ≤ 0 ∨ d.rp = d.wp then .none
    else ⟨[(d.rp, readCount d len)], [if d.rp < d.wp then d.wp - d.rp else d.bufEnd - d.rp, d.bufEnd - d.rp]⟩
  | .write _ data =>
    if d.sem ≤ 0 then .none else ⟨[(d.wp, writeCount d data.length)], [d.bufEnd - d.wp]⟩

def ofFinLen : Call → Nat
  | .read _ len => len
  | .write _ data => data.length

structure Use.Inside (u : Use) (buf bufEnd : Int) : Prop where
  copied : ∀ range ∈ u.copied, buf ≤ range.1 ∧ range.1 + range.2 ≤ bufEnd
  converted : ∀ difference ∈ u.converted, 0 ≤ difference

/-- The count of a copy is the length asked for, cut down by one conversion after the other. -/
def Use.Counts (u : Use) (len : Nat) : Prop :=
  ∀ range ∈ u.copied, range.2 = (u.converted.map toU64).foldl min len

/-- Every byte that a call changes or delivers is in one of the ranges. -/
structure Use.Covers (u : Use) (mem mem' : Int → UInt8) (delivered : List UInt8) : Prop where
  changed : ∀ a, mem' a ≠ mem a → ∃ range ∈ u.copied, range.1 ≤ a ∧ a < range.1 + range.2
  given : delivered ≠ [] → ∃ range ∈ u.copied, delivered <+: fetch mem range.1 range.2

theorem inside_none (buf bufEnd : Int) : Use.none.Inside buf bufEnd := ⟨nofun, nofun⟩

theorem inside_copy {p buf bufEnd : Int} {count : Nat} {converted : List Int} (low : buf ≤ p)
    (high : p + count ≤ bufEnd) (nonneg : ∀ difference ∈ converted, 0 ≤ difference) :
    (⟨[(p, count)], converted⟩ : Use).Inside buf bufEnd where
  copied := List.forall_mem_singleton.mpr ⟨low, high⟩
  converted := nonneg

theorem counts_none (len : Nat) : Use.none.Counts len := nofun

theorem counts_copy {p : Int} {count len : Nat} {converted : List Int}
    (counted : count = (converted.map toU64).foldl min len) : (⟨[(p, count)], converted⟩ : Use).Counts len :=
  List.forall_mem_singleton.mpr counted

theorem covers_nothing (u : Use) (mem : Int → UInt8) : u.Covers mem mem [] :=
  ⟨fun _ changed => absurd rfl changed, fun given => absurd rfl given⟩

theorem covers_fetch (mem : Int → UInt8) (p : Int) (count left : Nat) (converted : List Int) :
    (⟨[(p, count)], converted⟩ : Use).Covers mem mem (fetch mem p (count - left)) where
  changed _ changed := absurd rfl changed
  given _ := by
    refine ⟨(p, count), List.mem_singleton_self _, ?_⟩
    have split := fetch_add mem p (count - left) (count - (count - left))
    rw [show count - left + (count - (count - left)) = count by omega] at split
    exact ⟨_, split.symm⟩

theorem covers_blit (mem : Int → UInt8) (p : Int) (data : List UInt8) {count left : Nat} (bound : left ≤ count)
    (converted : List Int) :
    (⟨[(p, count)], converted⟩ : Use).Covers mem
      (blit mem p (data.take (count - left) ++ List.replicate left 0)) [] where
  changed a changed := by
    have length : (data.take (count - left) ++ List.replicate left 0).length ≤ count := by
      rw [List.length_append, List.length_take, List.length_replicate]
      omega
    have inside := blit_changed changed
    refine ⟨(p, count), List.mem_singleton_self _, inside.1, ?_⟩
    simp only
    omega
  given given := absurd rfl given

/-! ### The ring of `scullb` -/

theorem scullb_inside {d : Scullb.Sdev} (h : Scullb.Within d) (r : Scullb.Request) :
    (ofScullbRequest d r).Inside d.buf d.bufEnd := by
  have bounds := h
  obtain ⟨rpLow, rpHigh, wpLow, wpHigh⟩ := bounds
  cases r with
  | read nonblock len fault =>
    have count := Scullb.readCount_le h len
    simp only [ofScullbRequest]
    split
    · exact inside_none _ _
    · refine inside_copy rpLow count ?_
      simp only [List.mem_singleton, forall_eq]
      split <;> omega
  | write nonblock data fault =>
    have count := (Scullb.writeCount_le h data.length).2
    have space := (Scullb.haveSpace_range h).1
    simp only [ofScullbRequest]
    split
    · exact inside_none _ _
    · refine inside_copy wpLow count ?_
      simp only [List.mem_cons, List.not_mem_nil, or_false, forall_eq_or_imp, forall_eq]
      refine ⟨space.le, ?_⟩
      split <;> omega

theorem scullb_counts (d : Scullb.Sdev) (r : Scullb.Request) : (ofScullbRequest d r).Counts (ofScullbLen r) := by
  cases r with
  | read nonblock len fault =>
    simp only [ofScullbRequest, ofScullbLen]
    split
    · exact counts_none _
    · apply counts_copy
      unfold Scullb.readCount
      split <;> rfl
  | write nonblock data fault =>
    simp only [ofScullbRequest, ofScullbLen]
    split
    · exact counts_none _
    · apply counts_copy
      unfold Scullb.writeCount
      simp only
      split <;> rfl

theorem scullb_covers {d : Scullb.Sdev} (h : Scullb.Within d) {r : Scullb.Request} {done : Scullb.Done}
    (performed : r.perform d = some done) :
    (ofScullbRequest d r).Covers d.mem done.dev.mem done.delivered ∧ done.dev.toGeometry = d.toGeometry := by
  cases r with
  | read nonblock len fault =>
    by_cases empty : d.rp = d.wp
    · rw [Scullb.Request.perform, Scullb.sdevRead_empty empty] at performed
      cases nonblock with
      | false => cases performed
      | true =>
        cases performed
        exact ⟨covers_nothing _ _, rfl⟩
    · rw [Scullb.Request.perform, Scullb.sdevRead_ready empty] at performed
      cases performed
      simp only [ofScullbRequest, if_neg empty, Scullb.afterRead_eq, and_true]
      exact covers_fetch _ _ _ _ _
  | write nonblock data fault =>
    have space := (Scullb.haveSpace_range h).1
    rw [Scullb.Request.perform, Scullb.sdevWrite_ready h] at performed
    cases performed
    simp only [ofScullbRequest, if_neg space.ne', Scullb.afterWrite_eq, and_true]
    exact covers_blit _ _ _ (Nat.min_le_right _ _) _

theorem scullb_serve_geometry {g : Scullb.Geometry} {mem : Int → UInt8} {requests : List Scullb.Request}
    {d : Scullb.Sdev} (served : Scullb.serve (Scullb.start g mem) requests = some d) :
    Scullb.Within d ∧ d.toGeometry = g := by
  refine foldlM_invariant (I := fun d : Scullb.Sdev => Scullb.Within d ∧ d.toGeometry = g) ?_
    ⟨Scullb.start_within g mem, rfl⟩ served
  rintro d r d' ⟨h, same⟩ stepped
  obtain ⟨done, performed, rfl⟩ := Option.map_eq_some_iff.mp stepped
  exact ⟨Scullb.perform_within h performed, (scullb_covers h performed).2.trans same⟩

/-! ### The ring of `fin.c` -/

variable {d : Sdev}

theorem fin_inside (h : Within d) (c : Call) : (ofFinCall d c).Inside d.buf d.bufEnd := by
  have bounds := h
  obtain ⟨rpLow, rpHigh, wpLow, wpHigh⟩ := bounds
  cases c with
  | read signal len =>
    simp only [ofFinCall]
    split
    · exact inside_none _ _
    · rename_i proceeds
      have ready : haveRead d ≠ 0 := fun zero => proceeds (Or.inr ((haveRead_zero_iff h).mp zero))
      have count := readCount_end h ready len
      refine inside_copy rpLow count ?_
      simp only [List.mem_cons, List.not_mem_nil, or_false, forall_eq_or_imp, forall_eq]
      refine ⟨?_, by omega⟩
      split <;> omega
  | write signal data =>
    have count := writeCount_end h data.length
    simp only [ofFinCall]
    split
    · exact inside_none _ _
    · refine inside_copy wpLow count ?_
      simp only [List.mem_singleton, forall_eq]
      omega

theorem fin_counts (d : Sdev) (c : Call) : (ofFinCall d c).Counts (ofFinLen c) := by
  cases c with
  | read signal len =>
    simp only [ofFinCall, ofFinLen]
    split
    · exact counts_none _
    · rename_i proceeds
      have ready : ¬ d.rp = d.wp := fun empty => proceeds (Or.inr empty)
      apply counts_copy
      rw [readCount, haveRead, Nat.min_comm _ len, if_neg ready]
      split <;> rfl
  | write signal data =>
    simp only [ofFinCall, ofFinLen]
    split
    · exact counts_none _
    · exact counts_copy rfl

theorem fin_covers (h : Within d) {c : Call} {fault : Nat} {done : Done} (performed : c.perform d fault = some done) :
    (ofFinCall d c).Covers d.mem done.dev.mem done.delivered := by
  cases c with
  | read signal len =>
    rcases sdevRead_cases performed with ⟨_, rfl⟩ | ⟨free, ready, rfl⟩
    · exact covers_nothing _ _
    · have proceeds : ¬ (d.sem ≤ 0 ∨ d.rp = d.wp) := by
        rw [← haveRead_zero_iff h]
        omega
      simp only [ofFinCall, if_neg proceeds]
      exact covers_fetch _ _ _ _ _
  | write signal data =>
    simp only [ofFinCall]
    rcases sdevWrite_cases performed with ⟨_, rfl⟩ | ⟨free, _, rfl⟩ | ⟨free, rfl⟩
    · exact covers_nothing _ _
    all_goals
      rw [if_neg (Int.not_le.mpr free)]
      exact covers_blit _ _ _ (Nat.min_le_right _ _) _

theorem perform_released {c : Call} {fault : Nat} {done : Done}
    (few : ∀ signal data, c = .write signal data → fault < 2 ^ 31) (performed : c.perform d fault = some done) :
    done.dev.sem = d.sem := by
  cases c with
  | read signal len =>
    rcases sdevRead_cases performed with ⟨_, rfl⟩ | ⟨_, _, rfl⟩ <;> rfl
  | write signal data =>
    rcases sdevWrite_cases performed with ⟨_, rfl⟩ | ⟨_, many, _⟩ | ⟨_, rfl⟩
    · rfl
    · exact absurd (few signal data rfl) (Nat.not_lt.mpr many)
    · rfl

/-- As long as no copy of a write misses `2 ^ 31` bytes, every call gives the semaphore back. -/
theorem serve_released {d d' : Sdev} {requests : List (Call × Nat)} (served : serve d requests = some d')
    (few : ∀ signal data fault, (Call.write signal data, fault) ∈ requests → fault < 2 ^ 31) : d'.sem = d.sem := by
  induction requests generalizing d with
  | nil =>
    cases served
    rfl
  | cons r requests ih =>
    rw [serve, List.foldlM_cons] at served
    obtain ⟨middle, stepped, later⟩ := Option.bind_eq_some_iff.mp served
    obtain ⟨done, performed, rfl⟩ := Option.map_eq_some_iff.mp stepped
    have first : ∀ signal data, r.1 = .write signal data → r.2 < 2 ^ 31 := by
      intro signal data write
      exact few signal data r.2 (write ▸ List.mem_cons_self)
    have rest := ih later fun signal data fault member => few signal data fault (List.mem_cons_of_mem r member)
    exact rest.trans (perform_released first performed)

/-! ### Writing until all is accepted -/

theorem sdevWrite_accepts (h : Within d) (free : 0 < d.sem) (signal : Bool) {data : List UInt8} (nonempty : data ≠ [])
    {fault : Nat} (few : fault < 2 ^ 31) :
    ∃ count d', sdevWrite d signal data fault = some ⟨.ok count, [], d'⟩ ∧ 1 ≤ count ∧ Within d' ∧ d'.sem = d.sem := by
  have high := h.wp_high
  have length := List.length_pos_iff.mpr nonempty
  have count := writeCount_eq h data.length
  cases called : sdevWrite d signal data fault with
  | none =>
    simp only [sdevWrite, if_neg (Int.not_le.mpr free)] at called
    split at called <;> cases called
  | some done =>
    have within := (perform_within h (c := .write signal data) called).1
    rcases sdevWrite_cases called with ⟨taken, _⟩ | ⟨_, many, _⟩ | ⟨_, rfl⟩
    · omega
    · omega
    · exact ⟨_, _, rfl, by omega, within, rfl⟩

/-- A client that writes the rest until nothing is left, in at most `n` calls; the copy of the call
with `k` calls to go misses `faults k` bytes. The result is the number of calls and the device. -/
def writeUntilDone (signal : Bool) (faults : Nat → Nat) : Nat → Sdev → List UInt8 → Option (Nat × Sdev)
  | _, d, [] => some (0, d)
  | 0, _, _ :: _ => none
  | n + 1, d, byte :: rest => do
    let done ← sdevWrite d signal (byte :: rest) (faults n)
    match done.ret with
    | .error _ => none
    | .ok count =>
      let (calls, d) ← writeUntilDone signal faults n done.dev ((byte :: rest).drop count)
      return (calls + 1, d)

theorem writeUntilDone_nil (signal : Bool) (faults : Nat → Nat) (n : Nat) (d : Sdev) :
    writeUntilDone signal faults n d [] = some (0, d) := by
  cases n <;> rfl

theorem writeUntilDone_error {signal : Bool} {faults : Nat → Nat} {data : List UInt8} (nonempty : data ≠ []) {e : Errno}
    {d' : Sdev} (failed : ∀ k, sdevWrite d signal data (faults k) = some ⟨.error e, [], d'⟩) (n : Nat) :
    writeUntilDone signal faults n d data = none := by
  cases data with
  | nil => exact absurd rfl nonempty
  | cons byte rest =>
    cases n with
    | zero => rfl
    | succ n => simp only [writeUntilDone, failed, Option.bind_eq_bind, Option.bind_some]

theorem writeUntilDone_ends (h : Within d) (free : 0 < d.sem) (signal : Bool) {faults : Nat → Nat}
    (few : ∀ k, faults k < 2 ^ 31) {data : List UInt8} {n : Nat} (enough : data.length ≤ n) :
    ∃ calls d', writeUntilDone signal faults n d data = some (calls, d') ∧ calls ≤ data.length := by
  induction n generalizing d data with
  | zero =>
    cases List.length_eq_zero_iff.mp (Nat.le_zero.mp enough)
    exact ⟨0, d, writeUntilDone_nil .., Nat.le_refl 0⟩
  | succ n ih =>
    cases data with
    | nil => exact ⟨0, d, writeUntilDone_nil .., Nat.le_refl 0⟩
    | cons byte rest =>
      obtain ⟨count, after, wrote, accepted, within, sem⟩ :=
        sdevWrite_accepts h free signal (List.cons_ne_nil byte rest) (few n)
      have shorter : ((byte :: rest).drop count).length ≤ n := by
        rw [List.length_drop]
        omega
      obtain ⟨calls, d', later, bound⟩ := ih within (by omega) shorter
      refine ⟨calls + 1, d', ?_, ?_⟩
      · simp only [writeUntilDone, wrote, later, Option.bind_eq_bind, Option.bind_some, Option.pure_def]
      · simp only [List.length_drop, List.length_cons] at bound ⊢
        omega

/-- The pointers, the copies and the conversions of both rings stay in bounds in every state that calls
can reach, and the writing client of `fin.c` ends. -/
theorem pointer_rings_bounded (mem : Int → UInt8) :
    (∀ g requests d, Scullb.serve (Scullb.start g mem) requests = some d →
      Scullb.Within d ∧ d.toGeometry = g ∧
      (∀ r, (ofScullbRequest d r).Inside g.buf g.bufEnd ∧ (ofScullbRequest d r).Counts (ofScullbLen r)) ∧
      (∀ r done, r.perform d = some done → (ofScullbRequest d r).Covers d.mem done.dev.mem done.delivered)) ∧
    (∀ g requests d, serve (start g mem) requests = some d →
      Within d ∧ d.toGeometry = g ∧
      (∀ c, (ofFinCall d c).Inside g.buf g.bufEnd ∧ (ofFinCall d c).Counts (ofFinLen c)) ∧
      (∀ c fault done, c.perform d fault = some done → (ofFinCall d c).Covers d.mem done.dev.mem done.delivered) ∧
      ((∀ signal data fault, (.write signal data, fault) ∈ requests → fault < 2 ^ 31) → ∀ signal (data : List UInt8),
        (∀ fault < 2 ^ 31, data ≠ [] →
          ∃ count d', sdevWrite d signal data fault = some ⟨.ok count, [], d'⟩ ∧ 1 ≤ count) ∧
        (∀ faults : Nat → Nat, (∀ k, faults k < 2 ^ 31) →
          ∃ calls d', writeUntilDone signal faults data.length d data = some (calls, d') ∧ calls ≤ data.length))) := by
  refine ⟨fun g requests d served => ?_, fun g requests d served => ?_⟩
  · obtain ⟨h, rfl⟩ := scullb_serve_geometry served
    exact ⟨h, rfl, fun r => ⟨scullb_inside h r, scullb_counts d r⟩,
      fun r done performed => (scullb_covers h performed).1⟩
  · obtain ⟨h, rfl⟩ := serve_within served
    refine ⟨h, rfl, fun c => ⟨fin_inside h c, fin_counts d c⟩, fun c fault done => fin_covers h, ?_⟩
    intro few signal data
    have free : 0 < d.sem := by
      rw [serve_released served few]
      exact Int.one_pos
    refine ⟨fun fault few nonempty => ?_, fun faults few => writeUntilDone_ends h free signal few (Nat.le_refl _)⟩
    obtain ⟨count, d', wrote, accepted, _⟩ := sdevWrite_accepts h free signal nonempty few
    exact ⟨count, d', wrote, accepted⟩

/-- The pointers are two bytes in front of the end; of five bytes the first call takes two. -/
theorem writing_client_wraps :
    ∃ d, serve (start ssizeGeometry fun _ => 0)
        [(.write false (List.replicate 38 97), 0), (.read false 38, 0)] = some d ∧
      Within d ∧
      (∃ calls d', writeUntilDone false (fun _ => 0) 5 d [98, 99, 100, 101, 102] = some (calls, d') ∧ calls ≤ 5) ∧
      (writeUntilDone false (fun _ => 0) 5 d [98, 99, 100, 101, 102]).map Prod.fst = some 2 := by
  refine ⟨_, rfl, ?_⟩
  have bounded := (pointer_rings_bounded fun _ => 0).2 ssizeGeometry
    [(.write false (List.replicate 38 97), 0), (.read false 38, 0)] _ rfl
  have few : ∀ signal data fault, (Call.write signal data, fault) ∈
      [(Call.write false (List.replicate 38 97), 0), (.read false 38, 0)] → fault < 2 ^ 31 := by
    intro signal data fault member
    have none : fault = 0 := by simp at member; exact member.2
    omega
  have ends := (bounded.2.2.2.2 few false [98, 99, 100, 101, 102]).2 (fun _ => 0) fun _ => by decide
  exact ⟨bounded.1, ends, rfl⟩

/-- A write whose copy misses `2 ^ 31` bytes takes that number for an error, and keeps the semaphore. -/
theorem sdevWrite_misread (free : d.sem = 1) {data : List UInt8} (counted : writeCount d data.length = 2 ^ 31)
    (signal : Bool) :
    sdevWrite d signal data (2 ^ 31) =
      some ⟨.error .EAGAIN, [], copyFromUser (down d) data (2 ^ 31) (2 ^ 31)⟩ := by
  have negative : toInt32 ((2 ^ 31 : Nat) : Int) < 0 := by decide
  have proceeds : ¬ d.sem ≤ 0 := by omega
  rw [sdevWrite, if_neg proceeds]
  simp only [counted, Nat.min_self, if_pos negative]

def wideGeometry : Geometry where
  buf := 0
  bufEnd := 2 ^ 32
  two_le := by decide
  fits := by decide

/-- In a buffer of `2 ^ 32` bytes: none of the bytes is accepted, and no later write returns. -/
theorem missed_half_keeps_semaphore :
    ∃ d', sdevWrite (start wideGeometry fun _ => 0) false (List.replicate (2 ^ 31) 97) (2 ^ 31) =
        some ⟨.error .EAGAIN, [], d'⟩ ∧
      (∀ data fault, sdevWrite d' false data fault = none) ∧
      ∀ n, writeUntilDone false (fun _ => 2 ^ 31) n (start wideGeometry fun _ => 0) (List.replicate (2 ^ 31) 97) =
        none := by
  have counted : writeCount (start wideGeometry fun _ => 0) (List.replicate (2 ^ 31) (97 : UInt8)).length = 2 ^ 31 := by
    rw [List.length_replicate]
    decide
  have nonempty : List.replicate (2 ^ 31) (97 : UInt8) ≠ [] := by
    rw [← List.length_pos_iff, List.length_replicate]
    decide
  generalize List.replicate (2 ^ 31) (97 : UInt8) = data at counted nonempty ⊢
  have failed := sdevWrite_misread rfl counted false
  exact ⟨_, failed, fun _ _ => rfl, writeUntilDone_error nonempty fun _ => failed⟩

/-! ### Writing once and reading once -/

/-- One write of the bytes and one read of as many returns them all. -/
def Echoes (d : Sdev) (signal signal' : Bool) (bytes : List UInt8) : Prop :=
  ∃ wrote got, sdevWrite d signal bytes 0 = some wrote ∧ sdevRead wrote.dev signal' bytes.length 0 = some got ∧
    got.ret = .ok bytes.length ∧ got.delivered = bytes

theorem haveRead_after_write (h : Within d) (empty : d.rp = d.wp) (mem : Int → UInt8) {count : Nat}
    (positive : 0 < count) (bound : d.wp + count ≤ d.bufEnd) (short : (count : Int) < d.bufEnd - d.buf) :
    haveRead (bumpWp { d with mem := mem } count) = count := by
  have bounds := h
  obtain ⟨rpLow, rpHigh, wpLow, wpHigh⟩ := bounds
  have within : Within (bumpWp { d with mem := mem } count) :=
    bumpWp_within (d := { d with mem := mem }) ⟨rpLow, rpHigh, wpLow, wpHigh⟩ bound
  by_cases wraps : d.wp + (count : Int) = d.bufEnd
  · -- a write that ends at the physical end did not start at `buf`
    rw [haveRead_behind within (by simp only [bumpWp, advance_wraps wraps]; omega)]
    simp only [bumpWp]
    omega
  · rw [haveRead_ahead within (by simp only [bumpWp, advance_stays wraps]; omega)]
    simp only [bumpWp, advance_stays wraps]
    omega

theorem readCount_after_write (h : Within d) (empty : d.rp = d.wp) (mem : Int → UInt8) {count len : Nat}
    (positive : 0 < count) (bound : d.wp + count ≤ d.bufEnd) (short : (count : Int) < d.bufEnd - d.buf)
    (enough : count ≤ len) : readCount (bumpWp { d with mem := mem } count) len = count := by
  have size := d.fits
  have low := h.rp_low
  have high := h.rp_high
  rw [readCount, haveRead_after_write h empty mem positive bound short]
  simp only [bumpWp]
  rw [toU64_of_range (by omega) (by omega)]
  omega

/-- What is written to an empty ring is read back up to the physical end of the buffer. -/
theorem read_after_write (h : Within d) (free : 0 < d.sem) (empty : d.rp = d.wp) (signal signal' : Bool)
    {bytes : List UInt8} (positive : 0 < bytes.length) (short : (bytes.length : Int) < d.bufEnd - d.buf) :
    let count := writeCount d bytes.length
    let d' := bumpWp (copyFromUser d bytes count 0) count
    sdevWrite d signal bytes 0 = some ⟨.ok count, [], d'⟩ ∧
      sdevRead d' signal' bytes.length 0 = some ⟨.ok count, bytes.take count, bumpRp d' count⟩ := by
  intro count d'
  have counted : count = min bytes.length (d.bufEnd - d.wp).toNat := writeCount_eq h bytes.length
  have bound : d.wp + count ≤ d.bufEnd := writeCount_end h bytes.length
  have high := h.wp_high
  have available : haveRead d' = count := haveRead_after_write h empty _ (by omega) bound (by omega)
  have read : readCount d' bytes.length = count :=
    readCount_after_write h empty _ (by omega) bound (by omega) (by omega)
  have back : fetch d'.mem d'.rp count = bytes.take count := by
    have length : (bytes.take count).length = count := by
      rw [List.length_take]
      omega
    have same := fetch_blit d.mem d.wp (bytes.take count)
    rw [length] at same
    simp only [d', bumpWp, copyFromUser, empty, Nat.sub_zero, List.replicate_zero, List.append_nil, same]
  refine ⟨sdevWrite_whole free signal bytes, ?_⟩
  have ready := sdevRead_ready (d := d') free (by omega) signal' bytes.length 0
  rw [read, Nat.zero_min, Nat.sub_zero, back] at ready
  exact ready

/-- The echo works exactly if the semaphore was not lost and the bytes fit in front of the physical
end of the buffer. -/
theorem echo_iff (g : Geometry) (mem : Int → UInt8) (requests : List (Call × Nat)) (d : Sdev)
    (served : serve (start g mem) requests = some d) (empty : d.rp = d.wp) (signal signal' : Bool)
    (bytes : List UInt8) (positive : 0 < bytes.length) (short : (bytes.length : Int) < g.bufEnd - g.buf) :
    Echoes d signal signal' bytes ↔ 0 < d.sem ∧ (bytes.length : Int) ≤ d.bufEnd - d.wp := by
  obtain ⟨h, rfl⟩ := serve_within served
  have high := h.wp_high
  have counted := writeCount_eq h bytes.length
  constructor
  · rintro ⟨wrote, got, writes, reads, ret, delivered⟩
    have free : 0 < d.sem := by
      by_contra taken
      rcases sdevWrite_cases writes with ⟨_, rfl⟩ | ⟨free, _⟩ | ⟨free, _⟩
      · rcases sdevRead_cases reads with ⟨_, rfl⟩ | ⟨free, _⟩
        · cases ret
        · exact taken free
      · exact taken free
      · exact taken free
    obtain ⟨writes', reads'⟩ := read_after_write h free empty signal signal' positive short
    cases writes.symm.trans writes'
    cases reads.symm.trans reads'
    have same := Except.ok.inj ret
    exact ⟨free, by omega⟩
  · rintro ⟨free, fits⟩
    obtain ⟨writes, reads⟩ := read_after_write h free empty signal signal' positive short
    have whole : writeCount d bytes.length = bytes.length := by omega
    refine ⟨_, _, writes, reads, ?_, ?_⟩
    · simp only [whole]
    · simp only [whole, List.take_length]

theorem echo_on_fresh_ring : Echoes (start ssizeGeometry fun _ => 0) false false [104, 97, 104, 97, 104, 97] :=
  (echo_iff ssizeGeometry (fun _ => 0) [] _ rfl rfl false false [104, 97, 104, 97, 104, 97] (by decide)
    (by decide)).mpr (by decide)

/-- Six bytes are written and read back six times; the seventh time only four come back. -/
theorem seventh_echo_cut :
    ∃ d, serve (start ssizeGeometry fun _ => 0)
        (List.replicate 6 [(Call.write false [104, 97, 104, 97, 104, 97], 0), (Call.read false 6, 0)]).flatten = some d ∧
      d.rp = d.wp ∧ ∃ wrote got, sdevWrite d false [104, 97, 104, 97, 104, 97] 0 = some wrote ∧
        sdevRead wrote.dev false 6 0 = some got ∧ got.ret = .ok 4 ∧ got.delivered = [104, 97, 104, 97] ∧
        ¬ Echoes d false false [104, 97, 104, 97, 104, 97] := by
  refine ⟨_, rfl, rfl, _, _, rfl, rfl, rfl, rfl, ?_⟩
  rintro ⟨wrote, got, writes, reads, ret, _⟩
  cases writes
  cases reads
  cases ret

end Ldd3.Interrupt
