import Ldd3.Block.Tasks

/-!
Bios that race. When conflicting bios of `block/bdev.c` overlap, a read may return a mixture of what
several writes put there, and two writes may leave one. But the mixture is by bytes, and every byte
of it comes from somewhere: from the disk as it was loaded, or from an accepted write of that very
byte. Nothing outside the disk is ever touched.
-/

namespace Ldd3.Block.Tasks

open Base.Cells Base.Tasks Base.Words

variable {ι : Type*} [DecidableEq ι] {c c' : Config Shared Pc ι} {d : Bdev} {t : ι} {s' : Shared} {x' : Pc}

/-- A bio that has been submitted. -/
def Seen (c : Config Shared Pc ι) (b : Bio) : Prop :=
  (∃ e ∈ c.shared.log, e.bio = b) ∨ ∃ t, (c.task t).subject = some b

def Known (d : Bdev) (c : Config Shared Pc ι) (a : Int) (byte : UInt8) : Prop :=
  byte = d.data a ∨ ∃ b, Seen c b ∧ b.written d.size a = some byte

/-- What the range check and the loop have made sure of. -/
def Placed (size : Nat) : Pc → Prop
  | .head b buf done todo => Place size b buf done todo
  | .copy b buf done cur seg todo =>
    Place size b buf done (seg :: todo) ∧ cur.length ≤ seg.length ∧ (bioDataDir b = 1 → cur = seg.take cur.length)
  | _ => True

def NoWrap (c : Config Shared Pc ι) : Prop := ∀ t b, c.task t = .check b → b.sector * 512 + b.size < 2 ^ 64

structure Traced (d : Bdev) (c : Config Shared Pc ι) : Prop where
  placed : ∀ t, Placed d.size (c.task t)
  disk : ∀ a, Known d c a (c.shared.data a)
  flying : ∀ t b, (c.task t).flying = some b → bioDataDir b = 0 →
    ∀ (k : Nat) byte, (c.task t).moved[k]? = some byte → Known d c (b.start + (k : Int)) byte
  finished : ∀ e ∈ c.shared.log, e.status = .ok () → bioDataDir e.bio = 0 →
    ∀ (k : Nat) byte, e.segs.flatten[k]? = some byte → Known d c (e.bio.start + (k : Int)) byte

omit [DecidableEq ι] in
theorem Known.mono (seen : ∀ b, Seen c b → Seen c' b) {a : Int} {byte : UInt8} (known : Known d c a byte) :
    Known d c' a byte := by
  rcases known with initial | ⟨b, submitted, written⟩
  · exact Or.inl initial
  · exact Or.inr ⟨b, seen b submitted, written⟩

/-- A bio stays submitted: the task goes on with it or it is in the log. -/
theorem seen_step {size : Nat} (stepped : PcStep size c.shared (c.task t) s' x' ()) (b : Bio) (seen : Seen c b) :
    Seen ((program size).after c t s' x' ()) b := by
  rcases seen with ⟨e, member, rfl⟩ | ⟨u, subject⟩
  · refine Or.inl ⟨e, ?_, rfl⟩
    generalize c.task t = x at stepped
    cases stepped with
    | endio => exact List.mem_append_left _ member
    | ioError => exact List.mem_append_left _ member
    | _ => exact member
  · by_cases mine : u = t
    · subst u
      have own : x'.subject = some b ∨ ∃ e ∈ s'.log, e.bio = b := by
        generalize c.task t = x at stepped subject
        cases stepped with
        | submit => cases subject
        | back => cases subject
        | endio =>
          cases subject
          exact Or.inr ⟨_, List.mem_append_right _ (List.mem_singleton_self _), rfl⟩
        | ioError =>
          cases subject
          exact Or.inr ⟨_, List.mem_append_right _ (List.mem_singleton_self _), rfl⟩
        | _ => exact Or.inl subject
      rcases own with still | logged
      · exact Or.inr ⟨t, by rw [after_same]; exact still⟩
      · exact Or.inl logged
    · exact Or.inr ⟨u, by rw [others_after mine]; exact subject⟩

theorem placed_step {size : Nat} {s s' : Shared} {x x' : Pc} (stepped : PcStep size s x s' x' ())
    (noWrap : ∀ b, x = .check b → b.sector * 512 + b.size < 2 ^ 64) (placed : Placed size x) : Placed size x' := by
  cases stepped with
  | accept b inside =>
    have small := noWrap b rfl
    rw [Bio.start_mod small]
    exact Place.begin ((fits_iff small).mp inside)
  | segment b buf done seg todo => exact ⟨placed, Nat.zero_le _, fun _ => rfl⟩
  | readByte b buf done cur seg todo dir more =>
    refine ⟨placed.1, ?_, fun write => by omega⟩
    rw [List.length_append, List.length_singleton]
    omega
  | writeByte b buf done cur seg todo byte dir more =>
    obtain ⟨place, bound, copied⟩ := placed
    obtain ⟨shorter, _⟩ := List.getElem?_eq_some_iff.mp more
    refine ⟨place, ?_, fun _ => ?_⟩
    · rw [List.length_append, List.length_singleton]
      omega
    · rw [List.length_append, List.length_singleton, List.take_add_one, more, ← copied dir]
      rfl
  | next b buf done cur seg todo whole => exact placed.1.next whole placed.2.2
  | _ => trivial

/-- The byte a write is about to store is the one it carries for that address. -/
theorem written_byte {size : Nat} {b : Bio} {buf : Int} {done todo : List (List UInt8)} {cur seg : List UInt8}
    {byte : UInt8}
    (place : Place size b buf done (seg :: todo)) (write : bioDataDir b = 1) (more : seg[cur.length]? = some byte) :
    b.written size (buf + (cur.length : Int)) = some byte := by
  have position := place.buf_eq
  obtain ⟨gone, split, _, _, written⟩ := place.passed
  obtain ⟨shorter, _⟩ := List.getElem?_eq_some_iff.mp more
  have offset : (buf + (cur.length : Int) - b.start).toNat = gone.flatten.length + cur.length := by
    rw [position, written write]
    omega
  rw [Bio.written, if_pos ⟨place.fits, write, by omega⟩, offset, split, List.flatten_append,
    List.getElem?_append_right (Nat.le_add_right _ _), Nat.add_sub_cancel_left, List.flatten_cons,
    List.getElem?_append_left shorter, more]

theorem disk_step {size : Nat} {s s' : Shared} {x x' : Pc} {a : Int} (stepped : PcStep size s x s' x' ())
    (placed : Placed size x) :
    s'.data a = s.data a ∨ ∃ b, x'.subject = some b ∧ b.written size a = some (s'.data a) := by
  cases stepped with
  | writeByte b buf done cur seg todo byte dir more =>
    by_cases here : a = buf + (cur.length : Int)
    · subst here
      refine Or.inr ⟨b, rfl, ?_⟩
      simp only [Function.update_self]
      exact written_byte placed.1 dir more
    · exact Or.inl (Function.update_of_ne here _ _)
  | _ => exact Or.inl rfl

theorem moved_step {size : Nat} {s s' : Shared} {x x' : Pc} {b : Bio} {k : Nat} {byte : UInt8}
    (stepped : PcStep size s x s' x' ()) (placed : Placed size x) (flies : x'.flying = some b)
    (read : bioDataDir b = 0)
    (moved : x'.moved[k]? = some byte) :
    (x.flying = some b ∧ x.moved[k]? = some byte) ∨ byte = s.data (b.start + (k : Int)) := by
  cases stepped with
  | accept b inside =>
    simp only [Pc.moved, List.flatten_nil, List.getElem?_nil] at moved
    cases moved
  | segment b buf done seg todo =>
    simp only [Pc.moved, List.append_nil] at moved
    exact Or.inl ⟨flies, moved⟩
  | readByte b buf done cur seg todo dir more =>
    cases flies
    have position := placed.1.buf_eq
    simp only [Pc.moved] at moved
    rw [← List.append_assoc, List.getElem?_append] at moved
    split at moved
    · exact Or.inl ⟨rfl, moved⟩
    · rename_i past
      obtain ⟨last, value⟩ := List.getElem?_eq_some_iff.mp moved
      rw [List.length_singleton] at last
      rw [List.length_append] at past last
      refine Or.inr ?_
      rw [← value, List.getElem_singleton]
      congr 1
      omega
  | writeByte b buf done cur seg todo byte dir more =>
    cases flies
    omega
  | next b buf done cur seg todo whole =>
    simp only [Pc.moved, List.flatten_append, List.flatten_singleton] at moved
    exact Or.inl ⟨flies, moved⟩
  | _ => cases flies

theorem log_step {size : Nat} {s s' : Shared} {x x' : Pc} {e : Entry} (stepped : PcStep size s x s' x' ())
    (member : e ∈ s'.log) (fine : e.status = .ok ()) :
    e ∈ s.log ∨ (x.flying = some e.bio ∧ x.moved = e.segs.flatten) := by
  cases stepped with
  | endio b buf done =>
    rcases List.mem_append.mp member with earlier | last
    · exact Or.inl earlier
    · cases List.mem_singleton.mp last
      exact Or.inr ⟨rfl, rfl⟩
  | ioError b segs =>
    rcases List.mem_append.mp member with earlier | last
    · exact Or.inl earlier
    · cases List.mem_singleton.mp last
      cases fine
  | _ => exact Or.inl member

theorem Traced.step (traced : Traced d c) (noWrap : NoWrap c) (stepped : PcStep d.size c.shared (c.task t) s' x' ()) :
    Traced d ((program d.size).after c t s' x' ()) := by
  have more : ∀ {a byte}, Known d c a byte → Known d ((program d.size).after c t s' x' ()) a byte := fun known =>
    known.mono (seen_step stepped)
  refine ⟨?_, ?_, ?_, ?_⟩
  · intro u
    by_cases mine : u = t
    · subst u
      rw [after_same]
      exact placed_step stepped (noWrap t) (traced.placed t)
    · rw [others_after mine]
      exact traced.placed u
  · intro a
    rw [after_shared]
    rcases disk_step (a := a) stepped (traced.placed t) with same | ⟨b, subject, written⟩
    · rw [same]
      exact more (traced.disk a)
    · exact Or.inr ⟨b, Or.inr ⟨t, by rw [after_same]; exact subject⟩, written⟩
  · intro u b flies read k byte moved
    by_cases mine : u = t
    · subst u
      rw [after_same] at flies moved
      rcases moved_step stepped (traced.placed t) flies read moved with ⟨before, earlier⟩ | fresh
      · exact more (traced.flying t b before read k byte earlier)
      · rw [fresh]
        exact more (traced.disk _)
    · rw [others_after mine] at flies moved
      exact more (traced.flying u b flies read k byte moved)
  · intro e member fine read k byte got
    rcases log_step stepped member fine with earlier | ⟨flies, moved⟩
    · exact more (traced.finished e earlier fine read k byte got)
    · rw [← moved] at got
      exact more (traced.flying t e.bio flies read k byte got)

/-- Whatever races there are, a byte that a read returns and a byte on the disk was there from the
start or is one that a submitted write carries for just that address; and nothing outside the disk
changes. -/
theorem racing_bios_traced (d : Bdev) (keeping : (program d.size).Keeping NoWrap (loaded ι d) c) :
    (∀ e ∈ c.shared.log, e.status = .ok () → bioDataDir e.bio = 0 → ∀ (k : Nat) byte, e.segs.flatten[k]? = some byte →
      Known d c (e.bio.start + (k : Int)) byte) ∧
    (∀ a, Known d c a (c.shared.data a)) ∧
    ∀ a, a < 0 ∨ (d.size : Int) ≤ a → c.shared.data a = d.data a := by
  have traced : Traced d c := by
    refine keeping.invariant (I := Traced d) ?_ ?_
    · refine ⟨fun _ => trivial, fun _ => Or.inl rfl, ?_, ?_⟩
      · intro t b flies
        cases flies
      · intro e member
        cases member
    · intro c t s' x' n noWrap _ traced stepped
      exact traced.step noWrap stepped
  refine ⟨traced.finished, traced.disk, fun a outside => ?_⟩
  rcases traced.disk a with initial | ⟨b, _, written⟩
  · exact initial
  · have length := b.length_flatten
    unfold Bio.written at written
    split at written
    · rename_i range
      obtain ⟨fits, _, low⟩ := range
      obtain ⟨inside, _⟩ := List.getElem?_eq_some_iff.mp written
      unfold Bio.Fits at fits
      unfold Bio.start at low inside
      omega
    · cases written

theorem keeping_step (keeping : (program d.size).Keeping NoWrap (loaded ι d) c) (t : ι)
    (stepped : PcStep d.size c.shared (c.task t) s' x' ())
    (small : ∀ b, x' = .check b → b.sector * 512 + b.size < 2 ^ 64) :
    (program d.size).Keeping NoWrap (loaded ι d) ((program d.size).after c t s' x' ()) := by
  refine keeping.step t stepped fun u b checks => ?_
  by_cases mine : u = t
  · subst u
    rw [after_same] at checks
    exact small b checks
  · rw [others_after mine] at checks
    exact keeping.ok u b checks

def writeTwo : Bio := ⟨0, 2, 1, [[7, 8]], by decide⟩

def readTwo : Bio := ⟨0, 2, 0, [[1, 1]], by decide⟩

/-- A read of two bytes takes the first before and the second after a write of both. -/
theorem racing_bios_traced_torn :
    ∃ c : Config Shared Pc (Fin 2), (program twoSectors.size).Keeping NoWrap (loaded (Fin 2) twoSectors) c ∧
      c.shared.log.map Entry.segs = [[[0, 8]]] ∧ Known twoSectors c 1 8 := by
  have start : (program twoSectors.size).Keeping NoWrap (loaded (Fin 2) twoSectors) (loaded (Fin 2) twoSectors) :=
    .init fun _ _ checks => by cases checks
  have run := keeping_step start 1 (.submit _ readTwo) fun _ same => by cases same; decide
  have run := keeping_step run 1 (.accept _ readTwo (by decide)) fun _ same => by cases same
  have run := keeping_step run 1 (.segment _ _ _ _ _ _) fun _ same => by cases same
  have run := keeping_step run 1 (.readByte _ _ _ _ _ _ _ (by decide) (by decide)) fun _ same => by cases same
  have run := keeping_step run 0 (.submit _ writeTwo) fun _ same => by cases same; decide
  have run := keeping_step run 0 (.accept _ writeTwo (by decide)) fun _ same => by cases same
  have run := keeping_step run 0 (.segment _ _ _ _ _ _) fun _ same => by cases same
  have run := keeping_step run 0 (.writeByte _ _ _ _ _ _ _ 7 rfl rfl) fun _ same => by cases same
  have run := keeping_step run 0 (.writeByte _ _ _ _ _ _ _ 8 rfl rfl) fun _ same => by cases same
  have run := keeping_step run 1 (.readByte _ _ _ _ _ _ _ (by decide) (by decide)) fun _ same => by cases same
  have run := keeping_step run 1 (.next _ _ _ _ _ _ _ (by decide)) fun _ same => by cases same
  have run := keeping_step run 1 (.endio _ _ _ _) fun _ same => by cases same
  obtain ⟨c, segs, run, log, rfl⟩ : ∃ (c : Config Shared Pc (Fin 2)) (segs : _),
      (program twoSectors.size).Keeping NoWrap (loaded (Fin 2) twoSectors) c ∧
      c.shared.log = [⟨readTwo, segs, .ok ()⟩] ∧ segs = [[0, 8]] := ⟨_, _, run, rfl, by decide +kernel⟩
  have known := (racing_bios_traced twoSectors run).1 ⟨readTwo, [[0, 8]], .ok ()⟩ (by simp [log]) rfl rfl 1 8 rfl
  refine ⟨c, run, by rw [log]; rfl, ?_⟩
  simpa [Bio.start, readTwo] using known

end Ldd3.Block.Tasks
